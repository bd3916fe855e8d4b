import AgentGrove.Coop.Ranking
import AgentGrove.Prompts.Identity

namespace AgentGrove

open Coop

/-- The keys of the tables, all ids issued. -/
structure Tables (rows : List ChatRow) (prompts : List PromptRow) (nextId : Uuid) : Prop
    extends Tabled prompts nextId where
  rowIds : (rows.map ChatRow.id).Nodup
  rowsIssued : ∀ row ∈ rows, row.id < nextId
  owned : ∀ p ∈ prompts, ∃ row ∈ rows, row.id = p.chatId

/-- The ids listed under a project are those of its cached chats. -/
def Indexed (reg : ChatRegistry) : Prop :=
  ∀ project, (reg.projectIds project).Nodup ∧
    ∀ id, id ∈ reg.projectIds project ↔ ∃ chat, reg.get id = some chat ∧ chat.projectId = project

section Rows

variable {rows : List ChatRow} {row : ChatRow} {c d : Uuid}

theorem get_stored_concat (hnew : row.id ∉ rows.map ChatRow.id) : ChatRepo.get (rows ++ [row]) d =
    if d = row.id then some row else ChatRepo.get rows d := by
  unfold ChatRepo.get
  rw [List.find?_append]
  by_cases hd : d = row.id
  · have hnone : rows.find? (fun r => r.id = d) = none := by
      rw [List.find?_eq_none]
      intro r hr hid
      exact hnew (List.mem_map.mpr ⟨r, hr, (of_decide_eq_true hid).trans hd⟩)
    rw [hnone, if_pos hd, hd]
    simp
  · simp [hd, Ne.symm hd]

theorem id_of_get (h : ChatRepo.get rows c = some row) : row.id = c := by
  unfold ChatRepo.get at h
  simpa using List.find?_some h

theorem ids_updateRow {f : ChatRow → ChatRow} (hf : ∀ r, (f r).id = r.id) :
    (ChatRepo.updateRow c f rows).map ChatRow.id = rows.map ChatRow.id := by
  simp only [ChatRepo.updateRow, List.map_map]
  refine List.map_congr_left fun r _ => ?_
  simp only [Function.comp]
  split
  · exact hf r
  · rfl

end Rows

section Listing

variable {prompts : List PromptRow} {row : PromptRow} {c : Uuid}

theorem mem_listPrompts : row ∈ ChatRepo.listPrompts prompts c ↔ row ∈ prompts ∧ row.chatId = c := by
  simp [ChatRepo.listPrompts]

/-- The prompts of a chat are what its rows are, in order of their seqs. -/
theorem listPrompts_eq {l : List PromptRow} (hp : (prompts.filter (fun p => p.chatId = c)).Perm l)
    (hl : l.Pairwise (fun a b => a.seq < b.seq)) : ChatRepo.listPrompts prompts c = l := by
  have htotal : Std.Total (fun a b : PromptRow => a.seq ≤ b.seq) := ⟨fun a b => Nat.le_total a.seq b.seq⟩
  have htrans : IsTrans PromptRow (fun a b => a.seq ≤ b.seq) := ⟨fun _ _ _ => Nat.le_trans⟩
  exact insertionSort_strict (r := fun a b : PromptRow => a.seq ≤ b.seq)
    (s := fun a b => a.seq < b.seq) (fun _ _ h => ⟨Nat.le_of_lt h, Nat.not_le_of_lt h⟩) hp hl

/-- A row whose seq is above all others of its chat comes last. -/
theorem listPrompts_concat (hs : (prompts.map (fun r => (r.chatId, r.seq))).Nodup)
    (hlast : ∀ q ∈ prompts, q.chatId = row.chatId → q.seq < row.seq) :
    ChatRepo.listPrompts (prompts ++ [row]) c =
      if row.chatId = c then ChatRepo.listPrompts prompts c ++ [row]
      else ChatRepo.listPrompts prompts c := by
  by_cases hc : row.chatId = c
  · rw [if_pos hc]
    apply listPrompts_eq
    · rw [List.filter_append]
      simp only [hc, decide_true, List.filter_cons_of_pos, List.filter_nil]
      exact ((List.perm_insertionSort _ _).symm).append_right _
    · rw [List.pairwise_append]
      refine ⟨listPrompts_ordered hs c, List.pairwise_singleton _ _, fun a ha b hb => ?_⟩
      rw [List.mem_singleton.mp hb]
      obtain ⟨hm, hac⟩ := mem_listPrompts.mp ha
      exact hlast a hm (hac.trans hc.symm)
  · rw [if_neg hc]
    simp [ChatRepo.listPrompts, hc]

theorem listPrompts_filter (hs : (prompts.map (fun r => (r.chatId, r.seq))).Nodup)
    (keep : PromptRow → Bool) : ChatRepo.listPrompts (prompts.filter keep) c =
      (ChatRepo.listPrompts prompts c).filter keep := by
  apply listPrompts_eq
  · rw [List.filter_comm]
    exact ((List.perm_insertionSort _ _).symm).filter _
  · exact (listPrompts_ordered hs c).filter _

/-- Changing rows in place leaves them in their places. -/
theorem listPrompts_updatePrompt {f : PromptRow → PromptRow} {p : Uuid}
    (hf : ∀ r, (f r).chatId = r.chatId ∧ (f r).seq = r.seq) :
    ChatRepo.listPrompts (ChatRepo.updatePrompt p f prompts) c =
      (ChatRepo.listPrompts prompts c).map (fun r => if r.id = p then f r else r) := by
  have hone : ∀ r, (if r.id = p then f r else r).chatId = r.chatId ∧
      (if r.id = p then f r else r).seq = r.seq := by
    intro r
    split
    · exact hf r
    · exact ⟨rfl, rfl⟩
  unfold ChatRepo.listPrompts ChatRepo.updatePrompt
  rw [List.map_insertionSort (r := fun a b : PromptRow => a.seq ≤ b.seq)
    (s := fun a b : PromptRow => a.seq ≤ b.seq), List.filter_map]
  · congr 2
    apply List.filter_congr
    intro r _
    simp only [Function.comp, (hone r).1]
  · intro a _ b _
    simp only [(hone a).2, (hone b).2]

end Listing

section Index

variable {reg reg' : ChatRegistry} {record : ChatRecord} {c : Uuid}

theorem Indexed.mem_iff (h : Indexed reg) {project : Uuid} :
    c ∈ reg.projectIds project ↔ (reg.get c).map ChatRecord.projectId = some project :=
  ((h project).2 c).trans Option.map_eq_some_iff.symm

theorem Indexed.congr (h : Indexed reg) (hp : ∀ project, reg'.projectIds project = reg.projectIds project)
    (hg : ∀ c, (reg'.get c).map ChatRecord.projectId = (reg.get c).map ChatRecord.projectId) :
    Indexed reg' := by
  intro project
  rw [hp project]
  refine ⟨(h project).1, fun id => ?_⟩
  rw [h.mem_iff, ← hg id, Option.map_eq_some_iff]

theorem Indexed.chatMut (h : Indexed reg) {f : ChatRecord → ChatRecord}
    (hf : ∀ chat, (f chat).projectId = chat.projectId) : Indexed (reg.chatMut c f) := by
  refine h.congr (fun project => ?_) fun d => ?_
  · simp only [ChatRegistry.projectIds, ChatRegistry.byProject_chatMut]
  · rw [ChatRegistry.get_chatMut]
    split
    · rename_i hd
      rw [hd, Option.map_map]
      congr 1
      funext chat
      exact hf chat
    · rfl

theorem projectIds_ingestChat (project : Uuid) : (reg.ingestChat record).projectIds project =
    if project = record.projectId then reg.projectIds project ++ [record.id]
    else reg.projectIds project := by
  simp only [ChatRegistry.ingestChat, ChatRegistry.pushProject, ChatRegistry.projectIds,
    ChatRegistry.lookup_insert]
  split
  · rename_i he
    rw [he]
    rfl
  · rfl

/-- A chat that was not cached yet. -/
theorem Indexed.ingestChat (h : Indexed reg) (hnew : reg.get record.id = none) :
    Indexed (reg.ingestChat record) := by
  intro project
  obtain ⟨hnodup, hmem⟩ := h project
  have hout : record.id ∉ reg.projectIds project := by
    intro hin
    obtain ⟨chat, hget, -⟩ := (hmem record.id).mp hin
    rw [hnew] at hget
    cases hget
  rw [projectIds_ingestChat]
  refine ⟨?_, fun id => ?_⟩
  · split
    · rw [List.nodup_append]
      refine ⟨hnodup, List.nodup_singleton _, fun a ha b hb he => hout ?_⟩
      rw [← List.mem_singleton.mp hb, ← he]
      exact ha
    · exact hnodup
  · rw [ChatRegistry.get_ingestChat]
    by_cases hid : id = record.id
    · subst hid
      by_cases hp : project = record.projectId
      · simp [hp]
      · simp [hp, Ne.symm hp, hout]
    · by_cases hp : project = record.projectId
      · simp only [hp, ↓reduceIte, List.mem_append, List.mem_singleton, hid, or_false]
        exact hp ▸ hmem id
      · simpa only [hp, hid, ↓reduceIte] using hmem id

theorem projectIds_evict (h : Indexed reg) (project : Uuid) :
    (reg.evict c).projectIds project = (reg.projectIds project).filter (fun i => i != c) := by
  have hsame : (∀ chat, reg.get c = some chat → chat.projectId ≠ project) →
      (reg.projectIds project).filter (fun i => i != c) = reg.projectIds project := by
    intro hne
    rw [List.filter_eq_self]
    intro i hi
    rw [bne_iff_ne]
    rintro rfl
    obtain ⟨chat, hget, hp⟩ := ((h project).2 i).mp hi
    exact hne chat hget hp
  unfold ChatRegistry.evict
  cases hget : reg.get c with
  | none =>
    refine (hsame fun chat hc => ?_).symm
    rw [hget] at hc
    cases hc
  | some record =>
    by_cases hp : project = record.projectId
    · subst hp
      cases hl : reg.byProject.lookup record.projectId with
      | none => simp [ChatRegistry.projectIds, hl]
      | some ids => simp [ChatRegistry.projectIds, hl]
    · rw [hsame]
      · cases hl : reg.byProject.lookup record.projectId with
        | none => simp [ChatRegistry.projectIds, hl]
        | some ids => simp [ChatRegistry.projectIds, hl, hp]
      · intro chat hc
        rw [hget] at hc
        cases hc
        exact Ne.symm hp

theorem Indexed.evict (h : Indexed reg) (c : Uuid) : Indexed (reg.evict c) := by
  intro project
  rw [projectIds_evict h]
  refine ⟨(h project).1.filter _, fun id => ?_⟩
  rw [List.mem_filter, (h project).2, bne_iff_ne, ChatRegistry.get_evict]
  by_cases hid : id = c
  · simp [hid]
  · simp [hid]

end Index

/-- Rows that keep their ids may change otherwise. -/
theorem Tables.rows {rows rows' : List ChatRow} {prompts : List PromptRow} {nextId : Uuid}
    (h : Tables rows prompts nextId) (hids : rows'.map ChatRow.id = rows.map ChatRow.id) :
    Tables rows' prompts nextId where
  toTabled := h.toTabled
  rowIds := hids ▸ h.rowIds
  rowsIssued row hrow := by
    have hm : row.id ∈ rows.map ChatRow.id := hids ▸ List.mem_map_of_mem hrow
    obtain ⟨r, hr, he⟩ := List.mem_map.mp hm
    exact he ▸ h.rowsIssued r hr
  owned p hp := by
    obtain ⟨r, hr, he⟩ := h.owned p hp
    have hm : r.id ∈ rows'.map ChatRow.id := hids ▸ List.mem_map_of_mem hr
    obtain ⟨r', hr', he'⟩ := List.mem_map.mp hm
    exact ⟨r', hr', he'.trans he⟩

/-- So may prompts. -/
theorem Tables.prompts {rows : List ChatRow} {prompts prompts' : List PromptRow} {nextId : Uuid}
    (h : Tables rows prompts nextId) (hkeys : prompts'.map PromptRow.key = prompts.map PromptRow.key) :
    Tables rows prompts' nextId where
  ids := by
    have hids := congrArg (List.map Prod.fst) hkeys
    rw [List.map_map, List.map_map] at hids
    exact (show prompts'.map PromptRow.id = prompts.map PromptRow.id from hids) ▸ h.ids
  seqs := by
    have hseqs := congrArg (List.map (fun k => (k.2.1, k.2.2.1))) hkeys
    rw [List.map_map, List.map_map] at hseqs
    exact (show prompts'.map (fun r => (r.chatId, r.seq)) = prompts.map (fun r => (r.chatId, r.seq)) from
      hseqs) ▸ h.seqs
  rowIds := h.rowIds
  rowsIssued := h.rowsIssued
  issued row hrow := by
    have hm : row.key ∈ prompts.map PromptRow.key := hkeys ▸ List.mem_map_of_mem hrow
    obtain ⟨r, hr, he⟩ := List.mem_map.mp hm
    exact lt_of_eq_of_lt (congrArg Prod.fst he).symm (h.issued r hr)
  owned row hrow := by
    have hm : row.key ∈ prompts.map PromptRow.key := hkeys ▸ List.mem_map_of_mem hrow
    obtain ⟨r, hr, he⟩ := List.mem_map.mp hm
    obtain ⟨c, hc, hid⟩ := h.owned r hr
    exact ⟨c, hc, hid.trans (congrArg (fun k => k.2.1) he)⟩

section Startup

variable {rows : List ChatRow} {row : ChatRow} {record : ChatRow → ChatRecord} {c : Uuid}

theorem find_row (hids : (rows.map ChatRow.id).Nodup) :
    rows.find? (fun r => r.id = c) = some row ↔ row ∈ rows ∧ row.id = c := by
  constructor
  · intro h
    exact ⟨List.mem_of_find?_eq_some h, by simpa using List.find?_some h⟩
  · rintro ⟨hm, hid⟩
    cases hfind : rows.find? (fun r => r.id = c) with
    | none => exact absurd (decide_eq_true hid) (List.find?_eq_none.mp hfind row hm)
    | some r =>
      have hr : r.id = c := by simpa using List.find?_some hfind
      rw [List.inj_on_of_nodup_map hids (List.mem_of_find?_eq_some hfind) hm (hr.trans hid.symm)]

/-- Caching rows of different ids one after the other. -/
theorem get_ingestAll (hrecord : ∀ r, (record r).id = r.id) (hids : (rows.map ChatRow.id).Nodup)
    (reg : ChatRegistry) : (rows.foldl (fun reg r => reg.ingestChat (record r)) reg).get c =
      ((rows.find? (fun r => r.id = c)).map record).or (reg.get c) := by
  induction rows generalizing reg with
  | nil => rfl
  | cons r rows ih =>
    rw [List.map_cons, List.nodup_cons] at hids
    rw [List.foldl_cons, ih hids.2, ChatRegistry.get_ingestChat, hrecord]
    by_cases hc : r.id = c
    · have hnone : rows.find? (fun r => r.id = c) = none := by
        rw [List.find?_eq_none]
        intro r' hr' hid
        exact hids.1 (List.mem_map.mpr ⟨r', hr', (of_decide_eq_true hid).trans hc.symm⟩)
      simp [hnone, hc]
    · simp [hc, Ne.symm hc]

theorem indexed_ingestAll (hrecord : ∀ r, (record r).id = r.id) (hids : (rows.map ChatRow.id).Nodup)
    {reg : ChatRegistry} (hreg : Indexed reg) (hnew : ∀ r ∈ rows, reg.get r.id = none) :
    Indexed (rows.foldl (fun reg r => reg.ingestChat (record r)) reg) := by
  induction rows generalizing reg with
  | nil => exact hreg
  | cons r rows ih =>
    rw [List.map_cons, List.nodup_cons] at hids
    refine ih hids.2 (hreg.ingestChat ?_) fun r' hr' => ?_
    · rw [hrecord]
      exact hnew r (List.mem_cons_self ..)
    · rw [ChatRegistry.get_ingestChat, hrecord, if_neg]
      · exact hnew r' (List.mem_cons_of_mem _ hr')
      · intro he
        exact hids.1 (List.mem_map.mpr ⟨r', hr', he⟩)

theorem nodup_listAll (hids : (rows.map ChatRow.id).Nodup) :
    ((ChatRepo.listAll rows).map ChatRow.id).Nodup := by
  unfold ChatRepo.listAll
  rw [List.Perm.nodup_iff ((List.perm_insertionSort _ _).map _)]
  exact hids.sublist (List.filter_sublist.map _)

/-- A restart caches the chats that are not deleted, with the prompts stored for them. -/
theorem get_hydrate {store : Store} (hids : (store.chats.map ChatRow.id).Nodup) :
    (hydrateFromStore store).get c =
      ((ChatRepo.get store.chats c).filter (fun row => row.deletedAt.isNone)).map (fun row =>
        recordOfRow row ((ChatRepo.listPrompts store.prompts row.id).map promptOfRow)) := by
  unfold hydrateFromStore
  rw [get_ingestAll (fun _ => rfl) (nodup_listAll hids), ChatRegistry.get_empty, Option.or_none]
  congr 1
  ext row
  rw [find_row (nodup_listAll hids), Option.filter_eq_some_iff, ChatRepo.get, find_row hids]
  simp only [ChatRepo.listAll, List.mem_insertionSort, List.mem_filter]
  tauto

theorem indexed_hydrate {store : Store} (hids : (store.chats.map ChatRow.id).Nodup) :
    Indexed (hydrateFromStore store) := by
  refine indexed_ingestAll (fun _ => rfl) (nodup_listAll hids) (fun project => ?_) fun _ _ => rfl
  exact ⟨List.nodup_nil, fun id => by simp [ChatRegistry.projectIds, ChatRegistry.empty, ChatRegistry.get]⟩

end Startup

end AgentGrove
