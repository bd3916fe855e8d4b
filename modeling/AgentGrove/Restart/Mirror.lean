import AgentGrove.Restart.Tables
import AgentGrove.Updates.Calls

namespace AgentGrove

open Coop

/-- What a restart has to bring back of a prompt: id, seq, content and events. -/
abbrev KeptPrompt := Uuid × Nat × Text × List AgentEvent

/-- And of a chat: project, the columns that updates may change, and prompts. -/
abbrev KeptChat := Uuid × Fields × List KeptPrompt

def PromptRecord.kept (p : PromptRecord) : KeptPrompt := (p.id, p.seq, p.content, p.events)

def ChatRecord.kept (c : ChatRecord) : KeptChat :=
  (c.projectId, c.fields, c.prompts.map PromptRecord.kept)

def PromptRow.kept (row : PromptRow) : KeptPrompt := (row.id, row.seq, row.content, row.events)

/-- Both sides of the cache: the tables it mirrors, and the cache itself. -/
structure Sides where
  rows : List ChatRow
  prompts : List PromptRow
  cache : ChatRegistry
  nextId : Uuid

def sides (s : AppState) : Sides := ⟨s.store.chats, s.store.prompts, s.chats, s.nextId⟩

/-- What the tables have of a chat that is not deleted. -/
def Sides.stored (u : Sides) (c : Uuid) : Option KeptChat :=
  ((ChatRepo.get u.rows c).filter (fun row => row.deletedAt.isNone)).map (fun row =>
    (row.projectId, row.fields, (ChatRepo.listPrompts u.prompts c).map PromptRow.kept))

/-- The cache mirrors the tables. -/
structure Mirrored (u : Sides) : Prop extends Tables u.rows u.prompts u.nextId where
  indexed : Indexed u.cache
  agrees : ∀ c, (u.cache.get c).map ChatRecord.kept = u.stored c

namespace Mirrored

variable {u : Sides} {c d : Uuid}

theorem uncached (h : Mirrored u) : u.cache.get c = none ↔ u.stored c = none := by
  rw [← h.agrees c, Option.map_eq_none_iff]

/-- A cached chat has a row, and cache and tables say the same of it. -/
theorem cached (h : Mirrored u) {chat : ChatRecord} (hget : u.cache.get c = some chat) :
    ∃ row, ChatRepo.get u.rows c = some row ∧ row.deletedAt = none ∧
      chat.projectId = row.projectId ∧ chat.fields = row.fields ∧
        chat.prompts.map PromptRecord.kept = (ChatRepo.listPrompts u.prompts c).map PromptRow.kept := by
  have ha := h.agrees c
  rw [hget, Option.map_some, Sides.stored, eq_comm, Option.map_eq_some_iff] at ha
  obtain ⟨row, hrow, hkept⟩ := ha
  obtain ⟨hr, hlive⟩ := Option.filter_eq_some_iff.mp hrow
  simp only [ChatRecord.kept, Prod.mk.injEq] at hkept
  exact ⟨row, hr, Option.isNone_iff_eq_none.mp hlive, hkept.1.symm, hkept.2.1.symm, hkept.2.2.symm⟩

/-- Only what the cache answers matters. -/
theorem congr {reg : ChatRegistry} (h : Mirrored u) (hg : ∀ d, reg.get d = u.cache.get d)
    (hp : ∀ project, reg.projectIds project = u.cache.projectIds project) :
    Mirrored { u with cache := reg } where
  toTables := h.toTables
  indexed := h.indexed.congr hp fun d => by rw [hg d]
  agrees d := by
    rw [hg d]
    exact h.agrees d

theorem create {row : ChatRow} (h : Mirrored u) (hid : row.id = u.nextId) (hlive : row.deletedAt = none) :
    Mirrored ⟨u.rows ++ [row], u.prompts, u.cache.ingestChat (recordOfRow row []), u.nextId + 1⟩ := by
  have hnew : row.id ∉ u.rows.map ChatRow.id := by
    intro hm
    obtain ⟨r, hr, he⟩ := List.mem_map.mp hm
    exact Nat.lt_irrefl _ ((he.trans hid) ▸ h.rowsIssued r hr)
  have hnone : ChatRepo.get u.rows row.id = none := by
    unfold ChatRepo.get
    rw [List.find?_eq_none]
    intro r hr he
    exact hnew (List.mem_map.mpr ⟨r, hr, of_decide_eq_true he⟩)
  have hempty : ChatRepo.listPrompts u.prompts row.id = [] := by
    rw [List.eq_nil_iff_forall_not_mem]
    intro p hp
    obtain ⟨hm, hc⟩ := mem_listPrompts.mp hp
    obtain ⟨r, hr, he⟩ := h.owned p hm
    exact hnew (List.mem_map.mpr ⟨r, hr, he.trans hc⟩)
  refine ⟨⟨⟨h.ids, h.seqs, fun p hp => Nat.lt_succ_of_lt (h.issued p hp)⟩, ?_, ?_, fun p hp => ?_⟩, ?_,
    fun c => ?_⟩
  · rw [List.map_append, List.nodup_append]
    refine ⟨h.rowIds, List.nodup_singleton _, fun a ha b hb he => hnew ?_⟩
    rw [← List.mem_singleton.mp hb, ← he]
    exact ha
  · intro r hr
    rcases List.mem_append.mp hr with hr | hr
    · exact Nat.lt_succ_of_lt (h.rowsIssued r hr)
    · rw [List.mem_singleton.mp hr, hid]
      exact Nat.lt_succ_self _
  · obtain ⟨r, hr, he⟩ := h.owned p hp
    exact ⟨r, List.mem_append_left _ hr, he⟩
  · apply h.indexed.ingestChat
    exact h.uncached.mpr (by simp only [recordOfRow, Sides.stored, hnone]; rfl)
  · simp only [ChatRegistry.get_ingestChat, Sides.stored, get_stored_concat hnew]
    by_cases hc : c = row.id
    · simp [hc, recordOfRow, hlive, hempty, ChatRecord.kept, ChatRecord.fields, ChatRow.fields]
    · simp only [recordOfRow, hc, ↓reduceIte]
      exact h.agrees c

/-- The columns of a chat change, and its cached record with them. -/
theorem update {f : ChatRow → ChatRow} {g : ChatRecord → ChatRecord} (h : Mirrored u)
    (hf : ∀ r, (f r).id = r.id ∧ (f r).projectId = r.projectId ∧ (f r).deletedAt = r.deletedAt)
    (hg : ∀ chat, (g chat).projectId = chat.projectId ∧ (g chat).prompts = chat.prompts)
    (hs : ∀ chat row, u.cache.get c = some chat → chat.fields = row.fields →
      (g chat).fields = (f row).fields) :
    Mirrored { u with rows := ChatRepo.updateRow c f u.rows, cache := u.cache.chatMut c g } where
  toTables := h.toTables.rows (ids_updateRow fun r => (hf r).1)
  indexed := h.indexed.chatMut fun chat => (hg chat).1
  agrees d := by
    simp only [ChatRegistry.get_chatMut, Sides.stored, get_updateRow fun r => (hf r).1]
    by_cases hd : d = c
    · subst hd
      simp only [↓reduceIte]
      cases hget : u.cache.get d with
      | none =>
        have hnone := h.uncached.mp hget
        unfold Sides.stored at hnone
        cases hrow : ChatRepo.get u.rows d with
        | none => rfl
        | some row =>
          simp only [hrow, Option.map_eq_none_iff, Option.filter_eq_none_iff] at hnone
          simpa [(hf row).2.2] using hnone
      | some chat =>
        obtain ⟨row, hrow, hlive, hproject, hfields, hprompts⟩ := h.cached hget
        have hf' := hf row
        have hg' := hg chat
        simp [hrow, hf'.2.2, hlive, ChatRecord.kept, hg'.1, hg'.2, hproject, hf'.2.1, hprompts, hs chat row hget hfields]
    · simp only [hd, ↓reduceIte]
      exact h.agrees d

/-- Columns that a restart does not look at. -/
theorem touch {f : ChatRow → ChatRow} (h : Mirrored u) (hf : ∀ r, (f r).id = r.id ∧
    (f r).projectId = r.projectId ∧ (f r).deletedAt = r.deletedAt ∧ (f r).fields = r.fields) :
    Mirrored { u with rows := ChatRepo.updateRow c f u.rows } := by
  have hsame := h.update (c := c) (g := id) (fun r => ⟨(hf r).1, (hf r).2.1, (hf r).2.2.1⟩)
    (fun _ => ⟨rfl, rfl⟩) fun chat row _ hs => hs.trans (hf row).2.2.2.symm
  refine hsame.congr (fun d => ?_) fun project => ?_
  · by_cases hd : d = c
    · simp [hd]
    · simp [hd]
  · simp only [ChatRegistry.projectIds, ChatRegistry.byProject_chatMut]

/-- An update whose decision about the model is right for the cached chat. -/
theorem patch {p : ChatRepo.Patch} {b : Bool} (h : Mirrored u)
    (hb : ∀ chat, u.cache.get c = some chat → b = p.changes chat.fields) (now : Nat) :
    Mirrored { u with
      rows := ChatRepo.updateRow c (ChatRepo.patchRow (p.decided b) now) u.rows
      cache := u.cache.chatMut c (applyPatch (p.decided b)) } := by
  refine h.update (fun _ => ⟨rfl, rfl, rfl⟩) (fun chat => ⟨?_, prompts_applyPatch _ chat⟩)
    fun chat row hget he => ?_
  · unfold applyPatch
    cases (p.decided b).title <;> cases (p.decided b).model <;> cases (p.decided b).effort <;>
      cases (p.decided b).sessionId <;> dsimp only <;> split <;> rfl
  · rw [applyPatch_decided (hb chat hget), patchRow_fields, put_decided (he ▸ hb chat hget), he]

/-- Nor does it look at the paths that a prompt touched. -/
theorem touchPaths (h : Mirrored u) (p : Uuid) (paths : List Text) :
    Mirrored { u with
      prompts := ChatRepo.updatePrompt p (fun r => { r with touchedPaths := paths }) u.prompts } where
  toTables := by
    refine h.toTables.prompts ?_
    simp only [ChatRepo.updatePrompt, List.map_map]
    refine List.map_congr_left fun r _ => ?_
    simp only [Function.comp]
    split
    · rfl
    · rfl
  indexed := h.indexed
  agrees d := by
    rw [h.agrees d]
    let f : PromptRow → PromptRow := fun r => { r with touchedPaths := paths }
    have hlist : ChatRepo.listPrompts (ChatRepo.updatePrompt p f u.prompts) d =
        (ChatRepo.listPrompts u.prompts d).map (fun r => if r.id = p then f r else r) :=
      listPrompts_updatePrompt fun _ => ⟨rfl, rfl⟩
    have hkept : PromptRow.kept ∘ (fun r => if r.id = p then f r else r) = PromptRow.kept := by
      funext r
      simp only [Function.comp]
      split
      · rfl
      · rfl
    change _ = Option.map _ _
    rw [hlist]
    simp only [Sides.stored, List.map_map, hkept]

/-- Ids may be used up for other things. -/
theorem issue (h : Mirrored u) : Mirrored { u with nextId := u.nextId + 1 } where
  ids := h.ids
  seqs := h.seqs
  issued p hp := Nat.lt_succ_of_lt (h.issued p hp)
  rowIds := h.rowIds
  rowsIssued r hr := Nat.lt_succ_of_lt (h.rowsIssued r hr)
  owned := h.owned
  indexed := h.indexed
  agrees := h.agrees

theorem delete (h : Mirrored u) (now : Nat) :
    Mirrored { u with rows := ChatRepo.delete now c u.rows, cache := u.cache.evict c } := by
  have hf : ∀ r : ChatRow, (if r.deletedAt.isNone then { r with deletedAt := some now } else r).id =
      r.id := by
    intro r
    split <;> rfl
  refine ⟨h.toTables.rows (ids_updateRow hf), h.indexed.evict c, fun d => ?_⟩
  simp only [ChatRegistry.get_evict, Sides.stored, ChatRepo.delete, get_updateRow hf]
  by_cases hd : d = c
  · subst hd
    cases hrow : ChatRepo.get u.rows d with
    | none => simp
    | some row =>
      cases hdel : row.deletedAt with
      | none => simp [hdel]
      | some t => simp [hdel]
  · simp only [hd, ↓reduceIte]
    exact h.agrees d

/-- A deleted chat comes back without prompts, and it has none. -/
theorem restore {row : ChatRow} (h : Mirrored u) (hrow : ChatRepo.get u.rows c = some row)
    (hdel : row.deletedAt.isSome) (hempty : ChatRepo.listPrompts u.prompts c = []) :
    Mirrored { u with
      rows := ChatRepo.restore c u.rows
      cache := u.cache.ingestChat (recordOfRow { row with deletedAt := none } []) } := by
  have hf : ∀ r : ChatRow, ({ r with deletedAt := none } : ChatRow).id = r.id := fun _ => rfl
  have hid : row.id = c := id_of_get hrow
  have hnone : u.cache.get row.id = none := by
    apply h.uncached.mpr
    obtain ⟨t, ht⟩ := Option.isSome_iff_exists.mp hdel
    simp [Sides.stored, hid, hrow, ht]
  refine ⟨h.toTables.rows (ids_updateRow hf), h.indexed.ingestChat hnone, fun d => ?_⟩
  simp only [ChatRegistry.get_ingestChat, Sides.stored, ChatRepo.restore, get_updateRow hf, recordOfRow, hid]
  by_cases hd : d = c
  · subst hd
    simp [hrow, hempty, ChatRecord.kept, ChatRecord.fields, ChatRow.fields]
  · simp only [hd, ↓reduceIte]
    exact h.agrees d

/-- A prompt that the store issues is cached behind the others. -/
theorem addPrompt {row : PromptRow} {prompt : PromptRecord} (h : Mirrored u) (hid : row.id = u.nextId)
    (hrow : ∃ r ∈ u.rows, r.id = row.chatId)
    (hseq : ∀ q ∈ u.prompts, q.chatId = row.chatId → q.seq < row.seq) (hp : prompt.kept = row.kept) :
    Mirrored ⟨u.rows, u.prompts ++ [row], (u.cache.ingestPrompt row.chatId prompt).2, u.nextId + 1⟩ where
  ids := by
    rw [List.map_append, List.nodup_append]
    refine ⟨h.ids, List.nodup_singleton _, fun a ha b hb he => ?_⟩
    obtain ⟨p, hp, rfl⟩ := List.mem_map.mp ha
    rw [List.mem_singleton.mp hb, hid] at he
    exact Nat.lt_irrefl _ (he ▸ h.issued p hp)
  seqs := by
    rw [List.map_append, List.nodup_append]
    refine ⟨h.seqs, List.nodup_singleton _, fun a ha b hb he => ?_⟩
    obtain ⟨p, hp, rfl⟩ := List.mem_map.mp ha
    rw [List.mem_singleton.mp hb, Prod.mk.injEq] at he
    exact Nat.lt_irrefl _ (he.2 ▸ hseq p hp he.1)
  issued p hp := by
    rcases List.mem_append.mp hp with hp | hp
    · exact Nat.lt_succ_of_lt (h.issued p hp)
    · rw [List.mem_singleton.mp hp, hid]
      exact Nat.lt_succ_self _
  rowIds := h.rowIds
  rowsIssued r hr := Nat.lt_succ_of_lt (h.rowsIssued r hr)
  owned p hp := by
    rcases List.mem_append.mp hp with hp | hp
    · exact h.owned p hp
    · rw [List.mem_singleton.mp hp]
      exact hrow
  indexed := h.indexed.chatMut fun _ => rfl
  agrees d := by
    simp only [ChatRegistry.ingestPrompt, ChatRegistry.get_chatMut, Sides.stored,
      listPrompts_concat h.seqs hseq]
    by_cases hd : d = row.chatId
    · subst hd
      let put : KeptChat → KeptChat := fun k => (k.1, k.2.1, k.2.2 ++ [row.kept])
      have ha := congrArg (Option.map put) (h.agrees row.chatId)
      simp only [Sides.stored, Option.map_map] at ha
      simp only [↓reduceIte, Option.map_map]
      convert ha using 2
      · funext chat
        simp [ChatRecord.kept, ChatRecord.fields, put, hp]
      · funext r
        simp [put]
    · simp only [hd, Ne.symm hd, ↓reduceIte]
      exact h.agrees d

end Mirrored

section Events

variable {u : Sides} {p c d : Uuid} {events : List AgentEvent} {chat : ChatRecord} {q : PromptRecord}

/-- The tables once the events of a prompt have been written. -/
def Sides.write (u : Sides) (p : Uuid) (events : List AgentEvent) : Sides :=
  { u with prompts := ChatRepo.updatePrompt p (fun r => { r with events := events }) u.prompts }

def amend (p : Uuid) (events : List AgentEvent) (k : KeptPrompt) : KeptPrompt :=
  if k.1 = p then (k.1, k.2.1, k.2.2.1, events) else k

def amendChat (p : Uuid) (events : List AgentEvent) (k : KeptChat) : KeptChat :=
  (k.1, k.2.1, k.2.2.map (amend p events))

@[simp] theorem write_write (events' : List AgentEvent) :
    (u.write p events').write p events = u.write p events := by
  simp only [Sides.write, ChatRepo.updatePrompt, List.map_map]
  congr 1
  refine List.map_congr_left fun r _ => ?_
  simp only [Function.comp]
  split <;> simp_all

theorem stored_write : (u.write p events).stored d = (u.stored d).map (amendChat p events) := by
  have hlist : ChatRepo.listPrompts (u.write p events).prompts d = (ChatRepo.listPrompts u.prompts d).map
      (fun r => if r.id = p then { r with events := events } else r) :=
    listPrompts_updatePrompt fun _ => ⟨rfl, rfl⟩
  simp only [Sides.stored, hlist, Option.map_map, List.map_map]
  congr 1
  funext row
  simp only [Function.comp, amendChat, List.map_map, Prod.mk.injEq, true_and]
  refine List.map_congr_left fun r _ => ?_
  by_cases hr : r.id = p
  · simp [amend, PromptRow.kept, hr]
  · simp [amend, PromptRow.kept, hr]

theorem keys_write : (u.write p events).prompts.map PromptRow.key = u.prompts.map PromptRow.key := by
  simp only [Sides.write, ChatRepo.updatePrompt, List.map_map]
  refine List.map_congr_left fun r _ => ?_
  simp only [Function.comp]
  split
  · rfl
  · rfl

theorem mem_write {row : PromptRow} (hrow : row ∈ (u.write p events).prompts) (hid : row.id = p) :
    row.events = events := by
  obtain ⟨old, -, rfl⟩ := List.mem_map.mp hrow
  by_cases hp : old.id = p
  · simp [hp]
  · simp [hp] at hid

namespace Mirrored

/-- The events of a prompt change on both sides. -/
theorem rewrite {reg : ChatRegistry} (h : Mirrored u) (hi : Indexed reg)
    (hg : ∀ d, (reg.get d).map ChatRecord.kept =
      ((u.cache.get d).map ChatRecord.kept).map (amendChat p events)) :
    Mirrored { u.write p events with cache := reg } where
  toTables := h.toTables.prompts keys_write
  indexed := hi
  agrees d := by
    rw [hg d, h.agrees d]
    exact stored_write.symm

/-- Cached prompts are rows of their chat. -/
theorem row_of_cached (h : Mirrored u) (hget : u.cache.get d = some chat) (hq : q ∈ chat.prompts) :
    ∃ row ∈ u.prompts, row.chatId = d ∧ row.kept = q.kept := by
  obtain ⟨-, -, -, -, -, hprompts⟩ := h.cached hget
  have hm : q.kept ∈ (ChatRepo.listPrompts u.prompts d).map PromptRow.kept :=
    hprompts ▸ List.mem_map_of_mem hq
  obtain ⟨row, hrow, he⟩ := List.mem_map.mp hm
  obtain ⟨hin, hc⟩ := mem_listPrompts.mp hrow
  exact ⟨row, hin, hc, he⟩

theorem ids_cached (h : Mirrored u) (hget : u.cache.get d = some chat) :
    (chat.prompts.map PromptRecord.id).Nodup := by
  obtain ⟨-, -, -, -, -, hprompts⟩ := h.cached hget
  have hids := congrArg (List.map Prod.fst) hprompts
  rw [List.map_map, List.map_map] at hids
  have hrows : ((ChatRepo.listPrompts u.prompts d).map PromptRow.id).Nodup := by
    unfold ChatRepo.listPrompts
    rw [List.Perm.nodup_iff ((List.perm_insertionSort _ _).map _)]
    exact h.ids.sublist (List.filter_sublist.map _)
  exact (show chat.prompts.map PromptRecord.id = (ChatRepo.listPrompts u.prompts d).map PromptRow.id from
    hids) ▸ hrows

/-- Prompts of one id are one prompt. -/
theorem row_unique (h : Mirrored u) {row row' : PromptRow} (hrow : row ∈ u.prompts) (hrow' : row' ∈ u.prompts)
    (he : row.id = row'.id) : row = row' :=
  List.inj_on_of_nodup_map h.ids hrow hrow' he

/-- A chat without the prompt has nothing to change. -/
theorem amend_other (h : Mirrored u) (hget : u.cache.get d = some chat)
    (hno : ∀ row ∈ u.prompts, row.id = p → row.chatId ≠ d) : amendChat p events chat.kept = chat.kept := by
  have hsame : ∀ k ∈ chat.prompts.map PromptRecord.kept, amend p events k = k := by
    intro k hk
    obtain ⟨q, hq, rfl⟩ := List.mem_map.mp hk
    obtain ⟨row, hrow, hc, he⟩ := h.row_of_cached hget hq
    have hid : row.id = q.id := congrArg Prod.fst he
    refine if_neg fun hp => hno row hrow (hid.trans hp) hc
  simp only [amendChat, ChatRecord.kept, List.map_congr_left hsame, List.map_id']

/-- Changing the events of a prompt in the one chat that has it. -/
theorem amended {g : ChatRecord → ChatRecord} {row : PromptRow} (h : Mirrored u) (hrow : row ∈ u.prompts)
    (hid : row.id = p) (hc : row.chatId = c) (hproject : ∀ chat, (g chat).projectId = chat.projectId)
    (hg : ∀ chat, u.cache.get c = some chat → (g chat).kept = amendChat p events chat.kept) :
    Mirrored { u.write p events with cache := u.cache.chatMut c g } := by
  refine h.rewrite (h.indexed.chatMut hproject) fun d => ?_
  rw [ChatRegistry.get_chatMut]
  by_cases hd : d = c
  · rw [if_pos hd, hd]
    cases hget : u.cache.get c with
    | none => rfl
    | some chat => simp only [Option.map_some, hg chat hget]
  · rw [if_neg hd]
    cases hget : u.cache.get d with
    | none => rfl
    | some chat =>
      rw [Option.map_some, Option.map_some, h.amend_other hget fun r hr hp hrd => hd ?_]
      rw [← hrd, h.row_unique hr hrow (hp.trans hid.symm), hc]

/-- The events that a prompt has may be written. -/
theorem write_self (h : Mirrored u) (p : Uuid) : ∃ events, u.write p events = u := by
  suffices hwrite : ∃ events, ∀ r ∈ u.prompts,
      (if r.id = p then { r with events := events } else r) = r by
    obtain ⟨events, hw⟩ := hwrite
    refine ⟨events, ?_⟩
    simp only [Sides.write, ChatRepo.updatePrompt, List.map_congr_left hw, List.map_id']
  by_cases hex : ∃ row ∈ u.prompts, row.id = p
  · obtain ⟨row, hrow, hid⟩ := hex
    refine ⟨row.events, fun r hr => ?_⟩
    split
    · rename_i hp
      rw [h.row_unique hr hrow (hp.trans hid.symm)]
    · rfl
  · exact ⟨[], fun r hr => if_neg fun hp => hex ⟨r, hr, hp⟩⟩

end Mirrored

theorem updatePrompt_absent {ps : List PromptRecord} (f : PromptRecord → PromptRecord)
    (hno : ∀ q ∈ ps, q.id ≠ p) : ChatRegistry.updatePrompt ps p f = ps := by
  induction ps with
  | nil => rfl
  | cons q ps ih =>
    simp only [ChatRegistry.updatePrompt, if_neg (hno q (List.mem_cons_self ..)),
      ih fun r hr => hno r (List.mem_cons_of_mem _ hr)]

theorem amend_absent {ps : List PromptRecord} (hno : ∀ q ∈ ps, q.id ≠ p) :
    (ps.map PromptRecord.kept).map (amend p events) = ps.map PromptRecord.kept := by
  rw [List.map_map]
  exact List.map_congr_left fun q hq => if_neg (hno q hq)

/-- The first prompt of an id is the only one. -/
theorem kept_updatePrompt {ps : List PromptRecord} {f : PromptRecord → PromptRecord}
    (hids : (ps.map PromptRecord.id).Nodup)
    (hf : ∀ q ∈ ps, q.id = p → (f q).kept = (q.id, q.seq, q.content, events)) :
    (ChatRegistry.updatePrompt ps p f).map PromptRecord.kept =
      (ps.map PromptRecord.kept).map (amend p events) := by
  induction ps with
  | nil => rfl
  | cons q ps ih =>
    rw [List.map_cons, List.nodup_cons] at hids
    by_cases hq : q.id = p
    · have hno : ∀ r ∈ ps, r.id ≠ p := by
        intro r hr he
        exact hids.1 (List.mem_map.mpr ⟨r, hr, he.trans hq.symm⟩)
      simp only [ChatRegistry.updatePrompt, hq, ↓reduceIte, List.map_cons, amend_absent hno,
        hf q (List.mem_cons_self ..) hq]
      simp [amend, PromptRecord.kept, hq]
    · simp only [ChatRegistry.updatePrompt, hq, ↓reduceIte, List.map_cons,
        ih hids.2 fun r hr => hf r (List.mem_cons_of_mem _ hr)]
      simp [amend, PromptRecord.kept, hq]

/-- The cache mirrors the tables but for the events of one prompt. -/
def Unwritten (p : Uuid) (u : Sides) : Prop := ∃ events, Mirrored (u.write p events)

theorem Mirrored.unwritten (h : Mirrored u) (p : Uuid) : Unwritten p u := by
  obtain ⟨events, he⟩ := h.write_self p
  refine ⟨events, ?_⟩
  rw [he]
  exact h

/-- An event that the cache and the table get both. -/
theorem Mirrored.append_row {row : PromptRow} (h : Mirrored u) (hrow : row ∈ u.prompts) (hid : row.id = p)
    (hc : row.chatId = c) (ev : AgentEvent) :
    Mirrored { u.write p (ChatRegistry.pushEvent row.events ev) with
      cache := u.cache.appendEvent c p ev } := by
  refine h.amended hrow hid hc (fun _ => rfl) fun chat hget => ?_
  simp only [ChatRecord.kept, ChatRecord.fields, amendChat, Prod.mk.injEq, true_and]
  refine kept_updatePrompt (h.ids_cached hget) fun q hq hqp => ?_
  obtain ⟨r, hr, -, hk⟩ := h.row_of_cached hget hq
  have hrid : r.id = q.id := congrArg Prod.fst hk
  rw [h.row_unique hr hrow (hrid.trans (hqp.trans hid.symm))] at hk
  have hevents : row.events = q.events := congrArg (fun k => k.2.2.2) hk
  rw [PromptRecord.kept, hevents]

theorem Mirrored.append (h : Mirrored u) (c p : Uuid) (ev : AgentEvent) :
    Unwritten p { u with cache := u.cache.appendEvent c p ev } := by
  by_cases hex : ∃ row ∈ u.prompts, row.id = p ∧ row.chatId = c
  · obtain ⟨row, hrow, hid, hc⟩ := hex
    exact ⟨ChatRegistry.pushEvent row.events ev, h.append_row hrow hid hc ev⟩
  · have hsame : Mirrored { u with cache := u.cache.appendEvent c p ev } := by
      refine h.congr (fun d => ?_) fun project => ?_
      · simp only [ChatRegistry.appendEvent, ChatRegistry.get_chatMut]
        split
        · rename_i hd
          cases hget : u.cache.get c with
          | none => rw [hd, hget, Option.map_none]
          | some chat =>
            rw [hd, hget, Option.map_some, updatePrompt_absent]
            intro q hq hqp
            obtain ⟨r, hr, hc, hk⟩ := h.row_of_cached hget hq
            exact hex ⟨r, hr, (congrArg Prod.fst hk).trans hqp, hc⟩
        · rfl
      · simp only [ChatRegistry.projectIds, ChatRegistry.appendEvent, ChatRegistry.byProject_chatMut]
    exact hsame.unwritten p

/-- Resetting the last prompt, as a retry does. -/
theorem Mirrored.retry {prompt : PromptRecord} {reg : ChatRegistry} (h : Mirrored u)
    (hr : u.cache.retryPrompt c = some (prompt, reg)) : Unwritten prompt.id { u with cache := reg } := by
  unfold ChatRegistry.retryPrompt at hr
  split at hr
  · cases hr
  rename_i chat hget
  split at hr
  · cases hr
  rename_i last hlast
  cases hr
  obtain ⟨row, hrow, hc, hk⟩ := h.row_of_cached hget (List.mem_of_getLast? hlast)
  refine ⟨[], h.amended hrow (congrArg Prod.fst hk) hc (fun _ => rfl) fun chat' hget' => ?_⟩
  rw [hget] at hget'
  cases hget'
  have hids := h.ids_cached hget
  obtain ⟨front, hfront⟩ := List.getLast?_eq_some_iff.mp hlast
  rw [hfront, List.map_append, List.nodup_append] at hids
  have hno : ∀ q ∈ front, q.id ≠ (ChatRegistry.resetPrompt last).id := by
    intro q hq
    exact hids.2.2 q.id (List.mem_map_of_mem hq) last.id (List.mem_singleton.mpr rfl)
  simp only [ChatRecord.kept, ChatRecord.fields, amendChat, hfront, List.dropLast_concat, List.map_append, Prod.mk.injEq,
    true_and, amend_absent hno, List.map_cons, List.map_nil]
  simp [amend, PromptRecord.kept, ChatRegistry.resetPrompt]

namespace Unwritten

/-- What is found in the cache is what has to be written. -/
theorem found {start : Nat} (h : Unwritten p u) (hq : u.cache.findPrompt start p = some q) :
    Mirrored (u.write p q.events) := by
  obtain ⟨events, hm⟩ := h
  obtain ⟨d, chat, hget, hfind⟩ := ChatRegistry.findPrompt_some hq
  obtain ⟨row, hrow, -, hk⟩ := hm.row_of_cached hget (List.mem_of_find?_eq_some hfind)
  have hid : q.id = p := by simpa using List.find?_some hfind
  have hevents : row.events = events := mem_write hrow ((congrArg Prod.fst hk).trans hid)
  have hsame : row.events = q.events := congrArg (fun k => k.2.2.2) hk
  rw [← hsame, hevents]
  exact hm

/-- A prompt that is not cached has nothing to write. -/
theorem missing {start : Nat} (h : Unwritten p u) (hq : u.cache.findPrompt start p = none) :
    Mirrored u := by
  obtain ⟨events, hm⟩ := h
  have hno : ∀ d chat, u.cache.get d = some chat → ∀ q ∈ chat.prompts, q.id ≠ p := by
    intro d chat hget q hqm hid
    cases hfind : chat.prompts.find? (fun q => q.id = p) with
    | none => exact List.find?_eq_none.mp hfind q hqm (decide_eq_true hid)
    | some r =>
      have hsome := ChatRegistry.findPrompt_isSome hget hfind start
      rw [hq] at hsome
      cases hsome
  refine ⟨hm.toTables.prompts keys_write.symm, hm.indexed, fun d => ?_⟩
  have ha : (u.cache.get d).map ChatRecord.kept = _ := (hm.agrees d).trans stored_write
  cases hget : u.cache.get d with
  | none =>
    rw [hget, Option.map_none, eq_comm, Option.map_eq_none_iff] at ha
    rw [ha, Option.map_none]
  | some chat =>
    rw [hget, Option.map_some, eq_comm, Option.map_eq_some_iff] at ha
    obtain ⟨k, hk, he⟩ := ha
    have hprompts : k.2.2.map (amend p events) = chat.prompts.map PromptRecord.kept :=
      congrArg (fun k => k.2.2) he
    have hsame : ∀ x ∈ k.2.2, amend p events x = x := by
      intro x hx
      refine if_neg fun hxp => ?_
      have hm : amend p events x ∈ chat.prompts.map PromptRecord.kept :=
        hprompts ▸ List.mem_map_of_mem hx
      obtain ⟨q, hqm, hqx⟩ := List.mem_map.mp hm
      refine hno d chat hget q hqm ((congrArg Prod.fst hqx).trans ?_)
      simp [amend, hxp]
    rw [hk, Option.map_some, ← he]
    simp only [amendChat, List.map_congr_left hsame, List.map_id']

theorem append (h : Unwritten p u) (c : Uuid) (ev : AgentEvent) :
    Unwritten p { u with cache := u.cache.appendEvent c p ev } := by
  obtain ⟨events, hm⟩ := h
  obtain ⟨events', hm'⟩ := hm.append c p ev
  refine ⟨events', ?_⟩
  rw [← write_write events]
  exact hm'

end Unwritten

/-- A truncation takes prompts out of the cache that are still to be deleted. -/
theorem Mirrored.truncate {seq : Nat} {removed : List Uuid} {reg : ChatRegistry} (h : Mirrored u)
    (hr : u.cache.truncateFromSeq c seq = some (removed, reg)) :
    Mirrored { u with cache := reg, prompts := u.prompts.filter (fun r => r.id ∉ removed) } := by
  unfold ChatRegistry.truncateFromSeq at hr
  split at hr
  · cases hr
  rename_i chat hget
  cases hr
  obtain ⟨row, hrow, hlive, hproject, hfields, hprompts⟩ := h.cached hget
  -- The removed ids are those of the chat's rows from `seq` on.
  have hremoved : ∀ row ∈ u.prompts, row.id ∈ (chat.prompts.filter (fun p => seq ≤ p.seq)).map PromptRecord.id ↔
      row.chatId = c ∧ seq ≤ row.seq := by
    intro row hrow
    constructor
    · intro hm
      obtain ⟨q, hq, hid⟩ := List.mem_map.mp hm
      obtain ⟨hqm, hqs⟩ := List.mem_filter.mp hq
      obtain ⟨r, hr, hc, hk⟩ := h.row_of_cached hget hqm
      have hsame := h.row_unique hr hrow ((congrArg Prod.fst hk).trans hid)
      have hseq : r.seq = q.seq := congrArg (fun k => k.2.1) hk
      subst hsame
      exact ⟨hc, hseq ▸ of_decide_eq_true hqs⟩
    · rintro ⟨hc, hs⟩
      have hm : row.kept ∈ chat.prompts.map PromptRecord.kept :=
        hprompts ▸ List.mem_map_of_mem (mem_listPrompts.mpr ⟨hrow, hc⟩)
      obtain ⟨q, hq, hk⟩ := List.mem_map.mp hm
      have hseq : q.seq = row.seq := congrArg (fun k => k.2.1) hk
      exact List.mem_map.mpr ⟨q, List.mem_filter.mpr ⟨hq, decide_eq_true (hseq ▸ hs)⟩, congrArg Prod.fst hk⟩
  refine ⟨⟨⟨?_, ?_, fun r hr => ?_⟩, h.rowIds, h.rowsIssued, fun r hr => ?_⟩, ?_, fun d => ?_⟩
  · exact h.ids.sublist (List.filter_sublist.map _)
  · exact h.seqs.sublist (List.filter_sublist.map _)
  · exact h.issued r (List.mem_filter.mp hr).1
  · exact h.owned r (List.mem_filter.mp hr).1
  · exact h.indexed.chatMut fun _ => rfl
  · have ha := h.agrees d
    simp only [ChatRegistry.get_chatMut, Sides.stored, listPrompts_filter h.seqs]
    by_cases hd : d = c
    · subst hd
      have hfilter : ((ChatRepo.listPrompts u.prompts d).filter (fun r =>
          r.id ∉ (chat.prompts.filter (fun p => seq ≤ p.seq)).map PromptRecord.id)).map PromptRow.kept =
          (chat.prompts.filter (fun p => p.seq < seq)).map PromptRecord.kept := by
        have hpred : ∀ r ∈ ChatRepo.listPrompts u.prompts d,
            decide (r.id ∉ (chat.prompts.filter (fun p => seq ≤ p.seq)).map PromptRecord.id) =
              ((fun k : KeptPrompt => decide (k.2.1 < seq)) ∘ PromptRow.kept) r := by
          intro r hr
          obtain ⟨hm, hc⟩ := mem_listPrompts.mp hr
          change _ = decide (r.seq < seq)
          rw [decide_eq_decide, hremoved r hm]
          simp [hc]
        have hlift : (chat.prompts.filter (fun p => p.seq < seq)).map PromptRecord.kept =
            (chat.prompts.map PromptRecord.kept).filter (fun k => decide (k.2.1 < seq)) := by
          rw [List.filter_map]
          rfl
        rw [List.filter_congr hpred, ← List.filter_map, hlift, hprompts]
      simp only [↓reduceIte, hget, hrow, hlive, hfilter, Option.map_some, Option.filter_some,
        Option.isNone_none, ChatRecord.kept, hproject]
      exact congrArg (fun f => some (row.projectId, f, _)) hfields
    · have hkeep : ∀ r ∈ ChatRepo.listPrompts u.prompts d,
          decide (r.id ∉ (chat.prompts.filter (fun p => seq ≤ p.seq)).map PromptRecord.id) = true := by
        intro r hr
        obtain ⟨hm, hc⟩ := mem_listPrompts.mp hr
        rw [decide_eq_true_eq, hremoved r hm]
        exact fun hx => hd (hc.symm.trans hx.1)
      rw [if_neg hd, List.filter_eq_self.mpr hkeep]
      exact ha

end Events

/-- What a restart caches is what the tables have. -/
theorem kept_hydrate {s : AppState} (hids : (s.store.chats.map ChatRow.id).Nodup) (c : Uuid) :
    ((hydrateFromStore s.store).get c).map ChatRecord.kept = (sides s).stored c := by
  simp only [get_hydrate hids, sides, Sides.stored, Option.map_map]
  apply Option.map_congr
  intro row hrow
  have hid : row.id = c := id_of_get (Option.filter_eq_some_iff.mp hrow).1
  subst hid
  simp only [Function.comp, ChatRecord.kept, recordOfRow, List.map_map]
  rfl

theorem mirrored_startup {s : AppState} (now : Nat)
    (h : Tables s.store.chats s.store.prompts s.nextId) : Mirrored (sides (startup now s)) where
  toTables := h
  indexed := by
    have hids : ((startup now s).store.chats.map ChatRow.id).Nodup := h.rowIds
    exact indexed_hydrate hids
  agrees := by
    have hids : ((startup now s).store.chats.map ChatRow.id).Nodup := h.rowIds
    exact kept_hydrate hids

end AgentGrove
