import AgentGrove.Proofs.Basic
import AgentGrove.Restart.Chats
import AgentGrove.Restart.Index

namespace AgentGrove.ChatCache

open Slots

/-- A chat of the store that is not deleted. -/
def Live (rows : List ChatRow) (id : Uuid) : Prop := ∃ row ∈ rows, row.id = id ∧ row.deletedAt = none

/-- A handler owns a cached chat that it has put there under an id of its own, or that it is going to take out. -/
def Handler.Owns (id projectId : Uuid) : Handler → Prop
  | .evicting c => c = id
  | .inserting forked => forked.id = id
  | .rekeying tempId _ => tempId = id
  | .dropping project _ => project = projectId
  | .reloading _ | .ingesting _ => False

/-- A cached chat is one of the store, or a handler in flight owns it. -/
def Accounted (s : State) (id projectId : Uuid) : Prop :=
  Live s.store.chats id ∨ ∃ h ∈ s.handlers, h.Owns id projectId

/-- The two maps of the cache describe the same chats, none of which is a ghost. -/
structure Held (s : State) : Prop where
  indexed : Indexed s.chats
  accounted : ∀ id chat, s.chats.get id = some chat → Accounted s id chat.projectId

variable {s : State} {home : Uuid → Uuid} {id n project : Uuid}

/-- `fork` caches the copy under the id it is given. -/
theorem fork_ingests {reg reg' : ChatRegistry} {newId now sourceId upToSeq : Nat} {forked : ChatRecord}
    (h : reg.fork newId now sourceId upToSeq = some (forked, reg')) :
    forked.id = newId ∧ reg' = reg.ingestChat forked := by
  unfold ChatRegistry.fork at h
  cases hget : reg.get sourceId with
  | none =>
    rw [hget] at h
    cases h
  | some source =>
    rw [hget] at h
    dsimp only at h
    split at h
    · cases h
    · cases h
      exact ⟨rfl, rfl⟩

/-! ### Every chat stays in its project -/

/-- What a handler holds on to is of the projects that the ids belong to. -/
def Handler.Placed (home : Uuid → Uuid) (nextId : Uuid) : Handler → Prop
  | .ingesting record => record.projectId = home record.id ∧ record.id < nextId
  | .inserting forked => forked.projectId = home forked.id ∧ forked.id < nextId
  | .rekeying tempId storeId => home storeId = home tempId ∧ tempId < storeId ∧ storeId < nextId
  | .dropping project ids => ∀ id ∈ ids, home id = project ∧ id < nextId
  | .evicting _ | .reloading _ => True

/-- Ids are keys, have been issued, and belong to one project for good. -/
structure Placed (home : Uuid → Uuid) (s : State) : Prop where
  rowIds : (s.store.chats.map ChatRow.id).Nodup
  rows : ∀ row ∈ s.store.chats, row.projectId = home row.id ∧ row.id < s.nextId
  cached : ∀ id chat, s.chats.get id = some chat → chat.id = id ∧ chat.projectId = home id ∧ id < s.nextId
  handlers : ∀ h ∈ s.handlers, h.Placed home s.nextId

/-- An id that has not been issued yet may go to any project. -/
theorem home_issue (hid : id < n) : Function.update home n project id = home id :=
  Function.update_of_ne (Nat.ne_of_lt hid) _ _

theorem Handler.Placed.issue {h : Handler} (hh : h.Placed home n) :
    h.Placed (Function.update home n project) (n + 1) := by
  cases h with
  | evicting | reloading => trivial
  | ingesting record | inserting record => exact ⟨by rw [home_issue hh.2, hh.1], Nat.lt_succ_of_lt hh.2⟩
  | rekeying tempId storeId =>
    obtain ⟨hhome, hlt, hissued⟩ := hh
    exact ⟨by rw [home_issue hissued, home_issue (hlt.trans hissued), hhome], hlt, Nat.lt_succ_of_lt hissued⟩
  | dropping p ids =>
    intro id hid
    obtain ⟨hhome, hissued⟩ := hh id hid
    exact ⟨by rw [home_issue hissued, hhome], Nat.lt_succ_of_lt hissued⟩

theorem Placed.issue (h : Placed home s) :
    Placed (Function.update home s.nextId project) { s with nextId := s.nextId + 1 } where
  rowIds := h.rowIds
  rows row hrow := by
    obtain ⟨hhome, hissued⟩ := h.rows row hrow
    exact ⟨by rw [home_issue hissued, hhome], Nat.lt_succ_of_lt hissued⟩
  cached id chat hget := by
    obtain ⟨hid, hhome, hissued⟩ := h.cached id chat hget
    exact ⟨hid, by rw [home_issue hissued, hhome], Nat.lt_succ_of_lt hissued⟩
  handlers k hk := (h.handlers k hk).issue

theorem Placed.push (h : Placed home s) {k : Handler} (hk : k.Placed home s.nextId) : Placed home (s.push k) where
  rowIds := h.rowIds
  rows := h.rows
  cached := h.cached
  handlers j hj := by
    rcases List.mem_append.mp hj with hj | hj
    · exact h.handlers j hj
    · rw [List.mem_singleton.mp hj]
      exact hk

theorem Placed.setChats (h : Placed home s) {reg : ChatRegistry}
    (hreg : ∀ id chat, reg.get id = some chat → chat.id = id ∧ chat.projectId = home id ∧ id < s.nextId) :
    Placed home { s with chats := reg } :=
  ⟨h.rowIds, h.rows, hreg, h.handlers⟩

theorem Placed.evict (h : Placed home s) (id : Uuid) : Placed home { s with chats := s.chats.evict id } := by
  refine h.setChats fun d chat hget => ?_
  rw [ChatRegistry.get_evict] at hget
  split at hget
  · cases hget
  · exact h.cached d chat hget

theorem Placed.ingestChat (h : Placed home s) {record : ChatRecord} (hproject : record.projectId = home record.id)
    (hid : record.id < s.nextId) : Placed home { s with chats := s.chats.ingestChat record } := by
  refine h.setChats fun d chat hget => ?_
  rw [ChatRegistry.get_ingestChat] at hget
  split at hget
  · rename_i hd
    cases hget
    exact ⟨hd.symm, hd ▸ hproject, hd ▸ hid⟩
  · exact h.cached d chat hget

theorem Placed.updateRow (h : Placed home s) {f : ChatRow → ChatRow}
    (hf : ∀ r, (f r).id = r.id ∧ (f r).projectId = r.projectId) :
    Placed home (s.setRows (ChatRepo.updateRow id f s.store.chats)) where
  rowIds := by
    have hids : (ChatRepo.updateRow id f s.store.chats).map ChatRow.id = s.store.chats.map ChatRow.id :=
      ids_updateRow fun r => (hf r).1
    exact hids ▸ h.rowIds
  rows row hrow := by
    obtain ⟨r, hr, rfl⟩ := List.mem_map.mp hrow
    split
    · rw [(hf r).1, (hf r).2]
      exact h.rows r hr
    · exact h.rows r hr
  cached := h.cached
  handlers := h.handlers

theorem Placed.delete (h : Placed home s) (now : Nat) (id : Uuid) :
    Placed home (s.setRows (ChatRepo.delete now id s.store.chats)) := by
  refine h.updateRow fun r => ?_
  split
  · exact ⟨rfl, rfl⟩
  · exact ⟨rfl, rfl⟩

theorem Placed.restore (h : Placed home s) (id : Uuid) :
    Placed home (s.setRows (ChatRepo.restore id s.store.chats)) :=
  h.updateRow fun _ => ⟨rfl, rfl⟩

/-- A row of the store takes the next id. -/
theorem Placed.insertRow (h : Placed home s) (now : Nat) (projectId : Uuid) (worktreeId : Option Uuid)
    (title provider model : Text) (effort : Option Text) : Placed (Function.update home s.nextId projectId)
      (s.insertRow now projectId worktreeId title provider model effort).2 where
  rowIds := by
    change ((s.store.chats ++ [_]).map ChatRow.id).Nodup
    rw [List.map_append, List.nodup_append]
    refine ⟨h.rowIds, List.nodup_singleton _, fun a ha b hb he => ?_⟩
    obtain ⟨row, hrow, rfl⟩ := List.mem_map.mp ha
    rw [List.mem_singleton.mp hb] at he
    exact absurd (h.rows row hrow).2 (he ▸ Nat.lt_irrefl _)
  rows row hrow := by
    rcases List.mem_append.mp hrow with hrow | hrow
    · exact h.issue.rows row hrow
    · rw [List.mem_singleton.mp hrow]
      exact ⟨(Function.update_self s.nextId projectId home).symm, Nat.lt_succ_self _⟩
  cached := h.issue.cached
  handlers := h.issue.handlers

theorem Placed.create (h : Placed home s) {now : Nat} {projectId : Uuid} {worktreeId : Option Uuid}
    {title provider model : Text} {effort : Option Text} :
    ∃ home, Placed home (s.create now projectId worktreeId title provider model effort) := by
  unfold State.create
  split
  · exact ⟨home, h⟩
  · refine ⟨_, (h.insertRow now projectId worktreeId title provider model effort).push ?_⟩
    exact ⟨(Function.update_self s.nextId projectId home).symm, Nat.lt_succ_self _⟩

theorem Placed.fork (h : Placed home s) (now : Nat) (sourceId : Uuid) (upToSeq : Nat) :
    ∃ home, Placed home (s.fork now sourceId upToSeq) := by
  unfold State.fork
  cases hfork : s.chats.fork s.nextId now sourceId upToSeq with
  | none => exact ⟨home, h⟩
  | some out =>
    obtain ⟨forked, reg⟩ := out
    obtain ⟨hid, rfl⟩ := fork_ingests hfork
    have hproject : forked.projectId = Function.update home s.nextId forked.projectId forked.id := by
      rw [hid, Function.update_self]
    have hissued : forked.id < s.nextId + 1 := by
      rw [hid]
      exact Nat.lt_succ_self _
    have hnext : Placed (Function.update home s.nextId forked.projectId) { s with nextId := s.nextId + 1 } := h.issue
    exact ⟨_, (hnext.ingestChat hproject hissued).push ⟨hproject, hissued⟩⟩

theorem Placed.deleteProject (h : Placed home s) (projectId : Uuid) (listed : Bool) :
    Placed home (s.deleteProject projectId listed) := by
  refine h.push fun id hid => ?_
  cases listed with
  | false => cases hid
  | true =>
    obtain ⟨row, hrow, rfl⟩ := List.mem_map.mp hid
    simp only [ChatRepo.listForProject, List.mem_insertionSort, List.mem_filter, decide_eq_true_eq] at hrow
    obtain ⟨hmem, hproject, -⟩ := hrow
    obtain ⟨hhome, hissued⟩ := h.rows row hmem
    exact ⟨hhome.symm.trans hproject, hissued⟩

theorem Placed.edit (h : Placed home s) (id : Uuid) (e : Edit) :
    Placed home { s with chats := s.chats.chatMut id e.change } := by
  refine h.setChats fun d chat hget => ?_
  rw [ChatRegistry.get_chatMut] at hget
  split at hget
  · rename_i hd
    subst hd
    obtain ⟨old, hold, rfl⟩ := Option.map_eq_some_iff.mp hget
    rw [e.id, e.projectId]
    exact h.cached d old hold
  · exact h.cached d chat hget

theorem Placed.rekey (h : Placed home s) {tempId storeId : Uuid} (hhome : home storeId = home tempId)
    (hissued : storeId < s.nextId) : Placed home { s with chats := rekey tempId storeId s.chats } := by
  cases hget : s.chats.get tempId with
  | none =>
    have hsame : AgentGrove.rekey tempId storeId s.chats = s.chats := by
      unfold AgentGrove.rekey
      rw [hget]
    rw [hsame]
    exact h
  | some record =>
    refine h.setChats fun d chat hd => ?_
    rw [get_rekey hget] at hd
    split at hd
    · rename_i he
      cases hd
      refine ⟨he.symm, ?_, he ▸ hissued⟩
      rw [he, hhome]
      exact (h.cached tempId record hget).2.1
    · split at hd
      · cases hd
      · exact h.cached d chat hd

theorem Placed.retainChats (h : Placed home s) (keep : ChatRecord → Bool) :
    Placed home { s with chats := s.chats.retainChats keep } := by
  refine h.setChats fun d chat hget => ?_
  rw [get_retainChats fun id chat hget => (h.cached id chat hget).1] at hget
  exact h.cached d chat (Option.filter_eq_some_iff.mp hget).1

theorem Placed.rest (h : Placed home s) (i : Nat) : Placed home { s with handlers := s.handlers.eraseIdx i } :=
  ⟨h.rowIds, h.rows, h.cached, fun k hk => h.handlers k (List.mem_of_mem_eraseIdx hk)⟩

theorem Placed.proceed (h : Placed home s) {now : Nat} {fail : Bool} {k : Handler} (hk : k.Placed home s.nextId) :
    ∃ home, Placed home (s.proceed now fail k) := by
  cases k with
  | evicting id => exact ⟨home, h.evict id⟩
  | reloading id =>
    unfold State.proceed
    dsimp only
    split
    next row hget =>
      refine ⟨home, h.push ?_⟩
      exact h.rows row (List.mem_of_find?_eq_some hget)
    next => exact ⟨home, h⟩
  | ingesting record => exact ⟨home, h.ingestChat hk.1 hk.2⟩
  | inserting forked =>
    unfold State.proceed
    dsimp only
    split
    · exact ⟨home, h⟩
    · refine ⟨_, (h.insertRow now forked.projectId forked.worktreeId forked.title forked.provider forked.model
        forked.effort).push ?_⟩
      obtain ⟨hhome, hissued⟩ := hk
      refine ⟨?_, hissued, Nat.lt_succ_self _⟩
      rw [home_issue hissued, ← hhome]
      exact Function.update_self s.nextId forked.projectId home
  | rekeying tempId storeId => exact ⟨home, h.rekey hk.1 hk.2.2⟩
  | dropping project ids =>
    cases ids with
    | nil => exact ⟨home, h.retainChats _⟩
    | cons id ids =>
      have hids : Handler.Placed home s.nextId (.dropping project ids) := fun d hd => hk d (List.mem_cons_of_mem _ hd)
      cases fail with
      | true => exact ⟨home, h.push hids⟩
      | false => exact ⟨home, (h.delete now id).push hids⟩

theorem Placed.hydrate (h : Placed home s) (listed : Bool) : Placed home (s.hydrate listed) where
  rowIds := h.rowIds
  rows := h.rows
  cached id chat hget := by
    cases listed with
    | false => cases hget
    | true =>
      have hrow := hget
      change (hydrateFromStore s.store).get id = some chat at hrow
      rw [get_hydrate h.rowIds, Option.map_eq_some_iff] at hrow
      obtain ⟨row, hrow, rfl⟩ := hrow
      obtain ⟨hfind, -⟩ := Option.filter_eq_some_iff.mp hrow
      obtain ⟨hmem, rfl⟩ := (find_row h.rowIds).mp hfind
      exact ⟨rfl, h.rows row hmem⟩
  handlers k hk := by cases hk

theorem Placed.exec (h : Placed home s) (e : Event) : ∃ home, Placed home (exec s e) := by
  cases e with
  | create => exact h.create
  | delete now id => exact ⟨home, (h.delete now id).push trivial⟩
  | restore id =>
    change ∃ home, Placed home (s.restore id)
    unfold State.restore
    split
    · exact ⟨home, (h.restore id).push trivial⟩
    · exact ⟨home, h⟩
  | fork now sourceId upToSeq => exact h.fork now sourceId upToSeq
  | deleteProject projectId listed => exact ⟨home, h.deleteProject projectId listed⟩
  | edit id e => exact ⟨home, h.edit id e⟩
  | resume i now fail =>
    change ∃ home, Placed home (s.resume i now fail)
    unfold State.resume
    cases hi : s.handlers[i]? with
    | none => exact ⟨home, h⟩
    | some k => exact (h.rest i).proceed (h.handlers k (List.mem_of_getElem? hi))
  | hydrate listed => exact ⟨home, h.hydrate listed⟩

/-! ### What the steps do to the cached chats -/

variable {rows : List ChatRow} {s' : State} {d : Uuid}

theorem Live.append (h : Live rows d) (row : ChatRow) : Live (rows ++ [row]) d := by
  obtain ⟨r, hr, hlive⟩ := h
  exact ⟨r, List.mem_append_left _ hr, hlive⟩

/-- A row that was live is so after an update, unless it is the one deleted. -/
theorem Live.updateRow (h : Live rows d) {f : ChatRow → ChatRow}
    (hf : d = id → ∀ r, r.deletedAt = none → (f r).id = r.id ∧ (f r).deletedAt = none) :
    Live (ChatRepo.updateRow id f rows) d := by
  obtain ⟨r, hr, hid, hlive⟩ := h
  refine ⟨_, List.mem_map_of_mem hr, ?_⟩
  split
  · rename_i he
    obtain ⟨hkeep, hlive'⟩ := hf (hid.symm.trans he) r hlive
    exact ⟨hkeep.trans hid, hlive'⟩
  · exact ⟨hid, hlive⟩

theorem Live.delete (h : Live rows d) (now : Nat) (hne : d ≠ id) : Live (ChatRepo.delete now id rows) d :=
  h.updateRow fun he => absurd he hne

theorem Live.restore (h : Live rows d) : Live (ChatRepo.restore id rows) d :=
  h.updateRow fun _ _ _ => ⟨rfl, rfl⟩

theorem Accounted.mono (h : Accounted s d project) (hlive : Live s.store.chats d → Live s'.store.chats d)
    (hhandlers : s.handlers ⊆ s'.handlers) : Accounted s' d project := by
  rcases h with h | ⟨k, hk, howns⟩
  · exact Or.inl (hlive h)
  · exact Or.inr ⟨k, hhandlers hk, howns⟩

theorem Accounted.push (h : Accounted s d project) (k : Handler) : Accounted (s.push k) d project :=
  h.mono (fun hl => hl) (List.subset_append_left _ _)

theorem accounted_push {k : Handler} (hk : k.Owns d project) : Accounted (s.push k) d project :=
  Or.inr ⟨k, List.mem_append_right _ (List.mem_singleton_self _), hk⟩

theorem Held.create (h : Held s) {now : Nat} {projectId : Uuid} {worktreeId : Option Uuid}
    {title provider model : Text} {effort : Option Text} :
    Held (s.create now projectId worktreeId title provider model effort) := by
  unfold State.create
  split
  · exact h
  · refine ⟨h.indexed, fun d chat hget => ?_⟩
    exact (h.accounted d chat hget).mono (fun hl => hl.append _) (List.subset_append_left _ _)

theorem Held.delete (h : Held s) (now : Nat) (id : Uuid) : Held (s.delete now id) := by
  refine ⟨h.indexed, fun d chat hget => ?_⟩
  by_cases hd : d = id
  · exact accounted_push hd.symm
  · exact (h.accounted d chat hget).mono (fun hl => hl.delete now hd) (List.subset_append_left _ _)

theorem Held.restore (h : Held s) (id : Uuid) : Held (s.restore id) := by
  unfold State.restore
  split
  · refine ⟨h.indexed, fun d chat hget => ?_⟩
    exact (h.accounted d chat hget).mono (fun hl => hl.restore) (List.subset_append_left _ _)
  · exact h

theorem Held.fork (h : Held s) (hplaced : Placed home s) (now : Nat) (sourceId : Uuid) (upToSeq : Nat) :
    Held (s.fork now sourceId upToSeq) := by
  unfold State.fork
  cases hfork : s.chats.fork s.nextId now sourceId upToSeq with
  | none => exact h
  | some out =>
    obtain ⟨forked, reg⟩ := out
    obtain ⟨hid, rfl⟩ := fork_ingests hfork
    have hnew : s.chats.get forked.id = none := by
      cases hget : s.chats.get forked.id with
      | none => rfl
      | some chat =>
        have hissued := (hplaced.cached _ chat hget).2.2
        rw [hid] at hissued
        exact absurd hissued (Nat.lt_irrefl _)
    refine ⟨h.indexed.ingestChat hnew, fun d chat hget => ?_⟩
    change (s.chats.ingestChat forked).get d = some chat at hget
    rw [ChatRegistry.get_ingestChat] at hget
    split at hget
    · rename_i hd
      exact accounted_push hd.symm
    · exact (h.accounted d chat hget).mono (fun hl => hl) (List.subset_append_left _ _)

theorem Held.edit (h : Held s) (id : Uuid) (e : Edit) : Held { s with chats := s.chats.chatMut id e.change } := by
  refine ⟨h.indexed.chatMut e.projectId, fun d chat hget => ?_⟩
  change (s.chats.chatMut id e.change).get d = some chat at hget
  rw [ChatRegistry.get_chatMut] at hget
  split at hget
  · rename_i hd
    subst hd
    obtain ⟨old, hold, rfl⟩ := Option.map_eq_some_iff.mp hget
    rw [e.projectId]
    exact h.accounted d old hold
  · exact h.accounted d chat hget

theorem held_hydrate (hplaced : Placed home s) (listed : Bool) : Held (s.hydrate listed) := by
  cases listed with
  | false =>
    refine ⟨fun project => ⟨List.nodup_nil, fun id => ?_⟩, fun d chat hget => by cases hget⟩
    simp [State.hydrate, ChatRegistry.projectIds, ChatRegistry.empty, ChatRegistry.get]
  | true =>
    refine ⟨indexed_hydrate hplaced.rowIds, fun d chat hget => Or.inl ?_⟩
    change (hydrateFromStore s.store).get d = some chat at hget
    rw [get_hydrate hplaced.rowIds, Option.map_eq_some_iff] at hget
    obtain ⟨row, hrow, -⟩ := hget
    obtain ⟨hfind, hlive⟩ := Option.filter_eq_some_iff.mp hrow
    obtain ⟨hmem, hid⟩ := (find_row hplaced.rowIds).mp hfind
    exact ⟨row, hmem, hid, Option.isNone_iff_eq_none.mp hlive⟩

/-! ### A handler goes on -/

/-- Beside the handlers in flight, one that goes on leaves no ghost behind and lists no chat again: it caches none that
is cached, or that has been deleted meanwhile, and a fork whose row cannot be stored has lost its copy already. -/
def FineNext (s : State) (fail : Bool) : Handler → Prop
  | .ingesting record => s.chats.get record.id = none ∧ Accounted s record.id record.projectId
  | .inserting forked => (fail || (trim forked.title).isEmpty) = true →
      ∀ chat, s.chats.get forked.id = some chat → Accounted s forked.id chat.projectId
  | .rekeying tempId storeId => ∀ chat, s.chats.get tempId = some chat →
      s.chats.get storeId = none ∧ Accounted s storeId chat.projectId
  | .evicting _ | .reloading _ | .dropping _ _ => True

/-- All cached chats are accounted for but for those of a handler that is about to go on. -/
structure Beside (s : State) (k : Handler) : Prop where
  indexed : Indexed s.chats
  accounted : ∀ id chat, s.chats.get id = some chat → Accounted s id chat.projectId ∨ k.Owns id chat.projectId

theorem Held.beside (h : Held s) {i : Nat} {k : Handler} (hi : s.handlers[i]? = some k) :
    Beside { s with handlers := s.handlers.eraseIdx i } k := by
  refine ⟨h.indexed, fun d chat hget => ?_⟩
  rcases h.accounted d chat hget with hlive | ⟨j, hj, howns⟩
  · exact Or.inl (Or.inl hlive)
  · rcases mem_eraseIdx_of_mem hi hj with rfl | hj
    · exact Or.inr howns
    · exact Or.inl (Or.inr ⟨j, hj, howns⟩)

/-- A handler that owns nothing may be left out. -/
theorem Beside.held {k : Handler} (h : Beside s k) (hk : ∀ id project, ¬k.Owns id project) : Held s :=
  ⟨h.indexed, fun d chat hget => (h.accounted d chat hget).resolve_right (hk _ _)⟩

theorem Beside.evict (h : Beside s (.evicting id)) : Held { s with chats := s.chats.evict id } := by
  refine ⟨h.indexed.evict id, fun d chat hget => ?_⟩
  change (s.chats.evict id).get d = some chat at hget
  rw [ChatRegistry.get_evict] at hget
  split at hget
  · cases hget
  · rename_i hd
    exact (h.accounted d chat hget).resolve_right (Ne.symm hd)

theorem Held.push (h : Held s) (k : Handler) : Held (s.push k) :=
  ⟨h.indexed, fun d chat hget => (h.accounted d chat hget).push k⟩

theorem ingesting_iff {record : ChatRecord} (h : Held s) :
    Held { s with chats := s.chats.ingestChat record } ↔
      s.chats.get record.id = none ∧ Accounted s record.id record.projectId := by
  constructor
  · intro hnext
    refine ⟨h.indexed.ingestChat_iff.mp hnext.indexed, ?_⟩
    exact hnext.accounted record.id record (by simp)
  · rintro ⟨hnew, hacc⟩
    refine ⟨h.indexed.ingestChat hnew, fun d chat hget => ?_⟩
    change (s.chats.ingestChat record).get d = some chat at hget
    rw [ChatRegistry.get_ingestChat] at hget
    split at hget
    · rename_i hd
      cases hget
      rw [hd]
      exact hacc
    · exact h.accounted d chat hget

/-- A fork that goes no further leaves its copy behind, if no one else takes it out. -/
theorem abandoned_iff {forked : ChatRecord} (h : Beside s (.inserting forked)) :
    Held s ↔ ∀ chat, s.chats.get forked.id = some chat → Accounted s forked.id chat.projectId := by
  refine ⟨fun hs chat hget => hs.accounted _ chat hget, fun hacc => ⟨h.indexed, fun d chat hget => ?_⟩⟩
  rcases h.accounted d chat hget with hother | howns
  · exact hother
  · have hd : forked.id = d := howns
    subst hd
    exact hacc chat hget

theorem rekeying_iff {tempId storeId : Uuid} (h : Beside s (.rekeying tempId storeId)) (hne : storeId ≠ tempId) :
    Held { s with chats := rekey tempId storeId s.chats } ↔
      ∀ chat, s.chats.get tempId = some chat → s.chats.get storeId = none ∧ Accounted s storeId chat.projectId := by
  cases hget : s.chats.get tempId with
  | none =>
    have hsame : rekey tempId storeId s.chats = s.chats := by
      unfold rekey
      rw [hget]
    rw [hsame]
    refine iff_of_true ⟨h.indexed, fun d chat hd => (h.accounted d chat hd).resolve_right ?_⟩ nofun
    intro howns
    have he : tempId = d := howns
    rw [← he, hget] at hd
    cases hd
  | some record =>
    simp only [Option.some.injEq, forall_eq']
    constructor
    · intro hnext
      refine ⟨(h.indexed.rekey_iff hget hne).mp hnext.indexed, ?_⟩
      exact hnext.accounted storeId { record with id := storeId } ((get_rekey hget storeId).trans (if_pos rfl))
    · rintro ⟨hnew, hacc⟩
      refine ⟨(h.indexed.rekey_iff hget hne).mpr hnew, fun d chat hd => ?_⟩
      change (rekey tempId storeId s.chats).get d = some chat at hd
      rw [get_rekey hget] at hd
      split at hd
      · rename_i he
        cases hd
        rw [he]
        exact hacc
      · split at hd
        · cases hd
        · rename_i htemp
          exact (h.accounted d chat hd).resolve_right (Ne.symm htemp)

theorem Beside.retainChats (h : Beside s (.dropping project [])) (hplaced : Placed home s) :
    Held { s with chats := s.chats.retainChats (fun c => c.projectId ≠ project) } := by
  refine ⟨h.indexed.retainChats _, fun d chat hget => ?_⟩
  change (s.chats.retainChats (fun c => c.projectId ≠ project)).get d = some chat at hget
  rw [get_retainChats fun id chat hget => (hplaced.cached id chat hget).1] at hget
  obtain ⟨hcached, hkeep⟩ := Option.filter_eq_some_iff.mp hget
  exact (h.accounted d chat hcached).resolve_right (Ne.symm (of_decide_eq_true hkeep))

/-- A chat of the project is deleted; the cache is told of it at the end. -/
theorem Beside.drop {ids : List Uuid} (h : Beside s (.dropping project (id :: ids))) (hplaced : Placed home s)
    (hid : home id = project) (now : Nat) :
    Held ((s.setRows (ChatRepo.delete now id s.store.chats)).push (.dropping project ids)) := by
  refine ⟨h.indexed, fun d chat hget => ?_⟩
  by_cases hd : d = id
  · refine accounted_push ?_
    have hhome := (hplaced.cached d chat hget).2.1
    rw [hd, hid] at hhome
    exact hhome.symm
  · rcases h.accounted d chat hget with hother | howns
    · exact hother.mono (fun hl => hl.delete now hd) (List.subset_append_left _ _)
    · exact accounted_push howns

theorem Beside.skip {ids : List Uuid} (h : Beside s (.dropping project (id :: ids))) :
    Held (s.push (.dropping project ids)) := by
  refine ⟨h.indexed, fun d chat hget => ?_⟩
  rcases h.accounted d chat hget with hother | howns
  · exact hother.push _
  · exact accounted_push howns

theorem Beside.insertRow {forked : ChatRecord} (h : Beside s (.inserting forked)) (now : Nat) (storeId : Uuid) :
    Held ((s.insertRow now forked.projectId forked.worktreeId forked.title forked.provider forked.model
      forked.effort).2.push (.rekeying forked.id storeId)) := by
  refine ⟨h.indexed, fun d chat hget => ?_⟩
  rcases h.accounted d chat hget with hother | howns
  · exact hother.mono (fun hl => hl.append _) (List.subset_append_left _ _)
  · exact accounted_push howns

theorem proceed_iff {now : Nat} {fail : Bool} {k : Handler} (h : Beside s k) (hplaced : Placed home s)
    (hk : k.Placed home s.nextId) : Held (s.proceed now fail k) ↔ FineNext s fail k := by
  cases k with
  | evicting id => exact iff_of_true h.evict trivial
  | reloading id =>
    refine iff_of_true ?_ trivial
    have hheld : Held s := h.held fun _ _ howns => howns
    unfold State.proceed
    dsimp only
    split
    · exact hheld.push _
    · exact hheld
  | ingesting record => exact ingesting_iff (h.held fun _ _ howns => howns)
  | inserting forked =>
    unfold State.proceed FineNext
    dsimp only
    cases hfail : fail || (trim forked.title).isEmpty with
    | true => simpa using abandoned_iff h
    | false => exact iff_of_true (h.insertRow now _) nofun
  | rekeying tempId storeId => exact rekeying_iff h (Nat.ne_of_gt hk.2.1)
  | dropping project ids =>
    refine iff_of_true ?_ trivial
    cases ids with
    | nil => exact h.retainChats hplaced
    | cons id ids =>
      cases fail with
      | true => exact h.skip
      | false => exact h.drop hplaced (hk id (.head _)).1 now

/-! ### Whole runs -/

/-- A step that leaves no ghost and lists no chat again. Only a handler that goes on can do so. -/
def Fine (s : State) : Event → Prop
  | .resume i _ fail => ∀ k, s.handlers[i]? = some k → FineNext { s with handlers := s.handlers.eraseIdx i } fail k
  | _ => True

theorem exec_held_iff (s : State) (e : Event) (h : (∃ home, Placed home s) ∧ Held s) :
    ((∃ home, Placed home (exec s e)) ∧ Held (exec s e)) ↔ Fine s e := by
  obtain ⟨⟨home, hplaced⟩, hheld⟩ := h
  rw [and_iff_right (hplaced.exec e)]
  cases e with
  | create => exact iff_of_true hheld.create trivial
  | delete now id => exact iff_of_true (hheld.delete now id) trivial
  | restore id => exact iff_of_true (hheld.restore id) trivial
  | fork now sourceId upToSeq => exact iff_of_true (hheld.fork hplaced now sourceId upToSeq) trivial
  | deleteProject projectId listed => exact iff_of_true (hheld.push _) trivial
  | edit id e => exact iff_of_true (hheld.edit id e) trivial
  | hydrate listed => exact iff_of_true (held_hydrate hplaced listed) trivial
  | resume i now fail =>
    change Held (s.resume i now fail) ↔
      ∀ k, s.handlers[i]? = some k → FineNext { s with handlers := s.handlers.eraseIdx i } fail k
    unfold State.resume
    cases hi : s.handlers[i]? with
    | none => exact iff_of_true hheld nofun
    | some k =>
      simp only [Option.some.injEq, forall_eq']
      exact proceed_iff (hheld.beside hi) (hplaced.rest i) (hplaced.handlers k (List.mem_of_getElem? hi))

/-- The project of a row of the store. -/
def Database.projectOf (d : Database) (id : Uuid) : Uuid := ((ChatRepo.get d.store.chats id).map ChatRow.projectId).getD 0

theorem Database.placed_boot (d : Database) : Placed d.projectOf d.boot := by
  have hstored : Placed d.projectOf { d.boot with chats := .empty } := by
    refine ⟨d.ids, fun row hrow => ⟨?_, d.issued row hrow⟩, nofun, nofun⟩
    have hfind : ChatRepo.get d.store.chats row.id = some row := (find_row d.ids).mpr ⟨hrow, rfl⟩
    rw [Database.projectOf, hfind]
    rfl
  exact hstored.hydrate true

theorem Database.held_boot (d : Database) : Held d.boot := held_hydrate d.placed_boot true

theorem Database.placed_play (d : Database) (events : List Event) :
    ∃ home, Placed home (events.foldl exec d.boot) := by
  induction events using List.reverseRecOn with
  | nil => exact ⟨d.projectOf, d.placed_boot⟩
  | append_singleton events e ih =>
    obtain ⟨home, h⟩ := ih
    rw [List.foldl_append]
    exact h.exec e

/-- The cache has no ghosts and no doubles throughout a run exactly if no chat is cached that is cached already or has
been deleted meanwhile, and no fork is given up whose copy is still cached. -/
theorem index_held_iff (d : Database) (events : List Event) :
    (∀ done, done <+: events → Held (done.foldl exec d.boot)) ↔
      ∀ done e, done ++ [e] <+: events → Fine (done.foldl exec d.boot) e := by
  rw [← Runs.throughout_iff exec_held_iff ⟨⟨d.projectOf, d.placed_boot⟩, d.held_boot⟩ events]
  exact forall₂_congr fun done _ => (and_iff_right (d.placed_play done)).symm

/-- One chat with one message. -/
def oneChat : Database where
  store := oneMessage
  nextId := 3
  ids := List.nodup_singleton _
  issued row hrow := by
    rw [List.mem_singleton.mp hrow]
    decide

/-- A fork whose row cannot be stored. -/
def forkLost : List Event := [.fork 0 1 1, .resume 0 0 true]

/-- A chat is restored; before the handler has cached it, it is deleted once more. -/
def lateRestore : List Event :=
  [.delete 0 1, .resume 0 0 false, .restore 1, .delete 0 1, .resume 1 0 false, .resume 0 0 false, .resume 0 0 false]

/-- Two restorations of one chat with a deletion between them. -/
def doubleRestore : List Event :=
  [.delete 0 1, .resume 0 0 false, .restore 1, .delete 0 1, .resume 1 0 false, .restore 1, .resume 0 0 false,
    .resume 0 0 false, .resume 0 0 false, .resume 0 0 false]

/-- A restoration that overtakes a deletion. -/
def overtakenDelete : List Event := [.delete 0 1, .restore 1, .resume 1 0 false, .resume 1 0 false]

/-- A copy, and a chat that is deleted, stay in the cache for good; a chat is listed twice, for good or until its
deletion has come to its end. -/
theorem ghosts_and_doubles :
    ¬Held (forkLost.foldl exec oneChat.boot) ∧ ¬Held (lateRestore.foldl exec oneChat.boot) ∧
      ¬Held (doubleRestore.foldl exec oneChat.boot) ∧ ¬Held (overtakenDelete.foldl exec oneChat.boot) := by
  refine ⟨fun h => ?_, fun h => ?_, fun h => ?_, fun h => ?_⟩
  · rcases h.accounted 3 _ rfl with ⟨row, hrow, hid, -⟩ | ⟨k, hk, -⟩
    · have hone : row = freshChat := List.mem_singleton.mp hrow
      rw [hone] at hid
      exact absurd hid (by decide)
    · exact List.not_mem_nil hk
  · rcases h.accounted 1 _ rfl with ⟨row, hrow, -, hlive⟩ | ⟨k, hk, -⟩
    · have hone : row = { freshChat with deletedAt := some 0 } := List.mem_singleton.mp hrow
      rw [hone] at hlive
      cases hlive
    · exact List.not_mem_nil hk
  · have htwice : [1, 1].Nodup := (h.indexed 0).1
    exact absurd htwice (by decide)
  · have htwice : [1, 1].Nodup := (h.indexed 0).1
    exact absurd htwice (by decide)

end AgentGrove.ChatCache
