import AgentGrove.Proofs.Steps
import Mathlib.Data.List.Sublists

namespace AgentGrove

open Coop

/-- What a queue row keeps while it waits. -/
def QueueItemRow.slot (i : QueueItemRow) : Uuid × Uuid × QueueStatus := (i.id, i.chatId, i.status)

/-- What handlers that move no message may do to the tables. -/
structure Edits (x : Site) (w : Choice) (s s' : AppState) : Prop where
  nextId : s.nextId ≤ s'.nextId
  answers : s'.answers = s.answers
  slots : (s'.store.items.map QueueItemRow.slot).Sublist (s.store.items.map QueueItemRow.slot)
  running : ∀ i, QueueRepo.isRunning i = true → (i ∈ s'.store.items ↔ i ∈ s.store.items)
  prompts : (s'.store.prompts.map PromptRow.key).Sublist (s.store.prompts.map PromptRow.key) ∨
    x.call = .insertPrompt ∧ w.fail = false ∧ ∃ q : PromptRow, q.id = s.nextId ∧ q.chatId = x.chat ∧
      s'.store.prompts = s.store.prompts ++ [q] ∧ s'.nextId = s.nextId + 1

/-- An edit away from lock and flags, or a quiet action between two awaits. -/
def Beside : Option (Site × Choice) → AppState → AppState → Prop
  | none, s, s' => Quiet s s'
  | some (x, w), s, s' =>
    Edits x w s s' ∧ s'.dispatching = s.dispatching ∧ s'.routingLock = s.routingLock

/-- The handlers that take part neither in routing nor in moving messages. -/
def Fn.aside : Fn → Bool
  | .reorder | .cancel | .updateItem | .createChat | .patch | .forkChat | .truncateChat
  | .revertPrompt => true
  | _ => false

/-- Of these only a fork stores prompts. -/
def Site.aside (x : Site) : Bool :=
  x.fn.aside && (x.call ≠ .insertPrompt || x.fn = .forkChat)

/-- Code of such a handler. -/
abbrev Aside {α : Type} (p : Async α) : Prop := p.Within (fun x => x.aside = true) Beside

/-- Code of such a handler that leaves the queue alone. -/
abbrev Offside {α : Type} (p : Async α) : Prop :=
  p.Within (fun x => x.aside = true)
    (fun e s s' => Beside e s s' ∧ s'.store.items = s.store.items)

theorem Offside.aside {α : Type} {p : Async α} (h : Offside p) : Aside p :=
  h.mono (fun _ => id) fun _ _ _ _ hb => hb.1

section Edits

variable {x : Site} {w : Choice} {s s' : AppState} {items : List QueueItemRow}

theorem Edits.refl (x : Site) (w : Choice) (s : AppState) : Edits x w s s :=
  ⟨Nat.le_refl _, rfl, List.Sublist.refl _, fun _ _ => .rfl, .inl (List.Sublist.refl _)⟩

theorem Edits.ids (h : Edits x w s s') :
    (s'.store.items.map QueueItemRow.id).Sublist (s.store.items.map QueueItemRow.id) := by
  have hs := h.slots.map Prod.fst
  rwa [List.map_map, List.map_map] at hs

theorem Quiet.edits (h : Quiet s s') (x : Site) (w : Choice) : Edits x w s s' := by
  refine ⟨Nat.le_of_eq h.nextId.symm, h.answers, ?_, ?_, .inl ?_⟩
  · rw [h.items]
  · simp [h.items]
  · rw [h.keys]

/-- Tables other than queue and prompts. -/
theorem Edits.elsewhere (hitems : s'.store.items = s.store.items)
    (hprompts : s'.store.prompts = s.store.prompts) (hn : s.nextId ≤ s'.nextId)
    (ha : s'.answers = s.answers) : Edits x w s s' := by
  refine ⟨hn, ha, ?_, ?_, .inl ?_⟩
  · rw [hitems]
  · simp [hitems]
  · rw [hprompts]

theorem Edits.queue
    (hslots : (items.map QueueItemRow.slot).Sublist (s.store.items.map QueueItemRow.slot))
    (hrun : ∀ i, QueueRepo.isRunning i = true → (i ∈ items ↔ i ∈ s.store.items)) :
    Edits x w s (setItems items s) :=
  ⟨Nat.le_refl _, rfl, hslots, hrun, .inl (List.Sublist.refl _)⟩

/-- Changing pending rows in place. -/
theorem Edits.touch {f : QueueItemRow → QueueItemRow} (hslot : ∀ i, (f i).slot = i.slot)
    (hrun : ∀ i, QueueRepo.isRunning i = true → f i = i) :
    Edits x w s (setItems (s.store.items.map f) s) := by
  apply Edits.queue
  · have he : s.store.items.map (QueueItemRow.slot ∘ f) = s.store.items.map QueueItemRow.slot :=
      List.map_congr_left fun i _ => hslot i
    rw [List.map_map, he]
  · intro i hi
    constructor
    · intro hm
      obtain ⟨j, hj, rfl⟩ := List.mem_map.mp hm
      have hstatus : (f j).status = j.status := congrArg (fun x => x.2.2) (hslot j)
      have hj' : QueueRepo.isRunning j = true := by
        simpa [QueueRepo.isRunning, hstatus] using hi
      rwa [hrun j hj']
    · intro hm
      exact List.mem_map.mpr ⟨i, hm, hrun i hi⟩

theorem Edits.reorder (now : Nat) (chatId : Uuid) (ordered : List Uuid) :
    Edits x w s (setItems (QueueRepo.reorder now chatId ordered s.store.items) s) := by
  apply Edits.touch
  · intro i
    split
    · rfl
    · split <;> rfl
  · intro i hi
    split
    · rfl
    · rw [if_neg]
      intro hp
      rw [not_running hp.1] at hi
      cases hi

theorem Edits.updateBody (now : Nat) (itemId : Uuid) (body : Text) :
    Edits x w s (setItems (QueueRepo.updateBody now itemId body s.store.items) s) := by
  apply Edits.touch
  · intro i
    split <;> rfl
  · intro i hi
    rw [if_neg]
    intro hp
    rw [not_running hp.2] at hi
    cases hi

theorem Edits.cancel (itemId : Uuid) :
    Edits x w s (setItems (QueueRepo.cancel itemId s.store.items) s) := by
  apply Edits.queue
  · exact List.filter_sublist.map _
  · intro i hi
    simp only [QueueRepo.cancel, List.mem_filter, Bool.not_eq_eq_eq_not, Bool.not_true,
      decide_eq_false_iff_not, and_iff_left_iff_imp]
    intro _ hp
    rw [not_running hp.2] at hi
    cases hi

end Edits

section Aside

variable {fn : Fn} {c : Uuid} {call : Call} {α β ε : Type}

theorem Quiet.beside {s s' : AppState} (h : Quiet s s') (e : Option (Site × Choice)) :
    Beside e s s' := by
  cases e with
  | none => exact h
  | some e => exact ⟨h.edits e.1 e.2, h.dispatching, h.routingLock⟩

theorem offside_of_calm {p : Async α} (hf : fn.aside = true) (h : Calm fn c p) : Offside p := by
  apply Prog.Within.mono h
  · rintro ⟨f, d, call⟩ ⟨rfl, rfl, hcalm⟩
    simp only [Site.aside, hf, Bool.true_and, Bool.or_eq_true, decide_eq_true_eq]
    left
    rintro rfl
    cases hcalm
  · exact fun x _ _ _ hq => ⟨hq.beside x, hq.items⟩

theorem accessOffside {act : Choice → AppState → AppState × β}
    (hs : Site.aside ⟨fn, c, call⟩ = true)
    (ha : ∀ w s, Beside (some (⟨fn, c, call⟩, w)) s (act w s).1 ∧
      (act w s).1.store.items = s.store.items) : Offside (access fn c call act) :=
  access_within hs ha

theorem storeOffside {err : ε} {act : Choice → AppState → AppState × Except ε β}
    (hs : Site.aside ⟨fn, c, call⟩ = true)
    (ha : ∀ w s, w.fail = false → Beside (some (⟨fn, c, call⟩, w)) s (act w s).1 ∧
      (act w s).1.store.items = s.store.items) : Offside (storeCall fn c call err act) := by
  apply accessOffside hs
  intro w s
  split
  · exact ⟨(Quiet.refl s).beside _, rfl⟩
  · rename_i hf
    exact ha w s (by simpa using hf)

theorem readOffside {act : Choice → AppState → β} (hs : Site.aside ⟨fn, c, call⟩ = true) :
    Offside (access fn c call (fun w s => (s, act w s))) :=
  accessOffside hs fun _ s => ⟨(Quiet.refl s).beside _, rfl⟩

theorem storeReadOffside {err : ε} {act : Choice → AppState → Except ε β}
    (hs : Site.aside ⟨fn, c, call⟩ = true) :
    Offside (storeCall fn c call err (fun w s => (s, act w s))) :=
  storeOffside hs fun _ s _ => ⟨(Quiet.refl s).beside _, rfl⟩

theorem publishOn_offside (topic : Topic) (frame : Frame) : Offside (publishOn topic frame) :=
  atOnce_within fun _ => ⟨⟨rfl, rfl, rfl, rfl, rfl, rfl, fun _ => .rfl, rfl, rfl⟩, rfl⟩

/-- An access to the queue. -/
theorem storeAside {err : ε} {act : Choice → AppState → AppState × Except ε β}
    (hs : Site.aside ⟨fn, c, call⟩ = true)
    (ha : ∀ w s, Beside (some (⟨fn, c, call⟩, w)) s (act w s).1) :
    Aside (storeCall fn c call err act) :=
  storeCall_within hs (fun _ s => (Quiet.refl s).beside _) ha

theorem reorder_aside (ids : List Uuid) : Aside (reorder c ids) := by
  apply Prog.Within.bind
  · exact storeAside rfl fun _ _ => ⟨.reorder _ _ _, rfl, rfl⟩
  intro done
  cases done with
  | error e => trivial
  | ok _ =>
    apply (publishOn_offside _ _).aside.bind
    intro _
    have hread : Aside (readState .reorder c) :=
      (storeReadOffside rfl).aside.bind fun _ => (storeReadOffside rfl).aside.bind fun _ => trivial
    exact hread.bind fun _ => trivial

theorem cancel_aside (itemId : Uuid) : Aside (cancel c itemId) := by
  apply Prog.Within.bind (storeAside rfl fun _ _ => ⟨.cancel _, rfl, rfl⟩)
  intro found
  split <;> trivial

theorem updateItem_aside (itemId : Uuid) (body : Text) : Aside (updateItem c itemId body) := by
  unfold updateItem
  split
  · trivial
  · apply Prog.Within.bind (storeAside rfl fun _ _ => ⟨.updateBody _ _ _, rfl, rfl⟩)
    intro found
    split <;> trivial

/-- Changing only the cache. -/
theorem cache_offside {act : Choice → AppState → ChatRegistry}
    (hs : Site.aside ⟨fn, c, call⟩ = true) :
    Offside (access fn c call (fun w s => ({ s with chats := act w s }, ()))) :=
  accessOffside hs fun _ _ => ⟨⟨.elsewhere rfl rfl (Nat.le_refl _) rfl, rfl, rfl⟩, rfl⟩

theorem storeCreate_offside (hs : Site.aside ⟨fn, c, .createRow⟩ = true) (projectId : Uuid)
    (worktreeId : Option Uuid) (title provider model : Text) (effort : Option Text) :
    Offside (storeCreate fn c projectId worktreeId title provider model effort) := by
  unfold storeCreate
  split
  · trivial
  · exact storeOffside hs fun _ _ _ => ⟨⟨.elsewhere rfl rfl (Nat.le_succ _) rfl, rfl, rfl⟩, rfl⟩

theorem persistCreateChat_offside (projectId : Uuid) (worktreeId : Option Uuid)
    (title provider model : Text) (effort : Option Text) :
    Offside (persistCreateChat projectId worktreeId title provider model effort) := by
  unfold persistCreateChat
  split
  · trivial
  apply (storeCreate_offside rfl _ _ _ _ _ _).bind
  intro created
  cases created with
  | error e => trivial
  | ok row => exact (cache_offside rfl).bind fun _ => (publishOn_offside _ _).bind fun _ => trivial

theorem createChat_offside (projectId : Uuid) (worktreeId : Option Uuid)
    (title provider model : Text) (effort : Option Text) :
    Offside (createChat projectId worktreeId title provider model effort) := by
  apply (readOffside rfl).bind
  intro known
  split
  · trivial
  cases worktreeId with
  | none => exact persistCreateChat_offside _ _ _ _ _ _
  | some wt =>
    apply (readOffside rfl).bind
    intro owner
    cases owner with
    | none => trivial
    | some owner =>
      dsimp only
      split
      · exact persistCreateChat_offside _ _ _ _ _ _
      · trivial

theorem patch_offside (title model : Option Text) (effort : Option (Option Text)) :
    Offside (patch c title model effort) := by
  apply (readOffside rfl).bind
  intro found
  cases found with
  | none => trivial
  | some chat =>
  cases nonBlank "title cannot be empty".toList title with
  | error e => trivial
  | ok title =>
  cases nonBlank "model cannot be empty".toList model with
  | error e => trivial
  | ok model =>
  apply (offside_of_calm rfl (persistChatUpdate_calm (fun _ => id) _)).bind
  intro updated
  cases updated with
  | error e => trivial
  | ok _ =>
    apply (readOffside rfl).bind
    intro found
    cases found with
    | none => trivial
    | some record => exact (publishOn_offside _ _).bind fun _ => trivial

/-- A fork's copies are prompts of a chat that nobody named yet. -/
theorem storeAddPrompt_offside (content : Text) : Offside (storeAddPrompt .forkChat c content) := by
  apply (storeReadOffside rfl).bind
  intro row
  cases row with
  | error e => trivial
  | ok row =>
  apply (storeReadOffside rfl).bind
  intro seq
  cases seq with
  | error e => trivial
  | ok seq =>
  apply Prog.Within.bind (storeOffside rfl ?_)
  · intro stored
    cases stored with
    | error e => trivial
    | ok stored =>
    apply Prog.Within.bind (storeOffside rfl ?_)
    · intro touched
      cases touched <;> trivial
    · intro w s _
      exact ⟨(Quiet.updateRow s c (fun r => { r with updatedAt := stored.createdAt })
        fun _ => rfl).beside _, rfl⟩
  · intro w s hf
    dsimp only
    split
    · refine ⟨⟨⟨Nat.le_succ _, rfl, List.Sublist.refl _, fun _ _ => .rfl, .inr ?_⟩, rfl, rfl⟩, rfl⟩
      exact ⟨rfl, hf, _, rfl, rfl, rfl, rfl⟩
    · exact ⟨(Quiet.refl s).beside _, rfl⟩

theorem copyPrompts_offside (storeId : Uuid) (prompts : List PromptRecord) :
    Offside (copyPrompts c storeId prompts) := by
  induction prompts with
  | nil => trivial
  | cons p ps ih =>
    apply (storeAddPrompt_offside _).bind
    intro stored
    apply Prog.Within.bind _ fun _ => ih
    cases stored with
    | error e => trivial
    | ok row =>
      apply Prog.Within.bind (storeOffside rfl ?_)
      · intro _
        trivial
      · intro w s _
        exact ⟨(Quiet.updatePrompt s row.id (fun r => { r with events := p.events })
          fun _ => rfl).beside _, rfl⟩

theorem forkChat_offside (seq : Nat) : Offside (forkChat c seq) := by
  apply Prog.Within.bind (accessOffside rfl ?_)
  · intro forked
    cases forked with
    | none => trivial
    | some forked =>
    apply (storeCreate_offside rfl _ _ _ _ _ _).bind
    intro created
    cases created with
    | error e => trivial
    | ok row =>
      apply (cache_offside rfl).bind
      intro _
      exact (copyPrompts_offside _ _).bind fun _ => (publishOn_offside _ _).bind fun _ => trivial
  · intro w s
    split
    · exact ⟨⟨.elsewhere rfl rfl (Nat.le_succ _) rfl, rfl, rfl⟩, rfl⟩
    · exact ⟨(Quiet.refl s).beside _, rfl⟩

theorem deletePrompts_offside (ids : List Uuid) : Offside (deletePrompts c ids) := by
  induction ids with
  | nil => trivial
  | cons p ps ih =>
    apply Prog.Within.bind (storeOffside rfl ?_) fun _ => ih
    intro w s _
    refine ⟨⟨⟨Nat.le_refl _, rfl, List.Sublist.refl _, fun _ _ => .rfl, .inl ?_⟩, rfl, rfl⟩, rfl⟩
    exact List.filter_sublist.map _

theorem truncateChat_offside (seq : Nat) : Offside (truncateChat c seq) := by
  apply Prog.Within.bind (accessOffside rfl ?_)
  · intro removed
    cases removed with
    | none => trivial
    | some ids =>
      exact (deletePrompts_offside ids).bind fun _ => (publishOn_offside _ _).bind fun _ => trivial
  · intro w s
    split
    · exact ⟨⟨.elsewhere rfl rfl (Nat.le_refl _) rfl, rfl, rfl⟩, rfl⟩
    · exact ⟨(Quiet.refl s).beside _, rfl⟩

theorem revertPrompt_offside (promptId : Uuid) : Offside (revertPrompt c promptId) := by
  apply Prog.Within.bind (accessOffside rfl ?_)
  · intro reverted
    cases reverted <;> trivial
  · intro w s
    split
    · exact ⟨(Quiet.refl s).beside _, rfl⟩
    · split
      · exact ⟨⟨.elsewhere rfl rfl (Nat.le_succ _) rfl, rfl, rfl⟩, rfl⟩
      · exact ⟨(Quiet.refl s).beside _, rfl⟩

/-- The requests served by such a handler. -/
def Request.aside : Request → Bool
  | .reorder _ _ | .cancel _ _ | .updateItem _ _ _ | .createChat _ _ _ _ _ _ | .patch _ _ _ _
  | .forkChat _ _ | .truncateChat _ _ | .revertPrompt _ _ => true
  | _ => false

end Aside

end AgentGrove
