import AgentGrove.Coop.Relay
import AgentGrove.Restart.Mirror

namespace AgentGrove

open Coop

/-- Code that takes `A` to `Q` if no store call fails and nobody else touches the
tables or the cache. If `hands`, it may leave that to a task it spawns. -/
abbrev Brings {α : Type} (hands : Prop) (p : Async α) (A : Sides → Prop) (Q : α → Sides → Prop) : Prop :=
  p.Carries sides (fun w => w.fail = false) Mirrored hands A Q

/-- Code that leaves tables and cache alone. -/
abbrev Aloof {α : Type} (p : Async α) : Prop := p.Bystands sides

section Rules

variable {hands : Prop} {fn : Fn} {chat : Uuid} {call : Call} {α β ε : Type} {A : Sides → Prop}

theorem access_brings {act : Choice → AppState → AppState × β} {Q : β → Sides → Prop}
    (h : ∀ w s, w.fail = false → A (sides s) → Q (act w s).2 (sides (act w s).1)) :
    Brings hands (access fn chat call act) A Q := by
  refine ⟨Q, fun w s s' b hw hs ha => ?_, fun b _ hu => hu⟩
  have he : act w s = (s', b) := Option.some.inj ha
  have hq := h w s hw hs
  rwa [he] at hq

theorem storeCall_brings {err : ε} {act : Choice → AppState → AppState × Except ε β}
    {Q : Except ε β → Sides → Prop}
    (h : ∀ w s, A (sides s) → Q (act w s).2 (sides (act w s).1)) :
    Brings hands (storeCall fn chat call err act) A Q := by
  refine access_brings fun w s hw hs => ?_
  simp only [hw, Bool.false_eq_true, ↓reduceIte]
  exact h w s hs

theorem access_aloof {act : Choice → AppState → AppState × β}
    (h : ∀ w s, sides (act w s).1 = sides s) : Aloof (access fn chat call act) := by
  refine ⟨fun w s s' b ha => ?_, fun _ => trivial⟩
  have he : act w s = (s', b) := Option.some.inj ha
  have hq := h w s
  rwa [he] at hq

theorem storeCall_aloof {err : ε} {act : Choice → AppState → AppState × Except ε β}
    (h : ∀ w s, sides (act w s).1 = sides s) : Aloof (storeCall fn chat call err act) := by
  refine access_aloof fun w s => ?_
  split
  · rfl
  · exact h w s

theorem atOnce_aloof {act : AppState → AppState × β} (h : ∀ s, sides (act s).1 = sides s) :
    Aloof (atOnce act) :=
  ⟨h, fun _ => trivial⟩

/-- Code that stands by keeps what is known. -/
theorem Aloof.brings {p : Async α} (hp : Aloof p) : Brings hands p A (fun _ => A) :=
  Prog.Bystands.carries hp A

/-- Standing by, and then the rest. -/
theorem Aloof.andThen {p : Async α} {f : α → Async β} {Q : β → Sides → Prop} (hp : Aloof p)
    (hf : ∀ a, Brings hands (f a) A Q) : Brings hands (p.bind f) A Q := by
  have hb : Brings False p A (fun _ => A) := hp.brings
  exact hb.andThen hf

end Rules

section Bystanders

variable {fn : Fn} {c : Uuid} {call : Call}

theorem lockRouting_aloof : Aloof (lockRouting fn c call) := by
  refine ⟨fun w s s' b ha => ?_, fun _ => trivial⟩
  dsimp only at ha
  split at ha
  · cases ha
  · cases ha
    rfl

theorem unlockRouting_aloof : Aloof unlockRouting := atOnce_aloof fun _ => rfl

theorem isDispatching_aloof : Aloof (isDispatching c) := atOnce_aloof fun _ => rfl

theorem insertDispatching_aloof : Aloof (insertDispatching c) := atOnce_aloof fun _ => rfl

theorem removeDispatching_aloof : Aloof (removeDispatching c) := atOnce_aloof fun _ => rfl

theorem publishOn_aloof (topic : Topic) (frame : Frame) : Aloof (publishOn topic frame) :=
  atOnce_aloof fun _ => rfl

theorem publish_aloof (frame : Frame) : Aloof (publish c frame) := publishOn_aloof _ _

theorem answer_aloof (request : Request) (response : Response) : Aloof (answer request response) :=
  atOnce_aloof fun _ => rfl

theorem getChat_aloof : Aloof (getChat fn c call) := access_aloof fun _ _ => rfl

theorem isAuto_aloof : Aloof (isAuto fn c call) := by
  apply Prog.Bystands.bind (storeCall_aloof fun _ _ => rfl)
  intro mode
  split <;> trivial

theorem readState_aloof : Aloof (readState fn c) :=
  Prog.Bystands.bind (storeCall_aloof fun _ _ => rfl) fun _ =>
    Prog.Bystands.bind (storeCall_aloof fun _ _ => rfl) fun _ => trivial

theorem popItem_aloof (pop : Nat → List QueueItemRow → Option QueueItemRow × List QueueItemRow) :
    Aloof (popItem fn c pop) :=
  storeCall_aloof fun _ _ => rfl

theorem changeItem_aloof (itemId : Uuid) (guard : QueueItemRow → Bool)
    (act : Nat → List QueueItemRow → List QueueItemRow) :
    Aloof (changeItem fn c call itemId guard act) :=
  storeCall_aloof fun _ _ => rfl

theorem resolveCwd_aloof (record : ChatRecord) : Aloof (resolveCwd fn c record) := by
  apply Prog.Bystands.bind
  · unfold worktreePath
    split
    · trivial
    · exact access_aloof fun _ _ => rfl
  · intro path
    cases path with
    | some path => trivial
    | none => exact access_aloof fun _ _ => rfl

theorem resolveProvider_aloof (provider : Text) : Aloof (resolveProvider provider) :=
  atOnce_aloof fun _ => rfl

theorem guardTask_aloof : Aloof (guardTask c) :=
  lockRouting_aloof.bind fun _ => removeDispatching_aloof.bind fun _ =>
    unlockRouting_aloof.bind fun _ => publish_aloof _

theorem dropGuard_aloof : Aloof (dropGuard c) := ⟨guardTask_aloof, trivial⟩

theorem mustContinue_aloof (queue : QueueState) : Aloof (mustContinue fn c queue) := by
  unfold mustContinue
  split
  · exact isAuto_aloof
  · trivial

theorem clearDispatching_aloof : Aloof (clearDispatching fn c) := by
  apply lockRouting_aloof.bind
  intro _
  apply readState_aloof.bind
  intro queue
  apply (mustContinue_aloof queue).bind
  intro more
  cases more with
  | true => exact unlockRouting_aloof.bind fun _ => trivial
  | false =>
    exact removeDispatching_aloof.bind fun _ => unlockRouting_aloof.bind fun _ =>
      (publish_aloof _).bind fun _ => trivial

end Bystanders

section Stored

variable {fn : Fn} {c p : Uuid}

/-- The record of a prompt that the store has just issued. -/
def freshPrompt (row : PromptRow) : PromptRecord :=
  { id := row.id, seq := row.seq, content := row.content, events := [], touchedPaths := []
    createdAt := row.createdAt }

/-- What holds by how a call came out. -/
def Came {ε α : Type} (failed : Prop) (done : α → Prop) : Except ε α → Prop
  | .ok a => done a
  | .error _ => failed

/-- A stored prompt is still to be cached. -/
theorem storeAddPrompt_brings (content : Text) :
    Brings False (storeAddPrompt fn c content) Mirrored (fun stored u =>
      Came (Mirrored u)
        (fun row => Mirrored { u with cache := (u.cache.ingestPrompt c (freshPrompt row)).2 }) stored) := by
  apply Prog.Carries.andThen (M := fun _ => Mirrored)
  · exact storeCall_brings fun _ _ hm => hm
  intro found
  cases found with
  | error e => exact fun _ hm => hm
  | ok _ =>
  have hseq : Brings False (storeCall fn c .maxSeq ChatError.db (fun _ s =>
      (s, .ok (ChatRepo.nextSeq s.store.prompts c)))) Mirrored (fun seq u =>
        Mirrored u ∧ seq = .ok (ChatRepo.nextSeq u.prompts c)) :=
    storeCall_brings fun _ _ hm => ⟨hm, rfl⟩
  apply hseq.andThen
  intro seq
  cases seq with
  | error e => exact fun _ hm => hm.1
  | ok seq =>
  have hinsert : Brings False (storeCall fn c .insertPrompt ChatError.db (fun w s =>
      let row := ChatRepo.newPrompt s.nextId w.now c seq content
      if ChatRepo.accepts s.store.chats s.store.prompts row then
        ({ s with store := { s.store with prompts := s.store.prompts ++ [row] }
                  nextId := s.nextId + 1 }, .ok row)
      else (s, .error .db)))
      (fun u => Mirrored u ∧ Except.ok seq = (.ok (ChatRepo.nextSeq u.prompts c) : Except ChatError Nat))
      (fun stored u => Came (Mirrored u)
        (fun row => Mirrored { u with cache := (u.cache.ingestPrompt c (freshPrompt row)).2 }) stored) := by
    refine storeCall_brings fun w s hm => ?_
    obtain ⟨hm, he⟩ := hm
    cases he
    by_cases hacc : ChatRepo.accepts s.store.chats s.store.prompts
        (ChatRepo.newPrompt s.nextId w.now c (ChatRepo.nextSeq s.store.prompts c) content) = true
    · have hrow := hacc
      simp only [ChatRepo.accepts, Bool.and_eq_true, List.any_eq_true, decide_eq_true_eq] at hrow
      simp only [sides, hacc, ↓reduceIte]
      exact hm.addPrompt rfl hrow.1 (fun q hq hc => seq_lt_nextSeq hq hc) rfl
    · simp only [sides, hacc]
      exact hm
  apply hinsert.andThen
  intro stored
  cases stored with
  | error e => exact fun _ hm => hm
  | ok row =>
  have htouch : Brings False (storeCall fn c .touchChat ChatError.db (fun _ s =>
      ({ s with store := { s.store with
          chats := ChatRepo.updateRow c (fun r => { r with updatedAt := row.createdAt })
            s.store.chats } }, .ok ())))
      (fun u => Mirrored { u with cache := (u.cache.ingestPrompt c (freshPrompt row)).2 })
      (fun touched u => touched = .ok () ∧
        Mirrored { u with cache := (u.cache.ingestPrompt c (freshPrompt row)).2 }) :=
    storeCall_brings fun w s hm => ⟨rfl, hm.touch fun _ => ⟨rfl, rfl, rfl, rfl⟩⟩
  apply htouch.andThen
  intro touched
  cases touched with
  | error e =>
    intro _ hm
    cases hm.1
  | ok _ => exact fun _ hm => hm.2

theorem persistAddPrompt_brings (content : Text) :
    Brings False (persistAddPrompt fn c content) Mirrored (fun _ => Mirrored) := by
  apply (storeAddPrompt_brings content).andThen
  intro stored
  cases stored with
  | error e => exact fun _ hm => hm
  | ok row =>
    apply Prog.Carries.andThen (M := fun _ => Mirrored)
    · exact access_brings fun _ _ _ hm => hm
    · exact fun _ _ hm => hm

/-- Writing what is cached of a prompt makes the two sides agree. -/
theorem persistPromptEvents_brings (read write : Call) :
    Brings False (persistPromptEvents fn c p read write) (Unwritten p) (fun _ => Mirrored) := by
  have hread : Brings False (access fn c read (fun w s => (s, s.chats.findPrompt w.pick p)))
      (Unwritten p) (fun found u =>
        found.elim (Mirrored u) (fun q => Mirrored (u.write p q.events))) := by
    refine access_brings fun w s _ hm => ?_
    dsimp only
    cases hfound : s.chats.findPrompt w.pick p with
    | none => exact hm.missing hfound
    | some q => exact hm.found hfound
  apply hread.andThen
  intro found
  cases found with
  | none => exact fun _ hm => hm
  | some q =>
    apply Prog.Carries.andThen (M := fun _ => Mirrored)
    · exact storeCall_brings fun _ _ hm => hm
    · exact fun _ _ hm => hm

theorem emit_brings (t : TurnCall) (ev : AgentEvent) :
    Brings False (emit fn c t p ev) (Unwritten p) (fun _ => Unwritten p) := by
  apply (publish_aloof _).andThen
  intro _
  exact access_brings fun _ _ _ hm => hm.append c ev

theorem flushToken_brings (pending : Text) :
    Brings False (flushToken fn c p pending) (Unwritten p) (fun _ => Unwritten p) := by
  unfold flushToken
  split
  · exact fun _ hm => hm
  · exact emit_brings _ _

theorem flushThinking_brings (pending : Text) :
    Brings False (flushThinking fn c p pending) (Unwritten p) (fun _ => Unwritten p) := by
  unfold flushThinking
  split
  · exact fun _ hm => hm
  · exact emit_brings _ _

theorem conclude_brings (ev : Option AgentEvent) :
    Brings False (conclude fn c p ev) (Unwritten p) (fun _ => Unwritten p) := by
  cases ev with
  | none => exact fun _ hm => hm
  | some ev => exact emit_brings _ _

end Stored

section Updates

variable {fn : Fn} {c : Uuid}

/-- The cache mirrors the tables once `w` has been done to the prompts. -/
def MirroredBy (w : List PromptRow → List PromptRow) (u : Sides) : Prop :=
  Mirrored { u with prompts := w u.prompts }

variable (w : List PromptRow → List PromptRow)

theorem changesModel_brings (label : Call → Call) (patch : ChatRepo.Patch) :
    Brings False (changesModel fn c label patch) (MirroredBy w) (fun changes u =>
      MirroredBy w u ∧ ∀ chat, u.cache.get c = some chat → changes = patch.changes chat.fields) := by
  unfold changesModel
  cases hm : patch.model with
  | none =>
    refine fun u hu => ⟨hu, fun chat _ => ?_⟩
    simp [ChatRepo.Patch.changes, hm]
  | some m =>
    refine access_brings fun w s _ hu => ⟨hu, fun chat hget => ?_⟩
    have hchat : s.chats.get c = some chat := hget
    simp [ChatRepo.Patch.changes, hm, hchat, ChatRecord.fields]

theorem updateRow_absent {rows : List ChatRow} (f : ChatRow → ChatRow)
    (h : ChatRepo.get rows c = none) : ChatRepo.updateRow c f rows = rows := by
  unfold ChatRepo.get at h
  rw [List.find?_eq_none] at h
  have hsame : ∀ r ∈ rows, (if r.id = c then f r else r) = r :=
    fun r hr => if_neg fun hid => h r hr (decide_eq_true hid)
  simp only [ChatRepo.updateRow, List.map_congr_left hsame, List.map_id']

theorem applyPatch_empty {patch : ChatRepo.Patch} (h : patch.isEmpty = true) (chat : ChatRecord) :
    applyPatch patch chat = chat := by
  obtain ⟨⟨⟨ht, hm⟩, he⟩, hs⟩ := none_of_empty h
  simp [applyPatch, ht, hm, he, hs]

theorem Mirrored.applyPatch_empty {u : Sides} {patch : ChatRepo.Patch} (h : Mirrored u)
    (hp : patch.isEmpty = true) : Mirrored { u with cache := u.cache.chatMut c (applyPatch patch) } := by
  refine h.congr (fun d => ?_) fun project => ?_
  · rw [ChatRegistry.get_chatMut]
    split
    · rename_i hd
      have hid : applyPatch patch = id := funext fun chat => AgentGrove.applyPatch_empty hp chat
      rw [hid, Option.map_id, hd]
      rfl
    · rfl
  · simp only [ChatRegistry.projectIds, ChatRegistry.byProject_chatMut]

/-- The row is updated, and the cache still has to be. -/
theorem updateChatRow_brings (label : Call → Call) (patch : ChatRepo.Patch) (changes : Bool) :
    Brings False (updateChatRow fn c label (patch.decided changes))
      (fun u => MirroredBy w u ∧
        ∀ chat, u.cache.get c = some chat → changes = patch.changes chat.fields)
      (fun written u =>
        match written with
        | .ok _ => MirroredBy w { u with cache := u.cache.chatMut c (applyPatch (patch.decided changes)) } ∧
            (ChatRepo.get u.rows c = none → MirroredBy w u)
        | .error _ => MirroredBy w u) := by
  unfold updateChatRow
  split
  · rename_i hempty
    exact fun u hu => ⟨Mirrored.applyPatch_empty hu.1 hempty, fun _ => hu.1⟩
  · refine storeCall_brings fun x s hu => ?_
    obtain ⟨hm, hb⟩ := hu
    cases hrow : ChatRepo.get s.store.chats c with
    | none =>
      simp only [Option.isSome_none, Bool.false_eq_true, ↓reduceIte, sides, updateRow_absent _ hrow]
      exact hm
    | some row =>
      simp only [Option.isSome_some, ↓reduceIte, sides]
      refine ⟨Mirrored.patch hm hb x.now, fun hnone => ?_⟩
      rw [get_updateRow (f := ChatRepo.patchRow (patch.decided changes) x.now) fun _ => rfl, if_pos rfl,
        hrow] at hnone
      cases hnone

theorem persistChatUpdate_brings (label : Call → Call) (patch : ChatRepo.Patch) :
    Brings False (persistChatUpdate fn c label patch) (MirroredBy w) (fun _ => MirroredBy w) := by
  apply (changesModel_brings w label patch).andThen
  intro changes
  change Brings False ((updateChatRow fn c label (patch.decided changes)).bind _) _ _
  apply (updateChatRow_brings w label patch changes).andThen
  intro written
  cases written with
  | error e => exact fun _ hm => hm
  | ok _ =>
  apply Prog.Carries.andThen (M := fun found u => Came (MirroredBy w u)
    (fun _ => MirroredBy w { u with cache := u.cache.chatMut c (applyPatch (patch.decided changes)) }) found)
  · refine storeCall_brings fun _ s hm => ?_
    cases hrow : ChatRepo.get s.store.chats c with
    | none => exact hm.2 hrow
    | some row => exact hm.1
  intro found
  cases found with
  | error e => exact fun _ hm => hm
  | ok row => exact access_brings fun _ _ _ hm => hm

theorem clearProviderSession_brings :
    Brings False (clearProviderSession fn c) Mirrored (fun _ => Mirrored) :=
  (persistChatUpdate_brings id id _).andThen fun _ _ hm => hm

theorem captureSession_brings (p : Uuid) (ev : AgentEvent) :
    Brings False (captureSession fn c ev) (Unwritten p) (fun _ => Unwritten p) := by
  cases ev with
  | sessionStart sid =>
    refine Prog.Carries.exists fun events => ?_
    apply (persistChatUpdate_brings (ChatRepo.updatePrompt p fun r => { r with events := events }) _ _).andThen
    exact fun _ u hm => ⟨events, hm⟩
  | _ => exact fun _ hm => hm

end Updates

end AgentGrove
