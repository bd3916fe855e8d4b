import AgentGrove.Coop.Frame
import AgentGrove.Model.Server

namespace AgentGrove

open Coop

section Within

variable {S : Site → Prop} {A : Option (Site × Choice) → AppState → AppState → Prop} {α β ε : Type}
  {fn : Fn} {chat : Uuid} {call : Call}

theorem access_within {act : Choice → AppState → AppState × β} (hs : S ⟨fn, chat, call⟩)
    (ha : ∀ w s, A (some (⟨fn, chat, call⟩, w)) s (act w s).1) :
    (access fn chat call act).Within S A := by
  refine ⟨hs, ?_, fun b => trivial⟩
  intro w s s' b h
  have he : act w s = (s', b) := Option.some.inj h
  have hw := ha w s
  rwa [he] at hw

theorem storeCall_within {err : ε} {act : Choice → AppState → AppState × Except ε β}
    (hs : S ⟨fn, chat, call⟩) (hr : ∀ w s, A (some (⟨fn, chat, call⟩, w)) s s)
    (ha : ∀ w s, A (some (⟨fn, chat, call⟩, w)) s (act w s).1) :
    (storeCall fn chat call err act).Within S A := by
  refine access_within hs fun w s => ?_
  split
  · exact hr w s
  · exact ha w s

theorem atOnce_within {act : AppState → AppState × β} (ha : ∀ s, A none s (act s).1) :
    (atOnce act).Within S A :=
  ⟨ha, fun _ => trivial⟩

end Within

/-- What a prompt row keeps for as long as it exists. -/
def PromptRow.key (r : PromptRow) : Uuid × Uuid × Nat × Text := (r.id, r.chatId, r.seq, r.content)

/-- Whether a chat is in the cache. -/
def Cached (s : AppState) (c : Uuid) : Prop := (s.chats.get c).isSome = true

/-- Whether a chat has a row, deleted or not. -/
def Stored (s : AppState) (c : Uuid) : Prop := (ChatRepo.get s.store.chats c).isSome = true

instance (s : AppState) (c : Uuid) : Decidable (Cached s c) := inferInstanceAs (Decidable (_ = _))

instance (s : AppState) (c : Uuid) : Decidable (Stored s c) := inferInstanceAs (Decidable (_ = _))

theorem stored_iff (s : AppState) (c : Uuid) :
    Stored s c ↔ c ∈ s.store.chats.map ChatRow.id := by
  simp [Stored, ChatRepo.get, List.find?_isSome]

/-- Nothing that routes, queues or stores a message changed: what a running turn
does to the state, and what every read does. -/
structure Quiet (s s' : AppState) : Prop where
  dispatching : s'.dispatching = s.dispatching
  routingLock : s'.routingLock = s.routingLock
  items : s'.store.items = s.store.items
  modes : s'.store.modes = s.store.modes
  rows : s'.store.chats.map ChatRow.id = s.store.chats.map ChatRow.id
  keys : s'.store.prompts.map PromptRow.key = s.store.prompts.map PromptRow.key
  cached : ∀ c, Cached s' c ↔ Cached s c
  nextId : s'.nextId = s.nextId
  answers : s'.answers = s.answers

namespace Quiet

variable {s s' : AppState}

theorem refl (s : AppState) : Quiet s s := ⟨rfl, rfl, rfl, rfl, rfl, rfl, fun _ => .rfl, rfl, rfl⟩

theorem stored (h : Quiet s s') (c : Uuid) : Stored s' c ↔ Stored s c := by
  rw [stored_iff, stored_iff, h.rows]

/-- Changing cached records in place. -/
theorem chats (s : AppState) {reg : ChatRegistry}
    (h : ∀ c, (reg.get c).isSome = (s.chats.get c).isSome) : Quiet s { s with chats := reg } :=
  ⟨rfl, rfl, rfl, rfl, rfl, rfl, fun c => by simp only [Cached, h c], rfl, rfl⟩

theorem chatMut (s : AppState) (c : Uuid) (f : ChatRecord → ChatRecord) :
    Quiet s { s with chats := s.chats.chatMut c f } := by
  refine chats s fun d => ?_
  rw [ChatRegistry.get_chatMut]
  by_cases h : d = c
  · simp [h]
  · simp [h]

theorem updatePrompt (s : AppState) (id : Uuid) (f : PromptRow → PromptRow)
    (hf : ∀ r, (f r).key = r.key) :
    Quiet s { s with store := { s.store with
      prompts := ChatRepo.updatePrompt id f s.store.prompts } } := by
  refine ⟨rfl, rfl, rfl, rfl, rfl, ?_, fun _ => .rfl, rfl, rfl⟩
  simp only [ChatRepo.updatePrompt, List.map_map]
  refine List.map_congr_left fun r _ => ?_
  simp only [Function.comp]
  split
  · exact hf r
  · rfl

theorem updateRow (s : AppState) (id : Uuid) (f : ChatRow → ChatRow) (hf : ∀ r, (f r).id = r.id) :
    Quiet s { s with store := { s.store with
      chats := ChatRepo.updateRow id f s.store.chats } } := by
  refine ⟨rfl, rfl, rfl, rfl, ?_, rfl, fun _ => .rfl, rfl, rfl⟩
  simp only [ChatRepo.updateRow, List.map_map]
  refine List.map_congr_left fun r _ => ?_
  simp only [Function.comp]
  split
  · exact hf r
  · rfl

theorem retryPrompt {c : Uuid} {p : PromptRecord} {reg : ChatRegistry}
    (h : s.chats.retryPrompt c = some (p, reg)) : Quiet s { s with chats := reg } := by
  unfold ChatRegistry.retryPrompt at h
  split at h
  · cases h
  · split at h
    · cases h
    · cases h
      exact chatMut s c _

end Quiet

/-- The awaits of a turn and of what goes with it. -/
def Call.calm : Call → Bool
  | .turn _ | .modelChanges | .updateChat | .reloadRow | .cacheChat | .readEvents | .writeEvents
  | .retryPrompt | .worktreePath | .projectRoot => true
  | _ => false

/-- Such awaits of one function that works for one chat. -/
def On (fn : Fn) (chat : Uuid) (x : Site) : Prop :=
  x.fn = fn ∧ x.chat = chat ∧ x.call.calm = true

/-- Code of one function for one chat that only ever acts quietly. -/
abbrev Calm {α : Type} (fn : Fn) (chat : Uuid) (p : Async α) : Prop :=
  p.Within (On fn chat) (fun _ => Quiet)

section Calm

variable {fn : Fn} {chat : Uuid} {call : Call} {β : Type}

/-- The awaits inside the event loop of a turn. -/
def Call.streams : Call → Bool
  | .turn .stream | .turn .recv | .turn .session | .turn .append => true
  | _ => false

section Pieces

variable {S : Site → Prop} {A : Option (Site × Choice) → AppState → AppState → Prop}
  {promptId : Uuid}

section Labels

variable {label : Call → Call} (hl : ∀ call, call.calm = true → S ⟨fn, chat, label call⟩)
include hl

theorem updateChatRow_within (same : ∀ e s, A e s s)
    (row : ∀ x w s patch, A (some (x, w)) s { s with store := { s.store with
      chats := ChatRepo.updateRow chat (ChatRepo.patchRow patch w.now) s.store.chats } })
    (patch : ChatRepo.Patch) : (updateChatRow fn chat label patch).Within S A := by
  unfold updateChatRow
  split
  · trivial
  · exact storeCall_within (hl _ rfl) (fun _ s => same _ s) fun w s => row _ w s _

theorem persistChatUpdate_within (same : ∀ e s, A e s s)
    (row : ∀ x w s patch, A (some (x, w)) s { s with store := { s.store with
      chats := ChatRepo.updateRow chat (ChatRepo.patchRow patch w.now) s.store.chats } })
    (cache : ∀ x w s patch, A (some (x, w)) s
      { s with chats := s.chats.chatMut chat (applyPatch patch) }) (patch : ChatRepo.Patch) :
    (persistChatUpdate fn chat label patch).Within S A := by
  apply Prog.Within.bind
  · unfold changesModel
    split
    · trivial
    · exact access_within (hl _ rfl) fun _ s => same _ s
  intro changes
  apply (updateChatRow_within hl same row _).bind
  intro written
  cases written with
  | error e => trivial
  | ok _ =>
    apply Prog.Within.bind (storeCall_within (hl _ rfl) (fun _ s => same _ s) fun _ s => same _ s)
    intro found
    cases found with
    | error e => trivial
    | ok _ => exact access_within (hl _ rfl) fun w s => cache _ w s _

end Labels

section Emits

variable (publish : ∀ s frame, A none s { s with bus := s.bus ++ [(.chat chat, frame)] })
  (append : ∀ x w s ev, A (some (x, w)) s { s with chats := s.chats.appendEvent chat promptId ev })
include publish append

theorem emit_within {t : TurnCall} (hs : S ⟨fn, chat, .turn t⟩) (ev : AgentEvent) :
    (emit fn chat t promptId ev).Within S A := by
  apply Prog.Within.bind (atOnce_within fun s => publish s _)
  intro _
  exact access_within hs fun w s => append _ w s ev

theorem flushToken_within (hs : S ⟨fn, chat, .turn .append⟩) (pending : Text) :
    (flushToken fn chat promptId pending).Within S A := by
  unfold flushToken
  split
  · trivial
  · exact emit_within publish append hs _

theorem flushThinking_within (hs : S ⟨fn, chat, .turn .append⟩) (pending : Text) :
    (flushThinking fn chat promptId pending).Within S A := by
  unfold flushThinking
  split
  · trivial
  · exact emit_within publish append hs _

variable (same : ∀ e s, A e s s)
  (row : ∀ x w s patch, A (some (x, w)) s { s with store := { s.store with
    chats := ChatRepo.updateRow chat (ChatRepo.patchRow patch w.now) s.store.chats } })
  (cache : ∀ x w s patch, A (some (x, w)) s
    { s with chats := s.chats.chatMut chat (applyPatch patch) })

omit publish append in
include same row cache in
theorem captureSession_within (hs : S ⟨fn, chat, .turn .session⟩) (ev : AgentEvent) :
    (captureSession fn chat ev).Within S A := by
  cases ev with
  | sessionStart sid =>
    exact (persistChatUpdate_within (fun _ _ => hs) same row cache _).bind fun _ => trivial
  | _ => trivial

variable (hs : ∀ call, call.streams = true → S ⟨fn, chat, call⟩)
include same row cache hs

theorem otherEvent_within (provider : Text) (st : Stream) (ev : AgentEvent) :
    (otherEvent fn chat promptId provider st ev).Within S A := by
  apply (flushToken_within publish append (hs _ rfl) _).bind
  intro _
  apply (flushThinking_within publish append (hs _ rfl) _).bind
  intro _
  apply (captureSession_within same row cache (hs _ rfl) ev).bind
  intro _
  exact (emit_within publish append (hs _ rfl) _).bind fun _ => trivial

/-- One event of a turn, or a lull. -/
theorem streamRound_within (provider : Text) (st : Stream) :
    (streamRound fn chat promptId provider st).Within S A := by
  have htoken := fun pending => flushToken_within publish append (hs _ rfl) pending
  have hthinking := fun pending => flushThinking_within publish append (hs _ rfl) pending
  apply Prog.Within.bind (access_within (hs _ rfl) fun _ s => same _ s)
  intro received
  cases received with
  | timeout => exact (htoken _).bind fun _ => (hthinking _).bind fun _ => trivial
  | closed => trivial
  | event ev =>
    cases ev with
    | token text =>
      apply (hthinking _).bind
      intro _
      dsimp only
      split
      · exact (htoken _).bind fun _ => trivial
      · trivial
    | thinking text =>
      apply (htoken _).bind
      intro _
      dsimp only
      split
      · exact (hthinking _).bind fun _ => trivial
      · trivial
    | _ => exact (otherEvent_within publish append same row cache hs _ _ _).bind fun _ => trivial

end Emits

end Pieces

end Calm

end AgentGrove
