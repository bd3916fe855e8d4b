import AgentGrove.Proofs.Quiet

namespace AgentGrove

open Coop

/-- What a frame has to admit for the code of a turn to stay within it, but for the
changes of the chat's own columns: each kind of action a turn takes, the appends to
prompts whose ids meet `V` and the writes to prompts whose ids meet `W` among them. -/
structure StreamFrame (S : Site → Prop) (A : Option (Site × Choice) → AppState → AppState → Prop)
    (V W : Uuid → Prop) (fn : Fn) (c : Uuid) : Prop where
  sites : ∀ call : Call, call.calm = true → S ⟨fn, c, call⟩
  same : ∀ e s, A e s s
  publish : ∀ s frame, A none s { s with bus := s.bus ++ [(.chat c, frame)] }
  tokens : ∀ x w s tokens n, A (some (x, w)) s { s with cancelTokens := tokens, nextToken := n }
  append : ∀ x w s promptId ev, V promptId →
    A (some (x, w)) s { s with chats := s.chats.appendEvent c promptId ev }
  events : ∀ x w s promptId (events : List AgentEvent), W promptId →
    A (some (x, w)) s { s with store := { s.store with
      prompts := ChatRepo.updatePrompt promptId (fun r => { r with events := events }) s.store.prompts } }

/-- The same for code that changes the chat's own columns as well. -/
structure SessionFrame (S : Site → Prop) (A : Option (Site × Choice) → AppState → AppState → Prop)
    (V W : Uuid → Prop) (fn : Fn) (c : Uuid) : Prop extends StreamFrame S A V W fn c where
  row : ∀ x w s patch, A (some (x, w)) s { s with store := { s.store with
    chats := ChatRepo.updateRow c (ChatRepo.patchRow patch w.now) s.store.chats } }
  cache : ∀ x w s patch, A (some (x, w)) s { s with chats := s.chats.chatMut c (applyPatch patch) }

/-- The same for a whole turn, its provider call and the session it captures included. -/
structure TurnFrame (S : Site → Prop) (A : Option (Site × Choice) → AppState → AppState → Prop)
    (V W : Uuid → Prop) (fn : Fn) (c : Uuid) : Prop extends StreamFrame S A V W fn c where
  call : ∀ s (call : ProviderCall), A none s { s with calls := s.calls ++ [call] }
  row : ∀ x w s patch, A (some (x, w)) s { s with store := { s.store with
    chats := ChatRepo.updateRow c (ChatRepo.patchRow patch w.now) s.store.chats } }
  cache : ∀ x w s patch, A (some (x, w)) s { s with chats := s.chats.chatMut c (applyPatch patch) }

namespace StreamFrame

variable {S : Site → Prop} {A : Option (Site × Choice) → AppState → AppState → Prop}
  {V W : Uuid → Prop} {fn : Fn} {c promptId : Uuid} (F : StreamFrame S A V W fn c)
include F

theorem read {β : Type} {call : Call} {act : Choice → AppState → β} (hc : call.calm = true) :
    (access fn c call (fun w s => (s, act w s))).Within S A :=
  access_within (F.sites _ hc) fun _ s => F.same _ s

theorem storeCall {ε β : Type} {call : Call} {err : ε}
    {act : Choice → AppState → AppState × Except ε β} (hc : call.calm = true)
    (ha : ∀ w s, A (some (⟨fn, c, call⟩, w)) s (act w s).1) :
    (AgentGrove.storeCall fn c call err act).Within S A :=
  storeCall_within (F.sites _ hc) (fun _ s => F.same _ s) ha

theorem emit (hv : V promptId) (turn : TurnCall) (ev : AgentEvent) :
    (emit fn c turn promptId ev).Within S A :=
  emit_within F.publish (fun x w s ev => F.append x w s promptId ev hv) (F.sites _ rfl) ev

theorem flushToken (hv : V promptId) (pending : Text) :
    (flushToken fn c promptId pending).Within S A :=
  flushToken_within F.publish (fun x w s ev => F.append x w s promptId ev hv) (F.sites _ rfl) pending

theorem flushThinking (hv : V promptId) (pending : Text) :
    (flushThinking fn c promptId pending).Within S A :=
  flushThinking_within F.publish (fun x w s ev => F.append x w s promptId ev hv) (F.sites _ rfl) pending

theorem persistPromptEvents (hw : W promptId) {read write : Call}
    (hr : read.calm = true) (hwr : write.calm = true) :
    (persistPromptEvents fn c promptId read write).Within S A := by
  apply (F.read hr).bind
  intro found
  cases found with
  | none => trivial
  | some p => exact (F.storeCall hwr fun w s => F.events _ w s promptId p.events hw).bind fun _ => trivial

theorem conclude (hv : V promptId) (ev : Option AgentEvent) :
    (conclude fn c promptId ev).Within S A := by
  cases ev with
  | none => trivial
  | some ev => exact F.emit hv _ _

theorem join (token : Nat) : (Prog.await ⟨fn, c, .turn .join⟩ (fun w s =>
    if w.joined = .dropped ∧ token ∉ s.cancelled then none else some (s, w.joined)) .ret :
      Async Joined).Within S A := by
  refine ⟨F.sites _ rfl, ?_, fun _ => trivial⟩
  intro w s s' b ha
  dsimp only at ha
  split at ha
  · cases ha
  · cases ha
    exact F.same _ s

theorem dispatchEcho {prompt : PromptRecord} (hv : V prompt.id) (hw : W prompt.id) (userText : Text) :
    (dispatchEcho fn c prompt userText).Within S A :=
  (F.emit hv _ _).bind fun _ => (F.emit hv _ _).bind fun _ => F.persistPromptEvents hw rfl rfl

theorem resolveCwd (chat : ChatRecord) : (resolveCwd fn c chat).Within S A := by
  apply Prog.Within.bind
  · unfold worktreePath
    split
    · trivial
    · exact F.read rfl
  · intro path
    cases path with
    | some path => trivial
    | none => exact F.read rfl

theorem resolveProvider (provider : Text) : (resolveProvider provider).Within S A :=
  atOnce_within fun s => F.same _ s

end StreamFrame

namespace SessionFrame

variable {S : Site → Prop} {A : Option (Site × Choice) → AppState → AppState → Prop}
  {V W : Uuid → Prop} {fn : Fn} {c promptId : Uuid} (F : SessionFrame S A V W fn c)
include F

theorem persistChatUpdate {label : Call → Call}
    (hl : ∀ call, call.calm = true → (label call).calm = true) (patch : ChatRepo.Patch) :
    (persistChatUpdate fn c label patch).Within S A :=
  persistChatUpdate_within (fun call hc => F.sites _ (hl call hc)) F.same F.row F.cache patch

theorem clearProviderSession : (clearProviderSession fn c).Within S A :=
  (F.persistChatUpdate (fun _ hc => hc) _).bind fun _ => trivial

theorem streamRound (hv : V promptId) (provider : Text) (st : Stream) :
    (streamRound fn c promptId provider st).Within S A := by
  apply streamRound_within F.publish (fun x w s ev => F.append x w s promptId ev hv) F.same F.row F.cache
  intro call hc
  apply F.sites
  cases call <;> first | rfl | cases hc

theorem endCompaction (compacting : Bool) : (endCompaction fn c compacting).Within S A := by
  unfold AgentGrove.endCompaction
  split
  · exact F.clearProviderSession
  · trivial

/-- The event loop. -/
theorem stream (hv : V promptId) (provider : Text) :
    (Prog.loop ⟨fn, c, .turn .stream⟩ Stream.start (AgentGrove.streamRound fn c promptId provider) .ret :
      Async Stream).Within S A :=
  ⟨⟨F.sites _ rfl, fun _ s => F.same _ s⟩, fun st => F.streamRound hv _ st, fun _ => trivial⟩

end SessionFrame

namespace TurnFrame

variable {S : Site → Prop} {A : Option (Site × Choice) → AppState → AppState → Prop}
  {V W : Uuid → Prop} {fn : Fn} {c promptId : Uuid} (F : TurnFrame S A V W fn c)
include F

theorem session : SessionFrame S A V W fn c := ⟨F.toStreamFrame, F.row, F.cache⟩

/-- A turn stays within the frame if its prompt may be appended to and written. -/
theorem dispatchViaProvider {prompt : PromptRecord} (hv : V prompt.id) (hw : W prompt.id)
    (provider userText model : Text) (session effort : Option Text) (cwd : Text) :
    (dispatchViaProvider fn c prompt provider userText model session effort cwd).Within S A := by
  apply (F.read rfl).bind
  intro auto
  apply Prog.Within.bind (access_within (F.sites _ rfl) fun w s => F.tokens _ w s _ _)
  intro token
  apply Prog.Within.bind (atOnce_within fun s => F.call s _)
  intro _
  apply (F.session.stream hv provider).bind
  intro st
  apply (F.flushToken hv _).bind
  intro _
  apply (F.flushThinking hv _).bind
  intro _
  apply Prog.Within.bind (atOnce_within fun s => F.same _ s)
  intro wasCancelled
  apply (F.join token).bind
  intro joined
  apply (F.conclude hv _).bind
  intro _
  apply Prog.Within.bind (access_within (F.sites _ rfl) fun w s => F.tokens _ w s _ _)
  intro _
  exact (F.persistPromptEvents hw rfl rfl).bind fun _ => trivial

end TurnFrame

section Calm

variable {fn : Fn} {chat : Uuid}

/-- A turn is quiet: it only streams into the cache, the bus and the log. -/
theorem calmFrame (fn : Fn) (chat : Uuid) :
    TurnFrame (On fn chat) (fun _ => Quiet) (fun _ => True) (fun _ => True) fn chat where
  sites _ hc := ⟨rfl, rfl, hc⟩
  same _ s := .refl s
  publish _ _ := ⟨rfl, rfl, rfl, rfl, rfl, rfl, fun _ => .rfl, rfl, rfl⟩
  tokens _ _ _ _ _ := ⟨rfl, rfl, rfl, rfl, rfl, rfl, fun _ => .rfl, rfl, rfl⟩
  append _ _ s _ _ _ := .chatMut s chat _
  events _ _ s promptId _ _ := .updatePrompt s promptId _ fun _ => rfl
  call _ _ := ⟨rfl, rfl, rfl, rfl, rfl, rfl, fun _ => .rfl, rfl, rfl⟩
  row _ _ s _ := .updateRow s chat _ fun _ => rfl
  cache _ _ s _ := .chatMut s chat _

theorem persistPromptEvents_calm (promptId : Uuid) {read write : Call} (hr : read.calm = true)
    (hw : write.calm = true) : Calm fn chat (persistPromptEvents fn chat promptId read write) :=
  (calmFrame fn chat).persistPromptEvents trivial hr hw

theorem persistChatUpdate_calm {label : Call → Call}
    (hl : ∀ call, call.calm = true → (label call).calm = true) (patch : ChatRepo.Patch) :
    Calm fn chat (persistChatUpdate fn chat label patch) :=
  (calmFrame fn chat).session.persistChatUpdate hl patch

theorem dispatchViaProvider_calm (prompt : PromptRecord) (provider userText model : Text)
    (resume effort : Option Text) (cwd : Text) :
    Calm fn chat (dispatchViaProvider fn chat prompt provider userText model resume effort cwd) :=
  (calmFrame fn chat).dispatchViaProvider trivial trivial provider userText model resume effort cwd

theorem dispatchEcho_calm (prompt : PromptRecord) (userText : Text) :
    Calm fn chat (dispatchEcho fn chat prompt userText) :=
  (calmFrame fn chat).dispatchEcho trivial trivial userText

theorem resolveCwd_calm (record : ChatRecord) : Calm fn chat (resolveCwd fn chat record) :=
  (calmFrame fn chat).resolveCwd record

theorem resolveProvider_calm (provider : Text) : Calm fn chat (resolveProvider provider) :=
  (calmFrame fn chat).resolveProvider provider

theorem retryPrompt_calm :
    Calm fn chat (access fn chat .retryPrompt (fun _ s =>
      match s.chats.retryPrompt chat with
      | some (p, reg) => ({ s with chats := reg }, some p)
      | none => (s, none))) := by
  refine access_within ⟨rfl, rfl, rfl⟩ fun _ s => ?_
  cases h : s.chats.retryPrompt chat with
  | none => exact .refl s
  | some out => exact .retryPrompt h

theorem retryStale_calm (record : ChatRecord) (prompt : PromptRecord) (provider body cwd : Text) :
    Calm fn chat (retryStale fn chat record prompt provider body cwd) := by
  apply (calmFrame fn chat).session.clearProviderSession.bind
  intro _
  apply Prog.Within.bind (atOnce_within fun s => (calmFrame fn chat).publish s _)
  intro _
  apply retryPrompt_calm.bind
  intro found
  cases found with
  | none => trivial
  | some p =>
    apply (persistPromptEvents_calm _ rfl rfl).bind
    intro _
    exact (dispatchViaProvider_calm _ _ _ _ _ _ _).bind fun _ => trivial

theorem firstTurn_calm (record : ChatRecord) (prompt : PromptRecord) (body cwd : Text)
    (provider : Option Text) : Calm fn chat (firstTurn fn chat record prompt body cwd provider) := by
  cases provider with
  | none => exact dispatchEcho_calm _ _
  | some p =>
    apply (dispatchViaProvider_calm _ _ _ _ _ _ _).bind
    intro stale
    unfold retryIfStale
    split
    · exact retryStale_calm _ _ _ _ _
    · trivial

theorem endCompaction_calm (compacting : Bool) : Calm fn chat (endCompaction fn chat compacting) :=
  (calmFrame fn chat).session.endCompaction compacting

end Calm

end AgentGrove
