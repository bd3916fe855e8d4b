import AgentGrove.Restart.Walk

namespace AgentGrove

open Coop

section Turns

variable {fn : Fn} {c p : Uuid} {hands : Prop}

/-- A loop that keeps what is known. -/
theorem loop_brings {α β : Type} {site : Site} {b : α} {body : α → Async (α ⊕ β)}
    {A : Sides → Prop} (hb : ∀ b, Brings False (body b) A (fun _ => A)) :
    Brings hands (.loop site b body .ret) A (fun _ => A) := by
  refine ⟨fun _ => A, fun _ => A, fun _ hu => hu, fun b => ?_, fun _ _ hu => hu⟩
  refine (hb b).weaken (fun _ hu => hu) fun x u hu => ?_
  cases x with
  | inl b => exact hu
  | inr a => exact hu

theorem otherEvent_brings (provider : Text) (st : Stream) (ev : AgentEvent) :
    Brings False (otherEvent fn c p provider st ev) (Unwritten p) (fun _ => Unwritten p) := by
  apply (flushToken_brings _).andThen
  intro _
  apply (flushThinking_brings _).andThen
  intro _
  apply (captureSession_brings p ev).andThen
  intro _
  exact (emit_brings _ ev).andThen fun _ _ hm => hm

theorem streamRound_brings (provider : Text) (st : Stream) :
    Brings False (streamRound fn c p provider st) (Unwritten p) (fun _ => Unwritten p) := by
  have hrecv : Aloof (access fn c (.turn .recv) (fun w s => (s, w.recv))) :=
    access_aloof fun _ _ => rfl
  apply hrecv.andThen
  intro recv
  cases recv with
  | timeout =>
    apply (flushToken_brings _).andThen
    intro _
    exact (flushThinking_brings _).andThen fun _ _ hm => hm
  | closed => exact fun _ hm => hm
  | event ev =>
    cases ev with
    | token text =>
      apply (flushThinking_brings _).andThen
      intro _
      dsimp only
      split
      · exact (flushToken_brings _).andThen fun _ _ hm => hm
      · exact fun _ hm => hm
    | thinking text =>
      apply (flushToken_brings _).andThen
      intro _
      dsimp only
      split
      · exact (flushThinking_brings _).andThen fun _ _ hm => hm
      · exact fun _ hm => hm
    | _ => exact (otherEvent_brings _ _ _).andThen fun _ _ hm => hm

theorem join_aloof (token : Nat) : Aloof (.await ⟨fn, c, .turn .join⟩ (fun w s =>
    if w.joined = .dropped ∧ token ∉ s.cancelled then none else some (s, w.joined)) .ret) := by
  refine ⟨fun w s s' b ha => ?_, fun _ => trivial⟩
  dsimp only at ha
  split at ha
  · cases ha
  · cases ha
    rfl

/-- A turn leaves the events of its prompt written. -/
theorem dispatchViaProvider_brings (prompt : PromptRecord) (provider userText model : Text)
    (resumeSessionId effort : Option Text) (cwd : Text) :
    Brings False (dispatchViaProvider fn c prompt provider userText model resumeSessionId effort cwd)
      (Unwritten prompt.id) (fun _ => Mirrored) := by
  apply Aloof.andThen (access_aloof fun _ _ => rfl)
  intro autoApproveTools
  apply Aloof.andThen (access_aloof fun _ _ => rfl)
  intro token
  apply Aloof.andThen (atOnce_aloof fun _ => rfl)
  intro _
  apply Prog.Carries.andThen (loop_brings (streamRound_brings (p := prompt.id) provider))
  intro st
  apply (flushToken_brings _).andThen
  intro _
  apply (flushThinking_brings _).andThen
  intro _
  apply Aloof.andThen (atOnce_aloof fun _ => rfl)
  intro wasCancelled
  apply (join_aloof token).andThen
  intro joined
  apply (conclude_brings _).andThen
  intro _
  apply Aloof.andThen (access_aloof fun _ _ => rfl)
  intro _
  exact (persistPromptEvents_brings _ _).andThen fun _ _ hm => hm

theorem dispatchEcho_brings (prompt : PromptRecord) (userText : Text) :
    Brings False (dispatchEcho fn c prompt userText) (Unwritten prompt.id) (fun _ => Mirrored) := by
  apply (emit_brings _ _).andThen
  intro _
  apply (emit_brings _ _).andThen
  intro _
  exact persistPromptEvents_brings _ _

/-- The prompt that a retry starts over is still to be written. -/
theorem resetLast_brings (call : Call) :
    Brings False (access fn c call (fun _ s =>
        match s.chats.retryPrompt c with
        | some (p, reg) => ({ s with chats := reg }, some p)
        | none => (s, none)))
      Mirrored (fun found u =>
        match found with
        | none => Mirrored u
        | some prompt => Unwritten prompt.id u) := by
  refine access_brings fun w s _ hm => ?_
  cases hr : s.chats.retryPrompt c with
  | none => exact hm
  | some found => exact hm.retry hr

theorem retryStale_brings (chat : ChatRecord) (prompt : PromptRecord) (provider body cwd : Text) :
    Brings False (retryStale fn c chat prompt provider body cwd) Mirrored (fun _ => Mirrored) := by
  apply clearProviderSession_brings.andThen
  intro _
  apply (publish_aloof _).andThen
  intro _
  apply (resetLast_brings .retryPrompt).andThen
  intro found
  cases found with
  | none => exact fun _ hm => hm
  | some again =>
    apply (persistPromptEvents_brings _ _).andThen
    intro _
    refine ((dispatchViaProvider_brings again _ _ _ _ _ _).weaken (fun _ hm => hm.unwritten _)
      fun _ _ hm => hm).andThen fun _ _ hm => hm

theorem retryIfStale_brings (chat : ChatRecord) (prompt : PromptRecord) (provider body cwd : Text)
    (stale : Bool) :
    Brings False (retryIfStale fn c chat prompt provider body cwd stale) Mirrored (fun _ => Mirrored) := by
  unfold retryIfStale
  split
  · exact retryStale_brings chat prompt provider body cwd
  · exact fun _ hm => hm

theorem firstTurn_brings (chat : ChatRecord) (prompt : PromptRecord) (body cwd : Text)
    (provider : Option Text) :
    Brings False (firstTurn fn c chat prompt body cwd provider) Mirrored (fun _ => Mirrored) := by
  cases provider with
  | none =>
    exact (dispatchEcho_brings prompt body).weaken (fun _ hm => hm.unwritten _) fun _ _ hm => hm
  | some p =>
    refine Prog.Carries.andThen ((dispatchViaProvider_brings prompt _ _ _ _ _ _).weaken
      (fun _ hm => hm.unwritten _) fun _ _ hm => hm) fun stale => ?_
    exact retryIfStale_brings chat prompt p body cwd stale

theorem endCompaction_brings (compacting : Bool) :
    Brings False (endCompaction fn c compacting) Mirrored (fun _ => Mirrored) := by
  unfold endCompaction
  split
  · exact clearProviderSession_brings
  · exact fun _ hm => hm

end Turns

section Drain

variable {fn : Fn} {c : Uuid} {hands : Prop}

/-- An item that the drain gives back. -/
theorem giveBack_brings {α : Type} (itemId : Uuid) (a : α) :
    Brings hands ((resetToPending fn c itemId).bind fun _ => (.ret a : Async α)) Mirrored
      (fun _ => Mirrored) :=
  (changeItem_aloof ..).andThen fun _ _ hm => hm

theorem drainRound_brings : Brings False (drainRound fn c) Mirrored (fun _ => Mirrored) := by
  apply isAuto_aloof.andThen
  intro auto
  cases auto with
  | false => exact fun _ hm => hm
  | true =>
  apply Aloof.andThen (popItem_aloof _)
  intro out
  cases out with
  | error e => exact fun _ hm => hm
  | ok popped =>
  cases popped with
  | none => exact fun _ hm => hm
  | some item =>
  apply isAuto_aloof.andThen
  intro auto
  cases auto with
  | false => exact giveBack_brings _ _
  | true =>
  apply getChat_aloof.andThen
  intro found
  cases found with
  | none => exact giveBack_brings _ _
  | some drainChat =>
  apply (persistAddPrompt_brings item.body).andThen
  intro stored
  split
  · rename_i drainPrompt
    apply Aloof.andThen (changeItem_aloof ..)
    intro _
    apply (publish_aloof _).andThen
    intro _
    apply (resolveCwd_aloof drainChat).andThen
    intro cwd
    apply (resolveProvider_aloof _).andThen
    intro provider
    cases provider with
    | some p =>
      refine Prog.Carries.andThen ((dispatchViaProvider_brings drainPrompt _ _ _ _ _ _).weaken
        (fun _ hm => hm.unwritten _) fun _ _ hm => hm) fun _ _ hm => hm
    | none =>
      refine Prog.Carries.andThen ((dispatchEcho_brings drainPrompt _).weaken
        (fun _ hm => hm.unwritten _) fun _ _ hm => hm) fun _ _ hm => hm
  · exact giveBack_brings _ _

theorem drainUntilIdle_brings : Brings hands (drainUntilIdle fn c) Mirrored (fun _ => Mirrored) := by
  refine loop_brings fun _ => ?_
  apply Prog.Carries.andThen (loop_brings fun _ => drainRound_brings)
  intro _
  apply clearDispatching_aloof.andThen
  intro released
  cases released with
  | true => exact fun _ hm => hm
  | false => exact fun _ hm => hm

theorem drainTask_brings : Brings hands (drainTask c) Mirrored (fun _ => Mirrored) :=
  drainUntilIdle_brings.andThen fun _ => dropGuard_aloof.brings

theorem dispatchTask_brings (chat : ChatRecord) (prompt : PromptRecord) (body : Text) :
    Brings hands (dispatchTask c chat prompt body) Mirrored (fun _ => Mirrored) := by
  apply (resolveCwd_aloof chat).andThen
  intro cwd
  apply (resolveProvider_aloof _).andThen
  intro provider
  apply (firstTurn_brings chat prompt _ cwd provider).andThen
  intro _
  apply (endCompaction_brings _).andThen
  intro _
  exact drainUntilIdle_brings.andThen fun _ => dropGuard_aloof.brings

end Drain

end AgentGrove
