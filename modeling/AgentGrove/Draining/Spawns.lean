import AgentGrove.Draining.Walk

namespace AgentGrove

open Coop

section Spawning

variable {α β ε : Type} {c d : Uuid} {fn : Fn} {call : Call} {K : Tag → Async Unit → Prop}

theorem access_spawns {act : Choice → AppState → AppState × β} :
    (access fn d call act).Spawns K :=
  fun _ => trivial

theorem storeCall_spawns {err : ε} {act : Choice → AppState → AppState × Except ε β} :
    (storeCall fn d call err act).Spawns K :=
  fun _ => trivial

theorem lockRouting_spawns : (lockRouting fn d call).Spawns K := fun _ => trivial

theorem atOnce_spawns {act : AppState → AppState × β} : (atOnce act).Spawns K := fun _ => trivial

theorem isAuto_spawns : (isAuto fn d call).Spawns K :=
  (isAuto_inert (S := fun _ => True) trivial).spawns

theorem readState_spawns : (readState fn d).Spawns K :=
  (readState_inert (S := fun _ => True) trivial trivial).spawns

theorem clearDispatching_spawns : (clearDispatching fn d).Spawns K :=
  (clearDispatching_inert (S := fun _ => True) fun _ _ => trivial).spawns

theorem persistAddPrompt_spawns (content : Text) : (persistAddPrompt fn d content).Spawns K := by
  have hstore : (storeAddPrompt fn d content).Spawns K := by
    apply storeCall_spawns.bind
    intro row
    cases row with
    | error e => trivial
    | ok row =>
    apply storeCall_spawns.bind
    intro seq
    cases seq with
    | error e => trivial
    | ok seq =>
    apply storeCall_spawns.bind
    intro stored
    cases stored with
    | error e => trivial
    | ok stored =>
      apply storeCall_spawns.bind
      intro touched
      cases touched <;> trivial
  apply hstore.bind
  intro stored
  cases stored with
  | error e => trivial
  | ok row => exact access_spawns.bind fun _ => trivial

theorem drainRound_spawns : (drainRound fn d).Spawns K := by
  apply isAuto_spawns.bind
  intro auto
  cases auto with
  | false => trivial
  | true =>
  apply storeCall_spawns.bind
  intro popped
  split
  · trivial
  · trivial
  rename_i item
  have hreset : ((resetToPending fn d item.id).bind fun _ =>
      (.ret (.inr ()) : Async (Unit ⊕ Unit))).Spawns K :=
    storeCall_spawns.bind fun _ => trivial
  apply isAuto_spawns.bind
  intro auto
  cases auto with
  | false => exact hreset
  | true =>
  apply access_spawns.bind
  intro found
  cases found with
  | none => exact hreset
  | some chat =>
  apply (persistAddPrompt_spawns _).bind
  intro stored
  split
  swap
  · exact hreset
  apply storeCall_spawns.bind
  intro _
  apply atOnce_spawns.bind
  intro _
  apply (resolveCwd_calm _).spawns.bind
  intro cwd
  apply atOnce_spawns.bind
  intro provider
  cases provider with
  | some p => exact (dispatchViaProvider_calm _ _ _ _ _ _ _).spawns.bind fun _ => trivial
  | none => exact (dispatchEcho_calm _ _).spawns.bind fun _ => trivial

theorem drainUntilIdle_spawns : (drainUntilIdle fn d).Spawns K := by
  have hloop : (drainLoop fn d).Spawns K := ⟨fun _ => drainRound_spawns, fun _ => trivial⟩
  refine ⟨fun _ => hloop.bind fun _ => clearDispatching_spawns.bind fun freed => ?_, fun _ => trivial⟩
  cases freed <;> trivial

/-- A child that keeps the account of the drains of `c`. -/
def Keeps (c : Uuid) (tag : Tag) (child : Async Unit) : Prop :=
  child.Resting ∧ ∃ rc, (Carrier.task.tagged c tag ∧ rc = Pace.start ∨
    ¬ Carrier.task.tagged c tag ∧ rc = .other) ∧
    (pace c).Follows tag child rc (fun _ x => (pace c).rest tag none x)

theorem other_keeps {tag : Tag} {child : Async Unit} (hr : child.Resting)
    (ht : ¬ Carrier.task.tagged c tag) (hs : child.Spawns (Keeps c)) : Keeps c tag child := by
  refine ⟨hr, .other, .inr ⟨ht, rfl⟩, ?_⟩
  apply Protocol.follows_mono (other_follows hs ht)
  rintro _ _ rfl
  exact ht

theorem dropGuard_spawns : (dropGuard d).Spawns (Keeps c) := by
  refine ⟨other_keeps trivial (by simp [Carrier.tagged]) ?_, trivial⟩
  exact lockRouting_spawns.bind fun _ => atOnce_spawns.bind fun _ => atOnce_spawns.bind fun _ =>
    atOnce_spawns

theorem spawnDrainTask_spawns : (spawnDrainTask d).Spawns (Keeps c) := by
  refine ⟨?_, trivial⟩
  by_cases h : d = c
  · subst h
    exact ⟨trivial, _, .inl ⟨.inr rfl, rfl⟩, drainTask_paces⟩
  · apply other_keeps
    · trivial
    · simp [Carrier.tagged, h]
    · exact drainUntilIdle_spawns.bind fun _ => dropGuard_spawns

theorem spawnDispatchTask_spawns (chat : ChatRecord) (prompt : PromptRecord) (body : Text) :
    (spawnDispatchTask d chat prompt body).Spawns (Keeps c) := by
  refine ⟨?_, trivial⟩
  by_cases h : d = c
  · subst h
    exact ⟨dispatchTask_resting _ _ _, _, .inl ⟨.inl rfl, rfl⟩, dispatchTask_paces _ _ _⟩
  · apply other_keeps
    · exact dispatchTask_resting _ _ _
    · simp [Carrier.tagged, h]
    · apply (resolveCwd_calm _).spawns.bind
      intro cwd
      apply atOnce_spawns.bind
      intro provider
      apply (firstTurn_calm _ _ _ _ _).spawns.bind
      intro _
      apply (endCompaction_calm _).spawns.bind
      intro _
      exact drainUntilIdle_spawns.bind fun _ => dropGuard_spawns

theorem kickDrainIfIdle_spawns : (kickDrainIfIdle fn d).Spawns (Keeps c) := by
  apply lockRouting_spawns.bind
  intro _
  apply atOnce_spawns.bind
  intro busy
  cases busy with
  | true => exact atOnce_spawns
  | false =>
  apply isAuto_spawns.bind
  intro auto
  cases auto with
  | false => exact atOnce_spawns
  | true =>
  apply readState_spawns.bind
  intro queue
  split
  · exact atOnce_spawns
  · exact atOnce_spawns.bind fun _ => atOnce_spawns.bind fun _ => spawnDrainTask_spawns

/-- Releasing the lock and answering. -/
theorem leave_spawns (out : Except Failure α) :
    (unlockRouting.bind fun _ => (.ret out : Async (Except Failure α))).Spawns K :=
  fun _ => trivial

theorem enqueueItem_spawns (body : Text) : (enqueueItem fn d body).Spawns K := by
  apply storeCall_spawns.bind
  intro position
  cases position with
  | error e => trivial
  | ok position => exact storeCall_spawns

theorem sendMessage_spawns (body : Text) : (sendMessage d body).Spawns (Keeps c) := by
  apply lockRouting_spawns.bind
  intro _
  apply access_spawns.bind
  intro found
  cases found with
  | none => exact leave_spawns _
  | some _ =>
  apply atOnce_spawns.bind
  intro isBusy
  apply readState_spawns.bind
  intro queue
  split
  · apply (enqueueItem_spawns _).bind
    intro queued
    cases queued with
    | error e => exact leave_spawns _
    | ok item =>
      have hkick : (needKick d isBusy).Spawns (Keeps c) := by
        unfold needKick
        split
        · trivial
        · exact isAuto_spawns
      apply hkick.bind
      intro kick
      cases kick with
      | false => exact leave_spawns _
      | true =>
        exact atOnce_spawns.bind fun _ => atOnce_spawns.bind fun _ =>
          spawnDrainTask_spawns.bind fun _ => trivial
  · apply atOnce_spawns.bind
    intro _
    apply access_spawns.bind
    intro found
    cases found with
    | none => exact leave_spawns _
    | some chat =>
    apply (persistAddPrompt_spawns _).bind
    intro stored
    split
    · exact leave_spawns _
    · exact leave_spawns _
    · exact atOnce_spawns.bind fun _ => (spawnDispatchTask_spawns _ _ _).bind fun _ => trivial

theorem addPrompt_spawns (body : Text) : (addPrompt d body).Spawns (Keeps c) := by
  apply lockRouting_spawns.bind
  intro _
  apply access_spawns.bind
  intro found
  cases found with
  | none => exact leave_spawns _
  | some chat =>
  apply (persistAddPrompt_spawns _).bind
  intro stored
  split
  · exact leave_spawns _
  · exact leave_spawns _
  · exact atOnce_spawns.bind fun _ => atOnce_spawns.bind fun _ =>
      (spawnDispatchTask_spawns _ _ _).bind fun _ => trivial

theorem popAndDispatch_spawns {pop : Async (Except QueueError (Option QueueItem))}
    (hp : pop.Spawns (Keeps c)) : (popAndDispatch fn d pop).Spawns (Keeps c) := by
  apply lockRouting_spawns.bind
  intro _
  apply atOnce_spawns.bind
  intro busy
  cases busy with
  | true => exact leave_spawns _
  | false =>
  apply hp.bind
  intro popped
  split
  · exact leave_spawns _
  · exact leave_spawns _
  apply access_spawns.bind
  intro found
  cases found with
  | none => exact leave_spawns _
  | some chat =>
  apply (persistAddPrompt_spawns _).bind
  intro stored
  split
  · exact atOnce_spawns.bind fun _ => atOnce_spawns.bind fun _ => storeCall_spawns.bind fun _ =>
      atOnce_spawns.bind fun _ => (spawnDispatchTask_spawns _ _ _).bind fun _ => trivial
  · exact leave_spawns _

theorem retryChat_spawns : (retryChat d).Spawns (Keeps c) := by
  apply lockRouting_spawns.bind
  intro _
  apply access_spawns.bind
  intro found
  cases found with
  | none => exact leave_spawns _
  | some chat =>
  dsimp only
  split
  · exact leave_spawns _
  apply atOnce_spawns.bind
  intro busy
  cases busy with
  | true => exact leave_spawns _
  | false =>
  apply access_spawns.bind
  intro found
  cases found with
  | none => exact leave_spawns _
  | some prompt =>
  apply (persistPromptEvents_calm _ rfl rfl).spawns.bind
  intro _
  apply storeCall_spawns.bind
  intro _
  apply access_spawns.bind
  intro found
  cases found with
  | none => exact leave_spawns _
  | some chat =>
    exact atOnce_spawns.bind fun _ => atOnce_spawns.bind fun _ =>
      (spawnDispatchTask_spawns _ _ _).bind fun _ => trivial

theorem stopTurn_spawns : (stopTurn d).Spawns (Keeps c) := by
  apply access_spawns.bind
  intro token
  cases token with
  | some token => exact atOnce_spawns.bind fun _ => kickDrainIfIdle_spawns.bind fun _ => trivial
  | none =>
  apply storeCall_spawns.bind
  intro prompts
  split
  · exact storeCall_spawns.bind fun _ => access_spawns.bind fun _ => atOnce_spawns.bind fun _ =>
      trivial
  · exact lockRouting_spawns.bind fun _ => atOnce_spawns.bind fun _ => atOnce_spawns.bind fun _ =>
      atOnce_spawns.bind fun _ => kickDrainIfIdle_spawns.bind fun _ => trivial

theorem setMode_spawns (mode : QueueMode) : (setMode d mode).Spawns (Keeps c) := by
  apply storeCall_spawns.bind
  intro set
  cases set with
  | error e => trivial
  | ok _ =>
    have hkick : (kickIfAuto .setMode d mode).Spawns (Keeps c) := by
      unfold kickIfAuto
      split
      · exact kickDrainIfIdle_spawns
      · trivial
    exact hkick.bind fun _ => trivial

theorem respond_spawns {request : Request} {render : α → Response}
    {handler : Async (Except Failure α)} (hh : handler.Spawns K) :
    (respond request render handler).Spawns K := by
  apply hh.bind
  intro out
  cases out <;> exact atOnce_spawns

/-- Whatever the server is asked for, every drain of the chat keeps its account. -/
theorem handle_spawns (request : Request) : (handle request).Spawns (Keeps c) := by
  cases request with
  | sendMessage id content => exact respond_spawns (sendMessage_spawns _)
  | addPrompt id content => exact respond_spawns (addPrompt_spawns _)
  | runNext id => exact respond_spawns (popAndDispatch_spawns storeCall_spawns)
  | dispatchItem id item => exact respond_spawns (popAndDispatch_spawns storeCall_spawns)
  | retryChat id => exact respond_spawns retryChat_spawns
  | setMode id mode => exact respond_spawns (setMode_spawns _)
  | stopTurn id => exact respond_spawns stopTurn_spawns
  | enqueue id body =>
    apply respond_spawns
    apply (enqueueItem_spawns _).bind
    intro item
    cases item <;> trivial
  | reorder id ids => exact respond_spawns (reorder_aside _).spawns
  | cancel id item => exact respond_spawns (cancel_aside _).spawns
  | updateItem id item body => exact respond_spawns (updateItem_aside _ _).spawns
  | createChat project worktree title provider model effort =>
    exact respond_spawns (createChat_offside _ _ _ _ _ _).spawns
  | deleteChat id =>
    apply respond_spawns
    apply storeCall_spawns.bind
    intro deleted
    cases deleted with
    | error e => trivial
    | ok _ => exact access_spawns.bind fun _ => trivial
  | restoreChat id =>
    apply respond_spawns
    apply storeCall_spawns.bind
    intro restored
    split
    · trivial
    · trivial
    apply storeCall_spawns.bind
    intro row
    cases row with
    | error e => trivial
    | ok row => exact access_spawns.bind fun _ => trivial
  | patch id title model effort => exact respond_spawns (patch_offside _ _ _).spawns
  | forkChat id seq => exact respond_spawns (forkChat_offside _).spawns
  | truncateChat id seq => exact respond_spawns (truncateChat_offside _).spawns
  | revertPrompt id prompt => exact respond_spawns (revertPrompt_offside _).spawns

theorem entry_paces (request : Request) :
    (pace c).Follows (entry request).tag (entry request).prog .other
      (fun _ x => (pace c).rest (entry request).tag none x) := by
  have ht : ¬ Carrier.task.tagged c (.handler request.chat) := by simp [Carrier.tagged]
  apply Protocol.follows_mono (other_follows (handle_spawns request) ht)
  rintro _ _ rfl
  exact ht

end Spawning

end AgentGrove
