import AgentGrove.Restart.Turns

namespace AgentGrove

open Coop

/-- Code that a restart after it would not show: it leaves cache and tables in
step, or a task it spawns does. -/
abbrev Restartable {α : Type} (p : Async α) : Prop := Brings True p Mirrored (fun _ => Mirrored)

section Rules

variable {α β : Type} {A : Sides → Prop} {M : α → Sides → Prop} {fn : Fn} {c : Uuid} {p : Async α}

theorem leave_brings (a : α) : Brings True (unlockRouting.bind fun _ => (.ret a : Async α)) A (fun _ => A) :=
  unlockRouting_aloof.andThen fun _ _ hu => hu

/-- The task that is spawned last goes on. -/
theorem spawn_brings {tag : Tag} {child : Async Unit} (a : α) (hc : Restartable child) :
    Restartable (.spawn tag child (.ret a) : Async α) :=
  .inr (.inr ⟨trivial, hc, trivial⟩)

/-- What is done of the work is up to the first part. -/
theorem Restartable.andReturn {f : α → Async β} (hp : Restartable p) (hf : ∀ a, Aloof (f a)) :
    Restartable (p.bind f) :=
  hp.bind (fun a => (hf a).brings) (fun h => h) fun _ => hf

theorem Restartable.of_aloof (hp : Aloof p) : Restartable p := hp.brings

end Rules

section Queue

variable {fn : Fn} {c : Uuid}

theorem enqueueItem_brings (body : Text) :
    Brings False (enqueueItem fn c body) Mirrored (fun _ => Mirrored) := by
  apply Aloof.andThen (storeCall_aloof fun _ _ => rfl)
  intro position
  cases position with
  | error e => exact fun _ hm => hm
  | ok position => exact storeCall_brings fun _ _ hm => hm.issue

theorem enqueue_restartable (body : Text) : Restartable (enqueue c body) := by
  apply (enqueueItem_brings body).andThen
  intro stored
  cases stored with
  | ok item => exact fun _ hm => hm
  | error e => exact fun _ hm => hm

theorem kickDrainIfIdle_restartable : Restartable (kickDrainIfIdle fn c) := by
  apply lockRouting_aloof.andThen
  intro _
  apply isDispatching_aloof.andThen
  intro busy
  cases busy with
  | true => exact unlockRouting_aloof.brings
  | false =>
  apply isAuto_aloof.andThen
  intro auto
  cases auto with
  | false => exact unlockRouting_aloof.brings
  | true =>
  apply readState_aloof.andThen
  intro queue
  split
  · exact unlockRouting_aloof.brings
  · apply insertDispatching_aloof.andThen
    intro _
    apply unlockRouting_aloof.andThen
    intro _
    exact spawn_brings () drainTask_brings

theorem setMode_restartable (mode : QueueMode) : Restartable (setMode c mode) := by
  apply Aloof.andThen (storeCall_aloof fun _ _ => rfl)
  intro stored
  cases stored with
  | error e => exact fun _ hm => hm
  | ok _ =>
    refine Restartable.andReturn (p := kickIfAuto .setMode c mode) ?_ fun _ => trivial
    unfold kickIfAuto
    split
    · exact kickDrainIfIdle_restartable
    · exact fun _ hm => hm

theorem dispatchPopped_restartable (item : QueueItem) : Restartable (dispatchPopped fn c item) := by
  apply getChat_aloof.andThen
  intro found
  cases found with
  | none => exact leave_brings _
  | some chat =>
  apply (persistAddPrompt_brings item.body).andThen
  intro stored
  split
  · rename_i prompt
    apply insertDispatching_aloof.andThen
    intro _
    apply unlockRouting_aloof.andThen
    intro _
    apply Aloof.andThen (changeItem_aloof ..)
    intro _
    apply (publish_aloof _).andThen
    intro _
    exact spawn_brings _ (dispatchTask_brings chat prompt item.body)
  · exact leave_brings _

theorem popAndDispatch_restartable {pop : Async (Except QueueError (Option QueueItem))} (hpop : Aloof pop) :
    Restartable (popAndDispatch fn c pop) := by
  apply lockRouting_aloof.andThen
  intro _
  apply isDispatching_aloof.andThen
  intro busy
  cases busy with
  | true => exact leave_brings _
  | false =>
  apply hpop.andThen
  intro out
  cases out with
  | error e => exact leave_brings _
  | ok popped =>
  cases popped with
  | none => exact leave_brings _
  | some item => exact dispatchPopped_restartable item

theorem reorder_aloof (ids : List Uuid) : Aloof (reorder c ids) := by
  apply Prog.Bystands.bind (storeCall_aloof fun _ _ => rfl)
  intro stored
  cases stored with
  | error e => trivial
  | ok _ => exact (publish_aloof _).bind fun _ => readState_aloof.bind fun _ => trivial

theorem cancel_aloof (itemId : Uuid) : Aloof (cancel c itemId) := by
  apply Prog.Bystands.bind (changeItem_aloof ..)
  intro found
  split <;> trivial

theorem updateItem_aloof (itemId : Uuid) (body : Text) : Aloof (updateItem c itemId body) := by
  unfold updateItem
  split
  · trivial
  · apply Prog.Bystands.bind (changeItem_aloof ..)
    intro found
    split <;> trivial

end Queue

section Messages

variable {c : Uuid}

theorem needKick_aloof (isBusy : Bool) : Aloof (needKick c isBusy) := by
  unfold needKick
  split
  · trivial
  · exact isAuto_aloof

theorem sendMessage_restartable (content : Text) : Restartable (sendMessage c content) := by
  apply lockRouting_aloof.andThen
  intro _
  apply getChat_aloof.andThen
  intro found
  cases found with
  | none => exact leave_brings _
  | some _ =>
  apply isDispatching_aloof.andThen
  intro isBusy
  apply readState_aloof.andThen
  intro queue
  split
  · apply (enqueueItem_brings content).andThen
    intro stored
    cases stored with
    | error e => exact leave_brings _
    | ok item =>
    apply (needKick_aloof isBusy).andThen
    intro kick
    cases kick with
    | false => exact leave_brings _
    | true =>
      apply insertDispatching_aloof.andThen
      intro _
      apply unlockRouting_aloof.andThen
      intro _
      exact spawn_brings _ drainTask_brings
  · apply insertDispatching_aloof.andThen
    intro _
    apply getChat_aloof.andThen
    intro found
    cases found with
    | none => exact leave_brings _
    | some chat =>
    apply (persistAddPrompt_brings content).andThen
    intro stored
    split
    · exact leave_brings _
    · exact leave_brings _
    · rename_i prompt
      apply unlockRouting_aloof.andThen
      intro _
      exact spawn_brings _ (dispatchTask_brings chat prompt content)

theorem addPrompt_restartable (content : Text) : Restartable (addPrompt c content) := by
  apply lockRouting_aloof.andThen
  intro _
  apply getChat_aloof.andThen
  intro found
  cases found with
  | none => exact leave_brings _
  | some chat =>
  apply (persistAddPrompt_brings content).andThen
  intro stored
  split
  · exact leave_brings _
  · exact leave_brings _
  · rename_i prompt
    apply insertDispatching_aloof.andThen
    intro _
    apply unlockRouting_aloof.andThen
    intro _
    exact spawn_brings _ (dispatchTask_brings chat prompt content)

theorem retryChat_restartable : Restartable (retryChat c) := by
  apply lockRouting_aloof.andThen
  intro _
  apply getChat_aloof.andThen
  intro found
  cases found with
  | none => exact leave_brings _
  | some chat =>
  dsimp only
  split
  · exact leave_brings _
  apply isDispatching_aloof.andThen
  intro busy
  cases busy with
  | true => exact leave_brings _
  | false =>
  apply (resetLast_brings .retryPrompt).andThen
  intro found
  cases found with
  | none => exact leave_brings _
  | some prompt =>
  apply (persistPromptEvents_brings _ _).andThen
  intro _
  apply Prog.Carries.andThen (M := fun _ => Mirrored)
  · exact storeCall_brings fun _ _ hm => hm.touchPaths prompt.id []
  intro _
  apply getChat_aloof.andThen
  intro found
  cases found with
  | none => exact leave_brings _
  | some chat =>
    apply insertDispatching_aloof.andThen
    intro _
    apply unlockRouting_aloof.andThen
    intro _
    exact spawn_brings _ (dispatchTask_brings chat prompt prompt.content)

/-- The log has room for the error that ends a stuck prompt. -/
def Roomy (events : List AgentEvent) : Prop :=
  ChatRegistry.pushEvent events (.error didNotComplete) = events ++ [.error didNotComplete]

instance (events : List AgentEvent) : Decidable (Roomy events) := inferInstanceAs (Decidable (_ = _))

/-- The error is written to the table first, and the cache is to get it too. -/
theorem Mirrored.endTail {u : Sides} {tail : PromptRow} (h : Mirrored u)
    (htail : tail ∈ ChatRepo.listPrompts u.prompts c)
    (hroom : (u.cache.get c).isSome = true → Roomy tail.events) :
    Mirrored { u.write tail.id (tail.events ++ [.error didNotComplete]) with
      cache := u.cache.appendEvent c tail.id (.error didNotComplete) } := by
  obtain ⟨hrow, hc⟩ := mem_listPrompts.mp htail
  cases hget : u.cache.get c with
  | none =>
    refine h.amended hrow rfl hc (fun _ => rfl) fun chat hchat => ?_
    rw [hget] at hchat
    cases hchat
  | some chat =>
    have hnext := h.append_row hrow rfl hc (.error didNotComplete)
    rwa [hroom (Option.isSome_iff_exists.mpr ⟨chat, hget⟩)] at hnext

theorem stopTurn_brings : Brings True (stopTurn c)
    (fun u => Mirrored u ∧ ((u.cache.get c).isSome = true →
      ∀ tail ∈ stuckTail (.ok (ChatRepo.listPrompts u.prompts c)), Roomy tail.events))
    (fun _ => Mirrored) := by
  apply Aloof.andThen (access_aloof fun _ _ => rfl)
  intro token
  cases token with
  | some token =>
    apply Prog.Carries.weaken (A := Mirrored) ?_ (fun _ hu => hu.1) fun _ _ hm => hm
    apply Aloof.andThen (atOnce_aloof fun _ => rfl)
    intro _
    exact kickDrainIfIdle_restartable.andReturn fun _ => trivial
  | none =>
  apply Prog.Carries.andThen (M := fun prompts u => Mirrored u ∧ ((u.cache.get c).isSome = true →
    ∀ tail ∈ stuckTail prompts, Roomy tail.events) ∧
      ∀ tail ∈ stuckTail prompts, tail ∈ ChatRepo.listPrompts u.prompts c)
  · refine storeCall_brings fun w s hu => ⟨hu.1, hu.2, fun tail htail => ?_⟩
    exact List.mem_of_getLast? (Option.filter_eq_some_iff.mp htail).1
  intro prompts
  cases stuckTail prompts with
  | some tail =>
    apply Prog.Carries.andThen (M := fun _ u =>
      Mirrored { u with cache := u.cache.appendEvent c tail.id (.error didNotComplete) })
    · exact storeCall_brings fun w s hu => hu.1.endTail (hu.2.2 tail rfl) fun hc => hu.2.1 hc tail rfl
    intro _
    apply Prog.Carries.andThen (M := fun _ => Mirrored)
    · exact access_brings fun _ _ _ hm => hm
    intro _
    exact (publish_aloof _).andThen fun _ _ hm => hm
  | none =>
    apply Prog.Carries.weaken (A := Mirrored) ?_ (fun _ hu => hu.1) fun _ _ hm => hm
    apply lockRouting_aloof.andThen
    intro _
    apply removeDispatching_aloof.andThen
    intro _
    apply unlockRouting_aloof.andThen
    intro _
    apply (publish_aloof _).andThen
    intro _
    exact kickDrainIfIdle_restartable.andReturn fun _ => trivial

end Messages

end AgentGrove
