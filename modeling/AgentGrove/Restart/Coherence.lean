import AgentGrove.Restart.Chats

namespace AgentGrove

open Coop

/-- What a request writes to the cache it writes to the tables, too. -/
def Sides.WritesBoth (u : Sides) : Request → Prop
  | .revertPrompt c promptId => ∀ chat ∈ u.cache.get c, ∀ q ∈ chat.prompts, q.id ≠ promptId
  | .forkChat c seq => ∀ chat ∈ u.cache.get c, ∀ q ∈ chat.prompts, seq < q.seq
  | .restoreChat c => ChatRepo.isDeleted u.rows c = true → ChatRepo.listPrompts u.prompts c = []
  | .stopTurn c => (u.cache.get c).isSome = true →
    ∀ tail ∈ stuckTail (.ok (ChatRepo.listPrompts u.prompts c)), Roomy tail.events
  | _ => True

instance (u : Sides) : (request : Request) → Decidable (u.WritesBoth request)
  | .revertPrompt _ _ | .forkChat _ _ => inferInstanceAs (Decidable (∀ chat ∈ u.cache.get _, _))
  | .restoreChat _ | .stopTurn _ => inferInstanceAs (Decidable (_ → _))
  | .sendMessage _ _ | .addPrompt _ _ | .runNext _ | .dispatchItem _ _ | .retryChat _ | .setMode _ _
  | .enqueue _ _ | .reorder _ _ | .cancel _ _ | .updateItem _ _ _ | .createChat _ _ _ _ _ _
  | .deleteChat _ | .patch _ _ _ _ | .truncateChat _ _ => .isTrue trivial

/-- Requests come one at a time, and the store works. -/
def InTurns (p : Server) : ServerEvent → Prop
  | .arrive _ => p.Idle
  | .run _ w => w.fail = false

/-- And each of them writes to both sides what it writes to one. -/
def InStep (p : Server) : ServerEvent → Prop
  | .arrive request => p.Idle ∧ (sides p.shared).WritesBoth request
  | .run _ w => w.fail = false

instance (p : Server) : (e : ServerEvent) → Decidable (InTurns p e)
  | .arrive _ => inferInstanceAs (Decidable p.Idle)
  | .run _ w => inferInstanceAs (Decidable (w.fail = false))

instance (p : Server) : (e : ServerEvent) → Decidable (InStep p e)
  | .arrive _ => inferInstanceAs (Decidable (_ ∧ _))
  | .run _ w => inferInstanceAs (Decidable (w.fail = false))

/-- The cache is what a restart would make of the tables. -/
structure Coherent (s : AppState) : Prop where
  listed : ∀ project, (s.chats.projectIds project).Perm ((hydrateFromStore s.store).projectIds project)
  kept : ∀ c, (s.chats.get c).map ChatRecord.kept =
    ((hydrateFromStore s.store).get c).map ChatRecord.kept

/-- Two indexed caches of the same chats list the same chats under each project. -/
theorem Indexed.perm {reg reg' : ChatRegistry} (h : Indexed reg) (h' : Indexed reg')
    (hg : ∀ c, (reg.get c).map ChatRecord.projectId = (reg'.get c).map ChatRecord.projectId)
    (project : Uuid) : (reg.projectIds project).Perm (reg'.projectIds project) := by
  rw [List.perm_ext_iff_of_nodup (h project).1 (h' project).1]
  intro id
  rw [h.mem_iff, h'.mem_iff, hg id]

theorem Mirrored.coherent {s : AppState} (h : Mirrored (sides s)) : Coherent s := by
  have hids : (s.store.chats.map ChatRow.id).Nodup := h.rowIds
  have hkept : ∀ c, (s.chats.get c).map ChatRecord.kept =
      ((hydrateFromStore s.store).get c).map ChatRecord.kept :=
    fun c => (h.agrees c).trans (kept_hydrate hids c).symm
  refine ⟨h.indexed.perm (indexed_hydrate hids) fun c => ?_, hkept⟩
  have hproject := congrArg (Option.map Prod.fst) (hkept c)
  rw [Option.map_map, Option.map_map] at hproject
  exact hproject

section Requests

variable {α : Type} {A : Sides → Prop} {request : Request}

theorem respond_brings {render : α → Response} {p : Async (Except Failure α)}
    (hp : Brings True p A (fun _ => Mirrored)) :
    Brings True (respond request render p) A (fun _ => Mirrored) := by
  refine hp.bind (fun out => Aloof.brings ?_) (fun h => h) fun _ out => ?_
  all_goals
    cases out with
    | ok a => exact answer_aloof _ _
    | error e => exact answer_aloof _ _

theorem respond_restartable {render : α → Response} {p : Async (Except Failure α)} (hp : Restartable p) :
    Brings True (respond request render p) (fun u => Mirrored u ∧ u.WritesBoth request)
      (fun _ => Mirrored) :=
  respond_brings (hp.weaken (fun _ hu => hu.1) fun _ _ hm => hm)

theorem handle_brings (request : Request) :
    Brings True (handle request) (fun u => Mirrored u ∧ u.WritesBoth request) (fun _ => Mirrored) := by
  cases request with
  | sendMessage c content => exact respond_restartable (sendMessage_restartable content)
  | addPrompt c content => exact respond_restartable (addPrompt_restartable content)
  | runNext c => exact respond_restartable (popAndDispatch_restartable (popItem_aloof _))
  | dispatchItem c item => exact respond_restartable (popAndDispatch_restartable (popItem_aloof _))
  | retryChat c => exact respond_restartable retryChat_restartable
  | setMode c mode => exact respond_restartable (setMode_restartable mode)
  | stopTurn c => exact respond_brings stopTurn_brings
  | enqueue c body => exact respond_restartable (enqueue_restartable body)
  | reorder c ids => exact respond_restartable (.of_aloof (reorder_aloof ids))
  | cancel c item => exact respond_restartable (.of_aloof (cancel_aloof item))
  | updateItem c item body => exact respond_restartable (.of_aloof (updateItem_aloof item body))
  | createChat project worktree title provider model effort =>
    exact respond_restartable (createChat_restartable ..)
  | deleteChat c => exact respond_restartable deleteChat_restartable
  | restoreChat c => exact respond_brings restoreChat_brings
  | patch c title model effort => exact respond_restartable (patch_restartable title model effort)
  | forkChat c seq => exact respond_brings (forkChat_brings seq)
  | truncateChat c seq => exact respond_restartable (truncateChat_restartable seq)
  | revertPrompt c prompt => exact respond_brings (revertPrompt_brings prompt)

end Requests

/-- Between requests a restart changes nothing, if every request so far has written to both
sides what it wrote to one. -/
theorem restart_changes_nothing (now : Nat) (s : AppState)
    (h : Tables s.store.chats s.store.prompts s.nextId) (p : Server)
    (hrun : Pool.Reaches entry InStep ⟨startup now s, []⟩ p) (hidle : p.Idle) : Coherent p.shared := by
  have hstart : Pool.Relay sides (fun w : Choice => w.fail = false) Mirrored
      (⟨startup now s, []⟩ : Server) :=
    .inl ⟨fun _ ht => (nomatch ht), mirrored_startup now h⟩
  have hend := Pool.Relay.reaches (fun p request hg => ⟨hg.1,
    fun u => Mirrored u ∧ u.WritesBoth request, fun hm => ⟨hm, hg.2⟩, handle_brings request⟩)
    (fun _ _ _ hg => hg) hrun hstart
  exact (hend.settled hidle).coherent

/-- A message is sent, and its turn ends. -/
def oneTurn : List ServerEvent :=
  [.arrive (.sendMessage 1 ['b'])] ++ rounds 0 10 ++ rounds 1 11 ++ rounds 2 1

theorem restart_changes_nothing_echo : ∃ p : Server,
    p.shared.store.prompts.map (fun r => (r.id, r.events)) =
        [(10, [.token "echo: b".toList, .done (some "echo: b".toList) none])] ∧
      Coherent p.shared := by
  have hrun : (Pool.play entry InStep ⟨serve freshStore 10 [], []⟩ oneTurn).map (fun p =>
      (p.shared.store.prompts.map (fun r => (r.id, r.events)), decide p.Idle)) =
        some ([(10, [.token "echo: b".toList, .done (some "echo: b".toList) none])], true) := by
    decide
  obtain ⟨p, hp, hend⟩ := Option.map_eq_some_iff.mp hrun
  obtain ⟨hrows, hidle⟩ := Prod.mk.inj hend
  have htables : Tables freshStore.chats freshStore.prompts 10 :=
    ⟨⟨by decide, by decide, by decide⟩, by decide, by decide, by decide⟩
  exact ⟨p, hrows, restart_changes_nothing 0 _ htables p (Pool.play_reaches hp) (of_decide_eq_true hidle)⟩

/-- A prompt that a revert has put into the cache does not come back. -/
theorem revert_not_stored : ¬ ∀ (now : Nat) (s : AppState),
    Tables s.store.chats s.store.prompts s.nextId → ∀ (p : Server),
      Pool.Reaches entry InTurns ⟨startup now s, []⟩ p → p.Idle → Coherent p.shared := by
  intro hclaim
  have hrun : (Pool.play entry InTurns ⟨serve oneMessage 10 [], []⟩
      [.arrive (.revertPrompt 1 2), .run 0 {}]).map (fun p => (decide p.Idle,
        ((p.shared.chats.get 1).map ChatRecord.kept).map (fun k => k.2.2.length),
        (((hydrateFromStore p.shared.store).get 1).map ChatRecord.kept).map (fun k => k.2.2.length))) =
          some (true, some 2, some 1) := by
    decide
  obtain ⟨p, hp, hend⟩ := Option.map_eq_some_iff.mp hrun
  obtain ⟨hidle, hlengths⟩ := Prod.mk.inj hend
  obtain ⟨hcached, hstored⟩ := Prod.mk.inj hlengths
  have htables : Tables oneMessage.chats oneMessage.prompts 10 :=
    ⟨⟨by decide, by decide, by decide⟩, by decide, by decide, by decide⟩
  have hcoherent := hclaim 0 _ htables p (Pool.play_reaches hp) (of_decide_eq_true hidle)
  rw [hcoherent.kept 1, hstored] at hcached
  cases hcached

end AgentGrove
