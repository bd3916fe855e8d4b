import AgentGrove.Coop.Upholds
import AgentGrove.Proofs.TurnFrame
import AgentGrove.Queue.Foreign

namespace AgentGrove

open Coop

/-- The code leaves the other chats' queues alone, and returns what `Q` says. -/
abbrev Fences (c : Uuid) (rows : List QueueItemRow) (modes : Uuid → Option QueueMode) {α : Type}
    (p : Async α) (Q : α → Prop) : Prop :=
  p.Upholds (fun _ _ _ => True) (Fenced c rows modes) (fun _ _ _ => True) Q

section Walk

variable {c : Uuid} {rows : List QueueItemRow} {modes : Uuid → Option QueueMode} {α β ε : Type}
  {fn : Fn} {chat : Uuid} {call : Call} {Q : β → Prop} {itemId : Uuid}

theorem access_fences {act : Choice → AppState → AppState × β}
    (h : ∀ w s, Fenced c rows modes s → Fenced c rows modes (act w s).1 ∧ Q (act w s).2) :
    Fences c rows modes (access fn chat call act) Q := by
  intro w s s' b hs _ ha
  obtain ⟨rfl, rfl⟩ := Prod.mk.inj (Option.some.inj ha)
  exact ⟨trivial, h w s hs⟩

theorem storeCall_fences {err : ε} {act : Choice → AppState → AppState × Except ε β}
    {Q : Except ε β → Prop} (herr : Q (.error err))
    (h : ∀ w s, Fenced c rows modes s → Fenced c rows modes (act w s).1 ∧ Q (act w s).2) :
    Fences c rows modes (storeCall fn chat call err act) Q := by
  refine access_fences fun w s hs => ?_
  split
  · exact ⟨hs, herr⟩
  · exact h w s hs

/-- A store call whose result does not matter. -/
theorem storeCall_fenced {err : ε} {act : Choice → AppState → AppState × Except ε β}
    (h : ∀ w s, Fenced c rows modes s → Fenced c rows modes (act w s).1) :
    Fences c rows modes (storeCall fn chat call err act) (fun _ => True) :=
  storeCall_fences trivial fun w s hs => ⟨h w s hs, trivial⟩

theorem atOnce_fences {act : AppState → AppState × β}
    (h : ∀ s, Fenced c rows modes s → Fenced c rows modes (act s).1) :
    Fences c rows modes (atOnce act) (fun _ => True) :=
  fun s hs => ⟨trivial, h s hs, trivial⟩

theorem lockRouting_fences : Fences c rows modes (lockRouting fn chat call) (fun _ => True) := by
  intro w s s' _ hs _ ha
  dsimp only at ha
  split at ha
  · cases ha
  · cases ha
    exact ⟨trivial, hs.keep rfl rfl le_rfl, trivial⟩

theorem unlockRouting_fences : Fences c rows modes unlockRouting (fun _ => True) :=
  atOnce_fences fun _ hs => hs.keep rfl rfl le_rfl

theorem insertDispatching_fences : Fences c rows modes (insertDispatching chat) (fun _ => True) :=
  atOnce_fences fun _ hs => hs.keep rfl rfl le_rfl

theorem removeDispatching_fences : Fences c rows modes (removeDispatching chat) (fun _ => True) :=
  atOnce_fences fun _ hs => hs.keep rfl rfl le_rfl

theorem isDispatching_fences : Fences c rows modes (isDispatching chat) (fun _ => True) :=
  atOnce_fences fun _ hs => hs

theorem publish_fences {frame : Frame} : Fences c rows modes (publish chat frame) (fun _ => True) :=
  atOnce_fences fun _ hs => hs.keep rfl rfl le_rfl

theorem getChat_fences : Fences c rows modes (getChat fn chat call) (fun _ => True) :=
  access_fences fun _ _ hs => ⟨hs, trivial⟩

/-- Code that only ever acts quietly. -/
theorem calm_fences {p : Async α} (h : Calm fn chat p) : Fences c rows modes p (fun _ => True) :=
  h.upholds fun _ _ _ hs hq => ⟨trivial, hs.keep hq.items hq.modes (le_of_eq hq.nextId.symm)⟩

/-- The end of a handler that gives the routing lock back. -/
theorem leave_fences (a : α) :
    Fences c rows modes (unlockRouting.bind fun _ => (.ret a : Async α)) (fun _ => True) :=
  unlockRouting_fences.bind fun _ _ => trivial

theorem isAuto_fences : Fences c rows modes (isAuto fn chat call) (fun _ => True) := by
  refine Prog.Upholds.bind (storeCall_fenced fun _ _ hs => hs) fun mode _ => ?_
  split <;> trivial

theorem readState_fences : Fences c rows modes (readState fn chat) (fun _ => True) := by
  refine Prog.Upholds.bind (storeCall_fenced fun _ _ hs => hs) fun mode _ => ?_
  exact Prog.Upholds.bind (storeCall_fenced fun _ _ hs => hs) fun items _ => trivial

theorem enqueueItem_fences {body : Text} : Fences c rows modes (enqueueItem fn c body) (fun _ => True) := by
  refine Prog.Upholds.bind (storeCall_fenced fun _ _ hs => hs) fun position _ => ?_
  cases position with
  | error e => trivial
  | ok position => exact storeCall_fenced fun w s hs => hs.insert

/-- A pop answers with an item that is no other chat's. -/
def Ours (rows : List QueueItemRow) (out : Except QueueError (Option QueueItem)) : Prop :=
  ∀ item, out = .ok (some item) → item.id ∉ rows.map QueueItemRow.id

theorem popItem_fences {pop : Nat → List QueueItemRow → Option QueueItemRow × List QueueItemRow}
    (h : ∀ now s, Fenced c rows modes s → Fenced c rows modes (setItems (pop now s.store.items).2 s) ∧
      ∀ i, (pop now s.store.items).1 = some i → i.id ∉ rows.map QueueItemRow.id) :
    Fences c rows modes (popItem fn c pop) (Ours rows) := by
  refine storeCall_fences (fun _ he => nomatch he) fun w s hs => ?_
  obtain ⟨hpop, hown⟩ := h w.now s hs
  refine ⟨hpop, fun item hitem => ?_⟩
  obtain ⟨i, hi, rfl⟩ := Option.map_eq_some_iff.mp (Except.ok.inj hitem)
  exact hown i hi

theorem popNextPending_fences : Fences c rows modes (popNextPending fn c) (Ours rows) :=
  popItem_fences fun now _ hs => hs.popNextPending now

theorem popSpecificPending_fences : Fences c rows modes (popSpecificPending fn c itemId) (Ours rows) :=
  popItem_fences fun now _ hs => hs.popSpecificPending now itemId

theorem markDone_fences (hid : itemId ∉ rows.map QueueItemRow.id) :
    Fences c rows modes (markDone fn chat itemId) (fun _ => True) :=
  storeCall_fenced fun _ _ hs => hs.markDone hid

theorem resetToPending_fences (hid : itemId ∉ rows.map QueueItemRow.id) :
    Fences c rows modes (resetToPending fn chat itemId) (fun _ => True) :=
  storeCall_fenced fun _ _ hs => hs.setStatus hid _ _ _

theorem persistAddPrompt_fences {body : Text} :
    Fences c rows modes (persistAddPrompt fn chat body) (fun _ => True) := by
  refine Prog.Upholds.bind (Q := fun _ => True) ?_ fun stored _ => ?_
  · refine Prog.Upholds.bind (storeCall_fenced fun _ _ hs => hs) fun found _ => ?_
    cases found with
    | error e => trivial
    | ok _ =>
    refine Prog.Upholds.bind (storeCall_fenced fun _ _ hs => hs) fun seq _ => ?_
    cases seq with
    | error e => trivial
    | ok seq =>
    refine Prog.Upholds.bind (storeCall_fenced fun w s hs => ?_) fun row _ => ?_
    · dsimp only
      split
      · exact hs.keep rfl rfl (Nat.le_succ _)
      · exact hs
    cases row with
    | error e => trivial
    | ok row =>
    refine Prog.Upholds.bind (storeCall_fenced fun _ _ hs => hs.keep rfl rfl le_rfl) fun touched _ => ?_
    cases touched <;> trivial
  cases stored with
  | error e => trivial
  | ok row =>
    exact Prog.Upholds.bind (Q := fun _ => True)
      (access_fences fun _ _ hs => ⟨hs.keep rfl rfl le_rfl, trivial⟩) fun _ _ => trivial

theorem guardTask_fences : Fences c rows modes (guardTask chat) (fun _ => True) := by
  refine Prog.Upholds.bind lockRouting_fences fun _ _ => ?_
  refine Prog.Upholds.bind removeDispatching_fences fun _ _ => ?_
  exact Prog.Upholds.bind unlockRouting_fences fun _ _ => publish_fences

theorem dropGuard_fences : Fences c rows modes (dropGuard chat) (fun _ => True) :=
  ⟨guardTask_fences, trivial⟩

theorem mustContinue_fences {queue : QueueState} :
    Fences c rows modes (mustContinue fn chat queue) (fun _ => True) := by
  unfold mustContinue
  split
  · exact isAuto_fences
  · trivial

theorem clearDispatching_fences : Fences c rows modes (clearDispatching fn chat) (fun _ => True) := by
  refine Prog.Upholds.bind lockRouting_fences fun _ _ => ?_
  refine Prog.Upholds.bind readState_fences fun queue _ => ?_
  refine Prog.Upholds.bind mustContinue_fences fun stays _ => ?_
  cases stays with
  | true => exact leave_fences false
  | false =>
    refine Prog.Upholds.bind removeDispatching_fences fun _ _ => ?_
    refine Prog.Upholds.bind unlockRouting_fences fun _ _ => ?_
    exact Prog.Upholds.bind publish_fences fun _ _ => trivial

/-- An item that the drain gives back. -/
theorem giveBack_fences (hid : itemId ∉ rows.map QueueItemRow.id) (a : α) :
    Fences c rows modes ((resetToPending fn chat itemId).bind fun _ => (.ret a : Async α))
      (fun _ => True) :=
  Prog.Upholds.bind (resetToPending_fences hid) fun _ _ => trivial

/-- The drain works on items that it has popped from its own queue. -/
theorem drainRound_fences : Fences c rows modes (drainRound fn c) (fun _ => True) := by
  refine Prog.Upholds.bind isAuto_fences fun auto _ => ?_
  cases auto with
  | false => trivial
  | true =>
  refine Prog.Upholds.bind popNextPending_fences fun out hours => ?_
  cases out with
  | error e => trivial
  | ok popped =>
  cases popped with
  | none => trivial
  | some item =>
  have hid := hours item rfl
  refine Prog.Upholds.bind isAuto_fences fun auto _ => ?_
  cases auto with
  | false => exact giveBack_fences hid _
  | true =>
  refine Prog.Upholds.bind getChat_fences fun found _ => ?_
  cases found with
  | none => exact giveBack_fences hid _
  | some drainChat =>
  refine Prog.Upholds.bind persistAddPrompt_fences fun stored _ => ?_
  split
  · refine Prog.Upholds.bind (markDone_fences hid) fun _ _ => ?_
    refine Prog.Upholds.bind publish_fences fun _ _ => ?_
    refine Prog.Upholds.bind (calm_fences (resolveCwd_calm drainChat)) fun cwd _ => ?_
    have hprovider : Calm fn c (resolveProvider drainChat.provider) := resolveProvider_calm _
    refine Prog.Upholds.bind (calm_fences hprovider) fun provider _ => ?_
    cases provider with
    | some p =>
      refine Prog.Upholds.bind (calm_fences (dispatchViaProvider_calm _ _ _ _ _ _ _)) fun _ _ => ?_
      trivial
    | none =>
      exact Prog.Upholds.bind (calm_fences (dispatchEcho_calm _ _)) fun _ _ => trivial
  · exact giveBack_fences hid _

theorem drainLoop_fences : Fences c rows modes (drainLoop fn c) (fun _ => True) := by
  refine ⟨fun _ => True, trivial, fun _ _ => ⟨fun _ _ _ _ => trivial, drainRound_fences.mono ?_⟩⟩
  rintro (_ | _) _ <;> trivial

theorem drainUntilIdle_fences : Fences c rows modes (drainUntilIdle fn c) (fun _ => True) := by
  refine ⟨fun _ => True, trivial, fun _ _ => ⟨fun _ _ _ _ => trivial, ?_⟩⟩
  refine Prog.Upholds.bind drainLoop_fences fun _ _ => ?_
  refine Prog.Upholds.bind clearDispatching_fences fun released _ => ?_
  cases released <;> trivial

theorem drainTask_fences : Fences c rows modes (drainTask c) (fun _ => True) :=
  Prog.Upholds.bind drainUntilIdle_fences fun _ _ => dropGuard_fences

theorem dispatchTask_fences {record : ChatRecord} {prompt : PromptRecord} {body : Text} :
    Fences c rows modes (dispatchTask c record prompt body) (fun _ => True) := by
  refine Prog.Upholds.bind (calm_fences (resolveCwd_calm record)) fun cwd _ => ?_
  have hprovider : Calm .dispatchTask c (resolveProvider record.provider) := resolveProvider_calm _
  refine Prog.Upholds.bind (calm_fences hprovider) fun provider _ => ?_
  refine Prog.Upholds.bind (calm_fences (firstTurn_calm _ _ _ _ _)) fun _ _ => ?_
  refine Prog.Upholds.bind (calm_fences (endCompaction_calm _)) fun _ _ => ?_
  exact Prog.Upholds.bind drainUntilIdle_fences fun _ _ => dropGuard_fences

theorem kickDrainIfIdle_fences : Fences c rows modes (kickDrainIfIdle fn c) (fun _ => True) := by
  refine Prog.Upholds.bind lockRouting_fences fun _ _ => ?_
  refine Prog.Upholds.bind isDispatching_fences fun busy _ => ?_
  cases busy with
  | true => exact unlockRouting_fences
  | false =>
  refine Prog.Upholds.bind isAuto_fences fun auto _ => ?_
  cases auto with
  | false => exact unlockRouting_fences
  | true =>
  refine Prog.Upholds.bind readState_fences fun queue _ => ?_
  split
  · exact unlockRouting_fences
  · refine Prog.Upholds.bind insertDispatching_fences fun _ _ => ?_
    refine Prog.Upholds.bind unlockRouting_fences fun _ _ => ?_
    exact ⟨drainTask_fences, trivial⟩

theorem setMode_fences (mode : QueueMode) : Fences c rows modes (setMode c mode) (fun _ => True) := by
  refine Prog.Upholds.bind (storeCall_fenced fun _ _ hs => hs.setMode (some mode)) fun stored _ => ?_
  cases stored with
  | error e => trivial
  | ok _ =>
    refine Prog.Upholds.bind (Q := fun _ => True) ?_ fun _ _ => trivial
    unfold kickIfAuto
    split
    · exact kickDrainIfIdle_fences
    · trivial

theorem dispatchPopped_fences {item : QueueItem} (hid : item.id ∉ rows.map QueueItemRow.id) :
    Fences c rows modes (dispatchPopped fn c item) (fun _ => True) := by
  refine Prog.Upholds.bind getChat_fences fun found _ => ?_
  cases found with
  | none => exact leave_fences _
  | some record =>
  refine Prog.Upholds.bind persistAddPrompt_fences fun stored _ => ?_
  split
  · refine Prog.Upholds.bind insertDispatching_fences fun _ _ => ?_
    refine Prog.Upholds.bind unlockRouting_fences fun _ _ => ?_
    refine Prog.Upholds.bind (markDone_fences hid) fun _ _ => ?_
    refine Prog.Upholds.bind publish_fences fun _ _ => ?_
    exact ⟨dispatchTask_fences, trivial⟩
  · exact leave_fences _

theorem popAndDispatch_fences {pop : Async (Except QueueError (Option QueueItem))}
    (h : Fences c rows modes pop (Ours rows)) :
    Fences c rows modes (popAndDispatch fn c pop) (fun _ => True) := by
  refine Prog.Upholds.bind lockRouting_fences fun _ _ => ?_
  refine Prog.Upholds.bind isDispatching_fences fun busy _ => ?_
  cases busy with
  | true => exact leave_fences _
  | false =>
  refine Prog.Upholds.bind h fun out hours => ?_
  cases out with
  | error e => exact leave_fences _
  | ok popped =>
  cases popped with
  | none => exact leave_fences _
  | some item => exact dispatchPopped_fences (hours item rfl)

theorem reorder_fences (ids : List Uuid) : Fences c rows modes (reorder c ids) (fun _ => True) := by
  refine Prog.Upholds.bind (storeCall_fenced fun w _ hs => hs.reorder w.now ids) fun stored _ => ?_
  cases stored with
  | error e => trivial
  | ok _ =>
    refine Prog.Upholds.bind publish_fences fun _ _ => ?_
    exact Prog.Upholds.bind readState_fences fun _ _ => trivial

theorem cancel_fences (hid : ∀ i ∈ rows, i.id = itemId → QueueRepo.isPending i = false) :
    Fences c rows modes (cancel c itemId) (fun _ => True) := by
  refine Prog.Upholds.bind (storeCall_fenced fun _ _ hs => hs.cancel hid) fun found _ => ?_
  split <;> trivial

theorem updateItem_fences {body : Text}
    (hid : (trim body).isEmpty = true ∨ ∀ i ∈ rows, i.id = itemId → QueueRepo.isPending i = false) :
    Fences c rows modes (updateItem c itemId body) (fun _ => True) := by
  unfold updateItem
  split
  · trivial
  · rename_i hbody
    refine Prog.Upholds.bind (storeCall_fenced fun w _ hs =>
      hs.updateBody (hid.resolve_left hbody) w.now body) fun found _ => ?_
    split <;> trivial

theorem enqueue_fences {body : Text} : Fences c rows modes (enqueue c body) (fun _ => True) := by
  refine Prog.Upholds.bind enqueueItem_fences fun stored _ => ?_
  cases stored <;> trivial

theorem respond_fences {request : Request} {render : α → Response} {p : Async (Except Failure α)}
    (hp : Fences c rows modes p (fun _ => True)) :
    Fences c rows modes (respond request render p) (fun _ => True) := by
  refine Prog.Upholds.bind hp fun out _ => ?_
  cases out with
  | ok a => exact atOnce_fences fun _ hs => hs.keep rfl rfl le_rfl
  | error e => exact atOnce_fences fun _ hs => hs.keep rfl rfl le_rfl

end Walk

/-- A request to the queue of this chat. -/
def ToQueue (c : Uuid) : Request → Prop
  | .enqueue d _ | .runNext d | .dispatchItem d _ | .reorder d _ | .updateItem d _ _ | .cancel d _
  | .setMode d _ => d = c
  | _ => False

/-- Where an item is looked up by its id alone, it is not another chat's pending item. -/
def Aims (c : Uuid) (items : List QueueItemRow) : Request → Prop
  | .cancel _ itemId => ∀ i ∈ foreignOf c items, i.id = itemId → QueueRepo.isPending i = false
  | .updateItem _ itemId body => (trim body).isEmpty = true ∨
    ∀ i ∈ foreignOf c items, i.id = itemId → QueueRepo.isPending i = false
  | _ => True

/-- Only requests to one chat's queue arrive. -/
def ToOneQueue (c : Uuid) (_ : Server) : ServerEvent → Prop
  | .arrive request => ToQueue c request
  | .run _ _ => True

/-- And none of them cancels or edits another chat's pending item. -/
def Aimed (c : Uuid) (p : Server) : ServerEvent → Prop
  | .arrive request => ToQueue c request ∧ Aims c p.shared.store.items request
  | .run _ _ => True

instance (c : Uuid) : (request : Request) → Decidable (ToQueue c request)
  | .enqueue _ _ | .runNext _ | .dispatchItem _ _ | .reorder _ _ | .updateItem _ _ _ | .cancel _ _
  | .setMode _ _ => inferInstanceAs (Decidable (_ = c))
  | .sendMessage _ _ | .addPrompt _ _ | .retryChat _ | .stopTurn _ | .createChat _ _ _ _ _ _
  | .deleteChat _ | .restoreChat _ | .patch _ _ _ _ | .forkChat _ _ | .truncateChat _ _
  | .revertPrompt _ _ => .isFalse id

instance (c : Uuid) (items : List QueueItemRow) : (request : Request) → Decidable (Aims c items request)
  | .cancel _ _ => inferInstanceAs (Decidable (∀ i ∈ _, _))
  | .updateItem _ _ _ => inferInstanceAs (Decidable (_ ∨ ∀ i ∈ _, _))
  | .enqueue _ _ | .runNext _ | .dispatchItem _ _ | .reorder _ _ | .setMode _ _ | .sendMessage _ _
  | .addPrompt _ _ | .retryChat _ | .stopTurn _ | .createChat _ _ _ _ _ _ | .deleteChat _
  | .restoreChat _ | .patch _ _ _ _ | .forkChat _ _ | .truncateChat _ _ | .revertPrompt _ _ =>
    .isTrue trivial

instance (c : Uuid) (p : Server) : (e : ServerEvent) → Decidable (ToOneQueue c p e)
  | .arrive request => inferInstanceAs (Decidable (ToQueue c request))
  | .run _ _ => .isTrue trivial

instance (c : Uuid) (p : Server) : (e : ServerEvent) → Decidable (Aimed c p e)
  | .arrive _ => inferInstanceAs (Decidable (_ ∧ _))
  | .run _ _ => .isTrue trivial

theorem handle_fences {c : Uuid} {rows : List QueueItemRow} {modes : Uuid → Option QueueMode}
    {s : AppState} {request : Request} (hs : Fenced c rows modes s) (hto : ToQueue c request)
    (h : Aims c s.store.items request) : Fences c rows modes (handle request) (fun _ => True) := by
  cases request with
  | enqueue d body =>
    cases hto
    exact respond_fences enqueue_fences
  | runNext d =>
    cases hto
    exact respond_fences (popAndDispatch_fences popNextPending_fences)
  | dispatchItem d itemId =>
    cases hto
    exact respond_fences (popAndDispatch_fences popSpecificPending_fences)
  | reorder d ids =>
    cases hto
    exact respond_fences (reorder_fences ids)
  | setMode d mode =>
    cases hto
    exact respond_fences (setMode_fences mode)
  | cancel d itemId =>
    cases hto
    have hid := h
    rw [Aims, hs.others] at hid
    exact respond_fences (cancel_fences hid)
  | updateItem d itemId body =>
    cases hto
    have hid := h
    rw [Aims, hs.others] at hid
    exact respond_fences (updateItem_fences hid)
  | _ => cases hto

/-- Requests to one chat's queue leave every other queue as it is, if none of them cancels or
edits another chat's pending item. -/
theorem other_queues_unchanged (c : Uuid) (s : AppState)
    (hkeys : (s.store.items.map QueueItemRow.id).Nodup) (hfresh : ∀ i ∈ s.store.items, i.id < s.nextId)
    (p : Server) (h : Pool.Reaches entry (Aimed c) ⟨s, []⟩ p) (d : Uuid) (hd : d ≠ c) :
    QueueRepo.ofChat p.shared.store.items d = QueueRepo.ofChat s.store.items d ∧
      p.shared.store.modes d = s.store.modes d := by
  have hstart : Fenced c (foreignOf c s.store.items) s.store.modes s := by
    refine ⟨rfl, fun _ _ => rfl, fun i hi hc hmem => ?_, fun i hi => hfresh i (mem_foreignOf.mp hi).1⟩
    obtain ⟨j, hj, he⟩ := List.mem_map.mp hmem
    obtain ⟨hj, hne⟩ := mem_foreignOf.mp hj
    rw [row_eq hkeys hj hi he] at hne
    exact hne hc
  have hpool : Pool.Upheld (fun _ _ _ => True) (Fenced c (foreignOf c s.store.items) s.store.modes)
      (⟨s, []⟩ : Server) := ⟨hstart, fun _ hth => nomatch hth⟩
  have hend := h.upheld hpool (fun _ _ hs hg => handle_fences hs hg.1 hg.2)
    (fun _ _ _ _ _ _ => trivial)
  refine ⟨?_, hend.state.otherModes d hd⟩
  rw [ofChat_foreign hd, ofChat_foreign hd, hend.state.others]

/-- A pending item. -/
def pendingItem (id chatId : Uuid) : QueueItemRow :=
  { id := id, chatId := chatId, body := ['a'], status := .pending, position := 0, createdAt := 0,
    updatedAt := 0 }

/-- Two chats with one pending item each. -/
def twoQueues : AppState :=
  serve { freshStore with items := [pendingItem 3 1, pendingItem 4 2] } 10 [['p']]

/-- The item of chat 1 is edited and canceled, and another one is put in its place. -/
def ownItems : List ServerEvent :=
  [.arrive (.updateItem 1 3 ['b']), .run 0 {}, .arrive (.cancel 1 3), .run 1 {},
    .arrive (.enqueue 1 ['c']), .run 2 {}, .run 2 {}]

theorem other_queues_unchanged_own : ∃ p : Server,
    p.shared.store.items.map (fun i => (i.id, i.chatId, i.body)) = [(4, 2, ['a']), (10, 1, ['c'])] ∧
      QueueRepo.ofChat p.shared.store.items 2 = QueueRepo.ofChat twoQueues.store.items 2 ∧
        p.shared.store.modes 2 = twoQueues.store.modes 2 := by
  have hrun : (Pool.play entry (Aimed 1) ⟨twoQueues, []⟩ ownItems).map
      (fun p => p.shared.store.items.map (fun i => (i.id, i.chatId, i.body))) =
        some [(4, 2, ['a']), (10, 1, ['c'])] := by decide
  obtain ⟨p, hp, hitems⟩ := Option.map_eq_some_iff.mp hrun
  exact ⟨p, hitems, other_queues_unchanged 1 twoQueues (by decide) (by decide) p (Pool.play_reaches hp) 2
    (by decide)⟩

/-- A cancel that is addressed to chat 1 removes the item of chat 2. -/
theorem foreign_item_canceled : ¬ ∀ (c : Uuid) (s : AppState),
    (s.store.items.map QueueItemRow.id).Nodup → (∀ i ∈ s.store.items, i.id < s.nextId) →
      ∀ (p : Server), Pool.Reaches entry (ToOneQueue c) ⟨s, []⟩ p → ∀ d, d ≠ c →
        QueueRepo.ofChat p.shared.store.items d = QueueRepo.ofChat s.store.items d ∧
          p.shared.store.modes d = s.store.modes d := by
  intro hclaim
  have hrun : (Pool.play entry (ToOneQueue 1) ⟨twoQueues, []⟩ [.arrive (.cancel 1 4), .run 0 {}]).map
      (fun p => QueueRepo.ofChat p.shared.store.items 2) = some [] := by decide
  obtain ⟨p, hp, hitems⟩ := Option.map_eq_some_iff.mp hrun
  have hsame := (hclaim 1 twoQueues (by decide) (by decide) p (Pool.play_reaches hp) 2 (by decide)).1
  rw [hitems] at hsame
  revert hsame
  decide

end AgentGrove
