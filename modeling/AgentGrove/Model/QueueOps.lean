import AgentGrove.Model.State

namespace AgentGrove

/-- True if the chat's queue should auto-drain; an unreadable mode counts as manual. -/
def isAuto (fn : Fn) (chatId : Uuid) (call : Call) : Async Bool := do
  match ← storeCall fn chatId call QueueError.db (fun _ s =>
      (s, .ok (QueueRepo.getMode s.store.modes chatId))) with
  | .ok .auto => return true
  | _ => return false

/-- Mode and items of a chat's queue. Either read may fail on its own: the mode
then shows as manual and the items as none. -/
def readState (fn : Fn) (chatId : Uuid) : Async QueueState := do
  let mode ← storeCall fn chatId .getMode QueueError.db (fun _ s =>
    (s, .ok (QueueRepo.getMode s.store.modes chatId)))
  let rows ← storeCall fn chatId .listItems QueueError.db (fun _ s =>
    (s, .ok (QueueRepo.list s.store.items chatId)))
  let items := match rows with
    | .ok rows => rows
    | .error _ => []
  return {
    chatId := chatId
    mode := match mode with
      | .ok .auto => .auto
      | _ => .manual
    items := (items.filter (fun i => i.status ≠ .done)).map QueueItem.ofRow }

def QueueState.pendingCount (q : QueueState) : Nat :=
  (q.items.filter (fun i => i.status = .pending)).length

def setItems (items : List QueueItemRow) (s : AppState) : AppState :=
  { s with store := { s.store with items := items } }

/-- Append an item to the queue's tail: one statement reads the largest position
and another inserts the row. -/
def enqueueItem (fn : Fn) (chatId : Uuid) (body : Text) : Async (Except QueueError QueueItem) := do
  match ← storeCall fn chatId .maxPosition QueueError.db (fun _ s =>
      (s, .ok (QueueRepo.nextPosition s.store.items chatId))) with
  | .error e => return .error e
  | .ok position =>
    storeCall fn chatId .insertItem QueueError.db (fun w s =>
      ({ setItems (QueueRepo.insert s.nextId w.now chatId body position s.store.items) s with
          nextId := s.nextId + 1 },
        .ok { id := s.nextId, chatId := chatId, body := body, status := .pending,
              createdAt := w.now }))

/-- Either pop, as the one transaction it runs in. -/
def popItem (fn : Fn) (chatId : Uuid)
    (pop : Nat → List QueueItemRow → Option QueueItemRow × List QueueItemRow) :
    Async (Except QueueError (Option QueueItem)) :=
  storeCall fn chatId .popItem QueueError.db (fun w s =>
    (setItems (pop w.now s.store.items).2 s,
      .ok ((pop w.now s.store.items).1.map QueueItem.ofRow)))

def popNextPending (fn : Fn) (chatId : Uuid) : Async (Except QueueError (Option QueueItem)) :=
  popItem fn chatId (fun now => QueueRepo.popNextPending now chatId)

def popSpecificPending (fn : Fn) (chatId itemId : Uuid) :
    Async (Except QueueError (Option QueueItem)) :=
  popItem fn chatId (fun now => QueueRepo.popSpecificPending now chatId itemId)

/-- An update or delete of one item that answers whether it found the row. -/
def changeItem (fn : Fn) (chatId : Uuid) (call : Call) (itemId : Uuid)
    (guard : QueueItemRow → Bool) (act : Nat → List QueueItemRow → List QueueItemRow) :
    Async (Except QueueError Bool) :=
  storeCall fn chatId call QueueError.db (fun w s =>
    (setItems (act w.now s.store.items) s, .ok (QueueRepo.affects guard itemId s.store.items)))

def markDone (fn : Fn) (chatId itemId : Uuid) : Async (Except QueueError Bool) :=
  changeItem fn chatId .markDone itemId QueueRepo.isRunning (fun _ => QueueRepo.markDone itemId)

def resetToPending (fn : Fn) (chatId itemId : Uuid) : Async (Except QueueError Bool) :=
  changeItem fn chatId .resetToPending itemId QueueRepo.isRunning
    (fun now => QueueRepo.resetToPending now itemId)

def cancelItem (fn : Fn) (chatId itemId : Uuid) : Async (Except QueueError Bool) :=
  changeItem fn chatId .cancelItem itemId QueueRepo.isPending (fun _ => QueueRepo.cancel itemId)

def updateBody (fn : Fn) (chatId itemId : Uuid) (body : Text) : Async (Except QueueError Bool) :=
  changeItem fn chatId .updateBody itemId QueueRepo.isPending
    (fun now => QueueRepo.updateBody now itemId body)

end AgentGrove
