import AgentGrove.Model.Dispatch

namespace AgentGrove

open Coop

abbrev Failure := StatusCode × Text

def enqueue (chatId : Uuid) (body : Text) : Async (Except Failure QueueItem) := do
  match ← enqueueItem .enqueue chatId body with
  | .ok item => return .ok item
  | .error _ => return .error (.internalServerError, [])

/-- Turning auto on starts a drain. -/
def kickIfAuto (fn : Fn) (chatId : Uuid) (mode : QueueMode) : Async Unit :=
  if mode = .auto then kickDrainIfIdle fn chatId else pure ()

def setMode (chatId : Uuid) (mode : QueueMode) : Async (Except Failure Unit) := do
  match ← storeCall .setMode chatId .setMode QueueError.db (fun _ s =>
      ({ s with store := { s.store with
          modes := Function.update s.store.modes chatId (some mode) } }, .ok ())) with
  | .error _ => return .error (.internalServerError, [])
  | .ok () =>
    kickIfAuto .setMode chatId mode
    return .ok ()

/-- What `run_next` and `dispatch_item` do with the item they popped, the
routing lock still held. -/
def dispatchPopped (fn : Fn) (chatId : Uuid) (item : QueueItem) :
    Async (Except Failure QueueItem) := do
  match ← getChat fn chatId .cloneChat with
  | none =>
    unlockRouting
    return .error (.notFound, [])
  | some chat =>
  match ← persistAddPrompt fn chatId item.body with
  | .ok (some prompt) =>
    insertDispatching chatId
    unlockRouting
    let _ ← markDone fn chatId item.id
    publish chatId (.queueDispatched item.id)
    spawnDispatchTask chatId chat prompt item.body
    return .ok item
  | _ =>
    unlockRouting
    return .error (.internalServerError, [])

/-- The body that `run_next` and `dispatch_item` share, up to the pop they use. -/
def popAndDispatch (fn : Fn) (chatId : Uuid) (pop : Async (Except QueueError (Option QueueItem))) :
    Async (Except Failure QueueItem) := do
  lockRouting fn chatId .lock
  if ← isDispatching chatId then
    unlockRouting
    return .error (.conflict, [])
  else
  match ← pop with
  | .error _ =>
    unlockRouting
    return .error (.internalServerError, [])
  | .ok none =>
    unlockRouting
    return .error (.notFound, [])
  | .ok (some item) => dispatchPopped fn chatId item

def runNext (chatId : Uuid) : Async (Except Failure QueueItem) :=
  popAndDispatch .runNext chatId (popNextPending .runNext chatId)

def dispatchItem (chatId itemId : Uuid) : Async (Except Failure QueueItem) :=
  popAndDispatch .dispatchItem chatId (popSpecificPending .dispatchItem chatId itemId)

def reorder (chatId : Uuid) (orderedIds : List Uuid) : Async (Except Failure QueueState) := do
  match ← storeCall .reorder chatId .reorder QueueError.db (fun w s =>
      (setItems (QueueRepo.reorder w.now chatId orderedIds s.store.items) s, .ok ())) with
  | .error _ => return .error (.internalServerError, [])
  | .ok () =>
    publish chatId .queueReordered
    return .ok (← readState .reorder chatId)

def cancel (chatId itemId : Uuid) : Async (Except Failure Unit) := do
  match ← cancelItem .cancel chatId itemId with
  | .ok true => return .ok ()
  | .ok false => return .error (.notFound, [])
  | .error _ => return .error (.internalServerError, [])

def updateItem (chatId itemId : Uuid) (body : Text) : Async (Except Failure Unit) :=
  if (trim body).isEmpty then pure (.error (.badRequest, []))
  else do
    match ← updateBody .updateItem chatId itemId body with
    | .ok true => return .ok ()
    | .ok false => return .error (.notFound, [])
    | .error _ => return .error (.internalServerError, [])

end AgentGrove
