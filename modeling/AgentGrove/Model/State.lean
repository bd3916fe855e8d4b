import AgentGrove.Coop.Pool
import AgentGrove.Model.Registry
import AgentGrove.Model.Store
import Mathlib.Data.Finset.Basic

namespace AgentGrove

open Coop

/-- The async functions whose suspension points are told apart. -/
inductive Fn where
  | sendMessage
  | addPrompt
  | runNext
  | dispatchItem
  | retryChat
  | setMode
  | stopTurn
  | enqueue
  | reorder
  | cancel
  | updateItem
  | createChat
  | deleteChat
  | restoreChat
  | patch
  | forkChat
  | truncateChat
  | revertPrompt
  | dispatchTask
  | drainTask
  | guard
deriving DecidableEq

/-- The awaits inside `dispatch_via_provider` and `dispatch_echo`. -/
inductive TurnCall where
  | settings
  | installToken
  | stream
  | recv
  | session
  | append
  | join
  | conclude
  | removeToken
  | readEvents
  | writeEvents
deriving DecidableEq

inductive Call where
  | lock
  | forceLock
  | getChat
  | cloneChat
  | reloadChat
  | getMode
  | listItems
  | isAuto
  | isStillAuto
  | clearAuto
  | maxPosition
  | insertItem
  | popItem
  | markDone
  | resetToPending
  | cancelItem
  | updateBody
  | reorder
  | setMode
  | getRow
  | maxSeq
  | insertPrompt
  | touchChat
  | ingestPrompt
  | retryPrompt
  | readEvents
  | writeEvents
  | writeTouchedPaths
  | getToken
  | listPrompts
  | appendEvent
  | worktreePath
  | projectRoot
  | modelChanges
  | updateChat
  | reloadRow
  | cacheChat
  | createRow
  | ingestChat
  | deleteRow
  | evict
  | restoreRow
  | rekey
  | copyPrompt
  | forkCache
  | truncateCache
  | deletePrompt
  | revert
  | drainUntilIdle
  | drainLoop
  | copyLoop
  | deleteLoop
  | turn (call : TurnCall)
deriving DecidableEq

/-- A suspension point: the function, the chat it works for and the awaited call. -/
structure Site where
  fn : Fn
  chat : Uuid
  call : Call
deriving DecidableEq

inductive Tag where
  | handler (chat : Uuid)
  | dispatch (chat : Uuid)
  | drain (chat : Uuid)
  | guard (chat : Uuid)
deriving DecidableEq

/-- What `timeout(FLUSH_INTERVAL, rx.recv())` yields. -/
inductive Recv where
  | timeout
  | event (ev : AgentEvent)
  | closed
deriving DecidableEq

/-- How the task that races `provider.spawn` against the cancel token ended.
`dropped` is the biased `select!` taking the cancelled branch. -/
inductive Joined where
  | completed
  | dropped
  | failed (message : Text)
  | panicked (message : Text)
deriving DecidableEq

/-- What the world outside the server decides at one await. -/
structure Choice where
  fail : Bool := false
  now : Nat := 0
  pick : Nat := 0
  recv : Recv := .closed
  joined : Joined := .completed
  text : Text := []
  autoApprove : Bool := true

inductive Request where
  | sendMessage (chatId : Uuid) (content : Text)
  | addPrompt (chatId : Uuid) (content : Text)
  | runNext (chatId : Uuid)
  | dispatchItem (chatId itemId : Uuid)
  | retryChat (chatId : Uuid)
  | setMode (chatId : Uuid) (mode : QueueMode)
  | stopTurn (chatId : Uuid)
  | enqueue (chatId : Uuid) (body : Text)
  | reorder (chatId : Uuid) (orderedIds : List Uuid)
  | cancel (chatId itemId : Uuid)
  | updateItem (chatId itemId : Uuid) (body : Text)
  | createChat (projectId : Uuid) (worktreeId : Option Uuid) (title provider model : Text)
      (effort : Option Text)
  | deleteChat (chatId : Uuid)
  | restoreChat (chatId : Uuid)
  | patch (chatId : Uuid) (title model : Option Text) (effort : Option (Option Text))
  | forkChat (chatId : Uuid) (promptSeq : Nat)
  | truncateChat (chatId : Uuid) (fromSeq : Nat)
  | revertPrompt (chatId promptId : Uuid)
deriving DecidableEq

structure QueueItem where
  id : Uuid
  chatId : Uuid
  body : Text
  status : QueueStatus
  createdAt : Nat
deriving DecidableEq

def QueueItem.ofRow (r : QueueItemRow) : QueueItem :=
  { id := r.id, chatId := r.chatId, body := r.body, status := r.status, createdAt := r.createdAt }

structure QueueState where
  chatId : Uuid
  mode : QueueMode
  items : List QueueItem
deriving DecidableEq

inductive Response where
  | failed (code : StatusCode) (message : Text)
  | sent (response : SendMessageResponse)
  | prompt (record : PromptRecord)
  | item (item : QueueItem)
  | queue (state : QueueState)
  | chat (record : ChatRecord)
  | view (view : ChatView)
  | forked (chatId promptsCount : Nat) (record : ChatRecord)
  | removed (ids : List Uuid)
  | done
deriving DecidableEq

/-- The shared state of the server. The last three fields record what left it:
published frames, provider calls and the answers given to requests. -/
structure AppState where
  store : Store
  chats : ChatRegistry
  dispatching : Finset Uuid
  /-- Whether some task holds the guard of `dispatching`, the routing lock. -/
  routingLock : Bool
  cancelTokens : Uuid → Option Nat
  cancelled : Finset Nat
  nextToken : Nat
  nextId : Uuid
  builtins : List Text
  projects : List Uuid
  worktrees : Uuid → Option Uuid
  bus : List (Topic × Frame)
  calls : List ProviderCall
  answers : List (Request × Response)

abbrev Async (α : Type) : Type 1 := Prog Site Tag Choice AppState α

abbrev Server : Type 1 := Pool Site Tag Choice AppState

/-- Await one atomic access to the shared state. -/
def access {β : Type} (fn : Fn) (chat : Uuid) (call : Call)
    (act : Choice → AppState → AppState × β) : Async β :=
  .await ⟨fn, chat, call⟩ (fun w s => some (act w s)) .ret

/-- Await a store call. It may fail, and then it has changed nothing. -/
def storeCall {ε β : Type} (fn : Fn) (chat : Uuid) (call : Call) (err : ε)
    (act : Choice → AppState → AppState × Except ε β) : Async (Except ε β) :=
  access fn chat call (fun w s => if w.fail then (s, .error err) else act w s)

/-- Read or change the shared state without giving up the processor. -/
def atOnce {β : Type} (act : AppState → AppState × β) : Async β := .sync act .ret

/-- `state.dispatching.lock().await`. -/
def lockRouting (fn : Fn) (chat : Uuid) (call : Call) : Async Unit :=
  .await ⟨fn, chat, call⟩
    (fun _ s => if s.routingLock then none else some ({ s with routingLock := true }, ())) .ret

/-- Dropping the guard of `dispatching`. -/
def unlockRouting : Async Unit := atOnce (fun s => ({ s with routingLock := false }, ()))

def isDispatching (chat : Uuid) : Async Bool := atOnce (fun s => (s, chat ∈ s.dispatching))

def insertDispatching (chat : Uuid) : Async Unit :=
  atOnce (fun s => ({ s with dispatching := insert chat s.dispatching }, ()))

def removeDispatching (chat : Uuid) : Async Unit :=
  atOnce (fun s => ({ s with dispatching := s.dispatching.erase chat }, ()))

def publishOn (topic : Topic) (frame : Frame) : Async Unit :=
  atOnce (fun s => ({ s with bus := s.bus ++ [(topic, frame)] }, ()))

def publish (chat : Uuid) (frame : Frame) : Async Unit := publishOn (.chat chat) frame

def answer (request : Request) (response : Response) : Async Unit :=
  atOnce (fun s => ({ s with answers := s.answers ++ [(request, response)] }, ()))

/-- `state.chats.read().await` and a lookup. -/
def getChat (fn : Fn) (chat : Uuid) (call : Call) : Async (Option ChatRecord) :=
  access fn chat call (fun _ s => (s, s.chats.get chat))

end AgentGrove
