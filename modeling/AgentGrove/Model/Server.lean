import AgentGrove.Model.ChatRoutes

namespace AgentGrove

open Coop

/-- Answer a request with what its handler returned. -/
def respond {α : Type} (request : Request) (render : α → Response)
    (handler : Async (Except Failure α)) : Async Unit := do
  match ← handler with
  | .ok a => answer request (render a)
  | .error e => answer request (.failed e.1 e.2)

/-- The routes. -/
def handle (request : Request) : Async Unit :=
  match request with
  | .sendMessage id content => respond request .sent (sendMessage id content)
  | .addPrompt id content => respond request .prompt (addPrompt id content)
  | .runNext id => respond request .item (runNext id)
  | .dispatchItem id item => respond request .item (dispatchItem id item)
  | .retryChat id => respond request .prompt (retryChat id)
  | .setMode id mode => respond request (fun _ => .done) (setMode id mode)
  | .stopTurn id => respond request (fun _ => .done) (stopTurn id)
  | .enqueue id body => respond request .item (enqueue id body)
  | .reorder id ids => respond request .queue (reorder id ids)
  | .cancel id item => respond request (fun _ => .done) (cancel id item)
  | .updateItem id item body => respond request (fun _ => .done) (updateItem id item body)
  | .createChat project worktree title provider model effort =>
    respond request .chat (createChat project worktree title provider model effort)
  | .deleteChat id => respond request (fun _ => .done) (deleteChat id)
  | .restoreChat id => respond request .chat (restoreChat id)
  | .patch id title model effort => respond request .view (patch id title model effort)
  | .forkChat id seq => respond request (fun f => .forked f.storeId f.record.prompts.length f.record)
      (forkChat id seq)
  | .truncateChat id seq => respond request .removed (truncateChat id seq)
  | .revertPrompt id prompt => respond request .prompt (revertPrompt id prompt)

/-- The chat a request is about; `createChat` is filed under its project. -/
def Request.chat : Request → Uuid
  | .sendMessage id _ | .addPrompt id _ | .runNext id | .dispatchItem id _ | .retryChat id
  | .setMode id _ | .stopTurn id | .enqueue id _ | .reorder id _ | .cancel id _
  | .updateItem id _ _ | .createChat id _ _ _ _ _ | .deleteChat id | .restoreChat id
  | .patch id _ _ _ | .forkChat id _ | .truncateChat id _ | .revertPrompt id _ => id

def entry (request : Request) : Thread Site Tag Choice AppState :=
  ⟨.handler request.chat, handle request⟩

/-- The scheduler's steps over this server. -/
abbrev ServerEvent : Type := Event Choice Request

def promptOfRow (row : PromptRow) : PromptRecord :=
  { id := row.id, seq := row.seq, content := row.content, events := row.events
    touchedPaths := row.touchedPaths, createdAt := row.createdAt }

/-- The cache a restart builds from the store. -/
def hydrateFromStore (store : Store) : ChatRegistry :=
  (ChatRepo.listAll store.chats).foldl (fun reg row =>
    reg.ingestChat (recordOfRow row
      ((ChatRepo.listPrompts store.prompts row.id).map promptOfRow))) ChatRegistry.empty

/-- Startup over whatever the last process left in the store: roll Running items
back, hydrate the cache, and start with no task, flag or token. -/
def startup (now : Nat) (s : AppState) : AppState :=
  let store := { s.store with items := QueueRepo.recoverStaleRunning now s.store.items }
  { s with
    store := store
    chats := hydrateFromStore store
    dispatching := ∅
    routingLock := false
    cancelTokens := fun _ => none
    cancelled := ∅ }

/-- A server freshly started on the given tables. -/
def serve (store : Store) (nextId : Uuid) (builtins : List Text) : AppState :=
  startup 0 {
    store := store, chats := ChatRegistry.empty, dispatching := ∅, routingLock := false
    cancelTokens := fun _ => none, cancelled := ∅, nextToken := 0, nextId := nextId
    builtins := builtins, projects := [0], worktrees := fun _ => none, bus := [], calls := []
    answers := [] }

/-- Chat 1 of project 0, without messages. -/
def freshChat : ChatRow :=
  ChatRepo.create 1 0 0 none ['t'] ['p'] ['m'] none

def freshStore : Store := { chats := [freshChat], prompts := [], items := [], modes := fun _ => none }

/-- Chat 1 with one message, stored as prompt 2. -/
def oneMessage : Store := { freshStore with prompts := [ChatRepo.newPrompt 2 0 1 1 ['a']] }

/-- Resume one task several times in a row, with nothing out of the ordinary happening. -/
def rounds (i n : Nat) : List ServerEvent := List.replicate n (.run i {})

end AgentGrove
