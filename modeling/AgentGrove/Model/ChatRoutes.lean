import AgentGrove.Model.QueueRoutes

namespace AgentGrove

open Coop

/-- Whether a message parked on an idle chat must start a drain. -/
def needKick (id : Uuid) (isBusy : Bool) : Async Bool :=
  if isBusy then pure false else isAuto .sendMessage id .isAuto

/-- Send a message: enqueue it if the chat is busy or older items wait, else
dispatch it now. Decision and commitment happen under the routing lock. -/
def sendMessage (id : Uuid) (content : Text) : Async (Except Failure SendMessageResponse) := do
  lockRouting .sendMessage id .lock
  match ← getChat .sendMessage id .getChat with
  | none =>
    unlockRouting
    return .error (.notFound, [])
  | some _ =>
  let isBusy ← isDispatching id
  let queue ← readState .sendMessage id
  if isBusy || 0 < queue.pendingCount then
    match ← enqueueItem .sendMessage id content with
    | .error _ =>
      unlockRouting
      return .error (.internalServerError, [])
    | .ok item =>
    if ← needKick id isBusy then
      insertDispatching id
      unlockRouting
      spawnDrainTask id
      return .ok (.queued item.id)
    else
      unlockRouting
      return .ok (.queued item.id)
  else
  insertDispatching id
  match ← getChat .sendMessage id .cloneChat with
  | none =>
    unlockRouting
    return .error (.notFound, [])
  | some chat =>
  match ← persistAddPrompt .sendMessage id content with
  | .error _ =>
    unlockRouting
    return .error (.internalServerError, [])
  | .ok none =>
    unlockRouting
    return .error (.notFound, [])
  | .ok (some prompt) =>
    unlockRouting
    spawnDispatchTask id chat prompt content
    return .ok (.dispatched prompt)

/-- Direct dispatch. It takes the routing lock but does not look at the flag. -/
def addPrompt (id : Uuid) (content : Text) : Async (Except Failure PromptRecord) := do
  lockRouting .addPrompt id .lock
  match ← getChat .addPrompt id .cloneChat with
  | none =>
    unlockRouting
    return .error (.notFound, [])
  | some chat =>
  match ← persistAddPrompt .addPrompt id content with
  | .error _ =>
    unlockRouting
    return .error (.internalServerError, [])
  | .ok none =>
    unlockRouting
    return .error (.notFound, [])
  | .ok (some prompt) =>
    insertDispatching id
    unlockRouting
    spawnDispatchTask id chat prompt content
    return .ok prompt

def retryChat (id : Uuid) : Async (Except Failure PromptRecord) := do
  lockRouting .retryChat id .lock
  match ← getChat .retryChat id .cloneChat with
  | none =>
    unlockRouting
    return .error (.notFound, [])
  | some chat =>
  if chat.prompts.isEmpty then
    unlockRouting
    return .error (.badRequest, [])
  else
  if ← isDispatching id then
    unlockRouting
    return .error (.conflict, [])
  else
  match ← access .retryChat id .retryPrompt (fun _ s =>
      match s.chats.retryPrompt id with
      | some (p, reg) => ({ s with chats := reg }, some p)
      | none => (s, none)) with
  | none =>
    unlockRouting
    return .error (.notFound, [])
  | some prompt =>
  persistPromptEvents .retryChat id prompt.id .readEvents .writeEvents
  let _ ← storeCall .retryChat id .writeTouchedPaths ChatError.db (fun _ s =>
    ({ s with store := { s.store with
        prompts := ChatRepo.updatePrompt prompt.id (fun r => { r with touchedPaths := [] })
          s.store.prompts } }, .ok ()))
  match ← getChat .retryChat id .reloadChat with
  | none =>
    unlockRouting
    return .error (.notFound, [])
  | some chat =>
    insertDispatching id
    unlockRouting
    spawnDispatchTask id chat prompt prompt.content
    return .ok prompt

def didNotComplete : Text :=
  "Turn did not complete — the agent may have crashed or timed out.".toList

/-- The tail prompt of a chat, if its stored log has no terminal event. -/
def stuckTail (prompts : Except ChatError (List PromptRow)) : Option PromptRow :=
  match prompts with
  | .error _ => none
  | .ok rows => rows.getLast?.filter (fun tail => !tail.events.any AgentEvent.terminal)

/-- Trip the turn's cancel token. Without one, end a stuck tail prompt with an
error, or else clear the flag by force. -/
def stopTurn (id : Uuid) : Async (Except Failure Unit) := do
  match ← access .stopTurn id .getToken (fun _ s => (s, s.cancelTokens id)) with
  | some token =>
    atOnce (fun s => ({ s with cancelled := insert token s.cancelled }, ()))
    kickDrainIfIdle .stopTurn id
    return .ok ()
  | none =>
  let prompts ← storeCall .stopTurn id .listPrompts ChatError.db (fun _ s =>
    (s, .ok (ChatRepo.listPrompts s.store.prompts id)))
  match stuckTail prompts with
  | some tail =>
    let _ ← storeCall .stopTurn id .writeEvents ChatError.db (fun _ s =>
      ({ s with store := { s.store with
          prompts := ChatRepo.updatePrompt tail.id (fun r =>
            { r with events := tail.events ++ [.error didNotComplete] }) s.store.prompts } },
        .ok ()))
    access .stopTurn id .appendEvent (fun _ s =>
      ({ s with chats := s.chats.appendEvent id tail.id (.error didNotComplete) }, ()))
    publish id .chatIdle
    return .ok ()
  | none =>
    lockRouting .stopTurn id .forceLock
    removeDispatching id
    unlockRouting
    publish id .chatIdle
    kickDrainIfIdle .stopTurn id
    return .ok ()

def recordOfRow (row : ChatRow) (prompts : List PromptRecord) : ChatRecord :=
  { id := row.id, projectId := row.projectId, worktreeId := row.worktreeId, title := row.title
    provider := row.provider, model := row.model, createdAt := row.createdAt, prompts := prompts
    sessionId := row.sessionId, effort := row.effort }

/-- `ChatRepo::create`. -/
def storeCreate (fn : Fn) (site : Uuid) (projectId : Uuid) (worktreeId : Option Uuid)
    (title provider model : Text) (effort : Option Text) : Async (Except ChatError ChatRow) :=
  if (trim title).isEmpty then pure (.error .emptyTitle)
  else storeCall fn site .createRow ChatError.db (fun w s =>
    let row := ChatRepo.create s.nextId w.now projectId worktreeId (trim title) provider model effort
    ({ s with store := { s.store with chats := s.store.chats ++ [row] }
              nextId := s.nextId + 1 }, .ok row))

def persistCreateChat (projectId : Uuid) (worktreeId : Option Uuid) (title provider model : Text)
    (effort : Option Text) : Async (Except Failure ChatRecord) :=
  if (trim title).isEmpty then pure (.error (.badRequest, "title is empty".toList))
  else do
    match ← storeCreate .createChat projectId projectId worktreeId title provider model effort with
    | .error e => return .error (.internalServerError, "chat store: ".toList ++ e.message)
    | .ok row =>
      let record := recordOfRow row []
      access .createChat projectId .ingestChat (fun _ s =>
        ({ s with chats := s.chats.ingestChat record }, ()))
      publishOn .sync (.chatCreated record.id record.projectId (some record.worktreeId))
      return .ok record

/-- `create_for_project_handler`. -/
def createChat (projectId : Uuid) (worktreeId : Option Uuid) (title provider model : Text)
    (effort : Option Text) : Async (Except Failure ChatRecord) := do
  if !(← access .createChat projectId .projectRoot (fun w s =>
      (s, !w.fail && decide (projectId ∈ s.projects)))) then
    return .error (.notFound, "project not found".toList)
  else
  match worktreeId with
  | none => persistCreateChat projectId worktreeId title provider model effort
  | some wt =>
  match ← access .createChat projectId .worktreePath (fun w s =>
      (s, if w.fail then none else s.worktrees wt)) with
  | none => return .error (.notFound, "worktree not found".toList)
  | some owner =>
    if owner = projectId then
      persistCreateChat projectId worktreeId title provider model effort
    else
      return .error (.badRequest, "worktree not in project".toList)

def deleteChat (id : Uuid) : Async (Except Failure Unit) := do
  match ← storeCall .deleteChat id .deleteRow ChatError.db (fun w s =>
      ({ s with store := { s.store with chats := ChatRepo.delete w.now id s.store.chats } },
        .ok ())) with
  | .error _ => return .error (.internalServerError, [])
  | .ok () =>
    access .deleteChat id .evict (fun _ s => ({ s with chats := s.chats.evict id }, ()))
    return .ok ()

/-- Restore puts the chat back into the cache without its prompts. -/
def restoreChat (id : Uuid) : Async (Except Failure ChatRecord) := do
  match ← storeCall .restoreChat id .restoreRow ChatError.db (fun _ s =>
      ({ s with store := { s.store with chats := ChatRepo.restore id s.store.chats } },
        .ok (ChatRepo.isDeleted s.store.chats id))) with
  | .error e => return .error (.internalServerError, e.message)
  | .ok false =>
    return .error (.notFound, "chat ".toList ++ showNat id ++ " not found or not deleted".toList)
  | .ok true =>
  match ← storeCall .restoreChat id .reloadRow ChatError.db (fun _ s =>
      (s, match ChatRepo.get s.store.chats id with
        | some row => .ok row
        | none => .error (.notFound id))) with
  | .error e => return .error (.internalServerError, e.message)
  | .ok row =>
    let record := recordOfRow row []
    access .restoreChat id .ingestChat (fun _ s =>
      ({ s with chats := s.chats.ingestChat record }, ()))
    return .ok record

def chatNotFound (id : Uuid) : Failure :=
  (.notFound, "chat ".toList ++ showNat id ++ " not found".toList)

/-- A field that must not be blank once trimmed. -/
def nonBlank (message : Text) (raw : Option Text) : Except Failure (Option Text) :=
  match raw with
  | none => .ok none
  | some t => if (trim t).isEmpty then .error (.badRequest, message) else .ok (some (trim t))

def trimmedEffort (effort : Option (Option Text)) : Option (Option Text) :=
  effort.map (fun inner => (inner.map trim).filter (fun t => !t.isEmpty))

def patch (id : Uuid) (title model : Option Text) (effort : Option (Option Text)) :
    Async (Except Failure ChatView) := do
  match ← getChat .patch id .getChat with
  | none => return .error (chatNotFound id)
  | some _ =>
  match nonBlank "title cannot be empty".toList title with
  | .error e => return .error e
  | .ok title =>
  match nonBlank "model cannot be empty".toList model with
  | .error e => return .error e
  | .ok model =>
  match ← persistChatUpdate .patch id (fun call => call)
      { title := title, model := model, effort := trimmedEffort effort, sessionId := none } with
  | .error e => return .error (.internalServerError, "chat store: ".toList ++ e.message)
  | .ok () =>
  match ← getChat .patch id .reloadChat with
  | none => return .error (chatNotFound id)
  | some record =>
    publishOn .sync (.chatUpdated id record.projectId record.worktreeId)
    return .ok (windowChat record)

/-- The cached half of `fork_chat`'s re-keying from the temporary id. -/
def rekey (tempId storeId : Uuid) (reg : ChatRegistry) : ChatRegistry :=
  match reg.get tempId with
  | none => reg
  | some record =>
    let byProject :=
      match reg.byProject.lookup record.projectId with
      | none => reg.byProject
      | some ids =>
        reg.byProject.insert record.projectId (ids.filter (fun i => i != tempId) ++ [storeId])
    { byId := (reg.byId.erase tempId).insert storeId { record with id := storeId }
      byProject := byProject }

/-- Give a copied prompt the events of its original, if it was stored at all. -/
def copyEvents (source : Uuid) (p : PromptRecord) : Except ChatError PromptRow → Async Unit
  | .error _ => pure ()
  | .ok row => do
    let _ ← storeCall .forkChat source .writeEvents ChatError.db (fun _ s =>
      ({ s with store := { s.store with
          prompts := ChatRepo.updatePrompt row.id (fun r => { r with events := p.events })
            s.store.prompts } }, .ok ()))

/-- The loop that copies a fork's prompts into the store. Failures are ignored. -/
def copyPrompts (source storeId : Uuid) : List PromptRecord → Async Unit
  | [] => pure ()
  | p :: ps => do
    copyEvents source p (← storeAddPrompt .forkChat storeId p.content)
    copyPrompts source storeId ps

structure Forked where
  storeId : Uuid
  record : ChatRecord

def forkChat (id : Uuid) (promptSeq : Nat) : Async (Except Failure Forked) := do
  match ← access .forkChat id .forkCache (fun w s =>
      match s.chats.fork s.nextId w.now id promptSeq with
      | some (forked, reg) => ({ s with chats := reg, nextId := s.nextId + 1 }, some forked)
      | none => (s, none)) with
  | none => return .error (.notFound, "chat or prompt_seq not found".toList)
  | some forked =>
  match ← storeCreate .forkChat id forked.projectId forked.worktreeId forked.title forked.provider
      forked.model forked.effort with
  | .error e => return .error (.internalServerError, "store: ".toList ++ e.message)
  | .ok row =>
    access .forkChat id .rekey (fun _ s =>
      ({ s with chats := rekey forked.id row.id s.chats }, ()))
    copyPrompts id row.id forked.prompts
    publishOn .sync (.chatCreated row.id forked.projectId none)
    return .ok ⟨row.id, forked⟩

def deletePrompts (chatId : Uuid) : List Uuid → Async Unit
  | [] => pure ()
  | p :: ps => do
    let _ ← storeCall .truncateChat chatId .deletePrompt ChatError.db (fun _ s =>
      ({ s with store := { s.store with prompts := ChatRepo.deletePrompt p s.store.prompts } },
        .ok ()))
    deletePrompts chatId ps

def truncateChat (id : Uuid) (fromSeq : Nat) : Async (Except Failure (List Uuid)) := do
  match ← access .truncateChat id .truncateCache (fun _ s =>
      match s.chats.truncateFromSeq id fromSeq with
      | some (removed, reg) => ({ s with chats := reg }, some removed)
      | none => (s, none)) with
  | none => return .error (.notFound, "chat not found".toList)
  | some removed =>
    deletePrompts id removed
    publish id .chatIdle
    return .ok removed

def revertBody (target : PromptRecord) : Text :=
  "Revert the changes made by prompt ".toList ++ showNat target.seq ++ " (\"".toList ++
    target.content ++ "\"). Touched files: ".toList ++
    (if target.touchedPaths.isEmpty then "(none recorded)".toList
      else joinLines ", ".toList target.touchedPaths) ++ ".".toList

/-- Revert appends its prompt to the cache only. -/
def revertPrompt (chatId promptId : Uuid) : Async (Except Failure PromptRecord) := do
  match ← access .revertPrompt chatId .revert (fun w s =>
      match (s.chats.get chatId).bind (fun c => c.prompts.find? (fun p => p.id == promptId)) with
      | none => (s, none)
      | some target =>
        match s.chats.addPrompt s.nextId w.now chatId (revertBody target) with
        | some (prompt, reg) => ({ s with chats := reg, nextId := s.nextId + 1 }, some prompt)
        | none => (s, none)) with
  | none => return .error (.notFound, [])
  | some prompt => return .ok prompt

end AgentGrove
