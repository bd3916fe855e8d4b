import AgentGrove.Model.Turn

namespace AgentGrove

open Coop

/-- `ChatRepo::add_prompt`: four statements check the chat's row, pick the next
seq, insert the prompt and touch the chat. -/
def storeAddPrompt (fn : Fn) (chatId : Uuid) (content : Text) :
    Async (Except ChatError PromptRow) := do
  match ← storeCall fn chatId .getRow ChatError.db (fun _ s =>
      (s, match ChatRepo.get s.store.chats chatId with
        | some row => .ok row
        | none => .error (.notFound chatId))) with
  | .error e => return .error e
  | .ok _ =>
  match ← storeCall fn chatId .maxSeq ChatError.db (fun _ s =>
      (s, .ok (ChatRepo.nextSeq s.store.prompts chatId))) with
  | .error e => return .error e
  | .ok seq =>
  match ← storeCall fn chatId .insertPrompt ChatError.db (fun w s =>
      let row := ChatRepo.newPrompt s.nextId w.now chatId seq content
      if ChatRepo.accepts s.store.chats s.store.prompts row then
        ({ s with store := { s.store with prompts := s.store.prompts ++ [row] }
                  nextId := s.nextId + 1 }, .ok row)
      else (s, .error .db)) with
  | .error e => return .error e
  | .ok row =>
  match ← storeCall fn chatId .touchChat ChatError.db (fun _ s =>
      ({ s with store := { s.store with
          chats := ChatRepo.updateRow chatId (fun c => { c with updatedAt := row.createdAt })
            s.store.chats } }, .ok ())) with
  | .error e => return .error e
  | .ok () => return .ok row

/-- Persist a prompt and put it into the cache. The answer is `none` when the
chat is no longer cached by then. -/
def persistAddPrompt (fn : Fn) (chatId : Uuid) (content : Text) :
    Async (Except ChatError (Option PromptRecord)) := do
  match ← storeAddPrompt fn chatId content with
  | .error e => return .error e
  | .ok row =>
    let prompt : PromptRecord :=
      { id := row.id, seq := row.seq, content := row.content, events := [], touchedPaths := []
        createdAt := row.createdAt }
    let ok ← access fn chatId .ingestPrompt (fun _ s =>
      ({ s with chats := (s.chats.ingestPrompt chatId prompt).2 },
        (s.chats.ingestPrompt chatId prompt).1))
    return .ok (if ok then some prompt else none)

def worktreePath (fn : Fn) (chatId : Uuid) (chat : ChatRecord) : Async (Option Text) :=
  match chat.worktreeId with
  | none => pure none
  | some wt => access fn chatId .worktreePath (fun w s =>
      (s, if w.fail || (s.worktrees wt).isNone then none else some w.text))

/-- Worktree path, else project root, else `/tmp`. -/
def resolveCwd (fn : Fn) (chatId : Uuid) (chat : ChatRecord) : Async Text := do
  match ← worktreePath fn chatId chat with
  | some path => return path
  | none => access fn chatId .projectRoot (fun w s =>
      (s, if w.fail || chat.projectId ∉ s.projects then "/tmp".toList else w.text))

def resolveProvider (id : Text) : Async (Option Text) :=
  atOnce (fun s => (s, if id ∈ s.builtins then some id else none))

/-- One pass of the drain's `while`: `inl` goes round again, `inr` breaks out. -/
def drainRound (fn : Fn) (chatId : Uuid) : Async (Unit ⊕ Unit) := do
  if !(← isAuto fn chatId .isAuto) then
    return .inr ()
  else
  match ← popNextPending fn chatId with
  | .error _ => return .inr ()
  | .ok none => return .inr ()
  | .ok (some item) =>
  if !(← isAuto fn chatId .isStillAuto) then
    let _ ← resetToPending fn chatId item.id
    return .inr ()
  else
  match ← getChat fn chatId .cloneChat with
  | none =>
    let _ ← resetToPending fn chatId item.id
    return .inr ()
  | some drainChat =>
  match ← persistAddPrompt fn chatId item.body with
  | .ok (some drainPrompt) =>
    let _ ← markDone fn chatId item.id
    publish chatId (.queueDispatched item.id)
    let drainCwd ← resolveCwd fn chatId drainChat
    match ← resolveProvider drainChat.provider with
    | some p =>
      let _ ← dispatchViaProvider fn chatId drainPrompt p item.body drainChat.model
        drainChat.sessionId drainChat.effort drainCwd
      return .inl ()
    | none =>
      dispatchEcho fn chatId drainPrompt item.body
      return .inl ()
  | _ =>
    let _ ← resetToPending fn chatId item.id
    return .inr ()

def drainLoop (fn : Fn) (chatId : Uuid) : Async Unit :=
  .loop ⟨fn, chatId, .drainLoop⟩ () (fun _ => drainRound fn chatId) .ret

/-- Whether items are pending and the chat is in auto mode. -/
def mustContinue (fn : Fn) (chatId : Uuid) (queue : QueueState) : Async Bool :=
  if 0 < queue.pendingCount then isAuto fn chatId .clearAuto else pure false

/-- Release the flag unless an item is pending in auto mode; the re-check runs
under the routing lock. Answers whether the flag was released. -/
def clearDispatching (fn : Fn) (chatId : Uuid) : Async Bool := do
  lockRouting fn chatId .lock
  let queue ← readState fn chatId
  if ← mustContinue fn chatId queue then
    unlockRouting
    return false
  else
    removeDispatching chatId
    unlockRouting
    publish chatId .chatIdle
    return true

def drainUntilIdle (fn : Fn) (chatId : Uuid) : Async Unit :=
  .loop ⟨fn, chatId, .drainUntilIdle⟩ () (fun _ => do
    drainLoop fn chatId
    if ← clearDispatching fn chatId then return .inr () else return .inl ()) .ret

/-- The task that `DispatchGuard::drop` hands the clear to. -/
def guardTask (chatId : Uuid) : Async Unit := do
  lockRouting .guard chatId .lock
  removeDispatching chatId
  unlockRouting
  publish chatId .chatIdle

def dropGuard (chatId : Uuid) : Async Unit := .spawn (.guard chatId) (guardTask chatId) (.ret ())

def drainTask (chatId : Uuid) : Async Unit := do
  drainUntilIdle .drainTask chatId
  dropGuard chatId

def spawnDrainTask (chatId : Uuid) : Async Unit :=
  .spawn (.drain chatId) (drainTask chatId) (.ret ())

/-- Take the flag and start a drain if the chat is idle, in auto mode and has
pending items. -/
def kickDrainIfIdle (fn : Fn) (chatId : Uuid) : Async Unit := do
  lockRouting fn chatId .lock
  if ← isDispatching chatId then
    unlockRouting
  else
  if !(← isAuto fn chatId .isAuto) then
    unlockRouting
  else
  let queue ← readState fn chatId
  if queue.pendingCount = 0 then
    unlockRouting
  else
    insertDispatching chatId
    unlockRouting
    spawnDrainTask chatId

/-- What a fresh process is told: recent history comes along when there is no
session to resume. -/
def effectiveBody (chat : ChatRecord) (compacting : Bool) (body : Text) : Text :=
  let body := if compacting then compactPrompt else body
  if chat.sessionId.isNone && !chat.prompts.isEmpty then
    let context := buildResumeContext chat.prompts contextPromptCount
    if context.isEmpty then body else withContext chat.prompts context body
  else body

def retryBody (chat : ChatRecord) (body : Text) : Text :=
  let context := buildResumeContext chat.prompts contextPromptCount
  if context.isEmpty then body else withContext chat.prompts context body

def retryMessage : Text := "Session expired — retrying with fresh context…".toList

/-- A turn that found its session stale: clear the session, reset the last
prompt and run it once more from history. -/
def retryStale (fn : Fn) (chatId : Uuid) (chat : ChatRecord) (prompt : PromptRecord)
    (provider body cwd : Text) : Async Unit := do
  clearProviderSession fn chatId
  publish chatId (.retry prompt.id retryMessage)
  match ← access fn chatId .retryPrompt (fun _ s =>
      match s.chats.retryPrompt chatId with
      | some (p, reg) => ({ s with chats := reg }, some p)
      | none => (s, none)) with
  | none => return ()
  | some retryPrompt =>
    persistPromptEvents fn chatId retryPrompt.id .readEvents .writeEvents
    let _ ← dispatchViaProvider fn chatId retryPrompt provider (retryBody chat body) chat.model
      none chat.effort cwd

def retryIfStale (fn : Fn) (chatId : Uuid) (chat : ChatRecord) (prompt : PromptRecord)
    (provider body cwd : Text) (stale : Bool) : Async Unit :=
  if stale && chat.sessionId.isSome then retryStale fn chatId chat prompt provider body cwd
  else pure ()

/-- The turn of a directly dispatched prompt, its retry included. -/
def firstTurn (fn : Fn) (chatId : Uuid) (chat : ChatRecord) (prompt : PromptRecord)
    (body cwd : Text) : Option Text → Async Unit
  | some p => do
    let stale ← dispatchViaProvider fn chatId prompt p body chat.model chat.sessionId chat.effort cwd
    retryIfStale fn chatId chat prompt p body cwd stale
  | none => dispatchEcho fn chatId prompt body

def endCompaction (fn : Fn) (chatId : Uuid) (compacting : Bool) : Async Unit :=
  if compacting then clearProviderSession fn chatId else pure ()

/-- The task a directly dispatched prompt runs in: the turn, then the drain. -/
def dispatchTask (chatId : Uuid) (chat : ChatRecord) (prompt : PromptRecord) (body : Text) :
    Async Unit := do
  let cwd ← resolveCwd .dispatchTask chatId chat
  let provider ← resolveProvider chat.provider
  let compacting := isCompactCommand body && provider.isSome
  firstTurn .dispatchTask chatId chat prompt (effectiveBody chat compacting body) cwd provider
  endCompaction .dispatchTask chatId compacting
  drainUntilIdle .dispatchTask chatId
  dropGuard chatId

def spawnDispatchTask (chatId : Uuid) (chat : ChatRecord) (prompt : PromptRecord) (body : Text) :
    Async Unit :=
  .spawn (.dispatch chatId) (dispatchTask chatId chat prompt body) (.ret ())

end AgentGrove
