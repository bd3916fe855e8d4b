import AgentGrove.Model.QueueOps
import Mathlib.Algebra.GroupWithZero.Nat

namespace AgentGrove

open Coop

def isCompactCommand (body : Text) : Bool := eqIgnoreAsciiCase (trim body) "/compact".toList

def isRecoverableSessionError (provider message : Text) : Bool :=
  let lower := toAsciiLowercase message
  containsText lower "session not found".toList ||
    (provider == "opencode".toList && containsText lower "unexpected error".toList)

def compactPrompt : Text :=
  "Summarize the conversation so far into a concise continuation context. Preserve decisions, requirements, relevant code paths, commands, errors, and unresolved work.".toList

/-- The reply text and the tool notes of one prompt's events. -/
def replyAndNotes : List AgentEvent → Text × List Text
  | [] => ([], [])
  | .token text :: rest => (text ++ (replyAndNotes rest).1, (replyAndNotes rest).2)
  | .toolCall name args _ :: rest =>
    ((replyAndNotes rest).1,
      ("  > Tool call: `".toList ++ name ++ "` ".toList ++ args) :: (replyAndNotes rest).2)
  | .toolResult name result _ :: rest =>
    ((replyAndNotes rest).1,
      ("  > Tool result: `".toList ++ name ++ "`: ".toList ++ result) :: (replyAndNotes rest).2)
  | .error message :: rest =>
    ((replyAndNotes rest).1, ("  > Error: ".toList ++ message) :: (replyAndNotes rest).2)
  | _ :: rest => replyAndNotes rest

def formatPromptFull (prompt : PromptRecord) : Text :=
  let reply := trim (replyAndNotes prompt.events).1
  joinLines ['\n'] (("User: ".toList ++ trim prompt.content) ::
    (if reply.isEmpty then [] else ["Assistant: ".toList ++ reply]) ++
    (replyAndNotes prompt.events).2)

def buildResumeContext (prompts : List PromptRecord) (maxPrompts : Nat) : Text :=
  joinLines ['\n', '\n'] ((prompts.drop (prompts.length - maxPrompts)).map formatPromptFull)

def contextPromptCount : Nat := 20

def withContext (prompts : List PromptRecord) (context body : Text) : Text :=
  "Prior conversation context (last ".toList ++
    showNat (min prompts.length contextPromptCount) ++ " messages):\n\n".toList ++ context ++
    "\n\n---\n\nCurrent user message:\n".toList ++ body

/-- Flush a prompt's cached events to the store. The chat is looked up by the
prompt's id alone. -/
def persistPromptEvents (fn : Fn) (chatId promptId : Uuid) (read write : Call) : Async Unit := do
  match ← access fn chatId read (fun w s => (s, s.chats.findPrompt w.pick promptId)) with
  | none => return ()
  | some p =>
    let _ ← storeCall fn chatId write ChatError.db (fun _ s =>
      ({ s with store := { s.store with
          prompts := ChatRepo.updatePrompt promptId (fun r => { r with events := p.events })
            s.store.prompts } }, .ok ()))

/-- The cached half of `persist_chat_update`. -/
def applyPatch (patch : ChatRepo.Patch) (c : ChatRecord) : ChatRecord :=
  let c := match patch.title with
    | some t => { c with title := t }
    | none => c
  let c := match patch.model with
    | some m => if c.model ≠ m then { c with model := m, sessionId := none } else c
    | none => c
  let c := match patch.effort with
    | some e => { c with effort := e }
    | none => c
  match patch.sessionId with
  | some sid => { c with sessionId := sid }
  | none => c

/-- Whether a patch changes the cached chat's model; an uncached chat counts as changed. -/
def changesModel (fn : Fn) (chatId : Uuid) (label : Call → Call) (patch : ChatRepo.Patch) :
    Async Bool :=
  match patch.model with
  | none => pure false
  | some m => access fn chatId (label .modelChanges) (fun _ s =>
      (s, match s.chats.get chatId with
        | some c => c.model != m
        | none => true))

/-- The `UPDATE` of `ChatRepo::update`, left out when there is nothing to set. -/
def updateChatRow (fn : Fn) (chatId : Uuid) (label : Call → Call) (patch : ChatRepo.Patch) :
    Async (Except ChatError Unit) :=
  if patch.isEmpty then pure (.ok ())
  else storeCall fn chatId (label .updateChat) ChatError.db (fun w s =>
    ({ s with store := { s.store with
        chats := ChatRepo.updateRow chatId (ChatRepo.patchRow patch w.now) s.store.chats } },
      if (ChatRepo.get s.store.chats chatId).isSome then .ok () else .error (.notFound chatId)))

/-- `ChatRepo::update` and then the cache. A changed model clears the session
unless the caller names one. -/
def persistChatUpdate (fn : Fn) (chatId : Uuid) (label : Call → Call) (patch : ChatRepo.Patch) :
    Async (Except ChatError Unit) := do
  let modelChanges ← changesModel fn chatId label patch
  let patch : ChatRepo.Patch :=
    if modelChanges && patch.sessionId.isNone then { patch with sessionId := some none } else patch
  match ← updateChatRow fn chatId label patch with
  | .error e => return .error e
  | .ok () =>
    match ← storeCall fn chatId (label .reloadRow) ChatError.db (fun _ s =>
        (s, match ChatRepo.get s.store.chats chatId with
          | some row => .ok row
          | none => .error (.notFound chatId))) with
    | .error e => return .error e
    | .ok _ =>
      access fn chatId (label .cacheChat) (fun _ s =>
        ({ s with chats := s.chats.chatMut chatId (applyPatch patch) }, .ok ()))

def clearProviderSession (fn : Fn) (chatId : Uuid) : Async Unit := do
  let _ ← persistChatUpdate fn chatId id
    { title := none, model := none, effort := none, sessionId := some none }

/-- Publish an event of the turn and append it to the prompt's cached log. -/
def emit (fn : Fn) (chatId : Uuid) (call : TurnCall) (promptId : Uuid) (ev : AgentEvent) :
    Async Unit := do
  publish chatId (.event promptId ev)
  access fn chatId (.turn call) (fun _ s =>
    ({ s with chats := s.chats.appendEvent chatId promptId ev }, ()))

def flushToken (fn : Fn) (chatId promptId : Uuid) (pending : Text) : Async Unit :=
  if pending.isEmpty then pure () else emit fn chatId .append promptId (.token pending)

def flushThinking (fn : Fn) (chatId promptId : Uuid) (pending : Text) : Async Unit :=
  if pending.isEmpty then pure () else emit fn chatId .append promptId (.thinking pending)

def flushBytes : Nat := 64

/-- `str::len`, the length in UTF-8 bytes. -/
def byteLen (t : Text) : Nat := (t.map (fun c => c.utf8Size)).sum

/-- What the event loop of a turn carries from one event to the next. -/
structure Stream where
  pendingToken : Text
  pendingThinking : Text
  staleSession : Bool
  sawTerminal : Bool

def Stream.start : Stream := ⟨[], [], false, false⟩

/-- Keep the session id that an event announces. -/
def captureSession (fn : Fn) (chatId : Uuid) : AgentEvent → Async Unit
  | .sessionStart sid => do
    let _ ← persistChatUpdate fn chatId (fun _ => .turn .session)
      { title := none, model := none, effort := none, sessionId := some (some sid) }
  | _ => pure ()

/-- An event that is neither a token nor a thinking delta. -/
def otherEvent (fn : Fn) (chatId promptId : Uuid) (provider : Text) (st : Stream)
    (ev : AgentEvent) : Async Stream := do
  flushToken fn chatId promptId st.pendingToken
  flushThinking fn chatId promptId st.pendingThinking
  captureSession fn chatId ev
  emit fn chatId .append promptId ev
  return {
    pendingToken := []
    pendingThinking := []
    staleSession := match ev with
      | .error message => isRecoverableSessionError provider message
      | _ => st.staleSession
    sawTerminal := st.sawTerminal || ev.terminal }

/-- One round of the event loop: a timeout flushes both buffers, a delta goes to
its buffer and pushes the other one out, and a closed channel ends the loop. -/
def streamRound (fn : Fn) (chatId promptId : Uuid) (provider : Text) (st : Stream) :
    Async (Stream ⊕ Stream) := do
  match ← access fn chatId (.turn .recv) (fun w s => (s, w.recv)) with
  | .timeout =>
    flushToken fn chatId promptId st.pendingToken
    flushThinking fn chatId promptId st.pendingThinking
    return .inl { st with pendingToken := [], pendingThinking := [] }
  | .closed => return .inr st
  | .event (.token text) =>
    flushThinking fn chatId promptId st.pendingThinking
    let pending := st.pendingToken ++ text
    if flushBytes ≤ byteLen pending then
      flushToken fn chatId promptId pending
      return .inl { st with pendingToken := [], pendingThinking := [] }
    else
      return .inl { st with pendingToken := pending, pendingThinking := [] }
  | .event (.thinking text) =>
    flushToken fn chatId promptId st.pendingToken
    let pending := st.pendingThinking ++ text
    if flushBytes ≤ byteLen pending then
      flushThinking fn chatId promptId pending
      return .inl { st with pendingToken := [], pendingThinking := [] }
    else
      return .inl { st with pendingToken := [], pendingThinking := pending }
  | .event ev => return .inl (← otherEvent fn chatId promptId provider st ev)

def cancelledByUser : Text := "cancelled by user".toList

/-- The event that ends the log, if the way the provider task ended calls for one. -/
def concluding (wasCancelled sawTerminal : Bool) : Joined → Option AgentEvent
  | .completed | .dropped =>
    if wasCancelled then some (.error cancelledByUser)
    else if sawTerminal then none
    else some (.done none none)
  | .failed message => some (.error message)
  | .panicked message => some (.error ("provider task panicked: ".toList ++ message))

def conclude (fn : Fn) (chatId promptId : Uuid) : Option AgentEvent → Async Unit
  | some ev => emit fn chatId .conclude promptId ev
  | none => pure ()

/-- Run one turn. Answers whether its last error asked for a fresh session. -/
def dispatchViaProvider (fn : Fn) (chatId : Uuid) (prompt : PromptRecord) (provider : Text)
    (userText model : Text) (resumeSessionId effort : Option Text) (cwd : Text) : Async Bool := do
  let autoApproveTools ← access fn chatId (.turn .settings) (fun w s => (s, w.autoApprove))
  let token ← access fn chatId (.turn .installToken) (fun _ s =>
    ({ s with
        cancelTokens := Function.update s.cancelTokens chatId (some s.nextToken)
        nextToken := s.nextToken + 1 }, s.nextToken))
  atOnce (fun s => ({ s with calls := s.calls ++ [{
    chatId := chatId, promptId := prompt.id, provider := provider, text := userText
    model := model, resumeSessionId := resumeSessionId, effort := effort, cwd := cwd
    autoApproveTools := autoApproveTools }] }, ()))
  let st ← Prog.loop ⟨fn, chatId, .turn .stream⟩ Stream.start
    (streamRound fn chatId prompt.id provider) .ret
  flushToken fn chatId prompt.id st.pendingToken
  flushThinking fn chatId prompt.id st.pendingThinking
  let wasCancelled ← atOnce (fun s => (s, decide (token ∈ s.cancelled)))
  -- The select only reports `dropped` once the token has been cancelled.
  let joined ← Prog.await ⟨fn, chatId, .turn .join⟩ (fun w s =>
    if w.joined = .dropped ∧ token ∉ s.cancelled then none else some (s, w.joined)) .ret
  conclude fn chatId prompt.id (concluding wasCancelled st.sawTerminal joined)
  access fn chatId (.turn .removeToken) (fun _ s =>
    ({ s with cancelTokens := Function.update s.cancelTokens chatId none }, ()))
  persistPromptEvents fn chatId prompt.id (.turn .readEvents) (.turn .writeEvents)
  return st.staleSession

/-- The stand-in turn of a chat whose provider is not registered. -/
def dispatchEcho (fn : Fn) (chatId : Uuid) (prompt : PromptRecord) (userText : Text) :
    Async Unit := do
  emit fn chatId .append prompt.id (.token ("echo: ".toList ++ userText))
  emit fn chatId .append prompt.id (.done (some ("echo: ".toList ++ userText)) none)
  persistPromptEvents fn chatId prompt.id (.turn .readEvents) (.turn .writeEvents)

end AgentGrove
