import AgentGrove.Coop.Machine
import AgentGrove.Model.ChatStream

namespace AgentGrove.Web

open Coop

/-- Why a request was sent, with what its continuation remembers. -/
inductive Verb where
  | reload
  | reconcile
  | loadOlder (before : Int)
  | send (tempId body : Text)
  | stop
deriving DecidableEq

inductive Answer where
  | view (view : ChatView)
  | page (prompts : List Prompt) (atStart : Bool)
  | dispatched (prompt : Prompt)
  | queued
  | stopped
  | error (message : Text)

/-- A request on its way to the server, or its answer on its way back. -/
structure Flight where
  verb : Verb
  chatId : Uuid
  answer : Option Answer

/-- A message of this session in the server's queue. -/
structure Waiting where
  tempId : Text
  chatId : Uuid
  body : Text

/-- One chat session with its requests and the server it talks to. The last fields record
the chat and the content that every id was made for, which prompt stands for the message of
which placeholder, the chat of the view in the store, for every synthesised event the chat
that was to be stopped and the prompt that got the event, and whether nothing else has put a
prompt into the store since the last reconcile. -/
structure Session where
  chatId : Option Uuid
  store : ChatStore
  loadingOlder : Bool
  pending : List WsFrame
  error : Option Text
  flights : List Flight
  nextTemp : Nat
  chats : Uuid → Option ChatRecord
  queue : List Waiting
  nextId : Uuid
  known : Text → Option (Uuid × Text)
  stands : List (Text × Text)
  viewOf : Option Uuid
  synthesised : List (Uuid × Text)
  reconciled : Bool

/-- What is left open as a prompt is written: how far the store's rows are ahead of the
registry's, and the clock. -/
structure Stamp where
  gap : Nat := 0
  now : Nat := 0

def freshChatStore : ChatStore where
  view := none
  prompts := []
  liveTokens _ := none
  liveThinking _ := none
  atStart := false

/-- An id as JSON has it. -/
def promptId (id : Uuid) : Text := showNat id

def promptJson (p : PromptRecord) : Prompt where
  id := promptId p.id
  seq := p.seq
  content := p.content
  events := p.events.map .agent

def viewJson (view : AgentGrove.ChatView) : ChatView where
  prompts := view.chat.prompts.map promptJson
  promptsTotal := view.promptsTotal

def windowEvents (p : PromptRecord) : PromptRecord :=
  { p with events := p.events.drop (p.events.length - defaultEventsPerPrompt) }

/-- `list_prompts`. -/
def listPrompts (c : ChatRecord) (before limit : Nat) : List PromptRecord × Bool :=
  let limit := min (max limit 1) 200
  let slice := c.prompts.filter (fun p => p.seq < before)
  ((slice.drop (slice.length - limit)).map windowEvents, decide (slice.length ≤ limit))

/-- The white space of `String.prototype.trim`. -/
def jsSpace (c : Char) : Bool :=
  (9 ≤ c.toNat && c.toNat ≤ 13) || (0x2000 ≤ c.toNat && c.toNat ≤ 0x200A) ||
    [0x20, 0xA0, 0x1680, 0x2028, 0x2029, 0x202F, 0x205F, 0x3000, 0xFEFF].contains c.toNat

def backfillLimit : Nat := 50

/-- The id of a placeholder; the number stands for its random part. -/
def pendingId (n : Nat) : Text := "pending-".toList ++ showNat n

def crashed : StreamEvent :=
  .agent (.error "Turn did not complete — the agent may have crashed or timed out.".toList)

/-- Keep the older prompts on overflow. -/
def keepHead (prompts : List Prompt) : List Prompt :=
  if prompts.length > maxPromptsInView then prompts.take maxPromptsInView else prompts

def pushPlaceholder (prompts : List Prompt) (p : Prompt) : List Prompt :=
  let prompts := prompts ++ [p]
  if prompts.length > maxPromptsInView then prompts.tail else prompts

/-- The prompt takes the place of its placeholder, or the last one. -/
def swapIn (tempId : Text) (p : Prompt) : List Prompt → List Prompt
  | [] => [p]
  | q :: qs => if q.id = tempId then p :: qs else q :: swapIn tempId p qs

def dropPlaceholder (tempId : Text) (prompts : List Prompt) : List Prompt :=
  prompts.eraseP (fun p => p.id = tempId)

/-- End the turn of the last prompt, unless it has ended. -/
def unstick : List Prompt → List Prompt
  | [] => []
  | [tail] => [if finished tail then tail else { tail with events := tail.events ++ [crashed] }]
  | p :: ps => p :: unstick ps

namespace Session

def setPrompts (s : Session) (prompts : List Prompt) : Session :=
  { s with store := { s.store with prompts := prompts } }

def fail (s : Session) (message : Text) : Session := { s with error := some message }

def ask (s : Session) (verb : Verb) (id : Uuid) : Session :=
  { s with flights := s.flights ++ [⟨verb, id, none⟩] }

/-- `reload` up to its request. -/
def reload (s : Session) : Session :=
  let s := { s with store := freshChatStore, loadingOlder := false, viewOf := none, reconciled := false }
  match s.chatId with
  | none => s
  | some id => s.ask .reload id

def reconcile (s : Session) : Session :=
  match s.chatId with
  | none => s
  | some id => s.ask .reconcile id

def loadOlder (s : Session) : Session :=
  match s.chatId, s.store.prompts.head? with
  | some id, some oldest =>
    if s.store.atStart || s.loadingOlder then s
    else { s with loadingOlder := true }.ask (.loadOlder oldest.seq) id
  | _, _ => s

/-- Show a placeholder and send the message. The pane has this of its own, under this name. -/
def dispatchBody (s : Session) (id : Uuid) (body : Text) : Session :=
  let tempId := pendingId s.nextTemp
  let s := { s with
    nextTemp := s.nextTemp + 1
    known := Function.update s.known tempId (some (id, body))
    reconciled := false }
  (s.setPrompts (pushPlaceholder s.store.prompts
    { id := tempId, seq := -1, content := body, events := [] })).ask (.send tempId body) id

def send (s : Session) (body : Text) : Session :=
  match s.chatId with
  | none => s
  | some id => if body.all jsSpace then s else s.dispatchBody id body

def stop (s : Session) : Session :=
  match s.chatId with
  | none => s
  | some id => s.ask .stop id

def reloaded (s : Session) (id : Uuid) : Answer → Session
  | .view view =>
    if s.chatId ≠ some id then s
    else { s with
      store := { freshChatStore with
        view := some view
        prompts := view.prompts
        atStart := decide (view.prompts.length ≥ view.promptsTotal) }
      loadingOlder := false
      viewOf := some id
      reconciled := false }
  | .error message => s.fail message
  | _ => s

def reconciledWith (s : Session) (id : Uuid) : Answer → Session
  | .view view =>
    if s.chatId ≠ some id then s
    else { s with store := reconcileStore s.store view, viewOf := some id, reconciled := true }
  | .error message => s.fail message
  | _ => s

def olderLoaded (s : Session) : Answer → Session
  | .page prompts atStart =>
    { s with
      store := { s.store with prompts := keepHead (prompts ++ s.store.prompts), atStart := atStart }
      loadingOlder := false
      reconciled := false }
  | .error message => { s.fail message with loadingOlder := false }
  | _ => { s with loadingOlder := false }

def sendAnswered (s : Session) (tempId : Text) : Answer → Session
  | .dispatched p => { s.setPrompts (swapIn tempId p s.store.prompts) with reconciled := false }
  | .error message => (s.setPrompts (dropPlaceholder tempId s.store.prompts)).fail message
  | _ => s.setPrompts (dropPlaceholder tempId s.store.prompts)

/-- The prompt that gets an event when the turn is taken for crashed. -/
def stuck (s : Session) : Option Text :=
  (s.store.prompts.getLast?.filter (fun p => !finished p)).map Prompt.id

/-- Nothing was in flight in this chat. -/
def unstickTail (s : Session) (id : Uuid) : Session :=
  { s.setPrompts (unstick s.store.prompts) with
    synthesised := s.synthesised ++ (s.stuck.map (fun p => (id, p))).toList }

def stopAnswered (s : Session) (id : Uuid) : Answer → Session
  | .error message =>
    if !containsText message "404".toList then s.fail message else (s.unstickTail id).reconcile
  | _ => s

/-- What follows the await. -/
def resume (s : Session) (f : Flight) (a : Answer) : Session :=
  match f.verb with
  | .reload => s.reloaded f.chatId a
  | .reconcile => s.reconciledWith f.chatId a
  | .loadOlder _ => s.olderLoaded a
  | .send tempId _ => s.sendAnswered tempId a
  | .stop => s.stopAnswered f.chatId a

/-- Commit the batch of deltas. -/
def flush (s : Session) : Session :=
  { s with store := flushStore s.store s.pending, pending := [] }

/-- The socket's message handler. -/
def message (s : Session) : Message → Session
  | .frame f =>
    let c := enqueue { store := s.store, pending := s.pending, reconciling := 0 } f
    { s with store := c.store, pending := c.pending }
  | .subscribed => s.reconcile
  | .queueDispatched => s.reconcile
  | .chatIdle => s.reconcile
  | .other => s

/-- The effects of another chat id: a reload, and a flush as the old socket goes. -/
def select (s : Session) (id : Option Uuid) : Session :=
  if s.chatId = id then s else ({ s with chatId := id }.reload).flush

/-- The row that `persist_add_prompt` writes. -/
def newPrompt (s : Session) (c : ChatRecord) (content : Text) (w : Stamp) : PromptRecord where
  id := s.nextId
  seq := (c.prompts.map PromptRecord.seq).foldl max 0 + 1 + w.gap
  content := content
  events := []
  touchedPaths := []
  createdAt := w.now

def addPrompt (s : Session) (id : Uuid) (c : ChatRecord) (content : Text) (w : Stamp) : Session :=
  { s with
    chats := Function.update s.chats id
      (some { c with prompts := c.prompts ++ [s.newPrompt c content w] })
    nextId := s.nextId + 1
    known := Function.update s.known (promptId s.nextId) (some (id, content)) }

/-- The message of a placeholder becomes a prompt. -/
def dispatch (s : Session) (id : Uuid) (c : ChatRecord) (tempId body : Text) (w : Stamp) : Session :=
  { s.addPrompt id c body w with stands := s.stands ++ [(tempId, promptId s.nextId)] }

def notFoundText : Text := "404 Not Found: ".toList

def badRequestText : Text := "400 Bad Request: ".toList

/-- The server takes a request. A message is queued while the chat is busy. -/
def served (s : Session) (f : Flight) (busy : Bool) (w : Stamp) : Session × Answer :=
  match f.verb with
  | .reload | .reconcile =>
    match s.chats f.chatId with
    | none => (s, .error notFoundText)
    | some c => (s, .view (viewJson (windowChat c)))
  | .loadOlder before =>
    if before < 0 then (s, .error badRequestText)
    else
      match s.chats f.chatId with
      | none => (s, .error notFoundText)
      | some c =>
        let page := listPrompts c before.toNat backfillLimit
        (s, .page (page.1.map promptJson) page.2)
  | .send tempId body =>
    match s.chats f.chatId with
    | none => (s, .error notFoundText)
    | some c =>
      if busy then ({ s with queue := s.queue ++ [⟨tempId, f.chatId, body⟩] }, .queued)
      else (s.dispatch f.chatId c tempId body w, .dispatched (promptJson (s.newPrompt c body w)))
  | .stop => (s, .stopped)

/-- Change the prompts of a chat. -/
def setChat (s : Session) (id : Uuid) (f : List PromptRecord → List PromptRecord) : Session :=
  { s with
    chats := Function.update s.chats id ((s.chats id).map (fun c => { c with prompts := f c.prompts })) }

def setAnswer (s : Session) (i : Nat) (f : Flight) (a : Answer) : Session :=
  { s with flights := s.flights.set i { f with answer := some a } }

end Session

inductive SessionEvent where
  | select (id : Option Uuid)
  | reload
  | reconcile
  | loadOlder
  | send (body : Text)
  | stop
  | message (m : Message)
  | flush
  /-- The server takes a request and answers it. -/
  | serve (i : Nat) (busy : Bool) (w : Stamp)
  /-- A request fails, or its answer is lost. -/
  | lose (i : Nat) (message : Text)
  | answer (i : Nat)
  /-- Somebody else's prompt. -/
  | grow (id : Uuid) (content : Text) (w : Stamp)
  /-- A queued message is dispatched. -/
  | drain (i : Nat) (w : Stamp)
  | truncate (id : Uuid) (fromSeq : Nat)
  /-- A turn writes the events of its prompt. -/
  | record (id promptId : Uuid) (events : List AgentEvent)

namespace Session

def step (s : Session) : SessionEvent → Option Session
  | .select id => some (s.select id)
  | .reload => some s.reload
  | .reconcile => some s.reconcile
  | .loadOlder => some s.loadOlder
  | .send body => some (s.send body)
  | .stop => some s.stop
  | .message m => some (s.message m)
  | .flush => some s.flush
  | .serve i busy w =>
    match s.flights[i]? with
    | some ⟨verb, id, none⟩ =>
      let out := s.served ⟨verb, id, none⟩ busy w
      some (out.1.setAnswer i ⟨verb, id, none⟩ out.2)
    | _ => none
  | .lose i message => (s.flights[i]?).map (fun f => s.setAnswer i f (.error message))
  | .answer i =>
    match s.flights[i]? with
    | some ⟨verb, id, some a⟩ =>
      some ({ s with flights := s.flights.eraseIdx i }.resume ⟨verb, id, some a⟩ a)
    | _ => none
  | .grow id content w => (s.chats id).map (fun c => s.addPrompt id c content w)
  | .drain i w =>
    (s.queue[i]?).bind (fun item => (s.chats item.chatId).map (fun c =>
      { s.dispatch item.chatId c item.tempId item.body w with queue := s.queue.eraseIdx i }))
  | .truncate id fromSeq => some (s.setChat id (fun ps => ps.filter (fun p => p.seq < fromSeq)))
  | .record id promptId events =>
    some (s.setChat id (fun ps => ps.map (fun p => if p.id = promptId then { p with events := events } else p)))

def machine : Machine Session SessionEvent := ⟨step⟩

/-- A session that has just been created, and chats that nobody has written in yet. -/
def start (chats : Uuid → Option ChatRecord) : Session where
  chatId := none
  store := freshChatStore
  loadingOlder := false
  pending := []
  error := none
  flights := []
  nextTemp := 0
  chats id := (chats id).map (fun c => { c with prompts := [] })
  queue := []
  nextId := 0
  known _ := none
  stands := []
  viewOf := none
  synthesised := []
  reconciled := false

end Session

end AgentGrove.Web
