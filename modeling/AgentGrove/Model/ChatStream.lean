import AgentGrove.Model.Records
import Mathlib.Logic.Function.Basic

namespace AgentGrove.Web

def maxPromptsInView : Nat := 600

def maxEventsInView : Nat := 400

/-- An event as the client gets it: the server's own, or the frame that
announces a second try. -/
inductive StreamEvent where
  | agent (ev : AgentEvent)
  | retry (message : Text)
deriving DecidableEq

/-- The events after which a turn counts as finished. -/
def StreamEvent.terminal : StreamEvent → Bool
  | .agent ev => ev.terminal
  | .retry _ => false

/-- A prompt of the timeline. A placeholder has a `pending-` id and seq -1. -/
structure Prompt where
  id : Text
  seq : Int
  content : Text
  events : List StreamEvent
deriving DecidableEq

structure ChatView where
  prompts : List Prompt
  promptsTotal : Nat

structure ChatStore where
  view : Option ChatView
  prompts : List Prompt
  liveTokens : Text → Option Text
  liveThinking : Text → Option Text
  atStart : Bool

structure WsFrame where
  promptId : Text
  event : StreamEvent
deriving DecidableEq

/-- Append with a hard bound. At the bound the second entry goes, and the first
counts what was dropped. -/
def appendEventBounded (events : List StreamEvent) (ev : StreamEvent) (max : Nat) :
    List StreamEvent :=
  if events.length < max then events ++ [ev]
  else
    match events with
    | .agent (.truncated dropped) :: rest => .agent (.truncated (dropped + 1)) :: rest.tail ++ [ev]
    | events => .agent (.truncated 1) :: events.tail.tail ++ [ev]

def appendLive (live : Text → Option Text) (promptId text : Text) : Text → Option Text :=
  Function.update live promptId (some ((live promptId).getD [] ++ text))

def deleteLive (live : Text → Option Text) (promptId : Text) : Text → Option Text :=
  Function.update live promptId none

/-- `s.prompts[idx]` for the first prompt with the id. -/
def ChatStore.prompt (s : ChatStore) (id : Text) : Option Prompt :=
  s.prompts.find? (fun p => p.id = id)

/-- Change the events of the first prompt with the id. -/
def setEvents (id : Text) (f : List StreamEvent → List StreamEvent) : List Prompt → List Prompt
  | [] => []
  | p :: ps =>
    if p.id = id then { p with events := f p.events } :: ps else p :: setEvents id f ps

def ChatStore.dropLive (s : ChatStore) (id : Text) : ChatStore :=
  { s with liveTokens := deleteLive s.liveTokens id, liveThinking := deleteLive s.liveThinking id }

/-- Fold one frame into the store. -/
def applyWsFrame (s : ChatStore) (frame : WsFrame) : ChatStore :=
  match frame.event with
  | .agent (.token text) => { s with liveTokens := appendLive s.liveTokens frame.promptId text }
  | .agent (.thinking text) =>
    { s with liveThinking := appendLive s.liveThinking frame.promptId text }
  | ev =>
    match s.prompt frame.promptId with
    | none => s
    | some _ =>
      let s := { s with
        prompts := setEvents frame.promptId
          (fun events => appendEventBounded events ev maxEventsInView) s.prompts }
      let s := if ev.terminal then s.dropLive frame.promptId else s
      match ev with
      | .retry _ =>
        { s.dropLive frame.promptId with
          prompts := setEvents frame.promptId (fun _ => [ev]) s.prompts }
      | _ => s

def tokenText : StreamEvent → Text
  | .agent (.token text) => text
  | _ => []

/-- The assistant's reply so far: the live text if there is one. -/
def assistantText (prompt : Prompt) (liveTokens : Text → Option Text) : Text :=
  match liveTokens prompt.id with
  | some live => live
  | none => (prompt.events.map tokenText).flatten

/-- Whether the agent is still working on a prompt: only the last one of a timeline can be. -/
def isPromptPending (prompt : Prompt) (liveTokens liveThinking : Text → Option Text) (isLast : Bool) :
    Bool :=
  if !isLast then false
  else if (liveTokens prompt.id).isSome || (liveThinking prompt.id).isSome then true
  else
    match prompt.events.getLast? with
    | none => true
    | some last => !last.terminal

/-- What the timeline shows of a prompt: its reply and its events. -/
def ChatStore.shown (s : ChatStore) (id : Text) : Option (Text × List StreamEvent) :=
  (s.prompt id).map (fun p => (assistantText p s.liveTokens, p.events))

/-- Token and thinking frames wait for the next flush. -/
def WsFrame.delta (f : WsFrame) : Bool :=
  match f.event with
  | .agent (.token _) => true
  | .agent (.thinking _) => true
  | _ => false

/-- What a chat's topic carries, as `connect` tells it apart. -/
inductive Message where
  | subscribed
  | queueDispatched
  | chatIdle
  | frame (f : WsFrame)
  /-- Anything `parseWsFrame` has no use for. -/
  | other
deriving DecidableEq

/-- A chat session's store, its batch of deltas and the reconciles in flight. -/
structure ChatSession where
  store : ChatStore
  pending : List WsFrame
  reconciling : Nat

/-- The merged text of a batch's frames for one prompt, if it has any. -/
def mergeDeltas (text : StreamEvent → Option Text) (batch : List WsFrame) : Text → Option Text :=
  batch.foldl (fun merged f =>
    match text f.event with
    | some t => appendLive merged f.promptId t
    | none => merged) (fun _ => none)

def deltaToken : StreamEvent → Option Text
  | .agent (.token text) => some text
  | _ => none

def deltaThinking : StreamEvent → Option Text
  | .agent (.thinking text) => some text
  | _ => none

def addMerged (live merged : Text → Option Text) (id : Text) : Option Text :=
  match merged id with
  | some text => some ((live id).getD [] ++ text)
  | none => live id

/-- Commit a batch of deltas. -/
def flushStore (s : ChatStore) (batch : List WsFrame) : ChatStore :=
  { s with
    liveTokens := addMerged s.liveTokens (mergeDeltas deltaToken batch)
    liveThinking := addMerged s.liveThinking (mergeDeltas deltaThinking batch) }

def flush (c : ChatSession) : ChatSession :=
  { c with store := flushStore c.store c.pending, pending := [] }

/-- A delta waits for the batch, anything else is applied after the batch. -/
def enqueue (c : ChatSession) (frame : WsFrame) : ChatSession :=
  if frame.delta then { c with pending := c.pending ++ [frame] }
  else
    let c := flush c
    { c with store := applyWsFrame c.store frame }

/-- `reconcile` up to its request. -/
def askReconcile (c : ChatSession) : ChatSession := { c with reconciling := c.reconciling + 1 }

def isPlaceholder (p : Prompt) : Bool := "pending-".toList.isPrefixOf p.id

/-- Prompts of the store that the answer does not have. -/
def localOnly (s : ChatStore) (view : ChatView) : List Prompt :=
  s.prompts.filter (fun p => !(view.prompts.map Prompt.id).contains p.id &&
    !(isPlaceholder p && (view.prompts.map Prompt.content).contains p.content))

def olderLocal (s : ChatStore) (view : ChatView) : List Prompt :=
  (localOnly s view).filter (fun p => decide (0 ≤ p.seq) &&
    view.prompts.head?.all (fun first => p.seq < first.seq))

def newerLocal (s : ChatStore) (view : ChatView) : List Prompt :=
  (localOnly s view).filter (fun p => decide (p.seq < 0) ||
    view.prompts.getLast?.all (fun last => last.seq < p.seq))

/-- Keep the tail on overflow. -/
def keepTail (prompts : List Prompt) : List Prompt :=
  if prompts.length > maxPromptsInView then prompts.drop (prompts.length - maxPromptsInView)
  else prompts

def finished (p : Prompt) : Bool := p.events.getLast?.any StreamEvent.terminal

/-- The answer of `reconcile` arrives. -/
def reconcileStore (s : ChatStore) (view : ChatView) : ChatStore :=
  (view.prompts.filter finished).foldl (fun s p => s.dropLive p.id)
    { s with
      view := some view
      atStart := decide (view.prompts.length ≥ view.promptsTotal)
      prompts := keepTail (olderLocal s view ++ view.prompts ++ newerLocal s view) }

/-- The socket's message handler. -/
def onMessage (c : ChatSession) : Message → ChatSession
  | .subscribed => askReconcile c
  | .queueDispatched => askReconcile c
  | .chatIdle => askReconcile c
  | .frame f => enqueue c f
  | .other => c

end AgentGrove.Web
