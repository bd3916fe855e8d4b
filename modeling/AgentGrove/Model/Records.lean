import Mathlib.Data.List.DropRight
import Mathlib.Data.List.Infix

namespace AgentGrove

/-- Ids are UUID strings of which only equality and age are ever used. -/
abbrev Uuid := Nat

abbrev Text := List Char

/-- A shortcut, for texts are compared everywhere. -/
instance : @LawfulBEq Text (@List.instBEq Char instBEqOfDecidableEq) := inferInstance

/-- A JSON value in its compact printed form. -/
abbrev Json := Text

/-- The code points with Unicode's White_Space property, which `str::trim` removes. -/
def isWhitespace (c : Char) : Bool :=
  (9 ≤ c.toNat && c.toNat ≤ 13) || (0x2000 ≤ c.toNat && c.toNat ≤ 0x200A) ||
    [0x20, 0x85, 0xA0, 0x1680, 0x2028, 0x2029, 0x202F, 0x205F, 0x3000].contains c.toNat

def trim (t : Text) : Text := (t.dropWhile isWhitespace).rdropWhile isWhitespace

def toAsciiLowercase (t : Text) : Text := t.map Char.toLower

def eqIgnoreAsciiCase (t u : Text) : Bool := toAsciiLowercase t == toAsciiLowercase u

def containsText (t pat : Text) : Bool := t.tails.any (fun u => pat.isPrefixOf u)

def joinLines (sep : Text) (lines : List Text) : Text := sep.intercalate lines

def showNat (n : Nat) : Text := (Nat.repr n).toList

inductive AgentEvent where
  | sessionStart (sessionId : Text)
  | token (text : Text)
  | thinking (text : Text)
  | toolCall (name : Text) (args : Json) (id : Option Text)
  | toolResult (name : Text) (result : Json) (id : Option Text)
  | done (result : Option Text) (costUsd : Option Json)
  | error (message : Text)
  | truncated (dropped : Nat)
deriving DecidableEq

/-- The two event kinds after which a turn counts as ended. -/
def AgentEvent.terminal : AgentEvent → Bool
  | .done _ _ => true
  | .error _ => true
  | _ => false

structure PromptRecord where
  id : Uuid
  seq : Nat
  content : Text
  events : List AgentEvent
  touchedPaths : List Text
  createdAt : Nat
deriving DecidableEq

structure ChatRecord where
  id : Uuid
  projectId : Uuid
  worktreeId : Option Uuid
  title : Text
  provider : Text
  model : Text
  createdAt : Nat
  prompts : List PromptRecord
  sessionId : Option Text
  effort : Option Text
deriving DecidableEq

/-- A row of `chats`, soft-delete column included. -/
structure ChatRow where
  id : Uuid
  projectId : Uuid
  worktreeId : Option Uuid
  title : Text
  provider : Text
  model : Text
  effort : Option Text
  sessionId : Option Text
  createdAt : Nat
  updatedAt : Nat
  deletedAt : Option Nat
deriving DecidableEq

/-- A row of `prompts`. The event log is a JSON array of events in the source
and the list of those events here. -/
structure PromptRow where
  id : Uuid
  chatId : Uuid
  seq : Nat
  content : Text
  events : List AgentEvent
  touchedPaths : List Text
  createdAt : Nat
deriving DecidableEq

inductive QueueStatus where
  | pending
  | running
  | done
  | cancelled
deriving DecidableEq

inductive QueueMode where
  | auto
  | manual
deriving DecidableEq

structure QueueItemRow where
  id : Uuid
  chatId : Uuid
  body : Text
  status : QueueStatus
  position : Nat
  createdAt : Nat
  updatedAt : Nat
deriving DecidableEq

inductive ChatError where
  | emptyTitle
  | notFound (id : Uuid)
  | db
deriving DecidableEq

inductive QueueError where
  | db
deriving DecidableEq

inductive StatusCode where
  | noContent
  | badRequest
  | notFound
  | conflict
  | internalServerError
deriving DecidableEq

inductive SendMessageResponse where
  | dispatched (prompt : PromptRecord)
  | queued (itemId : Uuid)
deriving DecidableEq

/-- What `provider.spawn` is handed for one turn. -/
structure ProviderCall where
  chatId : Uuid
  promptId : Uuid
  provider : Text
  text : Text
  model : Text
  resumeSessionId : Option Text
  effort : Option Text
  cwd : Text
  autoApproveTools : Bool
deriving DecidableEq

inductive Topic where
  | chat (id : Uuid)
  | sync
deriving DecidableEq

inductive Frame where
  | chatIdle
  | queueDispatched (itemId : Uuid)
  | queueReordered
  | event (promptId : Uuid) (ev : AgentEvent)
  | retry (promptId : Uuid) (message : Text)
  | chatCreated (chatId projectId : Uuid) (worktreeId : Option (Option Uuid))
  | chatUpdated (chatId projectId : Uuid) (worktreeId : Option Uuid)
deriving DecidableEq

def ChatError.message : ChatError → Text
  | .emptyTitle => "chat title must not be empty".toList
  | .notFound id => "chat not found: ".toList ++ showNat id
  | .db => "database error".toList

/-- The bounded view of a chat that `GET /api/chats/:id` and `PATCH` answer. -/
structure ChatView where
  chat : ChatRecord
  promptsTotal : Nat
  promptsWindow : Nat
  eventsPerPrompt : Nat
deriving DecidableEq

def defaultPromptsWindow : Nat := 50

def defaultEventsPerPrompt : Nat := 200

def windowChat (c : ChatRecord) : ChatView :=
  { chat := { c with
      prompts := (c.prompts.drop (c.prompts.length - defaultPromptsWindow)).map (fun p =>
        { p with events := p.events.drop (p.events.length - defaultEventsPerPrompt) }) }
    promptsTotal := c.prompts.length
    promptsWindow := defaultPromptsWindow
    eventsPerPrompt := defaultEventsPerPrompt }

end AgentGrove
