import AgentGrove.Model.Records
import Mathlib.Data.List.Sort
import Mathlib.Logic.Function.Basic

namespace AgentGrove

/-- The SQLite tables, each row list in insertion order. -/
structure Store where
  chats : List ChatRow
  prompts : List PromptRow
  items : List QueueItemRow
  modes : Uuid → Option QueueMode

namespace QueueRepo

/-- `ORDER BY position ASC, created_at ASC`. -/
def Before (a b : QueueItemRow) : Prop :=
  a.position < b.position ∨ a.position = b.position ∧ a.createdAt ≤ b.createdAt

instance : DecidableRel Before := fun _ _ => inferInstanceAs (Decidable (_ ∨ _ ∧ _))

def ofChat (items : List QueueItemRow) (chatId : Uuid) : List QueueItemRow :=
  items.filter (fun i => i.chatId = chatId)

/-- Rows of one chat, lowest position first. -/
def list (items : List QueueItemRow) (chatId : Uuid) : List QueueItemRow :=
  (ofChat items chatId).insertionSort Before

def isPending (i : QueueItemRow) : Bool := i.status = .pending

def isRunning (i : QueueItemRow) : Bool := i.status = .running

/-- `COALESCE(MAX(position), -1) + 1`. -/
def nextPosition (items : List QueueItemRow) (chatId : Uuid) : Nat :=
  (ofChat items chatId).foldr (fun i n => max (i.position + 1) n) 0

def insert (id : Uuid) (now : Nat) (chatId : Uuid) (body : Text) (position : Nat)
    (items : List QueueItemRow) : List QueueItemRow :=
  items ++ [{ id := id, chatId := chatId, body := body, status := .pending, position := position,
              createdAt := now, updatedAt := now }]

/-- `UPDATE queue_items SET status = .. WHERE id = ? AND <guard>`. -/
def setStatus (guard : QueueItemRow → Bool) (status : QueueStatus) (now : Nat) (itemId : Uuid)
    (items : List QueueItemRow) : List QueueItemRow :=
  items.map (fun i =>
    if i.id = itemId ∧ guard i then { i with status := status, updatedAt := now } else i)

def headPending (items : List QueueItemRow) (chatId : Uuid) : Option QueueItemRow :=
  ((items.filter (fun i => i.chatId = chatId ∧ isPending i)).insertionSort Before).head?

/-- The row a pop returns and marks Running in one transaction. -/
def pop (now : Nat) (items : List QueueItemRow) (row : Option QueueItemRow) :
    Option QueueItemRow × List QueueItemRow :=
  match row with
  | none => (none, items)
  | some i =>
    (some { i with status := .running, updatedAt := now },
      setStatus (fun _ => true) .running now i.id items)

def popNextPending (now : Nat) (chatId : Uuid) (items : List QueueItemRow) :
    Option QueueItemRow × List QueueItemRow :=
  pop now items (headPending items chatId)

def popSpecificPending (now : Nat) (chatId itemId : Uuid) (items : List QueueItemRow) :
    Option QueueItemRow × List QueueItemRow :=
  pop now items (items.find? (fun i => i.id = itemId ∧ i.chatId = chatId ∧ isPending i))

def markDone (itemId : Uuid) (items : List QueueItemRow) : List QueueItemRow :=
  items.filter (fun i => !(i.id = itemId ∧ isRunning i))

def resetToPending (now : Nat) (itemId : Uuid) (items : List QueueItemRow) : List QueueItemRow :=
  setStatus isRunning .pending now itemId items

def cancel (itemId : Uuid) (items : List QueueItemRow) : List QueueItemRow :=
  items.filter (fun i => !(i.id = itemId ∧ isPending i))

def updateBody (now : Nat) (itemId : Uuid) (body : Text) (items : List QueueItemRow) :
    List QueueItemRow :=
  items.map (fun i =>
    if i.id = itemId ∧ isPending i then { i with body := body, updatedAt := now } else i)

/-- Whether an `UPDATE` or `DELETE` by id and status finds its row. -/
def affects (guard : QueueItemRow → Bool) (itemId : Uuid) (items : List QueueItemRow) : Bool :=
  items.any (fun i => i.id = itemId ∧ guard i)

/-- The requested ids that are pending, then the other pending ids in order. -/
def finalOrder (current ordered : List Uuid) : List Uuid :=
  (ordered.filter (fun i => i ∈ current)).reverse.dedup.reverse ++
    current.filter (fun i => i ∉ ordered)

def reorder (now : Nat) (chatId : Uuid) (ordered : List Uuid) (items : List QueueItemRow) :
    List QueueItemRow :=
  let current := ((items.filter (fun i => i.chatId = chatId ∧ isPending i)).insertionSort
    Before).map QueueItemRow.id
  let final := finalOrder current ordered
  items.map (fun i =>
    match final.idxOf? i.id with
    | none => i
    | some pos =>
      if isPending i ∧ i.position ≠ pos then { i with position := pos, updatedAt := now } else i)

/-- Startup: rows a crashed run left Running become Pending again. -/
def recoverStaleRunning (now : Nat) (items : List QueueItemRow) : List QueueItemRow :=
  items.map (fun i => if isRunning i then { i with status := .pending, updatedAt := now } else i)

def getMode (modes : Uuid → Option QueueMode) (chatId : Uuid) : QueueMode :=
  (modes chatId).getD .manual

end QueueRepo

namespace ChatRepo

def get (chats : List ChatRow) (id : Uuid) : Option ChatRow := chats.find? (fun c => c.id = id)

/-- `WHERE deleted_at IS NULL ORDER BY created_at ASC, id ASC`. -/
def Older (a b : ChatRow) : Prop :=
  a.createdAt < b.createdAt ∨ a.createdAt = b.createdAt ∧ a.id ≤ b.id

instance : DecidableRel Older := fun _ _ => inferInstanceAs (Decidable (_ ∨ _ ∧ _))

def listAll (chats : List ChatRow) : List ChatRow :=
  (chats.filter (fun c => c.deletedAt.isNone)).insertionSort Older

def create (id : Uuid) (now : Nat) (projectId : Uuid) (worktreeId : Option Uuid)
    (title provider model : Text) (effort : Option Text) : ChatRow :=
  { id := id, projectId := projectId, worktreeId := worktreeId, title := title,
    provider := provider, model := model, effort := effort, sessionId := none, createdAt := now,
    updatedAt := now, deletedAt := none }

/-- A partial update: `none` leaves a column alone. -/
structure Patch where
  title : Option Text
  model : Option Text
  effort : Option (Option Text)
  sessionId : Option (Option Text)
deriving DecidableEq

def Patch.isEmpty (p : Patch) : Bool :=
  p.title.isNone && p.model.isNone && p.effort.isNone && p.sessionId.isNone

def patchRow (p : Patch) (now : Nat) (c : ChatRow) : ChatRow :=
  { c with
    title := p.title.getD c.title
    model := p.model.getD c.model
    effort := p.effort.getD c.effort
    sessionId := p.sessionId.getD c.sessionId
    updatedAt := now }

/-- `UPDATE chats .. WHERE id = ?`. -/
def updateRow (id : Uuid) (f : ChatRow → ChatRow) (chats : List ChatRow) : List ChatRow :=
  chats.map (fun c => if c.id = id then f c else c)

/-- Soft delete and restore leave a row in the wrong state alone. -/
def delete (now : Nat) (id : Uuid) : List ChatRow → List ChatRow :=
  updateRow id (fun c => if c.deletedAt.isNone then { c with deletedAt := some now } else c)

def restore (id : Uuid) : List ChatRow → List ChatRow :=
  updateRow id (fun c => { c with deletedAt := none })

def isDeleted (chats : List ChatRow) (id : Uuid) : Bool :=
  chats.any (fun c => c.id = id ∧ c.deletedAt.isSome)

/-- `COALESCE(MAX(seq), 0) + 1`. -/
def nextSeq (prompts : List PromptRow) (chatId : Uuid) : Nat :=
  (prompts.filter (fun p => p.chatId = chatId)).foldr (fun p n => max p.seq n) 0 + 1

/-- The primary key, the foreign key and `UNIQUE (chat_id, seq)`. -/
def accepts (chats : List ChatRow) (prompts : List PromptRow) (row : PromptRow) : Bool :=
  chats.any (fun c => c.id = row.chatId) &&
    prompts.all (fun p => p.id ≠ row.id ∧ ¬ (p.chatId = row.chatId ∧ p.seq = row.seq))

def newPrompt (id : Uuid) (now : Nat) (chatId : Uuid) (seq : Nat) (content : Text) : PromptRow :=
  { id := id, chatId := chatId, seq := seq, content := content, events := [], touchedPaths := [],
    createdAt := now }

/-- All prompts of a chat in seq order. -/
def listPrompts (prompts : List PromptRow) (chatId : Uuid) : List PromptRow :=
  (prompts.filter (fun p => p.chatId = chatId)).insertionSort (fun a b => a.seq ≤ b.seq)

def updatePrompt (promptId : Uuid) (f : PromptRow → PromptRow) (prompts : List PromptRow) :
    List PromptRow :=
  prompts.map (fun p => if p.id = promptId then f p else p)

def deletePrompt (promptId : Uuid) (prompts : List PromptRow) : List PromptRow :=
  prompts.filter (fun p => p.id ≠ promptId)

end ChatRepo

end AgentGrove
