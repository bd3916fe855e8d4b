import AgentGrove.Model.Server

namespace AgentGrove

/-- `list_for_project` of the store. -/
def ChatRepo.listForProject (chats : List ChatRow) (projectId : Uuid) : List ChatRow :=
  (chats.filter (fun c => c.projectId = projectId ∧ c.deletedAt.isNone)).insertionSort Older

/-- The chats to drop are gathered before the first of them is evicted. -/
def ChatRegistry.retainChats (reg : ChatRegistry) (keep : ChatRecord → Bool) : ChatRegistry :=
  (((reg.byId.entries.map Sigma.snd).filter (fun c => !keep c)).map ChatRecord.id).foldl evict reg

namespace ChatCache

/-- A handler between two of its awaits, with what it holds on to. -/
inductive Handler where
  /-- `persist_chat_delete`, once the store has deleted the row. -/
  | evicting (id : Uuid)
  /-- `ChatRepo::restore`, once the row is live again. -/
  | reloading (id : Uuid)
  /-- `persist_create_chat` and `restore_chat`, with the record to cache. -/
  | ingesting (record : ChatRecord)
  /-- `fork_chat`, with the copy that is cached under its temporary id. -/
  | inserting (forked : ChatRecord)
  /-- `fork_chat`, once the store has issued the id to keep. -/
  | rekeying (tempId storeId : Uuid)
  /-- The deletion of a project, with the chats still to delete; then the cache is told. -/
  | dropping (projectId : Uuid) (ids : List Uuid)
deriving DecidableEq

structure State where
  store : Store
  chats : ChatRegistry
  nextId : Uuid
  handlers : List Handler := []

/-- Changes of a cached chat, none of which moves it. -/
structure Edit where
  change : ChatRecord → ChatRecord
  id : ∀ chat, (change chat).id = chat.id
  projectId : ∀ chat, (change chat).projectId = chat.projectId

namespace State

def push (h : Handler) (s : State) : State := { s with handlers := s.handlers ++ [h] }

def setRows (rows : List ChatRow) (s : State) : State := { s with store := { s.store with chats := rows } }

/-- `ChatRepo::create`, for a title that is not blank. -/
def insertRow (now : Nat) (projectId : Uuid) (worktreeId : Option Uuid) (title provider model : Text)
    (effort : Option Text) (s : State) : ChatRow × State :=
  let row := ChatRepo.create s.nextId now projectId worktreeId (trim title) provider model effort
  (row, { s.setRows (s.store.chats ++ [row]) with nextId := s.nextId + 1 })

def create (now : Nat) (projectId : Uuid) (worktreeId : Option Uuid) (title provider model : Text)
    (effort : Option Text) (s : State) : State :=
  if (trim title).isEmpty then s
  else
    let (row, s) := s.insertRow now projectId worktreeId title provider model effort
    s.push (.ingesting (recordOfRow row []))

def delete (now : Nat) (id : Uuid) (s : State) : State :=
  (s.setRows (ChatRepo.delete now id s.store.chats)).push (.evicting id)

def restore (id : Uuid) (s : State) : State :=
  if ChatRepo.isDeleted s.store.chats id then (s.setRows (ChatRepo.restore id s.store.chats)).push (.reloading id)
  else s

def fork (now : Nat) (sourceId : Uuid) (upToSeq : Nat) (s : State) : State :=
  match s.chats.fork s.nextId now sourceId upToSeq with
  | none => s
  | some (forked, reg) => { s with chats := reg, nextId := s.nextId + 1 }.push (.inserting forked)

/-- A project whose chats could not be listed is deleted all the same. -/
def deleteProject (projectId : Uuid) (listed : Bool) (s : State) : State :=
  s.push (.dropping projectId
    (if listed then (ChatRepo.listForProject s.store.chats projectId).map ChatRow.id else []))

/-- A handler goes on to its next await; `fail` is whether the store lets it down there. -/
def proceed (now : Nat) (fail : Bool) (h : Handler) (s : State) : State :=
  match h with
  | .evicting id => { s with chats := s.chats.evict id }
  | .reloading id =>
    match fail, ChatRepo.get s.store.chats id with
    | false, some row => s.push (.ingesting (recordOfRow row []))
    | _, _ => s
  | .ingesting record => { s with chats := s.chats.ingestChat record }
  | .inserting forked =>
    if fail || (trim forked.title).isEmpty then s
    else
      let (row, s) := s.insertRow now forked.projectId forked.worktreeId forked.title forked.provider forked.model
        forked.effort
      s.push (.rekeying forked.id row.id)
  | .rekeying tempId storeId => { s with chats := rekey tempId storeId s.chats }
  | .dropping projectId [] => { s with chats := s.chats.retainChats (fun c => c.projectId ≠ projectId) }
  | .dropping projectId (id :: ids) =>
    (if fail then s else s.setRows (ChatRepo.delete now id s.store.chats)).push (.dropping projectId ids)

def resume (i now : Nat) (fail : Bool) (s : State) : State :=
  match s.handlers[i]? with
  | none => s
  | some h => { s with handlers := s.handlers.eraseIdx i }.proceed now fail h

/-- The process starts again, over what is stored. -/
def hydrate (listed : Bool) (s : State) : State :=
  { s with chats := if listed then hydrateFromStore s.store else .empty, handlers := [] }

end State

inductive Event where
  | create (now : Nat) (projectId : Uuid) (worktreeId : Option Uuid) (title provider model : Text)
      (effort : Option Text)
  | delete (now : Nat) (id : Uuid)
  | restore (id : Uuid)
  | fork (now : Nat) (sourceId : Uuid) (upToSeq : Nat)
  | deleteProject (projectId : Uuid) (listed : Bool)
  | edit (id : Uuid) (e : Edit)
  | resume (i now : Nat) (fail : Bool)
  | hydrate (listed : Bool)

def exec (s : State) : Event → State
  | .create now projectId worktreeId title provider model effort =>
    s.create now projectId worktreeId title provider model effort
  | .delete now id => s.delete now id
  | .restore id => s.restore id
  | .fork now sourceId upToSeq => s.fork now sourceId upToSeq
  | .deleteProject projectId listed => s.deleteProject projectId listed
  | .edit id e => { s with chats := s.chats.chatMut id e.change }
  | .resume i now fail => s.resume i now fail
  | .hydrate listed => s.hydrate listed

/-- What the tables may hold when the process is started for the first time: their keys are keys, and have been
issued. -/
structure Database where
  store : Store
  nextId : Uuid
  ids : (store.chats.map ChatRow.id).Nodup
  issued : ∀ row ∈ store.chats, row.id < nextId

def Database.boot (d : Database) : State := { store := d.store, chats := hydrateFromStore d.store, nextId := d.nextId }

end ChatCache

end AgentGrove
