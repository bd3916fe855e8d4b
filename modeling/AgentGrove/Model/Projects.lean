import AgentGrove.Model.ChatCache
import AgentGrove.Model.Worktrees

namespace AgentGrove.Projects

open Worktrees (Failure WorktreeRecord)

structure ProjectRecord where
  id : Uuid
  name : Text
  root : Text
  preWorktreeScript : Option Text
  createdAt : Nat
  updatedAt : Nat
deriving DecidableEq

/-- A row of `layout_scope`. The scope of the project itself has no worktree. -/
structure LayoutRow where
  projectId : Uuid
  worktreeId : Option Uuid
  blob : Json
  updatedAt : Nat
deriving DecidableEq

/-- The tables, the file index and the cache. The last fields record the time, by the number of accesses so far, at
which each chat last became live and was last put into the cache, and at which each scope's layout was last written. -/
structure Estate where
  projects : List ProjectRecord
  worktrees : List WorktreeRecord
  chats : List ChatRow
  layouts : List LayoutRow
  indexed : Uuid → Bool
  cache : ChatRegistry
  nextId : Uuid
  clock : Nat
  live : Uuid → Nat
  cached : Uuid → Nat
  laid : Uuid → Option Uuid → Nat

namespace ProjectRepo

/-- `UNIQUE (root)`; names and roots are checked before. -/
def create (now : Nat) (name root : Text) (s : Estate) : Estate :=
  if s.projects.any (fun p => p.root = root) then s
  else
    { s with
      projects := s.projects ++ [⟨s.nextId, name, root, none, now, now⟩]
      nextId := s.nextId + 1 }

/-- The rows of its worktrees go with the row of a project, by their foreign key. -/
def delete (id : Uuid) (s : Estate) : Estate :=
  { s with
    projects := s.projects.filter (fun p => p.id ≠ id)
    worktrees := s.worktrees.filter (fun w => w.projectId ≠ id) }

end ProjectRepo

namespace WorktreeRepo

/-- The foreign key and `UNIQUE (path)`. -/
def create (projectId : Uuid) (record : WorktreeRecord) (s : Estate) : Estate :=
  if s.projects.any (fun p => p.id = projectId) && !s.worktrees.any (fun w => w.path = record.path) then
    { s with worktrees := s.worktrees ++ [{ record with id := s.nextId, projectId }], nextId := s.nextId + 1 }
  else s

def update (id : Uuid) (f : WorktreeRecord → WorktreeRecord) (s : Estate) : Estate :=
  { s with worktrees := s.worktrees.map (fun w => if w.id = id then f w else w) }

/-- The live worktrees. -/
def listForProject (projectId : Uuid) (s : Estate) : List WorktreeRecord :=
  s.worktrees.filter (fun w => w.projectId = projectId ∧ w.removedAt.isNone)

def hardDelete (id : Uuid) (s : Estate) : Estate := { s with worktrees := s.worktrees.filter (fun w => w.id ≠ id) }

end WorktreeRepo

namespace LayoutRepo

def putScope (now : Nat) (projectId : Uuid) (worktreeId : Option Uuid) (blob : Json) (s : Estate) : Estate :=
  { s with
    layouts := s.layouts.filter (fun l => ¬ (l.projectId = projectId ∧ l.worktreeId = worktreeId)) ++
      [⟨projectId, worktreeId, blob, now⟩]
    laid := fun p w => if p = projectId ∧ w = worktreeId then s.clock else s.laid p w }

def deleteForProject (projectId : Uuid) (s : Estate) : Estate :=
  { s with layouts := s.layouts.filter (fun l => l.projectId ≠ projectId) }

end LayoutRepo

/-- One access by some other request. -/
inductive Access where
  | createProject (name root : Text)
  | createWorktree (projectId : Uuid) (record : WorktreeRecord)
  | removeWorktree (id : Uuid)
  | restoreWorktree (id : Uuid)
  | createChat (projectId : Uuid) (worktreeId : Option Uuid) (title provider model : Text) (effort : Option Text)
  | deleteChat (id : Uuid)
  | restoreChat (id : Uuid)
  | ingestChat (record : ChatRecord)
  | evict (id : Uuid)
  | putScope (projectId : Uuid) (worktreeId : Option Uuid) (blob : Json)
  | index (projectId : Uuid)

def Estate.access (now : Nat) (s : Estate) : Access → Estate
  | .createProject name root => ProjectRepo.create now name root s
  | .createWorktree projectId record => WorktreeRepo.create projectId record s
  | .removeWorktree id =>
    WorktreeRepo.update id (fun w => if w.removedAt.isNone then { w with removedAt := some now, updatedAt := now } else w) s
  | .restoreWorktree id =>
    WorktreeRepo.update id (fun w => if w.removedAt.isSome then { w with removedAt := none, updatedAt := now } else w) s
  | .createChat projectId worktreeId title provider model effort =>
    { s with
      chats := s.chats ++ [ChatRepo.create s.nextId now projectId worktreeId title provider model effort]
      nextId := s.nextId + 1
      live := Function.update s.live s.nextId s.clock }
  | .deleteChat id => { s with chats := ChatRepo.delete now id s.chats }
  | .restoreChat id =>
    { s with
      chats := ChatRepo.restore id s.chats
      live := if ChatRepo.isDeleted s.chats id then Function.update s.live id s.clock else s.live }
  | .ingestChat record => { s with cache := s.cache.ingestChat record, cached := Function.update s.cached record.id s.clock }
  | .evict id => { s with cache := s.cache.evict id }
  | .putScope projectId worktreeId blob => LayoutRepo.putScope now projectId worktreeId blob s
  | .index projectId => { s with indexed := Function.update s.indexed projectId true }

/-- What `delete` has ahead of it, at each of its awaits. -/
inductive Stage where
  | forget
  | listChats
  | chats (ids : List Uuid)
  | sweep
  | listWorktrees
  | worktrees (ids : List Uuid)
  | layouts
  | row
  | done (answer : Except Failure Unit)

/-- A call of `delete`. The last fields record when it listed the chats, swept the cache and dropped the layouts, which
of these it could not, and which of the chats it could not delete. -/
structure Deletion where
  id : Uuid
  stage : Stage
  listedAt : Option Nat
  sweptAt : Nat
  clearedAt : Option Nat
  missed : List Uuid

def Deletion.start (id : Uuid) : Deletion := ⟨id, .forget, none, 0, none, []⟩

/-- The loop over the worktrees is behind the one over the chats. -/
def afterChats : List Uuid → Stage
  | [] => .sweep
  | ids => .chats ids

def afterWorktrees : List Uuid → Stage
  | [] => .layouts
  | ids => .worktrees ids

/-- `delete` up to its next await; a store call may fail. Only the last failure is not ignored. -/
def Deletion.resume (now : Nat) (fail : Bool) (error : Text) (d : Deletion) (s : Estate) : Estate × Deletion :=
  match d.stage with
  | .forget => ({ s with indexed := Function.update s.indexed d.id false }, { d with stage := .listChats })
  | .listChats =>
    if fail then (s, { d with stage := .sweep })
    else
      (s, { d with
        stage := afterChats ((ChatRepo.listForProject s.chats d.id).map ChatRow.id)
        listedAt := some s.clock })
  | .chats [] => (s, { d with stage := .sweep })
  | .chats (c :: ids) =>
    if fail then (s, { d with stage := afterChats ids, missed := c :: d.missed })
    else ({ s with chats := ChatRepo.delete now c s.chats }, { d with stage := afterChats ids })
  | .sweep =>
    ({ s with cache := s.cache.retainChats (fun c => c.projectId ≠ d.id) },
      { d with stage := .listWorktrees, sweptAt := s.clock })
  | .listWorktrees =>
    if fail then (s, { d with stage := .layouts })
    else (s, { d with stage := afterWorktrees ((WorktreeRepo.listForProject d.id s).map WorktreeRecord.id) })
  | .worktrees [] => (s, { d with stage := .layouts })
  | .worktrees (w :: ids) =>
    (if fail then s else WorktreeRepo.hardDelete w s, { d with stage := afterWorktrees ids })
  | .layouts =>
    if fail then (s, { d with stage := .row })
    else (LayoutRepo.deleteForProject d.id s, { d with stage := .row, clearedAt := some s.clock })
  | .row =>
    if fail then (s, { d with stage := .done (.error (.internalServerError, "db: ".toList ++ error)) })
    else if s.projects.any (fun p => p.id = d.id) then
      (ProjectRepo.delete d.id s, { d with stage := .done (.ok ()) })
    else
      (s, { d with stage := .done (.error (.notFound, "project ".toList ++ showNat d.id ++ " not found".toList)) })
  | .done _ => (s, d)

inductive Event where
  | delete (id : Uuid)
  | resume (i now : Nat) (fail : Bool) (error : Text)
  | access (now : Nat) (a : Access)

/-- The server, and the deletions of projects that it has been asked for. -/
structure Office where
  estate : Estate
  deletions : List Deletion

def Estate.tick (s : Estate) : Estate := { s with clock := s.clock + 1 }

def Office.step (s : Office) : Event → Option Office
  | .delete id => some { s with deletions := s.deletions ++ [.start id] }
  | .resume i now fail error =>
    s.deletions[i]?.map fun d =>
      let out := d.resume now fail error s.estate
      ⟨out.1.tick, s.deletions.set i out.2⟩
  | .access now a => some { s with estate := (s.estate.access now a).tick }

end AgentGrove.Projects
