import AgentGrove.Coop.Pool
import AgentGrove.Model.Records
import Mathlib.Logic.Function.Basic

namespace AgentGrove.Worktrees

open Coop

inductive WorktreeStatus where
  | creating
  | preScript
  | ready
  | removing
  | failed
deriving DecidableEq

structure WorktreeRecord where
  id : Uuid
  projectId : Uuid
  branch : Text
  baseRef : Text
  path : Text
  status : WorktreeStatus
  preScript : Option Text
  postScript : Option Text
  createdAt : Nat
  updatedAt : Nat
  removedAt : Option Nat
deriving DecidableEq

inductive WorktreeError where
  | emptyBranch
  | emptyBaseRef
  | relativePath (path : Text)
  | duplicatePath (path : Text)
  | notFound (id : Uuid)
  | db (e : Text)
deriving DecidableEq

abbrev Failure := StatusCode × Text

def mapWtErr : WorktreeError → Failure
  | .emptyBranch => (.badRequest, "branch is empty".toList)
  | .emptyBaseRef => (.badRequest, "base_ref is empty".toList)
  | .relativePath p => (.badRequest, "path must be absolute: ".toList ++ p)
  | .duplicatePath p => (.conflict, "worktree at ".toList ++ p ++ " already exists".toList)
  | .notFound id => (.notFound, "worktree ".toList ++ showNat id ++ " not found".toList)
  | .db e => (.internalServerError, "db: ".toList ++ e)

inductive GitError where
  | gitNotFound
  | nonZero (code : Int) (stderr : Text)
  | io (e : Text)
deriving DecidableEq

def showInt (i : Int) : Text := (Int.repr i).toList

def GitError.message : GitError → Text
  | .gitNotFound => "git binary not found on PATH".toList
  | .nonZero code stderr =>
    "git command failed (exit=".toList ++ showInt code ++ "): ".toList ++ stderr
  | .io e => "io error: ".toList ++ e

structure Project where
  root : Text
  preWorktreeScript : Option Text

structure CreateWorktreeBody where
  branch : Text
  baseRef : Text := "HEAD".toList
  path : Option Text := none
  preScript : Option Text := none
  postScript : Option Text := none

/-- What is at a path: a directory that is no worktree is `other`. -/
inductive Occupant where
  | missing
  | other
  | worktree
deriving DecidableEq

inductive Topic where
  | sync
  | script (id : Uuid)
deriving DecidableEq

inductive Note where
  | stage (name : Text)
  | stderr (line : Text)
  | exit (code : Int)
  | worktreeCreated (id projectId : Uuid)
  | worktreeUpdated (id projectId : Uuid)
  | worktreeDeleted (id projectId : Uuid)
  | worktreeRestored (id projectId : Uuid)
deriving DecidableEq

/-- The shared state. The last two fields record which rows have ever been marked as
removed, and for each row that a create task marked as ready whether it had been. -/
structure Grove where
  stateDir : Text
  projects : Uuid → Option Project
  rows : List WorktreeRecord
  disk : Text → Occupant
  nextId : Uuid
  bus : List (Topic × Note)
  removedOnce : Uuid → Bool
  readied : List (Uuid × Bool)

inductive Call where
  | project
  | inspect
  | insert
  | start
  | fetch
  | fail
  | add
  | preScript
  | script
  | ready
  | remove
  | prune
  | wipe
  | branch
  | drop
  | getRow
  | postScript
  | removing
  | rollback
  | owner
  | inside
  | branchExists
  | fetchBase
  | regrow
  | unremove
  | restored
  | reread
deriving DecidableEq

/-- The row and the path that a request works on. -/
structure Key where
  id : Uuid
  path : Text
deriving DecidableEq

structure Site where
  call : Call
  wt : Option Key
deriving DecidableEq

inductive Tag where
  | handler
  | createTask
deriving DecidableEq

/-- What the world decides at one await: store errors, the clock, and how a git command, a
script or a look at a path went. A removal that failed may have taken the worktree apart. -/
structure Choice where
  fail : Bool := false
  error : Text := []
  now : Nat := 0
  hasRemote : Bool := true
  git : Except GitError Unit := .ok ()
  apart : Bool := false
  script : Except Text Int := .ok 0
  yes : Except GitError Bool := .ok true

inductive Request where
  | create (projectId : Uuid) (body : CreateWorktreeBody)
  | delete (projectId worktreeId : Uuid) (deleteBranch : Bool)
  | restore (worktreeId : Uuid)

abbrev GroveProg (α : Type) := Prog Site Tag Choice Grove α

def access {β : Type} (site : Site) (act : Choice → Grove → Grove × β) : GroveProg β :=
  .await site (fun w s => some (act w s)) .ret

def atOnce {β : Type} (act : Grove → Grove × β) : GroveProg β := .sync act .ret

def publish (topic : Topic) (note : Note) : GroveProg Unit :=
  atOnce (fun s => ({ s with bus := s.bus ++ [(topic, note)] }, ()))

def outer (call : Call) : Site := ⟨call, none⟩

def WorktreeRecord.key (wt : WorktreeRecord) : Key := ⟨wt.id, wt.path⟩

/-- A call that works on this worktree. -/
def on (call : Call) (wt : WorktreeRecord) : Site := ⟨call, some wt.key⟩

namespace WorktreeRepo

def get (rows : List WorktreeRecord) (id : Uuid) : Option WorktreeRecord :=
  rows.find? (fun r => r.id = id)

def setRow (id : Uuid) (f : WorktreeRecord → WorktreeRecord) (rows : List WorktreeRecord) :
    List WorktreeRecord :=
  rows.map (fun r => if r.id = id then f r else r)

end WorktreeRepo

def getProject (site : Site) (id : Uuid) : GroveProg (Except (Option Text) Project) :=
  access site (fun w s => (s,
    if w.fail then .error (some w.error) else
      match s.projects id with
      | some p => .ok p
      | none => .error none))

def getRow (site : Site) (id : Uuid) : GroveProg (Except WorktreeError WorktreeRecord) :=
  access site (fun w s => (s,
    if w.fail then .error (.db w.error) else
      match WorktreeRepo.get s.rows id with
      | some r => .ok r
      | none => .error (.notFound id)))

/-- `let _ = set_status(..)`. -/
def setStatus (call : Call) (wt : WorktreeRecord) (status : WorktreeStatus) : GroveProg Unit :=
  access (on call wt) (fun w s =>
    (if w.fail then s
      else { s with
        rows := WorktreeRepo.setRow wt.id (fun r => { r with status := status, updatedAt := w.now }) s.rows },
      ()))

/-- The create task's last word on its row. -/
def setReady (wt : WorktreeRecord) : GroveProg Unit :=
  access (on .ready wt) (fun w s =>
    (if w.fail then s
      else { s with
        rows := WorktreeRepo.setRow wt.id (fun r => { r with status := .ready, updatedAt := w.now }) s.rows
        readied := s.readied ++ [(wt.id, s.removedOnce wt.id)] }, ()))

/-- Whether a live row has this id. -/
def Grove.live (s : Grove) (id : Uuid) : Bool :=
  (WorktreeRepo.get s.rows id).any (fun r => r.removedAt.isNone)

/-- The `UPDATE` of `WorktreeRepo::delete`. -/
def Grove.dropRow (s : Grove) (id : Uuid) (now : Nat) : Grove :=
  { s with
    rows := WorktreeRepo.setRow id (fun r =>
      if r.removedAt.isNone then { r with removedAt := some now, updatedAt := now } else r) s.rows
    removedOnce := Function.update s.removedOnce id (s.removedOnce id || s.live id) }

def deleteRow (wt : WorktreeRecord) : GroveProg (Except WorktreeError Bool) :=
  access (on .drop wt) (fun w s =>
    if w.fail then (s, .error (.db w.error)) else (s.dropRow wt.id w.now, .ok (s.live wt.id)))

/-- The `UPDATE` of `WorktreeRepo::restore`. -/
def restoreRow (wt : WorktreeRecord) : GroveProg (Except WorktreeError Bool) :=
  access (on .unremove wt) (fun w s =>
    if w.fail then (s, .error (.db w.error))
    else if s.live wt.id then (s, .ok false)
    else
      ({ s with
        rows := WorktreeRepo.setRow wt.id (fun r => { r with removedAt := none, updatedAt := w.now }) s.rows },
        .ok (WorktreeRepo.get s.rows wt.id).isSome))

def fetchRef (site : Site) (_baseRef : Text) : GroveProg (Except GitError Unit) :=
  access site (fun w s => (s, w.git))

/-- `git worktree add`, which needs the path for itself. -/
def addWorktree (call : Call) (wt : WorktreeRecord) : GroveProg (Except GitError Unit) :=
  .await (on call wt) (fun w s =>
    match w.git with
    | .error e => some (s, .error e)
    | .ok () =>
      if s.disk wt.path = .missing then
        some ({ s with disk := Function.update s.disk wt.path .worktree }, .ok ())
      else none) .ret

/-- What a removal that failed leaves of a path. -/
def Occupant.leftBy (w : Choice) (o : Occupant) : Occupant :=
  if w.apart && o == .worktree then .other else o

/-- `git worktree remove --force`, which only removes worktrees. -/
def removeWorktree (wt : WorktreeRecord) : GroveProg (Except GitError Unit) :=
  .await (on .remove wt) (fun w s =>
    match w.git with
    | .error e =>
      some ({ s with disk := Function.update s.disk wt.path ((s.disk wt.path).leftBy w) }, .error e)
    | .ok () =>
      if s.disk wt.path = .worktree then
        some ({ s with disk := Function.update s.disk wt.path .missing }, .ok ())
      else none) .ret

def pruneWorktrees (wt : WorktreeRecord) : GroveProg Unit := access (on .prune wt) (fun _ s => (s, ()))

def removeDirAll (wt : WorktreeRecord) : GroveProg Unit :=
  access (on .wipe wt) (fun w s =>
    let left := if w.git.isOk then .missing else (s.disk wt.path).leftBy w
    ({ s with disk := Function.update s.disk wt.path left }, ()))

def deleteBranch (wt : WorktreeRecord) : GroveProg (Except GitError Unit) :=
  access (on .branch wt) (fun w s => (s, w.git))

/-- `path.exists()`. -/
def pathExists (path : Text) : GroveProg Bool := atOnce (fun s => (s, s.disk path ≠ .missing))

def runScript (call : Call) (wt : WorktreeRecord) (_script : Text) : GroveProg (Except Text Int) :=
  access (on call wt) (fun w s => (s, w.script))

/-- A path inside a directory. -/
def startsWith (path dir : Text) : Bool := path == dir || (dir ++ ['/']).isPrefixOf path

def worktreesDir (stateDir : Text) : Text := stateDir ++ "/worktrees".toList

/-- Clear what a removal that failed may have left in the repository. -/
def pruneAfter (wt : WorktreeRecord) : Except GitError Unit → GroveProg Unit
  | .error _ => pruneWorktrees wt
  | .ok () => return ()

def cleanupFailedWorktree (wt : WorktreeRecord) : GroveProg Unit := do
  pruneAfter wt (← removeWorktree wt)
  let leftover ← atOnce (fun s =>
    (s, startsWith wt.path (worktreesDir s.stateDir) && decide (s.disk wt.path ≠ .missing)))
  if leftover then removeDirAll wt
  let _ ← deleteBranch wt
  let _ ← deleteRow wt

/-- Git has failed the task. -/
def giveUp (wt : WorktreeRecord) (line : Text) : GroveProg Unit := do
  setStatus .fail wt .failed
  publish .sync (.worktreeUpdated wt.id wt.projectId)
  publish (.script wt.id) (.stderr line)
  publish (.script wt.id) (.exit (-1))

/-- The pre-script has failed, and the worktree goes. -/
def tearDown (wt : WorktreeRecord) (line : Text) (code : Int) : GroveProg Unit := do
  publish (.script wt.id) (.stderr line)
  publish (.script wt.id) (.stderr "pre-script failed — removing the worktree".toList)
  cleanupFailedWorktree wt
  publish .sync (.worktreeDeleted wt.id wt.projectId)
  publish (.script wt.id) (.exit code)

def markReady (wt : WorktreeRecord) : GroveProg Unit := do
  setReady wt
  publish (.script wt.id) (.stage "ready".toList)
  publish .sync (.worktreeUpdated wt.id wt.projectId)

/-- The task that `create` spawns. -/
def createTask (wt : WorktreeRecord) : GroveProg Unit := do
  access (on .start wt) (fun _ s => (s, ()))
  publish (.script wt.id) (.stage "git_fetch".toList)
  match ← fetchRef (on .fetch wt) wt.baseRef with
  | .error e =>
    giveUp wt ("git fetch origin ".toList ++ wt.baseRef ++ " failed: ".toList ++ e.message)
  | .ok () =>
    publish (.script wt.id) (.stage "git_fetch_done".toList)
    publish (.script wt.id) (.stage "git_add".toList)
    match ← addWorktree .add wt with
    | .error e => giveUp wt ("git worktree add failed: ".toList ++ e.message)
    | .ok () =>
      publish (.script wt.id) (.stage "git_add_done".toList)
      match wt.preScript with
      | none => markReady wt
      | some script =>
        setStatus .preScript wt .preScript
        publish (.script wt.id) (.stage "pre_script".toList)
        match ← runScript .script wt script with
        | .ok code =>
          if code = 0 then markReady wt
          else tearDown wt ("pre-script exited ".toList ++ showInt code) code
        | .error e => tearDown wt ("pre-script error: ".toList ++ e) (-1)

def sanitizeBranch (branch : Text) : Text :=
  branch.map (fun c => if c = '/' ∨ c = '\\' ∨ c = ':' ∨ c = ' ' then '-' else c)

/-- What `WorktreeRepo::create` asks of its input. -/
def checkInput (branch baseRef path : Text) : Except WorktreeError Unit :=
  if (trim branch).isEmpty then .error .emptyBranch
  else if (trim baseRef).isEmpty then .error .emptyBaseRef
  else if path.head? ≠ some '/' then .error (.relativePath path)
  else .ok ()

def insertRow (projectId : Uuid) (body : CreateWorktreeBody) (path : Text) (preScript : Option Text) :
    GroveProg (Except WorktreeError WorktreeRecord) :=
  match checkInput body.branch body.baseRef path with
  | .error e => .ret (.error e)
  | .ok () =>
    access (outer .insert) (fun w s =>
      if w.fail then (s, .error (.db w.error))
      else if s.rows.any (fun r => r.path = path) then (s, .error (.duplicatePath path))
      else
        let row : WorktreeRecord :=
          { id := s.nextId, projectId := projectId, branch := body.branch, baseRef := body.baseRef
            path := path, status := .creating, preScript := preScript, postScript := body.postScript
            createdAt := w.now, updatedAt := w.now, removedAt := none }
        ({ s with rows := s.rows ++ [row], nextId := s.nextId + 1 }, .ok row))

def create (projectId : Uuid) (body : CreateWorktreeBody) : GroveProg (Except Failure WorktreeRecord) := do
  match ← getProject (outer .project) projectId with
  | .error none => return .error (.notFound, "project ".toList ++ showNat projectId ++ " not found".toList)
  | .error (some e) => return .error (.internalServerError, "db: ".toList ++ e)
  | .ok project =>
    if ← access (outer .inspect) (fun w s => (s, w.hasRemote)) then
      let stateDir ← atOnce (fun s => (s, s.stateDir))
      let path := body.path.getD (worktreesDir stateDir ++ "/".toList ++ showNat projectId ++ "/".toList ++
        sanitizeBranch body.branch)
      let preScript := ((body.preScript.map trim).filter (fun t => !t.isEmpty)).or project.preWorktreeScript
      match ← insertRow projectId body path preScript with
      | .error e => return .error (mapWtErr e)
      | .ok wt =>
        .spawn .createTask (createTask wt) (.ret ())
        publish .sync (.worktreeCreated wt.id wt.projectId)
        return .ok wt
    else return .error (.badRequest, ("project has no git remote — worktree creation requires a remote " ++
      "(add one with `git remote add origin <url>`)").toList)

/-- The last part of `delete`: the worktree is gone. -/
def forget (wt : WorktreeRecord) : GroveProg (Except Failure Unit) := do
  match ← deleteRow wt with
  | .error e => return .error (mapWtErr e)
  | .ok _ =>
    publish .sync (.worktreeDeleted wt.id wt.projectId)
    return .ok ()

def removed (wt : WorktreeRecord) (dropBranch : Bool) : GroveProg (Except Failure Unit) := do
  if dropBranch then
    match ← deleteBranch wt with
    | .error e =>
      if containsText e.message "not found".toList then forget wt
      else
        let _ ← deleteRow wt
        return .error (.internalServerError,
          "worktree removed, but git branch -D failed: ".toList ++ e.message)
    | .ok () => forget wt
  else forget wt

/-- The text of an error that means that the worktree is gone already. -/
def saysGone (e : GitError) : Bool :=
  containsText (toAsciiLowercase e.message) "not a working tree".toList ||
    containsText (toAsciiLowercase e.message) "does not exist".toList

def delete (projectId worktreeId : Uuid) (dropBranch : Bool) : GroveProg (Except Failure Unit) := do
  match ← getProject (outer .project) projectId with
  | .error _ => return .error (.notFound, "project not found".toList)
  | .ok _ =>
    match ← getRow (outer .getRow) worktreeId with
    | .error e => return .error (mapWtErr e)
    | .ok wt =>
      if wt.projectId ≠ projectId then return .error (.badRequest, "worktree not in project".toList)
      else
        if let some script := wt.postScript then
          let _ ← runScript .postScript wt script
        setStatus .removing wt .removing
        match ← removeWorktree wt with
        | .ok () => removed wt dropBranch
        | .error e =>
          let present ← pathExists wt.path
          if !present || saysGone e then
            pruneWorktrees wt
            removed wt dropBranch
          else
            setStatus .rollback wt .ready
            return .error (.internalServerError, "git worktree remove failed: ".toList ++ e.message)

/-- `is_worktree_path`. A directory inside some other repository says yes, too. -/
def isWorktreePath (wt : WorktreeRecord) : GroveProg (Except GitError Bool) := do
  if ← pathExists wt.path then
    access (on .inside wt) (fun w s => (s,
      match w.yes with
      | .error (.nonZero _ _) => .ok false
      | out => out))
  else return .ok false

def branchExists (wt : WorktreeRecord) : GroveProg (Except GitError Bool) :=
  access (on .branchExists wt) (fun w s => (s,
    match w.yes with
    | .error (.nonZero _ _) => .ok false
    | out => out))

def restoreWorktree (wt : WorktreeRecord) : GroveProg (Except GitError Unit) := do
  match ← isWorktreePath wt with
  | .error e => return .error e
  | .ok true => return .ok ()
  | .ok false =>
    if ← pathExists wt.path then
      return .error (.nonZero 1 ("path exists but is not a git worktree: ".toList ++ wt.path))
    else
      match ← branchExists wt with
      | .error e => return .error e
      | .ok true => addWorktree .regrow wt
      | .ok false =>
        let _ ← fetchRef (on .fetchBase wt) wt.baseRef
        match ← addWorktree .regrow wt with
        | .ok () => return .ok ()
        | .error _ => addWorktree .regrow wt

def restore (worktreeId : Uuid) : GroveProg (Except Failure WorktreeRecord) := do
  match ← getRow (outer .getRow) worktreeId with
  | .error e => return .error (mapWtErr e)
  | .ok existing =>
    if existing.removedAt.isNone then
      return .error (.conflict, "worktree ".toList ++ showNat worktreeId ++ " is already live".toList)
    else
      match ← getProject (on .owner existing) existing.projectId with
      | .error _ => return .error (.notFound, "project not found".toList)
      | .ok _ =>
        match ← restoreWorktree existing with
        | .error e =>
          return .error (.internalServerError, "git worktree restore failed: ".toList ++ e.message)
        | .ok () =>
          match ← restoreRow existing with
          | .error e => return .error (mapWtErr e)
          | .ok false =>
            return .error (.conflict, "worktree ".toList ++ showNat worktreeId ++
              " could not be restored".toList)
          | .ok true =>
            setStatus .restored existing .ready
            match ← getRow (on .reread existing) worktreeId with
            | .error e => return .error (mapWtErr e)
            | .ok fresh =>
              publish .sync (.worktreeRestored fresh.id fresh.projectId)
              return .ok fresh

def handle : Request → GroveProg Unit
  | .create projectId body => do let _ ← create projectId body
  | .delete projectId worktreeId dropBranch => do let _ ← delete projectId worktreeId dropBranch
  | .restore worktreeId => do let _ ← restore worktreeId

def entry (request : Request) : Thread Site Tag Choice Grove := ⟨.handler, handle request⟩

/-- A server without worktrees, on a disk of any content. -/
def boot (stateDir : Text) (projects : Uuid → Option Project) (disk : Text → Occupant) : Grove where
  stateDir := stateDir
  projects := projects
  rows := []
  disk := disk
  nextId := 0
  bus := []
  removedOnce := fun _ => false
  readied := []

end AgentGrove.Worktrees
