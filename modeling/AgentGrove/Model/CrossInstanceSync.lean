import AgentGrove.Model.AppStore

namespace AgentGrove.CrossInstanceSync

structure Project where
  id : Text
  name : Text
  root : Text
  createdAt : Text := []
  updatedAt : Text := []
  isGit : Option Bool := none
  hasRemote : Option Bool := none
  currentBranch : Option Text := none
  remotes : List Text := []
  preWorktreeScript : Option Text := none
deriving DecidableEq

structure Worktree where
  id : Text
  projectId : Text
  branch : Text
  baseRef : Text := "HEAD".toList
  path : Text := []
  status : Text := "ready".toList
  preScript : Option Text := none
  postScript : Option Text := none
  createdAt : Text := []
  updatedAt : Text := []
  removedAt : Option Text := none
deriving DecidableEq

inductive SyncFrame where
  | projectCreated (projectId : Text)
  | projectDeleted (projectId : Text)
  | projectUpdated (projectId : Text)
  | worktreeCreated (worktreeId projectId : Text)
  | worktreeUpdated (worktreeId projectId : Text)
  | worktreeDeleted (worktreeId projectId : Text)
  | worktreeRestored (worktreeId projectId : Text)
  | chatCreated (chatId projectId : Text) (worktreeId : Option Text)
  | chatUpdated (chatId projectId : Text) (worktreeId : Option Text)
  | scratchpadUpdated (projectId updatedAt : Text)
  | notesUpdated (updatedAt : Text)
deriving DecidableEq

/-- What is to be kept in step: the projects, and the worktrees of each. -/
@[ext]
structure Lists where
  projects : List Project
  worktrees : Text → List Worktree

def Lists.has (l : Lists) (pid : Text) : Bool := l.projects.any (fun p => p.id = pid)

/-- A project that is not there has no worktrees: they are deleted before it is. -/
structure Server extends Lists where
  gone : ∀ pid, toLists.has pid = false → worktrees pid = []

namespace Server

def listProjects (s : Server) : Except Text (List Project) := .ok s.projects

/-- The error is what the client makes of the answer. -/
def listWorktrees (s : Server) (pid : Text) : Except Text (List Worktree) :=
  if s.has pid then .ok (s.worktrees pid)
  else .error ("404 Not Found: project ".toList ++ pid ++ " not found".toList)

end Server

/-- Of what is selected only the project is looked at here. -/
structure Client where
  projects : List Project := []
  worktrees : Text → Option (List Worktree) := fun _ => none
  selectedProjectId : Option Text := none
  loadError : Option Text := none

namespace Client

/-- A project that no worktrees were fetched of shows none. -/
def lists (c : Client) : Lists where
  projects := c.projects
  worktrees pid := (c.worktrees pid).getD []

def setWorktrees (pid : Text) (list : List Worktree) (c : Client) : Client :=
  { c with worktrees := fun q => if q = pid then some list else c.worktrees q }

end Client

/-- What goes on when the worktrees of a project have come. -/
inductive Next where
  /-- One of the calls that `refreshProjects` makes together, for the list it got. -/
  | fetched (batch : Nat) (list : List Project) (loop : Bool)
  /-- The call of `refreshWorktreesForProject`, in a loop that has these projects to come. -/
  | refreshed (rest : List Text)
deriving DecidableEq

/-- A call that waits, with its answer once the server has made it. `loop` is whether the caller of `refreshProjects`
goes on to the worktrees. -/
inductive Call where
  | projects (loop : Bool) (answer : Option (Except Text (List Project)))
  | worktrees (pid : Text) (next : Next) (answer : Option (Except Text (List Worktree)))

/-- A list that the server has made an answer of. -/
inductive Answer where
  | projects (list : List Project)
  | worktrees (pid : Text) (list : List Worktree)

/-- The server and one client. Frames that are owed have not come since the last change that they announce. The answers
are kept as they were made and as they arrived, the newest first; no code reads these two lists. -/
structure System where
  server : Server
  client : Client
  calls : List Call := []
  batches : Nat := 0
  owed : List SyncFrame := []
  made : List Answer := []
  arrived : List Answer := []

namespace System

def send (c : Call) (s : System) : System := { s with calls := s.calls ++ [c] }

def setLoadError (e : Text) (s : System) : System := { s with client := { s.client with loadError := some e } }

/-- `setState("projects", list)` -/
def setProjects (list : List Project) (s : System) : System :=
  { s with client := { s.client with projects := list }, arrived := .projects list :: s.arrived }

/-- `setState("worktrees", pid, list)` -/
def setWorktrees (pid : Text) (list : List Worktree) (s : System) : System :=
  { s with client := s.client.setWorktrees pid list, arrived := .worktrees pid list :: s.arrived }

/-- The loop of `handleFrame`, one project after the other. -/
def refreshEach (pids : List Text) (s : System) : System :=
  match pids with
  | [] => s
  | pid :: rest => s.send (.worktrees pid (.refreshed rest) none)

def refreshWorktreesForProject (pid : Text) (s : System) : System := s.refreshEach [pid]

def refreshProjects (loop : Bool) (s : System) : System := s.send (.projects loop none)

def selectProject (id : Text) (s : System) : System :=
  { s with client := { s.client with selectedProjectId := some id } }.refreshWorktreesForProject id

/-- What comes after `await refreshProjects()`. -/
def refreshedProjects (loop : Bool) (s : System) : System :=
  if loop then s.refreshEach (s.client.projects.map Project.id) else s

/-- All calls of a batch have been answered. -/
def fetchedAll (list : List Project) (loop : Bool) (s : System) : System :=
  let selected :=
    match App.truthy s.client.selectedProjectId, list with
    | none, p :: _ => s.selectProject p.id
    | _, _ => s
  selected.refreshedProjects loop

def gotProjects (loop : Bool) (r : Except Text (List Project)) (s : System) : System :=
  match r with
  | .error e => (s.setLoadError e).refreshedProjects loop
  | .ok [] => (s.setProjects []).fetchedAll [] loop
  | .ok list =>
    let s := s.setProjects list
    { s with
      calls := s.calls ++ list.map (fun p => .worktrees p.id (.fetched s.batches list loop) none)
      batches := s.batches + 1 }

/-- Whether a call of the batch still waits. -/
def waits (batch : Nat) (s : System) : Bool :=
  s.calls.any fun
    | .worktrees _ (.fetched b _ _) _ => b = batch
    | _ => false

def gotWorktrees (pid : Text) (next : Next) (r : Except Text (List Worktree)) (s : System) : System :=
  match next, r with
  | .fetched batch list loop, r =>
    let s :=
      match r with
      | .ok wts => s.setWorktrees pid wts
      | .error _ => s
    if s.waits batch then s else s.fetchedAll list loop
  | .refreshed rest, .ok list => (s.setWorktrees pid list).refreshEach rest
  | .refreshed rest, .error e => (s.setLoadError e).refreshEach rest

/-- The listeners of the panes are left out: they do not touch the lists. -/
def handleFrame (f : SyncFrame) (s : System) : System :=
  match f with
  | .projectCreated _ => s.refreshProjects false
  | .projectDeleted _ | .projectUpdated _ => s.refreshProjects true
  | .worktreeCreated _ pid | .worktreeUpdated _ pid | .worktreeDeleted _ pid | .worktreeRestored _ pid =>
    s.refreshWorktreesForProject pid
  | _ => s

/-- The server makes its answer to a call. -/
def serve (i : Nat) (s : System) : System :=
  match s.calls[i]? with
  | some (.projects loop none) =>
    { s with
      calls := s.calls.set i (.projects loop (some s.server.listProjects))
      made := .projects s.server.projects :: s.made }
  | some (.worktrees pid next none) =>
    let served := { s with calls := s.calls.set i (.worktrees pid next (some (s.server.listWorktrees pid))) }
    if s.server.has pid then { served with made := .worktrees pid (s.server.worktrees pid) :: s.made } else served
  | _ => s

/-- The answer to a call arrives. -/
def arrive (i : Nat) (s : System) : System :=
  let rest := { s with calls := s.calls.eraseIdx i }
  match s.calls[i]? with
  | some (.projects loop (some r)) => rest.gotProjects loop r
  | some (.worktrees pid next (some r)) => rest.gotWorktrees pid next r
  | _ => s

end System

/-- The client calls for its lists on frames, and wherever else it does. -/
inductive Event where
  | change (announced : SyncFrame) (server : Server)
  | frame (f : SyncFrame)
  | refreshProjects
  | refreshWorktreesForProject (pid : Text)
  | selectProject (id : Text)
  | serve (i : Nat)
  | arrive (i : Nat)

def exec (s : System) : Event → System
  | .change announced server => { s with server, owed := s.owed.insert announced }
  | .frame f => { s with owed := s.owed.filter (fun g => g ≠ f) }.handleFrame f
  | .refreshProjects => s.refreshProjects false
  | .refreshWorktreesForProject pid => s.refreshWorktreesForProject pid
  | .selectProject id => s.selectProject id
  | .serve i => s.serve i
  | .arrive i => s.arrive i

end AgentGrove.CrossInstanceSync
