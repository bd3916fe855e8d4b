import AgentGrove.Model.AppStore
import AgentGrove.Wire.Url

namespace AgentGrove.App

open Url

def PaneId.name : PaneId → Text
  | .chat => "chat".toList
  | .editor => "editor".toList
  | .terminal => "terminal".toList
  | .notes => "notes".toList
  | .db => "db".toList

def params (pane : PaneId) (chat file : Option Text) : List Text :=
  (if pane = .chat then [] else ["pane=".toList ++ pane.name]) ++
    (truthy chat).toList.map (fun chat => "chat=".toList ++ chat) ++
    (truthy file).toList.map (fun file => "file=".toList ++ encodeURIComponent file)

def urlPath (pid : Text) (wid : Option Text) : Text :=
  "/p/".toList ++ pid ++
    match truthy wid with
    | some wid => "/w/".toList ++ wid
    | none => []

def buildUrl (pid wid : Option Text) (pane : PaneId) (chat file : Option Text) : Text :=
  match truthy pid with
  | none => "/".toList
  | some pid =>
    let params := params pane chat file
    if params = [] then urlPath pid wid else urlPath pid wid ++ '?' :: ['&'].intercalate params

/-- The address that is written for what a store shows. -/
def Store.shownUrl (s : Store) : Text :=
  let pane := ((s.byScope.get (s.currentScopeKey.getD [])).bind Scope.activePane).getD .chat
  buildUrl s.selectedProjectId s.currentWorktreeId pane s.selectedChatId s.selectedFilePath

/-- What the two directions keep beside the store, and the address of the browser. -/
structure Router where
  url : Text
  ready : Bool := true
  selfWrittenUrl : Option Text := none
  lastValidatedScope : Text := []
  routeError : Option Text := none

def Store.hasProject (s : Store) (id : Text) : Bool := s.projects.contains id

/-- The project and the worktree that a path names. -/
def targets (path : Text) : Option Text × Option Text :=
  match (path.splitOn '/').filter (fun t => !t.isEmpty) with
  | p :: pid :: rest =>
    if p = "p".toList then
      match rest with
      | w :: wid :: _ => if w = "w".toList then (some pid, some wid) else (some pid, none)
      | _ => (some pid, none)
    else (none, none)
  | _ => (none, none)

structure Target where
  router : Router
  project : Option Text
  worktree : Option Text

/-- A project that is not there any more is left for the one that is selected, or for the first. -/
def checkProject (s : Store) (t : Target) : Target :=
  match t.project with
  | none => t
  | some pid =>
    if !s.projects.isEmpty && !s.hasProject pid then
      let fallback := ((truthy s.selectedProjectId).filter s.hasProject).or (truthy s.projects.head?)
      let fallbackUrl := (fallback.map ("/p/".toList ++ ·)).getD "/".toList
      { router := { t.router with
          routeError := some "That project no longer exists — taking you back.".toList
          url := fallbackUrl }
        project := fallback
        worktree := none }
    else t

def checkWorktree (s : Store) (t : Target) : Target :=
  match t.project, t.worktree with
  | some pid, some wid =>
    let wts := (s.worktrees pid).getD []
    if s.hasProject pid && !wts.isEmpty && !wts.contains wid then
      { router := { t.router with
          routeError := some "That worktree no longer exists — showing the project root.".toList
          url := "/p/".toList ++ pid }
        project := some pid
        worktree := none }
    else t
  | _, _ => t

/-- A scope is looked for once. -/
def validate (s : Store) (t : Target) : Target :=
  let scopeSig := t.project.getD [] ++ "::".toList ++ t.worktree.getD []
  if scopeSig = t.router.lastValidatedScope then t
  else checkWorktree s (checkProject s { t with router := { t.router with lastValidatedScope := scopeSig } })

def selectTarget (s : Store) (project worktree : Option Text) : Store :=
  match project with
  | none => s
  | some pid =>
    let s := if s.selectedProjectId = some pid then s else s.selectProject pid
    if worktree = s.currentWorktreeId then s else s.selectWorktree pid worktree

def openChat (s : Store) (chat : Option Text) : Store :=
  match truthy chat with
  | none => s
  | some chat =>
    if s.selectedChatId = some chat then s
    else if s.currentScope.any (fun scope => scope.has chat) then s.setActiveTab chat
    else s.ensureChatTab chat

/-- The editor is not opened where the path is no encoding: the error ends the call. -/
def openFile (s : Store) (file : Option Text) : Store × Bool :=
  match truthy file with
  | none => (s, true)
  | some file =>
    if s.selectedFilePath = some file then (s, true)
    else
      match decodeURIComponent file with
      | some path => (s.selectFile path, true)
      | none => (s, false)

/-- Apply the address of the browser; and whether the call came to its end. -/
def applyUrlToStore (r : Router) (s : Store) : Router × Store × Bool :=
  if !r.ready then (r, s, true)
  else
    let place := location r.url
    if r.selfWrittenUrl = some (place.1 ++ place.2) then ({ r with selfWrittenUrl := none }, s, true)
    else
      let named := targets place.1
      let target := validate s ⟨{ r with selfWrittenUrl := none }, named.1, named.2⟩
      let search := searchParams (location target.router.url).2
      let chosen := openChat (selectTarget s target.project target.worktree) (search.lookup "chat".toList)
      (target.router, openFile chosen (search.lookup "file".toList))

end AgentGrove.App
