import AgentGrove.Model.ClickUp
import AgentGrove.Model.Worktrees
import AgentGrove.Wire.Value

namespace AgentGrove.TicketWorktrees

open ClickUp (TicketRow slugify clickup)
open Worktrees (WorktreeRecord CreateWorktreeBody)

/-- The project's repository: what its remote names, the forge that is detected, and what the forge's CLI lists. -/
structure Repo where
  repository : Text
  forge : Text
  githubIssues : List TicketRow
  gitlabIssues : List TicketRow

/-- A project that is not there, or a store that fails. -/
def projectErr (projectId : Uuid) : Option Text → Worktrees.Failure
  | none => (.notFound, "project ".toList ++ showNat projectId ++ " not found".toList)
  | some e => (.internalServerError, "db: ".toList ++ e)

def listTickets (projectId : Uuid) (project : Except (Option Text) Repo) : Except Worktrees.Failure (List TicketRow) :=
  match project with
  | .error e => .error (projectErr projectId e)
  | .ok repo =>
    .ok (if repo.forge = "github".toList then repo.githubIssues
      else if repo.forge = "gitlab".toList then repo.gitlabIssues
      else [])

/-- The repository, the ticket's title and what is asked of `worktrees::create`. The project is looked up twice. -/
def workOnTicket (projectId : Uuid) (ticketId : Text) (baseRef : Option Text) (project again : Except (Option Text) Repo) :
    Except Worktrees.Failure (Repo × Text × CreateWorktreeBody) :=
  match project with
  | .error e => .error (projectErr projectId e)
  | .ok repo => do
    let tickets ← listTickets projectId again
    match tickets.find? (fun t => t.id = ticketId) with
    | none =>
      .error (.notFound, "ticket ".toList ++ ticketId ++ " not found in project ".toList ++ showNat projectId)
    | some ticket =>
      .ok (repo, ticket.title,
        { branch := "ticket/".toList ++ ticketId ++ "-".toList ++ slugify ticket.title
          baseRef := ((baseRef.map trim).filter (fun s => !s.isEmpty)).getD "HEAD".toList })

def workOnClickup (taskId : Text) (projectId : Uuid) (project : Except (Option Text) Unit) (token : Option Text)
    (listClickupTasks : Text → List TicketRow) : Except Worktrees.Failure (Text × CreateWorktreeBody) :=
  match project with
  | .error e => .error (projectErr projectId e)
  | .ok () =>
    match token with
    | none => .error (.badRequest, "clickup not connected".toList)
    | some tok =>
      let title := (((listClickupTasks tok).find? (fun t => t.id = taskId)).map TicketRow.title).getD []
      .ok (title, { branch := "ticket/".toList ++ taskId ++ "-".toList ++ slugify title })

/-- `state.worktrees`, in the order of `Object.values`. -/
def findTicketWorktree (worktrees : List (Uuid × List WorktreeRecord)) (ticketId : Text) : Option WorktreeRecord :=
  let start := "ticket/".toList ++ ticketId ++ "-".toList
  worktrees.findSome? (fun p => p.2.find? (fun w => w.removedAt.isNone && start.isPrefixOf w.branch))

end AgentGrove.TicketWorktrees

namespace AgentGrove.ClickUpFeed

open ClickUp (TicketRow ClickUpFilters clickup)
open Wire (Value)
open Worktrees (showInt)

/-- What comes back of a request. A body that is no JSON is `null`. -/
inductive Response where
  | success (body : Option Value)
  | status
  | failed

def textAt (path : List Text) (it : Value) : Option Text := (it.pointer path).bind Value.asStr

/-- The first member of an array under a key. -/
def firstOf (key : Text) (it : Value) : Option Value := ((it.get key).bind Value.asArray).bind List.head?

def mapClickupTask (it : Value) : TicketRow where
  provider := clickup
  id := (textAt ["id".toList] it).getD []
  title := (textAt ["name".toList] it).getD []
  status := (textAt ["status".toList, "status".toList] it).getD []
  url := (textAt ["url".toList] it).getD []
  labels := []
  assignee := (firstOf "assignees".toList it).bind (textAt ["username".toList])
  author := textAt ["creator".toList, "username".toList] it
  createdAt := textAt ["date_created".toList] it
  updatedAt := textAt ["date_updated".toList] it
  priority := textAt ["priority".toList, "priority".toList] it

/-- The id of an assignee is a number or a text. -/
def wantedId (wanted : List Text) (id : Value) : Bool :=
  wanted.any (fun want => id.asI64.map showInt == some want || id.asStr == some want)

def assigneeHit (wanted : List Text) (it : Value) : Bool :=
  match (it.get "assignees".toList).bind Value.asArray with
  | none => false
  | some arr => arr.any (fun a => ((a.get "id".toList).map (wantedId wanted)).getD false)

def statusHit (wanted : List Text) (it : Value) : Bool :=
  let st := toAsciiLowercase ((textAt ["status".toList, "status".toList] it).getD [])
  wanted.any (fun s => eqIgnoreAsciiCase s st)

/-- A clause that is empty matches everything. -/
def clickupTaskMatches (it : Value) (f : ClickUpFilters) : Bool :=
  (f.assignees.isEmpty || assigneeHit f.assignees it) && (f.statuses.isEmpty || statusHit f.statuses it)

def teamUrl : Text := "https://api.clickup.com/api/v2/team".toList

def clickupTeamId (get : Text → Response) : Option Text :=
  match get teamUrl with
  | .success body => (firstOf "teams".toList (body.getD .null)).bind (textAt ["id".toList])
  | .status | .failed => none

def pageUrl (base : Text) (page : Nat) : Text := base ++ "&page=".toList ++ showNat page

def tasksOf (body : Value) : List Value := ((body.get "tasks".toList).bind Value.asArray).getD []

def isLast (body : Value) : Bool := (body.get "last_page".toList).bind Value.asBool == some true

/-- The pages from one on, so many of them at most. -/
def fetchPages (get : Text → Response) (base : Text) : Nat → Nat → List Value
  | 0, _ => []
  | n + 1, page =>
    match get (pageUrl base page) with
    | .success body =>
      let arr := tasksOf (body.getD .null)
      if isLast (body.getD .null) || arr.length < 100 then arr else arr ++ fetchPages get base n (page + 1)
    | .status | .failed => []

def clickupFetchAllPages (get : Text → Response) (base : Text) : List Value := fetchPages get base 50 0

def query : Text := "/task?subtasks=true&include_closed=false".toList

def listBase (listId : Text) : Text := "https://api.clickup.com/api/v2/list/".toList ++ listId ++ query

def teamBase (teamId : Text) : Text := "https://api.clickup.com/api/v2/team/".toList ++ teamId ++ query

/-- Each fetch has answers of its own, as the tasks may change between two of them. -/
def listClickupTasks (get : Nat → Text → Response) (filters : ClickUpFilters) : List TicketRow :=
  let rows (raw : List Value) := (raw.filter (fun it => clickupTaskMatches it filters)).map mapClickupTask
  if !filters.lists.isEmpty then
    rows (filters.lists.zipIdx.flatMap (fun l => clickupFetchAllPages (get l.2) (listBase l.1)))
  else
    match clickupTeamId (get 0) with
    | none => []
    | some teamId => rows (clickupFetchAllPages (get 0) (teamBase teamId))

end AgentGrove.ClickUpFeed
