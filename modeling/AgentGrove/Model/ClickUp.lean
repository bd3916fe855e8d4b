import AgentGrove.Coop.Pool
import AgentGrove.Model.Records
import Mathlib.Order.Lattice.Nat
import Mathlib.Order.BoundedOrder.Lattice

namespace AgentGrove.ClickUp

open Coop

/-- A single ticket in the aggregated view. -/
structure TicketRow where
  provider : Text
  id : Text
  title : Text
  status : Text
  url : Text
  labels : List Text
  assignee : Option Text
  author : Option Text
  createdAt : Option Text
  updatedAt : Option Text
  priority : Option Text
deriving DecidableEq

/-- A decrypted row of `integration_tokens`. -/
structure IntegrationToken where
  accessToken : Text
  refreshToken : Option Text
  tokenType : Option Text
  scope : Option Text
  userName : Option Text
  userId : Option Text
  expiresAt : Option Int
deriving DecidableEq

/-- The task-feed filters. All empty is the whole workspace. -/
structure ClickUpFilters where
  lists : List Text := []
  assignees : List Text := []
  statuses : List Text := []
deriving DecidableEq

/-- What the filters' code uses of `serde_json`. -/
structure FiltersCodec where
  toText : ClickUpFilters → Text
  fromStr : Text → Option ClickUpFilters

inductive Status where
  | noContent
  | badRequest
  | notFound
  | internalServerError
  | badGateway
deriving DecidableEq

abbrev Failure := Status × Text

/-- What a list of tasks is fetched of. -/
inductive Input where
  | key
  | filters
  | tasks
deriving DecidableEq

/-- How often each of them has been changed. -/
abbrev Version := Input → Nat

instance : DecidableLE Version := fun v u =>
  decidable_of_iff (v .key ≤ u .key ∧ v .filters ≤ u .filters ∧ v .tasks ≤ u .tasks)
    ⟨fun h i => by cases i <;> simp_all, fun h => ⟨h _, h _, h _⟩⟩

/-- What `list_clickup` answers, with what it was fetched of if it was fetched. -/
structure Listed where
  rows : List TicketRow
  read : Option Version

/-- An answer of `list_clickup`, with the changes that had been answered when it was asked. -/
structure Shown where
  owed : Version
  listed : Listed

/-- The shared state. The last six fields record what happened: the changes so far, the
one that the stored key dates from, what the cached list was fetched of, the changes for
which the cache was dropped, those that were answered, and the answers of `list_clickup`. -/
structure Hub where
  projects : List Text
  tokens : Text → Option IntegrationToken
  clickupCache : Option (List TicketRow × Nat)
  worktrees : List (Text × Text)
  version : Version
  keyAt : Nat
  cachedOf : Version
  cleared : Version
  answered : Version
  shown : List Shown

/-- The suspension points. The store of a fetched list is told apart by what it was
fetched of, and a save by the key that it writes back, if it does. -/
inductive Site where
  | lookup
  | token
  | filters
  | fetch
  | store (read : Version)
  | project
  | worktree
  | start
  | validate
  | save (back : Option Nat)
  | delete
  | drop

/-- How the validation of a new key went. -/
inductive KeyCheck where
  | unreachable (e : Text)
  | rejected
  | undecodable (e : Text)
  | user (name id : Option Text)

/-- What the world decides at one await. -/
structure Choice where
  fail : Bool := false
  now : Nat := 0
  rows : List TicketRow := []
  created : Except Failure Unit := .ok ()
  check : KeyCheck := .rejected
  error : Text := []

inductive Request where
  | listClickup
  | putClickupFilters (body : ClickUpFilters)
  | workOnClickup (taskId projectId : Text)
  | saveClickupKey (apiKey : Text)
  | disconnect (provider : Text)

abbrev HubProg (α : Type) := Prog Site Unit Choice Hub α

def call {β : Type} (site : Site) (act : Choice → Hub → Hub × β) : HubProg β :=
  .await site (fun w s => some (act w s)) .ret

def atOnce {β : Type} (act : Hub → Hub × β) : HubProg β := .sync act .ret

def clickup : Text := "clickup".toList

/-- `CLICKUP_CACHE_TTL`, in milliseconds. -/
def clickupCacheTtl : Nat := 60000

def freshRows : HubProg (Option Listed) :=
  call .lookup (fun w s => (s, (s.clickupCache.filter (fun c => w.now - c.2 < clickupCacheTtl)).map
    (fun c => ⟨c.1, some s.cachedOf⟩)))

/-- `get_token`, with the change its key dates from. A row that cannot be read is no row. -/
def getToken (provider : Text) : HubProg (Option (IntegrationToken × Nat)) :=
  call .token (fun w s => (s, if w.fail then none else (s.tokens provider).map (fun t => (t, s.keyAt))))

def loadToken (provider : Text) : HubProg (Option (Text × Nat)) := do
  return (← getToken provider).map (fun t => (t.1.accessToken, t.2))

section

variable (K : FiltersCodec)

/-- The filters in a row, if there are any. -/
def parseFilters (t : Option IntegrationToken) : ClickUpFilters :=
  (((t.bind IntegrationToken.scope).filter (fun s => !s.isEmpty)).bind K.fromStr).getD {}

/-- `clickup_filters`. The fetch with the key and with them begins at once, so that this is
what it is a fetch of. -/
def clickupFilters (key : Nat) : HubProg (ClickUpFilters × Version) :=
  call .filters (fun w s => (s, parseFilters K (if w.fail then none else s.tokens clickup),
    Function.update s.version .key key))

/-- ClickUp's answer to a fetch, and the instant at which it is there. -/
def listClickupTasks (_tok : Text) (_filters : ClickUpFilters) : HubProg (List TicketRow × Nat) :=
  call .fetch (fun w s => (s, w.rows, w.now))

def storeRows (rows : List TicketRow) (at_ : Nat) (read : Version) : HubProg Unit :=
  call (.store read) (fun _ s => ({ s with clickupCache := some (rows, at_), cachedOf := read }, ()))

def listClickup : HubProg Listed := do
  match ← freshRows with
  | some listed => return listed
  | none =>
    match ← loadToken clickup with
    | none => return { rows := [], read := none }
    | some (tok, key) =>
      let (filters, read) ← clickupFilters K key
      let (rows, at_) ← listClickupTasks tok filters
      storeRows rows at_ read
      return { rows := rows, read := some read }

/-- The change of these inputs that comes next. -/
def Hub.next (s : Hub) (inputs : Input → Bool) : Version :=
  fun i => if inputs i then s.version i + 1 else 0

/-- That change has happened. -/
def Hub.change (s : Hub) (inputs : Input → Bool) : Hub :=
  { s with version := s.version ⊔ s.next inputs }

/-- A new key comes with new filters. -/
def account : Input → Bool
  | .key | .filters => true
  | .tasks => false

/-- `save_token`. A row that is written back has the key that was read. -/
def saveToken (provider : Text) (t : IntegrationToken) (back : Option Nat) :
    HubProg (Except Text Version) :=
  let inputs := if back.isSome then (· == .filters) else account
  call (.save back) (fun w s =>
    if w.fail then (s, .error w.error)
    else
      ({ s.change inputs with
        tokens := Function.update s.tokens provider
          (some { t with refreshToken := t.refreshToken.filter (fun r => !r.isEmpty) })
        keyAt := back.getD (s.next inputs .key) }, .ok (s.next inputs)))

def deleteToken (provider : Text) : HubProg (Except Text Version) :=
  call .delete (fun w s =>
    if w.fail then (s, .error w.error)
    else if provider = clickup then
      ({ s.change account with
        tokens := Function.update s.tokens provider none
        keyAt := s.next account .key }, .ok (s.next account))
    else ({ s with tokens := Function.update s.tokens provider none }, .ok ⊥))

/-- `*state.clickup_cache.lock().await = None`, after this change. -/
def dropCache (changed : Version) : HubProg Unit :=
  call .drop (fun _ s => ({ s with clickupCache := none, cleared := s.cleared ⊔ changed }, ()))

def notBlank (t : Text) : Bool := !(trim t).isEmpty

/-- Blanks are dropped, so that an all-empty config stores no scope. -/
def ClickUpFilters.normalize (f : ClickUpFilters) : ClickUpFilters where
  lists := f.lists.filter notBlank
  assignees := f.assignees.filter notBlank
  statuses := f.statuses.filter notBlank

def ClickUpFilters.isEmpty (f : ClickUpFilters) : Bool :=
  f.lists.isEmpty && f.assignees.isEmpty && f.statuses.isEmpty

def putClickupFilters (body : ClickUpFilters) : HubProg (Except Failure Version) := do
  match ← getToken clickup with
  | none => return .error (.badRequest, "clickup not connected".toList)
  | some (tok, key) =>
    let filters := body.normalize
    let scope := if filters.isEmpty then none else some (K.toText filters)
    match ← saveToken clickup { tok with scope := scope } (some key) with
    | .error e => return .error (.internalServerError, "save: ".toList ++ e)
    | .ok changed =>
      dropCache changed
      return .ok changed

/-- Lowercase and hyphenated, before it is cut. -/
def hyphenate : Text → Text → Text
  | slug, [] => slug
  | slug, c :: title =>
    if c.isAlphanum then hyphenate (slug ++ [c.toLower]) title
    else if slug.getLast? ≠ some '-' ∧ slug ≠ [] then hyphenate (slug ++ ['-']) title
    else hyphenate slug title

def slugify (title : Text) : Text :=
  (((hyphenate [] title).rdropWhile (· == '-')).take 40).rdropWhile (· == '-')

def getProject (id : Text) : HubProg (Except Failure Unit) :=
  call .project (fun w s => (s,
    if w.fail then .error (.internalServerError, "db: ".toList ++ w.error)
    else if id ∈ s.projects then .ok ()
    else .error (.notFound, "project ".toList ++ id ++ " not found".toList)))

/-- `worktrees::create`, of which only the outcome matters here. -/
def createWorktree (projectId branch : Text) : HubProg (Except Failure Unit) :=
  call .worktree (fun w s =>
    match w.created with
    | .ok () => ({ s with worktrees := s.worktrees ++ [(projectId, branch)] }, .ok ())
    | .error e => (s, .error e))

/-- The task is assigned and in progress, if ClickUp has let us. -/
def clickupStartTask (_taskId _token : Text) : HubProg Version :=
  call .start (fun _ s => (s.change (· == .tasks), s.next (· == .tasks)))

def workOnClickup (taskId projectId : Text) : HubProg (Except Failure Version) := do
  match ← getProject projectId with
  | .error e => return .error e
  | .ok () =>
    match ← loadToken clickup with
    | none => return .error (.badRequest, "clickup not connected".toList)
    | some (tok, _) =>
      let (rows, _) ← listClickupTasks tok {}
      let title := ((rows.find? (fun t => t.id = taskId)).map TicketRow.title).getD []
      let branch := "ticket/".toList ++ taskId ++ "-".toList ++ slugify title
      match ← createWorktree projectId branch with
      | .error e => return .error e
      | .ok () =>
        let changed ← clickupStartTask taskId tok
        dropCache changed
        return .ok changed

def validate (_apiKey : Text) : HubProg KeyCheck := call .validate (fun w s => (s, w.check))

def saveClickupKey (apiKey : Text) : HubProg (Except Failure Version) := do
  if (trim apiKey).isEmpty then return .error (.badRequest, "api_key must not be empty".toList)
  else
    match ← validate (trim apiKey) with
    | .unreachable e => return .error (.badGateway, "ClickUp request failed: ".toList ++ e)
    | .rejected => return .error (.badRequest, "ClickUp rejected the API key".toList)
    | .undecodable e => return .error (.badGateway, "ClickUp user decode failed: ".toList ++ e)
    | .user name id =>
      let row : IntegrationToken :=
        { accessToken := trim apiKey, refreshToken := none, tokenType := none, scope := none
          userName := name, userId := id, expiresAt := none }
      match ← saveToken clickup row none with
      | .error e => return .error (.internalServerError, "failed to persist key: ".toList ++ e)
      | .ok changed =>
        dropCache changed
        return .ok changed

def disconnect (provider : Text) : HubProg (Except Failure Version) := do
  match ← deleteToken provider with
  | .error _ => return .error (.internalServerError, [])
  | .ok changed =>
    if provider = clickup then dropCache changed
    return .ok changed

/-- A request that changes something has its answer. -/
def settle : Except Failure Version → HubProg Unit
  | .ok changed => atOnce (fun s => ({ s with answered := s.answered ⊔ changed }, ()))
  | .error _ => return ()

def handle : Request → HubProg Unit
  | .listClickup => do
    let owed ← atOnce (fun s => (s, s.answered))
    let listed ← listClickup K
    atOnce (fun s => ({ s with shown := s.shown ++ [⟨owed, listed⟩] }, ()))
  | .putClickupFilters body => do settle (← putClickupFilters K body)
  | .workOnClickup taskId projectId => do settle (← workOnClickup taskId projectId)
  | .saveClickupKey apiKey => do settle (← saveClickupKey apiKey)
  | .disconnect provider => do settle (← disconnect provider)

def entry (request : Request) : Thread Site Unit Choice Hub := ⟨(), handle K request⟩

end

/-- A server that has just started. -/
def boot (projects : List Text) (tokens : Text → Option IntegrationToken) : Hub where
  projects := projects
  tokens := tokens
  clickupCache := none
  worktrees := []
  version := ⊥
  keyAt := 0
  cachedOf := ⊥
  cleared := ⊥
  answered := ⊥
  shown := []

end AgentGrove.ClickUp
