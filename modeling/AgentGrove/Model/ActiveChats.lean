import AgentGrove.Coop.Machine
import AgentGrove.Model.AppStore
import AgentGrove.Model.Registry

namespace AgentGrove.Notify

open App (makeKey)
open Assoc (Table)

/-- A chat with a turn under way. -/
structure ActiveChat where
  chatId : Text
  projectId : Text
  worktreeId : Option Text
deriving DecidableEq

/-- `GET /api/chats/active`, with the set in the order its iterator has. -/
def activeChats (dispatching : List Uuid) (reg : ChatRegistry) : List ActiveChat :=
  dispatching.filterMap fun id => (reg.get id).map fun c =>
    ⟨showNat c.id, showNat c.projectId, c.worktreeId.map showNat⟩

/-- `Set.add`, which keeps the order of insertion. -/
def addOnce (set : List Text) (t : Text) : List Text := if t ∈ set then set else set ++ [t]

def chatIds (rows : List ActiveChat) : List Text := (rows.map ActiveChat.chatId).foldl addOnce []

def scopeKeys (rows : List ActiveChat) : List Text :=
  (rows.map fun row => makeKey row.projectId row.worktreeId).foldl addOnce []

def scopesOf (rows : List ActiveChat) : Table Text (Text × Option Text) :=
  rows.foldl (fun t row => t.upsert row.chatId (row.projectId, row.worktreeId) fun _ => (row.projectId, row.worktreeId))
    Table.empty

structure Toast where
  message : Text
  chatId : Text
  /-- Where "Go to chat" goes, if it is known. -/
  scope : Option (Text × Option Text)

/-- What a page knows of the chats at work. -/
structure Rail where
  store : App.Store
  activeWork : List Text
  completedScopes : List Text
  prevActiveChatIds : List Text
  activeChatScopes : Table Text (Text × Option Text)
  firstActivePoll : Bool

def findChatTab (chatId : Text) (s : App.Store) : Option Text :=
  s.byScope.rows.findSome? fun e => e.2.tabs.findSome? fun
    | .chat id title _ => if id = chatId then some title else none
    | _ => none

namespace Rail

def markScopeCompleted (r : Rail) (scope : Text × Option Text) : Rail :=
  if r.store.currentScopeKey = some (makeKey scope.1 scope.2) then r
  else { r with completedScopes := addOnce r.completedScopes (makeKey scope.1 scope.2) }

/-- The effect that runs whenever another scope is shown. -/
def clearScopeCompleted (r : Rail) : Rail :=
  match r.store.currentScopeKey with
  | some key => { r with completedScopes := r.completedScopes.filter (· ≠ key) }
  | none => r

/-- A page that has just been opened. Only the completed scopes are kept between pages. -/
def opened (store : App.Store) (completedScopes : List Text) : Rail :=
  clearScopeCompleted
    { store
      activeWork := []
      completedScopes
      prevActiveChatIds := []
      activeChatScopes := Table.empty
      firstActivePoll := true }

/-- The chats that have finished since the last poll, but for the one that is shown. -/
def finished (rows : List ActiveChat) (r : Rail) : List Text :=
  if r.firstActivePoll then []
  else r.prevActiveChatIds.filter fun id => !(chatIds rows).contains id && r.store.selectedChatId ≠ some id

def toast (r : Rail) (id : Text) : Toast where
  message :=
    match findChatTab id r.store with
    | some title => title ++ " has finished.".toList
    | none => "A background chat has finished.".toList
  chatId := id
  scope := r.activeChatScopes.get id

/-- What `poll` does once it has its rows. -/
def poll (rows : List ActiveChat) (r : Rail) : Rail × List Toast :=
  let done := r.finished rows
  let marked := (done.filterMap r.activeChatScopes.get).foldl markScopeCompleted { r with activeWork := scopeKeys rows }
  ({ marked with
      prevActiveChatIds := chatIds rows
      activeChatScopes := scopesOf rows
      firstActivePoll := false },
    done.map r.toast)

end Rail

/-- A page that polls a server. A poll on its way knows which of the server's answers it has got, if any. -/
structure Watch where
  rail : Rail
  history : List (List ActiveChat)
  polls : List (Option Nat)
  /-- The answers that have been taken in, in this order. -/
  taken : List Nat
  toasts : List Toast

inductive Watch.Event where
  /-- The server's set of dispatching chats, or its registry, changes. -/
  | server (dispatching : List Uuid) (reg : ChatRegistry)
  | ask
  | serve (i : Nat)
  | answer (i : Nat)
  | fail (i : Nat)
  /-- The user goes somewhere, or the tabs change. -/
  | navigate (store : App.Store)
  | reload (store : App.Store)

def Watch.step (w : Watch) : Watch.Event → Option Watch
  | .server dispatching reg => some { w with history := w.history ++ [activeChats dispatching reg] }
  | .ask => some { w with polls := w.polls ++ [none] }
  | .serve i =>
    match w.polls[i]? with
    | some none => some { w with polls := w.polls.set i (some (w.history.length - 1)) }
    | _ => none
  | .answer i =>
    match w.polls[i]? with
    | some (some n) =>
      let (rail, toasts) := w.rail.poll (w.history.getD n [])
      some { w with rail, polls := w.polls.eraseIdx i, taken := w.taken ++ [n], toasts := w.toasts ++ toasts }
    | _ => none
  | .fail i => w.polls[i]?.map fun _ => { w with polls := w.polls.eraseIdx i }
  | .navigate store => some { w with rail := Rail.clearScopeCompleted { w.rail with store } }
  | .reload store => some { w with rail := .opened store w.rail.completedScopes, polls := [] }

def Watch.start (store : App.Store) (dispatching : List Uuid) (reg : ChatRegistry) : Watch where
  rail := .opened store []
  history := [activeChats dispatching reg]
  polls := []
  taken := []
  toasts := []

def watch : Coop.Machine Watch Watch.Event := ⟨Watch.step⟩

end AgentGrove.Notify
