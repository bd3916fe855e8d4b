import AgentGrove.Model.Records
import AgentGrove.Wire.Tables

namespace AgentGrove.App

open Assoc (Table)

inductive PaneId where
  | chat
  | editor
  | terminal
  | notes
  | db
deriving DecidableEq

inductive UnifiedTab where
  | chat (id title : Text) (draft : Option Text)
  | terminal (id cwd label : Text)
  | editor (id path label : Text)
  | db (id label : Text)
deriving DecidableEq

namespace UnifiedTab

def id : UnifiedTab → Text
  | chat id _ _ => id
  | terminal id _ _ => id
  | editor id _ _ => id
  | db id _ => id

def isChat : UnifiedTab → Bool
  | chat .. => true
  | _ => false

def setId (id : Text) : UnifiedTab → UnifiedTab
  | chat _ title draft => chat id title draft
  | terminal _ cwd label => terminal id cwd label
  | editor _ path label => editor id path label
  | db _ label => db id label

def setTitle (title : Text) : UnifiedTab → UnifiedTab
  | chat id _ draft => chat id title draft
  | tab => tab

/-- One of several database tabs, of which there is only one now. -/
def staleDb : UnifiedTab → Bool
  | db id _ => id ≠ "db".toList
  | _ => false

end UnifiedTab

structure ChatTab where
  id : Text
  title : Text
  draft : Option Text := none
deriving DecidableEq

structure TerminalTab where
  id : Text
  cwd : Text
  label : Text
deriving DecidableEq

/-- The fields that are only kept for older clients are left out, but for one that a URL may still show. -/
structure Scope where
  tabs : List UnifiedTab := []
  activeTab : Option Text := none
  activePane : Option PaneId := none
  chatsHydrated : Bool := false
deriving DecidableEq

/-- A store, as far as scopes and their selection go. -/
structure Store where
  projects : List Text
  worktrees : Text → Option (List Text)
  selectedProjectId : Option Text
  selectedWorktreeByProject : Text → Option (Option Text)
  byScope : Table Text Scope

/-- Empty texts count as none. -/
def truthy (t : Option Text) : Option Text := t.filter (fun t => t ≠ [])

/-- The first element that a test holds of is changed. -/
def changeFirst {α : Type} (p : α → Bool) (f : α → α) : List α → List α
  | [] => []
  | x :: xs => if p x then f x :: xs else x :: changeFirst p f xs

namespace Scope

def has (s : Scope) (id : Text) : Bool := s.tabs.any (fun t => t.id = id)

def firstId (s : Scope) : Option Text := s.tabs.head?.map UnifiedTab.id

/-- Whether a tab is active that is not there. -/
def strayed (s : Scope) : Bool := (truthy s.activeTab).any (fun id => !s.has id)

def addTab (tab : UnifiedTab) (s : Scope) : Scope :=
  if s.has tab.id then { s with activeTab := some tab.id }
  else { s with tabs := s.tabs ++ [tab], activeTab := some tab.id }

def closeTab (tabId : Text) (s : Scope) : Scope :=
  match s.tabs.findIdx? (fun t => t.id = tabId) with
  | none => s
  | some idx =>
    let tabs := s.tabs.eraseIdx idx
    let neighbour := tabs[min idx (tabs.length - 1)]?.map UnifiedTab.id
    { s with tabs, activeTab := if s.activeTab = some tabId then neighbour else s.activeTab }

def setActiveTab (tabId : Text) (s : Scope) : Scope := { s with activeTab := some tabId }

def chatOf (c : ChatTab) : UnifiedTab := .chat c.id c.title (truthy c.draft)

/-- A chat of the list is retitled where it has a tab, and may get one where it has none. -/
def mergeChat (addAll : Bool) (s : Scope) (c : ChatTab) : Scope :=
  if s.tabs.any (fun t => t.id = c.id && t.isChat) then
    { s with tabs := changeFirst (fun t => t.id = c.id && t.isChat) (UnifiedTab.setTitle c.title) s.tabs }
  else if addAll || s.activeTab = some c.id then { s with tabs := s.tabs ++ [chatOf c] }
  else s

def setChats (chats : List ChatTab) (s : Scope) : Scope :=
  let kept := { s with tabs := s.tabs.filter (fun t => !t.isChat || chats.any (fun c => c.id = t.id)) }
  let addAll := !kept.tabs.any UnifiedTab.isChat && !chats.isEmpty
  let merged := chats.foldl (mergeChat addAll) kept
  let first :=
    if addAll && (truthy merged.activeTab).isNone && !merged.tabs.isEmpty then
      { merged with activeTab := merged.firstId }
    else merged
  let hydrated := { first with chatsHydrated := true }
  if hydrated.strayed then { hydrated with activeTab := hydrated.firstId } else hydrated

def replaceId (oldId newId : Text) (s : Scope) : Scope where
  tabs := changeFirst (fun t => t.id = oldId) (UnifiedTab.setId newId) s.tabs
  activeTab := if s.activeTab = some oldId then some newId else s.activeTab
  activePane := s.activePane
  chatsHydrated := s.chatsHydrated

end Scope

/-- What the server has stored of a scope, by any version of the client. -/
structure Blob where
  tabs : List UnifiedTab := []
  activeTab : Option Text := none
  activePane : Option PaneId := none
  chatsHydrated : Bool := false
  chats : List ChatTab := []
  terminals : List TerminalTab := []
  activeChat : Option Text := none
  activeTerminal : Option Text := none
  activeEditor : Option Text := none

structure ScopeLayout where
  projectId : Text
  worktreeId : Option Text
  blob : Blob

def fileId (path : Text) : Text := "file:".toList ++ path

def fileLabel (path : Text) : Text := (path.splitOn '/').getLast?.getD path

namespace Blob

/-- A layout of the time before the tabs were one list. -/
def old (b : Blob) : Bool :=
  b.tabs.isEmpty && (!b.chats.isEmpty || !b.terminals.isEmpty || (truthy b.activeEditor).isSome)

def migrated (b : Blob) : List UnifiedTab :=
  b.chats.map Scope.chatOf ++ b.terminals.map (fun t => .terminal t.id t.cwd t.label) ++
    (truthy b.activeEditor).toList.map (fun path => .editor (fileId path) path (fileLabel path))

def base (b : Blob) : Scope where
  tabs := b.tabs
  activeTab := b.activeTab
  activePane := b.activePane
  chatsHydrated := b.chatsHydrated

def unified (b : Blob) : Scope :=
  if b.old then
    { b.base with
      tabs := b.migrated
      activeTab := (truthy b.activeChat).or ((truthy b.activeTerminal).or (((truthy b.activeEditor).map fileId).or
        (b.migrated.head?.map UnifiedTab.id))) }
  else b.base

def resolved (b : Blob) : Scope :=
  if b.unified.tabs.any UnifiedTab.staleDb then
    let kept := { b.unified with tabs := b.unified.tabs.filter (fun t => !t.staleDb) }
    if kept.strayed then { kept with activeTab := kept.firstId } else kept
  else b.unified

end Blob

def makeKey (pid : Text) (wid : Option Text) : Text :=
  match truthy wid with
  | some wid => pid ++ "::".toList ++ wid
  | none => pid

namespace Store

def currentWorktreeId (s : Store) : Option Text :=
  (truthy s.selectedProjectId).bind (fun pid => (s.selectedWorktreeByProject pid).join)

def currentScopeKey (s : Store) : Option Text :=
  (truthy s.selectedProjectId).map (fun pid => makeKey pid s.currentWorktreeId)

def currentScope (s : Store) : Option Scope := s.currentScopeKey.bind s.byScope.get

def activeTab (s : Store) : Option UnifiedTab :=
  s.currentScope.bind fun scope => (truthy scope.activeTab).bind fun id => scope.tabs.find? (fun t => t.id = id)

def selectedFilePath (s : Store) : Option Text :=
  match s.activeTab with
  | some (.editor _ path _) => some path
  | _ => none

def selectedChatId (s : Store) : Option Text :=
  match s.activeTab with
  | some (.chat id _ _) => some id
  | _ => none

def ensureScope (key : Text) (s : Store) : Store :=
  match s.byScope.get key with
  | some _ => s
  | none => { s with byScope := s.byScope.upsert key {} (fun scope => scope) }

/-- A scope that is not there is not changed. -/
def update (key : Text) (f : Scope → Scope) (s : Store) : Store :=
  match s.byScope.get key with
  | some scope => { s with byScope := s.byScope.upsert key (f scope) (fun _ => f scope) }
  | none => s

/-- A change of the current scope, if there is one. -/
def updateCurrent (f : Scope → Scope) (s : Store) : Store :=
  match s.currentScopeKey with
  | some key => s.update key f
  | none => s

def addTab (tab : UnifiedTab) (s : Store) : Store :=
  match s.currentScopeKey with
  | some key => (s.ensureScope key).update key (Scope.addTab tab)
  | none => s

def closeTab (tabId : Text) (s : Store) : Store := s.updateCurrent (Scope.closeTab tabId)

def setActiveTab (tabId : Text) (s : Store) : Store := s.updateCurrent (Scope.setActiveTab tabId)

def selectFile (path : Text) (s : Store) : Store := s.addTab (.editor (fileId path) path (fileLabel path))

def addChatTab (chat : ChatTab) (s : Store) : Store := s.addTab (Scope.chatOf chat)

def setScopeChats (chats : List ChatTab) (forKey : Option Text) (s : Store) : Store :=
  match truthy (forKey.or s.currentScopeKey) with
  | some key => (s.ensureScope key).update key (Scope.setChats chats)
  | none => s

def ensureChatTab (chatId : Text) (s : Store) : Store :=
  match s.currentScopeKey with
  | none => s
  | some _ =>
    if s.currentScope.any (fun scope => scope.tabs.any (fun t => t.isChat && t.id = chatId)) then s.setActiveTab chatId
    else s.addChatTab { id := chatId, title := "Chat".toList }

def ensureCurrent (s : Store) : Store :=
  match s.currentScopeKey with
  | some key => s.ensureScope key
  | none => s

def selectProject (id : Text) (s : Store) : Store :=
  ensureCurrent
    { s with
      selectedProjectId := some id
      selectedWorktreeByProject := fun pid =>
        if pid = id then (s.selectedWorktreeByProject id).or (some none) else s.selectedWorktreeByProject pid }

def selectWorktree (projectId : Text) (worktreeId : Option Text) (s : Store) : Store :=
  ensureCurrent
    { s with
      selectedProjectId := some projectId
      selectedWorktreeByProject := fun pid =>
        if pid = projectId then some worktreeId else s.selectedWorktreeByProject pid }

/-- The navigation is made again a little later, if it still stands. -/
def reassert (projectId : Text) (worktreeId : Option Text) (chatId : Text) (s : Store) : Store :=
  if s.currentScopeKey = some (makeKey projectId worktreeId) then (s.ensureChatTab chatId).setActiveTab chatId else s

def goToChat (projectId : Text) (worktreeId : Option Text) (chatId : Text) (s : Store) : Store :=
  ((s.selectWorktree projectId worktreeId).ensureChatTab chatId).setActiveTab chatId

def replaceTerminalId (oldId newId : Text) (s : Store) : Store :=
  match s.byScope.rows.find? (fun e => e.2.has oldId) with
  | some (key, _) => s.update key (Scope.replaceId oldId newId)
  | none => s

/-- One turn of the loop. A stored pane stays where the blob has none. -/
def hydrateScope (s : Store) (l : ScopeLayout) : Store :=
  { s with
    byScope := s.byScope.upsert (makeKey l.projectId l.worktreeId) l.blob.resolved
      (fun scope => { l.blob.resolved with activePane := l.blob.activePane.or scope.activePane }) }

def hydrateLayoutFromBackend (scopes : List ScopeLayout) (s : Store) : Store := scopes.foldl hydrateScope s

end Store

end AgentGrove.App
