import AgentGrove.Coop.Machine
import AgentGrove.Model.AppStore
import AgentGrove.Model.Attachments
import Mathlib.Data.Char
import Mathlib.Data.List.Lex

namespace AgentGrove.App

open Assoc (Table)
open Attachments (jsTrim)

/-- The fields of a scope that are only kept for older clients. They stay as they were loaded. -/
structure Legacy where
  chats : List ChatTab := []
  terminals : List TerminalTab := []
  activeChat : Option Text := none
  activeTerminal : Option Text := none
  activeEditor : Option Text := none

def Blob.legacy (b : Blob) : Legacy where
  chats := b.chats
  terminals := b.terminals
  activeChat := b.activeChat
  activeTerminal := b.activeTerminal
  activeEditor := b.activeEditor

namespace UnifiedTab

def rename (title : Text) : UnifiedTab → UnifiedTab
  | chat id _ draft => chat id title draft
  | terminal id cwd _ => terminal id cwd title
  | editor id path _ => editor id path title
  | db id _ => db id title

def setDraft (draft : Text) : UnifiedTab → UnifiedTab
  | chat id title _ => chat id title (truthy (some draft))
  | tab => tab

end UnifiedTab

namespace Scope

def renameTab (tabId title : Text) (s : Scope) : Scope :=
  { s with tabs := changeFirst (fun t => t.id = tabId) (UnifiedTab.rename title) s.tabs }

def setChatDraft (chatId draft : Text) (s : Scope) : Scope :=
  { s with tabs := changeFirst (fun t => t.isChat && t.id = chatId) (UnifiedTab.setDraft draft) s.tabs }

/-- A scope as it is sent. -/
def blob (s : Scope) (legacy : Legacy) : Blob where
  tabs := s.tabs
  activeTab := s.activeTab
  activePane := s.activePane
  chatsHydrated := s.chatsHydrated
  chats := legacy.chats
  terminals := legacy.terminals
  activeChat := legacy.activeChat
  activeTerminal := legacy.activeTerminal
  activeEditor := legacy.activeEditor

end Scope

/-- What is before the first `::` of a key, and what comes behind it. -/
def splitOnce : Text → Text × Text
  | ':' :: ':' :: rest => ([], rest)
  | c :: rest => (c :: (splitOnce rest).1, (splitOnce rest).2)
  | [] => ([], [])

/-- The first two parts of `key.split("::")`. -/
def splitKey (key : Text) : Text × Text := ((splitOnce key).1, (splitOnce (splitOnce key).2).1)

/-- A call of `putScopeLayout`. -/
structure ScopePut where
  projectId : Text
  worktreeId : Text
  blob : Blob

def ScopePut.key (p : ScopePut) : Text := makeKey p.projectId (some p.worktreeId)

/-- A window, with the timers that write its layouts. -/
structure Window where
  store : Store
  legacy : Text → Legacy
  scopeWriteTimers : List Text

namespace Window

def scheduleScopeLayoutWrite (key : Text) (w : Window) : Window :=
  { w with scopeWriteTimers := key :: w.scopeWriteTimers.filter (· ≠ key) }

/-- A change of a scope schedules a write of it. Without a scope there is no change. -/
def change (key : Option Text) (store : Store) (w : Window) : Window :=
  match key with
  | some key => scheduleScopeLayoutWrite key { w with store }
  | none => w

def addTab (tab : UnifiedTab) (w : Window) : Window := w.change w.store.currentScopeKey (w.store.addTab tab)

def closeTab (tabId : Text) (w : Window) : Window :=
  if w.store.currentScope.any (fun scope => scope.has tabId) then
    w.change w.store.currentScopeKey (w.store.closeTab tabId)
  else w

def setActiveTab (tabId : Text) (w : Window) : Window :=
  w.change w.store.currentScopeKey (w.store.setActiveTab tabId)

def renameTab (tabId rawTitle : Text) (w : Window) : Window :=
  if (jsTrim rawTitle).isEmpty then w
  else w.change w.store.currentScopeKey (w.store.updateCurrent (Scope.renameTab tabId (jsTrim rawTitle)))

def setScopeChats (chats : List ChatTab) (forKey : Option Text) (w : Window) : Window :=
  w.change (truthy (forKey.or w.store.currentScopeKey)) (w.store.setScopeChats chats forKey)

def ensureChatTab (chatId : Text) (w : Window) : Window :=
  if w.store.currentScope.any (fun scope => scope.tabs.any (fun t => t.isChat && t.id = chatId)) then
    w.setActiveTab chatId
  else w.addTab (Scope.chatOf { id := chatId, title := "Chat".toList })

def setChatDraft (chatId draft : Text) (w : Window) : Window :=
  w.change w.store.currentScopeKey (w.store.updateCurrent (Scope.setChatDraft chatId draft))

def replaceTerminalId (oldId newId : Text) (w : Window) : Window :=
  w.change ((w.store.byScope.rows.find? (fun e => e.2.has oldId)).map Prod.fst) (w.store.replaceTerminalId oldId newId)

def selectProject (id : Text) (w : Window) : Window := { w with store := w.store.selectProject id }

def selectWorktree (projectId : Text) (worktreeId : Option Text) (w : Window) : Window :=
  { w with store := w.store.selectWorktree projectId worktreeId }

def reassert (projectId : Text) (worktreeId : Option Text) (chatId : Text) (w : Window) : Window :=
  if w.store.currentScopeKey = some (makeKey projectId worktreeId) then (w.ensureChatTab chatId).setActiveTab chatId
  else w

def goToChat (projectId : Text) (worktreeId : Option Text) (chatId : Text) (w : Window) : Window :=
  ((w.selectWorktree projectId worktreeId).ensureChatTab chatId).setActiveTab chatId

def writeScopeLayout (key : Text) (w : Window) : List ScopePut :=
  if (splitKey key).1.isEmpty then []
  else (w.store.byScope.get key).toList.map fun scope => ⟨(splitKey key).1, (splitKey key).2, scope.blob (w.legacy key)⟩

def clearTimer (key : Text) (w : Window) : Window :=
  { w with scopeWriteTimers := w.scopeWriteTimers.filter (· ≠ key) }

end Window

/-- What the functions of the store are called for. -/
inductive Act where
  | addTab (tab : UnifiedTab)
  | closeTab (tabId : Text)
  | setActiveTab (tabId : Text)
  | renameTab (tabId rawTitle : Text)
  | setScopeChats (chats : List ChatTab) (forKey : Option Text)
  | ensureChatTab (chatId : Text)
  | setChatDraft (chatId draft : Text)
  | replaceTerminalId (oldId newId : Text)
  | selectProject (id : Text)
  | selectWorktree (projectId : Text) (worktreeId : Option Text)
  | goToChat (projectId : Text) (worktreeId : Option Text) (chatId : Text)
  | reassert (projectId : Text) (worktreeId : Option Text) (chatId : Text)

def Window.act (w : Window) : Act → Window
  | .addTab tab => w.addTab tab
  | .closeTab tabId => w.closeTab tabId
  | .setActiveTab tabId => w.setActiveTab tabId
  | .renameTab tabId rawTitle => w.renameTab tabId rawTitle
  | .setScopeChats chats forKey => w.setScopeChats chats forKey
  | .ensureChatTab chatId => w.ensureChatTab chatId
  | .setChatDraft chatId draft => w.setChatDraft chatId draft
  | .replaceTerminalId oldId newId => w.replaceTerminalId oldId newId
  | .selectProject id => w.selectProject id
  | .selectWorktree projectId worktreeId => w.selectWorktree projectId worktreeId
  | .goToChat projectId worktreeId chatId => w.goToChat projectId worktreeId chatId
  | .reassert projectId worktreeId chatId => w.reassert projectId worktreeId chatId

/-- The table `layout_scope`, by project and worktree. -/
abbrev Layouts := Table (Text × Text) Blob

namespace Layouts

/-- `LayoutRepo::put_scope` behind its route, which refuses a blank project. -/
def putScope (t : Layouts) (p : ScopePut) : Layouts :=
  if (trim p.projectId).isEmpty then t else t.upsert (p.projectId, p.worktreeId) p.blob (fun _ => p.blob)

def before (a b : Text × Text) : Bool := if a.1 = b.1 then decide (a.2 ≤ b.2) else decide (a.1 ≤ b.1)

def listScopes (t : Layouts) : List ((Text × Text) × Blob) := t.rows.mergeSort (fun a b => before a.1 b.1)

/-- The scopes of the answer to `GET /api/layout`. -/
def getAll (t : Layouts) : List ScopeLayout := t.listScopes.map fun e => ⟨e.1.1, some e.1.2, e.2⟩

end Layouts

/-- A window whose store has loaded the layouts. -/
def Window.hydrated (s : Store) (scopes : List ScopeLayout) : Window where
  store := s.hydrateLayoutFromBackend scopes
  legacy key :=
    ((scopes.reverse.find? (fun l => makeKey l.projectId l.worktreeId = key)).map (fun l => l.blob.legacy)).getD {}
  scopeWriteTimers := []

/-- A window, its calls on their way, and what the server keeps of the layouts. -/
structure Desk where
  window : Window
  calls : List ScopePut
  layouts : Layouts

inductive Desk.Event where
  | act (a : Act)
  /-- A timer runs out. -/
  | fire (key : Text)
  | arrive (i : Nat)
  | lose (i : Nat)
  /-- Another client writes a layout. -/
  | other (p : ScopePut)
  /-- The page is loaded again, with its layouts if the server answers. -/
  | reload (s : Store) (answered : Bool)

def Desk.step (d : Desk) : Desk.Event → Option Desk
  | .act a => some { d with window := d.window.act a }
  | .fire key =>
    if d.window.scopeWriteTimers.contains key then
      some { d with window := d.window.clearTimer key, calls := d.calls ++ d.window.writeScopeLayout key }
    else none
  | .arrive i => d.calls[i]?.map fun p => { d with calls := d.calls.eraseIdx i, layouts := d.layouts.putScope p }
  | .lose i => d.calls[i]?.map fun _ => { d with calls := d.calls.eraseIdx i }
  | .other p => some { d with layouts := d.layouts.putScope p }
  | .reload s answered => some { d with window := .hydrated s (if answered then d.layouts.getAll else []) }

def desk : Coop.Machine Desk Desk.Event := ⟨Desk.step⟩

end AgentGrove.App
