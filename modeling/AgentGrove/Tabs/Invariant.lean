import AgentGrove.Proofs.Basic
import AgentGrove.Tabs.Chats
import AgentGrove.Tabs.Layouts

namespace AgentGrove.App

open Assoc (Table)

namespace Store

variable {s : Store} {key : Text} {f : Scope → Scope}

def ValidAt (s : Store) (key : Text) : Prop := ∀ scope, s.byScope.get key = some scope → scope.Valid

/-- Every scope has one tab for each id, and its active tab among them. -/
def Valid (s : Store) : Prop := ∀ key, s.ValidAt key

section Updating

theorem get_update (other : Text) : (s.update key f).byScope.get other =
    if other = key then (s.byScope.get key).map f else s.byScope.get other := by
  unfold update
  cases h : s.byScope.get key with
  | none =>
    dsimp only
    split
    · rename_i he
      rw [he, h, Option.map_none]
    · rfl
  | some scope =>
    dsimp only
    rw [Table.get_upsert, h]
    by_cases he : other = key <;> simp [he]

theorem get_ensureScope (other : Text) : (s.ensureScope key).byScope.get other =
    if other = key then some ((s.byScope.get key).getD {}) else s.byScope.get other := by
  unfold ensureScope
  cases h : s.byScope.get key with
  | none =>
    dsimp only
    rw [Table.get_upsert, h]
    by_cases he : other = key <;> simp [he]
  | some scope =>
    dsimp only
    split
    · rename_i he
      rw [he, h, Option.getD_some]
    · rfl

@[simp] theorem currentScopeKey_update : (s.update key f).currentScopeKey = s.currentScopeKey := by
  unfold update
  split <;> rfl

@[simp] theorem currentScopeKey_ensureScope : (s.ensureScope key).currentScopeKey = s.currentScopeKey := by
  unfold ensureScope
  split <;> rfl

theorem update_valid_iff (hs : s.Valid) :
    (s.update key f).Valid ↔ ∀ scope, s.byScope.get key = some scope → (f scope).Valid := by
  constructor
  · intro h scope hscope
    refine h key _ ?_
    rw [get_update, if_pos rfl, hscope, Option.map_some]
  · intro h other scope hscope
    rw [get_update] at hscope
    split at hscope
    · obtain ⟨before, hbefore, rfl⟩ := Option.map_eq_some_iff.mp hscope
      exact h before hbefore
    · exact hs other scope hscope

theorem Valid.getD (hs : s.Valid) (key : Text) : ((s.byScope.get key).getD {}).Valid := by
  cases h : s.byScope.get key with
  | none => exact Scope.valid_fresh
  | some scope => exact hs key scope h

theorem Valid.ensureScope (hs : s.Valid) (key : Text) : (s.ensureScope key).Valid := by
  intro other scope hscope
  rw [get_ensureScope] at hscope
  split at hscope
  · cases hscope
    exact hs.getD key
  · exact hs other scope hscope

theorem ensured_valid_iff (hs : s.Valid) :
    ((s.ensureScope key).update key f).Valid ↔ (f ((s.byScope.get key).getD {})).Valid := by
  rw [update_valid_iff (hs.ensureScope key)]
  simp [get_ensureScope]

end Updating

section Tabs

theorem Valid.addTab (hs : s.Valid) (tab : UnifiedTab) : (s.addTab tab).Valid := by
  unfold Store.addTab
  split
  · exact (ensured_valid_iff hs).mpr ((hs.getD _).addTab tab)
  · exact hs

theorem Valid.closeTab (hs : s.Valid) (tabId : Text) : (s.closeTab tabId).Valid := by
  unfold Store.closeTab updateCurrent
  split
  · exact (update_valid_iff hs).mpr fun scope h => (hs _ scope h).closeTab tabId
  · exact hs

theorem setActiveTab_valid_iff (hs : s.Valid) (tabId : Text) :
    (s.setActiveTab tabId).Valid ↔ ∀ scope, s.currentScope = some scope → tabId ∈ scope.ids := by
  unfold setActiveTab updateCurrent currentScope
  cases h : s.currentScopeKey with
  | none => simp [hs]
  | some key =>
    dsimp only
    rw [update_valid_iff hs, Option.bind_some]
    exact forall₂_congr fun scope hscope => Scope.setActiveTab_valid_iff (hs key scope hscope) tabId

theorem setScopeChats_valid_iff (hs : s.Valid) (chats : List ChatTab) (forKey : Option Text) :
    (s.setScopeChats chats forKey).Valid ↔
      ∀ key, truthy (forKey.or s.currentScopeKey) = some key → ((s.byScope.get key).getD {}).Settles chats := by
  unfold setScopeChats
  cases h : truthy (forKey.or s.currentScopeKey) with
  | none => simp [hs]
  | some key =>
    dsimp only
    rw [ensured_valid_iff hs, Scope.setChats_valid_iff (hs.getD key)]
    simp

theorem Valid.ensureCurrent (hs : s.Valid) : s.ensureCurrent.Valid := by
  unfold Store.ensureCurrent
  split
  · exact hs.ensureScope _
  · exact hs

theorem Valid.selectProject (hs : s.Valid) (id : Text) : (s.selectProject id).Valid :=
  @Valid.ensureCurrent { s with selectedProjectId := _, selectedWorktreeByProject := _ } hs

theorem Valid.selectWorktree (hs : s.Valid) (pid : Text) (wid : Option Text) : (s.selectWorktree pid wid).Valid :=
  @Valid.ensureCurrent { s with selectedProjectId := _, selectedWorktreeByProject := _ } hs

theorem addTab_currentScope (tab : UnifiedTab) : (s.addTab tab).currentScope =
    s.currentScopeKey.map fun key => ((s.byScope.get key).getD {}).addTab tab := by
  unfold addTab currentScope
  cases h : s.currentScopeKey with
  | none => simp [h]
  | some key => simp [h, get_update, get_ensureScope]

theorem updateCurrent_currentScope : (s.updateCurrent f).currentScope = s.currentScope.map f := by
  unfold updateCurrent currentScope
  cases h : s.currentScopeKey with
  | none => simp [h]
  | some key => simp [h, get_update]

theorem mem_ids_of_chat {scope : Scope} {chatId : Text}
    (h : scope.tabs.any (fun t => t.isChat && t.id = chatId) = true) : chatId ∈ scope.ids := by
  obtain ⟨t, ht, hid⟩ := List.any_eq_true.mp h
  simp only [Bool.and_eq_true, decide_eq_true_eq] at hid
  exact Scope.mem_ids.mpr ⟨t, ht, hid.2⟩

/-- A chat that has been made sure of may be activated. -/
theorem ensureChatTab_has {chatId : Text} {scope : Scope} (h : (s.ensureChatTab chatId).currentScope = some scope) :
    chatId ∈ scope.ids := by
  unfold ensureChatTab at h
  split at h
  · rename_i hkey
    rw [currentScope, hkey] at h
    cases h
  split at h
  · rename_i hany
    rw [setActiveTab, updateCurrent_currentScope] at h
    obtain ⟨before, hbefore, rfl⟩ := Option.map_eq_some_iff.mp h
    rw [hbefore, Option.any_some] at hany
    exact mem_ids_of_chat hany
  · rw [addChatTab, addTab_currentScope] at h
    obtain ⟨key, -, rfl⟩ := Option.map_eq_some_iff.mp h
    exact Scope.addTab_has (Scope.chatOf { id := chatId, title := "Chat".toList })

theorem Valid.ensureChatTab (hs : s.Valid) (chatId : Text) : (s.ensureChatTab chatId).Valid := by
  unfold Store.ensureChatTab
  split
  · exact hs
  split
  · rename_i hany
    refine (setActiveTab_valid_iff hs chatId).mpr fun scope hscope => ?_
    rw [hscope, Option.any_some] at hany
    exact mem_ids_of_chat hany
  · exact hs.addTab _

theorem Valid.openChat (hs : s.Valid) (chatId : Text) : ((s.ensureChatTab chatId).setActiveTab chatId).Valid :=
  (setActiveTab_valid_iff (hs.ensureChatTab chatId) chatId).mpr fun _ h => ensureChatTab_has h

theorem Valid.reassert (hs : s.Valid) (pid : Text) (wid : Option Text) (chatId : Text) :
    (s.reassert pid wid chatId).Valid := by
  unfold Store.reassert
  split
  · exact hs.openChat chatId
  · exact hs

theorem replaceTerminalId_valid_iff (hs : s.Valid) (oldId newId : Text) : (s.replaceTerminalId oldId newId).Valid ↔
    ∀ e, s.byScope.rows.find? (fun e => e.2.has oldId) = some e → newId = oldId ∨ newId ∉ e.2.ids := by
  unfold replaceTerminalId
  cases h : s.byScope.rows.find? (fun e => e.2.has oldId) with
  | none => simp [hs]
  | some e =>
    obtain ⟨key, scope⟩ := e
    have hget : s.byScope.get key = some scope := Table.mem_rows.mp (List.mem_of_find?_eq_some h)
    have hold : scope.has oldId = true := @List.find?_some (Text × Scope) (fun e => e.2.has oldId) _ _ h
    dsimp only
    rw [update_valid_iff hs, hget]
    simp only [Option.some.injEq, forall_eq']
    exact Scope.replaceId_valid_iff (hs key scope hget) (Scope.has_iff.mp hold)

end Tabs

section Hydrating

variable {scopes : List ScopeLayout} {l : ScopeLayout}

/-- The layout that a snapshot leaves in a scope is its last one. -/
def layoutFor (scopes : List ScopeLayout) (key : Text) : Option ScopeLayout :=
  scopes.reverse.find? (fun l => makeKey l.projectId l.worktreeId = key)

theorem hydrateScope_validAt_iff : (s.hydrateScope l).ValidAt key ↔
    if makeKey l.projectId l.worktreeId = key then l.blob.Coherent else s.ValidAt key := by
  unfold ValidAt hydrateScope
  dsimp only
  rw [Table.get_upsert]
  by_cases hkey : makeKey l.projectId l.worktreeId = key
  · subst hkey
    rw [if_pos (beq_self_eq_true _), if_pos rfl, ← Blob.resolved_valid_iff]
    cases s.byScope.get (makeKey l.projectId l.worktreeId) with
    | none => simp
    | some scope =>
      simp only [Option.map_some, Option.getD_some, Option.some.injEq, forall_eq']
      exact ⟨fun h => ⟨h.distinct, h.active⟩, fun h => ⟨h.distinct, h.active⟩⟩
  · have hne : ¬ (key == makeKey l.projectId l.worktreeId) = true := by simpa using fun h => hkey h.symm
    rw [if_neg hne, if_neg hkey]

theorem hydrate_validAt_iff : (s.hydrateLayoutFromBackend scopes).ValidAt key ↔
    match layoutFor scopes key with
    | some l => l.blob.Coherent
    | none => s.ValidAt key := by
  unfold hydrateLayoutFromBackend layoutFor
  induction scopes using List.reverseRecOn with
  | nil => exact Iff.rfl
  | append_singleton scopes l ih =>
    rw [List.foldl_append, List.foldl_cons, List.foldl_nil, hydrateScope_validAt_iff, ih, List.reverse_append,
      List.reverse_singleton, List.singleton_append, List.find?_cons]
    by_cases hkey : makeKey l.projectId l.worktreeId = key <;> simp [hkey]

theorem hydrate_valid_iff (hs : s.Valid) : (s.hydrateLayoutFromBackend scopes).Valid ↔
    ∀ key l, layoutFor scopes key = some l → l.blob.Coherent := by
  refine forall_congr' fun key => ?_
  rw [hydrate_validAt_iff]
  cases layoutFor scopes key with
  | none => simp [hs key]
  | some l => simp

end Hydrating

end Store

inductive Op where
  | addTab (tab : UnifiedTab)
  | closeTab (tabId : Text)
  | setActiveTab (tabId : Text)
  | setScopeChats (chats : List ChatTab) (forKey : Option Text)
  | ensureChatTab (chatId : Text)
  | goToChat (projectId : Text) (worktreeId : Option Text) (chatId : Text)
  | reassert (projectId : Text) (worktreeId : Option Text) (chatId : Text)
  | replaceTerminalId (oldId newId : Text)
  | hydrateLayoutFromBackend (scopes : List ScopeLayout)
  | selectProject (id : Text)
  | selectWorktree (projectId : Text) (worktreeId : Option Text)

def exec (s : Store) : Op → Store
  | .addTab tab => s.addTab tab
  | .closeTab tabId => s.closeTab tabId
  | .setActiveTab tabId => s.setActiveTab tabId
  | .setScopeChats chats forKey => s.setScopeChats chats forKey
  | .ensureChatTab chatId => s.ensureChatTab chatId
  | .goToChat pid wid chatId => s.goToChat pid wid chatId
  | .reassert pid wid chatId => s.reassert pid wid chatId
  | .replaceTerminalId oldId newId => s.replaceTerminalId oldId newId
  | .hydrateLayoutFromBackend scopes => s.hydrateLayoutFromBackend scopes
  | .selectProject id => s.selectProject id
  | .selectWorktree pid wid => s.selectWorktree pid wid

/-- An operation is used as it is meant: an id that is written is the id of one tab. -/
def Fine (s : Store) : Op → Prop
  | .setActiveTab tabId => ∀ scope, s.currentScope = some scope → tabId ∈ scope.ids
  | .setScopeChats chats forKey =>
    ∀ key, truthy (forKey.or s.currentScopeKey) = some key → ((s.byScope.get key).getD {}).Settles chats
  | .replaceTerminalId oldId newId =>
    ∀ e, s.byScope.rows.find? (fun e => e.2.has oldId) = some e → newId = oldId ∨ newId ∉ e.2.ids
  | .hydrateLayoutFromBackend scopes => ∀ key l, Store.layoutFor scopes key = some l → l.blob.Coherent
  | _ => True

theorem exec_valid_iff (s : Store) (op : Op) (hs : s.Valid) : (exec s op).Valid ↔ Fine s op := by
  cases op with
  | addTab tab => exact iff_of_true (hs.addTab tab) trivial
  | closeTab tabId => exact iff_of_true (hs.closeTab tabId) trivial
  | setActiveTab tabId => exact Store.setActiveTab_valid_iff hs tabId
  | setScopeChats chats forKey => exact Store.setScopeChats_valid_iff hs chats forKey
  | ensureChatTab chatId => exact iff_of_true (hs.ensureChatTab chatId) trivial
  | goToChat pid wid chatId => exact iff_of_true ((hs.selectWorktree pid wid).openChat chatId) trivial
  | reassert pid wid chatId => exact iff_of_true (hs.reassert pid wid chatId) trivial
  | replaceTerminalId oldId newId => exact Store.replaceTerminalId_valid_iff hs oldId newId
  | hydrateLayoutFromBackend scopes => exact Store.hydrate_valid_iff hs
  | selectProject id => exact iff_of_true (hs.selectProject id) trivial
  | selectWorktree pid wid => exact iff_of_true (hs.selectWorktree pid wid) trivial

/-- The store of a client that has just started; what is selected comes from the address. -/
def freshStore (projects : List Text) (worktrees : Text → Option (List Text)) (pid : Option Text)
    (wids : Text → Option (Option Text)) : Store :=
  ⟨projects, worktrees, pid, wids, Table.empty⟩

/-- The tabs of all scopes are in order throughout a run exactly if each of its operations is used as it is meant. -/
theorem tabs_valid_iff (projects : List Text) (worktrees : Text → Option (List Text)) (pid : Option Text)
    (wids : Text → Option (Option Text)) (ops : List Op) :
    (∀ done, done <+: ops → (done.foldl exec (freshStore projects worktrees pid wids)).Valid) ↔
      ∀ done op, done ++ [op] <+: ops → Fine (done.foldl exec (freshStore projects worktrees pid wids)) op :=
  Runs.throughout_iff exec_valid_iff (fun _ _ h => by cases h) ops

/-- An old layout, with a chat that is active and no longer there. -/
def closedChat : ScopeLayout where
  projectId := "p".toList
  worktreeId := none
  blob := { terminals := [⟨"t".toList, "/".toList, "sh".toList⟩], activeChat := some "c".toList }

/-- A layout of an older client, or a tab that is not there, leaves an active tab that no tab is. -/
theorem active_tab_missing :
    let s := freshStore ["p".toList] (fun _ => none) (some "p".toList) (fun _ => none)
    (∃ scope, ([Op.hydrateLayoutFromBackend [closedChat]].foldl exec s).currentScope = some scope ∧ ¬ scope.Valid) ∧
    ∃ scope, ([Op.selectProject "p".toList, Op.setActiveTab "c".toList].foldl exec s).currentScope = some scope ∧
      ¬ scope.Valid := by
  refine ⟨⟨_, rfl, fun h => ?_⟩, ⟨_, rfl, fun h => ?_⟩⟩
  · exact absurd (h.active "c".toList (by decide)) (by decide)
  · exact absurd (h.active "c".toList (by decide)) (by decide)

end AgentGrove.App
