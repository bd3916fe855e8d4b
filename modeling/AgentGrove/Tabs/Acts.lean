import AgentGrove.Model.Layout
import AgentGrove.Tabs.Invariant

namespace AgentGrove.App

open Assoc (Table)

/-- An id as the server gives it to projects and worktrees: it has no colons, and is not blank. -/
structure Named (id : Text) : Prop where
  plain : ':' ∉ id
  shown : trim id ≠ []

/-- A key that says which project and which worktree it is for. -/
structure Proper (key : Text) : Prop where
  joined : makeKey (splitKey key).1 (some (splitKey key).2) = key
  shown : trim (splitKey key).1 ≠ []

section Keys

variable {t p w key : Text} {wid : Option Text}

theorem splitOnce_append (h : ':' ∉ t) (rest : Text) : splitOnce (t ++ "::".toList ++ rest) = (t, rest) := by
  induction t with
  | nil => rfl
  | cons c t ih =>
    have hc : c ≠ ':' := fun he => h (he ▸ List.mem_cons_self)
    have hrest := ih fun hmem => h (List.mem_cons_of_mem c hmem)
    rw [List.append_assoc, List.cons_append, ← List.append_assoc]
    rw [splitOnce, hrest]
    exact fun _ hcolon => (hc hcolon).elim

theorem splitOnce_plain (h : ':' ∉ t) : splitOnce t = (t, []) := by
  induction t with
  | nil => rfl
  | cons c t ih =>
    have hc : c ≠ ':' := fun he => h (he ▸ List.mem_cons_self)
    rw [splitOnce, ih fun hmem => h (List.mem_cons_of_mem c hmem)]
    exact fun _ hcolon => (hc hcolon).elim

theorem splitKey_makeKey (hp : ':' ∉ p) (hw : ':' ∉ w) : splitKey (makeKey p (some w)) = (p, w) := by
  unfold splitKey makeKey
  by_cases he : w = []
  · subst he
    have hnone : truthy (some ([] : Text)) = none := rfl
    rw [hnone]
    dsimp only
    rw [splitOnce_plain hp]
    rfl
  · rw [truthy_of_ne he]
    dsimp only
    rw [splitOnce_append hp, splitOnce_plain hw]

theorem proper_makeKey (hp : Named p) (hw : ∀ w, wid = some w → ':' ∉ w) : Proper (makeKey p wid) := by
  have hsome : makeKey p wid = makeKey p (some (wid.getD [])) := by cases wid <;> rfl
  have hplain : ':' ∉ wid.getD [] := by
    cases wid with
    | none => simp
    | some w => exact hw w rfl
  have hsplit := splitKey_makeKey hp.plain hplain
  rw [hsome]
  exact ⟨by rw [hsplit], by rw [hsplit]; exact hp.shown⟩

theorem Proper.inj {other : Text} (h : Proper key) (ho : Proper other) (he : splitKey key = splitKey other) :
    key = other := by
  rw [← h.joined, ← ho.joined, he]

end Keys

namespace Store

variable {s : Store} {key : Text}

/-- What is selected has ids of the server, and so has every scope. -/
structure Named (s : Store) : Prop where
  project : ∀ p, s.selectedProjectId = some p → App.Named p
  worktree : ∀ p w, s.selectedWorktreeByProject p = some (some w) → ':' ∉ w
  scopes : ∀ key scope, s.byScope.get key = some scope → Proper key

theorem Named.proper (h : s.Named) (hk : s.currentScopeKey = some key) : Proper key := by
  obtain ⟨p, hp, rfl⟩ := Option.map_eq_some_iff.mp hk
  refine proper_makeKey (h.project p (truthy_eq_some.mp hp).1) fun w hw => ?_
  obtain ⟨q, -, hq⟩ := Option.bind_eq_some_iff.mp hw
  exact h.worktree q w (Option.join_eq_some_iff.mp hq)

/-- A scope that is not there yet is shown as a fresh one. -/
def scopeAt (s : Store) (key : Text) : Scope := (s.byScope.get key).getD {}

/-- What holds of every tab of every scope. -/
def Holds (q : Text → UnifiedTab → Prop) (s : Store) : Prop :=
  ∀ key scope, s.byScope.get key = some scope → ∀ t ∈ scope.tabs, q key t

end Store

/-- A property of tabs that does not depend on their titles and drafts. -/
structure Stable (q : Text → UnifiedTab → Prop) : Prop where
  rename : ∀ k title t, q k t → q k (t.rename title)
  setTitle : ∀ k title t, q k t → q k (t.setTitle title)
  setDraft : ∀ k draft t, q k t → q k (t.setDraft draft)

section Tabs

variable {q : UnifiedTab → Prop} {s : Scope}

theorem mem_changeFirst {α : Type} {p : α → Bool} {f : α → α} {l : List α} {x : α} (h : x ∈ changeFirst p f l) :
    x ∈ l ∨ ∃ y ∈ l, p y = true ∧ x = f y := by
  induction l with
  | nil => cases h
  | cons y l ih =>
    rw [changeFirst] at h
    split at h
    · rename_i hp
      rcases List.mem_cons.mp h with rfl | h
      · exact Or.inr ⟨y, List.mem_cons_self, hp, rfl⟩
      · exact Or.inl (List.mem_cons_of_mem y h)
    · rcases List.mem_cons.mp h with rfl | h
      · exact Or.inl List.mem_cons_self
      · rcases ih h with h | ⟨z, hz, hp, rfl⟩
        · exact Or.inl (List.mem_cons_of_mem y h)
        · exact Or.inr ⟨z, List.mem_cons_of_mem y hz, hp, rfl⟩

theorem changeFirst_holds {p : UnifiedTab → Bool} {f : UnifiedTab → UnifiedTab} {l : List UnifiedTab}
    (h : ∀ t ∈ l, q t) (hf : ∀ t, q t → p t = true → q (f t)) : ∀ t ∈ changeFirst p f l, q t := by
  intro t ht
  rcases mem_changeFirst ht with ht | ⟨y, hy, hp, rfl⟩
  · exact h t ht
  · exact hf y (h y hy) hp

namespace Scope

theorem addTab_holds (h : ∀ t ∈ s.tabs, q t) {tab : UnifiedTab} (hq : q tab) : ∀ t ∈ (s.addTab tab).tabs, q t := by
  unfold Scope.addTab
  split
  · exact h
  · intro t ht
    rcases List.mem_append.mp ht with ht | ht
    · exact h t ht
    · rw [List.mem_singleton.mp ht]
      exact hq

theorem closeTab_holds (h : ∀ t ∈ s.tabs, q t) (tabId : Text) : ∀ t ∈ (s.closeTab tabId).tabs, q t := by
  unfold Scope.closeTab
  split
  · exact h
  · exact fun t ht => h t ((List.eraseIdx_sublist _ _).subset ht)

theorem mergeChat_holds (htitle : ∀ title t, q t → q (t.setTitle title)) {c : ChatTab} (hc : q (chatOf c))
    (addAll : Bool) (h : ∀ t ∈ s.tabs, q t) : ∀ t ∈ (mergeChat addAll s c).tabs, q t := by
  unfold mergeChat
  split
  · exact changeFirst_holds h fun t ht _ => htitle _ t ht
  · split
    · intro t ht
      rcases List.mem_append.mp ht with ht | ht
      · exact h t ht
      · rw [List.mem_singleton.mp ht]
        exact hc
    · exact h

theorem setChats_holds (htitle : ∀ title t, q t → q (t.setTitle title)) {chats : List ChatTab}
    (hc : ∀ c ∈ chats, q (chatOf c)) (h : ∀ t ∈ s.tabs, q t) : ∀ t ∈ (s.setChats chats).tabs, q t := by
  have hmerged : ∀ (addAll : Bool) (kept : Scope), (∀ t ∈ kept.tabs, q t) →
      ∀ t ∈ (chats.foldl (mergeChat addAll) kept).tabs, q t := by
    intro addAll
    induction chats with
    | nil => exact fun _ hkept => hkept
    | cons c chats ih =>
      intro kept hkept
      exact ih (fun c hmem => hc c (List.mem_cons_of_mem _ hmem)) _
        (mergeChat_holds htitle (hc c List.mem_cons_self) addAll hkept)
  have hkept (addAll : Bool) := hmerged addAll
    { s with tabs := s.tabs.filter (fun t => !t.isChat || chats.any (fun c => c.id = t.id)) }
    (fun t ht => h t (List.mem_of_mem_filter ht))
  unfold setChats
  dsimp only
  split
  · split <;> exact hkept _
  · split <;> exact hkept _

theorem replaceId_holds {oldId newId : Text} (h : ∀ t ∈ s.tabs, q t)
    (hnew : ∀ t, q t → t.id = oldId → q (t.setId newId)) : ∀ t ∈ (s.replaceId oldId newId).tabs, q t :=
  changeFirst_holds h fun t ht hid => hnew t ht (of_decide_eq_true hid)

end Scope

end Tabs

namespace Store

variable {s s' s'' : Store} {q : Text → UnifiedTab → Prop} {key : Text} {f : Scope → Scope}

theorem Holds.update (h : s.Holds q) (hf : ∀ scope, (∀ t ∈ scope.tabs, q key t) → ∀ t ∈ (f scope).tabs, q key t) :
    (s.update key f).Holds q := by
  intro other scope hget
  rw [get_update] at hget
  split at hget
  · rename_i he
    subst he
    obtain ⟨old, hold, rfl⟩ := Option.map_eq_some_iff.mp hget
    exact hf old (h other old hold)
  · exact h other scope hget

theorem Holds.ensureScope (h : s.Holds q) (key : Text) : (s.ensureScope key).Holds q := by
  intro other scope hget
  rw [get_ensureScope] at hget
  split at hget
  · rename_i he
    subst he
    cases hold : s.byScope.get other with
    | none =>
      rw [hold] at hget
      cases hget
      exact fun t ht => (by cases ht)
    | some old =>
      rw [hold] at hget
      cases hget
      exact h other old hold
  · exact h other scope hget

theorem Holds.ensureCurrent (h : s.Holds q) : s.ensureCurrent.Holds q := by
  unfold Store.ensureCurrent
  split
  · exact h.ensureScope _
  · exact h

theorem Holds.updateCurrent (h : s.Holds q) (hf : ∀ key, s.currentScopeKey = some key → ∀ scope,
    (∀ t ∈ scope.tabs, q key t) → ∀ t ∈ (f scope).tabs, q key t) : (s.updateCurrent f).Holds q := by
  unfold Store.updateCurrent
  split
  · rename_i key hkey
    exact h.update (hf key hkey)
  · exact h

theorem Holds.addTab (h : s.Holds q) {tab : UnifiedTab} (hq : ∀ key, s.currentScopeKey = some key → q key tab) :
    (s.addTab tab).Holds q := by
  unfold Store.addTab
  split
  · rename_i key hkey
    exact (h.ensureScope key).update fun _ hscope => Scope.addTab_holds hscope (hq key hkey)
  · exact h

theorem Holds.closeTab (h : s.Holds q) (tabId : Text) : (s.closeTab tabId).Holds q :=
  h.updateCurrent fun _ _ _ hscope => Scope.closeTab_holds hscope tabId

theorem Holds.setActiveTab (h : s.Holds q) (tabId : Text) : (s.setActiveTab tabId).Holds q :=
  h.updateCurrent fun _ _ _ hscope => hscope

theorem Holds.setScopeChats (h : s.Holds q) (hst : Stable q) {chats : List ChatTab} {forKey : Option Text}
    (hq : ∀ key, truthy (forKey.or s.currentScopeKey) = some key → ∀ c ∈ chats, q key (Scope.chatOf c)) :
    (s.setScopeChats chats forKey).Holds q := by
  unfold Store.setScopeChats
  split
  · rename_i key hkey
    exact (h.ensureScope key).update fun _ hscope => Scope.setChats_holds (hst.setTitle key) (hq key hkey) hscope
  · exact h

theorem Holds.ensureChatTab (h : s.Holds q) {chatId : Text} (hq : ∀ key, s.currentScopeKey = some key →
    q key (Scope.chatOf { id := chatId, title := "Chat".toList })) : (s.ensureChatTab chatId).Holds q := by
  unfold Store.ensureChatTab
  split
  · exact h
  · split
    · exact h.setActiveTab chatId
    · exact h.addTab hq

theorem Holds.replaceTerminalId (h : s.Holds q) {oldId newId : Text}
    (hq : ∀ key t, q key t → t.id = oldId → q key (t.setId newId)) : (s.replaceTerminalId oldId newId).Holds q := by
  unfold Store.replaceTerminalId
  split
  · exact h.update fun _ hscope => Scope.replaceId_holds hscope (hq _)
  · exact h

/-- A store that differs from another in one scope at most. -/
structure Touches (key : Option Text) (s s' : Store) : Prop where
  project : s'.selectedProjectId = s.selectedProjectId
  worktree : s'.selectedWorktreeByProject = s.selectedWorktreeByProject
  others : ∀ k, key ≠ some k → s'.byScope.get k = s.byScope.get k
  present : ∀ k, s'.byScope.get k = none → s.byScope.get k = none

theorem Touches.refl (key : Option Text) (s : Store) : Touches key s s := ⟨rfl, rfl, fun _ _ => rfl, fun _ h => h⟩

theorem Touches.trans {key : Option Text} (h : Touches key s s') (h' : Touches key s' s'') : Touches key s s'' where
  project := h'.project.trans h.project
  worktree := h'.worktree.trans h.worktree
  others k hk := (h'.others k hk).trans (h.others k hk)
  present k hk := h.present k (h'.present k hk)

theorem Touches.named {key : Option Text} (h : Touches key s s') (hs : s.Named) (hkey : ∀ k, key = some k → Proper k) :
    s'.Named where
  project p hp := hs.project p (h.project ▸ hp)
  worktree p w hw := hs.worktree p w (h.worktree ▸ hw)
  scopes k scope hget := by
    by_cases he : key = some k
    · exact hkey k he
    · exact hs.scopes k scope (h.others k he ▸ hget)

theorem touches_update (key : Text) (f : Scope → Scope) (s : Store) : Touches (some key) s (s.update key f) where
  project := by unfold update; split <;> rfl
  worktree := by unfold update; split <;> rfl
  others k hk := by
    rw [get_update, if_neg]
    rintro rfl
    exact hk rfl
  present k hk := by
    rw [get_update] at hk
    split at hk
    · rename_i he
      rw [he]
      exact Option.map_eq_none_iff.mp hk
    · exact hk

theorem touches_ensureScope (key : Text) (s : Store) : Touches (some key) s (s.ensureScope key) where
  project := by unfold ensureScope; split <;> rfl
  worktree := by unfold ensureScope; split <;> rfl
  others k hk := by
    rw [get_ensureScope, if_neg]
    rintro rfl
    exact hk rfl
  present k hk := by
    rw [get_ensureScope] at hk
    split at hk
    · cases hk
    · exact hk

theorem touches_updateCurrent (f : Scope → Scope) (s : Store) : Touches s.currentScopeKey s (s.updateCurrent f) := by
  unfold updateCurrent
  split
  · rename_i key hkey
    rw [hkey]
    exact touches_update key f s
  · exact .refl _ s

theorem touches_addTab (tab : UnifiedTab) (s : Store) : Touches s.currentScopeKey s (s.addTab tab) := by
  unfold addTab
  split
  · rename_i key hkey
    rw [hkey]
    exact (touches_ensureScope key s).trans (touches_update key _ _)
  · exact .refl _ s

theorem touches_setScopeChats (chats : List ChatTab) (forKey : Option Text) (s : Store) :
    Touches (truthy (forKey.or s.currentScopeKey)) s (s.setScopeChats chats forKey) := by
  unfold setScopeChats
  split
  · rename_i key hkey
    rw [hkey]
    exact (touches_ensureScope key s).trans (touches_update key _ _)
  · exact .refl _ s

theorem touches_replaceTerminalId (oldId newId : Text) (s : Store) :
    Touches ((s.byScope.rows.find? (fun e => e.2.has oldId)).map Prod.fst) s (s.replaceTerminalId oldId newId) := by
  unfold replaceTerminalId
  split
  · rename_i key scope hfound
    rw [hfound]
    exact touches_update key _ s
  · exact .refl _ s

theorem scopeAt_ensureCurrent (s : Store) (k : Text) : s.ensureCurrent.scopeAt k = s.scopeAt k := by
  unfold ensureCurrent scopeAt
  split
  · rw [get_ensureScope]
    split
    · rename_i he
      rw [he, Option.getD_some]
    · rfl
  · rfl

theorem touches_ensureCurrent (s : Store) : Touches s.currentScopeKey s s.ensureCurrent := by
  unfold ensureCurrent
  split
  · rename_i key hkey
    rw [hkey]
    exact touches_ensureScope key s
  · exact .refl _ s

theorem Named.ensureCurrent (h : s.Named) : s.ensureCurrent.Named :=
  (touches_ensureCurrent s).named h fun _ hk => h.proper hk

theorem Named.selectProject (h : s.Named) {id : Text} (hid : App.Named id) : (s.selectProject id).Named := by
  refine Named.ensureCurrent ⟨fun p hp => ?_, fun p w hw => ?_, h.scopes⟩
  · cases hp
    exact hid
  · dsimp only at hw
    split at hw
    · rename_i he
      cases hold : s.selectedWorktreeByProject id with
      | none =>
        rw [hold] at hw
        cases hw
      | some old =>
        rw [hold] at hw
        cases hw
        exact h.worktree id w hold
    · exact h.worktree p w hw

theorem Named.selectWorktree (h : s.Named) {pid : Text} {wid : Option Text} (hp : App.Named pid)
    (hw : ∀ w, wid = some w → ':' ∉ w) : (s.selectWorktree pid wid).Named := by
  refine Named.ensureCurrent ⟨fun p he => ?_, fun p w he => ?_, h.scopes⟩
  · cases he
    exact hp
  · dsimp only at he
    split at he
    · cases he
      exact hw w rfl
    · exact h.worktree p w he

theorem selectWorktree_currentScopeKey {pid : Text} (wid : Option Text) (hp : App.Named pid) :
    (s.selectWorktree pid wid).currentScopeKey = some (makeKey pid wid) := by
  have hne : pid ≠ [] := by
    rintro rfl
    exact hp.shown rfl
  have ht := touches_ensureCurrent
    { s with
      selectedProjectId := some pid
      selectedWorktreeByProject := fun p => if p = pid then some wid else s.selectedWorktreeByProject p }
  unfold currentScopeKey currentWorktreeId selectWorktree
  rw [ht.project, ht.worktree, truthy_of_ne hne]
  simp

end Store

/-- What an act does to a window: each scope that it changes has a timer from then on. -/
structure Acted (w w' : Window) : Prop where
  legacy : w'.legacy = w.legacy
  timers : ∀ k ∈ w.scopeWriteTimers, k ∈ w'.scopeWriteTimers
  proper : ∀ k ∈ w'.scopeWriteTimers, k ∈ w.scopeWriteTimers ∨ Proper k
  named : w'.store.Named
  marked : ∀ k, w'.store.scopeAt k = w.store.scopeAt k ∨ k ∈ w'.scopeWriteTimers
  present : ∀ k, w'.store.byScope.get k = none → w.store.byScope.get k = none

/-- An act with ids of the server. -/
def Act.Named : Act → Prop
  | .setScopeChats _ forKey => ∀ key, truthy forKey = some key → Proper key
  | .selectProject id => App.Named id
  | .selectWorktree projectId worktreeId | .goToChat projectId worktreeId _ =>
    App.Named projectId ∧ ∀ w, worktreeId = some w → ':' ∉ w
  | _ => True

/-- The tabs that an act brings into a scope have a property. -/
def Brings (q : Text → UnifiedTab → Prop) (s : Store) : Act → Prop
  | .addTab tab => ∀ key, s.currentScopeKey = some key → q key tab
  | .setScopeChats chats forKey =>
    ∀ key, truthy (forKey.or s.currentScopeKey) = some key → ∀ c ∈ chats, q key (Scope.chatOf c)
  | .ensureChatTab chatId =>
    ∀ key, s.currentScopeKey = some key → q key (Scope.chatOf { id := chatId, title := "Chat".toList })
  | .replaceTerminalId oldId newId => ∀ key t, q key t → t.id = oldId → q key (t.setId newId)
  | .goToChat projectId worktreeId chatId | .reassert projectId worktreeId chatId =>
    q (makeKey projectId worktreeId) (Scope.chatOf { id := chatId, title := "Chat".toList })
  | _ => True

namespace Acted

variable {w w' w'' : Window}

theorem refl (hn : w.store.Named) : Acted w w where
  legacy := rfl
  timers _ hk := hk
  proper _ hk := Or.inl hk
  named := hn
  marked _ := Or.inl rfl
  present _ hk := hk

theorem trans (h : Acted w w') (h' : Acted w' w'') : Acted w w'' where
  legacy := h'.legacy.trans h.legacy
  timers k hk := h'.timers k (h.timers k hk)
  proper k hk := (h'.proper k hk).elim (h.proper k) Or.inr
  named := h'.named
  marked k := by
    rcases h'.marked k with hk | hk
    · rcases h.marked k with hk' | hk'
      · exact Or.inl (hk.trans hk')
      · exact Or.inr (h'.timers k hk')
    · exact Or.inr hk
  present k hk := h.present k (h'.present k hk)

theorem change (hn : w.store.Named) {key : Option Text} {store : Store} (hkey : ∀ k, key = some k → Proper k)
    (ht : Store.Touches key w.store store) : Acted w (w.change key store) := by
  cases key with
  | none => exact refl hn
  | some key =>
    have hmem : ∀ k, k ∈ (w.change (some key) store).scopeWriteTimers ↔ k = key ∨ k ∈ w.scopeWriteTimers := by
      intro k
      by_cases he : k = key <;> simp [Window.change, Window.scheduleScopeLayoutWrite, he]
    refine ⟨rfl, fun k hk => (hmem k).mpr (Or.inr hk), fun k hk => ?_, ht.named hn hkey, fun k => ?_, ht.present⟩
    · rcases (hmem k).mp hk with rfl | hk
      · exact Or.inr (hkey k rfl)
      · exact Or.inl hk
    · by_cases he : k = key
      · exact Or.inr ((hmem k).mpr (Or.inl he))
      · left
        have hget := ht.others k fun hsome => he (Option.some.inj hsome).symm
        exact congrArg (Option.getD · {}) hget

theorem current (hn : w.store.Named) {store : Store} (ht : Store.Touches w.store.currentScopeKey w.store store) :
    Acted w (w.change w.store.currentScopeKey store) :=
  change hn (fun _ hk => hn.proper hk) ht

theorem setActiveTab (hn : w.store.Named) (tabId : Text) : Acted w (w.setActiveTab tabId) :=
  current hn (Store.touches_updateCurrent _ _)

theorem ensureChatTab (hn : w.store.Named) (chatId : Text) : Acted w (w.ensureChatTab chatId) := by
  unfold Window.ensureChatTab
  split
  · exact setActiveTab hn chatId
  · exact current hn (Store.touches_addTab _ _)

theorem openChat (hn : w.store.Named) (chatId : Text) : Acted w ((w.ensureChatTab chatId).setActiveTab chatId) :=
  (ensureChatTab hn chatId).trans (setActiveTab (ensureChatTab hn chatId).named chatId)

theorem select {store : Store} (hn : store.ensureCurrent.Named) (hget : store.byScope = w.store.byScope) :
    Acted w { w with store := store.ensureCurrent } where
  legacy := rfl
  timers _ hk := hk
  proper _ hk := Or.inl hk
  named := hn
  marked k := by
    left
    dsimp only
    rw [Store.scopeAt_ensureCurrent, Store.scopeAt, Store.scopeAt, hget]
  present k hk := hget ▸ (Store.touches_ensureCurrent store).present k hk

/-- What an act does, whichever it is. -/
theorem act (hn : w.store.Named) {a : Act} (ha : a.Named) : Acted w (w.act a) := by
  cases a with
  | addTab tab => exact current hn (Store.touches_addTab tab _)
  | closeTab tabId =>
    rw [Window.act, Window.closeTab]
    split
    · exact current hn (Store.touches_updateCurrent _ _)
    · exact refl hn
  | setActiveTab tabId => exact setActiveTab hn tabId
  | renameTab tabId rawTitle =>
    rw [Window.act, Window.renameTab]
    split
    · exact refl hn
    · exact current hn (Store.touches_updateCurrent _ _)
  | setScopeChats chats forKey =>
    refine change hn (fun k hk => ?_) (Store.touches_setScopeChats chats forKey _)
    cases forKey with
    | none => exact hn.proper (truthy_eq_some.mp hk).1
    | some key => exact ha k hk
  | ensureChatTab chatId => exact ensureChatTab hn chatId
  | setChatDraft chatId draft => exact current hn (Store.touches_updateCurrent _ _)
  | replaceTerminalId oldId newId =>
    refine change hn (fun k hk => ?_) (Store.touches_replaceTerminalId oldId newId _)
    obtain ⟨⟨key, scope⟩, hfound, rfl⟩ := Option.map_eq_some_iff.mp hk
    exact hn.scopes key scope (Table.mem_rows.mp (List.mem_of_find?_eq_some hfound))
  | selectProject id => exact select (hn.selectProject ha) rfl
  | selectWorktree projectId worktreeId => exact select (hn.selectWorktree ha.1 ha.2) rfl
  | goToChat projectId worktreeId chatId =>
    have hselect : Acted w (w.selectWorktree projectId worktreeId) := select (hn.selectWorktree ha.1 ha.2) rfl
    exact hselect.trans (openChat hselect.named chatId)
  | reassert projectId worktreeId chatId =>
    rw [Window.act, Window.reassert]
    split
    · exact openChat hn chatId
    · exact refl hn

end Acted

section Tabs

variable {q : Text → UnifiedTab → Prop} {w : Window}

theorem change_holds (h : w.store.Holds q) {store : Store} (hs : store.Holds q) (key : Option Text) :
    (w.change key store).store.Holds q := by
  cases key with
  | none => exact h
  | some key => exact hs

theorem ensureChatTab_holds (h : w.store.Holds q) {chatId : Text} (hq : ∀ key, w.store.currentScopeKey = some key →
    q key (Scope.chatOf { id := chatId, title := "Chat".toList })) : (w.ensureChatTab chatId).store.Holds q := by
  unfold Window.ensureChatTab
  split
  · exact change_holds h (h.setActiveTab chatId) _
  · exact change_holds h (h.addTab hq) _

theorem setActiveTab_holds (h : w.store.Holds q) (tabId : Text) : (w.setActiveTab tabId).store.Holds q :=
  change_holds h (h.setActiveTab tabId) _

/-- What holds of all tabs, and of those that an act brings in, holds of all tabs after it. -/
theorem act_holds (hst : Stable q) {a : Act} (ha : a.Named) (hb : Brings q w.store a) (h : w.store.Holds q) :
    (w.act a).store.Holds q := by
  cases a with
  | addTab tab => exact change_holds h (h.addTab hb) _
  | closeTab tabId =>
    rw [Window.act, Window.closeTab]
    split
    · exact change_holds h (h.closeTab tabId) _
    · exact h
  | setActiveTab tabId => exact setActiveTab_holds h tabId
  | renameTab tabId rawTitle =>
    rw [Window.act, Window.renameTab]
    split
    · exact h
    · refine change_holds h (h.updateCurrent fun key _ scope hscope => ?_) _
      exact changeFirst_holds hscope fun t ht _ => hst.rename key _ t ht
  | setScopeChats chats forKey => exact change_holds h (h.setScopeChats hst hb) _
  | ensureChatTab chatId => exact ensureChatTab_holds h hb
  | setChatDraft chatId draft =>
    refine change_holds h (h.updateCurrent fun key _ scope hscope => ?_) _
    exact changeFirst_holds hscope fun t ht _ => hst.setDraft key _ t ht
  | replaceTerminalId oldId newId => exact change_holds h (h.replaceTerminalId hb) _
  | selectProject id => exact Store.Holds.ensureCurrent h
  | selectWorktree projectId worktreeId => exact Store.Holds.ensureCurrent h
  | goToChat projectId worktreeId chatId =>
    have hselect : (w.selectWorktree projectId worktreeId).store.Holds q := Store.Holds.ensureCurrent h
    refine setActiveTab_holds (ensureChatTab_holds hselect fun key hkey => ?_) chatId
    rw [Window.selectWorktree, Store.selectWorktree_currentScopeKey worktreeId ha.1] at hkey
    obtain rfl := Option.some.inj hkey
    exact hb
  | reassert projectId worktreeId chatId =>
    rw [Window.act, Window.reassert]
    split
    · rename_i hcurrent
      refine setActiveTab_holds (ensureChatTab_holds h fun key hkey => ?_) chatId
      obtain rfl := Option.some.inj (hcurrent.symm.trans hkey)
      exact hb
    · exact h

end Tabs

end AgentGrove.App
