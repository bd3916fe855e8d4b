import AgentGrove.Tabs.Acts

namespace AgentGrove.App

open Assoc (Table)

namespace Blob

variable {b : Blob} {t : UnifiedTab}

theorem unified_tabs : b.unified.tabs = if b.old then b.migrated else b.tabs := by
  unfold unified
  split <;> rfl

theorem resolved_tabs : b.resolved.tabs = b.unified.tabs.filter (fun t => !t.staleDb) := by
  unfold resolved
  split
  · dsimp only
    split <;> rfl
  · rename_i h
    rw [Bool.not_eq_true, List.any_eq_false] at h
    exact (List.filter_eq_self.mpr fun t ht => by simpa using h t ht).symm

theorem resolved_activePane : b.resolved.activePane = b.activePane := by
  have hunified : b.unified.activePane = b.activePane := by
    unfold unified
    split <;> rfl
  unfold resolved
  split
  · dsimp only
    split <;> exact hunified
  · exact hunified

theorem resolved_clean (h : t ∈ b.resolved.tabs) : t.staleDb = false := by
  rw [resolved_tabs] at h
  simpa using (List.mem_filter.mp h).2

theorem mem_resolved (h : t ∈ b.resolved.tabs) : t ∈ b.tabs ∨ t ∈ b.migrated := by
  rw [resolved_tabs, unified_tabs] at h
  have h := (List.mem_filter.mp h).1
  split at h
  · exact Or.inr h
  · exact Or.inl h

end Blob

/-- The tabs that an old layout was migrated to. -/
def Legacy.tabs (l : Legacy) : List UnifiedTab := (Scope.blob {} l).migrated

/-- What is sent of a scope is what is shown of it when it is loaded, unless it has no tabs and the fields for older
clients have. -/
theorem resolved_blob {s : Scope} (h : ∀ t ∈ s.tabs, t.staleDb = false) (legacy : Legacy) :
    (s.blob legacy).resolved = s ∨
      s.tabs = [] ∧ (s.blob legacy).resolved.tabs = legacy.tabs ∧ legacy.tabs ≠ [] := by
  cases hold : (s.blob legacy).old with
  | false =>
    left
    have hunified : (s.blob legacy).unified = s := by
      rw [Blob.unified, hold]
      rfl
    have hclean : ¬ s.tabs.any UnifiedTab.staleDb = true := by
      rw [Bool.not_eq_true, List.any_eq_false]
      exact fun t ht => by simp [h t ht]
    rw [Blob.resolved, hunified, if_neg hclean]
  | true =>
    right
    have htabs : (s.blob legacy).resolved.tabs = legacy.tabs := by
      rw [Blob.resolved_old hold, Blob.unified_tabs, if_pos hold]
      rfl
    rw [Blob.old, Bool.and_eq_true, List.isEmpty_iff] at hold
    refine ⟨hold.1, htabs, fun hnone => ?_⟩
    obtain ⟨hchats, hterminals, heditor⟩ :
        legacy.chats = [] ∧ legacy.terminals = [] ∧ truthy legacy.activeEditor = none := by
      simpa [Legacy.tabs, Blob.migrated, Scope.blob] using hnone
    simpa [Scope.blob, hchats, hterminals, heditor] using hold.2

section Hydrating

open App.Store (layoutFor)

variable {s : Store} {l : ScopeLayout} {scopes : List ScopeLayout} {key : Text}

theorem get_hydrateScope (other : Text) : (s.hydrateScope l).byScope.get other =
    if other = makeKey l.projectId l.worktreeId then
      some { l.blob.resolved with activePane := l.blob.activePane.or (s.scopeAt other).activePane }
    else s.byScope.get other := by
  unfold Store.hydrateScope
  dsimp only
  rw [Table.get_upsert]
  by_cases he : other = makeKey l.projectId l.worktreeId
  · subst he
    rw [if_pos (beq_self_eq_true _), if_pos rfl, Store.scopeAt]
    cases s.byScope.get (makeKey l.projectId l.worktreeId) with
    | none =>
      have hpane : l.blob.activePane.or ({} : Scope).activePane = l.blob.resolved.activePane := by
        rw [Blob.resolved_activePane]
        exact Option.or_none
      rw [Option.getD_none, hpane]
      rfl
    | some scope => rfl
  · rw [if_neg (by simpa using he), if_neg he]

/-- Layouts of one scope are alike. -/
def Agree (scopes : List ScopeLayout) (key : Text) : Prop :=
  ∀ l ∈ scopes, makeKey l.projectId l.worktreeId = key →
    ∀ l' ∈ scopes, makeKey l'.projectId l'.worktreeId = key → l.blob = l'.blob

theorem layoutFor_spec (h : layoutFor scopes key = some l) : l ∈ scopes ∧ makeKey l.projectId l.worktreeId = key :=
  ⟨List.mem_reverse.mp (List.mem_of_find?_eq_some h), by simpa using List.find?_some h⟩

theorem scopeAt_hydrate (hblank : s.scopeAt key = {}) (ha : Agree scopes key) :
    (s.hydrateLayoutFromBackend scopes).scopeAt key =
      ((layoutFor scopes key).map (fun l => l.blob.resolved)).getD {} := by
  unfold Store.hydrateLayoutFromBackend
  induction scopes using List.reverseRecOn with
  | nil => exact hblank
  | append_singleton scopes l ih =>
    have hbefore := ih fun l hl hk l' hl' hk' =>
      ha l (List.mem_append_left _ hl) hk l' (List.mem_append_left _ hl') hk'
    have hlast : layoutFor (scopes ++ [l]) key =
        if makeKey l.projectId l.worktreeId = key then some l else layoutFor scopes key := by
      rw [layoutFor, List.reverse_append, List.reverse_singleton, List.singleton_append, List.find?_cons]
      by_cases hkey : makeKey l.projectId l.worktreeId = key <;> simp [hkey, layoutFor]
    rw [List.foldl_append, List.foldl_cons, List.foldl_nil, hlast, Store.scopeAt, get_hydrateScope]
    by_cases hkey : makeKey l.projectId l.worktreeId = key
    · have hpane : l.blob.activePane.or ((scopes.foldl Store.hydrateScope s).scopeAt key).activePane =
          l.blob.resolved.activePane := by
        rw [Blob.resolved_activePane, hbefore]
        cases hfound : layoutFor scopes key with
        | none => exact Option.or_none
        | some l' =>
          obtain ⟨hmem, hkey'⟩ := layoutFor_spec hfound
          have hsame : l'.blob = l.blob := ha l' (List.mem_append_left _ hmem) hkey'
            l (List.mem_append_right _ (List.mem_singleton_self l)) hkey
          rw [Option.map_some, Option.getD_some, hsame, Blob.resolved_activePane, Option.or_self]
      rw [if_pos hkey.symm, if_pos hkey, hpane]
      rfl
    · rw [if_neg fun he => hkey he.symm, if_neg hkey]
      exact hbefore

theorem hydrate_touches : (s.hydrateLayoutFromBackend scopes).selectedProjectId = s.selectedProjectId ∧
    (s.hydrateLayoutFromBackend scopes).selectedWorktreeByProject = s.selectedWorktreeByProject := by
  unfold Store.hydrateLayoutFromBackend
  induction scopes generalizing s with
  | nil => exact ⟨rfl, rfl⟩
  | cons l scopes ih => exact ih

theorem get_hydrate {scope : Scope} (h : (s.hydrateLayoutFromBackend scopes).byScope.get key = some scope) :
    s.byScope.get key = some scope ∨
      ∃ l ∈ scopes, makeKey l.projectId l.worktreeId = key ∧ scope.tabs = l.blob.resolved.tabs := by
  unfold Store.hydrateLayoutFromBackend at h
  induction scopes generalizing s with
  | nil => exact Or.inl h
  | cons l scopes ih =>
    rcases ih h with hget | ⟨l', hmem, hkey⟩
    · rw [get_hydrateScope] at hget
      split at hget
      · rename_i he
        cases hget
        exact Or.inr ⟨l, List.mem_cons_self, he.symm, rfl⟩
      · exact Or.inl hget
    · exact Or.inr ⟨l', List.mem_cons_of_mem l hmem, hkey⟩

theorem hydrate_none (h : (s.hydrateLayoutFromBackend scopes).byScope.get key = none) :
    ∀ l ∈ scopes, makeKey l.projectId l.worktreeId ≠ key := by
  unfold Store.hydrateLayoutFromBackend at h
  induction scopes using List.reverseRecOn with
  | nil => exact fun l hl => (by cases hl)
  | append_singleton scopes l ih =>
    rw [List.foldl_append, List.foldl_cons, List.foldl_nil, get_hydrateScope] at h
    split at h
    · cases h
    · rename_i hne
      intro l' hl'
      rcases List.mem_append.mp hl' with hl' | hl'
      · exact ih h l' hl'
      · rw [List.mem_singleton.mp hl']
        exact fun he => hne he.symm

theorem mem_getAll {t : Layouts} :
    l ∈ t.getAll ↔ ∃ w, l.worktreeId = some w ∧ t.get (l.projectId, w) = some l.blob := by
  unfold Layouts.getAll Layouts.listScopes
  rw [List.mem_map]
  constructor
  · rintro ⟨⟨⟨p, w⟩, b⟩, hmem, rfl⟩
    exact ⟨w, rfl, Table.mem_rows.mp (List.mem_mergeSort.mp hmem)⟩
  · rintro ⟨w, hw, hget⟩
    refine ⟨((l.projectId, w), l.blob), List.mem_mergeSort.mpr (Table.mem_rows.mpr hget), ?_⟩
    obtain ⟨p, wid, b⟩ := l
    cases hw
    rfl

/-- A row says itself which scope it is for. -/
structure Keyed (t : Layouts) : Prop where
  split : ∀ p w b, t.get (p, w) = some b → splitKey (makeKey p (some w)) = (p, w)
  shown : ∀ p w b, t.get (p, w) = some b → trim p ≠ []

theorem Keyed.blob {t : Layouts} (h : Keyed t) (hl : l ∈ t.getAll) (hk : makeKey l.projectId l.worktreeId = key) :
    t.get (splitKey key) = some l.blob := by
  obtain ⟨w, hw, hget⟩ := mem_getAll.mp hl
  rw [← hk, hw, h.split _ _ _ hget]
  exact hget

theorem Keyed.agree {t : Layouts} (h : Keyed t) (key : Text) : Agree t.getAll key :=
  fun _ hl hk _ hl' hk' => Option.some.inj ((h.blob hl hk).symm.trans (h.blob hl' hk'))

theorem Keyed.layoutFor {t : Layouts} (h : Keyed t) (hk : Proper key) :
    (layoutFor t.getAll key).map ScopeLayout.blob = t.get (splitKey key) := by
  cases hfound : Store.layoutFor t.getAll key with
  | some l => exact (h.blob (layoutFor_spec hfound).1 (layoutFor_spec hfound).2).symm
  | none =>
    cases hget : t.get (splitKey key) with
    | none => rfl
    | some b =>
      have hmem : (⟨(splitKey key).1, some (splitKey key).2, b⟩ : ScopeLayout) ∈ t.getAll :=
        mem_getAll.mpr ⟨_, rfl, hget⟩
      have hnone := List.find?_eq_none.mp hfound _ (List.mem_reverse.mpr hmem)
      exact (hnone (decide_eq_true hk.joined)).elim

theorem get_putScope {t : Layouts} {p : ScopePut} (hshown : trim p.projectId ≠ []) (pw : Text × Text) :
    (t.putScope p).get pw = if pw = (p.projectId, p.worktreeId) then some p.blob else t.get pw := by
  rw [Layouts.putScope, if_neg (by simpa using hshown), Table.get_upsert]
  by_cases he : pw = (p.projectId, p.worktreeId)
  · subst he
    rw [if_pos (beq_self_eq_true _), if_pos rfl]
    cases t.get (p.projectId, p.worktreeId) <;> rfl
  · rw [if_neg (by simpa using he), if_neg he]

/-- What a put leaves in a row was there before, or is what was put. -/
theorem putScope_cases {t : Layouts} {p : ScopePut} {proj w : Text} {b : Blob}
    (h : (t.putScope p).get (proj, w) = some b) :
    t.get (proj, w) = some b ∨ proj = p.projectId ∧ w = p.worktreeId ∧ b = p.blob ∧ trim p.projectId ≠ [] := by
  by_cases hshown : trim p.projectId = []
  · rw [Layouts.putScope, if_pos (by simpa using hshown)] at h
    exact Or.inl h
  · rw [get_putScope hshown] at h
    split at h
    · rename_i he
      cases he
      exact Or.inr ⟨rfl, rfl, (Option.some.inj h).symm, hshown⟩
    · exact Or.inl h

theorem Keyed.putScope {t : Layouts} (h : Keyed t) {p : ScopePut} (hp : splitKey p.key = (p.projectId, p.worktreeId)) :
    Keyed (t.putScope p) where
  split proj w b hget := by
    rcases putScope_cases hget with hget | ⟨rfl, rfl, -, -⟩
    · exact h.split proj w b hget
    · exact hp
  shown proj w b hget := by
    rcases putScope_cases hget with hget | ⟨rfl, -, -, hshown⟩
    · exact h.shown proj w b hget
    · exact hshown

/-- What a page shows of a scope once it is loaded. -/
theorem hydrated_scopeAt {t : Layouts} (h : Keyed t) (hk : Proper key) (hblank : s.scopeAt key = {}) :
    (Window.hydrated s t.getAll).store.scopeAt key = ((t.get (splitKey key)).map Blob.resolved).getD {} := by
  rw [Window.hydrated, scopeAt_hydrate hblank (h.agree key), ← h.layoutFor hk, Option.map_map]
  rfl

theorem hydrated_legacy {t : Layouts} (h : Keyed t) (hk : Proper key) :
    (Window.hydrated s t.getAll).legacy key = ((t.get (splitKey key)).map Blob.legacy).getD {} := by
  rw [← h.layoutFor hk, Option.map_map]
  rfl

end Hydrating

namespace Desk

variable {d d' : Desk} {key : Text} {p : ScopePut}

def row (d : Desk) (key : Text) : Option Blob := d.layouts.get (splitKey key)

/-- The last call for a scope that is on its way. -/
def newest (d : Desk) (key : Text) : Option ScopePut := (d.calls.filter (fun p => p.key = key)).getLast?

/-- The server has a scope as it is shown, or as it was when the page was loaded. -/
def Stored (d : Desk) (key : Text) : Prop :=
  (d.window.store.scopeAt key = ((d.row key).map Blob.resolved).getD {} ∧
    d.window.legacy key = ((d.row key).map Blob.legacy).getD {}) ∨
  ∃ scope, d.window.store.byScope.get key = some scope ∧ d.row key = some (scope.blob (d.window.legacy key))

/-- What is on its way for a scope, or is stored, is what is shown. -/
def Saved (d : Desk) (key : Text) : Prop :=
  match d.newest key with
  | some p => ∃ scope, d.window.store.byScope.get key = some scope ∧ p.blob = scope.blob (d.window.legacy key)
  | none => d.Stored key

/-- Nothing is left to write. -/
structure Quiet (d : Desk) : Prop where
  timers : d.window.scopeWriteTimers = []
  calls : d.calls = []

/-- A store of a page that has just been opened. -/
structure Blank (s : Store) : Prop where
  named : s.Named
  scopes : ∀ key, s.scopeAt key = {}

theorem Blank.hydrated {s : Store} (hs : Blank s) {t : Layouts} (ht : Keyed t) {scopes : List ScopeLayout}
    (hscopes : ∀ l ∈ scopes, l ∈ t.getAll) : (Window.hydrated s scopes).store.Named := by
  obtain ⟨hproject, hworktree⟩ := @hydrate_touches s scopes
  refine ⟨fun p hp => hs.named.project p (hproject ▸ hp), fun p w hw => hs.named.worktree p w (hworktree ▸ hw),
    fun k scope hget => ?_⟩
  rcases get_hydrate hget with hget | ⟨l, hl, rfl, -⟩
  · exact hs.named.scopes k scope hget
  · obtain ⟨w, hw, hrow⟩ := mem_getAll.mp (hscopes l hl)
    rw [hw]
    exact ⟨by rw [ht.split _ _ _ hrow], by rw [ht.split _ _ _ hrow]; exact ht.shown _ _ _ hrow⟩

def clean (_ : Text) (t : UnifiedTab) : Prop := t.staleDb = false

theorem clean_stable : Stable clean where
  rename _ title t h := by cases t <;> exact h
  setTitle _ title t h := by cases t <;> exact h
  setDraft _ draft t h := by cases t <;> exact h

/-- The only client writes its scopes one after another, and a call is only lost if another one follows. -/
def Orderly (d : Desk) : Event → Prop
  | .act a => a.Named ∧ Brings clean d.window.store a
  | .fire _ => True
  | .arrive i => ∀ p, d.calls[i]? = some p → ∀ q ∈ d.calls.take i, q.key ≠ p.key
  | .lose i => ∀ p, d.calls[i]? = some p →
    p.key ∈ d.window.scopeWriteTimers ∨ ∃ q ∈ d.calls.drop (i + 1), q.key = p.key
  | .other _ => False
  | .reload s answered => d.Quiet ∧ Blank s ∧ answered = true

/-- What every orderly step keeps. -/
structure Kept (d : Desk) : Prop where
  named : d.window.store.Named
  clean : d.window.store.Holds clean
  timers : ∀ k ∈ d.window.scopeWriteTimers, Proper k
  rows : Keyed d.layouts
  calls : ∀ p ∈ d.calls, Proper p.key ∧ splitKey p.key = (p.projectId, p.worktreeId)
  absent : ∀ k, Proper k → d.window.store.byScope.get k = none →
    d.row k = none ∧ d.window.legacy k = {} ∧ ∀ p ∈ d.calls, p.key ≠ k
  saved : ∀ k, Proper k → k ∈ d.window.scopeWriteTimers ∨ d.Saved k

section Calls

variable {i : Nat} {calls : List ScopePut}

theorem cut (h : calls[i]? = some p) : calls = calls.take i ++ p :: calls.drop (i + 1) := by
  obtain ⟨hi, rfl⟩ := List.getElem?_eq_some_iff.mp h
  rw [List.getElem_cons_drop hi, List.take_append_drop]

/-- A call of another scope, or one that another follows, is not the last one of a scope. -/
theorem last_erased (h : calls[i]? = some p) (hk : p.key = key → ∃ q ∈ calls.drop (i + 1), q.key = key) :
    ((calls.eraseIdx i).filter (fun p => p.key = key)).getLast? = (calls.filter (fun p => p.key = key)).getLast? := by
  rw [List.eraseIdx_eq_take_drop_succ]
  conv_rhs => rw [cut h]
  rw [List.filter_append, List.filter_append, List.filter_cons]
  by_cases he : p.key = key
  · obtain ⟨q, hq, hqk⟩ := hk he
    have hne : (calls.drop (i + 1)).filter (fun p => p.key = key) ≠ [] :=
      List.ne_nil_of_mem (List.mem_filter.mpr ⟨hq, decide_eq_true hqk⟩)
    rw [if_pos (decide_eq_true he), List.getLast?_append_of_ne_nil _ hne, List.getLast?_append_cons,
      List.getLast?_cons_of_ne_nil hne]
  · rw [if_neg (by simpa using he)]

end Calls

theorem Saved.of_none (hn : d.newest key = none) (h : d.Stored key) : d.Saved key := by
  rw [Saved, hn]
  exact h

theorem Saved.of_some (hn : d.newest key = some p)
    (h : ∃ scope, d.window.store.byScope.get key = some scope ∧ p.blob = scope.blob (d.window.legacy key)) :
    d.Saved key := by
  rw [Saved, hn]
  exact h

/-- What is saved of a scope stays so while neither the scope nor its row nor its last call change. -/
theorem Saved.congr (h : d.Saved key) (hnewest : d'.newest key = d.newest key) (hrow : d'.row key = d.row key)
    (hlegacy : d'.window.legacy key = d.window.legacy key)
    (hscope : d'.window.store.scopeAt key = d.window.store.scopeAt key)
    (hget : ∀ scope, d.window.store.byScope.get key = some scope → d'.window.store.byScope.get key = some scope) :
    d'.Saved key := by
  unfold Saved at h
  cases hn : d.newest key with
  | some p =>
    rw [hn] at h
    obtain ⟨scope, hold, hblob⟩ := h
    exact .of_some (hnewest.trans hn) ⟨scope, hget scope hold, by rw [hlegacy]; exact hblob⟩
  | none =>
    rw [hn] at h
    refine .of_none (hnewest.trans hn) ?_
    rcases h with ⟨hshown, hloaded⟩ | ⟨scope, hold, hblob⟩
    · exact Or.inl ⟨by rw [hscope, hrow]; exact hshown, by rw [hlegacy, hrow]; exact hloaded⟩
    · exact Or.inr ⟨scope, hget scope hold, by rw [hrow, hlegacy]; exact hblob⟩

namespace Kept

/-- An act marks the scopes it changes, and leaves the others saved as they were. -/
theorem act (h : d.Kept) {a : Act} (ha : a.Named) (hb : Brings Desk.clean d.window.store a) :
    Kept { d with window := d.window.act a } := by
  have hacted := Acted.act h.named ha
  refine
    { named := hacted.named
      clean := act_holds clean_stable ha hb h.clean
      timers := fun k hk => (hacted.proper k hk).elim (h.timers k) id
      rows := h.rows
      calls := h.calls
      absent := fun k hk hnone => ?_
      saved := fun k hk => ?_ }
  · obtain ⟨hrow, hlegacy, hcalls⟩ := h.absent k hk (hacted.present k hnone)
    exact ⟨hrow, (congrFun hacted.legacy k).trans hlegacy, hcalls⟩
  · by_cases hmem : k ∈ (d.window.act a).scopeWriteTimers
    · exact Or.inl hmem
    right
    have hscope := (hacted.marked k).resolve_right hmem
    have hlegacy := congrFun hacted.legacy k
    have hsaved := (h.saved k hk).resolve_left fun hin => hmem (hacted.timers k hin)
    have hget : ∀ scope, d.window.store.byScope.get k = some scope →
        (d.window.act a).store.byScope.get k = some scope := by
      intro scope hget
      cases hnew : (d.window.act a).store.byScope.get k with
      | none => exact absurd (hacted.present k hnew) (by simp [hget])
      | some scope' => simpa [Store.scopeAt, hnew, hget] using hscope
    exact @Saved.congr d { d with window := d.window.act a } k hsaved rfl rfl hlegacy hscope hget

theorem stored_absent (h : d.Kept) (hk : Proper key) (hnone : d.window.store.byScope.get key = none) :
    d.Stored key := by
  obtain ⟨hrow, hlegacy, -⟩ := h.absent key hk hnone
  left
  rw [hrow, hlegacy, Store.scopeAt, hnone]
  exact ⟨rfl, rfl⟩

/-- A timer that runs out sends the scope as it is shown. -/
theorem fire (h : d.Kept) (hmem : key ∈ d.window.scopeWriteTimers) :
    Kept { d with window := d.window.clearTimer key, calls := d.calls ++ d.window.writeScopeLayout key } := by
  have hkey := h.timers key hmem
  have hsome : ((splitKey key).1.isEmpty) = false := by
    rw [List.isEmpty_eq_false_iff]
    intro hempty
    exact hkey.shown (by rw [hempty]; rfl)
  have hsent : ∀ p ∈ d.window.writeScopeLayout key,
      p.key = key ∧ (splitKey key) = (p.projectId, p.worktreeId) ∧
        ∃ scope, d.window.store.byScope.get key = some scope ∧ p.blob = scope.blob (d.window.legacy key) := by
    intro p hp
    rw [Window.writeScopeLayout, hsome, if_neg Bool.false_ne_true] at hp
    obtain ⟨scope, hget, rfl⟩ := List.mem_map.mp hp
    exact ⟨hkey.joined, rfl, scope, Option.mem_toList.mp hget, rfl⟩
  refine
    { named := h.named
      clean := h.clean
      timers := fun k hk => h.timers k (List.mem_of_mem_filter hk)
      rows := h.rows
      calls := fun p hp => ?_
      absent := fun k hk hnone => ?_
      saved := fun k hk => ?_ }
  · rcases List.mem_append.mp hp with hp | hp
    · exact h.calls p hp
    · obtain ⟨hpk, hsplit, -⟩ := hsent p hp
      rw [hpk]
      exact ⟨hkey, hsplit⟩
  · obtain ⟨hrow, hlegacy, hcalls⟩ := h.absent k hk hnone
    refine ⟨hrow, hlegacy, fun p hp => ?_⟩
    rcases List.mem_append.mp hp with hp | hp
    · exact hcalls p hp
    · obtain ⟨hpk, -, scope, hget, -⟩ := hsent p hp
      rintro rfl
      rw [← hpk] at hget
      cases hnone.symm.trans hget
  · by_cases he : k = key
    · subst he
      right
      cases hget : d.window.store.byScope.get k with
      | none =>
        have hno : d.calls.filter (fun p => p.key = k) = [] :=
          List.filter_eq_nil_iff.mpr fun p hp => by simpa using (h.absent k hk hget).2.2 p hp
        have hnewest : newest { d with calls := d.calls ++ d.window.writeScopeLayout k } k = none := by
          simp [newest, hno, Window.writeScopeLayout, hget]
        exact Saved.of_none hnewest (h.stored_absent hk hget)
      | some scope =>
        have hnewest : newest { d with calls := d.calls ++ d.window.writeScopeLayout k } k =
            some ⟨(splitKey k).1, (splitKey k).2, scope.blob (d.window.legacy k)⟩ := by
          simp [newest, Window.writeScopeLayout, hget, hsome, ScopePut.key, hkey.joined]
        exact Saved.of_some hnewest ⟨scope, hget, rfl⟩
    · have hother : (d.window.writeScopeLayout key).filter (fun p => p.key = k) = [] :=
        List.filter_eq_nil_iff.mpr fun p hp => by
          rw [(hsent p hp).1]
          simpa using fun hkk => he hkk.symm
      have hnewest : newest { d with calls := d.calls ++ d.window.writeScopeLayout key } k = d.newest k := by
        rw [newest, List.filter_append, hother, List.append_nil, newest]
      refine (h.saved k hk).imp (fun hin => List.mem_filter.mpr ⟨hin, by simpa using he⟩) fun hsaved => ?_
      exact @Saved.congr d _ k hsaved hnewest rfl rfl rfl fun _ hget => hget

/-- A call that arrives leaves what it had in the row of its scope. -/
theorem arrive (h : d.Kept) {i : Nat} (hi : d.calls[i]? = some p) (hfirst : ∀ q ∈ d.calls.take i, q.key ≠ p.key) :
    Kept { d with calls := d.calls.eraseIdx i, layouts := d.layouts.putScope p } := by
  have hp := List.mem_of_getElem? hi
  obtain ⟨hproper, hsplit⟩ := h.calls p hp
  have hshown : trim p.projectId ≠ [] := by
    have hproject : (splitKey p.key).1 = p.projectId := by rw [hsplit]
    exact hproject ▸ hproper.shown
  have hother : ∀ k, Proper k → k ≠ p.key → (d.layouts.putScope p).get (splitKey k) = d.row k := by
    intro k hk hne
    rw [get_putScope hshown, if_neg, row]
    intro he
    exact hne (hk.inj hproper (he.trans hsplit.symm))
  have herased : ∀ q ∈ d.calls.eraseIdx i, q ∈ d.calls := fun q hq => (List.eraseIdx_sublist _ _).subset hq
  refine
    { named := h.named
      clean := h.clean
      timers := h.timers
      rows := h.rows.putScope hsplit
      calls := fun q hq => h.calls q (herased q hq)
      absent := fun k hk hnone => ?_
      saved := fun k hk => ?_ }
  · obtain ⟨hnorow, hlegacy, hcalls⟩ := h.absent k hk hnone
    exact ⟨(hother k hk fun he => hcalls p hp he.symm).trans hnorow, hlegacy, fun q hq => hcalls q (herased q hq)⟩
  · refine (h.saved k hk).imp_right fun hsaved => ?_
    by_cases hlast : p.key = k → ∃ q ∈ d.calls.drop (i + 1), q.key = k
    · have hnewest := last_erased hi hlast
      by_cases he : k = p.key
      · -- the row changes, but another call of the scope still follows
        obtain ⟨q, hq⟩ : ∃ q, d.newest k = some q := by
          obtain ⟨q, hq, hqk⟩ := hlast he.symm
          have hmem : q ∈ d.calls.filter (fun p => p.key = k) :=
            List.mem_filter.mpr ⟨List.mem_of_mem_drop hq, decide_eq_true hqk⟩
          exact ⟨_, List.getLast?_eq_some_getLast (List.ne_nil_of_mem hmem)⟩
        rw [Saved, hq] at hsaved
        exact Saved.of_some (hnewest.trans hq) hsaved
      · exact @Saved.congr d _ k hsaved hnewest (hother k hk he) rfl rfl fun _ hget => hget
    · rw [Classical.not_imp] at hlast
      obtain ⟨rfl, hnone⟩ := hlast
      have hbefore : (d.calls.take i).filter (fun q => q.key = p.key) = [] :=
        List.filter_eq_nil_iff.mpr fun q hq => by simpa using hfirst q hq
      have hafter : (d.calls.drop (i + 1)).filter (fun q => q.key = p.key) = [] :=
        List.filter_eq_nil_iff.mpr fun q hq hqk => hnone ⟨q, hq, of_decide_eq_true hqk⟩
      have hnewest : d.newest p.key = some p := by
        rw [newest, cut hi, List.filter_append, List.filter_cons, hbefore, hafter]
        simp
      rw [Saved, hnewest] at hsaved
      obtain ⟨scope, hget, hblob⟩ := hsaved
      refine Saved.of_none ?_ (Or.inr ⟨scope, hget, ?_⟩)
      · rw [newest, List.eraseIdx_eq_take_drop_succ, List.filter_append, hbefore, hafter]
        rfl
      · rw [row, get_putScope hshown, if_pos hsplit, hblob]

/-- A call is lost without harm if its scope is still to be written, or another call of it follows. -/
theorem lose (h : d.Kept) {i : Nat} (hi : d.calls[i]? = some p)
    (hmore : p.key ∈ d.window.scopeWriteTimers ∨ ∃ q ∈ d.calls.drop (i + 1), q.key = p.key) :
    Kept { d with calls := d.calls.eraseIdx i } := by
  have herased : ∀ q ∈ d.calls.eraseIdx i, q ∈ d.calls := fun q hq => (List.eraseIdx_sublist _ _).subset hq
  refine
    { named := h.named
      clean := h.clean
      timers := h.timers
      rows := h.rows
      calls := fun q hq => h.calls q (herased q hq)
      absent := fun k hk hnone => ?_
      saved := fun k hk => ?_ }
  · obtain ⟨hnorow, hlegacy, hcalls⟩ := h.absent k hk hnone
    exact ⟨hnorow, hlegacy, fun q hq => hcalls q (herased q hq)⟩
  · by_cases hin : k ∈ d.window.scopeWriteTimers
    · exact Or.inl hin
    refine (h.saved k hk).imp_right fun hsaved => ?_
    have hnewest := @last_erased k p i d.calls hi fun he => by
      subst he
      exact hmore.resolve_left hin
    exact @Saved.congr d _ k hsaved hnewest rfl rfl rfl fun _ hget => hget

/-- A page that is loaded anew shows what is stored. -/
theorem loaded {s : Store} {t : Layouts} (hs : Blank s) (ht : Keyed t) : Kept ⟨.hydrated s t.getAll, [], t⟩ := by
  refine
    { named := hs.hydrated ht fun l hl => hl
      clean := fun k scope hget tab htab => ?_
      timers := fun k hk => (by cases hk)
      rows := ht
      calls := fun p hp => (by cases hp)
      absent := fun k hk hnone => ?_
      saved := fun k hk => Or.inr ?_ }
  · rcases get_hydrate hget with hold | ⟨l, -, -, htabs⟩
    · have hempty : scope = {} := by simpa [Store.scopeAt, hold] using hs.scopes k
      rw [hempty] at htab
      cases htab
    · rw [htabs] at htab
      exact Blob.resolved_clean htab
  · have hrow : t.get (splitKey k) = none := by
      cases hget : t.get (splitKey k) with
      | none => rfl
      | some b => exact (hydrate_none hnone ⟨_, some _, b⟩ (mem_getAll.mpr ⟨_, rfl, hget⟩) hk.joined).elim
    refine ⟨hrow, ?_, fun p hp => (by cases hp)⟩
    rw [hydrated_legacy ht hk, hrow]
    rfl
  · exact Saved.of_none rfl (Or.inl ⟨hydrated_scopeAt ht hk (hs.scopes k), hydrated_legacy ht hk⟩)

theorem step (h : d.Kept) {e : Event} (hgood : d.Orderly e) (hstep : d.step e = some d') : d'.Kept := by
  cases e with
  | act a =>
    obtain rfl := Option.some.inj hstep
    exact h.act hgood.1 hgood.2
  | fire key =>
    rw [Desk.step] at hstep
    split at hstep
    · rename_i hmem
      obtain rfl := Option.some.inj hstep
      exact h.fire (List.contains_iff_mem.mp hmem)
    · cases hstep
  | arrive i =>
    obtain ⟨p, hi, rfl⟩ := Option.map_eq_some_iff.mp hstep
    exact h.arrive hi (hgood p hi)
  | lose i =>
    obtain ⟨p, hi, rfl⟩ := Option.map_eq_some_iff.mp hstep
    exact h.lose hi (hgood p hi)
  | other p => exact hgood.elim
  | reload s answered =>
    obtain ⟨hquiet, hs, rfl⟩ := hgood
    obtain rfl := Option.some.inj hstep
    have hcalls : d.calls = [] := hquiet.calls
    rw [hcalls]
    exact loaded hs h.rows

end Kept

/-- What the tabs of the scopes are in the end is what a page shows that is opened then, however often it has been
opened before, and in whatever order timers ran out and calls of several scopes arrived: but for a scope whose tabs
have all been closed, and that was once loaded from an old layout. Its old tabs are back. -/
theorem layouts_come_back {s s' : Store} {t : Layouts} (ht : Keyed t) (hs : Blank s)
    (h : desk.Reaches Orderly ⟨.hydrated s t.getAll, [], t⟩ d) (hquiet : d.Quiet) (hs' : Blank s')
    (hkey : Proper key) :
    let again := Window.hydrated s' d.layouts.getAll
    again.store.scopeAt key = d.window.store.scopeAt key ∨
      (d.window.store.scopeAt key).tabs = [] ∧ (again.store.scopeAt key).tabs = (d.window.legacy key).tabs ∧
        (d.window.legacy key).tabs ≠ [] := by
  have hkept : d.Kept := h.keeps (Kept.loaded hs ht) fun _ _ _ hk hgood hstep => hk.step hgood hstep
  have hagain := @hydrated_scopeAt s' key d.layouts hkept.rows hkey (hs'.scopes key)
  have hsaved : d.Saved key := (hkept.saved key hkey).resolve_left (by rw [hquiet.timers]; exact List.not_mem_nil)
  have hnewest : d.newest key = none := by rw [newest, hquiet.calls]; rfl
  rw [Saved, hnewest] at hsaved
  dsimp only
  rw [hagain]
  rcases hsaved with ⟨hshown, -⟩ | ⟨scope, hget, hrow⟩
  · exact Or.inl hshown.symm
  · have hscope : d.window.store.scopeAt key = scope := by rw [Store.scopeAt, hget]; rfl
    rw [show d.layouts.get (splitKey key) = _ from hrow, hscope]
    exact resolved_blob (hkept.clean key scope hget) (d.window.legacy key)

section Closed

/-- A page of one project. -/
def opened : Store where
  projects := ["p".toList]
  worktrees _ := none
  selectedProjectId := some "p".toList
  selectedWorktreeByProject _ := none
  byScope := Table.empty

theorem opened_blank : Blank opened where
  named :=
    { project := fun p hp => by
        cases hp
        exact ⟨by decide, by decide⟩
      worktree := fun p w hw => (by cases hw)
      scopes := fun key scope hget => (by cases hget) }
  scopes _ := rfl

/-- A layout of an older client, with a chat. -/
def oldLayouts : Layouts :=
  Layouts.putScope Table.empty
    ⟨"p".toList, [], { chats := [⟨"c".toList, "C".toList, none⟩], activeChat := some "c".toList }⟩

theorem oldLayouts_row {p w : Text} {b : Blob} (h : oldLayouts.get (p, w) = some b) :
    p = "p".toList ∧ w = [] ∧ b = { chats := [⟨"c".toList, "C".toList, none⟩], activeChat := some "c".toList } := by
  cases List.mem_singleton.mp (Table.mem_rows.mpr h)
  exact ⟨rfl, rfl, rfl⟩

theorem oldLayouts_keyed : Keyed oldLayouts where
  split p w b h := by
    obtain ⟨rfl, rfl, -⟩ := oldLayouts_row h
    decide
  shown p w b h := by
    obtain ⟨rfl, rfl, -⟩ := oldLayouts_row h
    decide

theorem oldLayouts_getAll : oldLayouts.getAll =
    [⟨"p".toList, some [], { chats := [⟨"c".toList, "C".toList, none⟩], activeChat := some "c".toList }⟩] := by
  unfold Layouts.getAll Layouts.listScopes
  rw [show oldLayouts.rows = [_] from rfl, List.mergeSort_singleton]
  rfl

/-- The chat is closed, and the layout written. -/
theorem closed_reached : ∃ d, desk.Reaches Orderly ⟨.hydrated opened oldLayouts.getAll, [], oldLayouts⟩ d ∧ d.Quiet ∧
    (d.window.store.scopeAt "p".toList).tabs = [] ∧
    d.row "p".toList = some { chats := [⟨"c".toList, "C".toList, none⟩], activeChat := some "c".toList } := by
  rw [oldLayouts_getAll]
  exact ⟨_, .head ⟨.act (.closeTab "c".toList), ⟨trivial, trivial⟩, rfl⟩
    (.head ⟨.fire "p".toList, trivial, rfl⟩ (.head ⟨.arrive 0, fun p _ q hq => (by cases hq), rfl⟩ .refl)),
    ⟨rfl, rfl⟩, rfl, rfl⟩

theorem layouts_come_back_closed : ∃ d, desk.Reaches Orderly ⟨.hydrated opened oldLayouts.getAll, [], oldLayouts⟩ d ∧
    let again := Window.hydrated opened d.layouts.getAll
    again.store.scopeAt "p".toList = d.window.store.scopeAt "p".toList ∨
      (d.window.store.scopeAt "p".toList).tabs = [] ∧
        (again.store.scopeAt "p".toList).tabs = (d.window.legacy "p".toList).tabs ∧
        (d.window.legacy "p".toList).tabs ≠ [] := by
  obtain ⟨d, hd, hquiet, -, -⟩ := closed_reached
  exact ⟨d, hd, layouts_come_back oldLayouts_keyed opened_blank hd hquiet opened_blank ⟨by decide, by decide⟩⟩

/-- A chat of an old layout is back after it has been closed. -/
example : ∃ d, desk.Reaches Orderly ⟨.hydrated opened oldLayouts.getAll, [], oldLayouts⟩ d ∧ d.Quiet ∧
    (d.window.store.scopeAt "p".toList).tabs = [] ∧
    ((Window.hydrated opened d.layouts.getAll).store.scopeAt "p".toList).tabs = [.chat "c".toList "C".toList none] := by
  obtain ⟨d, hd, hquiet, hclosed, hrow⟩ := closed_reached
  have hkept : d.Kept :=
    hd.keeps (Kept.loaded opened_blank oldLayouts_keyed) fun _ _ _ hk hgood hstep => hk.step hgood hstep
  have hshown := @hydrated_scopeAt opened "p".toList d.layouts hkept.rows ⟨by decide, by decide⟩ rfl
  refine ⟨d, hd, hquiet, hclosed, ?_⟩
  rw [hshown, show d.layouts.get (splitKey "p".toList) = _ from hrow]
  rfl

end Closed

section Apart

/-- A layout of tabs that belong to its scope. -/
structure Of (P : Text → Text → Prop) (key : Text) (b : Blob) : Prop where
  tabs : ∀ t ∈ b.tabs, P key t.id
  legacy : ∀ t ∈ b.legacy.tabs, P key t.id

def tabOf (P : Text → Text → Prop) (key : Text) (t : UnifiedTab) : Prop := P key t.id

variable {P : Text → Text → Prop}

theorem tabOf_stable : Stable (tabOf P) where
  rename _ title t h := by cases t <;> exact h
  setTitle _ title t h := by cases t <;> exact h
  setDraft _ draft t h := by cases t <;> exact h

/-- Whoever opens a tab in a scope opens one that belongs there, in this window and in others. -/
def Sorted (P : Text → Text → Prop) (d : Desk) : Event → Prop
  | .act a => a.Named ∧ Brings (tabOf P) d.window.store a
  | .other p => splitKey p.key = (p.projectId, p.worktreeId) ∧ Of P p.key p.blob
  | .reload s _ => Blank s
  | _ => True

structure Apart (P : Text → Text → Prop) (d : Desk) : Prop where
  named : d.window.store.Named
  timers : ∀ k ∈ d.window.scopeWriteTimers, Proper k
  scopes : d.window.store.Holds (tabOf P)
  legacy : ∀ key, ∀ t ∈ (d.window.legacy key).tabs, P key t.id
  calls : ∀ p ∈ d.calls, splitKey p.key = (p.projectId, p.worktreeId) ∧ Of P p.key p.blob
  keyed : Keyed d.layouts
  rows : ∀ p w b, d.layouts.get (p, w) = some b → Of P (makeKey p (some w)) b

namespace Apart

theorem putScope (h : Apart P d) (hp : splitKey p.key = (p.projectId, p.worktreeId)) (hof : Of P p.key p.blob)
    {calls : List ScopePut} (hcalls : ∀ q ∈ calls, q ∈ d.calls) :
    Apart P { d with calls := calls, layouts := d.layouts.putScope p } where
  named := h.named
  timers := h.timers
  scopes := h.scopes
  legacy := h.legacy
  calls q hq := h.calls q (hcalls q hq)
  keyed := h.keyed.putScope hp
  rows proj w b hget := by
    rcases putScope_cases hget with hget | ⟨rfl, rfl, rfl, -⟩
    · exact h.rows proj w b hget
    · exact hof

theorem fire (h : Apart P d) (hmem : key ∈ d.window.scopeWriteTimers) :
    Apart P { d with window := d.window.clearTimer key, calls := d.calls ++ d.window.writeScopeLayout key } where
  named := h.named
  timers k hk := h.timers k (List.mem_of_mem_filter hk)
  scopes := h.scopes
  legacy := h.legacy
  keyed := h.keyed
  rows := h.rows
  calls p hp := by
    rcases List.mem_append.mp hp with hp | hp
    · exact h.calls p hp
    · have hkey := h.timers key hmem
      rw [Window.writeScopeLayout] at hp
      split at hp
      · cases hp
      · obtain ⟨scope, hget, rfl⟩ := List.mem_map.mp hp
        have hjoined : ScopePut.key ⟨(splitKey key).1, (splitKey key).2, scope.blob (d.window.legacy key)⟩ = key :=
          hkey.joined
        rw [hjoined]
        exact ⟨rfl, h.scopes key scope (Option.mem_toList.mp hget), h.legacy key⟩

/-- A page loads tabs into the scopes in whose rows they are. -/
theorem loaded {s : Store} {t : Layouts} {calls : List ScopePut} {scopes : List ScopeLayout} (hs : Blank s)
    (ht : Keyed t) (hrows : ∀ p w b, t.get (p, w) = some b → Of P (makeKey p (some w)) b)
    (hcalls : ∀ p ∈ calls, splitKey p.key = (p.projectId, p.worktreeId) ∧ Of P p.key p.blob)
    (hscopes : ∀ l ∈ scopes, l ∈ t.getAll) : Apart P ⟨.hydrated s scopes, calls, t⟩ := by
  have hof : ∀ l ∈ scopes, Of P (makeKey l.projectId l.worktreeId) l.blob := by
    intro l hl
    obtain ⟨w, hw, hget⟩ := mem_getAll.mp (hscopes l hl)
    rw [hw]
    exact hrows _ _ _ hget
  refine
    { named := hs.hydrated ht hscopes
      timers := fun k hk => (by cases hk)
      scopes := fun k scope hget tab htab => ?_
      legacy := fun k tab htab => ?_
      calls := hcalls
      keyed := ht
      rows := hrows }
  · rcases get_hydrate hget with hold | ⟨l, hl, rfl, htabs⟩
    · have hempty : scope = {} := by simpa [Store.scopeAt, hold] using hs.scopes k
      rw [hempty] at htab
      cases htab
    · rw [htabs] at htab
      exact (Blob.mem_resolved htab).elim ((hof l hl).tabs tab) ((hof l hl).legacy tab)
  · change tab ∈ (((Store.layoutFor scopes k).map (fun l : ScopeLayout => l.blob.legacy)).getD {}).tabs at htab
    cases hfound : Store.layoutFor scopes k with
    | none =>
      rw [hfound] at htab
      cases htab
    | some l =>
      rw [hfound] at htab
      obtain ⟨hl, rfl⟩ := layoutFor_spec hfound
      exact (hof l hl).legacy tab htab

theorem step (h : Apart P d) {e : Event} (hgood : d.Sorted P e) (hstep : d.step e = some d') : Apart P d' := by
  cases e with
  | act a =>
    obtain rfl := Option.some.inj hstep
    have hacted := Acted.act h.named hgood.1
    exact
      { named := hacted.named
        timers := fun k hk => (hacted.proper k hk).elim (h.timers k) id
        scopes := act_holds tabOf_stable hgood.1 hgood.2 h.scopes
        legacy := fun k => by rw [hacted.legacy]; exact h.legacy k
        calls := h.calls
        keyed := h.keyed
        rows := h.rows }
  | fire key =>
    rw [Desk.step] at hstep
    split at hstep
    · rename_i hmem
      obtain rfl := Option.some.inj hstep
      exact h.fire (List.contains_iff_mem.mp hmem)
    · cases hstep
  | arrive i =>
    obtain ⟨p, hi, rfl⟩ := Option.map_eq_some_iff.mp hstep
    obtain ⟨hp, hof⟩ := h.calls p (List.mem_of_getElem? hi)
    exact h.putScope hp hof fun q hq => (List.eraseIdx_sublist _ _).subset hq
  | lose i =>
    obtain ⟨p, hi, rfl⟩ := Option.map_eq_some_iff.mp hstep
    exact { h with calls := fun q hq => h.calls q ((List.eraseIdx_sublist _ _).subset hq) }
  | other p =>
    obtain rfl := Option.some.inj hstep
    exact h.putScope hgood.1 hgood.2 fun q hq => hq
  | reload s answered =>
    obtain rfl := Option.some.inj hstep
    refine loaded hgood h.keyed h.rows h.calls fun l hl => ?_
    cases answered with
    | true => exact hl
    | false => cases hl

end Apart

/-- Whatever calls are lost or overtake each other, and whatever other clients write: the tabs that a window shows in a
scope, and those that are stored of it, were opened in that very scope, or were stored there before. -/
theorem layouts_keep_apart {s : Store} {t : Layouts} (ht : Keyed t) (hs : Blank s)
    (hrows : ∀ p w b, t.get (p, w) = some b → Of P (makeKey p (some w)) b)
    (h : desk.Reaches (Sorted P) ⟨.hydrated s t.getAll, [], t⟩ d) :
    (∀ key scope, d.window.store.byScope.get key = some scope → ∀ tab ∈ scope.tabs, P key tab.id) ∧
      ∀ p w b, d.layouts.get (p, w) = some b → Of P (makeKey p (some w)) b := by
  have hloaded : Apart P ⟨.hydrated s t.getAll, [], t⟩ :=
    Apart.loaded hs ht hrows (fun p hp => (by cases hp)) fun l hl => hl
  have hapart : Apart P d := h.keeps hloaded fun _ _ _ ha hgood hstep => ha.step hgood hstep
  exact ⟨hapart.scopes, hapart.rows⟩

/-- The chat belongs to the project, and the terminal to its worktree. -/
def belongs (key id : Text) : Prop := if key = "p".toList then id = "c".toList else id = "u".toList

/-- Another client writes the layout of the worktree, a call is lost, and the page is loaded without layouts. -/
theorem layouts_keep_apart_lost : ∃ d,
    desk.Reaches (Sorted belongs) ⟨.hydrated opened oldLayouts.getAll, [], oldLayouts⟩ d ∧
    (∀ key scope, d.window.store.byScope.get key = some scope → ∀ tab ∈ scope.tabs, belongs key tab.id) ∧
      ∀ p w b, d.layouts.get (p, w) = some b → Of belongs (makeKey p (some w)) b := by
  obtain ⟨d, hd⟩ : ∃ d, desk.Reaches (Sorted belongs) ⟨.hydrated opened oldLayouts.getAll, [], oldLayouts⟩ d := by
    rw [oldLayouts_getAll]
    exact ⟨_, .head ⟨.other ⟨"p".toList, "w".toList, { tabs := [.terminal "u".toList "/".toList "sh".toList] }⟩,
        ⟨by decide, fun t ht => by rw [List.mem_singleton.mp ht]; rfl, fun t ht => (by cases ht)⟩, rfl⟩
      (.head ⟨.act (.setActiveTab "c".toList), ⟨trivial, trivial⟩, rfl⟩ (.head ⟨.fire "p".toList, trivial, rfl⟩
        (.head ⟨.lose 0, trivial, rfl⟩ (.head ⟨.reload opened false, opened_blank, rfl⟩ .refl))))⟩
  refine ⟨d, hd, layouts_keep_apart oldLayouts_keyed opened_blank (fun p w b hget => ?_) hd⟩
  obtain ⟨rfl, rfl, rfl⟩ := oldLayouts_row hget
  exact ⟨fun t ht => (by cases ht), fun t ht => by rw [List.mem_singleton.mp ht]; rfl⟩

end Apart

end Desk

end AgentGrove.App
