import AgentGrove.Model.RouteSync
import AgentGrove.Tabs.Invariant

namespace AgentGrove.App

open Url

/-- The ids that the server makes have letters, digits and hyphens only. -/
structure Safe (id : Text) : Prop where
  ne_nil : id ≠ []
  plain : ∀ c ∈ id, (c.isAlphanum || c = '-') = true

theorem Safe.not_mem {id : Text} (h : Safe id) {c : Char} (hc : (c.isAlphanum || c = '-') = false) : c ∉ id := by
  intro hin
  rw [h.plain c hin] at hc
  cases hc

theorem Safe.truthy {id : Text} (h : Safe id) : truthy (some id) = some id := truthy_of_ne h.ne_nil

theorem Safe.encodeURIComponent {id : Text} (h : Safe id) : encodeURIComponent id = id := by
  refine Percent.encodeWith_kept fun c hc => ?_
  rcases Bool.or_eq_true_iff.mp (h.plain c hc) with ha | he
  · rw [unreserved, ha, Bool.true_or]
  · rw [of_decide_eq_true he]
    decide

/-- A chat or a file of a project that is there, or of one of its worktrees. -/
structure Viewing (s : Store) (pid : Text) : Prop where
  project : s.selectedProjectId = some pid
  known : pid ∈ s.projects
  safe : Safe pid
  worktree : ∀ wid, s.currentWorktreeId = some wid → Safe wid ∧ ∃ wts, s.worktrees pid = some wts ∧ wid ∈ wts
  active : (∃ id, s.selectedChatId = some id ∧ Safe id) ∨ ∃ path, s.selectedFilePath = some ('/' :: path)

def Store.Bare (t : Store) : Prop := ∀ key scope, t.byScope.get key = some scope → scope.tabs = []

/-- A store that has the projects of another, and no tabs. -/
structure Fresh (s t : Store) : Prop where
  projects : t.projects = s.projects
  worktrees : t.worktrees = s.worktrees
  bare : t.Bare

structure Restores (s t : Store) : Prop where
  project : t.selectedProjectId = s.selectedProjectId
  worktree : t.currentWorktreeId = s.currentWorktreeId
  chat : t.selectedChatId = s.selectedChatId
  file : t.selectedFilePath = s.selectedFilePath

variable {s t : Store} {pid : Text} {wid : Option Text}

section Writing

def paneParam (pane : PaneId) : List (Text × Text) := if pane = .chat then [] else [("pane".toList, pane.name)]

def Store.shownPane (s : Store) : PaneId :=
  ((s.byScope.get (s.currentScopeKey.getD [])).bind Scope.activePane).getD .chat

/-- The parameters before any encoding. -/
def Store.shownParams (s : Store) : List (Text × Text) :=
  paneParam s.shownPane ++ s.selectedChatId.toList.map (fun chat => ("chat".toList, chat)) ++
    s.selectedFilePath.toList.map (fun file => ("file".toList, file))

theorem chat_or_file : s.selectedChatId = none ∨ s.selectedFilePath = none := by
  unfold Store.selectedChatId Store.selectedFilePath
  cases s.activeTab with
  | none => exact Or.inl rfl
  | some tab => cases tab <;> simp

theorem encode_paneParam (pane : PaneId) :
    (encodeBoth encodeURIComponent (paneParam pane)).map (fun p => p.1 ++ '=' :: p.2) =
    if pane = .chat then [] else ["pane=".toList ++ pane.name] := by
  cases pane <;> decide

theorem encode_optional {name : Text} (hname : encodeURIComponent name = name) (value : Option Text) :
    (encodeBoth encodeURIComponent (value.toList.map (fun v => (name, v)))).map (fun p => p.1 ++ '=' :: p.2) =
      value.toList.map (fun v => name ++ '=' :: encodeURIComponent v) := by
  cases value with
  | none => rfl
  | some v => rw [Option.toList_some, List.map_singleton, encodeBoth, List.map_singleton, List.map_singleton, hname,
      List.map_singleton]

theorem params_eq (h : Viewing s pid) : params s.shownPane s.selectedChatId s.selectedFilePath =
    (encodeBoth encodeURIComponent s.shownParams).map fun p => p.1 ++ '=' :: p.2 := by
  have happend : ∀ ps qs : List (Text × Text), encodeBoth encodeURIComponent (ps ++ qs) =
      encodeBoth encodeURIComponent ps ++ encodeBoth encodeURIComponent qs := fun ps qs => List.map_append
  unfold params Store.shownParams
  rw [happend, happend, List.map_append, List.map_append, encode_paneParam,
    encode_optional (by decide : encodeURIComponent "chat".toList = "chat".toList),
    encode_optional (by decide : encodeURIComponent "file".toList = "file".toList)]
  rcases h.active with ⟨id, hid, hsafe⟩ | ⟨path, hpath⟩
  · have hfile : s.selectedFilePath = none := chat_or_file.resolve_left (by simp [hid])
    rw [hid, hfile, hsafe.truthy, Option.toList_some, List.map_singleton, List.map_singleton, hsafe.encodeURIComponent]
    rfl
  · have hchat : s.selectedChatId = none := chat_or_file.resolve_right (by simp [hpath])
    rw [hchat, hpath, truthy_of_ne (List.cons_ne_nil _ _)]
    rfl

theorem shownParams_ne_nil (h : Viewing s pid) : s.shownParams ≠ [] := by
  unfold Store.shownParams
  rcases h.active with ⟨id, hid, -⟩ | ⟨path, hpath⟩
  · simp [hid]
  · simp [hpath]

theorem shownUrl_eq (h : Viewing s pid) : s.shownUrl =
    urlPath pid s.currentWorktreeId ++ '?' :: query (encodeBoth encodeURIComponent s.shownParams) := by
  unfold Store.shownUrl buildUrl
  rw [h.project, h.safe.truthy]
  have hparams := params_eq h
  unfold Store.shownPane at hparams
  have hne : (encodeBoth encodeURIComponent s.shownParams).map (fun p => p.1 ++ '=' :: p.2) ≠ [] := by
    simpa [encodeBoth] using shownParams_ne_nil h
  dsimp only
  rw [hparams, if_neg hne]
  rfl

end Writing

section Reading

theorem urlPath_none (pid : Text) : urlPath pid none = '/' :: 'p' :: '/' :: pid :=
  List.append_nil ('/' :: 'p' :: '/' :: pid)

theorem urlPath_some {w : Text} (hw : Safe w) (pid : Text) :
    urlPath pid (some w) = '/' :: 'p' :: '/' :: (pid ++ '/' :: 'w' :: '/' :: w) := by
  delta urlPath
  rw [hw.truthy]
  rfl

theorem urlPath_plain (hpid : Safe pid) (hwid : ∀ w, wid = some w → Safe w) {c : Char}
    (hc : (c.isAlphanum || c = '-') = false) (hslash : c ≠ '/') : c ∉ urlPath pid wid := by
  have hp : c ≠ 'p' := by
    rintro rfl
    exact absurd hc (by decide)
  have hw : c ≠ 'w' := by
    rintro rfl
    exact absurd hc (by decide)
  have hid := hpid.not_mem hc
  cases wid with
  | none =>
    rw [urlPath_none]
    simp [hp, hid, hslash]
  | some w =>
    rw [urlPath_some (hwid w rfl)]
    simp [hp, hid, hslash, hw, (hwid w rfl).not_mem hc]

theorem targets_urlPath (hpid : Safe pid) (hwid : ∀ w, wid = some w → Safe w) :
    targets (urlPath pid wid) = (some pid, wid) := by
  have hslash : ∀ {id : Text}, Safe id → '/' ∉ id := fun h => h.not_mem (by decide)
  have hkeep : ∀ {id : Text}, Safe id → (!id.isEmpty) = true := fun h => by simpa using h.ne_nil
  cases wid with
  | none =>
    have hsplit : (urlPath pid none).splitOn '/' = [[], "p".toList, pid] := by
      have hjoin : urlPath pid none = ['/'].intercalate [[], "p".toList, pid] := by
        rw [urlPath_none]
        simp [List.intercalate]
      rw [hjoin]
      exact List.splitOn_intercalate '/' (by simpa using hslash hpid) (by simp)
    simp [targets, hsplit, hpid.ne_nil]
  | some w =>
    have hw := hwid w rfl
    have hsplit : (urlPath pid (some w)).splitOn '/' = [[], "p".toList, pid, "w".toList, w] := by
      have hjoin : urlPath pid (some w) = ['/'].intercalate [[], "p".toList, pid, "w".toList, w] := by
        rw [urlPath_some hw]
        simp [List.intercalate]
      rw [hjoin]
      exact List.splitOn_intercalate '/' (by simpa using ⟨hslash hpid, hslash hw⟩) (by simp)
    simp [targets, hsplit, hpid.ne_nil, hw.ne_nil]

theorem validate_known {r : Router} (hpid : pid ∈ t.projects)
    (hwid : ∀ w, wid = some w → ∃ wts, t.worktrees pid = some wts ∧ w ∈ wts) :
    ∃ r', validate t ⟨r, some pid, wid⟩ = ⟨r', some pid, wid⟩ ∧ r'.url = r.url := by
  have hproject : ∀ r, checkProject t ⟨r, some pid, wid⟩ = ⟨r, some pid, wid⟩ := fun r => by
    simp [checkProject, Store.hasProject, hpid]
  have hworktree : ∀ r, checkWorktree t ⟨r, some pid, wid⟩ = ⟨r, some pid, wid⟩ := fun r => by
    cases wid with
    | none => rfl
    | some w =>
      obtain ⟨wts, hwts, hw⟩ := hwid w rfl
      simp [checkWorktree, hwts, hw]
  unfold validate
  dsimp only
  split
  · exact ⟨_, rfl, rfl⟩
  · rw [hproject, hworktree]
    exact ⟨_, rfl, rfl⟩

/-- A parameter that there may be is found under its name only. -/
theorem lookup_optional (name : Text) (value : Option Text) :
    (value.toList.map (fun v => (name, v))).lookup name = value := by
  cases value with
  | none => rfl
  | some v => simp

theorem lookup_chat : s.shownParams.lookup "chat".toList = s.selectedChatId := by
  have hpane : (paneParam s.shownPane).lookup "chat".toList = none := by
    unfold paneParam
    split <;> rfl
  have hfile : (s.selectedFilePath.toList.map (fun file => ("file".toList, file))).lookup "chat".toList = none := by
    cases s.selectedFilePath <;> rfl
  rw [Store.shownParams, List.lookup_append, List.lookup_append, hpane, hfile, lookup_optional, Option.none_or,
    Option.or_none]

theorem lookup_file : s.shownParams.lookup "file".toList = s.selectedFilePath := by
  have hpane : (paneParam s.shownPane).lookup "file".toList = none := by
    unfold paneParam
    split <;> rfl
  have hchat : (s.selectedChatId.toList.map (fun chat => ("chat".toList, chat))).lookup "file".toList = none := by
    cases s.selectedChatId <;> rfl
  rw [Store.shownParams, List.lookup_append, List.lookup_append, hpane, hchat, lookup_optional, Option.none_or,
    Option.none_or]

/-- What is read of an address is what was written, up to the second decoding. -/
theorem applyUrlToStore_shownUrl (hs : Viewing s pid) (ht : Fresh s t) :
    (applyUrlToStore { url := s.shownUrl } t).2 =
      openFile (openChat (selectTarget t (some pid) s.currentWorktreeId) s.selectedChatId) s.selectedFilePath := by
  have hsafe : ∀ w, s.currentWorktreeId = some w → Safe w := fun w hw => (hs.worktree w hw).1
  have hplace := @searchParams_location s.shownParams (urlPath pid s.currentWorktreeId)
    (urlPath_plain hs.safe hsafe (by decide) (by decide)) (urlPath_plain hs.safe hsafe (by decide) (by decide))
    (shownParams_ne_nil hs)
  rw [← shownUrl_eq hs] at hplace
  obtain ⟨hpath, hsearch⟩ := hplace
  obtain ⟨r, hr, hurl⟩ := @validate_known t pid s.currentWorktreeId { url := s.shownUrl, selfWrittenUrl := none }
    (by rw [ht.projects]; exact hs.known) (by rw [ht.worktrees]; exact fun w hw => (hs.worktree w hw).2)
  unfold applyUrlToStore
  dsimp only
  rw [if_neg (by decide), if_neg (by simp), hpath, targets_urlPath hs.safe hsafe]
  dsimp only
  rw [hr]
  dsimp only
  rw [hurl, hsearch, lookup_chat, lookup_file]

end Reading

section Applying

theorem activeTab_of_bare (h : t.Bare) : t.activeTab = none := by
  unfold Store.activeTab Store.currentScope
  cases hkey : t.currentScopeKey with
  | none => rfl
  | some key =>
    cases hget : t.byScope.get key with
    | none => simp [hget]
    | some scope => simp [hget, h key scope hget]

theorem bare_ensureCurrent (h : t.Bare) : t.ensureCurrent.Bare := by
  unfold Store.ensureCurrent
  split
  · rename_i key hkey
    intro other scope hscope
    rw [Store.get_ensureScope] at hscope
    split at hscope
    · cases hscope
      cases hget : t.byScope.get key with
      | none => rfl
      | some scope => exact h key scope hget
    · exact h other scope hscope
  · exact h

@[simp] theorem selected_ensureScope (key : Text) : (t.ensureScope key).selectedProjectId = t.selectedProjectId ∧
    (t.ensureScope key).selectedWorktreeByProject = t.selectedWorktreeByProject := by
  unfold Store.ensureScope
  split <;> exact ⟨rfl, rfl⟩

@[simp] theorem selected_update (key : Text) (f : Scope → Scope) :
    (t.update key f).selectedProjectId = t.selectedProjectId ∧
      (t.update key f).selectedWorktreeByProject = t.selectedWorktreeByProject := by
  unfold Store.update
  split <;> exact ⟨rfl, rfl⟩

theorem selected_ensureCurrent : t.ensureCurrent.selectedProjectId = t.selectedProjectId ∧
    t.ensureCurrent.selectedWorktreeByProject = t.selectedWorktreeByProject := by
  unfold Store.ensureCurrent
  split
  · exact selected_ensureScope _
  · exact ⟨rfl, rfl⟩

theorem selected_addTab (tab : UnifiedTab) : (t.addTab tab).selectedProjectId = t.selectedProjectId ∧
    (t.addTab tab).selectedWorktreeByProject = t.selectedWorktreeByProject := by
  unfold Store.addTab
  split
  · simp
  · exact ⟨rfl, rfl⟩

theorem currentWorktreeId_congr (h : t.selectedProjectId = s.selectedProjectId ∧
    t.selectedWorktreeByProject = s.selectedWorktreeByProject) : t.currentWorktreeId = s.currentWorktreeId := by
  unfold Store.currentWorktreeId
  rw [h.1, h.2]

/-- A scope is selected, and nothing is open. -/
structure Chosen (t : Store) (pid : Text) (wid : Option Text) : Prop where
  project : t.selectedProjectId = some pid
  worktree : t.currentWorktreeId = wid
  bare : t.Bare

theorem chosen_selectTarget (hpid : Safe pid) (h : t.Bare) (wid : Option Text) :
    Chosen (selectTarget t (some pid) wid) pid wid := by
  have hproject : ∃ t', (if t.selectedProjectId = some pid then t else t.selectProject pid) = t' ∧
      t'.selectedProjectId = some pid ∧ t'.Bare := by
    split
    · rename_i hsel
      exact ⟨t, rfl, hsel, h⟩
    · exact ⟨_, rfl, selected_ensureCurrent.1, bare_ensureCurrent h⟩
  obtain ⟨t', ht', hsel, hbare⟩ := hproject
  unfold selectTarget
  dsimp only
  rw [ht']
  split
  · rename_i hwid
    exact ⟨hsel, hwid.symm, hbare⟩
  · refine ⟨selected_ensureCurrent.1, ?_, bare_ensureCurrent hbare⟩
    unfold Store.selectWorktree
    rw [currentWorktreeId_congr selected_ensureCurrent]
    simp [Store.currentWorktreeId, hpid.truthy]

theorem Chosen.currentScopeKey (h : Chosen t pid wid) (hpid : Safe pid) :
    t.currentScopeKey = some (makeKey pid wid) := by
  unfold Store.currentScopeKey
  rw [h.project, hpid.truthy, h.worktree, Option.map_some]

/-- What is opened is shown, in the scope that was selected. -/
theorem Chosen.addTab (h : Chosen t pid wid) (hpid : Safe pid) {tab : UnifiedTab} (hid : tab.id ≠ []) :
    (t.addTab tab).selectedProjectId = some pid ∧ (t.addTab tab).currentWorktreeId = wid ∧
      (t.addTab tab).activeTab = some tab := by
  refine ⟨(selected_addTab tab).1.trans h.project, (currentWorktreeId_congr (selected_addTab tab)).trans h.worktree, ?_⟩
  unfold Store.activeTab
  rw [Store.addTab_currentScope, h.currentScopeKey hpid]
  have htabs : ((t.byScope.get (makeKey pid wid)).getD {}).tabs = [] := by
    cases hget : t.byScope.get (makeKey pid wid) with
    | none => rfl
    | some scope => exact h.bare _ scope hget
  simp [Scope.addTab, Scope.has, htabs, truthy_of_ne hid]

theorem Chosen.selectedChatId (h : Chosen t pid wid) : t.selectedChatId = none := by
  rw [Store.selectedChatId, activeTab_of_bare h.bare]

theorem Chosen.selectedFilePath (h : Chosen t pid wid) : t.selectedFilePath = none := by
  rw [Store.selectedFilePath, activeTab_of_bare h.bare]

theorem Chosen.openChat (h : Chosen t pid wid) (hpid : Safe pid) {id : Text} (hid : Safe id) :
    openChat t (some id) = t.addChatTab { id, title := "Chat".toList } := by
  have hnone : ∀ p : UnifiedTab → Bool, t.currentScope.any (fun scope => scope.tabs.any p) = false := fun p => by
    unfold Store.currentScope
    rw [h.currentScopeKey hpid, Option.bind_some]
    cases hget : t.byScope.get (makeKey pid wid) with
    | none => rfl
    | some scope => simp [h.bare _ scope hget]
  unfold App.openChat Store.ensureChatTab
  rw [hid.truthy, h.selectedChatId, h.currentScopeKey hpid]
  dsimp only
  rw [if_neg (by simp)]
  unfold Scope.has
  rw [hnone, hnone, if_neg Bool.false_ne_true, if_neg Bool.false_ne_true]

/-- A file is opened under the path that is decoded once more. -/
theorem fileId_ne_nil (path : Text) : fileId path ≠ [] :=
  List.append_ne_nil_of_left_ne_nil (by decide) path

theorem Chosen.openFile (h : Chosen t pid wid) (hpid : Safe pid) {path : Text} (hpath : path ≠ []) :
    (openFile t (some path)).1.selectedProjectId = some pid ∧ (openFile t (some path)).1.currentWorktreeId = wid ∧
      (openFile t (some path)).1.selectedChatId = none ∧
      (openFile t (some path)).1.selectedFilePath = decodeURIComponent path := by
  unfold App.openFile
  rw [truthy_of_ne hpath, h.selectedFilePath]
  dsimp only
  rw [if_neg (by simp)]
  cases hdecode : decodeURIComponent path with
  | none => exact ⟨h.project, h.worktree, h.selectedChatId, h.selectedFilePath⟩
  | some file =>
    obtain ⟨hp, hw, htab⟩ := h.addTab hpid
      (show (UnifiedTab.editor (fileId file) file (fileLabel file)).id ≠ [] from fileId_ne_nil file)
    refine ⟨hp, hw, ?_, ?_⟩
    · show (Store.addTab _ _).selectedChatId = none
      rw [Store.selectedChatId, htab]
    · show (Store.addTab _ _).selectedFilePath = some file
      rw [Store.selectedFilePath, htab]

theorem decodeURIComponent_eq_self_iff {path : Text} : decodeURIComponent path = some path ↔ '%' ∉ path :=
  ⟨fun h hmem => Nat.lt_irrefl _ (length_decodeURIComponent h hmem), decodeURIComponent_plain⟩

/-- The address of a view restores it, unless it shows a file with a percent sign in its path. -/
theorem url_restores_iff (hs : Viewing s pid) (ht : Fresh s t) :
    Restores s (applyUrlToStore { url := s.shownUrl } t).2.1 ↔ ∀ path, s.selectedFilePath = some path → '%' ∉ path := by
  have hchosen : Chosen (selectTarget t (some pid) s.currentWorktreeId) pid s.currentWorktreeId :=
    chosen_selectTarget hs.safe ht.bare _
  rw [applyUrlToStore_shownUrl hs ht]
  rcases hs.active with ⟨id, hid, hsafe⟩ | ⟨path, hpath⟩
  · have hfile : s.selectedFilePath = none := chat_or_file.resolve_left (by simp [hid])
    obtain ⟨hp, hw, htab⟩ :=
      @Chosen.addTab _ _ _ hchosen hs.safe (Scope.chatOf { id, title := "Chat".toList }) hsafe.ne_nil
    rw [hid, hfile, hchosen.openChat hs.safe hsafe]
    refine iff_of_true ⟨hp.trans hs.project.symm, hw, ?_, ?_⟩ (by simp)
    · rw [hid]
      show (Store.addTab _ _).selectedChatId = some id
      rw [Store.selectedChatId, htab]
      rfl
    · rw [hfile]
      show (Store.addTab _ _).selectedFilePath = none
      rw [Store.selectedFilePath, htab]
      rfl
  · have hchat : s.selectedChatId = none := chat_or_file.resolve_right (by simp [hpath])
    obtain ⟨hp, hw, hc, hf⟩ := hchosen.openFile hs.safe (List.cons_ne_nil '/' path)
    rw [hchat, hpath]
    have hopen : openChat (selectTarget t (some pid) s.currentWorktreeId) none =
        selectTarget t (some pid) s.currentWorktreeId := rfl
    rw [hopen]
    simp only [Option.some.injEq, forall_eq']
    rw [← decodeURIComponent_eq_self_iff]
    constructor
    · intro h
      rw [← hf, h.file, hpath]
    · exact fun h => ⟨hp.trans hs.project.symm, hw, hc.trans hchat.symm, by rw [hf, h, hpath]⟩

end Applying

section Examples

/-- A worktree of a project, with one file open. -/
def showing (path : Text) : Store where
  projects := ["p".toList]
  worktrees := fun _ => some ["w".toList]
  selectedProjectId := some "p".toList
  selectedWorktreeByProject := fun _ => some (some "w".toList)
  byScope := Assoc.Table.empty.upsert "p::w".toList
    { tabs := [.editor (fileId path) path (fileLabel path)], activeTab := some (fileId path) } (fun scope => scope)

def unopened : Store := freshStore ["p".toList] (fun _ => some ["w".toList]) none (fun _ => none)

theorem selectedFilePath_showing (path : Text) : (showing path).selectedFilePath = some path := by
  have hscope : (showing path).currentScope = some
      { tabs := [.editor (fileId path) path (fileLabel path)], activeTab := some (fileId path) } := rfl
  have htruthy : truthy (some (fileId path)) = some (fileId path) :=
    truthy_of_ne (fileId_ne_nil path)
  unfold Store.selectedFilePath Store.activeTab
  rw [hscope, Option.bind_some, htruthy]
  simp [UnifiedTab.id]

theorem safe_singleton {c : Char} (h : (c.isAlphanum || c = '-') = true) : Safe [c] where
  ne_nil := List.cons_ne_nil _ _
  plain := by
    intro d hd
    rw [List.mem_singleton.mp hd]
    exact h

theorem viewing_showing (path : Text) : Viewing (showing ('/' :: path)) "p".toList where
  project := rfl
  known := List.mem_singleton_self _
  safe := safe_singleton (by decide)
  worktree := by
    rintro wid ⟨⟩
    exact ⟨safe_singleton (by decide), _, rfl, List.mem_singleton_self _⟩
  active := Or.inr ⟨path, selectedFilePath_showing _⟩

theorem fresh_unopened (path : Text) : Fresh (showing path) unopened where
  projects := rfl
  worktrees := rfl
  bare := fun _ _ h => by cases h

theorem url_restores_marks :
    Restores (showing "/a#b&c+d".toList)
      (applyUrlToStore { url := (showing "/a#b&c+d".toList).shownUrl } unopened).2.1 :=
  (url_restores_iff (viewing_showing "a#b&c+d".toList) (fresh_unopened _)).mpr (by
    intro path h
    rw [selectedFilePath_showing, Option.some.injEq] at h
    rw [← h]
    decide)

/-- A percent sign in a path is decoded twice: another file is opened, or none. -/
theorem percent_decoded_twice :
    (showing "/a%20b".toList).shownUrl = "/p/p/w/w?file=%2Fa%2520b".toList ∧
    (applyUrlToStore { url := (showing "/a%20b".toList).shownUrl } unopened).2.1.selectedFilePath =
      some "/a b".toList ∧
    (applyUrlToStore { url := (showing "/100%".toList).shownUrl } unopened).2.1.selectedFilePath = none ∧
    (applyUrlToStore { url := (showing "/100%".toList).shownUrl } unopened).2.2 = false ∧
    ¬ Restores (showing "/a%20b".toList)
      (applyUrlToStore { url := (showing "/a%20b".toList).shownUrl } unopened).2.1 := by
  have hshort : (applyUrlToStore { url := (showing "/a%20b".toList).shownUrl } unopened).2.1.selectedFilePath =
      some "/a b".toList := by decide +kernel
  refine ⟨by decide +kernel, hshort, by decide +kernel, by decide +kernel, fun h => ?_⟩
  have hsame := hshort.symm.trans (h.file.trans (selectedFilePath_showing _))
  exact absurd hsame (by decide)

end Examples

end AgentGrove.App
