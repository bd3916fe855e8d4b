import AgentGrove.Model.WorktreeRestore

namespace AgentGrove.Git

open Worktrees (GitError)

/-- The path is a registered worktree, and has the branch checked out. -/
def Delivered (s : Site) (path branch : Text) : Prop :=
  s.worktrees.lookup path = some (.branch branch) ∧ s.place path = .dir true

def SameBranches (s s' : Site) : Prop := ∀ name, s'.refs.branches.lookup name = s.refs.branches.lookup name

def Untouched (s s' : Site) (path : Text) : Prop := s'.place path = s.place path ∧ SameBranches s s'

/-- A success has delivered, and an error has changed nothing. -/
def Honest (s : Site) (out : Except GitError Unit × Site) (path branch : Text) : Prop :=
  match out.1 with
  | .ok _ => Delivered out.2 path branch
  | .error _ => Untouched s out.2 path

/-- An addition that can begin finds no worktree in its way, and goes through or fails without a trace. -/
def Traceless (adding : Adding) (taken : Bool) (next : Prop) : Prop :=
  taken = false ∧ (adding = .done ∨ adding = .failed false ∧ next)

section Additions

variable {env : Surroundings} {s s' : Site} {adding : Adding} {path branch start : Text} {commit : Commit}

theorem delivered_install (s : Site) : Delivered (s.install path (.branch branch)) path branch :=
  ⟨List.lookup_cons_self, Function.update_self _ _ _⟩

theorem newBranch_absent (h : newBranch env s branch start = some commit) : s.hasBranch branch = false := by
  unfold newBranch at h
  split at h
  · rename_i hvalid
    simpa using (Bool.and_eq_true_iff.mp hvalid).2
  · cases h

theorem hasBranch_withBranch (s : Site) : (s.withBranch branch commit).hasBranch branch = true := by
  simp [Site.hasBranch, Site.withBranch]

/-- A branch that is there already is not made again. -/
theorem worktreeAddNew_present (h : s.hasBranch branch = true) :
    worktreeAddNew env s adding path branch start = (refused, s) := by
  have hnone : newBranch env s branch start = none := by
    unfold newBranch
    rw [h, Bool.not_true, Bool.and_false]
    rfl
  unfold worktreeAddNew
  rw [hnone]

/-- A branch that has been made is a change. -/
theorem made_changes (h : s.hasBranch branch = false) : ¬ SameBranches s (s'.withBranch branch commit) := by
  intro hsame
  have hlookup := hsame branch
  have hnone : s.refs.branches.lookup branch = none := by simpa [Site.hasBranch] using h
  rw [hnone, Site.withBranch, List.lookup_cons_self] at hlookup
  cases hlookup

theorem installed_changes {checkout : Checkout} (hfree : s.place path = .missing) :
    ¬ Untouched s (s'.install path checkout) path := by
  rintro ⟨hplace, -⟩
  have hdir : (s'.install path checkout).place path = .dir true := Function.update_self _ _ _
  rw [hfree, hdir] at hplace
  cases hplace

variable (s s' adding) in
/-- The last addition. -/
theorem addNew_honest (hfree : s.place path = .missing) (hplace : s'.place path = s.place path)
    (hgrown : s'.hasBranch branch = false → s.hasBranch branch = false) :
    Honest s (worktreeAddNew env s' adding path branch start) path branch ↔
      if (newBranch env s' branch start).isSome then
        Traceless adding (s'.taken path branch) (SameBranches s s')
      else SameBranches s s' := by
  unfold worktreeAddNew
  cases hnew : newBranch env s' branch start with
  | none => exact and_iff_right hplace
  | some commit =>
    have hmade : ¬ SameBranches s (s'.withBranch branch commit) := made_changes (hgrown (newBranch_absent hnew))
    rw [Option.isSome_some, if_pos rfl]
    dsimp only
    cases htaken : s'.taken path branch with
    | true => exact iff_of_false (fun h => hmade h.2) (fun h => by simpa using h.1)
    | false =>
      rw [if_neg Bool.false_ne_true]
      cases adding with
      | done => exact iff_of_true (delivered_install _) ⟨rfl, .inl rfl⟩
      | failed branchLeft =>
        cases branchLeft with
        | true => exact iff_of_false (fun h => hmade h.2) (by simp [Traceless])
        | false =>
          have hiff : Honest s (refused, s') path branch ↔ SameBranches s s' := and_iff_right hplace
          simpa [Traceless] using hiff
      | hookFailed => exact iff_of_false (installed_changes hfree) (by simp [Traceless])

/-- An addition without a new branch. -/
theorem add_honest (hfree : s.place path = .missing) :
    Honest s (worktreeAdd env s adding path branch) path branch ↔
      ∀ checkout, checkoutOf env s branch = some checkout → s.registered path = false →
        adding = .done ∧ checkout = .branch branch ∨ ∃ left, adding = .failed left := by
  have hsame : Untouched s s path := ⟨rfl, fun _ => rfl⟩
  unfold worktreeAdd
  cases hcheckout : checkoutOf env s branch with
  | none => exact iff_of_true hsame (by simp)
  | some checkout =>
    dsimp only
    cases hreg : s.registered path with
    | true => exact iff_of_true hsame (by simp)
    | false =>
      rw [if_neg Bool.false_ne_true]
      cases adding with
      | done =>
        have hiff : Honest s (.ok (), s.install path checkout) path branch ↔ checkout = .branch branch := by
          constructor
          · rintro ⟨hlookup, -⟩
            rw [Site.install, List.lookup_cons_self] at hlookup
            exact Option.some.inj hlookup
          · rintro rfl
            exact delivered_install s
        simpa using hiff
      | failed left => exact iff_of_true hsame (by simp)
      | hookFailed => exact iff_of_false (installed_changes hfree) (by simp)

end Additions

section Restore

variable (env : Surroundings) (s : Site) (path branch baseRef : Text)

/-- What the local base ref is needed for. -/
def FallsBack : Prop :=
  if (newBranch env (fetchRef env s baseRef) branch baseRef).isSome then
    Traceless env.fallback (s.taken path branch) (SameBranches s (fetchRef env s baseRef))
  else SameBranches s (fetchRef env s baseRef)

/-- A directory in some working tree is the worktree itself. An existing branch is checked out by name. A new one
is made from the remote or from the local base ref, and nothing stops an addition halfway. -/
structure Restorable : Prop where
  inside : s.place path = .dir true → env.start = .ok () → s.worktrees.lookup path = some (.branch branch)
  existing : s.place path = .missing → env.start = .ok () →
    (env.resolve s.refs (branchRef branch)).isSome = true →
    ∀ checkout, checkoutOf env s branch = some checkout → s.registered path = false →
      env.existing = .done ∧ checkout = .branch branch ∨ ∃ left, env.existing = .failed left
  recreated : s.place path = .missing → env.start = .ok () →
    (env.resolve s.refs (branchRef branch)).isSome = false →
    if (newBranch env (fetchRef env s baseRef) branch (remoteRef baseRef)).isSome then
      Traceless env.remote (s.taken path branch) (FallsBack env s path branch baseRef)
    else FallsBack env s path branch baseRef

theorem fetchRef_keeps : (fetchRef env s baseRef).place = s.place ∧ (fetchRef env s baseRef).worktrees = s.worktrees := by
  unfold fetchRef
  split
  · exact ⟨rfl, rfl⟩
  · exact ⟨rfl, rfl⟩

theorem fetchRef_grown (h : (fetchRef env s baseRef).hasBranch branch = false) : s.hasBranch branch = false := by
  unfold fetchRef at h
  split at h
  · simp [Site.hasBranch, Site.fetched, List.lookup_append] at h ⊢
    exact h.2
  · exact h

theorem fetchRef_taken : (fetchRef env s baseRef).taken path branch = s.taken path branch := by
  unfold Site.taken Site.registered Site.checkedOut
  rw [(fetchRef_keeps env s baseRef).2]

theorem fallback_honest (hfree : s.place path = .missing) :
    Honest s (worktreeAddNew env (fetchRef env s baseRef) env.fallback path branch baseRef) path branch ↔
      FallsBack env s path branch baseRef := by
  have hplace := congrFun (fetchRef_keeps env s baseRef).1 path
  rw [addNew_honest s _ _ hfree hplace (fetchRef_grown env s branch baseRef), fetchRef_taken]
  rfl

theorem recreate_honest (hfree : s.place path = .missing) :
    Honest s (recreate env s path branch baseRef) path branch ↔
      if (newBranch env (fetchRef env s baseRef) branch (remoteRef baseRef)).isSome then
        Traceless env.remote (s.taken path branch) (FallsBack env s path branch baseRef)
      else FallsBack env s path branch baseRef := by
  have hfallback := fallback_honest env s path branch baseRef hfree
  unfold recreate
  rw [worktreeAddNew]
  cases hnew : newBranch env (fetchRef env s baseRef) branch (remoteRef baseRef) with
  | none => exact hfallback
  | some commit =>
    have habsent := fetchRef_grown env s branch baseRef (newBranch_absent hnew)
    have hmade : ¬ SameBranches s ((fetchRef env s baseRef).withBranch branch commit) := made_changes habsent
    have hthere : ((fetchRef env s baseRef).withBranch branch commit).hasBranch branch = true :=
      hasBranch_withBranch _
    rw [fetchRef_taken, Option.isSome_some, if_pos rfl]
    dsimp only
    cases htaken : s.taken path branch with
    | true =>
      rw [if_pos rfl]
      dsimp only [refused]
      rw [worktreeAddNew_present hthere]
      exact iff_of_false (fun h => hmade h.2) (fun h => by simpa using h.1)
    | false =>
      rw [if_neg Bool.false_ne_true]
      cases env.remote with
      | done => exact iff_of_true (delivered_install _) ⟨rfl, .inl rfl⟩
      | failed branchLeft =>
        cases branchLeft with
        | true =>
          dsimp only [refused]
          rw [if_pos rfl, worktreeAddNew_present hthere]
          exact iff_of_false (fun h => hmade h.2) (by simp [Traceless])
        | false =>
          dsimp only [refused]
          rw [if_neg Bool.false_ne_true]
          simpa [Traceless] using hfallback
      | hookFailed =>
        have hinstalled : (((fetchRef env s baseRef).withBranch branch commit).install path (.branch branch)).hasBranch
            branch = true := hthere
        dsimp only
        rw [worktreeAddNew_present hinstalled]
        exact iff_of_false (installed_changes hfree) (by simp [Traceless])

/-- Restoring a worktree reports what it does exactly if the state is restorable. -/
theorem restore_honest_iff :
    Honest s (restoreWorktree env s path branch baseRef) path branch ↔ Restorable env s path branch baseRef := by
  have hsame : Untouched s s path := ⟨rfl, fun _ => rfl⟩
  unfold restoreWorktree isWorktreePath branchExists
  cases hplace : s.place path with
  | file =>
    have hable : Restorable env s path branch baseRef :=
      ⟨by simp [hplace], by simp [hplace], by simp [hplace]⟩
    cases hstart : env.start with
    | error e => exact iff_of_true hsame hable
    | ok => exact iff_of_true hsame hable
  | dir inside =>
    cases hstart : env.start with
    | error e => exact iff_of_true hsame ⟨by simp [hstart], by simp [hplace], by simp [hplace]⟩
    | ok =>
      cases inside with
      | false => exact iff_of_true hsame ⟨by simp [hplace], by simp [hplace], by simp [hplace]⟩
      | true =>
        constructor
        · rintro ⟨hlookup, -⟩
          exact ⟨fun _ _ => hlookup, by simp [hplace], by simp [hplace]⟩
        · intro h
          exact ⟨h.inside hplace hstart, hplace⟩
  | missing =>
    dsimp only
    rw [if_neg (by simp)]
    cases hstart : env.start with
    | error e => exact iff_of_true hsame ⟨by simp [hstart], by simp [hstart], by simp [hstart]⟩
    | ok =>
      cases hexists : (env.resolve s.refs (branchRef branch)).isSome with
      | true =>
        show Honest s (worktreeAdd env s env.existing path branch) path branch ↔ _
        rw [add_honest hplace]
        constructor
        · intro h
          exact ⟨by simp [hplace], fun _ _ _ => h, by simp [hexists]⟩
        · intro h
          exact h.existing hplace hstart hexists
      | false =>
        show Honest s (recreate env s path branch baseRef) path branch ↔ _
        rw [recreate_honest env s path branch baseRef hplace]
        constructor
        · intro h
          exact ⟨by simp [hplace], by simp [hexists], fun _ _ _ => h⟩
        · intro h
          exact h.recreated hplace hstart hexists

end Restore

/-- A directory inside another repository is reported as a restored worktree. -/
theorem restore_elsewhere : ∃ (env : Surroundings) (s : Site), s.place "/other/w".toList = .dir true ∧
    s.worktrees = [("/repo".toList, .branch "main".toList)] ∧
    restoreWorktree env s "/other/w".toList ['b'] "main".toList = (.ok (), s) ∧
    ¬ Honest s (restoreWorktree env s "/other/w".toList ['b'] "main".toList) "/other/w".toList ['b'] := by
  let env : Surroundings :=
    { resolve := fun refs name => refs.branches.lookup name, validBranch := fun _ => true, fetch := fun _ => refused }
  let s : Site := ⟨⟨[("main".toList, "c0".toList)], []⟩, [("/repo".toList, .branch "main".toList)], fun _ => .dir true⟩
  refine ⟨env, s, rfl, rfl, rfl, ?_⟩
  rintro ⟨hlookup, -⟩
  revert hlookup
  decide

end AgentGrove.Git
