import AgentGrove.Model.BaseBranch
import AgentGrove.Git.Discarding

namespace AgentGrove.Git

open Assoc (lookup_filter lookup_map)
open Worktrees (GitError)

/-- HEAD, index, working tree and merge state are the same. -/
structure Same {C : Type} (t t' : MergeTree C) : Prop where
  commit : t'.commit = t.commit
  head : t'.head = t.head
  index : ∀ path, t'.index.lookup path = t.index.lookup path
  work : ∀ path, t'.work.lookup path = t.work.lookup path
  mergeHead : t'.mergeHead = t.mergeHead

theorem Same.rfl {C : Type} {t : MergeTree C} :
    Same t t := ⟨Eq.refl _, Eq.refl _, fun _ => Eq.refl _, fun _ => Eq.refl _, Eq.refl _⟩

section Abort

variable {C : Type} [DecidableEq C] {t : MergeTree C} {path : Text}

theorem resetMerge_index : (resetMerge t).index.lookup path = (t.head.lookup path).map .blob := lookup_map _

theorem resetMerge_work : (resetMerge t).work.lookup path =
    if t.Committed path then t.work.lookup path else t.head.lookup path := by
  unfold resetMerge
  dsimp only
  rw [List.lookup_append, lookup_filter (fun p => decide (¬ t.Committed p)),
    lookup_filter (fun p => decide (t.Committed p))]
  by_cases hcommitted : t.Committed path <;> simp [hcommitted]

variable (s : Stopped t)

omit [DecidableEq C] in
theorem Stopped.committed_of_kept (h : path ∉ s.touched) : s.left.Committed path := by
  unfold MergeTree.Committed
  rw [(s.kept path h).1, s.head]
  exact s.committed path

/-- Nothing keeps a merge that has stopped from being aborted. -/
theorem Stopped.resettable : resettable s.left = true := by
  unfold Git.resettable
  rw [List.all_eq_true]
  intro path _
  by_cases htouched : path ∈ s.touched
  · cases hindex : s.left.index.lookup path with
    | none => simp [s.removed path hindex htouched]
    | some staged =>
      cases staged with
      | blob content => simp [s.merged path content hindex htouched]
      | unmerged stages => simp
  · have hcommitted := s.committed_of_kept htouched
    cases s.left.index.lookup path with
    | none => simp [hcommitted]
    | some staged =>
      cases staged with
      | blob content => simp [hcommitted]
      | unmerged stages => simp

omit [DecidableEq C] in
/-- A touched path that still has what HEAD has was not written. -/
theorem Stopped.work_of_committed (htouched : path ∈ s.touched) (h : s.left.Committed path) :
    s.left.work.lookup path = t.work.lookup path := by
  unfold MergeTree.Committed at h
  rw [s.head] at h
  rw [s.clean path htouched]
  cases hhead : t.head.lookup path with
  | none =>
    rw [hhead] at h
    exact s.removed path h htouched
  | some content =>
    rw [hhead] at h
    exact s.merged path content h htouched

/-- Aborting a merge that has stopped restores what was there before. -/
theorem Stopped.same_abort (hidle : t.mergeHead = none) : Same t (mergeAbort s.left true) := by
  have hreset : mergeAbort s.left true = resetMerge s.left := by
    unfold mergeAbort
    rw [s.merging, s.resettable]
    rfl
  rw [hreset]
  refine ⟨s.commit, s.head, ?_, ?_, hidle.symm⟩
  · intro path
    rw [resetMerge_index, s.head]
    exact (s.committed path).symm
  · intro path
    rw [resetMerge_work]
    by_cases htouched : path ∈ s.touched
    · split
      · rename_i hcommitted
        exact s.work_of_committed htouched hcommitted
      · rw [s.head]
        exact (s.clean path htouched).symm
    · rw [if_pos (s.committed_of_kept htouched)]
      exact (s.kept path htouched).2

theorem mergeAbort_idle {runs : Bool} (h : t.mergeHead = none) : mergeAbort t runs = t := by
  unfold mergeAbort
  rw [h]
  simp

end Abort

section Merge

variable {C : Type} [DecidableEq C] {t : MergeTree C} (fetch : Except GitError Unit) (becomes : Merge t) (abort : Bool)

/-- A failure leaves everything as it was. -/
def Atomic (t : MergeTree C) (out : Except GitError Text × MergeTree C) : Prop :=
  match out.1 with
  | .ok _ => True
  | .error _ => Same t out.2

/-- If a merge is in progress the abort does not get through to it; otherwise the merge does not die, and the abort
runs if it stops. -/
def Undisturbed : Prop :=
  if t.mergeHead.isSome then (abort && resettable t) = false
  else
    match becomes with
    | .merged _ _ | .refused _ => True
    | .stopped _ _ => abort = true
    | .died _ _ _ _ _ => False

/-- A merge of the base is atomic on failure exactly if the fetch fails or the worktree is undisturbed. -/
theorem mergeBase_atomic_iff : Atomic t (mergeBaseIntoWorktree t fetch becomes abort) ↔
    (fetch = .ok () → Undisturbed becomes abort) := by
  unfold mergeBaseIntoWorktree
  cases fetch with
  | error e => exact iff_of_true .rfl (by simp)
  | ok =>
    rw [forall_prop_of_true rfl]
    unfold gitMerge Undisturbed
    cases hmerging : t.mergeHead.isSome with
    | true =>
      show Same t (mergeAbort t abort) ↔ _
      unfold mergeAbort
      rw [hmerging, Bool.and_true, if_pos rfl]
      cases habort : abort && resettable t with
      | false => exact iff_of_true .rfl rfl
      | true =>
        refine iff_of_false (fun h => ?_) (by simp)
        have hnone : t.mergeHead = none := h.mergeHead.symm
        rw [hnone] at hmerging
        cases hmerging
    | false =>
      have hidle : t.mergeHead = none := by simpa using hmerging
      rw [if_neg Bool.false_ne_true, if_neg Bool.false_ne_true]
      cases becomes with
      | merged out result => exact Iff.rfl
      | refused e =>
        show Same t (mergeAbort t abort) ↔ True
        rw [mergeAbort_idle hidle]
        exact iff_of_true .rfl trivial
      | stopped e s =>
        show Same t (mergeAbort s.left abort) ↔ abort = true
        cases abort with
        | true => exact iff_of_true (s.same_abort hidle) rfl
        | false =>
          refine iff_of_false (fun h => ?_) (by simp)
          have hmerging := s.merging
          have hleft : s.left.mergeHead = t.mergeHead := h.mergeHead
          rw [hleft, hidle] at hmerging
          cases hmerging
      | died e left path changed unrecorded =>
        show Same t (mergeAbort left abort) ↔ False
        rw [mergeAbort_idle unrecorded]
        exact iff_of_false (fun h => changed (h.work path)) (by simp)

end Merge

/-- A merge of the user's own, whose only conflict is resolved and staged, is thrown away. -/
theorem mergeBase_resolution_lost : ∃ t : MergeTree Nat,
    t = ⟨['c'], [(['a'], 0)], [(['a'], .blob 1)], [(['a'], 1)], some ['d']⟩ ∧
    ∀ becomes : Merge t, (mergeBaseIntoWorktree t (.ok ()) becomes true).1.isOk = false ∧
      (mergeBaseIntoWorktree t (.ok ()) becomes true).2 =
        ⟨['c'], [(['a'], 0)], [(['a'], .blob 0)], [(['a'], 0)], none⟩ ∧
      ¬ Atomic t (mergeBaseIntoWorktree t (.ok ()) becomes true) := by
  refine ⟨_, rfl, fun becomes => ⟨rfl, rfl, fun h => ?_⟩⟩
  have hsame : Same _ _ := h
  have hmerging := hsame.mergeHead
  cases hmerging

end AgentGrove.Git
