import AgentGrove.Model.WorkTree
import AgentGrove.Wire.Tables

namespace AgentGrove.Git

open Assoc (lookup_filter lookup_map)
open Worktrees (GitError)

section Commands

variable {C : Type} {o : Outside C} {t : WorkTree C} {spec : Text}

theorem unknown {path : Text} (h : t.known path = false) :
    t.committed.lookup path = none ∧ t.index.lookup path = none := by
  simpa [WorkTree.known] using h

theorem restored_index (path : Text) : (restored o t spec).index.lookup path =
    if o.selects spec path && t.known path then (t.committed.lookup path).map .blob
    else if inTheWay o t spec path then none else t.index.lookup path := by
  unfold restored
  dsimp only
  rw [List.lookup_append, lookup_map, lookup_filter, lookup_filter (fun p => !o.selects spec p && !inTheWay o t spec p)]
  cases hsel : o.selects spec path with
  | false => cases inTheWay o t spec path <;> simp
  | true =>
    cases hknown : t.known path with
    | true => simp
    | false =>
      obtain ⟨hhead, hindex⟩ := unknown hknown
      simp [hhead, hindex]

theorem restored_work (path : Text) : (restored o t spec).work.lookup path =
    if o.selects spec path && t.known path then t.committed.lookup path
    else if inTheWay o t spec path then none else t.work.lookup path := by
  unfold restored
  dsimp only
  rw [List.lookup_append, lookup_filter,
    lookup_filter (fun p => !(o.selects spec p && t.known p) && !inTheWay o t spec p)]
  cases hsel : o.selects spec path with
  | false => cases inTheWay o t spec path <;> simp
  | true =>
    cases hknown : t.known path with
    | true => simp
    | false => cases inTheWay o t spec path <;> simp [(unknown hknown).1]

theorem cleaned_work (path : Text) : (cleaned o t spec).work.lookup path =
    if o.selects spec path && t.untracked o path then none else t.work.lookup path := by
  unfold cleaned
  dsimp only
  rw [lookup_filter (fun p => !(o.selects spec p && t.untracked o p))]
  cases o.selects spec path && t.untracked o path <;> rfl

theorem removeFile_work {path : Text} (h : path ≠ spec) :
    (removeFile t spec).work.lookup path = t.work.lookup path := by
  unfold removeFile
  dsimp only
  rw [lookup_filter (fun p => decide (p ≠ spec)), if_pos (by simpa using h)]

end Commands

/-- What an entry of the status list stands for: a file, or all that is in a directory of untracked files. -/
def names (entry path : Text) : Bool := path == entry || (entry.getLast? == some '/' && entry.isPrefixOf path)

section Frame

variable {C : Type} (o : Outside C) (w : Calls) (t : WorkTree C) (entry : Text)

/-- All other paths have the content that they had. -/
def Kept (t t' : WorkTree C) (entry : Text) : Prop :=
  ∀ path, names entry path = false →
    t'.index.lookup path = t.index.lookup path ∧ t'.work.lookup path = t.work.lookup path

/-- The entry is restored. -/
structure Restores : Prop where
  accepted : refusal entry = none
  tracked : (w.lsFiles.isOk && lsFiles o t entry) = true
  runs : w.restore = .ok ()
  restorable : restorable o t entry = true

/-- The entry is cleaned. -/
structure Cleans : Prop where
  accepted : refusal entry = none
  untracked : (w.lsFiles.isOk && lsFiles o t entry) = false
  directory : metadata o t entry = .dir
  runs : w.clean = .ok ()

/-- Neither in the index nor in the working tree anything differs from HEAD. -/
def Unchanged (path : Text) : Prop :=
  t.index.lookup path = (t.committed.lookup path).map .blob ∧ t.work.lookup path = t.committed.lookup path

def Absent (path : Text) : Prop := t.index.lookup path = none ∧ t.work.lookup path = none

/-- A name that is restored selects, as a pathspec, no other path that has changes, and no other path stands where
a file is restored; a name that is cleaned selects no other untracked path. -/
structure Selective : Prop where
  restored : Restores o w t entry → ∀ path, names entry path = false →
    if o.selects entry path && t.known path then Unchanged t path
    else inTheWay o t entry path = true → Absent t path
  cleaned : Cleans o w t entry → ∀ path, names entry path = false →
    ¬ (o.selects entry path = true ∧ t.untracked o path = true)

variable {o w t entry}

theorem Kept.rfl : Kept t t entry := fun _ _ => ⟨Eq.refl _, Eq.refl _⟩

theorem kept_restored : Kept t (restored o t entry) entry ↔ ∀ path, names entry path = false →
    if o.selects entry path && t.known path then Unchanged t path
    else inTheWay o t entry path = true → Absent t path := by
  apply forall₂_congr
  intro path _
  rw [restored_index, restored_work]
  cases o.selects entry path && t.known path with
  | true => exact and_congr eq_comm eq_comm
  | false =>
    cases inTheWay o t entry path with
    | true =>
      have hiff : none = t.index.lookup path ∧ none = t.work.lookup path ↔ Absent t path :=
        and_congr eq_comm eq_comm
      simpa using hiff
    | false => simp

theorem kept_cleaned : Kept t (cleaned o t entry) entry ↔ ∀ path, names entry path = false →
    ¬ (o.selects entry path = true ∧ t.untracked o path = true) := by
  apply forall₂_congr
  intro path _
  rw [cleaned_work]
  constructor
  · rintro ⟨-, hwork⟩ ⟨hsel, hun⟩
    rw [hsel, hun] at hwork
    have hsome : (t.work.lookup path).isSome = true := by
      simp only [WorkTree.untracked, Bool.and_eq_true] at hun
      exact hun.1.1
    rw [← hwork] at hsome
    cases hsome
  · intro h
    have hkeep : (o.selects entry path && t.untracked o path) = false := by simpa using h
    rw [hkeep]
    exact ⟨Eq.refl _, Eq.refl _⟩

theorem kept_removeFile : Kept t (removeFile t entry) entry := by
  intro path hname
  have hne : path ≠ entry := by
    rintro rfl
    simp [names] at hname
  exact ⟨Eq.refl _, removeFile_work hne⟩

/-- The four ways of a discard. -/
inductive Course (o : Outside C) (w : Calls) (t : WorkTree C) (entry : Text) : WorkTree C → Prop where
  | restored (h : Restores o w t entry) : Course o w t entry (restored o t entry)
  | cleaned (h : Cleans o w t entry) : Course o w t entry (cleaned o t entry)
  | removed (h : ¬ Restores o w t entry) (h' : ¬ Cleans o w t entry) : Course o w t entry (removeFile t entry)
  | none (h : ¬ Restores o w t entry) (h' : ¬ Cleans o w t entry) : Course o w t entry t

theorem discardPath_course : Course o w t entry (discardPath o w t entry).2 := by
  unfold discardPath
  cases hrefusal : refusal entry with
  | some e => exact .none (fun h => by simpa [hrefusal] using h.accepted) fun h => by simpa [hrefusal] using h.accepted
  | none =>
    dsimp only
    cases htracked : w.lsFiles.isOk && lsFiles o t entry with
    | true =>
      have hclean : ¬ Cleans o w t entry := fun h => by simpa [htracked] using h.untracked
      rw [if_pos (Eq.refl _)]
      cases hruns : w.restore with
      | error e => exact .none (fun h => by simpa [hruns] using h.runs) hclean
      | ok =>
        unfold command gitRestore
        dsimp only
        split
        · rename_i hable
          exact .restored ⟨hrefusal, htracked, hruns, hable⟩
        · rename_i hable
          exact .none (fun h => hable h.restorable) hclean
    | false =>
      have hrestore : ¬ Restores o w t entry := fun h => by simpa [htracked] using h.tracked
      rw [if_neg Bool.false_ne_true]
      cases hstat : metadata o t entry with
      | file =>
        have hclean : ¬ Cleans o w t entry := fun h => by simpa [hstat] using h.directory
        dsimp only [command]
        cases w.removeFile with
        | ok => exact .removed hrestore hclean
        | error e => exact .none hrestore hclean
      | dir =>
        dsimp only [command]
        cases hruns : w.clean with
        | ok => exact .cleaned ⟨hrefusal, htracked, hstat, hruns⟩
        | error e => exact .none hrestore fun h => by simpa [hruns] using h.runs
      | other => exact .none hrestore fun h => by simpa [hstat] using h.directory
      | notFound => exact .none hrestore fun h => by simpa [hstat] using h.directory
      | error e => exact .none hrestore fun h => by simpa [hstat] using h.directory

theorem Course.kept {t' : WorkTree C} (h : Course o w t entry t') :
    Kept t t' entry ↔ Selective o w t entry := by
  cases h with
  | restored h =>
    have hclean : ¬ Cleans o w t entry := fun h' => by simpa [h.tracked] using h'.untracked
    rw [kept_restored]
    exact ⟨fun hkept => ⟨fun _ => hkept, fun h' => absurd h' hclean⟩, fun hsel => hsel.restored h⟩
  | cleaned h =>
    have hrestore : ¬ Restores o w t entry := fun h' => by simpa [h.untracked] using h'.tracked
    rw [kept_cleaned]
    exact ⟨fun hkept => ⟨fun h' => absurd h' hrestore, fun _ => hkept⟩, fun hsel => hsel.cleaned h⟩
  | removed h h' =>
    exact iff_of_true kept_removeFile ⟨fun hr => absurd hr h, fun hc => absurd hc h'⟩
  | none h h' =>
    exact iff_of_true .rfl ⟨fun hr => absurd hr h, fun hc => absurd hc h'⟩

/-- A discard keeps all other paths exactly if the name, read as a pathspec, selects none that has something to
lose. -/
theorem discard_kept_iff (o : Outside C) (w : Calls) (t : WorkTree C) (entry : Text) :
    Kept t (discardPath o w t entry).2 entry ↔ Selective o w t entry := discardPath_course.kept

end Frame

/-- Wildcards, as far as the file below needs them. -/
def wildmatch : Text → Text → Bool
  | [], path => path.isEmpty
  | '*' :: spec, path => path.tails.any (wildmatch spec)
  | '?' :: spec, path =>
    match path with
    | _ :: path => wildmatch spec path
    | [] => false
  | c :: spec, path =>
    match path with
    | d :: path => c == d && wildmatch spec path
    | [] => false

def pathspec (spec path : Text) : Bool := path == spec || below spec path || wildmatch spec path

/-- An untracked file `*`, and a change in `a` that is nowhere else. -/
theorem discard_star : ∃ (o : Outside Nat) (t : WorkTree Nat), o.selects = pathspec ∧
    t = ⟨some [(['a'], 0)], [(['a'], .blob 0)], [(['a'], 1), (['*'], 2)], []⟩ ∧
    t.untracked o ['*'] = true ∧ (discardPath o {} t ['*']).1.toOption = some .restored ∧
    (discardPath o {} t ['*']).2.work.lookup ['a'] = some 0 ∧ ¬ Kept t (discardPath o {} t ['*']).2 ['*'] := by
  let o : Outside Nat := ⟨pathspec, fun _ => false, fun _ _ => .file⟩
  refine ⟨o, _, rfl, rfl, by decide, by decide, by decide, ?_⟩
  intro hkept
  obtain ⟨-, hwork⟩ := hkept ['a'] (by decide)
  revert hwork
  decide

end AgentGrove.Git
