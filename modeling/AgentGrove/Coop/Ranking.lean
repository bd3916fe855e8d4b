import Mathlib.Data.List.Dedup
import Mathlib.Data.List.Induction
import Mathlib.Data.List.Pairwise
import Mathlib.Data.List.Sort

namespace Coop

variable {α : Type*} {l : List α} {a b : α}

/-- Two lists of the same entries in a strict order are one. -/
theorem eq_of_strict {r : α → α → Prop} (hr : ∀ a b, r a b → ¬ r b a) {l m : List α}
    (h : l.Perm m) (hl : l.Pairwise r) (hm : m.Pairwise r) : l = m :=
  List.Perm.eq_of_pairwise (fun a b _ _ hab hba => absurd hba (hr a b hab)) hl hm h

/-- A list in a strict order that implies the relation is what sorting makes of its entries. -/
theorem insertionSort_strict {r s : α → α → Prop} [DecidableRel r] [Std.Total r] [IsTrans α r]
    (hs : ∀ a b, s a b → r a b ∧ ¬ r b a) {l m : List α} (h : l.Perm m) (hm : m.Pairwise s) :
    l.insertionSort r = m := by
  have hsorted : (l.insertionSort r).Pairwise r := List.pairwise_insertionSort r l
  have hperm := (List.perm_insertionSort r l).trans h
  have hone : m.Pairwise (fun a b => ¬ (r a b ∧ r b a)) := by
    apply hm.imp
    intro a b hab hr
    exact (hs a b hab).2 hr.2
  refine List.Perm.eq_of_pairwise (fun a b ha hb hab hba => ?_) hsorted
    (hm.imp fun hab => (hs _ _ hab).1) hperm
  by_contra hne
  have : Std.Symm (fun a b => ¬ (r a b ∧ r b a)) := ⟨fun a b hn h => hn h.symm⟩
  exact hone.forall (hperm.mem_iff.mp ha) hb hne ⟨hab, hba⟩

variable [DecidableEq α]

/-- Every entry of a list without repetitions stands where it is found. -/
theorem pairwise_idxOf (h : l.Nodup) : l.Pairwise (fun a b => l.idxOf a < l.idxOf b) := by
  rw [List.pairwise_iff_getElem]
  intro i j hi hj hlt
  rw [h.idxOf_getElem, h.idxOf_getElem]
  exact hlt

theorem idxOf?_of_mem (h : a ∈ l) : l.idxOf? a = some (l.idxOf a) := by
  cases hk : l.idxOf? a with
  | none => exact absurd h (List.idxOf?_eq_none_iff.mp hk)
  | some k =>
    rw [List.idxOf_eq_getD_idxOf?, hk]
    rfl

/-- The entries of a list by their first occurrence. -/
def firsts (l : List α) : List α := l.reverse.dedup.reverse

theorem firsts_concat (l : List α) (a : α) :
    firsts (l ++ [a]) = if a ∈ l then firsts l else firsts l ++ [a] := by
  unfold firsts
  by_cases h : a ∈ l
  · simp [h]
  · simp [h]

@[simp] theorem mem_firsts : a ∈ firsts l ↔ a ∈ l := by
  simp [firsts]

theorem nodup_firsts (l : List α) : (firsts l).Nodup :=
  List.nodup_reverse.mpr (List.nodup_dedup _)

theorem idxOf_concat_lt {l : List α} (x : α) (h : l.idxOf a < l.idxOf b) :
    (l ++ [x]).idxOf a < (l ++ [x]).idxOf b := by
  have ha : a ∈ l := by
    rw [← List.idxOf_lt_length_iff]
    exact Nat.lt_of_lt_of_le h List.idxOf_le_length
  rw [List.idxOf_append_of_mem ha]
  by_cases hb : b ∈ l
  · rwa [List.idxOf_append_of_mem hb]
  · rw [List.idxOf_append_of_notMem hb]
    exact Nat.lt_of_lt_of_le (List.idxOf_lt_length_of_mem ha) (Nat.le_add_right _ _)

/-- Those that meet a condition, by their first occurrence in the whole list. -/
theorem pairwise_firsts (p : α → Bool) (l : List α) :
    (firsts (l.filter p)).Pairwise (fun a b => l.idxOf a < l.idxOf b) := by
  induction l using List.reverseRecOn with
  | nil => exact .nil
  | append_singleton l x ih =>
    have hold := ih.imp (fun h => idxOf_concat_lt x h)
    by_cases hp : p x = true
    · have hx : [x].filter p = [x] := List.filter_cons_of_pos hp
      rw [List.filter_append, hx, firsts_concat]
      split
      · exact hold
      · rename_i hx
        refine List.pairwise_append.mpr ⟨hold, List.pairwise_singleton _ _, ?_⟩
        intro a ha b hb
        rw [List.mem_singleton.mp hb]
        have hal : a ∈ l := List.mem_of_mem_filter (mem_firsts.mp ha)
        have hxl : x ∉ l := fun h => hx (List.mem_filter.mpr ⟨h, hp⟩)
        rw [List.idxOf_append_of_mem hal, List.idxOf_append_of_notMem hxl]
        exact Nat.lt_of_lt_of_le (List.idxOf_lt_length_of_mem hal) (Nat.le_add_right _ _)
    · have hx : [x].filter p = [] := List.filter_cons_of_neg hp
      rw [List.filter_append, hx, List.append_nil]
      exact hold

end Coop
