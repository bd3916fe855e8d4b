import Mathlib.Algebra.Order.Ring.Nat
import Mathlib.Data.Char
import Mathlib.Data.List.Lex
import Mathlib.Data.Nat.Basic
import Mathlib.Tactic.Common

namespace Digits

/-- The last so many decimal digits of a number, with zeros in front. -/
def pad : Nat → Nat → List Char
  | 0, _ => []
  | w + 1, n => pad w (n / 10) ++ [Nat.digitChar (n % 10)]

/-- Numbers one after the other, each in its width and with a separator behind it. -/
def printAll : List (Nat × List Char) → List Nat → List Char
  | (w, sep) :: layout, n :: ns => pad w n ++ (sep ++ printAll layout ns)
  | _, _ => []

/-- Numbers that fit. -/
def Fits : List (Nat × List Char) → List Nat → Prop
  | (w, _) :: layout, n :: ns => n < 10 ^ w ∧ Fits layout ns
  | [], [] => True
  | _, _ => False

section Order

variable {α : Type*} [LinearOrder α] {s t u v : List α}

theorem append_lt (hl : s.length = t.length) (h : s < t) : s ++ u < t ++ v := by
  induction s generalizing t with
  | nil =>
    rw [List.length_nil] at hl
    rw [List.length_eq_zero_iff.mp hl.symm] at h
    exact absurd h (lt_irrefl _)
  | cons x s ih =>
    cases t with
    | nil => simp at hl
    | cons y t =>
      rw [List.cons_append, List.cons_append, List.cons_lt_cons_iff]
      rcases List.cons_lt_cons_iff.mp h with hxy | ⟨rfl, hst⟩
      · exact Or.inl hxy
      · exact Or.inr ⟨rfl, ih (by simpa using hl) hst⟩

theorem append_lt_left (s : List α) (h : t < u) : s ++ t < s ++ u := by
  induction s with
  | nil => exact h
  | cons x s ih => exact List.cons_lt_cons_iff.mpr (Or.inr ⟨rfl, ih⟩)

end Order

variable {w m n : Nat} {layout : List (Nat × List Char)} {ms ns : List Nat}

@[simp] theorem length_pad : (pad w n).length = w := by
  induction w generalizing n with
  | zero => rfl
  | succ w ih => simp [pad, ih]

theorem isDigit_pad {c : Char} (h : c ∈ pad w n) : c.isDigit = true := by
  induction w generalizing n with
  | zero => simp [pad] at h
  | succ w ih =>
    have hdigit : ∀ k < 10, (Nat.digitChar k).isDigit = true := by decide
    rcases List.mem_append.mp h with h | h
    · exact ih h
    · rw [List.mem_singleton.mp h]
      exact hdigit _ (Nat.mod_lt _ (by decide))

/-- In one width the order of the texts is that of the numbers. -/
theorem pad_lt (h : m < n) (hn : n < 10 ^ w) : pad w m < pad w n := by
  induction w generalizing m n with
  | zero => simp at hn; omega
  | succ w ih =>
    have hdigit : ∀ i < 10, ∀ j < i, Nat.digitChar j < Nat.digitChar i := by decide
    unfold pad
    rcases Nat.lt_or_eq_of_le (Nat.div_le_div_right (c := 10) h.le) with hlt | heq
    · exact append_lt (by simp) (ih hlt (by rw [Nat.pow_succ] at hn; omega))
    · rw [heq]
      refine append_lt_left _ (List.cons_lt_cons_iff.mpr (Or.inl ?_))
      exact hdigit _ (Nat.mod_lt _ (by decide)) _ (by omega)

/-- Numbers that fit their widths are in the order of their texts. -/
theorem printAll_lt (hms : Fits layout ms) (hns : Fits layout ns) (h : ms < ns) :
    printAll layout ms < printAll layout ns := by
  induction layout generalizing ms ns with
  | nil =>
    cases ms with
    | nil =>
      cases ns with
      | nil => exact absurd h (lt_irrefl _)
      | cons n ns => exact absurd hns (by simp [Fits])
    | cons m ms => exact absurd hms (by simp [Fits])
  | cons field layout ih =>
    cases ms with
    | nil => exact absurd hms (by simp [Fits])
    | cons m ms =>
      cases ns with
      | nil => exact absurd hns (by simp [Fits])
      | cons n ns =>
        rcases List.cons_lt_cons_iff.mp h with hmn | ⟨rfl, hrest⟩
        · exact append_lt (by simp) (pad_lt hmn hns.1)
        · exact append_lt_left _ (append_lt_left _ (ih hms.2 hns.2 hrest))

theorem length_printAll (hms : Fits layout ms) (hns : Fits layout ns) :
    (printAll layout ms).length = (printAll layout ns).length := by
  induction layout generalizing ms ns with
  | nil => simp [printAll]
  | cons field layout ih =>
    cases ms with
    | nil => exact absurd hms (by simp [Fits])
    | cons m ms =>
      cases ns with
      | nil => exact absurd hns (by simp [Fits])
      | cons n ns => simp [printAll, ih hms.2 hns.2]

end Digits
