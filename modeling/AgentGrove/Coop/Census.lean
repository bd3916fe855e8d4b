import Mathlib.Data.List.Basic
import Mathlib.Data.List.Count
import Mathlib.Data.List.Perm.Basic
import Mathlib.Tactic.Common

namespace Coop

variable {α : Type*} {l : List α} {p : α → Bool} {i : Nat} {a b : α}

theorem toNat_eq_ite (b : Bool) : b.toNat = if b then 1 else 0 := by cases b <;> rfl

/-- Replacing one element changes a count by that element alone. -/
theorem countP_set_add (h : l[i]? = some a) (p : α → Bool) (b : α) :
    (l.set i b).countP p + (p a).toNat = l.countP p + (p b).toNat := by
  induction l generalizing i with
  | nil => simp at h
  | cons x l ih =>
    cases i with
    | zero =>
      cases h
      simp only [List.set_cons_zero, List.countP_cons, toNat_eq_ite]
      omega
    | succ i =>
      have := ih (i := i) (by simpa using h)
      simp only [List.set_cons_succ, List.countP_cons]
      omega

/-- And a concatenation of lists by that element's list alone. -/
theorem flatMap_set_perm {β : Type*} (h : l[i]? = some a) (f : α → List β) (b : α) :
    ((l.set i b).flatMap f ++ f a).Perm (l.flatMap f ++ f b) := by
  induction l generalizing i with
  | nil => cases h
  | cons x l ih =>
    cases i with
    | zero =>
      cases h
      rw [List.set_cons_zero, List.flatMap_cons, List.flatMap_cons]
      refine List.perm_append_comm.trans ?_
      rw [List.append_assoc]
      exact List.perm_append_comm.append_left _
    | succ i =>
      rw [List.set_cons_succ, List.flatMap_cons, List.flatMap_cons, List.append_assoc,
        List.append_assoc]
      exact (ih h).append_left _

theorem countP_concat (l : List α) (p : α → Bool) (b : α) :
    (l ++ [b]).countP p = l.countP p + (p b).toNat := by
  cases h : p b <;> simp [List.countP_append, h]

theorem mem_set (h : b ∈ l.set i a) : b = a ∨ b ∈ l := (List.mem_or_eq_of_mem_set h).symm

theorem mem_of_get (h : l[i]? = some a) : a ∈ l := List.mem_of_getElem? h

theorem get_set_self (h : l[i]? = some a) (b : α) : (l.set i b)[i]? = some b := by
  have hl := (List.getElem?_eq_some_iff.mp h).1
  simp [hl]

theorem get_append (h : l[i]? = some a) (b : α) : (l ++ [b])[i]? = some a := by
  rw [List.getElem?_append_left (List.getElem?_eq_some_iff.mp h).1]
  exact h

theorem get_concat {j : Nat} (h : (l ++ [a])[j]? = some b) :
    l[j]? = some b ∨ j = l.length ∧ b = a := by
  rcases Nat.lt_or_ge j l.length with hlt | hge
  · rw [List.getElem?_append_left hlt] at h
    exact .inl h
  · rw [List.getElem?_append_right hge] at h
    have hl := (List.getElem?_eq_some_iff.mp h).1
    rw [List.length_singleton] at hl
    exact .inr ⟨by omega, List.mem_singleton.mp (List.mem_of_getElem? h)⟩

theorem set_self (h : l[i]? = some a) : l.set i a = l := by
  obtain ⟨hl, he⟩ := List.getElem?_eq_some_iff.mp h
  rw [← he]
  exact List.set_getElem_self hl

theorem mem_set_self (h : l[i]? = some a) (b : α) : b ∈ l.set i b := by
  have hl := (List.getElem?_eq_some_iff.mp h).1
  exact List.mem_of_getElem? (i := i) (by simp [hl])

/-- Two lists of one length of which places match count alike. -/
theorem countP_eq_of_get {β : Type*} {m : List β} {q : β → Bool} (hl : l.length = m.length)
    (h : ∀ (i : Nat) a b, l[i]? = some a → m[i]? = some b → p a = q b) :
    l.countP p = m.countP q := by
  induction l generalizing m with
  | nil =>
    cases m with
    | nil => rfl
    | cons b m => cases hl
  | cons a l ih =>
    cases m with
    | nil => cases hl
    | cons b m =>
      have hab : p a = q b := h 0 a b rfl rfl
      have htail := ih (by simpa using hl) fun i a b ha hb => h (i + 1) a b ha hb
      rw [List.countP_cons, List.countP_cons, htail, hab]

/-- What a list holds after a replacement is the replacement or stays for any other. -/
theorem mem_set_or (hi : l[i]? = some a) {x : α} (h : x ∈ l.set i b) :
    x = b ∨ ∀ c, x ∈ l.set i c := by
  obtain ⟨j, hj⟩ := List.getElem?_of_mem h
  have hl := (List.getElem?_eq_some_iff.mp hi).1
  by_cases hij : i = j
  · subst hij
    simp only [List.getElem?_set_self hl, Option.some.injEq] at hj
    exact .inl hj.symm
  · refine .inr fun c => List.mem_of_getElem? (i := j) ?_
    rw [List.getElem?_set_ne hij] at hj ⊢
    exact hj

theorem mem_set_of_ne {x : α} (hi : l[i]? = some a) (hx : x ∈ l) (hne : x ≠ a) (b : α) :
    x ∈ l.set i b := by
  obtain ⟨j, hj⟩ := List.getElem?_of_mem hx
  refine List.mem_of_getElem? (i := j) ?_
  have hij : i ≠ j := by
    rintro rfl
    rw [hi] at hj
    exact hne (Option.some.inj hj).symm
  rw [List.getElem?_set_ne hij, hj]

/-- Two different elements that both count. -/
theorem two_le_countP (ha : a ∈ l) (hb : b ∈ l) (hne : a ≠ b) (hpa : p a = true)
    (hpb : p b = true) : 2 ≤ l.countP p := by
  induction l with
  | nil => cases ha
  | cons x l ih =>
    rw [List.countP_cons]
    rcases List.mem_cons.mp ha with rfl | ha'
    · rcases List.mem_cons.mp hb with rfl | hb'
      · exact absurd rfl hne
      · have : 0 < l.countP p := List.countP_pos_iff.mpr ⟨b, hb', hpb⟩
        rw [if_pos hpa]
        omega
    · rcases List.mem_cons.mp hb with rfl | hb'
      · have : 0 < l.countP p := List.countP_pos_iff.mpr ⟨a, ha', hpa⟩
        rw [if_pos hpb]
        omega
      · have := ih ha' hb'
        omega

/-- An index picks out the only element that counts. -/
theorem index_unique (h : l.countP p ≤ 1) {j : Nat} (ha : l[i]? = some a) (hb : l[j]? = some b)
    (hpa : p a = true) (hpb : p b = true) : i = j := by
  induction l generalizing i j with
  | nil => simp at ha
  | cons x l ih =>
    rw [List.countP_cons] at h
    have hpos : ∀ {k : Nat} {c : α}, l[k]? = some c → p c = true → 0 < l.countP p :=
      fun hc hpc => List.countP_pos_iff.mpr ⟨_, mem_of_get hc, hpc⟩
    cases i with
    | zero =>
      cases j with
      | zero => rfl
      | succ j =>
        cases ha
        have := hpos (by simpa using hb) hpb
        rw [if_pos hpa] at h
        omega
    | succ i =>
      cases j with
      | zero =>
        cases hb
        have := hpos (by simpa using ha) hpa
        rw [if_pos hpb] at h
        omega
      | succ j =>
        have := ih (by omega) (by simpa using ha) (by simpa using hb)
        omega

end Coop
