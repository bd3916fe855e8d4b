import Mathlib.Data.List.Induction
import Mathlib.Data.List.TakeDrop
import Mathlib.Tactic.Common

namespace Coop

variable {α : Type*} {p : α → Bool} {l l' : List α} {d : α} {i j : Nat}

/-- How often a property stops to hold along a list. -/
def falls (p : α → Bool) : List α → Nat
  | a :: b :: l => (if p a && !p b then 1 else 0) + falls p (b :: l)
  | _ => 0

theorem falls_concat (l : List α) (a b : α) :
    falls p (l ++ [a, b]) = falls p (l ++ [a]) + if p a && !p b then 1 else 0 := by
  induction l with
  | nil => simp [falls]
  | cons x l ih =>
    cases l with
    | nil => simp [falls]
    | cons y l =>
      simp only [List.cons_append, falls] at ih ⊢
      rw [ih]
      omega

theorem falls_le_concat (l : List α) (a : α) : falls p l ≤ falls p (l ++ [a]) := by
  induction l using List.reverseRecOn with
  | nil => exact Nat.zero_le _
  | append_singleton l b _ =>
    rw [List.append_assoc, List.singleton_append, falls_concat]
    exact Nat.le_add_right _ _

theorem falls_mono (h : l <+: l') : falls p l ≤ falls p l' := by
  obtain ⟨more, rfl⟩ := h
  induction more using List.reverseRecOn with
  | nil => exact Nat.le_of_eq (by rw [List.append_nil])
  | append_singleton more a ih =>
    rw [← List.append_assoc]
    exact Nat.le_trans ih (falls_le_concat _ a)

theorem falls_take_succ (hj : j + 1 < l.length) : falls p (l.take (j + 2)) =
    falls p (l.take (j + 1)) + if p (l.getD j d) && !p (l.getD (j + 1) d) then 1 else 0 := by
  have hone : l.take (j + 1) = l.take j ++ [l.getD j d] := by
    rw [List.take_add_one, List.getD_eq_getElem?_getD, List.getElem?_eq_getElem (by omega)]
    rfl
  have htwo : l.take (j + 2) = l.take (j + 1) ++ [l.getD (j + 1) d] := by
    rw [List.take_add_one, List.getD_eq_getElem?_getD, List.getElem?_eq_getElem hj]
    rfl
  rw [htwo, hone, List.append_assoc, List.singleton_append, falls_concat]

/-- A property that holds at one place and not at a later one stops to hold between them. -/
theorem falls_between (hij : i ≤ j) (hj : j < l.length) (hi : p (l.getD i d) = true)
    (hpj : p (l.getD j d) = false) :
    falls p (l.take (i + 1)) + 1 ≤ falls p (l.take (j + 1)) := by
  induction j with
  | zero =>
    obtain rfl : i = 0 := by omega
    exact absurd (hi.symm.trans hpj) (by simp)
  | succ j ih =>
    rcases Nat.lt_or_ge j i with hlt | hle
    · obtain rfl : i = j + 1 := by omega
      exact absurd (hi.symm.trans hpj) (by simp)
    rw [@falls_take_succ _ p l d j hj]
    cases hp : p (l.getD j d) with
    | true =>
      have hmono : falls p (l.take (i + 1)) ≤ falls p (l.take (j + 1)) :=
        falls_mono (List.take_prefix_take_left (by omega))
      rw [hpj, Bool.not_false, Bool.and_true, if_pos rfl]
      exact Nat.add_le_add_right hmono 1
    | false =>
      have hbefore := ih hle (by omega) hp
      omega

/-- Who looks at a list now and then, and never back, sees a property stop to hold no oftener than it does. -/
theorem falls_sampled {places : List Nat} (hs : places.Pairwise (· ≤ ·)) (hl : ∀ i ∈ places, i < l.length) :
    falls p (places.map (fun i => l.getD i d)) ≤ falls p l := by
  have hlast : ∀ earlier i, places = earlier ++ [i] →
      falls p (places.map (fun i => l.getD i d)) ≤ falls p (l.take (i + 1)) := by
    induction places using List.reverseRecOn with
    | nil => exact fun earlier i he => by simp at he
    | append_singleton places j ih =>
      intro earlier i he
      obtain ⟨rfl, hij⟩ := List.append_inj' he rfl
      obtain rfl := List.singleton_inj.mp hij
      cases hplaces : places using List.reverseRecOn with
      | nil => exact Nat.zero_le _
      | append_singleton before k _ =>
        subst hplaces
        have hk := ih (hs.sublist (List.sublist_append_left _ _)) (fun i hi => hl i (List.mem_append_left _ hi))
          before k rfl
        have hkj : k ≤ j := by
          have hpair := (List.pairwise_append.mp hs).2.2
          exact hpair k (by simp) j (by simp)
        have hj : j < l.length := hl j (by simp)
        rw [List.append_assoc, List.singleton_append, List.map_append, List.map_cons, List.map_cons, List.map_nil,
          falls_concat]
        rw [List.map_append, List.map_singleton] at hk
        cases hfall : p (l.getD k d) && !p (l.getD j d) with
        | true =>
          obtain ⟨hpk, hpj⟩ : p (l.getD k d) = true ∧ p (l.getD j d) = false := by simpa using hfall
          have hbetween := falls_between hkj hj hpk hpj
          rw [if_pos rfl]
          omega
        | false =>
          have hmono : falls p (l.take (k + 1)) ≤ falls p (l.take (j + 1)) :=
            falls_mono (List.take_prefix_take_left (by omega))
          rw [if_neg Bool.false_ne_true]
          omega
  cases hplaces : places using List.reverseRecOn with
  | nil => exact Nat.zero_le _
  | append_singleton earlier i _ =>
    rw [← hplaces]
    exact Nat.le_trans (hlast earlier i hplaces) (falls_mono (List.take_prefix _ _))

end Coop
