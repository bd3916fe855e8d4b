import Mathlib.Data.List.Infix

namespace Search

variable {α : Type} [DecidableEq α] {pat t rest before : List α} {x sep : α}

/-- What stands before the first occurrence of a pattern, and the rest from there. -/
def breakOn (pat : List α) : List α → Option (List α × List α)
  | [] => if pat = [] then some ([], []) else none
  | x :: xs =>
    if pat.isPrefixOf (x :: xs) then some ([], x :: xs)
    else (breakOn pat xs).map (fun s => (x :: s.1, s.2))

theorem breakOn_start (h : pat <+: t) : breakOn pat t = some ([], t) := by
  cases t with
  | nil => rw [breakOn, if_pos (List.prefix_nil.mp h)]
  | cons x t => rw [breakOn, if_pos (List.isPrefixOf_iff_prefix.mpr h)]

theorem breakOn_cons (h : ¬ pat <+: x :: t) :
    breakOn pat (x :: t) = (breakOn pat t).map (fun s => (x :: s.1, s.2)) := by
  rw [breakOn, if_neg (fun hstart => h (List.isPrefixOf_iff_prefix.mp hstart))]

theorem breakOn_none : breakOn pat t = none ↔ ¬ pat <:+: t := by
  induction t with
  | nil => simp [breakOn]
  | cons x t ih =>
    by_cases h : pat <+: x :: t
    · simp [breakOn_start h, h.isInfix]
    · rw [breakOn_cons h, Option.map_eq_none_iff, ih, List.infix_cons_iff, not_or]
      exact (and_iff_right h).symm

theorem breakOn_some (h : breakOn pat t = some (before, rest)) : t = before ++ rest ∧ pat <+: rest := by
  induction t generalizing before with
  | nil =>
    unfold breakOn at h
    split at h
    · rename_i hpat
      cases h
      exact ⟨rfl, by rw [hpat]⟩
    · cases h
  | cons x t ih =>
    by_cases hstart : pat <+: x :: t
    · rw [breakOn_start hstart] at h
      cases h
      exact ⟨rfl, hstart⟩
    · rw [breakOn_cons hstart] at h
      obtain ⟨⟨before, rest⟩, hrest, heq⟩ := Option.map_eq_some_iff.mp h
      cases heq
      obtain ⟨rfl, hpat⟩ := ih hrest
      exact ⟨rfl, hpat⟩

omit [DecidableEq α] in
/-- A pattern that begins before an element it has not ends before it too. -/
theorem start_before (hx : x ∉ pat) (h : pat <+: t ++ x :: rest) : pat <+: t := by
  induction t generalizing pat with
  | nil =>
    cases pat with
    | nil => exact List.nil_prefix
    | cons y pat =>
      obtain ⟨rfl, -⟩ := List.cons_prefix_cons.mp h
      exact absurd List.mem_cons_self hx
  | cons z t ih =>
    cases pat with
    | nil => exact List.nil_prefix
    | cons y pat =>
      obtain ⟨rfl, hrest⟩ := List.cons_prefix_cons.mp h
      exact List.cons_prefix_cons.mpr ⟨rfl, ih (fun hmem => hx (List.mem_cons_of_mem _ hmem)) hrest⟩

/-- Without the pattern in a text that such an element ends, the search goes on behind it. -/
theorem breakOn_append (hx : x ∉ pat) (ht : ¬ pat <:+: t) :
    breakOn pat (t ++ x :: rest) = (breakOn pat rest).map (fun s => (t ++ x :: s.1, s.2)) := by
  induction t with
  | nil =>
    refine breakOn_cons (fun h => ht ?_)
    exact (start_before (t := []) hx h).isInfix
  | cons y t ih =>
    rw [List.infix_cons_iff, not_or] at ht
    have hstart : ¬ pat <+: y :: (t ++ x :: rest) := fun h => ht.1 (start_before hx h)
    rw [List.cons_append, breakOn_cons hstart, ih ht.2, Option.map_map]
    rfl

/-- What begins in a text that has the pattern is found before its end. -/
theorem breakOn_within (hpat : pat ≠ []) (ht : pat <:+: t) (rest : List α) :
    ∃ s, breakOn pat (t ++ rest) = some s ∧ s.1.length < t.length := by
  induction t with
  | nil => exact absurd (List.infix_nil.mp ht) hpat
  | cons x t ih =>
    by_cases hstart : pat <+: x :: (t ++ rest)
    · exact ⟨_, breakOn_start hstart, Nat.succ_pos _⟩
    · have htail : pat <:+: t := by
        rcases List.infix_cons_iff.mp ht with hhead | htail
        · exact absurd (hhead.trans ⟨rest, rfl⟩) hstart
        · exact htail
      obtain ⟨s, hs, hlt⟩ := ih htail
      rw [List.cons_append, breakOn_cons hstart, hs]
      exact ⟨_, rfl, Nat.succ_lt_succ hlt⟩

/-- The pieces of a split text have no separator. -/
theorem sep_of_mem_splitOn (t : List α) : ∀ c ∈ t.splitOn sep, sep ∉ c := by
  induction t with
  | nil => simp
  | cons c t ih =>
    rw [List.splitOn_cons_eq_if_modifyHead]
    split
    · intro d hd
      rcases List.mem_cons.mp hd with rfl | hd
      · exact List.not_mem_nil
      · exact ih d hd
    · rename_i hc
      cases hsplit : t.splitOn sep with
      | nil => simp
      | cons e ds =>
        rw [hsplit] at ih
        intro d hd
        rcases List.mem_cons.mp hd with rfl | hd
        · intro hm
          rcases List.mem_cons.mp hm with rfl | hm
          · exact hc (beq_self_eq_true _)
          · exact ih e List.mem_cons_self hm
        · exact ih d (List.mem_cons_of_mem _ hd)

/-- What has no separator is added to the last piece. -/
theorem splitOn_append {ext : List α} (h : sep ∉ ext) (t : List α) : ∃ ds n, t.splitOn sep = ds ++ [n] ∧
    (t ++ ext).splitOn sep = ds ++ [n ++ ext] := by
  induction t with
  | nil =>
    refine ⟨[], [], rfl, ?_⟩
    rw [List.nil_append, List.splitOn_eq_singleton h]
    rfl
  | cons c t ih =>
    obtain ⟨ds, n, hsplit, happend⟩ := ih
    rw [List.cons_append, List.splitOn_cons_eq_if_modifyHead, List.splitOn_cons_eq_if_modifyHead, hsplit, happend]
    by_cases hc : (c == sep) = true
    · rw [if_pos hc, if_pos hc]
      exact ⟨[] :: ds, n, rfl, rfl⟩
    · rw [if_neg hc, if_neg hc]
      cases ds with
      | nil => exact ⟨[], c :: n, rfl, rfl⟩
      | cons d ds => exact ⟨(c :: d) :: ds, n, rfl, rfl⟩

section Separators

variable {a : List α}

theorem ne_of_mem (h : sep ∉ a) : ∀ c ∈ a, decide (c ≠ sep) = true := by
  intro c hc
  rw [decide_eq_true_eq]
  rintro rfl
  exact h hc

/-- What stands in front of the first separator. -/
theorem takeWhile_sep (h : sep ∉ a) (b : List α) : (a ++ sep :: b).takeWhile (· ≠ sep) = a := by
  rw [List.takeWhile_append_of_pos (ne_of_mem h)]
  simp

theorem takeWhile_none (h : sep ∉ a) : a.takeWhile (· ≠ sep) = a := by
  have hall := @List.takeWhile_append_of_pos _ _ a [] (ne_of_mem h)
  rwa [List.append_nil, List.takeWhile_nil, List.append_nil] at hall

theorem dropWhile_sep (h : sep ∉ a) (b : List α) : (a ++ sep :: b).dropWhile (· ≠ sep) = sep :: b := by
  rw [List.dropWhile_append_of_pos (ne_of_mem h)]
  simp

end Separators

end Search
