import Mathlib.Data.List.Basic

namespace Sql

/-- What a server does not read as plain text. -/
inductive Mark where
  | quoted (name : List Char)
  | placeholder (digits : List Char)
deriving DecidableEq

/-- The quoted identifiers and the placeholders of a text, in order; inside of an identifier, with what has been
read of it. A doubled quote stands for one. -/
def marks : Option (List Char) → List Char → List Mark
  | _, [] => []
  | none, c :: cs =>
    if c = '"' then marks (some []) cs
    else if c = '$' ∧ cs.takeWhile Char.isDigit ≠ [] then .placeholder (cs.takeWhile Char.isDigit) :: marks none cs
    else marks none cs
  | some name, '"' :: '"' :: cs => marks (some (name ++ ['"'])) cs
  | some name, c :: cs => if c = '"' then .quoted name :: marks none cs else marks (some (name ++ [c])) cs

def quotedNames (sql : List Char) : List (List Char) :=
  (marks none sql).filterMap (fun m => match m with
    | .quoted name => some name
    | .placeholder _ => none)

def placeholders (sql : List Char) : List (List Char) :=
  (marks none sql).filterMap (fun m => match m with
    | .quoted _ => none
    | .placeholder digits => some digits)

/-- Text without quotes and without a dollar sign. -/
def Plain (t : List Char) : Prop := ∀ c ∈ t, c ≠ '"' ∧ c ≠ '$'

instance (t : List Char) : Decidable (Plain t) := List.decidableBAll (fun c => c ≠ '"' ∧ c ≠ '$') t

section Marks

variable {p q name digits rest : List Char}

theorem Plain.append (hp : Plain p) (hq : Plain q) : Plain (p ++ q) := by
  intro c hc
  rcases List.mem_append.mp hc with hc | hc
  · exact hp c hc
  · exact hq c hc

theorem Plain.ite {c : Prop} [Decidable c] (hp : Plain p) (hq : Plain q) : Plain (if c then p else q) := by
  split
  · exact hp
  · exact hq

theorem marks_plain (hp : Plain p) : marks none (p ++ rest) = marks none rest := by
  induction p with
  | nil => rfl
  | cons c p ih =>
    obtain ⟨hquote, hdollar⟩ := hp c List.mem_cons_self
    rw [List.cons_append, marks, if_neg hquote, if_neg (fun h => hdollar h.1)]
    exact ih fun c hc => hp c (List.mem_cons_of_mem _ hc)

theorem marks_of_plain (hp : Plain p) : marks none p = [] := by
  have h := @marks_plain p [] hp
  rwa [List.append_nil] at h

theorem marks_inside (pre : List Char) (hname : '"' ∉ name) :
    marks (some pre) (name ++ rest) = marks (some (pre ++ name)) rest := by
  induction name generalizing pre with
  | nil => rw [List.nil_append, List.append_nil]
  | cons c name ih =>
    have hc : c ≠ '"' := fun h => hname (h ▸ List.mem_cons_self)
    rw [List.cons_append, marks, if_neg hc, ih _ fun h => hname (List.mem_cons_of_mem _ h)]
    · rw [List.append_assoc]
      rfl
    · rintro cs rfl -
      exact hc rfl

theorem marks_quoted (hname : '"' ∉ name) (hrest : rest.head? ≠ some '"') :
    marks none ('"' :: (name ++ '"' :: rest)) = .quoted name :: marks none rest := by
  rw [marks, if_pos rfl, marks_inside [] hname, List.nil_append, marks, if_pos rfl]
  rintro cs - rfl
  exact hrest rfl

theorem marks_placeholder (hdigits : ∀ c ∈ digits, c.isDigit = true) (hne : digits ≠ [])
    (hrest : ∀ c ∈ rest.head?, c.isDigit = false) :
    marks none ('$' :: (digits ++ rest)) = .placeholder digits :: marks none rest := by
  have htake : (digits ++ rest).takeWhile Char.isDigit = digits := by
    rw [List.takeWhile_append_of_pos hdigits]
    cases rest with
    | nil => simp
    | cons c rest =>
      have hc := hrest c rfl
      simp [hc]
  have hplain : Plain digits := by
    intro c hc
    have hdigit := hdigits c hc
    constructor
    · rintro rfl
      simp at hdigit
    · rintro rfl
      simp at hdigit
  rw [marks, if_neg (by decide), htake, if_pos ⟨rfl, hne⟩, marks_plain hplain]

end Marks

end Sql
