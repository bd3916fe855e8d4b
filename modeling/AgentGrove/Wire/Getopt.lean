import Mathlib.Tactic.Common

namespace Getopt

abbrev Word := List Char

/-- What a command line is read as: its options, each with its value if it takes one, and its
operands. -/
structure Reading where
  options : List (Word × Option Word)
  operands : List Word
deriving DecidableEq

def Reading.append (r r' : Reading) : Reading := ⟨r.options ++ r'.options, r.operands ++ r'.operands⟩

/-- Where a reader stands: between two arguments, before the value of an option, or behind the
separator. -/
inductive Stance where
  | between
  | owes (name : Word)
  | after
deriving DecidableEq

def separator : Word := ['-', '-']

def dashed (w : Word) : Bool := w.head? == some '-'

/-- What one argument is. -/
def take (takes : Word → Bool) : Stance → Word → Stance × Reading
  | .after, w => (.after, ⟨[], [w]⟩)
  | .owes name, w => (.between, ⟨[(name, some w)], []⟩)
  | .between, w =>
    if w = separator then (.after, ⟨[], []⟩)
    else if dashed w then
      if takes w then (.owes w, ⟨[], []⟩) else (.between, ⟨[(w, none)], []⟩)
    else (.between, ⟨[], [w]⟩)

def scan (takes : Word → Bool) : Stance → List Word → Stance × Reading
  | st, [] => (st, ⟨[], []⟩)
  | st, w :: ws =>
    let (st, r) := take takes st w
    let (st, r') := scan takes st ws
    (st, r.append r')

/-- An option at the end of the line goes without its value. -/
def missing : Stance → Reading
  | .owes name => ⟨[(name, none)], []⟩
  | _ => ⟨[], []⟩

def read (takes : Word → Bool) (ws : List Word) : Reading :=
  let (st, r) := scan takes .between ws
  r.append (missing st)

example : read (· == "-m".toList) ["-m".toList, "--".toList, "run".toList, "--".toList, "-x".toList] =
    ⟨[("-m".toList, some "--".toList)], ["run".toList, "-x".toList]⟩ := by decide

section Rules

variable {takes : Word → Bool} {ws ws' : List Word} {st : Stance} {o o' : List (Word × Option Word)}
  {p p' : List Word} {w v : Word}

@[simp] theorem append_empty (r : Reading) : r.append ⟨[], []⟩ = r := by simp [Reading.append]

@[simp] theorem empty_append (r : Reading) : Reading.append ⟨[], []⟩ r = r := by simp [Reading.append]

theorem append_assoc (r r' r'' : Reading) : (r.append r').append r'' = r.append (r'.append r'') := by
  simp [Reading.append]

theorem scan_append (ws ws' : List Word) (st : Stance) : scan takes st (ws ++ ws') =
    ((scan takes (scan takes st ws).1 ws').1,
      (scan takes st ws).2.append (scan takes (scan takes st ws).1 ws').2) := by
  induction ws generalizing st with
  | nil => simp [scan]
  | cons w ws ih => simp [scan, ih, append_assoc]

/-- These arguments are read as these options and operands, with none left open. -/
def Reads (takes : Word → Bool) (ws : List Word) (o : List (Word × Option Word)) (p : List Word) : Prop :=
  scan takes .between ws = (.between, ⟨o, p⟩)

theorem Reads.nil : Reads takes [] [] [] := rfl

theorem Reads.append (h : Reads takes ws o p) (h' : Reads takes ws' o' p') :
    Reads takes (ws ++ ws') (o ++ o') (p ++ p') := by
  unfold Reads at *
  rw [scan_append, h, h']
  rfl

theorem Reads.operand (h : dashed w = false) : Reads takes [w] [] [w] := by
  have hsep : w ≠ separator := by
    rintro rfl
    cases h
  simp [Reads, scan, take, hsep, h, Reading.append]

theorem Reads.flag (hsep : w ≠ separator) (hw : dashed w = true) (ht : takes w = false) :
    Reads takes [w] [(w, none)] [] := by
  simp [Reads, scan, take, hsep, hw, ht, Reading.append]

/-- Whatever stands behind an option that takes a value is its value. -/
theorem Reads.valued (hsep : w ≠ separator) (hw : dashed w = true) (ht : takes w = true) (v : Word) :
    Reads takes [w, v] [(w, some v)] [] := by
  simp [Reads, scan, take, hsep, hw, ht, Reading.append]

theorem Reads.read (h : Reads takes ws o p) : read takes ws = ⟨o, p⟩ := by
  unfold Getopt.read
  rw [h]
  simp [missing]

/-- Behind the separator anything is an operand. -/
theorem Reads.separated (h : Reads takes ws o p) (v : Word) :
    Getopt.read takes (ws ++ [separator, v]) = ⟨o, p ++ [v]⟩ := by
  unfold Getopt.read
  rw [scan_append, h]
  simp [scan, take, missing, Reading.append]

theorem scan_after (ws : List Word) : (scan takes .after ws).1 = .after := by
  induction ws with
  | nil => rfl
  | cons w ws ih => exact ih

/-- In front of the separator no operand has a dash. -/
theorem undashed (h : (scan takes st ws).1 ≠ .after) : ∀ v ∈ (scan takes st ws).2.operands, dashed v = false := by
  induction ws generalizing st with
  | nil => simp [scan]
  | cons w ws ih =>
    have hrest : ∀ v ∈ (scan takes (take takes st w).1 ws).2.operands, dashed v = false := ih h
    intro v hv
    rcases List.mem_append.mp hv with hv | hv
    · cases st with
      | after => exact absurd (scan_after ws) h
      | owes name => simp at hv
      | between =>
        dsimp only at hv
        split at hv
        · cases hv
        split at hv
        · split at hv <;> cases hv
        · rename_i hw
          rw [List.mem_singleton.mp hv]
          simpa using hw
    · exact hrest v hv

theorem Reads.undashed (h : Reads takes ws o p) : ∀ v ∈ p, dashed v = false := by
  have hend : (scan takes .between ws).1 ≠ .after := by
    rw [h]
    simp
  simpa [show scan takes .between ws = _ from h] using Getopt.undashed hend

/-- Without it, a last argument is one just if it has no dash. -/
theorem Reads.last_iff (h : Reads takes ws o p) (v : Word) :
    (∃ q, Getopt.read takes (ws ++ [v]) = ⟨o, q ++ [v]⟩) ↔ dashed v = false := by
  constructor
  · rintro ⟨q, hq⟩
    unfold Getopt.read at hq
    rw [scan_append, h] at hq
    by_cases hsep : v = separator
    · subst hsep
      have hp : p = q ++ [separator] := by simpa [scan, take, missing, Reading.append] using hq
      exact h.undashed separator (by simp [hp])
    · by_contra hdash
      have hdash : dashed v = true := by simpa using hdash
      by_cases ht : takes v = true <;> simp [scan, take, missing, Reading.append, hsep, hdash, ht] at hq
  · intro hv
    exact ⟨p, by simpa using (h.append (.operand hv)).read⟩

/-- An option between the others is not one of them. -/
theorem Reads.intruder (h : Reads takes ws o p) (hw : dashed w = true) (hsep : w ≠ separator)
    (rest : List Word) : (Getopt.read takes (ws ++ w :: rest)).options ≠ o := by
  intro ho
  unfold Getopt.read at ho
  rw [scan_append, h] at ho
  have hlength := congrArg List.length ho
  by_cases ht : takes w = true
  · cases rest with
    | nil => simp [scan, take, missing, Reading.append, hsep, hw, ht] at hlength
    | cons v rest => simp [scan, take, Reading.append, hsep, hw, ht] at hlength
  · simp [scan, take, Reading.append, hsep, hw, ht] at hlength

end Rules

end Getopt
