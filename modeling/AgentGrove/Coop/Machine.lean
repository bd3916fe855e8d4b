import Mathlib.Logic.Relation

namespace Coop

/-- A system that steps from event to event. An event that is not possible in
a state has no step there. -/
structure Machine (σ ε : Type*) where
  step : σ → ε → Option σ

namespace Machine

variable {σ ε : Type*} {M : Machine σ ε} {good : σ → ε → Prop} {s s' : σ}

/-- No condition at all. -/
def anyEvent (_ : σ) (_ : ε) : Prop := True

instance (s : σ) (e : ε) : Decidable (anyEvent s e) := .isTrue trivial

/-- A step that the condition `good` on the state before it permits. -/
def Moves (M : Machine σ ε) (good : σ → ε → Prop) (s s' : σ) : Prop :=
  ∃ e, good s e ∧ M.step s e = some s'

/-- States reached by runs all of whose steps meet `good`. -/
def Reaches (M : Machine σ ε) (good : σ → ε → Prop) : σ → σ → Prop :=
  Relation.ReflTransGen (M.Moves good)

/-- What every permitted step keeps, every run keeps. -/
theorem Reaches.keeps {Inv : σ → Prop} (h : M.Reaches good s s') (hs : Inv s)
    (hk : ∀ s e s', Inv s → good s e → M.step s e = some s' → Inv s') : Inv s' := by
  induction h with
  | refl => exact hs
  | tail _ hstep ih =>
    obtain ⟨e, hg, he⟩ := hstep
    exact hk _ e _ ih hg he

/-- Execute a given schedule, as far as all its steps meet `good`. -/
def play (M : Machine σ ε) (good : σ → ε → Prop) [∀ s e, Decidable (good s e)] (s : σ) :
    List ε → Option σ
  | [] => some s
  | e :: es =>
    if good s e then
      match M.step s e with
      | none => none
      | some s' => play M good s' es
    else none

/-- A schedule that can be played is a run. -/
theorem play_reaches [∀ s e, Decidable (good s e)] {es : List ε}
    (h : M.play good s es = some s') : M.Reaches good s s' := by
  induction es generalizing s with
  | nil =>
    simp only [play, Option.some.injEq] at h
    exact h ▸ .refl
  | cons e es ih =>
    simp only [play] at h
    split at h
    · rename_i hg
      split at h
      · cases h
      · rename_i q hq
        exact .head ⟨e, hg, hq⟩ (ih h)
    · cases h

end Machine

end Coop
