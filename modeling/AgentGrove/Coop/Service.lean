import AgentGrove.Coop.Frame

namespace Coop

namespace Prog

variable {κ τ ω σ α β γ : Type}

/-- Every awaited action of the code keeps to the frame. What the code does at once
and what it spawns is not looked at. -/
def Awaits (A : κ × ω → σ → σ → Prop) : {α : Type} → Prog κ τ ω σ α → Prop
  | _, .ret _ => True
  | _, .await site act next =>
    (∀ w s s' b, act w s = some (s', b) → A (site, w) s s') ∧ ∀ b, Awaits A (next b)
  | _, .sync _ next => ∀ b, Awaits A (next b)
  | _, .spawn _ _ next => Awaits A next
  | _, .loop site _ body next =>
    (∀ w s, A (site, w) s s) ∧ (∀ b, Awaits A (body b)) ∧ ∀ c, Awaits A (next c)

variable {A : κ × ω → σ → σ → Prop} {p : Prog κ τ ω σ α} {f : α → Prog κ τ ω σ β}

theorem Awaits.bind (hp : p.Awaits A) (hf : ∀ a, (f a).Awaits A) : (p.bind f).Awaits A := by
  induction p with
  | ret a => exact hf a
  | await site act next ih => exact ⟨hp.1, fun b => ih b (hp.2 b) hf⟩
  | sync act next ih => exact fun b => ih b (hp b) hf
  | spawn tag child next ihc ih => exact ih hp hf
  | loop site b body next ihb ih => exact ⟨hp.1, hp.2.1, fun c => ih c (hp.2.2 c) hf⟩

theorem Within.awaits {S : κ → Prop} {B : Option (κ × ω) → σ → σ → Prop} (hp : p.Within S B)
    (hb : ∀ x w s s', B (some (x, w)) s s' → A (x, w) s s') : p.Awaits A := by
  induction p with
  | ret a => trivial
  | await site act next ih =>
    exact ⟨fun w s s' b h => hb _ _ _ _ (hp.2.1 w s s' b h), fun b => ih b (hp.2.2 b)⟩
  | sync act next ih => exact fun b => ih b (hp.2 b)
  | spawn tag child next ihc ih => exact hp.elim
  | loop site b body next ihb ih =>
    exact ⟨fun w s => hb _ _ _ _ (hp.1.2 w s), fun b => ihb b (hp.2.1 b), fun c => ih c (hp.2.2 c)⟩

theorem Awaits.settle (hp : p.Awaits A) (s : σ) : (p.settle s).2.1.Awaits A := by
  induction p generalizing s with
  | ret a => trivial
  | await site act next ih => exact hp
  | sync act next ih => exact ih _ (hp _) _
  | spawn tag child next ihc ih => exact ih hp s
  | loop site b body next ihb ih => exact hp

theorem Awaits.resume {w : ω} {s : σ} {out : σ × Prog κ τ ω σ α × List (τ × Prog κ τ ω σ Unit)}
    (hp : p.Awaits A) (h : p.resume w s = some out) : out.2.1.Awaits A := by
  cases p with
  | ret a => cases h
  | await site act next =>
    obtain ⟨r, -, rfl⟩ := Option.map_eq_some_iff.mp h
    exact (hp.2 _).settle _
  | sync act next =>
    cases h
    exact hp.settle s
  | spawn tag child next =>
    cases h
    exact hp.settle s
  | loop site b body next =>
    cases h
    refine Awaits.settle ((hp.2.1 b).bind fun r => ?_) s
    cases r with
    | inl b' => exact hp
    | inr c => exact hp.2.2 c

theorem Awaits.acts {w : ω} {s s' : σ} (hp : p.Awaits A) (h : p.acts w s = some s') :
    ∃ x, A (x, w) s s' := by
  cases p with
  | ret a => cases h
  | sync act next => cases h
  | spawn tag child next => cases h
  | await site act next =>
    obtain ⟨⟨s₁, b⟩, ha, rfl⟩ := Option.map_eq_some_iff.mp h
    exact ⟨site, hp.1 w s s₁ b ha⟩
  | loop site b body next =>
    cases h
    exact ⟨site, hp.1 w s⟩

end Prog

namespace Pool

variable {κ τ ω σ q : Type} {entry : q → Thread κ τ ω σ} {p p' : Pool κ τ ω σ}
  {serves : Nat → Option q} {K : q → Prog κ τ ω σ Unit → Prop}

/-- A record of the request that each handler serves, after one more event. -/
def serving (p : Pool κ τ ω σ) (serves : Nat → Option q) : Event ω q → Nat → Option q
  | .arrive request => Function.update serves p.threads.length (some request)
  | .run _ _ => serves

/-- Whoever serves a request has a program that fits it. -/
structure Serving (K : q → Prog κ τ ω σ Unit → Prop) (serves : Nat → Option q)
    (p : Pool κ τ ω σ) : Prop where
  later : ∀ i, p.threads.length ≤ i → serves i = none
  fits : ∀ i t request, p.threads[i]? = some t → serves i = some request → K request t.prog

theorem Serving.arrive {request : q} (h : Serving K serves p)
    (hsettle : ∀ s, K request ((entry request).prog.settle s).2.1)
    (hf : p.fire (ω := ω) entry (.arrive request) = some p') :
    Serving K (p.serving serves (.arrive request : Event ω q)) p' := by
  simp only [fire, Option.some.injEq] at hf
  subst hf
  constructor
  · intro i hi
    simp only [List.length_append, List.length_cons] at hi
    rw [serving, Function.update_of_ne (by omega)]
    exact h.later i (by omega)
  · intro i t r ht hr
    rcases Nat.lt_trichotomy i p.threads.length with hlt | rfl | hgt
    · rw [serving, Function.update_of_ne (by omega)] at hr
      rw [List.getElem?_append_left hlt] at ht
      exact h.fits i t r ht hr
    · simp only [serving, Function.update_self, Option.some.injEq] at hr
      rw [List.getElem?_append_right (Nat.le_refl _), Nat.sub_self] at ht
      simp only [List.getElem?_cons_zero, Option.some.injEq] at ht
      subst hr
      subst ht
      exact hsettle _
    · rw [serving, Function.update_of_ne (by omega), h.later i (by omega)] at hr
      cases hr

theorem Serving.run {i : Nat} {w : ω} (h : Serving K serves p)
    (hresume : ∀ request (prog : Prog κ τ ω σ Unit) w s out, K request prog →
      prog.resume w s = some out → K request out.2.1)
    (hf : p.fire entry (.run i w) = some p') : Serving K serves p' := by
  simp only [fire] at hf
  split at hf
  · cases hf
  rename_i th hi
  obtain ⟨out, hout, rfl⟩ := Option.map_eq_some_iff.mp hf
  have hl := (List.getElem?_eq_some_iff.mp hi).1
  constructor
  · intro j hj
    simp only [List.length_append, List.length_set] at hj
    exact h.later j (by omega)
  · intro j t r ht hr
    rcases Nat.lt_or_ge j p.threads.length with hlt | hge
    · rw [List.getElem?_append_left (by simpa using hlt), List.getElem?_set] at ht
      split at ht
      · rename_i he
        subst he
        simp only [Option.some.injEq] at ht
        subst ht
        exact hresume r _ w _ out (h.fits i th r hi hr) hout
      · exact h.fits j t r ht hr
    · rw [h.later j hge] at hr
      cases hr

end Pool

end Coop
