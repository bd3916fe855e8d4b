import Mathlib.Data.List.Basic
import Mathlib.Logic.Relation

namespace Coop

/-- A cooperative task: a tree of atomic actions. Another task may run only at
an `await` or at the head of a `loop`; `sync` actions belong to the step before.
`κ` names the suspension points, `τ` tags spawned tasks, `ω` is what the outside
world decides at a suspension point and `σ` is the shared state. -/
inductive Prog (κ τ ω σ : Type) : Type → Type 1 where
  | ret {α : Type} (a : α) : Prog κ τ ω σ α
  | await {α β : Type} (site : κ) (act : ω → σ → Option (σ × β))
      (next : β → Prog κ τ ω σ α) : Prog κ τ ω σ α
  | sync {α β : Type} (act : σ → σ × β) (next : β → Prog κ τ ω σ α) : Prog κ τ ω σ α
  | spawn {α : Type} (tag : τ) (child : Prog κ τ ω σ Unit)
      (next : Prog κ τ ω σ α) : Prog κ τ ω σ α
  | loop {α β γ : Type} (site : κ) (b : β) (body : β → Prog κ τ ω σ (β ⊕ γ))
      (next : γ → Prog κ τ ω σ α) : Prog κ τ ω σ α

namespace Prog

variable {κ τ ω σ α β γ : Type}

def bind : {α β : Type} → Prog κ τ ω σ α → (α → Prog κ τ ω σ β) → Prog κ τ ω σ β
  | _, _, .ret a, f => f a
  | _, _, .await site act next, f => .await site act (fun b => (next b).bind f)
  | _, _, .sync act next, f => .sync act (fun b => (next b).bind f)
  | _, _, .spawn tag child next, f => .spawn tag child (next.bind f)
  | _, _, .loop site b body next, f => .loop site b body (fun c => (next c).bind f)

instance : Monad (Prog κ τ ω σ) where
  pure := .ret
  bind := bind

@[simp] theorem pure_eq (a : α) : (pure a : Prog κ τ ω σ α) = .ret a := rfl

@[simp] theorem bind_eq (p : Prog κ τ ω σ α) (f : α → Prog κ τ ω σ β) : p >>= f = p.bind f := rfl

@[simp] theorem ret_bind (a : α) (f : α → Prog κ τ ω σ β) : (Prog.ret a).bind f = f a := rfl

theorem bind_assoc {α β γ : Type} (p : Prog κ τ ω σ α) (f : α → Prog κ τ ω σ β)
    (g : β → Prog κ τ ω σ γ) : (p.bind f).bind g = p.bind (fun a => (f a).bind g) := by
  induction p with
  | ret a => rfl
  | await site act next ih => simp only [bind, ih]
  | sync act next ih => simp only [bind, ih]
  | spawn tag child next ihc ih => simp only [bind, ih]
  | loop site b body next ihb ih => simp only [bind, ih]

theorem bind_ret {α : Type} (p : Prog κ τ ω σ α) : p.bind .ret = p := by
  induction p with
  | ret a => rfl
  | await site act next ih => simp only [bind, ih]
  | sync act next ih => simp only [bind, ih]
  | spawn tag child next ihc ih => simp only [bind, ih]
  | loop site b body next ihb ih => simp only [bind, ih]

/-- One more turn of a loop, then whatever follows it. -/
def unroll (site : κ) (body : β → Prog κ τ ω σ (β ⊕ γ)) (next : γ → Prog κ τ ω σ α) :
    β ⊕ γ → Prog κ τ ω σ α
  | .inl b => .loop site b body next
  | .inr c => next c

/-- The suspension point a task rests at. -/
def site : Prog κ τ ω σ α → Option κ
  | .await site _ _ => some site
  | .loop site _ _ _ => some site
  | _ => none

/-- Tasks rest at a suspension point or are finished. -/
def Resting : Prog κ τ ω σ α → Prop
  | .sync _ _ => False
  | .spawn _ _ _ => False
  | _ => True

/-- Run the synchronous code up to the next suspension point. -/
def settle : {α : Type} → Prog κ τ ω σ α → σ →
    σ × Prog κ τ ω σ α × List (τ × Prog κ τ ω σ Unit)
  | _, .ret a, s => (s, .ret a, [])
  | _, .await site act next, s => (s, .await site act next, [])
  | _, .loop site b body next, s => (s, .loop site b body next, [])
  | _, .sync act next, s => settle (next (act s).2) (act s).1
  | _, .spawn tag child next, s =>
    let out := settle next s
    (out.1, out.2.1, (tag, child) :: out.2.2)

/-- Resume a task once: perform the action it waits for, then settle. -/
def resume (w : ω) : {α : Type} → Prog κ τ ω σ α → σ →
    Option (σ × Prog κ τ ω σ α × List (τ × Prog κ τ ω σ Unit))
  | _, .ret _, _ => none
  | _, .await _ act next, s => (act w s).map (fun out => settle (next out.2) out.1)
  | _, .loop site b body next, s => some (settle ((body b).bind (unroll site body next)) s)
  | _, .sync act next, s => some (settle (.sync act next) s)
  | _, .spawn tag child next, s => some (settle (.spawn tag child next) s)

/-- The state right after the action that a task waits for. -/
def acts (w : ω) : {α : Type} → Prog κ τ ω σ α → σ → Option σ
  | _, .await _ act _, s => (act w s).map Prod.fst
  | _, .loop _ _ _ _, s => some s
  | _, _, _ => none

theorem settle_resting (p : Prog κ τ ω σ α) (s : σ) : (settle p s).2.1.Resting := by
  induction p generalizing s with
  | ret a => trivial
  | await site act next ih => trivial
  | sync act next ih => exact ih _ _
  | spawn tag child next ihc ih => exact ih s
  | loop site b body next ihb ih => trivial

end Prog

structure Thread (κ τ ω σ : Type) where
  tag : τ
  prog : Prog κ τ ω σ Unit

namespace Thread

variable {κ τ ω σ : Type}

def finished (t : Thread κ τ ω σ) : Bool :=
  match t.prog with
  | .ret _ => true
  | _ => false

def site (t : Thread κ τ ω σ) : Option κ := t.prog.site

theorem site_of_finished {t : Thread κ τ ω σ} (h : t.finished = true) : t.site = none := by
  obtain ⟨tag, prog⟩ := t
  cases prog with
  | ret a => rfl
  | _ => cases h

end Thread

/-- Every task ever started, in the order they were started. Finished tasks
keep their place, so an index names one task for good. -/
structure Pool (κ τ ω σ : Type) where
  shared : σ
  threads : List (Thread κ τ ω σ)

/-- The scheduler either admits a request or resumes the task at an index. -/
inductive Event (ω q : Type) where
  | arrive (request : q)
  | run (i : Nat) (w : ω)

namespace Pool

variable {κ τ ω σ q : Type}

/-- Where the task at an index rests. -/
def restsAt (p : Pool κ τ ω σ) (i : Nat) : Option κ := p.threads[i]?.bind Thread.site

/-- The task at an index rests at this suspension point. -/
def At (p : Pool κ τ ω σ) (i : Nat) (site : κ) : Prop := p.restsAt i = some site

/-- The shared state right after the action that the task at an index waits for. -/
def acts (p : Pool κ τ ω σ) (i : Nat) (w : ω) : Option σ :=
  p.threads[i]?.bind (fun t => t.prog.acts w p.shared)

/-- Every task with where it rests. -/
def sites (p : Pool κ τ ω σ) : List (τ × Option κ) := p.threads.map (fun t => (t.tag, t.site))

/-- One step of the scheduler: a whole stretch of code up to the next await. -/
def fire (entry : q → Thread κ τ ω σ) (p : Pool κ τ ω σ) : Event ω q → Option (Pool κ τ ω σ)
  | .arrive request =>
    let out := (entry request).prog.settle p.shared
    some {
      shared := out.1
      threads := p.threads ++
        ⟨(entry request).tag, out.2.1⟩ :: out.2.2.map (fun c => ⟨c.1, c.2⟩) }
  | .run i w =>
    match p.threads[i]? with
    | none => none
    | some t =>
      (t.prog.resume w p.shared).map (fun out =>
        { shared := out.1
          threads := p.threads.set i ⟨t.tag, out.2.1⟩ ++ out.2.2.map (fun c => ⟨c.1, c.2⟩) })

/-- No condition at all. -/
def anyStep (_ : Pool κ τ ω σ) (_ : Event ω q) : Prop := True

instance (p : Pool κ τ ω σ) (e : Event ω q) : Decidable (anyStep p e) := .isTrue trivial

/-- A step that the condition `good` on the state before it permits. -/
def Step (entry : q → Thread κ τ ω σ) (good : Pool κ τ ω σ → Event ω q → Prop)
    (p p' : Pool κ τ ω σ) : Prop :=
  ∃ e, good p e ∧ p.fire entry e = some p'

/-- States reached by runs all of whose steps meet `good`. -/
def Reaches (entry : q → Thread κ τ ω σ) (good : Pool κ τ ω σ → Event ω q → Prop) :
    Pool κ τ ω σ → Pool κ τ ω σ → Prop :=
  Relation.ReflTransGen (Step entry good)

/-- Execute a given schedule, as far as all its steps meet `good`. -/
def play (entry : q → Thread κ τ ω σ) (good : Pool κ τ ω σ → Event ω q → Prop)
    [∀ p e, Decidable (good p e)] (p : Pool κ τ ω σ) : List (Event ω q) → Option (Pool κ τ ω σ)
  | [] => some p
  | e :: es =>
    if good p e then
      match p.fire entry e with
      | none => none
      | some p' => play entry good p' es
    else none

variable {entry : q → Thread κ τ ω σ} {good good' : Pool κ τ ω σ → Event ω q → Prop}
  {p p' p'' : Pool κ τ ω σ}

theorem Reaches.mono (h : Reaches entry good p p') (hg : ∀ p e, good p e → good' p e) :
    Reaches entry good' p p' :=
  Relation.ReflTransGen.mono (fun p _ ⟨e, he, hf⟩ => ⟨e, hg p e he, hf⟩) _ _ h

theorem Reaches.trans (h : Reaches entry good p p') (h' : Reaches entry good p' p'') :
    Reaches entry good p p'' :=
  Relation.ReflTransGen.trans h h'

/-- A schedule that can be played is a run. -/
theorem play_reaches [∀ p e, Decidable (good p e)] {es : List (Event ω q)}
    (h : p.play entry good es = some p') : Reaches entry good p p' := by
  induction es generalizing p with
  | nil =>
    simp only [play, Option.some.injEq] at h
    exact h ▸ .refl
  | cons e es ih =>
    simp only [play] at h
    split at h
    · rename_i hg
      split at h
      · cases h
      · rename_i q hq
        exact .head ⟨e, hg, hq⟩ (ih h)
    · cases h

end Pool

end Coop
