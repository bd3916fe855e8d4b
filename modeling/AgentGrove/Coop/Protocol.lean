import AgentGrove.Coop.Pool
import Mathlib.Data.List.Forall2
import Mathlib.Tactic.Common

namespace Coop

/-- An abstract account of what each task may do to the shared state. A task
is summed up by its role: `rest` says which roles fit a task resting at a
suspension point (`none` once finished), `sees` what a role may rely on, `move`
how an action changes role and state, and `fork` which roles a spawn hands out. -/
structure Protocol (κ τ ω σ ρ : Type) where
  rest : τ → Option κ → ρ → Prop
  sees : ρ → σ → Prop
  move : Option (κ × ω) → ρ → σ → ρ → σ → Prop
  fork : ρ → τ → ρ → ρ → Prop

namespace Protocol

variable {κ τ ω σ ρ q α β γ : Type}

/-- The program keeps to the protocol from role `r` and ends in a role that
`Q` admits. Every loop comes with an invariant on its state and role; entering
its body once more is a move of its own. -/
def Follows (P : Protocol κ τ ω σ ρ) : {α : Type} → τ → Prog κ τ ω σ α → ρ → (α → ρ → Prop) → Prop
  | _, _, .ret a, r, Q => Q a r
  | _, t, .await site act next, r, Q => P.rest t (some site) r ∧
      ∀ w s s' b, P.sees r s → act w s = some (s', b) →
        ∃ r', P.move (some (site, w)) r s r' s' ∧ Follows P t (next b) r' Q
  | _, t, .sync act next, r, Q => ∀ s, P.sees r s →
      ∃ r', P.move none r s r' (act s).1 ∧ Follows P t (next (act s).2) r' Q
  | _, t, .spawn tag child next, r, Q => ∃ rc r', P.fork r tag rc r' ∧ child.Resting ∧
      Follows P tag child rc (fun _ r => P.rest tag none r) ∧ Follows P t next r' Q
  | _, t, .loop (β := β) site b body next, r, Q => ∃ I : β → ρ → Prop, I b r ∧
      ∀ b r, I b r → P.rest t (some site) r ∧ ∀ w s, P.sees r s →
        ∃ r', P.move (some (site, w)) r s r' s ∧ Follows P t (body b) r' (fun x r'' =>
          match x with
          | .inl b' => I b' r''
          | .inr c => Follows P t (next c) r'' Q)

/-- The program of a whole task keeps to the protocol from role `r`. -/
def Obeys (P : Protocol κ τ ω σ ρ) (t : Thread κ τ ω σ) (r : ρ) : Prop :=
  t.prog.Resting ∧ P.Follows t.tag t.prog r (fun _ r' => P.rest t.tag none r')

def Coupled (P : Protocol κ τ ω σ ρ) (p : Pool κ τ ω σ) (roles : List ρ) : Prop :=
  p.threads.length = roles.length ∧
    ∀ (i : Nat) t, p.threads[i]? = some t → ∃ r, roles[i]? = some r ∧ P.Obeys t r

variable {P : Protocol κ τ ω σ ρ} {t : τ} {r : ρ}

theorem follows_bind (p : Prog κ τ ω σ α) (f : α → Prog κ τ ω σ β) (Q : β → ρ → Prop) :
    P.Follows t (p.bind f) r Q ↔ P.Follows t p r (fun a r' => P.Follows t (f a) r' Q) := by
  induction p generalizing r with
  | ret a => simp only [Prog.bind, Follows]
  | await site act next ih => simp only [Prog.bind, Follows, ih]
  | sync act next ih => simp only [Prog.bind, Follows, ih]
  | spawn tag child next ihc ih => simp only [Prog.bind, Follows, ih]
  | loop site b body next ihb ih => simp only [Prog.bind, Follows, ih]

theorem follows_mono {p : Prog κ τ ω σ α} {Q Q' : α → ρ → Prop}
    (h : P.Follows t p r Q) (hq : ∀ a r', Q a r' → Q' a r') : P.Follows t p r Q' := by
  induction p generalizing r with
  | ret a => exact hq a r h
  | await site act next ih =>
    refine ⟨h.1, fun w s s' b hs ha => ?_⟩
    obtain ⟨r', hm, hf⟩ := h.2 w s s' b hs ha
    exact ⟨r', hm, ih b hf hq⟩
  | sync act next ih =>
    intro s hs
    obtain ⟨r', hm, hf⟩ := h s hs
    exact ⟨r', hm, ih _ hf hq⟩
  | spawn tag child next ihc ih =>
    obtain ⟨rc, r', hk, hc, hf, hn⟩ := h
    exact ⟨rc, r', hk, hc, hf, ih hn hq⟩
  | loop site b body next ihb ih =>
    obtain ⟨I, hb, hI⟩ := h
    refine ⟨I, hb, fun b r hr => ⟨(hI b r hr).1, fun w s hs => ?_⟩⟩
    obtain ⟨r', hm, hf⟩ := (hI b r hr).2 w s hs
    refine ⟨r', hm, ihb b hf ?_⟩
    rintro (b' | c) r'' hx
    · exact hx
    · exact ih c hx hq

theorem follows_then {p : Prog κ τ ω σ α} {f : α → Prog κ τ ω σ β} {M : α → ρ → Prop} {Q : β → ρ → Prop}
    (hp : P.Follows t p r M) (hf : ∀ a r', M a r' → P.Follows t (f a) r' Q) :
    P.Follows t (p.bind f) r Q :=
  (follows_bind p f Q).mpr (follows_mono hp hf)

/-- Running code that leaves the task in one known role. -/
theorem follows_to {m : ρ} {p : Prog κ τ ω σ α} {f : α → Prog κ τ ω σ β} {Q : β → ρ → Prop}
    (hp : P.Follows t p r (fun _ x => x = m)) (hf : ∀ a, P.Follows t (f a) m Q) :
    P.Follows t (p.bind f) r Q := by
  refine follows_then hp fun a x hx => ?_
  rw [hx]
  exact hf a

/-- Running code that leaves the task in one of two roles, and says in which. -/
theorem follows_split {m n : ρ} {A B : α → Prop} {p : Prog κ τ ω σ α} {f : α → Prog κ τ ω σ β}
    {Q : β → ρ → Prop} (hp : P.Follows t p r (fun a x => A a ∧ x = m ∨ B a ∧ x = n))
    (ha : ∀ a, A a → P.Follows t (f a) m Q) (hb : ∀ a, B a → P.Follows t (f a) n Q) :
    P.Follows t (p.bind f) r Q := by
  refine follows_then hp fun a x hx => ?_
  rcases hx with ⟨h, rfl⟩ | ⟨h, rfl⟩
  · exact ha a h
  · exact hb a h

/-- A loop whose state and role meet an invariant may be taken once more. -/
theorem follows_unroll {site : κ} {b : β} {body : β → Prog κ τ ω σ (β ⊕ γ)}
    {next : γ → Prog κ τ ω σ α} {Q : α → ρ → Prop}
    (h : P.Follows t (.loop site b body next) r Q) (w : ω) {s : σ} (hs : P.sees r s) :
    ∃ r', P.move (some (site, w)) r s r' s ∧
      P.Follows t ((body b).bind (Prog.unroll site body next)) r' Q := by
  obtain ⟨I, hb, hI⟩ := h
  obtain ⟨r', hm, hf⟩ := (hI b r hb).2 w s hs
  refine ⟨r', hm, ?_⟩
  rw [follows_bind]
  refine follows_mono hf ?_
  rintro (b' | c) r'' hx
  · exact ⟨I, hx, hI⟩
  · exact hx

theorem Obeys.rests {th : Thread κ τ ω σ} (h : P.Obeys th r) : P.rest th.tag th.site r := by
  obtain ⟨tag, prog⟩ := th
  obtain ⟨hr, hf⟩ := h
  cases prog with
  | ret a => exact hf
  | await site act next => exact hf.1
  | sync act next => exact hr.elim
  | spawn tag child next => exact hr.elim
  | loop site b body next =>
    obtain ⟨I, hb, hI⟩ := hf
    exact (hI b r hb).1

theorem Coupled.role {p : Pool κ τ ω σ} {roles : List ρ} (h : P.Coupled p roles) {i : Nat}
    {th : Thread κ τ ω σ} (hi : p.threads[i]? = some th) :
    ∃ r, roles[i]? = some r ∧ P.rest th.tag th.site r := by
  obtain ⟨r, hr, ho⟩ := h.2 i th hi
  exact ⟨r, hr, ho.rests⟩

theorem Coupled.thread {p : Pool κ τ ω σ} {roles : List ρ} (h : P.Coupled p roles) {i : Nat}
    (hi : roles[i]? = some r) : ∃ th, p.threads[i]? = some th ∧ P.rest th.tag th.site r := by
  have hl : i < p.threads.length := by
    rw [h.1]
    exact (List.getElem?_eq_some_iff.mp hi).1
  have ht : p.threads[i]? = some p.threads[i] := List.getElem?_eq_getElem hl
  obtain ⟨r', hr, ho⟩ := h.role ht
  rw [hi] at hr
  exact ⟨_, ht, Option.some.inj hr ▸ ho⟩

theorem Coupled.append {p : Pool κ τ ω σ} {roles : List ρ} (h : P.Coupled p roles) (s : σ)
    {ths : List (Thread κ τ ω σ)} {rs : List ρ} (hc : List.Forall₂ P.Obeys ths rs) :
    P.Coupled { shared := s, threads := p.threads ++ ths } (roles ++ rs) := by
  refine ⟨by simp only [List.length_append, h.1, hc.length_eq], fun i th hi => ?_⟩
  dsimp only at hi
  rcases Nat.lt_or_ge i p.threads.length with hlt | hge
  · rw [List.getElem?_append_left hlt] at hi
    rw [List.getElem?_append_left (h.1 ▸ hlt)]
    exact h.2 i th hi
  · rw [List.getElem?_append_right hge] at hi
    rw [List.getElem?_append_right (h.1 ▸ hge), ← h.1]
    obtain ⟨hl, he⟩ := List.getElem?_eq_some_iff.mp hi
    have hl' := hc.length_eq ▸ hl
    refine ⟨rs[i - p.threads.length], List.getElem?_eq_getElem hl', ?_⟩
    exact he ▸ hc.get hl hl'

theorem Coupled.set {p : Pool κ τ ω σ} {roles : List ρ} (h : P.Coupled p roles) (s : σ) (i : Nat)
    {th : Thread κ τ ω σ} (ho : P.Obeys th r) :
    P.Coupled { shared := s, threads := p.threads.set i th } (roles.set i r) := by
  refine ⟨by simp only [List.length_set, h.1], fun j th' hj => ?_⟩
  simp only [List.getElem?_set] at hj ⊢
  split at hj
  · rename_i he
    split at hj
    · rename_i hl
      cases hj
      have hl' : i < roles.length := h.1 ▸ hl
      exact ⟨r, by simp only [he, ↓reduceIte, he ▸ hl'], ho⟩
    · cases hj
  · rename_i hne
    simp only [hne, ↓reduceIte]
    exact h.2 j th' hj

/-- What an invariant of the protocol has to survive from the task at one index:
each single move and fork. -/
structure KeptBy (P : Protocol κ τ ω σ ρ) (i : Nat) (Inv : σ → List ρ → Prop) : Prop where
  sees : ∀ s (roles : List ρ) r, Inv s roles → roles[i]? = some r → P.sees r s
  sync : ∀ s (roles : List ρ) r r' s', Inv s roles → roles[i]? = some r →
    P.move none r s r' s' → Inv s' (roles.set i r')
  fork : ∀ s (roles : List ρ) r tag rc r', Inv s roles → roles[i]? = some r → P.fork r tag rc r' →
    Inv s (roles.set i r' ++ [rc])

/-- The same for all tasks. -/
structure Kept (P : Protocol κ τ ω σ ρ) (Inv : σ → List ρ → Prop) : Prop where
  sees : ∀ s (roles : List ρ) (i : Nat) r, Inv s roles → roles[i]? = some r → P.sees r s
  sync : ∀ s (roles : List ρ) (i : Nat) r r' s', Inv s roles → roles[i]? = some r →
    P.move none r s r' s' → Inv s' (roles.set i r')
  fork : ∀ s (roles : List ρ) (i : Nat) r tag rc r', Inv s roles → roles[i]? = some r → P.fork r tag rc r' →
    Inv s (roles.set i r' ++ [rc])

theorem Kept.and {Inv Inv' : σ → List ρ → Prop} (hk : P.Kept Inv) (hk' : P.Kept Inv') :
    P.Kept (fun s roles => Inv s roles ∧ Inv' s roles) where
  sees s roles i r hv hi := hk.sees s roles i r hv.1 hi
  sync s roles i r r' s' hv hi hm :=
    ⟨hk.sync s roles i r r' s' hv.1 hi hm, hk'.sync s roles i r r' s' hv.2 hi hm⟩
  fork s roles i r tag rc r' hv hi hf :=
    ⟨hk.fork s roles i r tag rc r' hv.1 hi hf, hk'.fork s roles i r tag rc r' hv.2 hi hf⟩

theorem Kept.one {Inv : σ → List ρ → Prop} (hk : P.Kept Inv) (i : Nat) : P.KeptBy i Inv :=
  ⟨fun s roles => hk.sees s roles i, fun s roles => hk.sync s roles i,
    fun s roles => hk.fork s roles i⟩

/-- Settling a task is a series of synchronous moves and forks by that task. -/
theorem KeptBy.settle {Inv : σ → List ρ → Prop} {i : Nat} (hk : P.KeptBy i Inv)
    (p : Prog κ τ ω σ α) (s : σ) (roles : List ρ) {Q : α → ρ → Prop} (hi : roles[i]? = some r) (hv : Inv s roles)
    (hf : P.Follows t p r Q) :
    ∃ r' rs, Inv (p.settle s).1 (roles.set i r' ++ rs) ∧
      P.Follows t (p.settle s).2.1 r' Q ∧
      List.Forall₂ P.Obeys ((p.settle s).2.2.map (fun c => ⟨c.1, c.2⟩)) rs := by
  have hsame : ∀ s, Inv s roles → Inv s (roles.set i r ++ []) := by
    intro s h
    obtain ⟨hl, he⟩ := List.getElem?_eq_some_iff.mp hi
    subst he
    simpa using h
  induction p generalizing s roles r with
  | ret a => exact ⟨r, [], hsame s hv, hf, .nil⟩
  | await site act next ih => exact ⟨r, [], hsame s hv, hf, .nil⟩
  | loop site b body next ihb ih => exact ⟨r, [], hsame s hv, hf, .nil⟩
  | sync act next ih =>
    obtain ⟨r₁, hm, hn⟩ := hf s (hk.sees s roles r hv hi)
    have hl := (List.getElem?_eq_some_iff.mp hi).1
    have hi₁ : (roles.set i r₁)[i]? = some r₁ := by simp [hl]
    obtain ⟨r', rs, hv', hf', hc⟩ := ih _ (act s).1 (roles.set i r₁) hi₁
      (hk.sync s roles r r₁ _ hv hi hm) hn (by
        intro s h
        simpa using h)
    rw [List.set_set] at hv'
    exact ⟨r', rs, hv', hf', hc⟩
  | spawn tag child next ihc ih =>
    obtain ⟨rc, r₁, hfk, hrest, hchild, hn⟩ := hf
    have hl := (List.getElem?_eq_some_iff.mp hi).1
    have hl' : i < (roles.set i r₁).length := by simpa using hl
    have hi₁ : (roles.set i r₁ ++ [rc])[i]? = some r₁ := by
      rw [List.getElem?_append_left hl']
      simp [hl]
    have hset : ∀ r₂, (roles.set i r₁ ++ [rc]).set i r₂ = roles.set i r₂ ++ [rc] := by
      intro r₂
      rw [List.set_append_left _ _ hl', List.set_set]
    obtain ⟨r', rs, hv', hf', hc⟩ := ih s (roles.set i r₁ ++ [rc]) hi₁
      (hk.fork s roles r tag rc r₁ hv hi hfk) hn (by
        intro s h
        rw [hset]
        simpa using h)
    refine ⟨r', rc :: rs, ?_, hf', .cons ⟨hrest, hchild⟩ hc⟩
    rw [hset, List.append_assoc] at hv'
    exact hv'

/-- One step of the scheduler: an invariant that the action taken at a suspension
point brings about lasts to the next one. The action may use the condition under
which the step was allowed; whatever follows it synchronously may not. -/
theorem KeptBy.fire_acting {Inv : σ → List ρ → Prop} {i : Nat} (hk : P.KeptBy i Inv)
    {entry : q → Thread κ τ ω σ} {p p' : Pool κ τ ω σ} {roles : List ρ} {w : ω} (hc : P.Coupled p roles)
    (hsees : ∀ r, roles[i]? = some r → P.sees r p.shared)
    (hawait : ∀ site r r' s', p.At i site → p.acts i w = some s' → roles[i]? = some r →
      P.move (some (site, w)) r p.shared r' s' → Inv s' (roles.set i r'))
    (h : p.fire entry (.run i w) = some p') :
    ∃ roles', P.Coupled p' roles' ∧ Inv p'.shared roles' := by
  simp only [Pool.fire] at h
  split at h
  · cases h
  rename_i th hi
  obtain ⟨out, hout, rfl⟩ := Option.map_eq_some_iff.mp h
  obtain ⟨r, hr, hrest, hf⟩ := hc.2 i th hi
  have hl := (List.getElem?_eq_some_iff.mp hr).1
  obtain ⟨tag, prog⟩ := th
  -- The remaining program settles from a role the invariant admits.
  have hfinish : ∀ (p₁ : Prog κ τ ω σ Unit) s₁ roles₁ r₁, roles₁[i]? = some r₁ → Inv s₁ roles₁ →
      (∀ r₂, roles₁.set i r₂ = roles.set i r₂) →
      P.Follows tag p₁ r₁ (fun _ r' => P.rest tag none r') →
      ∃ roles', P.Coupled
          { shared := (p₁.settle s₁).1
            threads := p.threads.set i ⟨tag, (p₁.settle s₁).2.1⟩ ++
              (p₁.settle s₁).2.2.map (fun c => ⟨c.1, c.2⟩) } roles' ∧
        Inv (p₁.settle s₁).1 roles' := by
    intro p₁ s₁ roles₁ r₁ hi₁ hv₁ hset hf₁
    obtain ⟨r', rs, hv', hf', hcs⟩ := hk.settle p₁ s₁ roles₁ hi₁ hv₁ hf₁
    rw [hset] at hv'
    exact ⟨_, (hc.set (p₁.settle s₁).1 i ⟨Prog.settle_resting p₁ s₁, hf'⟩).append _ hcs, hv'⟩
  cases prog with
  | ret a => simp [Prog.resume] at hout
  | sync act next => exact hrest.elim
  | spawn tag child next => exact hrest.elim
  | loop site b body next =>
    simp only [Prog.resume, Option.some.injEq] at hout
    subst hout
    obtain ⟨r', hm, hn⟩ := follows_unroll hf w (hsees r hr)
    refine hfinish _ p.shared (roles.set i r') r' (by simp [hl]) ?_ (by simp) hn
    refine hawait site r r' p.shared ?_ ?_ hr hm
    · simp only [Pool.At, Pool.restsAt, hi]
      rfl
    · simp only [Pool.acts, hi]
      rfl
  | await site act next =>
    simp only [Prog.resume, Option.map_eq_some_iff] at hout
    obtain ⟨⟨s', b⟩, ha, rfl⟩ := hout
    obtain ⟨r', hm, hn⟩ := hf.2 w p.shared s' b (hsees r hr) ha
    refine hfinish _ s' (roles.set i r') r' (by simp [hl]) ?_ (by simp) hn
    refine hawait site r r' s' ?_ ?_ hr hm
    · simp only [Pool.At, Pool.restsAt, hi]
      rfl
    · simp only [Pool.acts, hi, Option.bind_some, Prog.acts, ha, Option.map_some]

theorem KeptBy.fire_from {Inv : σ → List ρ → Prop} {i : Nat} (hk : P.KeptBy i Inv)
    {entry : q → Thread κ τ ω σ} {p p' : Pool κ τ ω σ} {roles : List ρ} {w : ω} (hc : P.Coupled p roles)
    (hsees : ∀ r, roles[i]? = some r → P.sees r p.shared)
    (hawait : ∀ site r r' s', p.At i site → roles[i]? = some r →
      P.move (some (site, w)) r p.shared r' s' → Inv s' (roles.set i r'))
    (h : p.fire entry (.run i w) = some p') :
    ∃ roles', P.Coupled p' roles' ∧ Inv p'.shared roles' :=
  hk.fire_acting hc hsees (fun site r r' s' hat _ => hawait site r r' s' hat) h

/-- One step keeps the coupling and the invariant. -/
theorem KeptBy.fire {Inv : σ → List ρ → Prop} {i : Nat} (hk : P.KeptBy i Inv)
    {entry : q → Thread κ τ ω σ} {p p' : Pool κ τ ω σ} {roles : List ρ} {w : ω} (hc : P.Coupled p roles)
    (hv : Inv p.shared roles)
    (hawait : ∀ site r r' s', p.At i site → roles[i]? = some r →
      P.move (some (site, w)) r p.shared r' s' → Inv s' (roles.set i r'))
    (h : p.fire entry (.run i w) = some p') :
    ∃ roles', P.Coupled p' roles' ∧ Inv p'.shared roles' :=
  hk.fire_from hc (fun r hr => hk.sees _ _ r hv hr) hawait h

/-- Admitting a request runs its handler up to the first await. -/
theorem KeptBy.arrive {Inv : σ → List ρ → Prop} {entry : q → Thread κ τ ω σ}
    {p p' : Pool κ τ ω σ} {roles : List ρ} (hk : P.KeptBy roles.length Inv) {request : q}
    (hc : P.Coupled p roles)
    (hf : P.Follows (entry request).tag (entry request).prog r
      (fun _ r' => P.rest (entry request).tag none r'))
    (hv : Inv p.shared (roles ++ [r])) (h : p.fire (ω := ω) entry (.arrive request) = some p') :
    ∃ roles', P.Coupled p' roles' ∧ Inv p'.shared roles' := by
  simp only [Pool.fire, Option.some.injEq] at h
  subst h
  obtain ⟨r', rs, hv', hf', hcs⟩ := hk.settle (entry request).prog p.shared
    (roles ++ [r]) (by simp) hv hf
  have hset : (roles ++ [r]).set roles.length r' ++ rs = roles ++ r' :: rs := by simp
  rw [hset] at hv'
  exact ⟨_, hc.append _ (.cons ⟨Prog.settle_resting _ _, hf'⟩ hcs), hv'⟩

/-- The invariant rule: what holds of the start and survives admissions, moves
and forks holds, with some assignment of roles, in every state of every run. -/
theorem Kept.reaches_acting {Inv : σ → List ρ → Prop} (hk : P.Kept Inv) {entry : q → Thread κ τ ω σ}
    {good : Pool κ τ ω σ → Event ω q → Prop}
    (harrive : ∀ p roles request, P.Coupled p roles → Inv p.shared roles →
      good p (.arrive request) → ∃ r, P.Follows (entry request).tag (entry request).prog r
        (fun _ r' => P.rest (entry request).tag none r') ∧ Inv p.shared (roles ++ [r]))
    (hawait : ∀ p roles i w site r r' s', P.Coupled p roles → Inv p.shared roles →
      good p (.run i w) → p.At i site → p.acts i w = some s' → roles[i]? = some r →
      P.move (some (site, w)) r p.shared r' s' → Inv s' (roles.set i r'))
    {p p' : Pool κ τ ω σ} (h : p.Reaches entry good p') {roles : List ρ}
    (hc : P.Coupled p roles) (hv : Inv p.shared roles) :
    ∃ roles', P.Coupled p' roles' ∧ Inv p'.shared roles' := by
  induction h with
  | refl => exact ⟨roles, hc, hv⟩
  | tail _ hstep ih =>
    obtain ⟨roles₁, hc₁, hv₁⟩ := ih
    obtain ⟨e, hg, hf⟩ := hstep
    cases e with
    | arrive request =>
      obtain ⟨r, ho, hv'⟩ := harrive _ roles₁ request hc₁ hv₁ hg
      exact (hk.one _).arrive hc₁ ho hv' hf
    | run i w =>
      exact (hk.one i).fire_acting hc₁ (fun r hr => hk.sees _ _ i r hv₁ hr)
        (fun site r r' s' => hawait _ roles₁ i w site r r' s' hc₁ hv₁ hg) hf

theorem Kept.reaches {Inv : σ → List ρ → Prop} (hk : P.Kept Inv) {entry : q → Thread κ τ ω σ}
    {good : Pool κ τ ω σ → Event ω q → Prop}
    (harrive : ∀ p roles request, P.Coupled p roles → Inv p.shared roles →
      good p (.arrive request) → ∃ r, P.Follows (entry request).tag (entry request).prog r
        (fun _ r' => P.rest (entry request).tag none r') ∧ Inv p.shared (roles ++ [r]))
    (hawait : ∀ p roles i w site r r' s', P.Coupled p roles → Inv p.shared roles →
      good p (.run i w) → p.At i site → roles[i]? = some r →
      P.move (some (site, w)) r p.shared r' s' → Inv s' (roles.set i r'))
    {p p' : Pool κ τ ω σ} (h : p.Reaches entry good p') {roles : List ρ}
    (hc : P.Coupled p roles) (hv : Inv p.shared roles) :
    ∃ roles', P.Coupled p' roles' ∧ Inv p'.shared roles' :=
  hk.reaches_acting harrive
    (fun p roles i w site r r' s' hc hv hg hat _ => hawait p roles i w site r r' s' hc hv hg hat) h hc hv

end Protocol

end Coop
