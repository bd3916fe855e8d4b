import AgentGrove.Coop.Machine
import AgentGrove.Coop.Trace
import Mathlib.Data.List.Forall2

namespace Coop

namespace Prog

variable {κ τ ω σ α β γ : Type}

/-- Every action that the program takes from a state in `I` meets `A` and leaves the state
in `I`, and so does every action of what it spawns. The values that come out of such states are
the only ones it goes on with, and what it returns meets `Q`. The world's choices are those that
`ok` admits, and every loop comes with an invariant on its state. -/
def Upholds (ok : κ → ω → σ → Prop) (I : σ → Prop) (A : Option (κ × ω) → σ → σ → Prop) :
    {α : Type} → Prog κ τ ω σ α → (α → Prop) → Prop
  | _, .ret a, Q => Q a
  | _, .await site act next, Q => ∀ w s s' b, I s → ok site w s → act w s = some (s', b) →
      A (some (site, w)) s s' ∧ I s' ∧ Upholds ok I A (next b) Q
  | _, .sync act next, Q => ∀ s, I s →
      A none s (act s).1 ∧ I (act s).1 ∧ Upholds ok I A (next (act s).2) Q
  | _, .spawn _ child next, Q => Upholds ok I A child (fun _ => True) ∧ Upholds ok I A next Q
  | _, .loop (β := β) site b body next, Q => ∃ J : β → Prop, J b ∧ ∀ b, J b →
      (∀ w s, I s → ok site w s → A (some (site, w)) s s) ∧ Upholds ok I A (body b) (fun x =>
        match x with
        | .inl b' => J b'
        | .inr c => Upholds ok I A (next c) Q)

variable {ok ok' : κ → ω → σ → Prop} {I : σ → Prop} {A A' : Option (κ × ω) → σ → σ → Prop}
  {p : Prog κ τ ω σ α} {f : α → Prog κ τ ω σ β} {Q Q' : α → Prop}

theorem Upholds.mono (h : p.Upholds ok I A Q) (hq : ∀ a, Q a → Q' a) : p.Upholds ok I A Q' := by
  induction p with
  | ret a => exact hq a h
  | await site act next ih =>
    intro w s s' b hs hok ha
    obtain ⟨hA, hI, hnext⟩ := h w s s' b hs hok ha
    exact ⟨hA, hI, ih b hnext hq⟩
  | sync act next ih =>
    intro s hs
    obtain ⟨hA, hI, hnext⟩ := h s hs
    exact ⟨hA, hI, ih _ hnext hq⟩
  | spawn tag child next ihc ih => exact ⟨h.1, ih h.2 hq⟩
  | loop site b body next ihb ih =>
    obtain ⟨J, hb, hJ⟩ := h
    refine ⟨J, hb, fun b hb => ⟨(hJ b hb).1, ihb b (hJ b hb).2 ?_⟩⟩
    rintro (b' | c) hx
    · exact hx
    · exact ih c hx hq

theorem upholds_bind (p : Prog κ τ ω σ α) (f : α → Prog κ τ ω σ β) (Q : β → Prop) :
    (p.bind f).Upholds ok I A Q ↔ p.Upholds ok I A (fun a => (f a).Upholds ok I A Q) := by
  induction p with
  | ret a => simp only [bind, Upholds]
  | await site act next ih => simp only [bind, Upholds, ih]
  | sync act next ih => simp only [bind, Upholds, ih]
  | spawn tag child next ihc ih => simp only [bind, Upholds, ih]
  | loop site b body next ihb ih => simp only [bind, Upholds, ih]

/-- One program after another. -/
theorem Upholds.bind {Q' : β → Prop} (hp : p.Upholds ok I A Q) (hf : ∀ a, Q a → (f a).Upholds ok I A Q') :
    (p.bind f).Upholds ok I A Q' :=
  (upholds_bind p f Q').mpr (hp.mono hf)

/-- Code that keeps to a frame which keeps the invariant. -/
theorem Within.upholds {S : κ → Prop} {B : Option (κ × ω) → σ → σ → Prop} (hp : p.Within S B)
    (hb : ∀ e s s', I s → B e s s' → A e s s' ∧ I s') : p.Upholds ok I A (fun _ => True) := by
  induction p with
  | ret a => trivial
  | await site act next ih =>
    intro w s s' b hs _ ha
    obtain ⟨hA, hI⟩ := hb _ s s' hs (hp.2.1 w s s' b ha)
    exact ⟨hA, hI, ih b (hp.2.2 b)⟩
  | sync act next ih =>
    intro s hs
    obtain ⟨hA, hI⟩ := hb _ s _ hs (hp.1 s)
    exact ⟨hA, hI, ih _ (hp.2 _)⟩
  | spawn tag child next ihc ih => exact hp.elim
  | loop site b body next ihb ih =>
    refine ⟨fun _ => True, trivial, fun b _ => ⟨?_, ?_⟩⟩
    · exact fun w s hs _ => (hb _ s s hs (hp.1.2 w s)).1
    · refine (ihb b (hp.2.1 b)).mono fun x _ => ?_
      cases x with
      | inl b' => trivial
      | inr c => exact ih c (hp.2.2 c)

/-- What the program is at once: its state is in `I`, its rest upholds it and so does every
task it has started, and what it did meets `A`. -/
structure Upheld (ok : κ → ω → σ → Prop) (I : σ → Prop) (A : Option (κ × ω) → σ → σ → Prop)
    (Q : α → Prop) (as : List (Action κ ω σ))
    (out : σ × Prog κ τ ω σ α × List (τ × Prog κ τ ω σ Unit)) : Prop where
  state : I out.1
  rest : out.2.1.Upholds ok I A Q
  children : ∀ c ∈ out.2.2, c.2.Upholds ok I A (fun _ => True)
  acts : ∀ a ∈ as, A a.label a.before a.after

theorem Upholds.settle {s : σ} (h : p.Upholds ok I A Q) (hs : I s) :
    Upheld ok I A Q (p.settleActs s) (p.settle s) := by
  induction p generalizing s with
  | sync act next ih =>
    obtain ⟨hA, hI, hnext⟩ := h s hs
    have hrest := ih _ hnext hI
    exact ⟨hrest.state, hrest.rest, hrest.children, List.forall_mem_cons.mpr ⟨hA, hrest.acts⟩⟩
  | spawn tag child next ihc ih =>
    have hrest := ih h.2 hs
    exact ⟨hrest.state, hrest.rest, List.forall_mem_cons.mpr ⟨h.1, hrest.children⟩, hrest.acts⟩
  | _ => exact ⟨hs, h, fun _ hc => (nomatch hc), fun _ ha => (nomatch ha)⟩

/-- One step of the program, by a choice that is admitted where it rests. -/
theorem Upholds.resume {w : ω} {s : σ} {out : σ × Prog κ τ ω σ α × List (τ × Prog κ τ ω σ Unit)}
    (h : p.Upholds ok I A Q) (hs : I s) (hok : ∀ x, p.site = some x → ok x w s)
    (hout : p.resume w s = some out) : Upheld ok I A Q (p.resumeActs w s) out := by
  cases p with
  | ret a => cases hout
  | await site act next =>
    obtain ⟨⟨s₁, b⟩, ha, rfl⟩ := Option.map_eq_some_iff.mp hout
    obtain ⟨hA, hI, hnext⟩ := h w s s₁ b hs (hok site rfl) ha
    have hrest := hnext.settle hI
    refine ⟨hrest.state, hrest.rest, hrest.children, ?_⟩
    simp only [resumeActs, ha]
    exact List.forall_mem_cons.mpr ⟨hA, hrest.acts⟩
  | sync act next =>
    cases hout
    exact h.settle hs
  | spawn tag child next =>
    cases hout
    exact h.settle hs
  | loop site b body next =>
    cases hout
    obtain ⟨J, hb, hJ⟩ := h
    have hbody : ((body b).bind (unroll site body next)).Upholds ok I A Q := by
      refine (hJ b hb).2.bind fun x hx => ?_
      cases x with
      | inl b' => exact ⟨J, hx, hJ⟩
      | inr c => exact hx
    have hrest := hbody.settle hs
    refine ⟨hrest.state, hrest.rest, hrest.children, ?_⟩
    exact List.forall_mem_cons.mpr ⟨(hJ b hb).1 w s hs (hok site rfl), hrest.acts⟩

end Prog

namespace Pool

variable {κ τ ω σ q : Type} {entry : q → Thread κ τ ω σ} {good : Pool κ τ ω σ → Event ω q → Prop}
  {ok : κ → ω → σ → Prop} {I : σ → Prop} {p p' : Pool κ τ ω σ}

/-- Every task of the pool upholds the invariant, and it holds. -/
structure Upheld (ok : κ → ω → σ → Prop) (I : σ → Prop) (p : Pool κ τ ω σ) : Prop where
  state : I p.shared
  threads : ∀ th ∈ p.threads, th.prog.Upholds ok I (fun _ _ _ => True) (fun _ => True)

theorem Upheld.fire {e : Event ω q} (h : p.Upheld ok I)
    (harrive : ∀ request, e = .arrive request →
      (entry request).prog.Upholds ok I (fun _ _ _ => True) (fun _ => True))
    (hrun : ∀ i w x, e = .run i w → p.At i x → ok x w p.shared) (hf : p.fire entry e = some p') :
    p'.Upheld ok I := by
  cases e with
  | arrive request =>
    cases hf
    have hout := (harrive request rfl).settle h.state
    refine ⟨hout.state, fun th hth => ?_⟩
    rcases List.mem_append.mp hth with hth | hth
    · exact h.threads th hth
    rcases List.mem_cons.mp hth with rfl | hth
    · exact hout.rest
    · obtain ⟨c, hc, rfl⟩ := List.mem_map.mp hth
      exact hout.children c hc
  | run i w =>
    simp only [Pool.fire] at hf
    split at hf
    · cases hf
    rename_i th hi
    obtain ⟨out, hresume, rfl⟩ := Option.map_eq_some_iff.mp hf
    have hat : ∀ x, th.prog.site = some x → p.At i x := by
      intro x hx
      simp only [At, restsAt, hi, Option.bind_some, Thread.site, hx]
    have hout := (h.threads th (List.mem_of_getElem? hi)).resume h.state
      (fun x hx => hrun i w x rfl (hat x hx)) hresume
    refine ⟨hout.state, fun th' hth => ?_⟩
    rcases List.mem_append.mp hth with hth | hth
    · rcases List.mem_or_eq_of_mem_set hth with hth | rfl
      · exact h.threads th' hth
      · exact hout.rest
    · obtain ⟨c, hc, rfl⟩ := List.mem_map.mp hth
      exact hout.children c hc

/-- What every request upholds holds along every run. -/
theorem Reaches.upheld (h : Reaches entry good p p') (hp : p.Upheld ok I)
    (harrive : ∀ p request, I p.shared → good p (.arrive request) →
      (entry request).prog.Upholds ok I (fun _ _ _ => True) (fun _ => True))
    (hrun : ∀ p i w x, good p (.run i w) → p.At i x → ok x w p.shared) : p'.Upheld ok I := by
  induction h with
  | refl => exact hp
  | tail _ hstep ih =>
    obtain ⟨e, hg, hf⟩ := hstep
    refine ih.fire (fun request he => ?_) (fun i w x he hx => ?_) hf
    · subst he
      exact harrive _ request ih.state hg
    · subst he
      exact hrun _ i w x hg hx

end Pool

/-- A pool with a record of the request for which each task works. -/
structure Desk (κ τ ω σ q : Type) where
  pool : Pool κ τ ω σ
  owners : List q

namespace Desk

variable {κ τ ω σ q : Type}

/-- Whom the new tasks of an event work for. -/
def owner (d : Desk κ τ ω σ q) : Event ω q → Option q
  | .arrive request => some request
  | .run i _ => d.owners[i]?

/-- The record after one more event. -/
def assign (d : Desk κ τ ω σ q) (e : Event ω q) (p' : Pool κ τ ω σ) : List q :=
  d.owners ++ ((d.owner e).map (List.replicate (p'.threads.length - d.pool.threads.length))).getD []

/-- The pool with its record. -/
def run (entry : q → Thread κ τ ω σ) : Machine (Desk κ τ ω σ q) (Event ω q) where
  step d e := (d.pool.fire entry e).map (fun p' => ⟨p', d.assign e p'⟩)

variable {entry : q → Thread κ τ ω σ} {good : Desk κ τ ω σ q → Event ω q → Prop}
  {ok : q → κ → ω → σ → Prop} {I : σ → Prop} {A : q → Option (κ × ω) → σ → σ → Prop}
  {d d' : Desk κ τ ω σ q} {th : Thread κ τ ω σ} {r : q}

/-- A task does for its request what the request allows. -/
def Serves (ok : q → κ → ω → σ → Prop) (I : σ → Prop) (A : q → Option (κ × ω) → σ → σ → Prop)
    (th : Thread κ τ ω σ) (r : q) : Prop :=
  th.prog.Upholds (ok r) I (A r) (fun _ => True)

/-- The invariant holds, and every task serves the request on record. -/
structure Upheld (ok : q → κ → ω → σ → Prop) (I : σ → Prop) (A : q → Option (κ × ω) → σ → σ → Prop)
    (d : Desk κ τ ω σ q) : Prop where
  state : I d.pool.shared
  tasks : List.Forall₂ (Serves ok I A) d.pool.threads d.owners

theorem forall₂_set {R : Thread κ τ ω σ → q → Prop} {ths : List (Thread κ τ ω σ)} {rs : List q}
    (h : List.Forall₂ R ths rs) {i : Nat} (hi : rs[i]? = some r) (hr : R th r) :
    List.Forall₂ R (ths.set i th) rs := by
  induction h generalizing i with
  | nil => cases hi
  | cons ht hts ih =>
    cases i with
    | zero =>
      cases hi
      exact .cons hr hts
    | succ i => exact .cons ht (ih hi)

theorem forall₂_replicate {R : Thread κ τ ω σ → q → Prop} {ths : List (Thread κ τ ω σ)}
    (h : ∀ th ∈ ths, R th r) : List.Forall₂ R ths (List.replicate ths.length r) := by
  induction ths with
  | nil => exact .nil
  | cons th ths ih =>
    obtain ⟨hth, hths⟩ := List.forall_mem_cons.mp h
    exact .cons hth (ih hths)

theorem Upheld.serves (h : d.Upheld ok I A) {i : Nat} (hi : d.pool.threads[i]? = some th) :
    ∃ r, d.owners[i]? = some r ∧ Serves ok I A th r := by
  obtain ⟨hl, rfl⟩ := List.getElem?_eq_some_iff.mp hi
  have hl' : i < d.owners.length := h.tasks.length_eq ▸ hl
  exact ⟨_, List.getElem?_eq_getElem hl', h.tasks.get hl hl'⟩

theorem Upheld.step {e : Event ω q} (h : d.Upheld ok I A)
    (harrive : ∀ request, e = .arrive request → Serves ok I A (entry request) request)
    (hrun : ∀ i w x r, e = .run i w → d.pool.At i x → d.owners[i]? = some r → ok r x w d.pool.shared)
    (hf : (run entry).step d e = some d') : d'.Upheld ok I A := by
  obtain ⟨p', hfire, rfl⟩ := Option.map_eq_some_iff.mp hf
  cases e with
  | arrive request =>
    cases hfire
    have hout := (harrive request rfl).settle h.state
    refine ⟨hout.state, List.rel_append h.tasks ?_⟩
    simp only [owner, Option.map_some, Option.getD_some, List.length_append, Nat.add_sub_cancel_left]
    refine forall₂_replicate (List.forall_mem_cons.mpr ⟨hout.rest, fun th hth => ?_⟩)
    obtain ⟨c, hc, rfl⟩ := List.mem_map.mp hth
    exact hout.children c hc
  | run i w =>
    simp only [Pool.fire] at hfire
    split at hfire
    · cases hfire
    rename_i th hi
    obtain ⟨out, hresume, rfl⟩ := Option.map_eq_some_iff.mp hfire
    obtain ⟨r, hr, hth⟩ := h.serves hi
    have hat : ∀ x, th.prog.site = some x → d.pool.At i x := by
      intro x hx
      simp only [Pool.At, Pool.restsAt, hi, Option.bind_some, Thread.site, hx]
    have hout := hth.resume h.state (fun x hx => hrun i w x r rfl (hat x hx) hr) hresume
    have hrest : Serves ok I A ⟨th.tag, out.2.1⟩ r := hout.rest
    refine ⟨hout.state, List.rel_append (forall₂_set h.tasks hr hrest) ?_⟩
    simp only [owner, hr, Option.map_some, Option.getD_some, List.length_append, List.length_set,
      Nat.add_sub_cancel_left]
    refine forall₂_replicate fun th' hth' => ?_
    obtain ⟨c, hc, rfl⟩ := List.mem_map.mp hth'
    exact hout.children c hc

/-- What every request upholds, every run does. -/
theorem Upheld.reaches (h : (run entry).Reaches good d d') (hd : d.Upheld ok I A)
    (harrive : ∀ d request, good d (.arrive request) → Serves ok I A (entry request) request)
    (hrun : ∀ d i w x r, good d (.run i w) → d.pool.At i x → d.owners[i]? = some r →
      ok r x w d.pool.shared) : d'.Upheld ok I A := by
  refine h.keeps hd fun d e d' hup hg hstep => ?_
  refine hup.step (fun request he => ?_) (fun i w x r he hx hr => ?_) hstep
  · subst he
    exact harrive d request hg
  · subst he
    exact hrun d i w x r hg hx hr

/-- And so every step that a run may take next does what its request allows. -/
theorem Upheld.next (h : d.Upheld ok I A) {i : Nat} {w : ω} (hi : d.pool.threads[i]? = some th)
    (hr : d.owners[i]? = some r) (hok : ∀ x, d.pool.At i x → ok r x w d.pool.shared)
    {out : σ × Prog κ τ ω σ Unit × List (τ × Prog κ τ ω σ Unit)}
    (hout : th.prog.resume w d.pool.shared = some out) :
    ∀ a ∈ th.prog.resumeActs w d.pool.shared, A r a.label a.before a.after := by
  obtain ⟨r', hr', hth⟩ := h.serves hi
  cases hr.symm.trans hr'
  refine (hth.resume h.state (fun x hx => hok x ?_) hout).acts
  simp only [Pool.At, Pool.restsAt, hi, Option.bind_some, Thread.site, hx]

end Desk

end Coop
