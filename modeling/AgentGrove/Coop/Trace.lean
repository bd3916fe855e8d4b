import AgentGrove.Coop.Frame

namespace Coop

/-- One action of a task: the suspension point and the choice if it was awaited, and
the states around it. -/
structure Action (κ ω σ : Type) where
  label : Option (κ × ω)
  before : σ
  after : σ

namespace Prog

variable {κ τ ω σ α β γ δ : Type}

/-- What a finished program has returned. -/
def returned : Prog κ τ ω σ α → Option α
  | .ret a => some a
  | _ => none

/-- A task at work among others: from the program `p` in the state `s` it takes the
actions `as` and comes to `q` in `s'`. While it rests the others may do what `E` says. -/
inductive Traces (E : σ → σ → Prop) {α : Type} : Prog κ τ ω σ α → σ → List (Action κ ω σ) →
    Prog κ τ ω σ α → σ → Prop where
  | rest (p : Prog κ τ ω σ α) (s : σ) : Traces E p s [] p s
  | others {p q : Prog κ τ ω σ α} {s s₁ s' : σ} {as : List (Action κ ω σ)} (hp : p.Resting)
      (hE : E s s₁) (h : Traces E p s₁ as q s') : Traces E p s as q s'
  | await {β : Type} {site : κ} {act : ω → σ → Option (σ × β)} {next : β → Prog κ τ ω σ α}
      {q : Prog κ τ ω σ α} {w : ω} {s s₁ s' : σ} {b : β} {as : List (Action κ ω σ)}
      (ha : act w s = some (s₁, b)) (h : Traces E (next b) s₁ as q s') :
      Traces E (.await site act next) s (⟨some (site, w), s, s₁⟩ :: as) q s'
  | sync {β : Type} {act : σ → σ × β} {next : β → Prog κ τ ω σ α} {q : Prog κ τ ω σ α}
      {s s' : σ} {as : List (Action κ ω σ)} (h : Traces E (next (act s).2) (act s).1 as q s') :
      Traces E (.sync act next) s (⟨none, s, (act s).1⟩ :: as) q s'
  | spawn {tag : τ} {child : Prog κ τ ω σ Unit} {next q : Prog κ τ ω σ α} {s s' : σ}
      {as : List (Action κ ω σ)} (h : Traces E next s as q s') :
      Traces E (.spawn tag child next) s as q s'
  | loop {β γ : Type} {site : κ} {b : β} {body : β → Prog κ τ ω σ (β ⊕ γ)}
      {next : γ → Prog κ τ ω σ α} {q : Prog κ τ ω σ α} {s s' : σ} {as : List (Action κ ω σ)} (w : ω)
      (h : Traces E ((body b).bind (unroll site body next)) s as q s') :
      Traces E (.loop site b body next) s (⟨some (site, w), s, s⟩ :: as) q s'

variable {E : σ → σ → Prop} {p q r : Prog κ τ ω σ α} {s s' s'' : σ} {as as' : List (Action κ ω σ)}

theorem Traces.trans (h : p.Traces E s as q s') (h' : q.Traces E s' as' r s'') :
    p.Traces E s (as ++ as') r s'' := by
  induction h with
  | rest p s => exact h'
  | others hp hE _ ih => exact .others hp hE (ih h')
  | await ha _ ih => exact .await ha (ih h')
  | sync _ ih => exact .sync (ih h')
  | spawn _ ih => exact .spawn (ih h')
  | loop w _ ih => exact .loop w (ih h')

theorem bind_resting {p : Prog κ τ ω σ α} {f : α → Prog κ τ ω σ β} (h : (p.bind f).Resting) :
    p.Resting := by
  cases p with
  | sync => exact h
  | spawn => exact h
  | _ => trivial

theorem bind_unroll (p : Prog κ τ ω σ (β ⊕ γ)) (site : κ) (body : β → Prog κ τ ω σ (β ⊕ γ))
    (next : γ → Prog κ τ ω σ α) (f : α → Prog κ τ ω σ δ) :
    (p.bind (unroll site body next)).bind f =
      p.bind (unroll site body fun c => (next c).bind f) := by
  rw [bind_assoc]
  congr 1
  funext x
  cases x <;> rfl

/-- A trace of one program after another ends in the first or passes through its end. -/
theorem Traces.of_bind {p : Prog κ τ ω σ α} {f : α → Prog κ τ ω σ β} {q : Prog κ τ ω σ β}
    (h : (p.bind f).Traces E s as q s') :
    (∃ p', p.Traces E s as p' s' ∧ q = p'.bind f) ∨
      ∃ a as₁ as₂ s₁, as = as₁ ++ as₂ ∧ p.Traces E s as₁ (.ret a) s₁ ∧ (f a).Traces E s₁ as₂ q s' := by
  generalize hr : p.bind f = r at h
  induction h generalizing p with
  | rest r s =>
    subst hr
    exact .inl ⟨p, .rest _ _, rfl⟩
  | others hrest hE h ih =>
    subst hr
    rcases ih rfl with ⟨p', hp', hq⟩ | ⟨a, as₁, as₂, s₁, has, hp', hf⟩
    · exact .inl ⟨p', .others (bind_resting hrest) hE hp', hq⟩
    · exact .inr ⟨a, as₁, as₂, s₁, has, .others (bind_resting hrest) hE hp', hf⟩
  | await ha h ih =>
    cases p with
    | ret a =>
      have hret : f a = _ := hr
      refine .inr ⟨a, [], _, _, rfl, .rest _ _, ?_⟩
      rw [hret]
      exact .await ha h
    | await site act next =>
      cases hr
      rcases ih rfl with ⟨p', hp', hq⟩ | ⟨a, as₁, as₂, s₁, rfl, hp', hf⟩
      · exact .inl ⟨p', .await ha hp', hq⟩
      · exact .inr ⟨a, _, as₂, s₁, rfl, .await ha hp', hf⟩
    | _ => cases hr
  | sync h ih =>
    cases p with
    | ret a =>
      have hret : f a = _ := hr
      refine .inr ⟨a, [], _, _, rfl, .rest _ _, ?_⟩
      rw [hret]
      exact .sync h
    | sync act next =>
      cases hr
      rcases ih rfl with ⟨p', hp', hq⟩ | ⟨a, as₁, as₂, s₁, rfl, hp', hf⟩
      · exact .inl ⟨p', .sync hp', hq⟩
      · exact .inr ⟨a, _, as₂, s₁, rfl, .sync hp', hf⟩
    | _ => cases hr
  | spawn h ih =>
    cases p with
    | ret a =>
      have hret : f a = _ := hr
      refine .inr ⟨a, [], _, _, rfl, .rest _ _, ?_⟩
      rw [hret]
      exact .spawn h
    | spawn tag child next =>
      cases hr
      rcases ih rfl with ⟨p', hp', hq⟩ | ⟨a, as₁, as₂, s₁, rfl, hp', hf⟩
      · exact .inl ⟨p', .spawn hp', hq⟩
      · exact .inr ⟨a, _, as₂, s₁, rfl, .spawn hp', hf⟩
    | _ => cases hr
  | loop w h ih =>
    cases p with
    | ret a =>
      have hret : f a = _ := hr
      refine .inr ⟨a, [], _, _, rfl, .rest _ _, ?_⟩
      rw [hret]
      exact .loop w h
    | loop site b body next =>
      cases hr
      rcases ih (bind_unroll _ _ _ _ _) with ⟨p', hp', hq⟩ | ⟨a, as₁, as₂, s₁, rfl, hp', hf⟩
      · exact .inl ⟨p', .loop w hp', hq⟩
      · exact .inr ⟨a, _, as₂, s₁, rfl, .loop w hp', hf⟩
    | _ => cases hr

/-- The same where the first program is left only by its end. -/
theorem Traces.of_bind_left {p : Prog κ τ ω σ α} {f : α → Prog κ τ ω σ β} {q : Prog κ τ ω σ β}
    (h : (p.bind f).Traces E s as q s') :
    (∃ p', p.Traces E s as p' s' ∧ q = p'.bind f ∧ q.returned = none) ∨
      ∃ a as₁ as₂ s₁, as = as₁ ++ as₂ ∧ p.Traces E s as₁ (.ret a) s₁ ∧ (f a).Traces E s₁ as₂ q s' := by
  rcases h.of_bind with ⟨p', hp, rfl⟩ | h
  · cases p' with
    | ret a => exact .inr ⟨a, as, [], s', by simp, hp, .rest _ _⟩
    | _ => exact .inl ⟨_, hp, rfl, rfl⟩
  · exact .inr h

/-- A trace to the end of one program after another. -/
theorem Traces.of_bind_ret {p : Prog κ τ ω σ α} {f : α → Prog κ τ ω σ β} {b : β}
    (h : (p.bind f).Traces E s as (.ret b) s') : ∃ a as₁ as₂ s₁, as = as₁ ++ as₂ ∧
      p.Traces E s as₁ (.ret a) s₁ ∧ (f a).Traces E s₁ as₂ (.ret b) s' := by
  rcases h.of_bind_left with ⟨p', -, -, hret⟩ | h
  · cases hret
  · exact h

/-- Every action of a trace keeps to the program's frame, and at the program's sites. -/
theorem Traces.within {S : κ → Prop} {A : Option (κ × ω) → σ → σ → Prop} {p q : Prog κ τ ω σ α}
    (h : p.Traces E s as q s') (hp : p.Within S A) :
    ∀ a ∈ as, (∀ x w, a.label = some (x, w) → S x) ∧ A a.label a.before a.after := by
  induction h with
  | rest => simp
  | others _ _ _ ih => exact ih hp
  | await ha _ ih =>
    rw [List.forall_mem_cons]
    refine ⟨⟨?_, hp.2.1 _ _ _ _ ha⟩, ih (hp.2.2 _)⟩
    rintro _ _ ⟨⟩
    exact hp.1
  | sync _ ih =>
    rw [List.forall_mem_cons]
    exact ⟨⟨by simp, hp.1 _⟩, ih (hp.2 _)⟩
  | spawn => exact hp.elim
  | loop w _ ih =>
    rw [List.forall_mem_cons]
    refine ⟨⟨?_, hp.1.2 _ _⟩, ih (.bind (hp.2.1 _) fun x => ?_)⟩
    · rintro _ _ ⟨⟩
      exact hp.1.1
    · cases x with
      | inl b => exact hp
      | inr c => exact hp.2.2 c

theorem Traces.of_ret {a : α} (h : (Prog.ret a : Prog κ τ ω σ α).Traces E s as q s') :
    as = [] ∧ q = .ret a := by
  generalize hr : (Prog.ret a : Prog κ τ ω σ α) = r at h
  induction h with
  | rest => exact ⟨rfl, rfl⟩
  | others _ _ _ ih => exact ih hr
  | _ => cases hr

/-- A trace of one action has not begun or is over. -/
theorem Traces.of_await {site : κ} {act : ω → σ → Option (σ × α)}
    (h : (Prog.await site act .ret : Prog κ τ ω σ α).Traces E s as q s') :
    (as = [] ∧ q = .await site act .ret) ∨ ∃ w s₁ s₂ a,
      act w s₁ = some (s₂, a) ∧ as = [⟨some (site, w), s₁, s₂⟩] ∧ q = .ret a := by
  generalize hr : (Prog.await site act .ret : Prog κ τ ω σ α) = r at h
  induction h with
  | rest => exact .inl ⟨rfl, rfl⟩
  | others _ _ _ ih => exact ih hr
  | await ha h _ =>
    cases hr
    obtain ⟨rfl, rfl⟩ := h.of_ret
    exact .inr ⟨_, _, _, _, ha, rfl, rfl⟩
  | _ => cases hr

/-- And so has one of synchronous code, which nobody interrupts. -/
theorem Traces.of_sync {act : σ → σ × α}
    (h : (Prog.sync act .ret : Prog κ τ ω σ α).Traces E s as q s') :
    (as = [] ∧ q = .sync act .ret) ∨ as = [⟨none, s, (act s).1⟩] ∧ q = .ret (act s).2 := by
  cases h with
  | rest => exact .inl ⟨rfl, rfl⟩
  | others hp => exact hp.elim
  | sync h =>
    obtain ⟨rfl, rfl⟩ := h.of_ret
    exact .inr ⟨rfl, rfl⟩

/-- The actions of the synchronous code up to the next suspension point. -/
def settleActs : {α : Type} → Prog κ τ ω σ α → σ → List (Action κ ω σ)
  | _, .sync act next, s => ⟨none, s, (act s).1⟩ :: settleActs (next (act s).2) (act s).1
  | _, .spawn _ _ next, s => settleActs next s
  | _, _, _ => []

/-- The actions of one step of the task. -/
def resumeActs (w : ω) : {α : Type} → Prog κ τ ω σ α → σ → List (Action κ ω σ)
  | _, .await site act next, s =>
    match act w s with
    | some (s₁, b) => ⟨some (site, w), s, s₁⟩ :: settleActs (next b) s₁
    | none => []
  | _, .loop site b body next, s =>
    ⟨some (site, w), s, s⟩ :: settleActs ((body b).bind (unroll site body next)) s
  | _, p, s => settleActs p s

/-- Several steps of the task with nobody in between. -/
def alone : List ω → Prog κ τ ω σ α → σ → Option (List (Action κ ω σ) × Prog κ τ ω σ α × σ)
  | [], p, s => some ([], p, s)
  | w :: ws, p, s => (p.resume w s).bind (fun out =>
      (alone ws out.2.1 out.1).map (fun rest => (resumeActs w p s ++ rest.1, rest.2)))

theorem eq_ret_of_returned {a : α} (h : p.returned = some a) : p = .ret a := by
  cases p with
  | ret b =>
    cases h
    rfl
  | _ => cases h

theorem traces_settle (E : σ → σ → Prop) (p : Prog κ τ ω σ α) (s : σ) :
    p.Traces E s (p.settleActs s) (p.settle s).2.1 (p.settle s).1 := by
  induction p generalizing s with
  | ret a => exact .rest _ _
  | await site act next ih => exact .rest _ _
  | loop site b body next ihb ih => exact .rest _ _
  | sync act next ih => exact .sync (ih _ _)
  | spawn tag child next ihc ih => exact .spawn (ih s)

theorem traces_resume (E : σ → σ → Prop) {p : Prog κ τ ω σ α} {s : σ} {w : ω}
    {out : σ × Prog κ τ ω σ α × List (τ × Prog κ τ ω σ Unit)} (h : p.resume w s = some out) :
    p.Traces E s (p.resumeActs w s) out.2.1 out.1 := by
  cases p with
  | ret a => cases h
  | await site act next =>
    obtain ⟨⟨s₁, b⟩, ha, rfl⟩ := Option.map_eq_some_iff.mp h
    simp only [resumeActs, ha]
    exact .await ha (traces_settle E _ _)
  | loop site b body next =>
    cases h
    exact .loop w (traces_settle E _ _)
  | sync act next =>
    cases h
    exact traces_settle E _ s
  | spawn tag child next =>
    cases h
    exact traces_settle E _ s

theorem traces_alone (E : σ → σ → Prop) {ws : List ω} {p : Prog κ τ ω σ α} {s : σ}
    {out : List (Action κ ω σ) × Prog κ τ ω σ α × σ} (h : p.alone ws s = some out) :
    p.Traces E s out.1 out.2.1 out.2.2 := by
  induction ws generalizing p s out with
  | nil =>
    cases h
    exact .rest _ _
  | cons w ws ih =>
    obtain ⟨next, hnext, h⟩ := Option.bind_eq_some_iff.mp h
    obtain ⟨rest, hrest, rfl⟩ := Option.map_eq_some_iff.mp h
    exact (traces_resume E hnext).trans (ih hrest)

theorem resume_resting {p : Prog κ τ ω σ α} {s : σ} {w : ω}
    {out : σ × Prog κ τ ω σ α × List (τ × Prog κ τ ω σ Unit)} (h : p.resume w s = some out) :
    out.2.1.Resting := by
  cases p with
  | ret a => cases h
  | await site act next =>
    obtain ⟨x, -, rfl⟩ := Option.map_eq_some_iff.mp h
    exact settle_resting _ _
  | _ =>
    cases h
    exact settle_resting _ _

theorem alone_resting {ws : List ω} {p : Prog κ τ ω σ α} {s : σ}
    {out : List (Action κ ω σ) × Prog κ τ ω σ α × σ} (hp : p.Resting) (h : p.alone ws s = some out) :
    out.2.1.Resting := by
  induction ws generalizing p s out with
  | nil =>
    cases h
    exact hp
  | cons w ws ih =>
    obtain ⟨next, hnext, h⟩ := Option.bind_eq_some_iff.mp h
    obtain ⟨rest, hrest, rfl⟩ := Option.map_eq_some_iff.mp h
    have hdone : rest.2.1.Resting := ih (resume_resting hnext) hrest
    exact hdone

end Prog

namespace Pool

variable {κ τ ω σ q : Type} {entry : q → Thread κ τ ω σ} {good : Pool κ τ ω σ → Event ω q → Prop}
  {p p' : Pool κ τ ω σ}

/-- What one task does in a run is a trace of its program among the other tasks. -/
theorem Reaches.traces (h : Reaches entry good p p') {i : Nat} {th : Thread κ τ ω σ}
    (hi : p.threads[i]? = some th) (hrest : th.prog.Resting) :
    ∃ th' as, p'.threads[i]? = some th' ∧ th'.tag = th.tag ∧ th'.prog.Resting ∧
      th.prog.Traces (fun _ _ => True) p.shared as th'.prog p'.shared := by
  induction h with
  | refl => exact ⟨th, [], hi, rfl, hrest, .rest _ _⟩
  | @tail p₁ p₂ _ hstep ih =>
    obtain ⟨th₁, as, hi₁, htag, hrest₁, ht⟩ := ih
    obtain ⟨e, -, hfire⟩ := hstep
    have hother : ∀ s, th₁.prog.Traces (fun _ _ => True) p₁.shared [] th₁.prog s :=
      fun s => .others hrest₁ trivial (.rest _ _)
    have hl := (List.getElem?_eq_some_iff.mp hi₁).1
    cases e with
    | arrive request =>
      cases hfire
      refine ⟨th₁, as ++ [], ?_, htag, hrest₁, ht.trans (hother _)⟩
      rw [List.getElem?_append_left hl]
      exact hi₁
    | run j w =>
      simp only [fire] at hfire
      split at hfire
      · cases hfire
      rename_i thj hj
      obtain ⟨out, hout, rfl⟩ := Option.map_eq_some_iff.mp hfire
      dsimp only
      rw [List.getElem?_append_left (by simpa using hl), List.getElem?_set]
      by_cases he : j = i
      · subst he
        rw [hi₁] at hj
        cases hj
        refine ⟨⟨th₁.tag, out.2.1⟩, _, ?_, htag, Prog.resume_resting hout,
          ht.trans (Prog.traces_resume _ hout)⟩
        rw [if_pos rfl, if_pos hl]
      · refine ⟨th₁, as ++ [], ?_, htag, hrest₁, ht.trans (hother _)⟩
        rw [if_neg he]
        exact hi₁

end Pool

/-- The state that the actions so far have left. -/
def leftBy {κ ω σ : Type} (s₀ : σ) (as : List (Action κ ω σ)) : σ :=
  (as.getLast?.map Action.after).getD s₀

@[simp] theorem leftBy_nil {κ ω σ : Type} (s₀ : σ) : leftBy s₀ ([] : List (Action κ ω σ)) = s₀ := rfl

@[simp] theorem leftBy_concat {κ ω σ : Type} (s₀ : σ) (as : List (Action κ ω σ))
    (a : Action κ ω σ) : leftBy s₀ (as ++ [a]) = a.after := by
  simp [leftBy]

/-- Where a trace is now, at most the others have moved since its last action. -/
theorem Prog.Traces.left_from {κ τ ω σ α : Type} {E : σ → σ → Prop} {p q : Prog κ τ ω σ α}
    {s₀ s s' : σ} {as as' : List (Action κ ω σ)}
    (htrans : ∀ s s' s'', E s s' → E s' s'' → E s s'') (hrefl : ∀ s, E s s)
    (h : p.Traces E s as' q s') (hs : E (leftBy s₀ as) s) : E (leftBy s₀ (as ++ as')) s' := by
  have hnow : ∀ (as : List (Action κ ω σ)) (a : Action κ ω σ), E (leftBy s₀ (as ++ [a])) a.after := by
    intro as a
    rw [leftBy_concat]
    exact hrefl _
  induction h generalizing as with
  | rest p s =>
    rw [List.append_nil]
    exact hs
  | others _ hE _ ih => exact ih (htrans _ _ _ hs hE)
  | spawn _ ih => exact ih hs
  | await _ _ ih =>
    rw [List.append_cons]
    exact ih (hnow as _)
  | sync _ ih =>
    rw [List.append_cons]
    exact ih (hnow as _)
  | loop w _ ih =>
    rw [List.append_cons]
    exact ih (hnow as _)

theorem Prog.Traces.left {κ τ ω σ α : Type} {E : σ → σ → Prop} {p q : Prog κ τ ω σ α}
    {s s' : σ} {as : List (Action κ ω σ)} (htrans : ∀ s s' s'', E s s' → E s' s'' → E s s'')
    (hrefl : ∀ s, E s s) (h : p.Traces E s as q s') : E (leftBy s as) s' := by
  have hstart : E (leftBy s ([] : List (Action κ ω σ))) s := hrefl s
  exact h.left_from htrans hrefl hstart

namespace Protocol

/-- The protocol that asks nothing but that `R` holds of what a task has done so far
wherever it rests. The role is the list of its actions. -/
def recorder {κ τ ω σ : Type} (E : σ → σ → Prop) (s₀ : σ) (R : List (Action κ ω σ) → κ → Prop) :
    Protocol κ τ ω σ (List (Action κ ω σ)) where
  rest _ x as := ∀ site ∈ x, R as site
  sees as s := E (leftBy s₀ as) s
  move e as s as' s' := as' = as ++ [⟨e, s, s'⟩]
  fork _ _ _ _ := False

variable {κ τ ω σ α β γ : Type} {E : σ → σ → Prop} {s₀ s s' : σ} {R : List (Action κ ω σ) → κ → Prop}
  {t : τ} {as as' : List (Action κ ω σ)} {p q : Prog κ τ ω σ α} {Q : α → List (Action κ ω σ) → Prop}

theorem recorder_await {site : κ} {act : ω → σ → Option (σ × β)} {next : β → Prog κ τ ω σ α}
    (hr : R as site) (h : ∀ w s s' b, E (leftBy s₀ as) s → act w s = some (s', b) →
      (recorder E s₀ R).Follows t (next b) (as ++ [⟨some (site, w), s, s'⟩]) Q) :
    (recorder E s₀ R).Follows t (.await site act next) as Q := by
  refine ⟨?_, fun w s s' b hs ha => ⟨_, rfl, h w s s' b hs ha⟩⟩
  rintro _ ⟨⟩
  exact hr

theorem recorder_sync {act : σ → σ × β} {next : β → Prog κ τ ω σ α}
    (h : ∀ s, E (leftBy s₀ as) s →
      (recorder E s₀ R).Follows t (next (act s).2) (as ++ [⟨none, s, (act s).1⟩]) Q) :
    (recorder E s₀ R).Follows t (.sync act next) as Q :=
  fun s hs => ⟨_, rfl, h s hs⟩

/-- The loop rule: an invariant on the loop's state and the actions so far. -/
theorem recorder_loop {site : κ} {b : β} {body : β → Prog κ τ ω σ (β ⊕ γ)}
    {Q : γ → List (Action κ ω σ) → Prop} (I : β → List (Action κ ω σ) → Prop) (hb : I b as)
    (hr : ∀ b as, I b as → R as site)
    (h : ∀ b as w s, I b as → E (leftBy s₀ as) s →
      (recorder E s₀ R).Follows t (body b) (as ++ [⟨some (site, w), s, s⟩]) (fun x as' =>
        match x with
        | .inl b' => I b' as'
        | .inr c => Q c as')) :
    (recorder E s₀ R).Follows t (.loop site b body .ret) as Q := by
  refine ⟨I, hb, fun b as hI => ⟨?_, fun w s hs => ⟨_, rfl, h b as w s hI hs⟩⟩⟩
  rintro _ ⟨⟩
  exact hr b as hI

/-- Code all of whose actions keep a property of the actions so far. -/
theorem recorder_within {S : κ → Prop} {A : Option (κ × ω) → σ → σ → Prop}
    {I : List (Action κ ω σ) → Prop} (hp : p.Within S A) (hI : I as)
    (hr : ∀ as x, I as → S x → R as x)
    (ha : ∀ as e s s', I as → E (leftBy s₀ as) s → (∀ y w, e = some (y, w) → S y) → A e s s' →
      I (as ++ [⟨e, s, s'⟩])) :
    (recorder E s₀ R).Follows t p as (fun _ as' => I as') := by
  induction p generalizing as with
  | ret a => exact hI
  | await site act next ih =>
    refine recorder_await (hr as site hI hp.1) fun w s s' b hs h => ih b (hp.2.2 b) ?_
    refine ha as _ s s' hI hs ?_ (hp.2.1 w s s' b h)
    rintro _ _ ⟨⟩
    exact hp.1
  | sync act next ih =>
    exact recorder_sync fun s hs => ih _ (hp.2 _) (ha as none s _ hI hs (by simp) (hp.1 s))
  | spawn tag child next ihc ih => exact hp.elim
  | loop site b body next ihb ih =>
    refine ⟨fun _ as => I as, hI, fun b as hI => ⟨?_, fun w s hs => ⟨_, rfl, ?_⟩⟩⟩
    · rintro _ ⟨⟩
      exact hr as site hI hp.1.1
    · have hnext := ha as (some (site, w)) s s hI hs (by rintro _ _ ⟨⟩; exact hp.1.1) (hp.1.2 w s)
      apply follows_mono (ihb b (hp.2.1 b) hnext)
      rintro (b' | c) as' hI'
      · exact hI'
      · exact ih c (hp.2.2 c) hI'

/-- What a program meets from some point on, it meets along every trace. -/
theorem Follows.recorded (htrans : ∀ s s' s'', E s s' → E s' s'' → E s s'') (hrefl : ∀ s, E s s)
    (ht : p.Traces E s as' q s') (hs : E (leftBy s₀ as) s)
    (hf : (recorder E s₀ R).Follows t p as Q) :
    (recorder E s₀ R).Follows t q (as ++ as') Q := by
  induction ht generalizing as with
  | rest p s =>
    rw [List.append_nil]
    exact hf
  | others hp hE _ ih => exact ih (htrans _ _ _ hs hE) hf
  | await ha _ ih =>
    obtain ⟨_, rfl, hn⟩ := hf.2 _ _ _ _ hs ha
    have hn' := ih (by rw [leftBy_concat]; exact hrefl _) hn
    rwa [List.append_assoc] at hn'
  | sync _ ih =>
    obtain ⟨_, rfl, hn⟩ := hf _ hs
    have hn' := ih (by rw [leftBy_concat]; exact hrefl _) hn
    rwa [List.append_assoc] at hn'
  | spawn _ ih =>
    obtain ⟨_, _, hk, -⟩ := hf
    exact hk.elim
  | loop w _ ih =>
    obtain ⟨_, rfl, hn⟩ := follows_unroll hf w hs
    have hn' := ih (by rw [leftBy_concat]; exact hrefl _) hn
    rwa [List.append_assoc] at hn'

/-- What holds at the end of every run among the others. -/
theorem Follows.returned (htrans : ∀ s s' s'', E s s' → E s' s'' → E s s'') (hrefl : ∀ s, E s s)
    (hf : (recorder E s R).Follows t p [] Q) {a : α} (ht : p.Traces E s as (.ret a) s') : Q a as :=
  Follows.recorded htrans hrefl ht (by exact hrefl s) hf

/-- What holds wherever a run among the others rests. -/
theorem Follows.rested (htrans : ∀ s s' s'', E s s' → E s' s'' → E s s'') (hrefl : ∀ s, E s s)
    (hf : (recorder E s R).Follows t p [] Q) (ht : p.Traces E s as q s') {x : κ}
    (hx : q.site = some x) : R as x := by
  have hq := Follows.recorded htrans hrefl ht (by exact hrefl s) hf
  rw [List.nil_append] at hq
  cases q with
  | await site act next =>
    cases hx
    exact hq.1 _ rfl
  | loop site b body next =>
    cases hx
    obtain ⟨I, hb, hI⟩ := hq
    exact (hI b as hb).1 _ rfl
  | _ => cases hx

end Protocol

namespace Prog

open Relation

variable {κ τ ω σ α β : Type} {E : σ → σ → Prop} {s s' : σ} {as : List (Action κ ω σ)}

/-- To the end of a program that is over, only the others act. -/
theorem Traces.of_ret_ret {a b : α} (h : (Prog.ret a : Prog κ τ ω σ α).Traces E s as (.ret b) s') :
    as = [] ∧ a = b ∧ ReflTransGen E s s' := by
  generalize hp : (Prog.ret a : Prog κ τ ω σ α) = p at h
  generalize hq : (Prog.ret b : Prog κ τ ω σ α) = q at h
  induction h with
  | rest =>
    subst hp
    cases hq
    exact ⟨rfl, rfl, .refl⟩
  | others _ hE _ ih =>
    obtain ⟨has, hab, hs⟩ := ih hp hq
    exact ⟨has, hab, .head hE hs⟩
  | _ => cases hp

/-- To the end of one awaited action, the others act before it and after it. -/
theorem Traces.of_await_ret {site : κ} {act : ω → σ → Option (σ × α)} {a : α}
    (h : (Prog.await site act .ret : Prog κ τ ω σ α).Traces E s as (.ret a) s') :
    ∃ w s₁ s₂, ReflTransGen E s s₁ ∧ act w s₁ = some (s₂, a) ∧
      as = [⟨some (site, w), s₁, s₂⟩] ∧ ReflTransGen E s₂ s' := by
  generalize hp : (Prog.await site act .ret : Prog κ τ ω σ α) = p at h
  generalize hq : (Prog.ret a : Prog κ τ ω σ α) = q at h
  induction h with
  | rest =>
    subst hp
    cases hq
  | others _ hE _ ih =>
    obtain ⟨w, s₁, s₂, hs, hact, has, hs'⟩ := ih hp hq
    exact ⟨w, s₁, s₂, .head hE hs, hact, has, hs'⟩
  | await ha h _ =>
    cases hp
    subst hq
    obtain ⟨rfl, rfl, hs'⟩ := h.of_ret_ret
    exact ⟨_, _, _, .refl, ha, rfl, hs'⟩
  | _ => cases hp

/-- Nobody acts before synchronous code. -/
theorem Traces.of_sync_ret {act : σ → σ × α} {a : α}
    (h : (Prog.sync act .ret : Prog κ τ ω σ α).Traces E s as (.ret a) s') :
    as = [⟨none, s, (act s).1⟩] ∧ a = (act s).2 ∧ ReflTransGen E (act s).1 s' := by
  cases h with
  | others hp => exact hp.elim
  | sync h =>
    obtain ⟨rfl, rfl, hs'⟩ := h.of_ret_ret
    exact ⟨rfl, rfl, hs'⟩

/-- The others may have acted before a program that rests. -/
theorem Traces.after {p q : Prog κ τ ω σ α} (hp : p.Resting) {s₁ : σ} (hs : ReflTransGen E s s₁)
    (h : p.Traces E s₁ as q s') : p.Traces E s as q s' := by
  induction hs using ReflTransGen.head_induction_on with
  | refl => exact h
  | head hE _ ih => exact .others hp hE ih

end Prog

end Coop
