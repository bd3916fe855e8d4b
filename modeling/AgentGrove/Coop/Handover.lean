import AgentGrove.Coop.Budget
import AgentGrove.Coop.Trace

namespace Coop

namespace Prog

variable {κ τ ω σ α β γ : Type} {E : σ → σ → Prop} {s s' s₁ : σ} {as : List (Action κ ω σ)}
  {p q : Prog κ τ ω σ α} {f : α → Prog κ τ ω σ β} {K : τ → Prog κ τ ω σ Unit → Prop}
  {tag : τ} {child : Prog κ τ ω σ Unit}

/-- What is left of a program spawns no more than all of it. -/
theorem Traces.spawns (h : p.Traces E s as q s') (hp : p.Spawns K) : q.Spawns K := by
  induction h with
  | rest => exact hp
  | others _ _ _ ih => exact ih hp
  | await _ _ ih => exact ih (hp _)
  | sync _ ih => exact ih (hp _)
  | spawn _ ih => exact ih hp.2
  | loop w _ ih =>
    refine ih (Spawns.bind (hp.1 _) fun x => ?_)
    cases x with
    | inl b => exact hp
    | inr c => exact hp.2 c

/-- A trace up to a spawn is still in the first program or behind it. -/
theorem Traces.of_bind_spawn {next : Prog κ τ ω σ β}
    (h : (p.bind f).Traces E s as (.spawn tag child next) s') :
    (∃ next', p.Traces E s as (.spawn tag child next') s') ∨
      ∃ a as₁ as₂ s₁, as = as₁ ++ as₂ ∧ p.Traces E s as₁ (.ret a) s₁ ∧
        (f a).Traces E s₁ as₂ (.spawn tag child next) s' := by
  rcases h.of_bind_left with ⟨p', hp, hq, hret⟩ | h
  · cases p' with
    | spawn tag child next' =>
      cases hq
      exact .inl ⟨next', hp⟩
    | ret a => exact .inr ⟨a, as, [], s', by simp, hp, by rw [hq]; exact .rest _ _⟩
    | _ => cases hq
  · exact .inr h

theorem Traces.no_spawn {next : Prog κ τ ω σ α} (hp : p.Spawns (fun _ _ => False))
    (h : p.Traces E s as (.spawn tag child next) s') : False :=
  (h.spawns hp).1

/-- It is behind one that spawns nothing. -/
theorem Traces.behind {next : Prog κ τ ω σ β} (hp : p.Spawns (fun _ _ => False))
    (h : (p.bind f).Traces E s as (.spawn tag child next) s') :
    ∃ a as₁ as₂ s₁, as = as₁ ++ as₂ ∧ p.Traces E s as₁ (.ret a) s₁ ∧
      (f a).Traces E s₁ as₂ (.spawn tag child next) s' := by
  rcases h.of_bind_spawn with ⟨next', h⟩ | h
  · exact (h.no_spawn hp).elim
  · exact h

/-- What a program spawns before it rests, a trace of it comes to. -/
theorem traces_child (E : σ → σ → Prop) (p : Prog κ τ ω σ α) (s : σ)
    (h : (tag, child) ∈ (p.settle s).2.2) : ∃ as next s',
      p.Traces E s as (.spawn tag child next) s' ∧ as <+: p.settleActs s := by
  induction p generalizing s with
  | ret a => cases h
  | await site act next ih => cases h
  | loop site b body next ihb ih => cases h
  | sync act next ih =>
    obtain ⟨as, next', s', ht, has⟩ := ih _ _ h
    exact ⟨_, next', s', .sync ht, (List.prefix_cons_inj _).mpr has⟩
  | spawn tag' child' next ihc ih =>
    rcases List.mem_cons.mp h with he | h
    · cases he
      exact ⟨[], next, s, .rest _ _, List.nil_prefix⟩
    · obtain ⟨as, next', s', ht, has⟩ := ih s h
      exact ⟨as, next', s', .spawn ht, has⟩

theorem resume_child (E : σ → σ → Prop) {w : ω} {s : σ}
    {out : σ × Prog κ τ ω σ α × List (τ × Prog κ τ ω σ Unit)} (h : p.resume w s = some out)
    (hmem : (tag, child) ∈ out.2.2) : ∃ as next s',
      p.Traces E s as (.spawn tag child next) s' ∧ as <+: p.resumeActs w s := by
  cases p with
  | ret a => cases h
  | await site act next =>
    obtain ⟨⟨s₁, b⟩, ha, rfl⟩ := Option.map_eq_some_iff.mp h
    obtain ⟨as, next', s', ht, has⟩ := traces_child E _ _ hmem
    refine ⟨_, next', s', .await ha ht, ?_⟩
    simp only [resumeActs, ha]
    exact (List.prefix_cons_inj _).mpr has
  | loop site b body next =>
    cases h
    obtain ⟨as, next', s', ht, has⟩ := traces_child E _ _ hmem
    exact ⟨_, next', s', .loop w ht, (List.prefix_cons_inj _).mpr has⟩
  | sync act next =>
    cases h
    exact traces_child E _ s hmem
  | spawn tag' child' next =>
    cases h
    exact traces_child E _ s hmem

theorem alone_concat {ws : List ω} {w : ω} {s : σ} {mid : List (Action κ ω σ) × Prog κ τ ω σ α × σ}
    {out : σ × Prog κ τ ω σ α × List (τ × Prog κ τ ω σ Unit)} (hmid : p.alone ws s = some mid)
    (hout : mid.2.1.resume w mid.2.2 = some out) :
    p.alone (ws ++ [w]) s = some (mid.1 ++ mid.2.1.resumeActs w mid.2.2, out.2.1, out.1) := by
  induction ws generalizing p s mid with
  | nil =>
    cases hmid
    simp [alone, hout]
  | cons v ws ih =>
    obtain ⟨next, hnext, hmid⟩ := Option.bind_eq_some_iff.mp hmid
    obtain ⟨rest, hrest, rfl⟩ := Option.map_eq_some_iff.mp hmid
    simp [alone, hnext, ih hrest hout]

/-- A task that runs alone spawns a child at its next step. -/
theorem alone_child (E : σ → σ → Prop) {ws : List ω} {w : ω} {s : σ} {kids : List τ}
    (h : ((p.alone ws s).bind fun mid => mid.2.1.resume w mid.2.2).map
      (fun out => out.2.2.map Prod.fst) = some kids) (hmem : tag ∈ kids) :
    ∃ child as next s', p.Traces E s as (.spawn tag child next) s' ∧
      ∃ out, p.alone (ws ++ [w]) s = some out ∧ as <+: out.1 := by
  obtain ⟨out, hout, rfl⟩ := Option.map_eq_some_iff.mp h
  obtain ⟨mid, hmid, hout⟩ := Option.bind_eq_some_iff.mp hout
  obtain ⟨⟨_, child⟩, hkid, rfl⟩ := List.mem_map.mp hmem
  obtain ⟨as, next, s', ht, has⟩ := resume_child E hout hkid
  refine ⟨child, _, next, s', (traces_alone E hmid).trans ht, _, alone_concat hmid hout, ?_⟩
  exact (List.prefix_append_right_inj _).mpr has

/-- From whatever state, if the world and the others want it so, the program comes to an
end with a result that meets `P`. -/
def May (P : α → Prop) (p : Prog κ τ ω σ α) : Prop :=
  ∀ s, ∃ as a s', p.Traces (fun _ _ => True) s as (.ret a) s' ∧ P a

/-- Going on behind a program that has ended, with code that runs from any state. -/
theorem Traces.onward {a : α} {Ψ : List (Action κ ω σ) → Prog κ τ ω σ β → Prop}
    (h : p.Traces E s as (.ret a) s₁) (hf : ∀ s, ∃ as' q s', (f a).Traces E s as' q s' ∧ Ψ as' q) :
    ∃ as' q s', (p.bind f).Traces E s (as ++ as') q s' ∧ Ψ as' q := by
  generalize hr : Prog.ret a = r at h
  induction h with
  | rest =>
    subst hr
    exact hf _
  | @others p r s s₁ _ as hp hE h ih =>
    subst hr
    obtain ⟨as', q, s', ht, hΨ⟩ := ih rfl
    cases p with
    | ret b =>
      -- The others moved at the end: whatever they did, the rest can run from here too.
      obtain ⟨rfl, he⟩ := h.of_ret
      cases he
      exact hf s
    | await | loop => exact ⟨as', q, s', .others trivial hE ht, hΨ⟩
    | sync | spawn => exact hp.elim
  | await ha _ ih =>
    obtain ⟨as', q, s', ht, hΨ⟩ := ih hr
    exact ⟨as', q, s', .await ha ht, hΨ⟩
  | sync _ ih =>
    obtain ⟨as', q, s', ht, hΨ⟩ := ih hr
    exact ⟨as', q, s', .sync ht, hΨ⟩
  | spawn _ ih =>
    obtain ⟨as', q, s', ht, hΨ⟩ := ih hr
    exact ⟨as', q, s', .spawn ht, hΨ⟩
  | loop w _ ih =>
    obtain ⟨as', q, s', ht, hΨ⟩ := ih hr
    refine ⟨as', q, s', .loop w ?_, hΨ⟩
    rw [← bind_unroll]
    exact ht

/-- Code that goes on behind a program leaves its own traces as they are. -/
theorem Traces.bind_left (h : p.Traces E s as q s') (f : α → Prog κ τ ω σ β) :
    ∃ s₁, (p.bind f).Traces E s as (q.bind f) s₁ := by
  induction h with
  | rest => exact ⟨_, .rest _ _⟩
  | @others p r s s₁ _ as hp hE h ih =>
    obtain ⟨s', ht⟩ := ih
    cases p with
    | ret b =>
      obtain ⟨rfl, rfl⟩ := h.of_ret
      exact ⟨s, .rest _ _⟩
    | await | loop => exact ⟨s', .others trivial hE ht⟩
    | sync | spawn => exact hp.elim
  | await ha _ ih =>
    obtain ⟨s', ht⟩ := ih
    exact ⟨s', .await ha ht⟩
  | sync _ ih =>
    obtain ⟨s', ht⟩ := ih
    exact ⟨s', .sync ht⟩
  | spawn _ ih =>
    obtain ⟨s', ht⟩ := ih
    exact ⟨s', .spawn ht⟩
  | loop w _ ih =>
    obtain ⟨s', ht⟩ := ih
    refine ⟨s', .loop w ?_⟩
    rw [← bind_unroll]
    exact ht

theorem May.ret {P : α → Prop} {a : α} (h : P a) : May P (.ret a : Prog κ τ ω σ α) :=
  fun s => ⟨[], a, s, .rest _ _, h⟩

theorem May.mono {P Q : α → Prop} (h : May P p) (hq : ∀ a, P a → Q a) : May Q p := by
  intro s
  obtain ⟨as, a, s', ht, ha⟩ := h s
  exact ⟨as, a, s', ht, hq a ha⟩

theorem May.bind {P : α → Prop} {Q : β → Prop} (hp : May P p) (hf : ∀ a, P a → May Q (f a)) :
    May Q (p.bind f) := by
  intro s
  obtain ⟨as, a, s₁, h, ha⟩ := hp s
  obtain ⟨as', q, s', ht, b, rfl, hb⟩ := h.onward (Ψ := fun _ q => ∃ b, q = .ret b ∧ Q b)
    fun s => by
      obtain ⟨as', b, s', ht, hb⟩ := hf a ha s
      exact ⟨as', .ret b, s', ht, b, rfl, hb⟩
  exact ⟨_, b, s', ht, hb⟩

theorem May.await {P : α → Prop} {site : κ} {act : ω → σ → Option (σ × β)} {next : β → Prog κ τ ω σ α}
    {w : ω} {b : β} (ha : act w s = some (s₁, b)) (h : May P (next b)) :
    May P (.await site act next) := by
  intro s₀
  obtain ⟨as, a, s', ht, hP⟩ := h s₁
  exact ⟨_, a, s', .others trivial trivial (.await ha ht), hP⟩

theorem May.sync {P : α → Prop} {act : σ → σ × β} {next : β → Prog κ τ ω σ α}
    (h : ∀ b, May P (next b)) : May P (.sync act next) := by
  intro s
  obtain ⟨as, a, s', ht, hP⟩ := h _ _
  exact ⟨_, a, s', .sync ht, hP⟩

theorem May.loop {P : α → Prop} {site : κ} {b : β} {body : β → Prog κ τ ω σ (β ⊕ γ)}
    {next : γ → Prog κ τ ω σ α} (w : ω) (h : May P ((body b).bind (unroll site body next))) :
    May P (.loop site b body next) := by
  intro s
  obtain ⟨as, a, s', ht, hP⟩ := h s
  exact ⟨_, a, s', .loop w ht, hP⟩

end Prog

end Coop
