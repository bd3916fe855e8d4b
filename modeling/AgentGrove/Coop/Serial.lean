import AgentGrove.Coop.Frame

namespace Coop

/-- The rounds of a loop, each of which runs its body once. `R` runs the body. -/
inductive Rounds {β γ ω σ : Type} {ξ : Type*} (R : β → σ → List ω → β ⊕ γ → σ → List ξ → Prop) :
    β → σ → List ω → γ → σ → List ξ → Prop where
  | last {b : β} {s s' : σ} {w : ω} {ws : List ω} {c : γ} {kids : List ξ}
      (h : R b s ws (.inr c) s' kids) : Rounds R b s (w :: ws) c s' kids
  | more {b b' : β} {s s' s'' : σ} {w : ω} {ws ws' : List ω} {c : γ} {kids kids' : List ξ}
      (h : R b s ws (.inl b') s' kids) (hs : Rounds R b' s' ws' c s'' kids') :
      Rounds R b s (w :: ws ++ ws') c s'' (kids ++ kids')

theorem Rounds.keeps {β γ ω σ : Type} {ξ : Type*} {R : σ → σ → Prop}
    {run : β → σ → List ω → β ⊕ γ → σ → List ξ → Prop} {b : β} {s s' : σ} {ws : List ω} {c : γ}
    {kids : List ξ} (h : Rounds run b s ws c s' kids)
    (htrans : ∀ s s' s'', R s s' → R s' s'' → R s s'')
    (hrun : ∀ b s ws x s' kids, run b s ws x s' kids → R s s') : R s s' := by
  induction h with
  | last h => exact hrun _ _ _ _ _ _ h
  | more h _ ih => exact htrans _ _ _ (hrun _ _ _ _ _ _ h) ih

namespace Prog

variable {κ κ' τ ω σ α β γ : Type}

/-- A task that has the processor to itself runs to its end: from `s` to `s'`, with
`ws` what the world decides on the way and `kids` the tasks it leaves to be run. -/
def Runs : {α : Type} → Prog κ τ ω σ α → σ → List ω → α → σ →
    List (τ × Prog κ τ ω σ Unit) → Prop
  | _, .ret a, s, ws, b, s', kids => ws = [] ∧ b = a ∧ s' = s ∧ kids = []
  | _, .await _ act next, s, ws, b, s', kids => ∃ w ws' s₁ c, ws = w :: ws' ∧
      act w s = some (s₁, c) ∧ Runs (next c) s₁ ws' b s' kids
  | _, .sync act next, s, ws, b, s', kids => Runs (next (act s).2) (act s).1 ws b s' kids
  | _, .spawn tag child next, s, ws, b, s', kids => ∃ kids', kids = (tag, child) :: kids' ∧
      Runs next s ws b s' kids'
  | _, .loop _ b₀ body next, s, ws, b, s', kids => ∃ ws₁ ws₂ c s₁ kids₁ kids₂, ws = ws₁ ++ ws₂ ∧
      kids = kids₁ ++ kids₂ ∧ Rounds (fun b => Runs (body b)) b₀ s ws₁ c s₁ kids₁ ∧
      Runs (next c) s₁ ws₂ b s' kids₂

variable {p : Prog κ τ ω σ α} {f : α → Prog κ τ ω σ β} {s s' : σ} {ws : List ω} {a : α} {b : β}
  {kids : List (τ × Prog κ τ ω σ Unit)}

theorem runs_bind : (p.bind f).Runs s ws b s' kids ↔ ∃ ws₁ ws₂ a s₁ kids₁ kids₂,
    ws = ws₁ ++ ws₂ ∧ kids = kids₁ ++ kids₂ ∧ p.Runs s ws₁ a s₁ kids₁ ∧
      (f a).Runs s₁ ws₂ b s' kids₂ := by
  induction p generalizing s ws kids with
  | ret a =>
    constructor
    · intro h
      exact ⟨[], ws, a, s, [], kids, rfl, rfl, ⟨rfl, rfl, rfl, rfl⟩, h⟩
    · rintro ⟨_, ws₂, _, _, _, kids₂, rfl, rfl, ⟨rfl, rfl, rfl, rfl⟩, h⟩
      exact h
  | await site act next ih =>
    constructor
    · rintro ⟨w, ws', s₁, c, rfl, ha, h⟩
      obtain ⟨ws₁, ws₂, a, s₂, kids₁, kids₂, rfl, hk, hp, hf⟩ := (ih c).mp h
      exact ⟨w :: ws₁, ws₂, a, s₂, kids₁, kids₂, rfl, hk, ⟨w, ws₁, s₁, c, rfl, ha, hp⟩, hf⟩
    · rintro ⟨_, ws₂, a, s₂, kids₁, kids₂, rfl, hk, ⟨w, ws₁, s₁, c, rfl, ha, hp⟩, hf⟩
      exact ⟨w, ws₁ ++ ws₂, s₁, c, rfl, ha, (ih c).mpr ⟨ws₁, ws₂, a, s₂, kids₁, kids₂, rfl, hk, hp, hf⟩⟩
  | sync act next ih => exact ih _
  | spawn tag child next ihc ih =>
    constructor
    · rintro ⟨kids', rfl, h⟩
      obtain ⟨ws₁, ws₂, a, s₂, kids₁, kids₂, hw, rfl, hp, hf⟩ := ih.mp h
      exact ⟨ws₁, ws₂, a, s₂, (tag, child) :: kids₁, kids₂, hw, rfl, ⟨kids₁, rfl, hp⟩, hf⟩
    · rintro ⟨ws₁, ws₂, a, s₂, _, kids₂, hw, rfl, ⟨kids₁, rfl, hp⟩, hf⟩
      exact ⟨kids₁ ++ kids₂, rfl, ih.mpr ⟨ws₁, ws₂, a, s₂, kids₁, kids₂, hw, rfl, hp, hf⟩⟩
  | loop site b₀ body next ihb ih =>
    constructor
    · rintro ⟨ws₁, ws₂, c, s₁, kids₁, kids₂, rfl, rfl, hl, h⟩
      obtain ⟨ws₃, ws₄, a, s₂, kids₃, kids₄, rfl, rfl, hp, hf⟩ := (ih c).mp h
      exact ⟨ws₁ ++ ws₃, ws₄, a, s₂, kids₁ ++ kids₃, kids₄, (List.append_assoc _ _ _).symm,
        (List.append_assoc _ _ _).symm, ⟨ws₁, ws₃, c, s₁, kids₁, kids₃, rfl, rfl, hl, hp⟩, hf⟩
    · rintro ⟨_, ws₄, a, s₂, _, kids₄, rfl, rfl, ⟨ws₁, ws₃, c, s₁, kids₁, kids₃, rfl, rfl, hl, hp⟩, hf⟩
      exact ⟨ws₁, ws₃ ++ ws₄, c, s₁, kids₁, kids₃ ++ kids₄, List.append_assoc _ _ _,
        List.append_assoc _ _ _, hl, (ih c).mpr ⟨ws₃, ws₄, a, s₂, kids₃, kids₄, rfl, rfl, hp, hf⟩⟩

theorem Runs.bind {ws₁ ws₂ : List ω} {s₁ : σ} {kids₁ kids₂ : List (τ × Prog κ τ ω σ Unit)}
    (hp : p.Runs s ws₁ a s₁ kids₁) (hf : (f a).Runs s₁ ws₂ b s' kids₂) :
    (p.bind f).Runs s (ws₁ ++ ws₂) b s' (kids₁ ++ kids₂) :=
  runs_bind.mpr ⟨ws₁, ws₂, a, s₁, kids₁, kids₂, rfl, rfl, hp, hf⟩

section Frames

variable {S : κ → Prop} {A : Option (κ × ω) → σ → σ → Prop} {R : σ → σ → Prop}

/-- What every action of a program keeps, its runs keep. -/
theorem Within.runs (hp : p.Within S A) (hrefl : ∀ s, R s s)
    (htrans : ∀ s s' s'', R s s' → R s' s'' → R s s'') (hA : ∀ e s s', A e s s' → R s s')
    (h : p.Runs s ws a s' kids) : R s s' := by
  induction p generalizing s s' ws kids with
  | ret a =>
    obtain ⟨-, -, rfl, -⟩ := h
    exact hrefl _
  | await site act next ih =>
    obtain ⟨w, ws', s₁, c, -, ha, hn⟩ := h
    exact htrans _ _ _ (hA _ _ _ (hp.2.1 w s s₁ c ha)) (ih c (hp.2.2 c) hn)
  | sync act next ih => exact htrans _ _ _ (hA _ _ _ (hp.1 s)) (ih _ (hp.2 _) h)
  | spawn tag child next ihc ih => exact hp.elim
  | loop site b₀ body next ihb ih =>
    obtain ⟨ws₁, ws₂, c, s₁, kids₁, kids₂, -, -, hl, hn⟩ := h
    have hrounds : R s s₁ := hl.keeps htrans fun b _ _ _ _ _ hb => ihb b (hp.2.1 b) hb
    exact htrans _ _ _ hrounds (ih c (hp.2.2 c) hn)

end Frames

/-- The same program with other names for its suspension points. -/
def relabel (g : κ → κ') : {α : Type} → Prog κ τ ω σ α → Prog κ' τ ω σ α
  | _, .ret a => .ret a
  | _, .await site act next => .await (g site) act (fun b => relabel g (next b))
  | _, .sync act next => .sync act (fun b => relabel g (next b))
  | _, .spawn tag child next => .spawn tag (relabel g child) (relabel g next)
  | _, .loop site b body next =>
    .loop (g site) b (fun b => relabel g (body b)) (fun c => relabel g (next c))

theorem relabel_bind (g : κ → κ') (p : Prog κ τ ω σ α) (f : α → Prog κ τ ω σ β) :
    (p.bind f).relabel g = (p.relabel g).bind (fun a => (f a).relabel g) := by
  induction p with
  | ret a => rfl
  | await site act next ih => simp only [bind, relabel, ih]
  | sync act next ih => simp only [bind, relabel, ih]
  | spawn tag child next ihc ih => simp only [bind, relabel, ih]
  | loop site b body next ihb ih => simp only [bind, relabel, ih]

/-- The names of suspension points make no difference to a task on its own. -/
theorem runs_relabel (g : κ → κ') (p : Prog κ τ ω σ α) {kids' : List (τ × Prog κ' τ ω σ Unit)} :
    (p.relabel g).Runs s ws a s' kids' ↔
      ∃ kids, kids' = kids.map (fun k => (k.1, k.2.relabel g)) ∧ p.Runs s ws a s' kids := by
  induction p generalizing s s' ws kids' with
  | ret b =>
    constructor
    · rintro ⟨hw, ha, hs, rfl⟩
      exact ⟨[], rfl, hw, ha, hs, rfl⟩
    · rintro ⟨_, rfl, hw, ha, hs, rfl⟩
      exact ⟨hw, ha, hs, rfl⟩
  | await site act next ih =>
    constructor
    · rintro ⟨w, ws', s₁, c, hw, ha, h⟩
      obtain ⟨kids, hk, hn⟩ := (ih c).mp h
      exact ⟨kids, hk, w, ws', s₁, c, hw, ha, hn⟩
    · rintro ⟨kids, hk, w, ws', s₁, c, hw, ha, hn⟩
      exact ⟨w, ws', s₁, c, hw, ha, (ih c).mpr ⟨kids, hk, hn⟩⟩
  | sync act next ih => exact ih _
  | spawn tag child next ihc ih =>
    constructor
    · rintro ⟨kids₁, rfl, h⟩
      obtain ⟨kids, rfl, hn⟩ := ih.mp h
      exact ⟨(tag, child) :: kids, rfl, kids, rfl, hn⟩
    · rintro ⟨_, rfl, kids, rfl, hn⟩
      exact ⟨_, rfl, ih.mpr ⟨kids, rfl, hn⟩⟩
  | loop site b₀ body next ihb ih =>
    constructor
    · rintro ⟨ws₁, ws₂, c, s₁, kids₁, kids₂, rfl, rfl, hl, h⟩
      obtain ⟨kids₂, rfl, hn⟩ := (ih c).mp h
      have hrounds : ∃ kids, kids₁ = kids.map (fun k => (k.1, k.2.relabel g)) ∧
          Rounds (fun b => (body b).Runs) b₀ s ws₁ c s₁ kids := by
        clear hn h
        induction hl with
        | last h =>
          obtain ⟨kids, rfl, hb⟩ := (ihb _).mp h
          exact ⟨kids, rfl, .last hb⟩
        | more h _ ihl =>
          obtain ⟨kids, rfl, hb⟩ := (ihb _).mp h
          obtain ⟨kids', rfl, hs⟩ := ihl
          exact ⟨kids ++ kids', (List.map_append).symm, .more hb hs⟩
      obtain ⟨kids₁, rfl, hrs⟩ := hrounds
      exact ⟨kids₁ ++ kids₂, (List.map_append).symm, ws₁, ws₂, c, s₁, kids₁, kids₂, rfl, rfl, hrs,
        hn⟩
    · rintro ⟨_, rfl, ws₁, ws₂, c, s₁, kids₁, kids₂, rfl, rfl, hl, hn⟩
      have hrounds : Rounds (fun b => ((body b).relabel g).Runs) b₀ s ws₁ c s₁
          (kids₁.map (fun k => (k.1, k.2.relabel g))) := by
        clear hn
        induction hl with
        | last h => exact .last ((ihb _).mpr ⟨_, rfl, h⟩)
        | more h _ ihl =>
          rw [List.map_append]
          exact .more ((ihb _).mpr ⟨_, rfl, h⟩) ihl
      exact ⟨ws₁, ws₂, c, s₁, _, _, rfl, List.map_append, hrounds, (ih c).mpr ⟨kids₂, rfl, hn⟩⟩

/-- Two runs of a task that the world answers alike are one run. -/
theorem Runs.unique {ws' r r' : List ω} {a' : α} {s₁ s₂ : σ}
    {kids' : List (τ × Prog κ τ ω σ Unit)} (h : p.Runs s ws a s₁ kids) (h' : p.Runs s ws' a' s₂ kids')
    (hw : ws ++ r = ws' ++ r') : ws = ws' ∧ a = a' ∧ s₁ = s₂ := by
  induction p generalizing s s₁ s₂ ws ws' kids kids' r r' with
  | ret b =>
    obtain ⟨rfl, rfl, rfl, -⟩ := h
    obtain ⟨rfl, rfl, rfl, -⟩ := h'
    exact ⟨rfl, rfl, rfl⟩
  | await site act next ih =>
    obtain ⟨w, ws₁, s₃, c, rfl, ha, h⟩ := h
    obtain ⟨w', ws₁', s₃', c', rfl, ha', h'⟩ := h'
    simp only [List.cons_append, List.cons.injEq] at hw
    obtain ⟨rfl, hw⟩ := hw
    rw [ha, Option.some.injEq, Prod.mk.injEq] at ha'
    obtain ⟨rfl, rfl⟩ := ha'
    obtain ⟨rfl, hrest⟩ := ih c h h' hw
    exact ⟨rfl, hrest⟩
  | sync act next ih => exact ih _ h h' hw
  | spawn tag child next ihc ih =>
    obtain ⟨_, -, h⟩ := h
    obtain ⟨_, -, h'⟩ := h'
    exact ih h h' hw
  | loop site b₀ body next ihb ih =>
    obtain ⟨ws₁, ws₂, c, s₃, kids₁, kids₂, rfl, -, hl, h⟩ := h
    obtain ⟨ws₁', ws₂', c', s₃', kids₁', kids₂', rfl, -, hl', h'⟩ := h'
    rw [List.append_assoc, List.append_assoc] at hw
    have hrounds : ∀ {b s ws c s₁ kids r}, Rounds (fun b => (body b).Runs) b s ws c s₁ kids →
        ∀ {ws' c' s₂ kids' r'}, Rounds (fun b => (body b).Runs) b s ws' c' s₂ kids' →
          ws ++ r = ws' ++ r' → ws = ws' ∧ c = c' ∧ s₁ = s₂ := by
      intro b s ws c s₁ kids r hl
      induction hl with
      | last h =>
        intro ws' c' s₂ kids' r' hl' hw
        cases hl' with
        | last h' =>
          simp only [List.cons_append, List.cons.injEq] at hw
          obtain ⟨rfl, hc, hs⟩ := ihb _ h h' hw.2
          exact ⟨by rw [hw.1], Sum.inr.inj hc, hs⟩
        | more h' _ =>
          simp only [List.cons_append, List.append_assoc, List.cons.injEq] at hw
          obtain ⟨-, hc, -⟩ := ihb _ h h' hw.2
          cases hc
      | more h _ ihl =>
        intro ws' c' s₂ kids' r' hl' hw
        cases hl' with
        | last h' =>
          simp only [List.cons_append, List.append_assoc, List.cons.injEq] at hw
          obtain ⟨-, hc, -⟩ := ihb _ h h' hw.2
          cases hc
        | more h' hs' =>
          simp only [List.cons_append, List.append_assoc, List.cons.injEq] at hw
          obtain ⟨rfl, hb, rfl⟩ := ihb _ h h' hw.2
          cases hb
          obtain ⟨rfl, hc, hs⟩ := ihl hs' (List.append_cancel_left hw.2)
          exact ⟨by rw [hw.1], hc, hs⟩
    obtain ⟨rfl, rfl, rfl⟩ := hrounds hl hl' hw
    obtain ⟨rfl, hrest⟩ := ih c h h' (List.append_cancel_left hw)
    exact ⟨rfl, hrest⟩

/-- The task at an index rests where a program comes to rest from a state. -/
def RestsIn (P : Pool κ τ ω σ) (i : Nat) (p : Prog κ τ ω σ Unit) (s : σ) : Prop :=
  P.shared = (p.settle s).1 ∧ (P.threads[i]?).map Thread.prog = some (p.settle s).2.1

/-- A run of a task by itself is a run of the scheduler that resumes this task only. -/
theorem Runs.reaches {q : Type} {i : Nat} (h : p.Runs s ws a s' kids) (entry : q → Thread κ τ ω σ)
    (k : α → Prog κ τ ω σ Unit) {P : Pool κ τ ω σ} (hP : RestsIn P i (p.bind k) s) :
    ∃ P', P.Reaches entry (fun _ e => ∃ w, e = .run i w) P' ∧ RestsIn P' i (k a) s' ∧
      ∀ (j : Nat) t, j ≠ i → P.threads[j]? = some t → P'.threads[j]? = some t := by
  have hstep : ∀ {P : Pool κ τ ω σ} {x : Prog κ τ ω σ Unit} {w : ω} {y : Prog κ τ ω σ Unit} {s₁ s₂ : σ},
      P.shared = s₁ → (P.threads[i]?).map Thread.prog = some x → x.resume w s₁ = some (y.settle s₂) →
      ∃ P', P.Step entry (fun _ e => ∃ w, e = .run i w) P' ∧ RestsIn P' i y s₂ ∧
        ∀ (j : Nat) t, j ≠ i → P.threads[j]? = some t → P'.threads[j]? = some t := by
    intro P x w y s₁ s₂ hs hx hr
    obtain ⟨t, ht, rfl⟩ := Option.map_eq_some_iff.mp hx
    have hl := (List.getElem?_eq_some_iff.mp ht).1
    refine ⟨⟨(y.settle s₂).1, P.threads.set i ⟨t.tag, (y.settle s₂).2.1⟩ ++
      (y.settle s₂).2.2.map (fun c => ⟨c.1, c.2⟩)⟩, ⟨.run i w, ⟨w, rfl⟩, ?_⟩, ⟨rfl, ?_⟩, ?_⟩
    · simp only [Pool.fire, ht, hs, hr, Option.map_some]
    · rw [List.getElem?_append_left (by simpa using hl)]
      simp [hl]
    · intro j t hj hjt
      have hlj := (List.getElem?_eq_some_iff.mp hjt).1
      rw [List.getElem?_append_left (by simpa using hlj), List.getElem?_set_ne (Ne.symm hj)]
      exact hjt
  induction p generalizing s s' ws kids P with
  | ret b =>
    obtain ⟨rfl, rfl, rfl, rfl⟩ := h
    exact ⟨P, .refl, hP, fun _ _ _ ht => ht⟩
  | await site act next ih =>
    obtain ⟨w, ws', s₁, c, -, ha, hn⟩ := h
    have hresume : ((Prog.await site act next).bind k).resume w s =
        some (((next c).bind k).settle s₁) := by
      show (act w s).map _ = _
      rw [ha]
      rfl
    obtain ⟨P₁, hs₁, hP₁, ho₁⟩ := hstep hP.1 hP.2 hresume
    obtain ⟨P₂, hs₂, hP₂, ho₂⟩ := ih c hn k hP₁
    exact ⟨P₂, .head hs₁ hs₂, hP₂, fun j t hj ht => ho₂ j t hj (ho₁ j t hj ht)⟩
  | sync act next ih => exact ih _ h k hP
  | spawn tag child next ihc ih =>
    obtain ⟨_, -, hn⟩ := h
    exact ih hn k hP
  | loop site b₀ body next ihb ih =>
    obtain ⟨ws₁, ws₂, c, s₁, kids₁, kids₂, -, -, hl, hn⟩ := h
    have hrounds : ∀ {P : Pool κ τ ω σ}, RestsIn P i ((Prog.loop site b₀ body next).bind k) s →
        ∃ P', P.Reaches entry (fun _ e => ∃ w, e = .run i w) P' ∧ RestsIn P' i ((next c).bind k) s₁ ∧
          ∀ (j : Nat) t, j ≠ i → P.threads[j]? = some t → P'.threads[j]? = some t := by
      clear hn hP
      induction hl with
      | @last b s s' w ws c kids h =>
        intro P hP
        have hresume : ((Prog.loop site b body next).bind k).resume w s =
            some (((body b).bind (unroll site body (fun c => (next c).bind k))).settle s) := rfl
        obtain ⟨P₁, hs₁, hP₁, ho₁⟩ := hstep hP.1 hP.2 hresume
        obtain ⟨P₂, hs₂, hP₂, ho₂⟩ := ihb b h _ hP₁
        exact ⟨P₂, .head hs₁ hs₂, hP₂, fun j t hj ht => ho₂ j t hj (ho₁ j t hj ht)⟩
      | @more b b' s s' s'' w ws ws' c kids kids' h _ ihl =>
        intro P hP
        have hresume : ((Prog.loop site b body next).bind k).resume w s =
            some (((body b).bind (unroll site body (fun c => (next c).bind k))).settle s) := rfl
        obtain ⟨P₁, hs₁, hP₁, ho₁⟩ := hstep hP.1 hP.2 hresume
        obtain ⟨P₂, hs₂, hP₂, ho₂⟩ := ihb b h _ hP₁
        obtain ⟨P₃, hs₃, hP₃, ho₃⟩ := ihl hP₂
        exact ⟨P₃, .head hs₁ (hs₂.trans hs₃), hP₃,
          fun j t hj ht => ho₃ j t hj (ho₂ j t hj (ho₁ j t hj ht))⟩
    obtain ⟨P₁, hs₁, hP₁, ho₁⟩ := hrounds hP
    obtain ⟨P₂, hs₂, hP₂, ho₂⟩ := ih c hn k hP₁
    exact ⟨P₂, hs₁.trans hs₂, hP₂, fun j t hj ht => ho₂ j t hj (ho₁ j t hj ht)⟩

/-- A run whose children do not matter. -/
def RunsTo (p : Prog κ τ ω σ α) (s : σ) (ws : List ω) (a : α) (s' : σ) : Prop :=
  ∃ kids, p.Runs s ws a s' kids

theorem runsTo_ret {x : α} : (Prog.ret x : Prog κ τ ω σ α).RunsTo s ws a s' ↔
    ws = [] ∧ a = x ∧ s' = s :=
  ⟨fun ⟨_, hw, ha, hs, _⟩ => ⟨hw, ha, hs⟩, fun ⟨hw, ha, hs⟩ => ⟨[], hw, ha, hs, rfl⟩⟩

theorem runsTo_bind : (p.bind f).RunsTo s ws b s' ↔ ∃ ws₁ ws₂ a s₁,
    ws = ws₁ ++ ws₂ ∧ p.RunsTo s ws₁ a s₁ ∧ (f a).RunsTo s₁ ws₂ b s' := by
  constructor
  · rintro ⟨kids, h⟩
    obtain ⟨ws₁, ws₂, a, s₁, kids₁, kids₂, hw, -, hp, hf⟩ := runs_bind.mp h
    exact ⟨ws₁, ws₂, a, s₁, hw, ⟨kids₁, hp⟩, kids₂, hf⟩
  · rintro ⟨ws₁, ws₂, a, s₁, rfl, ⟨kids₁, hp⟩, kids₂, hf⟩
    exact ⟨_, hp.bind hf⟩

theorem RunsTo.bind {ws₁ ws₂ : List ω} {s₁ : σ} (hp : p.RunsTo s ws₁ a s₁)
    (hf : (f a).RunsTo s₁ ws₂ b s') : (p.bind f).RunsTo s (ws₁ ++ ws₂) b s' :=
  runsTo_bind.mpr ⟨ws₁, ws₂, a, s₁, rfl, hp, hf⟩

theorem runsTo_relabel (g : κ → κ') (p : Prog κ τ ω σ α) :
    (p.relabel g).RunsTo s ws a s' ↔ p.RunsTo s ws a s' := by
  constructor
  · rintro ⟨_, h⟩
    obtain ⟨kids, -, h⟩ := (runs_relabel g p).mp h
    exact ⟨kids, h⟩
  · rintro ⟨kids, h⟩
    exact ⟨_, (runs_relabel g p).mpr ⟨kids, rfl, h⟩⟩

theorem RunsTo.unique {ws' r r' : List ω} {a' : α} {s₁ s₂ : σ} (h : p.RunsTo s ws a s₁)
    (h' : p.RunsTo s ws' a' s₂) (hw : ws ++ r = ws' ++ r') : ws = ws' ∧ a = a' ∧ s₁ = s₂ := by
  obtain ⟨_, h⟩ := h
  obtain ⟨_, h'⟩ := h'
  exact h.unique h' hw

/-- Some run of the task ends, whatever the state it starts from. -/
def CanEnd (p : Prog κ τ ω σ α) : Prop := ∀ s, ∃ ws a s', p.RunsTo s ws a s'

theorem CanEnd.ret (x : α) : (Prog.ret x : Prog κ τ ω σ α).CanEnd :=
  fun s => ⟨[], x, s, runsTo_ret.mpr ⟨rfl, rfl, rfl⟩⟩

theorem CanEnd.bind (hp : p.CanEnd) (hf : ∀ a, (f a).CanEnd) : (p.bind f).CanEnd := by
  intro s
  obtain ⟨ws₁, a, s₁, h⟩ := hp s
  obtain ⟨ws₂, b, s₂, h'⟩ := hf a s₁
  exact ⟨ws₁ ++ ws₂, b, s₂, h.bind h'⟩

/-- Some run of the task ends with this value, whatever the state it starts from. -/
def CanGive (p : Prog κ τ ω σ α) (a : α) : Prop := ∀ s, ∃ ws s', p.RunsTo s ws a s'

theorem CanGive.ret (x : α) : (Prog.ret x : Prog κ τ ω σ α).CanGive x :=
  fun s => ⟨[], s, runsTo_ret.mpr ⟨rfl, rfl, rfl⟩⟩

theorem CanGive.canEnd (hp : p.CanGive a) : p.CanEnd := by
  intro s
  obtain ⟨ws, s', h⟩ := hp s
  exact ⟨ws, a, s', h⟩

theorem CanGive.bind (hp : p.CanGive a) (hf : (f a).CanGive b) : (p.bind f).CanGive b := by
  intro s
  obtain ⟨ws₁, s₁, h⟩ := hp s
  obtain ⟨ws₂, s₂, h'⟩ := hf s₁
  exact ⟨ws₁ ++ ws₂, s₂, h.bind h'⟩

theorem CanEnd.give (hp : p.CanEnd) (hf : ∀ a, (f a).CanGive b) : (p.bind f).CanGive b := by
  intro s
  obtain ⟨ws₁, a, s₁, h⟩ := hp s
  obtain ⟨ws₂, s₂, h'⟩ := hf a s₁
  exact ⟨ws₁ ++ ws₂, s₂, h.bind h'⟩

theorem CanEnd.await {site : κ} {act : ω → σ → Option (σ × β)} {next : β → Prog κ τ ω σ α}
    (ha : ∀ s, ∃ w s' b, act w s = some (s', b)) (hn : ∀ b, (next b).CanEnd) :
    (Prog.await site act next).CanEnd := by
  intro s
  obtain ⟨w, s₁, b, hact⟩ := ha s
  obtain ⟨ws, a, s', kids, h⟩ := hn b s₁
  exact ⟨w :: ws, a, s', kids, w, ws, s₁, b, rfl, hact, h⟩

theorem CanEnd.sync {act : σ → σ × β} {next : β → Prog κ τ ω σ α} (hn : ∀ b, (next b).CanEnd) :
    (Prog.sync act next).CanEnd := fun _ => hn _ _

end Prog

end Coop
