import AgentGrove.Coop.Protocol

namespace Coop

namespace Prog

variable {κ τ ω σ α β γ : Type}

/-- Every suspension point meets `S`, every action keeps to the frame `A`, and
nothing is spawned. -/
def Within (S : κ → Prop) (A : Option (κ × ω) → σ → σ → Prop) :
    {α : Type} → Prog κ τ ω σ α → Prop
  | _, .ret _ => True
  | _, .await site act next => S site ∧
      (∀ w s s' b, act w s = some (s', b) → A (some (site, w)) s s') ∧ ∀ b, Within S A (next b)
  | _, .sync act next => (∀ s, A none s (act s).1) ∧ ∀ b, Within S A (next b)
  | _, .spawn _ _ _ => False
  | _, .loop site _ body next => (S site ∧ ∀ w s, A (some (site, w)) s s) ∧
      (∀ b, Within S A (body b)) ∧ ∀ c, Within S A (next c)

variable {S S' : κ → Prop} {A A' : Option (κ × ω) → σ → σ → Prop}

theorem Within.ret (a : α) : (Prog.ret a : Prog κ τ ω σ α).Within S A := trivial

theorem Within.bind {p : Prog κ τ ω σ α} {f : α → Prog κ τ ω σ β} (hp : p.Within S A)
    (hf : ∀ a, (f a).Within S A) : (p.bind f).Within S A := by
  induction p with
  | ret a => exact hf a
  | await site act next ih => exact ⟨hp.1, hp.2.1, fun b => ih b (hp.2.2 b) hf⟩
  | sync act next ih => exact ⟨hp.1, fun b => ih b (hp.2 b) hf⟩
  | spawn tag child next ihc ih => exact hp.elim
  | loop site b body next ihb ih => exact ⟨hp.1, hp.2.1, fun c => ih c (hp.2.2 c) hf⟩

theorem Within.mono {p : Prog κ τ ω σ α} (hp : p.Within S A) (hs : ∀ x, S x → S' x)
    (ha : ∀ e s s', (∀ y w, e = some (y, w) → S y) → A e s s' → A' e s s') : p.Within S' A' := by
  induction p with
  | ret a => trivial
  | await site act next ih =>
    refine ⟨hs _ hp.1, fun w s s' b h => ha _ _ _ ?_ (hp.2.1 w s s' b h), fun b => ih b (hp.2.2 b)⟩
    rintro _ _ ⟨⟩
    exact hp.1
  | sync act next ih => exact ⟨fun s => ha _ _ _ (by simp) (hp.1 s), fun b => ih b (hp.2 b)⟩
  | spawn tag child next ihc ih => exact hp.elim
  | loop site b body next ihb ih =>
    refine ⟨⟨hs _ hp.1.1, fun w s => ha _ _ _ ?_ (hp.1.2 w s)⟩, fun b => ihb b (hp.2.1 b),
      fun c => ih c (hp.2.2 c)⟩
    rintro _ _ ⟨⟩
    exact hp.1.1

end Prog

namespace Protocol

variable {κ τ ω σ ρ α : Type} {P : Protocol κ τ ω σ ρ} {t : τ} {r : ρ} {S : κ → Prop}
  {A : Option (κ × ω) → σ → σ → Prop}

/-- Code that stays within a frame keeps its role, if the protocol lets a task
in that role rest at those sites and act within that frame. -/
theorem follows_within {p : Prog κ τ ω σ α} {Q : α → ρ → Prop} (hp : p.Within S A)
    (hrest : ∀ site, S site → P.rest t (some site) r)
    (hawait : ∀ site w s s', S site → P.sees r s → A (some (site, w)) s s' →
      P.move (some (site, w)) r s r s')
    (hsync : ∀ s s', P.sees r s → A none s s' → P.move none r s r s')
    (hq : ∀ a, Q a r) : P.Follows t p r Q := by
  induction p with
  | ret a => exact hq a
  | await site act next ih =>
    refine ⟨hrest site hp.1, fun w s s' b hs ha => ⟨r, ?_, ih b (hp.2.2 b) hq⟩⟩
    exact hawait site w s s' hp.1 hs (hp.2.1 w s s' b ha)
  | sync act next ih =>
    exact fun s hs => ⟨r, hsync s _ hs (hp.1 s), ih _ (hp.2 _) hq⟩
  | spawn tag child next ihc ih => exact hp.elim
  | loop site b body next ihb ih =>
    refine ⟨fun _ r' => r' = r, rfl, ?_⟩
    rintro b _ rfl
    refine ⟨hrest site hp.1.1, fun w s hs => ⟨_, hawait site w s s hp.1.1 hs (hp.1.2 w s), ?_⟩⟩
    refine ihb b (hp.2.1 b) ?_
    rintro (b' | c)
    · rfl
    · exact ih c (hp.2.2 c) hq

/-- What the tasks spawned while a task settles are tagged with, when the roles
it passes through only ever fork such tags. -/
theorem Follows.settle_tags {G : ρ → σ → Prop} {H : τ → Prop}
    (hsees : ∀ r s, G r s → P.sees r s)
    (hsync : ∀ r s r' s', G r s → P.move none r s r' s' → G r' s')
    (hfork : ∀ r s tag rc r', G r s → P.fork r tag rc r' → H tag ∧ G r' s)
    {p : Prog κ τ ω σ α} {s : σ} {Q : α → ρ → Prop} (hf : P.Follows t p r Q) (hg : G r s) :
    ∀ c ∈ (p.settle s).2.2, H c.1 := by
  induction p generalizing s r with
  | ret a => simp [Prog.settle]
  | await site act next ih => simp [Prog.settle]
  | loop site b body next ihb ih => simp [Prog.settle]
  | sync act next ih =>
    obtain ⟨r', hm, hn⟩ := hf s (hsees r s hg)
    exact ih _ hn (hsync r s r' _ hg hm)
  | spawn tag child next ihc ih =>
    obtain ⟨rc, r', hk, -, -, hn⟩ := hf
    obtain ⟨hH, hg'⟩ := hfork r s tag rc r' hg hk
    simp only [Prog.settle, List.mem_cons, forall_eq_or_imp]
    exact ⟨hH, ih hn hg'⟩

/-- The same for a whole step of the scheduler: the tasks it adds. -/
theorem Coupled.fire_tags {q : Type} {G : ρ → σ → Prop} {H : τ → Prop}
    (hsees : ∀ r s, G r s → P.sees r s)
    (hsync : ∀ r s r' s', G r s → P.move none r s r' s' → G r' s')
    (hfork : ∀ r s tag rc r', G r s → P.fork r tag rc r' → H tag ∧ G r' s)
    {entry : q → Thread κ τ ω σ} {p p' : Pool κ τ ω σ} {roles : List ρ} {i : Nat} {w : ω}
    (hc : P.Coupled p roles) (hv : ∀ r, roles[i]? = some r → P.sees r p.shared)
    (hawait : ∀ site r r' s', p.At i site → roles[i]? = some r →
      P.move (some (site, w)) r p.shared r' s' → G r' s')
    (h : p.fire entry (.run i w) = some p') {k : Nat} {t : Thread κ τ ω σ}
    (hk : p.threads.length ≤ k) (ht : p'.threads[k]? = some t) : H t.tag := by
  simp only [Pool.fire] at h
  split at h
  · cases h
  rename_i th hi
  obtain ⟨out, hout, rfl⟩ := Option.map_eq_some_iff.mp h
  obtain ⟨r, hr, hrest, hf⟩ := hc.2 i th hi
  obtain ⟨tag, prog⟩ := th
  have hat : ∀ {site}, prog.site = some site → p.At i site := by
    intro site hs
    simp only [Pool.At, Pool.restsAt, hi]
    exact hs
  have hnew : ∀ c ∈ out.2.2, H c.1 := by
    cases prog with
    | ret a => simp [Prog.resume] at hout
    | sync act next => exact hrest.elim
    | spawn tag child next => exact hrest.elim
    | loop site b body next =>
      simp only [Prog.resume, Option.some.injEq] at hout
      subst hout
      obtain ⟨r', hm, hn⟩ := Protocol.follows_unroll hf w (hv r hr)
      exact Follows.settle_tags hsees hsync hfork hn (hawait site r r' _ (hat rfl) hr hm)
    | await site act next =>
      simp only [Prog.resume, Option.map_eq_some_iff] at hout
      obtain ⟨⟨s', b⟩, ha, rfl⟩ := hout
      obtain ⟨r', hm, hn⟩ := hf.2 w p.shared s' b (hv r hr) ha
      exact Follows.settle_tags hsees hsync hfork hn (hawait site r r' s' (hat rfl) hr hm)
  dsimp only at ht
  rw [List.getElem?_append_right (by simpa using hk)] at ht
  obtain ⟨c, hc', rfl⟩ := List.mem_map.mp (List.mem_of_getElem? ht)
  exact hnew c hc'

/-- And for an admission. -/
theorem arrive_tags {q : Type} {G : ρ → σ → Prop} {H : τ → Prop}
    (hsees : ∀ r s, G r s → P.sees r s)
    (hsync : ∀ r s r' s', G r s → P.move none r s r' s' → G r' s')
    (hfork : ∀ r s tag rc r', G r s → P.fork r tag rc r' → H tag ∧ G r' s)
    {entry : q → Thread κ τ ω σ} {p p' : Pool κ τ ω σ} {request : q}
    (hf : P.Follows (entry request).tag (entry request).prog r
      (fun _ r' => P.rest (entry request).tag none r'))
    (hg : G r p.shared) (hentry : H (entry request).tag)
    (h : p.fire (ω := ω) entry (.arrive request) = some p') {k : Nat} {t : Thread κ τ ω σ}
    (hk : p.threads.length ≤ k) (ht : p'.threads[k]? = some t) : H t.tag := by
  simp only [Pool.fire, Option.some.injEq] at h
  subst h
  dsimp only at ht
  rw [List.getElem?_append_right hk] at ht
  rcases List.mem_cons.mp (List.mem_of_getElem? ht) with rfl | hm
  · exact hentry
  · obtain ⟨c, hc, rfl⟩ := List.mem_map.mp hm
    exact Follows.settle_tags hsees hsync hfork hf hg c hc

end Protocol

end Coop
