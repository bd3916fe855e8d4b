import AgentGrove.Coop.Frame

namespace Coop

namespace Prog

variable {κ τ ω σ α β : Type} {S L : κ → Prop} {A : σ → σ → Prop} {n m : Nat}

/-- At most so many awaits, each meeting `S`, not counting loops that stay at
points that meet `L`. Every action keeps to `A` and nothing is spawned. -/
def Brief (S L : κ → Prop) (A : σ → σ → Prop) : {α : Type} → Prog κ τ ω σ α → Nat → Prop
  | _, .ret _, _ => True
  | _, .await site act next, n => 0 < n ∧ S site ∧
      (∀ w s s' b, act w s = some (s', b) → A s s') ∧ ∀ b, Brief S L A (next b) (n - 1)
  | _, .sync act next, n => (∀ s, A s (act s).1) ∧ ∀ b, Brief S L A (next b) n
  | _, .spawn _ _ _, _ => False
  | _, .loop site _ body next, n =>
      (L site ∧ ∀ s, A s s) ∧ (∀ b, (body b).Within L (fun _ => A)) ∧ ∀ c, Brief S L A (next c) n

theorem Brief.mono {p : Prog κ τ ω σ α} (hp : p.Brief S L A n) (h : n ≤ m) : p.Brief S L A m := by
  induction p generalizing n m with
  | ret a => trivial
  | await site act next ih =>
    exact ⟨Nat.lt_of_lt_of_le hp.1 h, hp.2.1, hp.2.2.1, fun b => ih b (hp.2.2.2 b) (by omega)⟩
  | sync act next ih => exact ⟨hp.1, fun b => ih b (hp.2 b) h⟩
  | spawn tag child next ihc ih => exact hp.elim
  | loop site b body next ihb ih => exact ⟨hp.1, hp.2.1, fun c => ih c (hp.2.2 c) h⟩

theorem Brief.bind {p : Prog κ τ ω σ α} {f : α → Prog κ τ ω σ β} (hp : p.Brief S L A n)
    (hf : ∀ a, (f a).Brief S L A m) : (p.bind f).Brief S L A (n + m) := by
  induction p generalizing n with
  | ret a => exact (hf a).mono (Nat.le_add_left m n)
  | await site act next ih =>
    obtain ⟨hn, hs, ha, hnext⟩ := hp
    refine ⟨by omega, hs, ha, fun b => ?_⟩
    have hb := ih b (hnext b) hf
    have he : n - 1 + m = n + m - 1 := by omega
    exact he ▸ hb
  | sync act next ih => exact ⟨hp.1, fun b => ih b (hp.2 b) hf⟩
  | spawn tag child next ihc ih => exact hp.elim
  | loop site b body next ihb ih => exact ⟨hp.1, hp.2.1, fun c => ih c (hp.2.2 c) hf⟩

/-- Whatever the program spawns meets `K`. -/
def Spawns (K : τ → Prog κ τ ω σ Unit → Prop) : {α : Type} → Prog κ τ ω σ α → Prop
  | _, .ret _ => True
  | _, .await _ _ next => ∀ b, Spawns K (next b)
  | _, .sync _ next => ∀ b, Spawns K (next b)
  | _, .spawn tag child next => K tag child ∧ Spawns K next
  | _, .loop _ _ body next => (∀ b, Spawns K (body b)) ∧ ∀ c, Spawns K (next c)

variable {K : τ → Prog κ τ ω σ Unit → Prop}

theorem Spawns.bind {p : Prog κ τ ω σ α} {f : α → Prog κ τ ω σ β} (hp : p.Spawns K)
    (hf : ∀ a, (f a).Spawns K) : (p.bind f).Spawns K := by
  induction p with
  | ret a => exact hf a
  | await site act next ih => exact fun b => ih b (hp b) hf
  | sync act next ih => exact fun b => ih b (hp b) hf
  | spawn tag child next ihc ih => exact ⟨hp.1, ih hp.2 hf⟩
  | loop site b body next ihb ih => exact ⟨hp.1, fun c => ih c (hp.2 c) hf⟩

theorem Within.spawns {B : Option (κ × ω) → σ → σ → Prop} {p : Prog κ τ ω σ α}
    (hp : p.Within S B) : p.Spawns K := by
  induction p with
  | ret a => trivial
  | await site act next ih => exact fun b => ih b (hp.2.2 b)
  | sync act next ih => exact fun b => ih b (hp.2 b)
  | spawn tag child next ihc ih => exact hp.elim
  | loop site b body next ihb ih => exact ⟨fun b => ihb b (hp.2.1 b), fun c => ih c (hp.2.2 c)⟩

end Prog

namespace Protocol

variable {κ τ ω σ ρ α β : Type} {P : Protocol κ τ ω σ ρ} {t : τ} {r r' : ρ} {n k : Nat}
  {S L : κ → Prop} {A : σ → σ → Prop} {K : τ → Prog κ τ ω σ Unit → Prop}

/-- A role under which everything is allowed is kept by any code whose children
obey the protocol. -/
theorem follows_spawning {p : Prog κ τ ω σ α} (hp : p.Spawns K) (hrest : ∀ x, P.rest t x r)
    (hmove : ∀ e s s', P.move e r s r s')
    (hfork : ∀ tag child, K tag child → ∃ rc, P.fork r tag rc r ∧ child.Resting ∧
      P.Follows tag child rc (fun _ x => P.rest tag none x)) :
    P.Follows t p r (fun _ x => x = r) := by
  induction p with
  | ret a => rfl
  | await site act next ih => exact ⟨hrest _, fun w s s' b _ _ => ⟨r, hmove _ _ _, ih b (hp b)⟩⟩
  | sync act next ih => exact fun s _ => ⟨r, hmove _ _ _, ih _ (hp _)⟩
  | spawn tag child next ihc ih =>
    obtain ⟨rc, hf, hr, hc⟩ := hfork tag child hp.1
    exact ⟨rc, r, hf, hr, hc, ih hp.2⟩
  | loop site b body next ihb ih =>
    refine ⟨fun _ x => x = r, rfl, ?_⟩
    rintro b _ rfl
    refine ⟨hrest _, fun w s _ => ⟨_, hmove _ _ _, follows_mono (ihb b (hp.1 b)) ?_⟩⟩
    rintro (b' | c) x hx
    · exact hx
    · rw [hx]
      exact ih c (hp.2 c)

/-- An order on roles in which a larger role may do all that a smaller one may. -/
structure Roomy (P : Protocol κ τ ω σ ρ) (le : ρ → ρ → Prop) : Prop where
  refl : ∀ r, le r r
  trans : ∀ r r' r'', le r r' → le r' r'' → le r r''
  rest : ∀ t x r r', le r r' → P.rest t x r → P.rest t x r'
  sees : ∀ s r r', le r r' → P.sees r' s → P.sees r s
  move : ∀ e r s q s' r', le r r' → P.move e r s q s' → ∃ q', le q q' ∧ P.move e r' s q' s'
  fork : ∀ r tag rc q r', le r r' → P.fork r tag rc q → ∃ q', le q q' ∧ P.fork r' tag rc q'

/-- What a program does from one role it does from any larger one. -/
theorem Roomy.follows {le : ρ → ρ → Prop} (hl : P.Roomy le) {p : Prog κ τ ω σ α}
    {Q : α → ρ → Prop} (hp : P.Follows t p r Q) (hr : le r r')
    (hq : ∀ a x y, le x y → Q a x → Q a y) : P.Follows t p r' Q := by
  induction p generalizing r r' with
  | ret a => exact hq a r r' hr hp
  | await site act next ih =>
    refine ⟨hl.rest _ _ _ _ hr hp.1, fun w s s' b hs ha => ?_⟩
    obtain ⟨x, hm, hn⟩ := hp.2 w s s' b (hl.sees _ _ _ hr hs) ha
    obtain ⟨y, hy, hm'⟩ := hl.move _ _ _ _ _ _ hr hm
    exact ⟨y, hm', ih b hn hy hq⟩
  | sync act next ih =>
    intro s hs
    obtain ⟨x, hm, hn⟩ := hp s (hl.sees _ _ _ hr hs)
    obtain ⟨y, hy, hm'⟩ := hl.move _ _ _ _ _ _ hr hm
    exact ⟨y, hm', ih _ hn hy hq⟩
  | spawn tag child next ihc ih =>
    obtain ⟨rc, x, hf, hc, hcf, hn⟩ := hp
    obtain ⟨y, hy, hf'⟩ := hl.fork _ _ _ _ _ hr hf
    exact ⟨rc, y, hf', hc, hcf, ih hn hy hq⟩
  | loop site b body next ihb ih =>
    obtain ⟨I, hb, hI⟩ := hp
    -- The invariant is closed upwards.
    refine ⟨fun b x => ∃ y, le y x ∧ I b y, ⟨r, hr, hb⟩, ?_⟩
    rintro b x ⟨y, hyx, hy⟩
    refine ⟨hl.rest _ _ _ _ hyx (hI b y hy).1, fun w s hs => ?_⟩
    obtain ⟨z, hm, hz⟩ := (hI b y hy).2 w s (hl.sees _ _ _ hyx hs)
    obtain ⟨z', hzz', hm'⟩ := hl.move _ _ _ _ _ _ hyx hm
    refine ⟨z', hm', ihb b (follows_mono hz ?_) hzz' ?_⟩
    · intro a z hz
      cases a with
      | inl b' => exact ⟨z, hl.refl z, hz⟩
      | inr c => exact hz
    · intro a u v huv hu
      cases a with
      | inl b' =>
        obtain ⟨z, hz, hzI⟩ := hu
        exact ⟨z, hl.trans _ _ _ hz huv, hzI⟩
      | inr c => exact ih c hu huv hq

/-- Roles with a budget from which every await outside `L` takes. -/
structure Spends (P : Protocol κ τ ω σ ρ) (t : τ) (S L : κ → Prop) (A : σ → σ → Prop)
    (due : Nat → ρ) : Prop where
  rest : ∀ site k, S site ∨ L site → P.rest t (some site) (due k)
  spend : ∀ site w k s s', S site → A s s' → P.move (some (site, w)) (due (k + 1)) s (due k) s'
  stay : ∀ site w k s s', L site → A s s' → P.move (some (site, w)) (due k) s (due k) s'
  sync : ∀ k s s', A s s' → P.move none (due k) s (due k) s'

/-- Brief code stays within its budget, and may leave some of it. -/
theorem Spends.follows {due : Nat → ρ} (hd : P.Spends t S L A due) {p : Prog κ τ ω σ α}
    {Q : α → ρ → Prop} (hp : p.Brief S L A n) (hq : ∀ a j, Q a (due (k + j))) :
    P.Follows t p (due (k + n)) Q := by
  induction p generalizing n with
  | ret a => exact hq a n
  | await site act next ih =>
    obtain ⟨hn, hs, ha, hnext⟩ := hp
    refine ⟨hd.rest _ _ (.inl hs), fun w s s' b _ hact => ⟨due (k + (n - 1)), ?_, ih b (hnext b) hq⟩⟩
    have hm := hd.spend site w (k + (n - 1)) s s' hs (ha w s s' b hact)
    have he : k + (n - 1) + 1 = k + n := by omega
    exact he ▸ hm
  | sync act next ih => exact fun s _ => ⟨_, hd.sync _ _ _ (hp.1 s), ih _ (hp.2 _) hq⟩
  | spawn tag child next ihc ih => exact hp.elim
  | loop site b body next ihb ih =>
    refine ⟨fun _ x => x = due (k + n), rfl, ?_⟩
    rintro b _ rfl
    refine ⟨hd.rest _ _ (.inr hp.1.1), fun w s _ =>
      ⟨_, hd.stay _ _ _ _ _ hp.1.1 (hp.1.2 s), follows_within (hp.2.1 b) ?_ ?_ ?_ ?_⟩⟩
    · exact fun x hx => hd.rest _ _ (.inr hx)
    · exact fun x w s s' hx _ hs => hd.stay _ _ _ _ _ hx hs
    · exact fun s s' _ hs => hd.sync _ _ _ hs
    · rintro (b' | c)
      · rfl
      · exact ih c (hp.2.2 c) hq

end Protocol

end Coop
