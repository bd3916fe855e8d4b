import AgentGrove.Coop.Frame

namespace Coop

namespace Prog

variable {κ τ ω σ υ α β γ : Type} {v : σ → υ}

/-- The program leaves what `v` shows of the state alone, and so do the tasks it
spawns. -/
def Bystands (v : σ → υ) : {α : Type} → Prog κ τ ω σ α → Prop
  | _, .ret _ => True
  | _, .await _ act next =>
    (∀ w s s' b, act w s = some (s', b) → v s' = v s) ∧ ∀ b, Bystands v (next b)
  | _, .sync act next => (∀ s, v (act s).1 = v s) ∧ ∀ b, Bystands v (next b)
  | _, .spawn _ child next => Bystands v child ∧ Bystands v next
  | _, .loop _ _ body next => (∀ b, Bystands v (body b)) ∧ ∀ c, Bystands v (next c)

theorem Bystands.bind {p : Prog κ τ ω σ α} {f : α → Prog κ τ ω σ β} (hp : p.Bystands v)
    (hf : ∀ a, (f a).Bystands v) : (p.bind f).Bystands v := by
  induction p with
  | ret a => exact hf a
  | await site act next ih => exact ⟨hp.1, fun b => ih b (hp.2 b) hf⟩
  | sync act next ih => exact ⟨hp.1, fun b => ih b (hp.2 b) hf⟩
  | spawn tag child next ihc ih => exact ⟨hp.1, ih hp.2 hf⟩
  | loop site b body next ihb ih => exact ⟨hp.1, fun c => ih c (hp.2 c) hf⟩

/-- A bystander stays one from one suspension point to the next. -/
theorem Bystands.settle {p : Prog κ τ ω σ α} (hp : p.Bystands v) (s : σ) :
    v (p.settle s).1 = v s ∧ (p.settle s).2.1.Bystands v ∧
      ∀ c ∈ (p.settle s).2.2, c.2.Bystands v := by
  induction p generalizing s with
  | ret a => exact ⟨rfl, trivial, fun _ hc => nomatch hc⟩
  | await site act next ih => exact ⟨rfl, hp, fun _ hc => nomatch hc⟩
  | loop site b body next ihb ih => exact ⟨rfl, hp, fun _ hc => nomatch hc⟩
  | sync act next ih =>
    obtain ⟨hv, hrest, hkids⟩ := ih _ (hp.2 _) (act s).1
    exact ⟨hv.trans (hp.1 s), hrest, hkids⟩
  | spawn tag child next ihc ih =>
    obtain ⟨hv, hrest, hkids⟩ := ih hp.2 s
    refine ⟨hv, hrest, fun c hc => ?_⟩
    rcases List.mem_cons.mp hc with rfl | hc
    · exact hp.1
    · exact hkids c hc

theorem Bystands.resume {w : ω} {p : Prog κ τ ω σ α} {s : σ}
    {out : σ × Prog κ τ ω σ α × List (τ × Prog κ τ ω σ Unit)} (hp : p.Bystands v)
    (h : p.resume w s = some out) :
    v out.1 = v s ∧ out.2.1.Bystands v ∧ ∀ c ∈ out.2.2, c.2.Bystands v := by
  cases p with
  | ret a => simp [Prog.resume] at h
  | await site act next =>
    simp only [Prog.resume, Option.map_eq_some_iff] at h
    obtain ⟨⟨s', b⟩, ha, rfl⟩ := h
    obtain ⟨hv, hrest⟩ := (hp.2 b).settle s'
    exact ⟨hv.trans (hp.1 w s s' b ha), hrest⟩
  | sync act next =>
    cases h
    exact hp.settle s
  | spawn tag child next =>
    cases h
    exact hp.settle s
  | loop site b body next =>
    cases h
    refine (hp.1 b).bind (fun x => ?_) |>.settle s
    cases x with
    | inl b' => exact hp
    | inr c => exact hp.2 c

/-- A program that is the only one to touch what `v` shows takes `A` to `Q`. If
`hands`, a spawn may pass this right on to the child: then the rest stands by,
and the child has to leave `C` behind. Only choices of the world that are `fine`
count. -/
def Carries (v : σ → υ) (fine : ω → Prop) (C : υ → Prop) : {α : Type} → Prop →
    Prog κ τ ω σ α → (υ → Prop) → (α → υ → Prop) → Prop
  | _, _, .ret a, A, Q => ∀ u, A u → Q a u
  | _, hands, .await (β := β) _ act next, A, Q => ∃ M : β → υ → Prop,
      (∀ w s s' b, fine w → A (v s) → act w s = some (s', b) → M b (v s')) ∧
        ∀ b, Carries v fine C hands (next b) (M b) Q
  | _, hands, .sync (β := β) act next, A, Q => ∃ M : β → υ → Prop,
      (∀ s, A (v s) → M (act s).2 (v (act s).1)) ∧ ∀ b, Carries v fine C hands (next b) (M b) Q
  | _, hands, .spawn _ child next, A, Q =>
      (∀ u, ¬A u) ∨ child.Bystands v ∧ Carries v fine C hands next A Q ∨
        hands ∧ Carries v fine C True child A (fun _ => C) ∧ next.Bystands v
  | _, hands, .loop (β := β) (γ := γ) _ b body next, A, Q =>
      ∃ (I : β → υ → Prop) (M : γ → υ → Prop), (∀ u, A u → I b u) ∧
        (∀ b, Carries v fine C False (body b) (I b) (Sum.elim I M)) ∧
        ∀ c, Carries v fine C hands (next c) (M c) Q

variable {fine : ω → Prop} {C : υ → Prop} {hands hands' : Prop} {A A' : υ → Prop}

theorem Carries.mono {p : Prog κ τ ω σ α} {Q Q' : α → υ → Prop} (hp : p.Carries v fine C hands A Q)
    (hh : hands → hands') (hA : ∀ u, A' u → A u) (hQ : ∀ a u, Q a u → Q' a u) :
    p.Carries v fine C hands' A' Q' := by
  induction p generalizing A A' hands hands' with
  | ret a => exact fun u hu => hQ a u (hp u (hA u hu))
  | await site act next ih =>
    obtain ⟨M, hM, hn⟩ := hp
    exact ⟨M, fun w s s' b hw hs ha => hM w s s' b hw (hA _ hs) ha,
      fun b => ih b (hn b) hh (fun _ hu => hu) hQ⟩
  | sync act next ih =>
    obtain ⟨M, hM, hn⟩ := hp
    exact ⟨M, fun s hs => hM s (hA _ hs), fun b => ih b (hn b) hh (fun _ hu => hu) hQ⟩
  | spawn tag child next ihc ih =>
    rcases hp with hno | ⟨hc, hn⟩ | ⟨h, hc, hn⟩
    · exact .inl fun u hu => hno u (hA u hu)
    · exact .inr (.inl ⟨hc, ih hn hh hA hQ⟩)
    · exact .inr (.inr ⟨hh h, ihc hc (fun h => h) hA (fun _ _ hu => hu), hn⟩)
  | loop site b body next ihb ih =>
    obtain ⟨I, M, hI, hb, hn⟩ := hp
    exact ⟨I, M, fun u hu => hI u (hA u hu), hb, fun c => ih c (hn c) hh (fun _ hu => hu) hQ⟩

/-- Strengthen what is known before, weaken what is known after. -/
theorem Carries.weaken {p : Prog κ τ ω σ α} {Q Q' : α → υ → Prop}
    (hp : p.Carries v fine C hands A Q) (hA : ∀ u, A' u → A u) (hQ : ∀ a u, Q a u → Q' a u) :
    p.Carries v fine C hands A' Q' :=
  hp.mono (fun h => h) hA hQ

/-- Code may follow a program that passes its right on only if it stands by. -/
theorem Carries.bind {p : Prog κ τ ω σ α} {f : α → Prog κ τ ω σ β} {M : α → υ → Prop}
    {Q : β → υ → Prop} (hp : p.Carries v fine C hands A M)
    (hf : ∀ a, (f a).Carries v fine C hands' (M a) Q) (hh : hands → hands')
    (hb : hands → ∀ a, (f a).Bystands v) : (p.bind f).Carries v fine C hands' A Q := by
  induction p generalizing A with
  | ret a => exact (hf a).weaken hp (fun _ _ hu => hu)
  | await site act next ih =>
    obtain ⟨N, hN, hn⟩ := hp
    exact ⟨N, hN, fun b => ih b (hn b) hf hb⟩
  | sync act next ih =>
    obtain ⟨N, hN, hn⟩ := hp
    exact ⟨N, hN, fun b => ih b (hn b) hf hb⟩
  | spawn tag child next ihc ih =>
    rcases hp with hno | ⟨hc, hn⟩ | ⟨h, hc, hn⟩
    · exact .inl hno
    · exact .inr (.inl ⟨hc, ih hn hf hb⟩)
    · exact .inr (.inr ⟨hh h, hc, hn.bind (hb h)⟩)
  | loop site b body next ihb ih =>
    obtain ⟨I, N, hI, hbody, hn⟩ := hp
    exact ⟨I, N, hI, hbody, fun c => ih c (hn c) hf hb⟩

/-- Nothing has to be shown of code that is never reached. -/
theorem Carries.unreached (p : Prog κ τ ω σ α) (Q : α → υ → Prop) (hA : ∀ u, ¬A u) :
    p.Carries v fine C hands A Q := by
  induction p generalizing A hands with
  | ret a => exact fun u hu => (hA u hu).elim
  | await site act next ih =>
    exact ⟨fun _ _ => False, fun w s s' b _ hs _ => hA _ hs, fun b => ih b Q fun _ hu => hu⟩
  | sync act next ih => exact ⟨fun _ _ => False, fun s hs => hA _ hs, fun b => ih b Q fun _ hu => hu⟩
  | spawn tag child next ihc ih => exact .inl hA
  | loop site b body next ihb ih =>
    refine ⟨fun _ _ => False, fun _ _ => False, hA, fun b => ?_, fun c => ih c Q fun _ hu => hu⟩
    exact ihb b _ fun _ hu => hu

/-- The rule of sequence. -/
theorem Carries.andThen {p : Prog κ τ ω σ α} {f : α → Prog κ τ ω σ β} {M : α → υ → Prop}
    {Q : β → υ → Prop} (hp : p.Carries v fine C False A M)
    (hf : ∀ a, (f a).Carries v fine C hands (M a) Q) : (p.bind f).Carries v fine C hands A Q :=
  hp.bind hf False.elim False.elim

/-- A bystander changes nothing that is known. -/
theorem Bystands.carries {p : Prog κ τ ω σ α} (hp : p.Bystands v) (A : υ → Prop) :
    p.Carries v fine C hands A (fun _ => A) := by
  induction p generalizing hands with
  | ret a => exact fun _ hu => hu
  | await site act next ih =>
    refine ⟨fun _ => A, fun w s s' b _ hs ha => ?_, fun b => ih b (hp.2 b)⟩
    rw [hp.1 w s s' b ha]
    exact hs
  | sync act next ih =>
    refine ⟨fun _ => A, fun s hs => ?_, fun b => ih b (hp.2 b)⟩
    rw [hp.1 s]
    exact hs
  | spawn tag child next ihc ih => exact .inr (.inl ⟨hp.1, ih hp.2⟩)
  | loop site b body next ihb ih =>
    refine ⟨fun _ => A, fun _ => A, fun _ hu => hu, fun b => ?_, fun c => ih c (hp.2 c)⟩
    refine (ihb b (hp.1 b)).weaken (fun _ hu => hu) fun x u hu => ?_
    cases x with
    | inl b' => exact hu
    | inr c => exact hu

/-- What is known of some value may be shown value by value. -/
theorem Carries.exists {ι : Type} {p : Prog κ τ ω σ α} {A : ι → υ → Prop} {Q : α → υ → Prop}
    (hp : ∀ i, p.Carries v fine C False (A i) Q) :
    p.Carries v fine C False (fun u => ∃ i, A i u) Q := by
  induction p generalizing A with
  | ret a =>
    rintro u ⟨i, hu⟩
    exact hp i u hu
  | await site act next ih =>
    choose M hM hn using hp
    refine ⟨fun b u => ∃ i, M i b u, ?_, fun b => ih b fun i => hn i b⟩
    rintro w s s' b hw ⟨i, hs⟩ ha
    exact ⟨i, hM i w s s' b hw hs ha⟩
  | sync act next ih =>
    choose M hM hn using hp
    refine ⟨fun b u => ∃ i, M i b u, ?_, fun b => ih b fun i => hn i b⟩
    rintro s ⟨i, hs⟩
    exact ⟨i, hM i s hs⟩
  | spawn tag child next ihc ih =>
    by_cases hall : ∀ i u, ¬A i u
    · exact .inl fun u ⟨i, hu⟩ => hall i u hu
    push Not at hall
    obtain ⟨i, u, hu⟩ := hall
    have hchild : child.Bystands v := by
      rcases hp i with hno | ⟨hc, -⟩ | ⟨h, -⟩
      · exact absurd hu (hno u)
      · exact hc
      · exact h.elim
    refine .inr (.inl ⟨hchild, ih fun j => ?_⟩)
    rcases hp j with hno | ⟨-, hn⟩ | ⟨h, -⟩
    · exact .unreached next Q hno
    · exact hn
    · exact h.elim
  | loop site b body next ihb ih =>
    choose I M hI hb hn using hp
    refine ⟨fun b u => ∃ i, I i b u, fun c u => ∃ i, M i c u, ?_, fun b => ?_, fun c => ih c fun i => hn i c⟩
    · rintro u ⟨i, hu⟩
      exact ⟨i, hI i u hu⟩
    · refine ihb b fun i => (hb i b).weaken (fun _ hu => hu) fun x u hu => ?_
      cases x with
      | inl b' => exact ⟨i, hu⟩
      | inr c => exact ⟨i, hu⟩

/-- What a program leaves as it settles: it goes on from what is known, or one of
its children does, and all others stand by. -/
def Bears (v : σ → υ) (fine : ω → Prop) (C : υ → Prop) (hands : Prop) (Q : α → υ → Prop)
    (out : σ × Prog κ τ ω σ α × List (τ × Prog κ τ ω σ Unit)) : Prop :=
  (∃ A, out.2.1.Carries v fine C hands A Q ∧ A (v out.1) ∧ ∀ c ∈ out.2.2, c.2.Bystands v) ∨
    out.2.1.Bystands v ∧ ∃ (m : Nat) (c : τ × Prog κ τ ω σ Unit) (A : υ → Prop),
      out.2.2[m]? = some c ∧ c.2.Carries v fine C True A (fun _ => C) ∧ A (v out.1) ∧
        ∀ (j : Nat) d, out.2.2[j]? = some d → j ≠ m → d.2.Bystands v

theorem Carries.settle {p : Prog κ τ ω σ α} {Q : α → υ → Prop}
    (hp : p.Carries v fine C hands A Q) {s : σ} (hs : A (v s)) :
    Bears v fine C hands Q (p.settle s) := by
  induction p generalizing A s with
  | ret a => exact .inl ⟨A, hp, hs, fun _ hc => nomatch hc⟩
  | await site act next ih => exact .inl ⟨A, hp, hs, fun _ hc => nomatch hc⟩
  | loop site b body next ihb ih => exact .inl ⟨A, hp, hs, fun _ hc => nomatch hc⟩
  | sync act next ih =>
    obtain ⟨M, hM, hn⟩ := hp
    exact ih _ (hn _) (hM s hs)
  | spawn tag child next ihc ih =>
    rcases hp with hno | ⟨hc, hn⟩ | ⟨-, hc, hn⟩
    · exact absurd hs (hno _)
    · rcases ih hn hs with ⟨A', hrest, hs', hkids⟩ | ⟨hrest, m, c, A', hm, hbear, hs', hothers⟩
      · refine .inl ⟨A', hrest, hs', fun d hd => ?_⟩
        rcases List.mem_cons.mp hd with rfl | hd
        · exact hc
        · exact hkids d hd
      · refine .inr ⟨hrest, m + 1, c, A', hm, hbear, hs', fun j d hd hj => ?_⟩
        cases j with
        | zero =>
          cases hd
          exact hc
        | succ j => exact hothers j d hd fun he => hj (congrArg Nat.succ he)
    · obtain ⟨hv, hrest, hkids⟩ := hn.settle s
      refine .inr ⟨hrest, 0, (tag, child), A, rfl, hc, ?_, fun j d hd hj => ?_⟩
      · simp only [Prog.settle, hv]
        exact hs
      · cases j with
        | zero => exact absurd rfl hj
        | succ j => exact hkids d (List.mem_of_getElem? hd)

theorem Carries.resume {w : ω} {p : Prog κ τ ω σ α} {s : σ} {Q : α → υ → Prop}
    {out : σ × Prog κ τ ω σ α × List (τ × Prog κ τ ω σ Unit)}
    (hp : p.Carries v fine C hands A Q) (hs : A (v s)) (hw : fine w)
    (h : p.resume w s = some out) : Bears v fine C hands Q out := by
  cases p with
  | ret a => simp [Prog.resume] at h
  | await site act next =>
    simp only [Prog.resume, Option.map_eq_some_iff] at h
    obtain ⟨⟨s', b⟩, ha, rfl⟩ := h
    obtain ⟨M, hM, hn⟩ := hp
    exact (hn b).settle (hM w s s' b hw hs ha)
  | sync act next =>
    cases h
    exact hp.settle hs
  | spawn tag child next =>
    cases h
    exact hp.settle hs
  | loop site b body next =>
    cases h
    obtain ⟨I, M, hI, hb, hn⟩ := hp
    refine ((hb b).andThen fun x => ?_).settle (hI _ hs)
    cases x with
    | inl b' => exact ⟨I, M, fun _ hu => hu, hb, hn⟩
    | inr c => exact hn c

end Prog

namespace Pool

variable {κ τ ω σ υ q : Type} {v : σ → υ} {fine : ω → Prop} {C : υ → Prop}
  {entry : q → Thread κ τ ω σ} {p p' : Pool κ τ ω σ}

/-- No task has anything left to do. -/
def Idle (p : Pool κ τ ω σ) : Prop := ∀ t ∈ p.threads, t.finished = true

instance : DecidablePred (Idle : Pool κ τ ω σ → Prop) :=
  fun p => inferInstanceAs (Decidable (∀ t ∈ p.threads, t.finished = true))

/-- At most one task touches what `v` shows, and it will leave `C`. -/
def Relay (v : σ → υ) (fine : ω → Prop) (C : υ → Prop) (p : Pool κ τ ω σ) : Prop :=
  (∀ t ∈ p.threads, t.prog.Bystands v) ∧ C (v p.shared) ∨
    ∃ (k : Nat) (t : Thread κ τ ω σ) (A : υ → Prop), p.threads[k]? = some t ∧
      t.prog.Carries v fine C True A (fun _ => C) ∧ A (v p.shared) ∧
        ∀ (j : Nat) u, p.threads[j]? = some u → j ≠ k → u.prog.Bystands v

theorem bystands_of_finished {t : Thread κ τ ω σ} (h : t.finished = true) :
    t.prog.Bystands v := by
  obtain ⟨tag, prog⟩ := t
  cases prog with
  | ret a => trivial
  | _ => cases h

/-- With no task at work, what the last one left still stands. -/
theorem Relay.settled (h : Relay v fine C p) (hi : p.Idle) : C (v p.shared) := by
  rcases h with ⟨-, hc⟩ | ⟨k, ⟨tag, prog⟩, A, hk, ht, hs, -⟩
  · exact hc
  · have hfin := hi ⟨tag, prog⟩ (List.mem_of_getElem? hk)
    cases prog with
    | ret a => exact ht _ hs
    | _ => cases hfin

theorem getElem?_set_append {α : Type*} {l ks : List α} {i j : Nat} {x u : α}
    (h : (l.set i x ++ ks)[j]? = some u) :
    j ≠ i ∧ l[j]? = some u ∨ j = i ∧ u = x ∨ ∃ m, j = l.length + m ∧ ks[m]? = some u := by
  rcases Nat.lt_or_ge j l.length with hj | hj
  · rw [List.getElem?_append_left (by simpa using hj), List.getElem?_set] at h
    by_cases he : i = j
    · simp only [he, ↓reduceIte, hj, Option.some.injEq] at h
      exact .inr (.inl ⟨he.symm, h.symm⟩)
    · rw [if_neg he] at h
      exact .inl ⟨fun hji => he hji.symm, h⟩
  · rw [List.getElem?_append_right (by simpa using hj), List.length_set] at h
    exact .inr (.inr ⟨j - l.length, (Nat.add_sub_cancel' hj).symm, h⟩)

variable {ths : List (Thread κ τ ω σ)} {i : Nat} {tag : τ} {rest : Prog κ τ ω σ Unit}
  {kids : List (τ × Prog κ τ ω σ Unit)}

/-- A step after which all but the task at index `k` stand by, as they did before. -/
theorem others_bystand {k : Nat}
    (hothers : ∀ (j : Nat) u, ths[j]? = some u → j ≠ k → u.prog.Bystands v)
    (hrest : i ≠ k → rest.Bystands v) (hkids : ∀ c ∈ kids, c.2.Bystands v) (j : Nat)
    (u : Thread κ τ ω σ)
    (hj : (ths.set i ⟨tag, rest⟩ ++ kids.map (fun c => ⟨c.1, c.2⟩))[j]? = some u)
    (hjk : j ≠ k) : u.prog.Bystands v := by
  rcases getElem?_set_append hj with ⟨-, hu⟩ | ⟨rfl, rfl⟩ | ⟨m, -, hu⟩
  · exact hothers j u hu hjk
  · exact hrest hjk
  · obtain ⟨c, hc, rfl⟩ := List.mem_map.mp (List.mem_of_getElem? hu)
    exact hkids c hc

/-- The one task at work takes a step. -/
theorem Relay.of_bears (tag : τ) {s : σ} (hi : i < ths.length)
    (hothers : ∀ (j : Nat) u, ths[j]? = some u → j ≠ i → u.prog.Bystands v)
    (hout : Prog.Bears v fine C True (fun _ => C) (s, rest, kids)) :
    Relay v fine C
      { shared := s, threads := ths.set i ⟨tag, rest⟩ ++ kids.map (fun c => ⟨c.1, c.2⟩) } := by
  rcases hout with ⟨A, hgo, hs, hkids⟩ | ⟨hrest, m, c, A, hm, hgo, hs, hsib⟩
  · refine .inr ⟨i, ⟨tag, rest⟩, A, ?_, hgo, hs,
      others_bystand hothers (fun he => absurd rfl he) hkids⟩
    rw [List.getElem?_append_left (by simpa using hi)]
    simp [hi]
  · -- The child that goes on is the `m`-th new task.
    refine .inr ⟨ths.length + m, ⟨c.1, c.2⟩, A, ?_, hgo, hs, fun j u hj hjm => ?_⟩
    · dsimp only at hm
      rw [List.getElem?_append_right (by simp)]
      simp [hm]
    · rcases getElem?_set_append hj with ⟨hji, hu⟩ | ⟨-, rfl⟩ | ⟨n, hjn, hu⟩
      · exact hothers j u hu hji
      · exact hrest
      · rw [List.getElem?_map, Option.map_eq_some_iff] at hu
        obtain ⟨d, hd, rfl⟩ := hu
        exact hsib n d hd fun he => hjm (by rw [hjn, he])

/-- One step of the scheduler. -/
theorem Relay.run {w : ω} (h : Relay v fine C p) (hw : fine w)
    (hf : p.fire entry (.run i w) = some p') : Relay v fine C p' := by
  simp only [fire] at hf
  split at hf
  · cases hf
  rename_i t hi
  obtain ⟨⟨s', rest, kids⟩, hout, rfl⟩ := Option.map_eq_some_iff.mp hf
  rcases h with ⟨hall, hc⟩ | ⟨k, tk, A, hk, hcarry, hs, hothers⟩
  · obtain ⟨hv, hrest, hkids⟩ := (hall t (List.mem_of_getElem? hi)).resume hout
    refine .inl ⟨fun u hu => ?_, hv ▸ hc⟩
    rcases List.mem_append.mp hu with hu | hu
    · rcases List.mem_or_eq_of_mem_set hu with hu | rfl
      · exact hall u hu
      · exact hrest
    · obtain ⟨c, hc', rfl⟩ := List.mem_map.mp hu
      exact hkids c hc'
  by_cases hki : i = k
  · subst hki
    rw [hi] at hk
    cases hk
    exact .of_bears t.tag (List.getElem?_eq_some_iff.mp hi).1 hothers (hcarry.resume hs hw hout)
  · obtain ⟨hv, hrest, hkids⟩ := (hothers i t hi hki).resume hout
    refine .inr ⟨k, tk, A, ?_, hcarry, hv ▸ hs, others_bystand hothers (fun _ => hrest) hkids⟩
    have hkl := (List.getElem?_eq_some_iff.mp hk).1
    rw [List.getElem?_append_left (by simpa using hkl), List.getElem?_set_ne hki, hk]

/-- With no task at work, one is admitted and takes it from there. -/
theorem Relay.arrive {request : q} {A : υ → Prop} (h : Relay v fine C p) (hi : p.Idle)
    (hA : C (v p.shared) → A (v p.shared))
    (hgo : (entry request).prog.Carries v fine C True A (fun _ => C))
    (hf : p.fire (ω := ω) entry (.arrive request) = some p') : Relay v fine C p' := by
  simp only [fire, Option.some.injEq] at hf
  subst hf
  have hothers : ∀ (j : Nat) u, (p.threads ++ [entry request])[j]? = some u → j ≠ p.threads.length →
      u.prog.Bystands v := by
    intro j u hj hjl
    have hlt := (List.getElem?_eq_some_iff.mp hj).1
    rw [List.length_append, List.length_singleton] at hlt
    rw [List.getElem?_append_left (by omega)] at hj
    exact bystands_of_finished (hi u (List.mem_of_getElem? hj))
  have hrelay := Relay.of_bears (entry request).tag (by simp) hothers (hgo.settle (hA (h.settled hi)))
  rw [List.set_append_right _ _ (Nat.le_refl _), Nat.sub_self, List.append_assoc] at hrelay
  exact hrelay

/-- Requests that come one at a time, each of them leaving `C`, leave `C` behind
whenever there is no task at work. -/
theorem Relay.reaches {good : Pool κ τ ω σ → Event ω q → Prop}
    (harrive : ∀ p request, good p (.arrive request) → p.Idle ∧ ∃ A : υ → Prop,
      (C (v p.shared) → A (v p.shared)) ∧ (entry request).prog.Carries v fine C True A (fun _ => C))
    (hrun : ∀ p i w, good p (.run i w) → fine w) (h : p.Reaches entry good p')
    (hp : Relay v fine C p) : Relay v fine C p' := by
  induction h with
  | refl => exact hp
  | tail _ hstep ih =>
    obtain ⟨e, hg, hf⟩ := hstep
    cases e with
    | arrive request =>
      obtain ⟨hi, A, hA, hgo⟩ := harrive _ request hg
      exact ih.arrive hi hA hgo hf
    | run i w => exact ih.run (hrun _ i w hg) hf

end Pool

end Coop
