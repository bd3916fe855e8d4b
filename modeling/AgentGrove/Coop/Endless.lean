import AgentGrove.Coop.Census
import AgentGrove.Coop.Pool
import Mathlib.Data.Nat.Init

namespace Coop

/-- The ranking rule. A bound that never rises, and falls at steps that come
again and again until the end, leads to the end. -/
theorem ends_by_rank {N : Nat} {ended falls : Nat → Prop} {Bound : Nat → Nat → Prop}
    (hkeep : ∀ n k, N ≤ n → ¬ ended n → Bound n k → Bound (n + 1) k)
    (hfall : ∀ n k, N ≤ n → ¬ ended n → falls n → Bound n k → ∃ j, j < k ∧ Bound (n + 1) j)
    (hcome : ∀ n, N ≤ n → ∃ m, n ≤ m ∧ (ended m ∨ falls m)) {n k : Nat} (hn : N ≤ n)
    (hb : Bound n k) : ∃ m, n ≤ m ∧ ended m := by
  induction k using Nat.strongRecOn generalizing n with
  | ind k ih =>
  obtain ⟨m, hnm, hm⟩ := hcome n hn
  -- Either the end comes before `m` or the bound is still in force there.
  have hwait : ∀ d, (∃ m', n ≤ m' ∧ ended m') ∨ Bound (n + d) k := by
    intro d
    induction d with
    | zero => exact .inr hb
    | succ d ihd =>
      rcases ihd with hend | hd
      · exact .inl hend
      · by_cases he : ended (n + d)
        · exact .inl ⟨n + d, Nat.le_add_right n d, he⟩
        · exact .inr (hkeep (n + d) k (by omega) he hd)
  rcases hwait (m - n) with hend | hd
  · exact hend
  have hmn : n + (m - n) = m := by omega
  rw [hmn] at hd
  by_cases he : ended m
  · exact ⟨m, hnm, he⟩
  obtain ⟨j, hj, hjb⟩ := hfall m k (by omega) he (hm.resolve_left he) hd
  obtain ⟨m', hm', he'⟩ := ih j hj (n := m + 1) (by omega) hjb
  exact ⟨m', by omega, he'⟩

namespace Pool

variable {κ τ ω σ q : Type} {entry : q → Thread κ τ ω σ} {p p' : Pool κ τ ω σ} {i : Nat}
  {t : Thread κ τ ω σ} {e : Event ω q} {w : ω}

/-- The task at an index has ended. -/
def Ended (p : Pool κ τ ω σ) (i : Nat) : Prop := ∃ t, p.threads[i]? = some t ∧ t.finished = true

/-- Another task's step leaves a task as it was. -/
theorem fire_other (h : p.fire entry e = some p') (ht : p.threads[i]? = some t)
    (hne : ∀ w, e ≠ .run i w) : p'.threads[i]? = some t := by
  have hl := (List.getElem?_eq_some_iff.mp ht).1
  cases e with
  | arrive request =>
    simp only [fire, Option.some.injEq] at h
    subst h
    dsimp only
    rw [List.getElem?_append_left hl]
    exact ht
  | run j w =>
    have hji : j ≠ i := by
      rintro rfl
      exact hne w rfl
    simp only [fire] at h
    split at h
    · cases h
    · obtain ⟨out, -, rfl⟩ := Option.map_eq_some_iff.mp h
      dsimp only
      rw [List.getElem?_append_left (by simpa using hl), List.getElem?_set_ne hji]
      exact ht

/-- A task's own step. -/
theorem fire_own (h : p.fire entry (.run i w) = some p') (ht : p.threads[i]? = some t) :
    ∃ out, t.prog.resume w p.shared = some out ∧ p'.shared = out.1 ∧
      p'.threads[i]? = some ⟨t.tag, out.2.1⟩ := by
  have hl := (List.getElem?_eq_some_iff.mp ht).1
  simp only [fire, ht] at h
  obtain ⟨out, hout, rfl⟩ := Option.map_eq_some_iff.mp h
  refine ⟨out, hout, rfl, ?_⟩
  dsimp only
  rw [List.getElem?_append_left (by simpa using hl)]
  exact List.getElem?_set_self hl

/-- A task that has ended takes no step. -/
theorem Ended.no_step (h : p.Ended i) (hf : p.fire entry e = some p') (w : ω) : e ≠ .run i w := by
  rintro rfl
  obtain ⟨⟨tag, prog⟩, ht, hfin⟩ := h
  obtain ⟨out, hout, -, -⟩ := fire_own hf ht
  cases prog with
  | ret a => cases hout
  | _ => cases hfin

theorem Ended.stays (h : p.Ended i) (hf : p.fire entry e = some p') : p'.Ended i := by
  obtain ⟨t, ht, hfin⟩ := h
  exact ⟨t, fire_other hf ht (Ended.no_step ⟨t, ht, hfin⟩ hf), hfin⟩

/-- A step keeps every task in its place under its tag. -/
theorem fire_tag (h : p.fire entry e = some p') (ht : p.threads[i]? = some t) :
    ∃ t', p'.threads[i]? = some t' ∧ t'.tag = t.tag := by
  by_cases hrun : ∃ w, e = .run i w
  · obtain ⟨w, rfl⟩ := hrun
    obtain ⟨out, -, -, ht'⟩ := fire_own h ht
    exact ⟨_, ht', rfl⟩
  · exact ⟨t, fire_other h ht fun w he => hrun ⟨w, he⟩, rfl⟩

/-- A run without end. -/
def Endless (entry : q → Thread κ τ ω σ) (run : Nat → Pool κ τ ω σ) (events : Nat → Event ω q) :
    Prop :=
  ∀ n, (run n).fire entry (events n) = some (run (n + 1))

/-- The scheduler comes back to a task until it has ended. -/
def Fair (run : Nat → Pool κ τ ω σ) (events : Nat → Event ω q) (i : Nat) : Prop :=
  ∀ n, ∃ m, n ≤ m ∧ ((run m).Ended i ∨ ∃ w, events m = .run i w)

section Endless

variable {run : Nat → Pool κ τ ω σ} {events : Nat → Event ω q} {n m : Nat}
  (hrun : Endless entry run events)
include hrun

theorem Endless.reaches (n : Nat) : Reaches entry anyStep (run 0) (run n) := by
  induction n with
  | zero => exact .refl
  | succ n ih => exact ih.tail ⟨events n, trivial, hrun n⟩

theorem Endless.ended (h : (run n).Ended i) (hnm : n ≤ m) : (run m).Ended i := by
  induction m, hnm using Nat.le_induction with
  | base => exact h
  | succ m _ ih => exact ih.stays (hrun m)

theorem Endless.tag (h : (run n).threads[i]? = some t) (hnm : n ≤ m) :
    ∃ t', (run m).threads[i]? = some t' ∧ t'.tag = t.tag := by
  induction m, hnm using Nat.le_induction with
  | base => exact ⟨t, h, rfl⟩
  | succ m _ ih =>
    obtain ⟨t', ht', he⟩ := ih
    obtain ⟨t'', ht'', he'⟩ := fire_tag (hrun m) ht'
    exact ⟨t'', ht'', he'.trans he⟩

/-- Until its next step a task rests where it is. -/
theorem Endless.next_step (hfair : Fair run events i) (ht : (run n).threads[i]? = some t)
    (hfin : t.finished = false) :
    ∃ m w, n ≤ m ∧ (run m).threads[i]? = some t ∧ events m = .run i w := by
  obtain ⟨m, hnm, hm⟩ := hfair n
  -- The first step of the task from `n` on, if it has one before `m`.
  have hwait : ∀ d, (∃ m w, n ≤ m ∧ (run m).threads[i]? = some t ∧ events m = .run i w) ∨
      (run (n + d)).threads[i]? = some t := by
    intro d
    induction d with
    | zero => exact .inr ht
    | succ d ih =>
      rcases ih with hdone | hd
      · exact .inl hdone
      · by_cases he : ∃ w, events (n + d) = .run i w
        · obtain ⟨w, hw⟩ := he
          exact .inl ⟨n + d, w, Nat.le_add_right n d, hd, hw⟩
        · exact .inr (fire_other (hrun (n + d)) hd fun w hw => he ⟨w, hw⟩)
  rcases hwait (m - n) with hdone | hd
  · exact hdone
  have hmn : n + (m - n) = m := by omega
  rw [hmn] at hd
  rcases hm with ⟨t', ht', hfin'⟩ | ⟨w, hw⟩
  · rw [hd] at ht'
    cases ht'
    rw [hfin] at hfin'
    cases hfin'
  · exact ⟨m, w, hnm, hd, hw⟩

end Endless

section Lasso

/-- The states a schedule without end passes through, standing still where it
cannot be played. -/
def trace (entry : q → Thread κ τ ω σ) (p : Pool κ τ ω σ) (events : Nat → Event ω q) :
    Nat → Pool κ τ ω σ
  | 0 => p
  | n + 1 => ((trace entry p events n).fire entry (events n)).getD (trace entry p events n)

/-- Play a stem once and then a cycle for ever. -/
def lasso (stem : List (Event ω q)) (e : Event ω q) (es : List (Event ω q)) (n : Nat) :
    Event ω q :=
  if n < stem.length then stem.getD n e
  else (e :: es).getD ((n - stem.length) % (es.length + 1)) e

variable {good : Pool κ τ ω σ → Event ω q → Prop} [∀ p e, Decidable (good p e)]
  {events : Nat → Event ω q}

/-- Along a list that can be played every step fires and is good. -/
theorem trace_play {es : List (Event ω q)} {n : Nat} {p₀ : Pool κ τ ω σ}
    (hp : trace entry p₀ events n = p) (hes : ∀ k, k < es.length → es[k]? = some (events (n + k)))
    (h : p.play entry good es = some p') :
    trace entry p₀ events (n + es.length) = p' ∧ ∀ k, k < es.length →
      good (trace entry p₀ events (n + k)) (events (n + k)) ∧
      (trace entry p₀ events (n + k)).fire entry (events (n + k)) =
        some (trace entry p₀ events (n + k + 1)) := by
  induction es generalizing n p with
  | nil =>
    simp only [play, Option.some.injEq] at h
    exact ⟨hp.trans h, by simp⟩
  | cons e es ih =>
    have he : e = events n := by simpa using hes 0 (by simp)
    simp only [play] at h
    split at h
    · rename_i hg
      split at h
      · cases h
      · rename_i p₁ hf
        have hnext : trace entry p₀ events (n + 1) = p₁ := by
          simp only [trace, hp, ← he, hf, Option.getD_some]
        obtain ⟨hend, hall⟩ := ih hnext (by
          intro k hk
          have := hes (k + 1) (by simpa using hk)
          simpa [Nat.add_assoc, Nat.add_comm 1 k] using this) h
        constructor
        · rw [← hend, List.length_cons]
          congr 1
          omega
        · intro k hk
          cases k with
          | zero =>
            simp only [Nat.add_zero]
            rw [hnext, hp, ← he]
            exact ⟨hg, hf⟩
          | succ k =>
            have := hall k (by simpa using hk)
            simpa [Nat.add_assoc, Nat.add_comm 1 k] using this
    · cases h

theorem lasso_stem {stem es : List (Event ω q)} {k : Nat} (hk : k < stem.length) :
    stem[k]? = some (lasso stem e es k) := by
  simp [lasso, hk]

theorem lasso_cycle {stem es : List (Event ω q)} {j k : Nat} (hk : k < (e :: es).length) :
    (e :: es)[k]? = some (lasso stem e es (stem.length + j * (es.length + 1) + k)) := by
  have hk' : k < es.length + 1 := hk
  have hnot : ¬ stem.length + j * (es.length + 1) + k < stem.length := by omega
  have hmod : (stem.length + j * (es.length + 1) + k - stem.length) % (es.length + 1) = k := by
    rw [Nat.add_assoc, Nat.add_sub_cancel_left, Nat.add_comm, Nat.add_mul_mod_self_right,
      Nat.mod_eq_of_lt hk']
  simp [lasso, hnot, hmod, hk']

/-- Every turn of a cycle that ends where it began is played like the first. -/
theorem trace_cycle {stem es : List (Event ω q)} {p₀ : Pool κ τ ω σ}
    (hp : trace entry p₀ (lasso stem e es) stem.length = p)
    (hcycle : p.play entry good (e :: es) = some p) {n : Nat} (hn : stem.length ≤ n) :
    good (trace entry p₀ (lasso stem e es) n) (lasso stem e es n) ∧
      (trace entry p₀ (lasso stem e es) n).fire entry (lasso stem e es n) =
        some (trace entry p₀ (lasso stem e es) (n + 1)) := by
  have hturn : ∀ j, trace entry p₀ (lasso stem e es) (stem.length + j * (es.length + 1)) = p := by
    intro j
    induction j with
    | zero => simpa using hp
    | succ j ih =>
      have := (trace_play ih (fun k => lasso_cycle) hcycle).1
      rw [List.length_cons] at this
      rw [Nat.succ_mul, ← Nat.add_assoc, this]
  have hdiv := Nat.div_add_mod (n - stem.length) (es.length + 1)
  rw [Nat.mul_comm] at hdiv
  have hlt := Nat.mod_lt (n - stem.length) (Nat.succ_pos es.length)
  have hstep := (trace_play (hturn ((n - stem.length) / (es.length + 1)))
    (fun k => lasso_cycle) hcycle).2 ((n - stem.length) % (es.length + 1)) hlt
  have hn' : stem.length + (n - stem.length) / (es.length + 1) * (es.length + 1) +
      (n - stem.length) % (es.length + 1) = n := by omega
  rw [hn'] at hstep
  exact hstep

variable {good' : Pool κ τ ω σ → Event ω q → Prop} [∀ p e, Decidable (good' p e)]
  {pre mid : List (Event ω q)} {es : List (Event ω q)} {p₁ p₂ : Pool κ τ ω σ}

/-- A lasso is a run without end, and what its cycle and the second part of its
stem are checked for holds from the end of the first part on. -/
theorem lasso_endless (hpre : p.play entry good' pre = some p₁)
    (hmid : p₁.play entry good mid = some p₂) (hcycle : p₂.play entry good (e :: es) = some p₂) :
    Endless entry (trace entry p (lasso (pre ++ mid) e es)) (lasso (pre ++ mid) e es) ∧
      trace entry p (lasso (pre ++ mid) e es) pre.length = p₁ ∧
      trace entry p (lasso (pre ++ mid) e es) (pre ++ mid).length = p₂ ∧
      ∀ n, pre.length ≤ n → good (trace entry p (lasso (pre ++ mid) e es) n)
        (lasso (pre ++ mid) e es n) := by
  have hlen : (pre ++ mid).length = pre.length + mid.length := List.length_append
  have hfirst : ∀ k, k < pre.length → pre[k]? = some (lasso (pre ++ mid) e es (0 + k)) := by
    intro k hk
    have hstem : (pre ++ mid)[k]? = some (lasso (pre ++ mid) e es k) := lasso_stem (by omega)
    rw [List.getElem?_append_left hk] at hstem
    simpa using hstem
  have hstart : trace entry p (lasso (pre ++ mid) e es) 0 = p := rfl
  obtain ⟨h₁, hall₁⟩ := trace_play hstart hfirst hpre
  rw [Nat.zero_add] at h₁
  obtain ⟨h₂, hall₂⟩ := trace_play h₁ (by
    intro k hk
    have hstem : (pre ++ mid)[pre.length + k]? =
        some (lasso (pre ++ mid) e es (pre.length + k)) := lasso_stem (by omega)
    rw [List.getElem?_append_right (by omega)] at hstem
    simpa using hstem) hmid
  rw [← hlen] at h₂
  have hlate : ∀ n, pre.length ≤ n →
      good (trace entry p (lasso (pre ++ mid) e es) n) (lasso (pre ++ mid) e es n) ∧
      (trace entry p (lasso (pre ++ mid) e es) n).fire entry (lasso (pre ++ mid) e es n) =
        some (trace entry p (lasso (pre ++ mid) e es) (n + 1)) := by
    intro n hlo
    rcases Nat.lt_or_ge n (pre ++ mid).length with hhi | hhi
    · have := hall₂ (n - pre.length) (by omega)
      have hn : pre.length + (n - pre.length) = n := by omega
      rw [hn] at this
      exact this
    · exact trace_cycle h₂ hcycle hhi
  refine ⟨fun n => ?_, h₁, h₂, fun n hn => (hlate n hn).1⟩
  rcases Nat.lt_or_ge n pre.length with hlt | hge
  · have := (hall₁ n hlt).2
    simpa using this
  · exact (hlate n hge).2

end Lasso

end Pool

end Coop
