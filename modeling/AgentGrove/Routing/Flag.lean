import AgentGrove.Coop.Census
import AgentGrove.Routing.Walk

namespace AgentGrove

open Coop

/-- A task that answers for the flag of a chat: a live one, or a handler that
took the flag and has yet to spawn the task it took it for. -/
def Committed (t : Task) (c : Uuid) : Prop :=
  Live t c ∨ t.tag = .handler c ∧ t.site.any Site.claims = true

instance (t : Task) (c : Uuid) : Decidable (Committed t c) := inferInstanceAs (Decidable (_ ∨ _))

theorem RestsTask.owns {c : Uuid} {x : Site} {r : Role} (h : RestsTask c x r) :
    r.owns = some c := by
  cases r with
  | task d => exact congrArg some h.1
  | carrying d id => exact congrArg some h.1
  | clearing d => exact congrArg some h.1
  | _ => exact h.elim

/-- A live task answers for its chat's flag. -/
theorem live_owns {t : Task} {r : Role} {c : Uuid} (ho : routing.Obeys t r) (h : Live t c) :
    r.owns = some c := by
  obtain ⟨htag, hfin⟩ := h
  obtain ⟨x, hx⟩ := site_of_unfinished ho.1 hfin
  have hrest : Rests t.tag t.site r := ho.rests
  rw [hx] at hrest
  rcases htag with ht | ht
  · rw [ht] at hrest
    exact RestsTask.owns hrest
  · rw [ht] at hrest
    exact RestsTask.owns hrest

theorem RestsHandler.owns {c d : Uuid} {x : Site} {r : Role} (h : RestsHandler d x r)
    (ho : r.owns = some c) : c = d ∧ x.claims = true := by
  cases r with
  | numbered e n =>
    obtain ⟨rfl, rfl⟩ := h
    cases ho
    exact ⟨rfl, rfl⟩
  | claiming e =>
    cases ho
    exact ⟨Option.some.inj h.1, h.2.2.symm⟩
  | claimed e =>
    cases ho
    exact ⟨Option.some.inj h.1, h.2.2.symm⟩
  | promised e =>
    cases ho
    exact ⟨Option.some.inj h.1, h.2.2.symm⟩
  | task e => exact h.elim
  | carrying e id => exact h.elim
  | clearing e => exact h.elim
  | leaving e => exact h.elim
  | _ => cases ho

/-- A handler that waits where one has taken the flag has taken it. -/
theorem RestsHandler.owns_of_claims {c : Uuid} {x : Site} {r : Role} (h : RestsHandler c x r)
    (hx : x.claims = true) : r.owns = some c := by
  cases r with
  | other =>
    obtain ⟨fn, d, call⟩ := x
    cases fn <;> simp [RestsHandler, Fn.routes, Site.claims] at h hx
  | numbered d n => exact congrArg some h.1
  | task d => exact h.elim
  | carrying d id => exact h.elim
  | clearing d => exact h.elim
  | leaving d => exact h.elim
  | removing d => exact h.elim
  | freed d => exact h.elim
  | claiming d => exact h.1
  | claimed d => exact h.1
  | promised d => exact h.1
  | _ =>
    have : false = x.claims := h.2.2
    rw [hx] at this
    cases this

/-- At rest, whoever answers for a flag shows it by where it waits. -/
theorem owner_committed {t : Task} {r : Role} {c : Uuid} (hrest : Rests t.tag t.site r)
    (ho : r.owns = some c) : Committed t c := by
  cases hs : t.site with
  | none =>
    rw [hs] at hrest
    cases ht : t.tag with
    | handler d =>
      rw [ht] at hrest
      rcases hrest with rfl | rfl <;> cases ho
    | dispatch d =>
      rw [ht] at hrest
      cases hrest
      cases ho
    | drain d =>
      rw [ht] at hrest
      cases hrest
      cases ho
    | guard d =>
      rw [ht] at hrest
      cases hrest
      cases ho
  | some x =>
    have hfin := finished_of_site hs
    rw [hs] at hrest
    cases ht : t.tag with
    | handler d =>
      rw [ht] at hrest
      obtain ⟨rfl, hx⟩ := RestsHandler.owns hrest ho
      exact .inr ⟨ht, by rw [hs]; exact hx⟩
    | dispatch d =>
      rw [ht] at hrest
      cases ho.symm.trans (RestsTask.owns hrest)
      exact .inl ⟨.inl ht, hfin⟩
    | drain d =>
      rw [ht] at hrest
      cases ho.symm.trans (RestsTask.owns hrest)
      exact .inl ⟨.inr ht, hfin⟩
    | guard d =>
      rw [ht] at hrest
      obtain ⟨rfl, -⟩ := hrest
      cases ho

/-- Whoever shows to answer for a flag has the role of an owner. -/
theorem committed_owns {t : Task} {r : Role} {c : Uuid} (ho : routing.Obeys t r)
    (h : Committed t c) : r.owns = some c := by
  rcases h with h | ⟨htag, hsite⟩
  · exact live_owns ho h
  · obtain ⟨x, hx, hcl⟩ := (Option.any_eq_true _ _).mp hsite
    have hrest : Rests t.tag t.site r := ho.rests
    rw [htag, hx] at hrest
    exact RestsHandler.owns_of_claims hrest hcl

/-- The chat whose flag a role takes for clear. -/
def Role.trusts : Role → Option Uuid
  | .forcing c => some c
  | r => r.sawClear

def owners (c : Uuid) (roles : List Role) : Nat := roles.countP (fun r => r.owns = some c)

/-- The lock excludes, every owner has its flag set and shares it with nobody,
and whoever is about to take a flag does so while it is clear. -/
structure FlagOwned (s : AppState) (roles : List Role) : Prop where
  held : roles.countP Role.holds ≤ s.routingLock.toNat
  owned : ∀ c, owners c roles ≤ if c ∈ s.dispatching then 1 else 0
  unseen : ∀ r ∈ roles, ∀ c, r.trusts = some c → c ∉ s.dispatching
  stray : ∀ c, .removing c ∈ roles → owners c roles = 0

section Counting

variable {s s' : AppState} {roles : List Role} {i : Nat} {r r' : Role} {c : Uuid}

theorem owners_set (hi : roles[i]? = some r) (c : Uuid) (r' : Role) :
    owners c (roles.set i r') + (decide (r.owns = some c)).toNat =
      owners c roles + (decide (r'.owns = some c)).toNat :=
  countP_set_add hi _ _

theorem owners_set_le {q : Role} (hi : roles[i]? = some r)
    (h : ∀ c, q.owns = some c → r.owns = some c) (c : Uuid) :
    owners c (roles.set i q) ≤ owners c roles := by
  have hset := owners_set hi c q
  by_cases h' : q.owns = some c
  · simp only [h', h c h', decide_true] at hset
    omega
  · simp only [h', decide_false, Bool.toNat_false] at hset
    omega

theorem holds_set_le {q : Role} (hi : roles[i]? = some r) (h : q.holds = true → r.holds = true) :
    (roles.set i q).countP Role.holds ≤ roles.countP Role.holds := by
  have hset := countP_set_add hi Role.holds q
  cases hr' : q.holds with
  | false =>
    rw [hr'] at hset
    simp only [Bool.toNat_false] at hset
    omega
  | true =>
    rw [hr', h hr'] at hset
    omega

/-- Two different holders of the lock cannot be. -/
theorem holders_eq (h : roles.countP Role.holds ≤ 1) (hr : r ∈ roles) (hr' : r' ∈ roles)
    (hh : r.holds = true) (hh' : r'.holds = true) : r = r' := by
  by_contra hne
  have := two_le_countP (p := Role.holds) hr hr' hne hh hh'
  omega

theorem toNat_le_one (b : Bool) : b.toNat ≤ 1 := by cases b <;> decide

namespace FlagOwned

/-- Moves that gain nothing and leave lock and flags alone. -/
theorem keep (h : FlagOwned s roles) (hi : roles[i]? = some r)
    (hd : s'.dispatching = s.dispatching) (hl : s'.routingLock = s.routingLock)
    (hholds : r'.holds = true → r.holds = true)
    (howns : ∀ c, r'.owns = some c → r.owns = some c)
    (htrusts : ∀ c, r'.trusts = some c → c ∉ s.dispatching)
    (hstray : ∀ c, r' = .removing c → r = .removing c) : FlagOwned s' (roles.set i r') := by
  refine ⟨?_, fun c => ?_, fun x hx c hc => ?_, fun c hc => ?_⟩
  · rw [hl]
    exact Nat.le_trans (holds_set_le hi hholds) h.held
  · rw [hd]
    exact Nat.le_trans (owners_set_le hi howns c) (h.owned c)
  · rw [hd]
    rcases mem_set hx with rfl | hx
    · exact htrusts c hc
    · exact h.unseen x hx c hc
  · have hm : .removing c ∈ roles := by
      rcases mem_set hc with he | hm
      · exact hstray c he.symm ▸ mem_of_get hi
      · exact hm
    have := owners_set_le hi howns c
    have := h.stray c hm
    omega

/-- Moves that also keep the role. -/
theorem same (h : FlagOwned s roles) (hi : roles[i]? = some r)
    (hd : s'.dispatching = s.dispatching) (hl : s'.routingLock = s.routingLock) :
    FlagOwned s' (roles.set i r) :=
  h.keep hi hd hl id (fun _ => id) (h.unseen r (mem_of_get hi)) fun _ => id

theorem unlock (h : FlagOwned s roles) (hi : roles[i]? = some r) (hu : Unlocks r r') :
    FlagOwned (unlocked s) (roles.set i r') := by
  have hmem := mem_of_get hi
  have hfacts : r.holds = true ∧ r'.holds = false ∧ r'.owns = r.owns ∧ r'.trusts = none ∧
      ∀ c, r' ≠ .removing c := by
    cases hu <;> exact ⟨rfl, rfl, rfl, rfl, by simp⟩
  obtain ⟨hr, hr', howns, htrusts, hrem⟩ := hfacts
  have hkeep : FlagOwned s (roles.set i r') :=
    h.keep hi rfl rfl (by simp [hr']) (by simp [howns]) (by simp [htrusts])
      fun c hc => absurd hc (hrem c)
  refine ⟨?_, hkeep.owned, hkeep.unseen, hkeep.stray⟩
  have hset := countP_set_add hi Role.holds r'
  rw [hr, hr'] at hset
  have := h.held
  have := toNat_le_one s.routingLock
  simp only [Bool.toNat_true, Bool.toNat_false] at hset
  simp only [unlocked, Bool.toNat_false]
  omega

theorem look (h : FlagOwned s roles) (hi : roles[i]? = some r)
    (hl : Looks c (decide (c ∈ s.dispatching)) r r') : FlagOwned s (roles.set i r') := by
  have hnone : ∀ {d : Uuid}, (none : Option Uuid) = some d → d ∉ s.dispatching := by simp
  generalize hb : decide (c ∈ s.dispatching) = b' at hl
  cases hl with
  | admittedBusy => exact h.keep hi rfl rfl id (fun _ => id) (fun _ => hnone) (by simp)
  | holdingBusy => exact h.keep hi rfl rfl id (fun _ => id) (fun _ => hnone) (by simp)
  | kickBusy => exact h.keep hi rfl rfl id (fun _ => id) (fun _ => hnone) (by simp)
  | admittedClear =>
    refine h.keep hi rfl rfl id (fun _ => id) ?_ (by simp)
    rintro _ ⟨⟩
    simpa using hb
  | holdingClear =>
    refine h.keep hi rfl rfl id (fun _ => id) ?_ (by simp)
    rintro _ ⟨⟩
    simpa using hb
  | kickClear =>
    refine h.keep hi rfl rfl id (fun _ => id) ?_ (by simp)
    rintro _ ⟨⟩
    simpa using hb

theorem take (h : FlagOwned s roles) (hi : roles[i]? = some r) (ht : Takes c r r') :
    FlagOwned (flagged c s) (roles.set i r') := by
  have hmem := mem_of_get hi
  have hfacts : r.holds = true ∧ r'.holds = true ∧ r.owns = none ∧ r'.owns = some c ∧
      r.trusts = some c ∧ r'.trusts = none ∧ ∀ d, r' ≠ .removing d := by
    cases ht <;> exact ⟨rfl, rfl, rfl, rfl, rfl, rfl, by simp⟩
  obtain ⟨hr, hr', howns, howns', htrusts, htrusts', hrem⟩ := hfacts
  have hclear := h.unseen r hmem c htrusts
  have hone : (roles.set i r').countP Role.holds ≤ 1 :=
    Nat.le_trans (holds_set_le hi fun _ => hr) (Nat.le_trans h.held (toNat_le_one _))
  have halone : ∀ x ∈ roles.set i r', x.holds = true → x = r' := fun x hx hh =>
    holders_eq hone hx (mem_set_self hi r') hh hr'
  refine ⟨?_, fun d => ?_, fun x hx d hd => ?_, fun d hd => ?_⟩
  · exact Nat.le_trans (holds_set_le hi fun _ => hr) h.held
  · have hset := owners_set hi d r'
    have hd := h.owned d
    simp only [howns, howns', reduceCtorEq, decide_false, Bool.toNat_false, Nat.add_zero,
      Option.some.injEq] at hset
    by_cases hdc : d = c
    · subst hdc
      simp only [hclear, ↓reduceIte] at hd
      simp only [decide_true, Bool.toNat_true] at hset
      simp only [flagged, Finset.mem_insert, true_or, ↓reduceIte]
      omega
    · have hcd : ¬ c = d := fun he => hdc he.symm
      simp only [hcd, decide_false, Bool.toNat_false, Nat.add_zero] at hset
      simp only [flagged, Finset.mem_insert, hdc, false_or]
      omega
  · have hh : x.holds = true := by
      cases x <;> first | rfl | cases hd
    rw [halone x hx hh, htrusts'] at hd
    cases hd
  · exact absurd (halone _ hd rfl).symm (hrem d)

theorem free (h : FlagOwned s roles) (hi : roles[i]? = some r) (hf : Frees c r) :
    FlagOwned (unflagged c s) (roles.set i (.freed c)) := by
  have hmem := mem_of_get hi
  have hr : r.holds = true := by cases hf <;> rfl
  have hkeep : FlagOwned s (roles.set i (.freed c)) := by
    refine h.keep hi rfl rfl (fun _ => hr) ?_ ?_ ?_ <;> intro d hd <;> cases hd
  have hgone : owners c (roles.set i (.freed c)) = 0 := by
    have hset := owners_set hi c (.freed c)
    have hle := h.owned c
    cases hf with
    | removing =>
      have := h.stray c hmem
      have := owners_set_le (q := .freed c) hi (by intro d hd; cases hd) c
      omega
    | leaving =>
      simp only [Role.owns, decide_true, Bool.toNat_true, reduceCtorEq, decide_false,
        Bool.toNat_false] at hset
      split at hle <;> omega
  refine ⟨hkeep.held, fun d => ?_, fun x hx d hd => ?_, hkeep.stray⟩
  · by_cases hdc : d = c
    · rw [hdc, hgone]
      exact Nat.zero_le _
    · simpa only [unflagged, Finset.mem_erase, ne_eq, hdc, not_false_eq_true, true_and]
        using hkeep.owned d
  · intro hin
    exact hkeep.unseen x hx d hd (Finset.mem_of_mem_erase hin)

theorem lock {x : Site} (h : FlagOwned s roles) (hi : roles[i]? = some r)
    (hfree : s.routingLock = false) (hl : Locks x r r')
    (hforce : ∀ c, r' = .forcing c → c ∉ s.dispatching)
    (hstray : ∀ c, r' = .removing c → owners c roles = 0) :
    FlagOwned (locked s) (roles.set i r') := by
  have hfacts : r.holds = false ∧ r'.holds = true ∧ r'.owns = r.owns ∧
      ∀ c, r'.trusts = some c → r' = .forcing c := by
    cases hl
    all_goals refine ⟨rfl, rfl, rfl, ?_⟩
    all_goals intro d hd
    all_goals cases hd
    rfl
  obtain ⟨hr, hr', howns, htrusts⟩ := hfacts
  have hle := owners_set_le hi (q := r') (by simp [howns])
  refine ⟨?_, fun d => Nat.le_trans (hle d) (h.owned d), fun y hy d hd => ?_, fun d hd => ?_⟩
  · have hset := countP_set_add hi Role.holds r'
    have := h.held
    rw [hr, hr'] at hset
    simp only [hfree, Bool.toNat_false, Bool.toNat_true] at this hset
    simp only [locked, Bool.toNat_true]
    omega
  · rcases mem_set hy with rfl | hy
    · exact hforce d (htrusts d hd)
    · exact h.unseen y hy d hd
  · have hzero : owners d roles = 0 := by
      rcases mem_set hd with he | hm
      · exact hstray d he.symm
      · exact h.stray d hm
    have := hle d
    omega

theorem fork {tag : Tag} {rc : Role} (h : FlagOwned s roles) (hi : roles[i]? = some r)
    (hf : Forks r tag rc r') : FlagOwned s (roles.set i r' ++ [rc]) := by
  have hfacts : r'.holds = false ∧ rc.holds = false ∧ r'.owns = none ∧ rc.owns = r.owns ∧
      r'.trusts = none ∧ rc.trusts = none ∧ (∀ c, r' ≠ .removing c) ∧ ∀ c, rc ≠ .removing c := by
    cases hf <;> exact ⟨rfl, rfl, rfl, rfl, rfl, rfl, by simp, by simp⟩
  obtain ⟨hr', hrc, howns', hownsc, htrusts', htrustsc, hrem, hremc⟩ := hfacts
  have howners : ∀ c, owners c (roles.set i r' ++ [rc]) = owners c roles := by
    intro c
    have hset := owners_set hi c r'
    have hcat := countP_concat (roles.set i r') (fun r => r.owns = some c) rc
    simp only [howns', hownsc, reduceCtorEq, decide_false, Bool.toNat_false] at hset hcat
    unfold owners at hset ⊢
    omega
  refine ⟨?_, fun c => howners c ▸ h.owned c, fun x hx c hc => ?_, fun c hc => ?_⟩
  · have hset := holds_set_le hi (q := r') (by simp [hr'])
    have := h.held
    rw [countP_concat, hrc]
    simp only [Bool.toNat_false]
    omega
  · rcases List.mem_append.mp hx with hx | hx
    · rcases mem_set hx with rfl | hx
      · rw [htrusts'] at hc
        cases hc
      · exact h.unseen x hx c hc
    · rw [List.mem_singleton.mp hx, htrustsc] at hc
      cases hc
  · rw [howners c]
    rcases List.mem_append.mp hc with hc | hc
    · rcases mem_set hc with he | hm
      · exact absurd he.symm (hrem c)
      · exact h.stray c hm
    · exact absurd (List.mem_singleton.mp hc).symm (hremc c)

end FlagOwned

end Counting

end AgentGrove
