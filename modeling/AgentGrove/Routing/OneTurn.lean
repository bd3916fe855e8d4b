import AgentGrove.Routing.Flag

namespace AgentGrove

open Coop

/-- A turn of a chat is in flight: its task is inside `dispatch_via_provider` or
`dispatch_echo`. -/
def InTurn (t : Task) (c : Uuid) : Prop :=
  Live t c ∧ ∃ x call, t.site = some x ∧ x.call = .turn call

/-- A deferred clear and a forced one take the lock only while nobody answers
for a flag that is set. -/
def Polite (p : Server) : ServerEvent → Prop
  | .arrive _ => True
  | .run i _ =>
    match p.restsAt i with
    | some ⟨.guard, c, .lock⟩ | some ⟨.stopTurn, c, .forceLock⟩ =>
      c ∈ p.shared.dispatching → ∀ t ∈ p.threads, ¬ Committed t c
    | _ => True

/-- `add_prompt` takes the lock only while the chat's flag is clear. -/
def Patient (p : Server) : ServerEvent → Prop
  | .arrive _ => True
  | .run i _ =>
    match p.restsAt i with
    | some ⟨.addPrompt, c, .lock⟩ => c ∉ p.shared.dispatching
    | _ => True

def Orderly (p : Server) (e : ServerEvent) : Prop := Patient p e ∧ Polite p e

/-- Turns are asked for by handlers that look at the flag. -/
def Checking (_ : Server) : ServerEvent → Prop
  | .arrive (.addPrompt _ _) => False
  | _ => True

instance (p : Server) : (e : ServerEvent) → Decidable (Polite p e)
  | .arrive _ => .isTrue trivial
  | .run i _ => by
    unfold Polite
    dsimp only
    split <;> infer_instance

instance (p : Server) : (e : ServerEvent) → Decidable (Patient p e)
  | .arrive _ => .isTrue trivial
  | .run i _ => by
    unfold Patient
    dsimp only
    split <;> infer_instance

instance (p : Server) (e : ServerEvent) : Decidable (Orderly p e) :=
  inferInstanceAs (Decidable (_ ∧ _))

instance (p : Server) : (e : ServerEvent) → Decidable (Checking p e)
  | .arrive request => by
    cases request <;> first | exact .isTrue trivial | exact .isFalse id
  | .run _ _ => .isTrue trivial

section Kept

variable {s s' : AppState} {roles : List Role} {i : Nat} {r r' : Role} {c : Uuid}

theorem flag_kept : routing.Kept FlagOwned where
  sees _ _ _ _ _ _ := trivial
  sync s roles i r r' s' hv hi hm := by
    cases hm with
    | quiet h => exact hv.same hi h.dispatching h.routingLock
    | answered l => exact hv.same hi rfl rfl
    | apart h => exact hv.same hi h.dispatching h.routingLock
    | unlock h => exact hv.unlock hi h
    | look h => exact hv.look hi h
    | take h => exact hv.take hi h
    | free h => exact hv.free hi h
    | mind h =>
      refine hv.keep hi h.dispatching h.routingLock id ?_ ?_ ?_
      all_goals intro d hd
      all_goals cases hd
  fork s roles i r tag rc r' hv hi hf := hv.fork hi hf

/-- Actions at a suspension point keep the flags in order, if forced insertions
and stray removals only start when they can do no harm. -/
theorem flag_await {x : Site} {w : Choice} (hv : FlagOwned s roles) (hi : roles[i]? = some r)
    (hm : Moves (some (x, w)) r s r' s')
    (hforce : ∀ c, x = ⟨.addPrompt, c, .lock⟩ → r = .eager c → c ∉ s.dispatching)
    (hstray : ∀ c, x = ⟨.guard, c, .lock⟩ ∨ x = ⟨.stopTurn, c, .forceLock⟩ → owners c roles = 0) :
    FlagOwned s' (roles.set i r') := by
  have hseen := hv.unseen r (mem_of_get hi)
  cases hm with
  | quiet h => exact hv.same hi h.dispatching h.routingLock
  | apart h => exact hv.same hi h.dispatching h.routingLock
  | lock hfree h =>
    refine hv.lock hi hfree h ?_ ?_
    · rintro c rfl
      cases h
      exact hforce c rfl rfl
    · rintro c rfl
      cases h with
      | guard => exact hstray c (.inl rfl)
      | stop => exact hstray c (.inr rfl)
  | enter h =>
    refine hv.keep hi rfl rfl id ?_ ?_ ?_
    all_goals intro d hd
    all_goals cases hd
  | drop h hwhy =>
    cases h with
    | kick =>
      refine hv.keep hi rfl rfl id ?_ ?_ ?_
      all_goals intro d hd
      all_goals cases hd
    | backlog => exact hv.keep hi rfl rfl id (fun _ => id) hseen (by simp)
    | task => exact hv.keep hi rfl rfl id (fun _ => id) hseen (by simp)
  | number h => exact hv.keep hi rfl rfl id (fun _ => id) hseen (by simp)
  | store h hid hc =>
    cases h with
    | numbered => exact hv.keep hi rfl rfl id (fun _ => id) hseen (by simp)
    | checked => exact hv.same hi rfl rfl
    | forcing => exact hv.same hi rfl rfl
    | carrying => exact hv.same hi rfl rfl
  | claimed h => exact hv.keep hi h.dispatching h.routingLock id (fun _ => id) hseen (by simp)
  | leak hr hcall hwhy h =>
    have hh : r.holds = true := by
      rcases hr with rfl | ⟨n, rfl⟩ <;> rfl
    refine hv.keep hi h.dispatching h.routingLock (fun _ => hh) ?_ ?_ ?_
    all_goals intro d hd
    all_goals cases hd
  | enqueue h hid hc =>
    rcases h with ⟨rfl, rfl⟩ | ⟨rfl, rfl⟩
    · exact hv.same hi rfl rfl
    · exact hv.keep hi rfl rfl id (fun _ => id) hseen (by simp)
  | items h hfrom =>
    cases h with
    | take h => exact hv.keep hi rfl rfl id (fun _ => id) hseen (by simp)
    | give => exact hv.keep hi rfl rfl id (fun _ => id) hseen (by simp)
    | _ => exact hv.same hi rfl rfl
  | mode h =>
    rcases h with ⟨-, rfl⟩ | ⟨-, rfl⟩
    · exact hv.keep hi rfl rfl id (fun _ => id) hseen (by simp)
    · exact hv.same hi rfl rfl
  | mind h =>
    refine hv.keep hi h.dispatching h.routingLock id ?_ ?_ ?_
    all_goals intro d hd
    all_goals cases hd

theorem Polite.stray {p : Server} {w : Choice} (h : Polite p (.run i w))
    (hc : routing.Coupled p roles) (hv : FlagOwned p.shared roles)
    (hat : p.At i ⟨.guard, c, .lock⟩ ∨ p.At i ⟨.stopTurn, c, .forceLock⟩) :
    owners c roles = 0 := by
  by_cases hin : c ∈ p.shared.dispatching
  · have hnone : ∀ t ∈ p.threads, ¬ Committed t c := by
      dsimp only [Polite] at h
      rcases hat with hat | hat
      all_goals
        unfold Pool.At at hat
        rw [hat] at h
        exact h hin
    by_contra hne
    obtain ⟨r, hr, ho⟩ := List.countP_pos_iff.mp (Nat.pos_of_ne_zero hne)
    obtain ⟨j, hj⟩ := List.getElem?_of_mem hr
    obtain ⟨t, ht, hrest⟩ := hc.thread hj
    exact hnone t (List.mem_of_getElem? ht) (owner_committed hrest (by simpa using ho))
  · have := hv.owned c
    rw [if_neg hin] at this
    omega

theorem Patient.force {p : Server} {w : Choice} (h : Patient p (.run i w))
    (hat : p.At i ⟨.addPrompt, c, .lock⟩) : c ∉ p.shared.dispatching := by
  dsimp only [Patient] at h
  unfold Pool.At at hat
  rw [hat] at h
  exact h

theorem FlagOwned.start (s : AppState) : FlagOwned s [] :=
  ⟨Nat.zero_le _, fun _ => Nat.zero_le _, by simp, by simp⟩

/-- A request comes with nothing to its name. -/
theorem FlagOwned.arrive (hv : FlagOwned s roles) (request : Request) :
    FlagOwned s (roles ++ [request.role]) := by
  have hfacts : request.role.holds = false ∧ request.role.owns = none ∧
      request.role.trusts = none ∧ ∀ c, request.role ≠ .removing c := by
    cases request <;> exact ⟨rfl, rfl, rfl, by simp [Request.role, Request.routes]⟩
  obtain ⟨hh, ho, ht, hr⟩ := hfacts
  have howners : ∀ c, owners c (roles ++ [request.role]) = owners c roles := by
    intro c
    unfold owners
    rw [countP_concat, ho]
    simp
  refine ⟨?_, fun c => howners c ▸ hv.owned c, fun x hx c hc => ?_, fun c hc => ?_⟩
  · rw [countP_concat, hh]
    exact hv.held
  · rcases List.mem_append.mp hx with hx | hx
    · exact hv.unseen x hx c hc
    · rw [List.mem_singleton.mp hx, ht] at hc
      cases hc
  · rcases List.mem_append.mp hc with hc | hc
    · exact howners c ▸ hv.stray c hc
    · exact absurd (List.mem_singleton.mp hc).symm (hr c)

end Kept

theorem coupled_start (s : AppState) : routing.Coupled ⟨s, []⟩ [] :=
  ⟨rfl, fun i t h => by simp at h⟩

/-- In an orderly run every flag is owned at any time. -/
theorem orderly_run {s : AppState} {p : Server} (h : Pool.Reaches entry Orderly ⟨s, []⟩ p) :
    ∃ roles, routing.Coupled p roles ∧ FlagOwned p.shared roles := by
  refine flag_kept.reaches ?_ ?_ h (coupled_start s) (.start s)
  · exact fun p roles request hc hv _ => ⟨request.role, entry_follows request, hv.arrive request⟩
  · intro p roles i w x r r' s' hc hv hg hat hr hm
    refine flag_await hv hr hm ?_ ?_
    · rintro c rfl -
      exact hg.1.force hat
    · rintro c hx
      refine hg.2.stray hc hv ?_
      rcases hx with rfl | rfl
      · exact .inl hat
      · exact .inr hat

/-- Two live tasks of one chat are one task. -/
theorem FlagOwned.live_unique {p : Server} {roles : List Role} (hv : FlagOwned p.shared roles)
    (hc : routing.Coupled p roles) {i j : Nat} {t u : Task} {c : Uuid}
    (hi : p.threads[i]? = some t) (hj : p.threads[j]? = some u) (ht : Live t c) (hu : Live u c) :
    i = j := by
  obtain ⟨r, hr, hor⟩ := hc.2 i t hi
  obtain ⟨r', hr', hor'⟩ := hc.2 j u hj
  have hone : owners c roles ≤ 1 := by
    have := hv.owned c
    split at this <;> omega
  exact index_unique hone hr hr' (by simpa using live_owns hor ht) (by simpa using live_owns hor' hu)

/-- The flag is set as long as someone answers for it. -/
theorem FlagOwned.flag_set {p : Server} {roles : List Role} (hv : FlagOwned p.shared roles)
    {r : Role} {c : Uuid} (hr : r ∈ roles) (ho : r.owns = some c) : c ∈ p.shared.dispatching := by
  by_contra hn
  have hle := hv.owned c
  rw [if_neg hn] at hle
  have : 0 < owners c roles := List.countP_pos_iff.mpr ⟨r, hr, by simpa using ho⟩
  omega

/-- While the flag of `c` is set, a task in such a role starts no task of `c`
before it rests again. -/
def Barred (c : Uuid) (r : Role) (s : AppState) : Prop :=
  r.chat = some c →
    match r with
    | .holding _ | .admitted _ | .kickHeld _ => c ∈ s.dispatching
    | .kickClear _ | .clear _ | .backlog _ | .checked _ | .forcing _ | .claimed _
    | .promised _ => False
    | _ => True

theorem barred_sync {c : Uuid} {r r' : Role} {s s' : AppState} (h : Barred c r s)
    (hm : Moves none r s r' s') : Barred c r' s' := by
  intro hc
  cases hm with
  | quiet hq =>
    have := h hc
    rw [← hq.dispatching] at this
    exact this
  | answered l => exact h hc
  | apart hq => cases hc
  | unlock hu =>
    cases hu with
    | claimed => exact (h hc).elim
    | _ => trivial
  | look hl =>
    rename_i d
    generalize hb : decide (d ∈ s.dispatching) = b at hl
    cases hl with
    | holdingBusy =>
      cases hc
      simpa using hb
    | kickBusy =>
      cases hc
      simpa using hb
    | admittedBusy => trivial
    | _ =>
      cases hc
      have : c ∈ s.dispatching := h rfl
      simp [this] at hb
  | take ht =>
    cases ht <;> cases hc <;> exact (h rfl).elim
  | free hf => trivial
  | mind hq => trivial

theorem barred_fork {c : Uuid} {r r' rc : Role} {s : AppState} {tag : Tag} (h : Barred c r s)
    (hf : Forks r tag rc r') : (tag ≠ .dispatch c ∧ tag ≠ .drain c) ∧ Barred c r' s := by
  cases hf with
  | guard => exact ⟨⟨by simp, by simp⟩, fun _ => trivial⟩
  | _ =>
    refine ⟨⟨?_, ?_⟩, fun _ => trivial⟩
    all_goals intro he
    all_goals cases he
    all_goals exact (h rfl).elim

/-- Whoever is about to start a task of a flagged chat has taken the flag itself. -/
theorem barred_of_flag {c : Uuid} {r : Role} {s : AppState} {roles : List Role}
    (hv : FlagOwned s roles) (hr : r ∈ roles) (hin : c ∈ s.dispatching)
    (ho : r ≠ .claimed c ∧ r ≠ .promised c) : Barred c r s := by
  have hseen := hv.unseen r hr c
  intro hc
  cases r with
  | claimed d =>
    cases hc
    exact (ho.1 rfl).elim
  | promised d =>
    cases hc
    exact (ho.2 rfl).elim
  | kickClear d => exact hseen hc hin
  | clear d => exact hseen hc hin
  | backlog d => exact hseen hc hin
  | checked d => exact hseen hc hin
  | forcing d => exact hseen hc hin
  | holding d => exact hin
  | admitted d => exact hin
  | kickHeld d => exact hin
  | _ => trivial

theorem await_dispatching {x : Site} {w : Choice} {r r' : Role} {s s' : AppState}
    (hm : Moves (some (x, w)) r s r' s') : s'.dispatching = s.dispatching := by
  cases hm with
  | quiet h => exact h.dispatching
  | apart h => exact h.dispatching
  | claimed h => exact h.dispatching
  | leak hr hcall hwhy h => exact h.dispatching
  | mind h => exact h.dispatching
  | _ => rfl

theorem await_claimed {x : Site} {w : Choice} {r r' : Role} {s s' : AppState} {c : Uuid}
    (hm : Moves (some (x, w)) r s r' s') (hr : r' = .claimed c ∨ r' = .promised c) :
    r = .claiming c ∨ r = .claimed c ∨ r = .promised c := by
  cases hm with
  | quiet h => exact .inr hr
  | claimed h =>
    rcases hr with hr | hr
    · cases hr
      exact .inl rfl
    · cases hr
  | lock hfree h => cases h <;> rcases hr with hr | hr <;> cases hr
  | drop h hwhy => cases h <;> rcases hr with hr | hr <;> cases hr
  | store h hid hc => cases h <;> rcases hr with hr | hr <;> cases hr
  | enqueue h hid hc => rcases h with ⟨-, rfl⟩ | ⟨-, rfl⟩ <;> rcases hr with hr | hr <;> cases hr
  | items h hfrom => cases h <;> first | exact .inr hr | (rcases hr with hr | hr <;> cases hr)
  | mode h => rcases h with ⟨-, rfl⟩ | ⟨-, rfl⟩ <;> rcases hr with hr | hr <;> cases hr
  | _ => rcases hr with hr | hr <;> cases hr

/-- Only a handler past its own claim rests in such a role. -/
theorem claimed_handler {t : Task} {r : Role} {c : Uuid} (hrest : Rests t.tag t.site r)
    (hr : r = .claiming c ∨ r = .claimed c ∨ r = .promised c) :
    t.tag = .handler c ∧ t.site.any Site.claims = true := by
  have ho : r.owns = some c := by rcases hr with rfl | rfl | rfl <;> rfl
  rcases owner_committed hrest ho with ⟨htag, hfin⟩ | hh
  · exfalso
    cases hs : t.site with
    | none =>
      rw [hs] at hrest
      rcases htag with ht | ht
      all_goals
        rw [ht] at hrest
        rcases hr with rfl | rfl | rfl <;> cases hrest
    | some x =>
      rw [hs] at hrest
      rcases htag with ht | ht
      all_goals
        rw [ht] at hrest
        rcases hr with rfl | rfl | rfl <;> exact hrest.elim
  · exact hh

/-- A task of a flagged chat is started only by the handler that took the flag. -/
theorem start_needs_claim {p p' : Server} {roles : List Role} (hc : routing.Coupled p roles)
    (hv : FlagOwned p.shared roles) {e : ServerEvent} (hg : Orderly p e)
    (hf : p.fire entry e = some p') {k : Nat} {u : Task} {c : Uuid} (hk : p.threads.length ≤ k)
    (hu : p'.threads[k]? = some u) (htag : u.tag = .dispatch c ∨ u.tag = .drain c)
    (hin : c ∈ p.shared.dispatching) :
    ∃ (i : Nat) (w : Choice) (t : Task) (r : Role), e = .run i w ∧ p.threads[i]? = some t ∧ roles[i]? = some r ∧
      r.owns = some c ∧ t.tag = .handler c ∧ t.site.any Site.claims = true := by
  by_contra hno
  have hbar : u.tag ≠ .dispatch c ∧ u.tag ≠ .drain c := by
    cases e with
    | arrive request =>
      refine Protocol.arrive_tags (G := Barred c) (H := fun tag => tag ≠ .dispatch c ∧ tag ≠ .drain c)
        (fun _ _ _ => trivial) (fun _ _ _ _ => barred_sync) (fun _ _ _ _ _ => barred_fork)
        (entry_follows request) ?_ ⟨by simp [entry], by simp [entry]⟩ hf hk hu
      intro hchat
      cases request <;> trivial
    | run i w =>
      -- A claimed or promised role at `i` would make it the handler that is said not to be.
      have hclaim : ∀ {r}, roles[i]? = some r →
          ¬ (r = .claiming c ∨ r = .claimed c ∨ r = .promised c) := by
        intro r hr hcl
        obtain ⟨t, ht, hrest⟩ := hc.thread hr
        have ho : r.owns = some c := by rcases hcl with rfl | rfl | rfl <;> rfl
        exact hno ⟨i, w, t, r, rfl, ht, hr, ho, claimed_handler hrest hcl⟩
      refine hc.fire_tags (G := Barred c) (H := fun tag => tag ≠ .dispatch c ∧ tag ≠ .drain c)
        (fun _ _ _ => trivial) (fun _ _ _ _ => barred_sync) (fun _ _ _ _ _ => barred_fork)
        (fun _ _ => trivial) ?_ hf hk hu
      · intro x r r' s' hat hr hm
        have hv' : FlagOwned s' (roles.set i r') := by
          refine flag_await hv hr hm ?_ ?_
          · rintro d rfl -
            exact hg.1.force hat
          · rintro d hx
            refine hg.2.stray hc hv ?_
            rcases hx with rfl | rfl
            · exact .inl hat
            · exact .inr hat
        have hin' : c ∈ s'.dispatching := by
          rw [await_dispatching hm]
          exact hin
        have hn : ¬ (r' = .claimed c ∨ r' = .promised c) := fun h => hclaim hr (await_claimed hm h)
        push Not at hn
        exact barred_of_flag hv' (mem_set_self hr r') hin' hn
  rcases htag with h | h
  · exact hbar.1 h
  · exact hbar.2 h

theorem InTurn.live {t : Task} {c : Uuid} (h : InTurn t c) : Live t c := h.1

/-- One turn per chat, in every run whose flags are taken and freed in order: no
two turns of a chat are in flight, and no task of a chat is started while another
one lives or, unless by the handler that set it, while the flag is set. -/
theorem one_turn_per_chat {s : AppState} {p : Server}
    (h : Pool.Reaches entry Orderly ⟨s, []⟩ p) (c : Uuid) :
    (∀ (i j : Nat) (t u : Task), p.threads[i]? = some t → p.threads[j]? = some u →
        InTurn t c → InTurn u c → i = j) ∧
      ∀ e p', Orderly p e → p.fire entry e = some p' →
        ∀ (k : Nat) (u : Task), p.threads.length ≤ k → p'.threads[k]? = some u →
          u.tag = .dispatch c ∨ u.tag = .drain c →
          (∀ t ∈ p.threads, ¬ Live t c) ∧
            (c ∈ p.shared.dispatching → ∃ (i : Nat) (w : Choice) (t : Task), e = .run i w ∧
              p.threads[i]? = some t ∧ t.tag = .handler c ∧ t.site.any Site.claims = true) := by
  obtain ⟨roles, hc, hv⟩ := orderly_run h
  refine ⟨fun i j t u hi hj ht hu => hv.live_unique hc hi hj ht.live hu.live, ?_⟩
  intro e p' hg hf k u hk hu htag
  have hstart := start_needs_claim hc hv hg hf hk hu htag
  refine ⟨fun t ht hlive => ?_, fun hin => ?_⟩
  · obtain ⟨j, hj⟩ := List.getElem?_of_mem ht
    obtain ⟨r, hr, hor⟩ := hc.2 j t hj
    have hown := live_owns hor hlive
    -- The live task's flag is set, so whoever starts another one answers for that flag too.
    obtain ⟨i, w, t', r', rfl, hi, hr', hown', htag', -⟩ :=
      hstart (hv.flag_set (mem_of_get hr) hown)
    have hone : owners c roles ≤ 1 := by
      have := hv.owned c
      split at this <;> omega
    have hij := index_unique hone hr hr' (by simpa using hown) (by simpa using hown')
    subst hij
    rw [hj] at hi
    cases hi
    rcases hlive.1 with h | h <;> rw [htag'] at h <;> cases h
  · obtain ⟨i, w, t, r, he, hi, -, -, htag', hclaims⟩ := hstart hin
    exact ⟨i, w, t, he, hi, htag', hclaims⟩

/-- Reading a live task off the list of sites. -/
theorem live_of_sites {p : Server} {i : Nat} {tag : Tag} {x : Site} {c : Uuid}
    (h : p.sites[i]? = some (tag, some x)) (htag : tag = .dispatch c ∨ tag = .drain c) :
    ∃ t, p.threads[i]? = some t ∧ Live t c ∧ t.site = some x := by
  unfold Pool.sites at h
  rw [List.getElem?_map] at h
  obtain ⟨t, ht, he⟩ := Option.map_eq_some_iff.mp h
  simp only [Prod.mk.injEq] at he
  exact ⟨t, ht, ⟨he.1 ▸ htag, finished_of_site he.2⟩, he.2⟩

/-- Two prompts sent through `add_prompt` one after the other: each handler takes
the flag and starts its turn. -/
def twoPrompts : List ServerEvent :=
  [.arrive (.addPrompt 1 ['a'])] ++ rounds 0 7 ++ [.arrive (.addPrompt 1 ['b'])] ++ rounds 2 7 ++
    rounds 1 1 ++ rounds 3 1

theorem two_turns_in_flight :
    ¬ ∀ (s : AppState) (p : Server), s.routingLock = false →
      Pool.Reaches entry Pool.anyStep ⟨s, []⟩ p →
      ∀ (c : Uuid) (i j : Nat) (t u : Task), p.threads[i]? = some t → p.threads[j]? = some u →
        InTurn t c → InTurn u c → i = j := by
  intro hall
  have hrun : ((Pool.play entry Pool.anyStep ⟨serve freshStore 10 [], []⟩ twoPrompts).map
      Pool.sites) = some [(.handler 1, none),
        (.dispatch 1, some ⟨.dispatchTask, 1, .turn .append⟩), (.handler 1, none),
        (.dispatch 1, some ⟨.dispatchTask, 1, .turn .append⟩)] := by decide
  obtain ⟨p, hp, hsites⟩ := Option.map_eq_some_iff.mp hrun
  obtain ⟨t, ht, htl, htx⟩ := live_of_sites (p := p) (i := 1) (c := 1) (by rw [hsites]; rfl) (.inl rfl)
  obtain ⟨u, hu, hul, hux⟩ := live_of_sites (p := p) (i := 3) (c := 1) (by rw [hsites]; rfl) (.inl rfl)
  have := hall _ p rfl (Pool.play_reaches hp) 1 1 3 t u ht hu ⟨htl, _, _, htx, rfl⟩
    ⟨hul, _, _, hux, rfl⟩
  cases this

/-- A message sent, and its turn under way. -/
def oneSend : List ServerEvent := [.arrive (.sendMessage 1 ['a'])] ++ rounds 0 10 ++ rounds 1 1

theorem one_turn_per_chat_sent :
    ∃ p : Server, (Pool.Reaches entry Orderly ⟨serve freshStore 10 [], []⟩ p ∧
      ∃ t ∈ p.threads, InTurn t 1) ∧
      ∀ (i j : Nat) (t u : Task), p.threads[i]? = some t → p.threads[j]? = some u →
        InTurn t 1 → InTurn u 1 → i = j := by
  have hrun : ((Pool.play entry Orderly ⟨serve freshStore 10 [], []⟩ oneSend).map
      Pool.sites) = some [(.handler 1, none),
        (.dispatch 1, some ⟨.dispatchTask, 1, .turn .append⟩)] := by decide
  obtain ⟨p, hp, hsites⟩ := Option.map_eq_some_iff.mp hrun
  obtain ⟨t, ht, htl, htx⟩ := live_of_sites (p := p) (i := 1) (c := 1) (by rw [hsites]; rfl) (.inl rfl)
  have hreach := Pool.play_reaches hp
  exact ⟨p, ⟨hreach, t, List.mem_of_getElem? ht, htl, _, _, htx, rfl⟩,
    (one_turn_per_chat hreach 1).1⟩

end AgentGrove
