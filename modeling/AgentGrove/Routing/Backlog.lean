import AgentGrove.Routing.Busy

namespace AgentGrove

open Coop

/-- The chat whose cache entry a `send_message` relies on. -/
def Role.sends : Role → Option Uuid
  | .admitted c | .busy c | .clear c | .backlog c | .claiming c | .numbered c _ => some c
  | _ => none

/-- A backlog that may be drained has someone to see to it. The rest is what
keeps a routing request from failing half-way. -/
structure Minded (s : AppState) (roles : List Role) : Prop extends FlagKept s roles where
  routes : .other ∉ roles
  minded : ∀ c, HasPending s c → IsAuto s c → ∃ r ∈ roles, r.minds = some c
  busy : ∀ c, .busy c ∈ roles → c ∈ s.dispatching
  cached : ∀ r ∈ roles, ∀ c, r.sends = some c → Cached s c
  rows : ∀ c, Cached s c → Stored s c
  itemIds : ∀ i ∈ s.store.items, i.id < s.nextId
  itemChat : ∀ i ∈ s.store.items, ∀ j ∈ s.store.items, i.id = j.id → i.chatId = j.chatId
  carried : ∀ c id, .carrying c id ∈ roles →
    id < s.nextId ∧ ∀ i ∈ s.store.items, i.id = id → i.chatId = c

section Minding

variable {s s' : AppState} {roles : List Role} {i : Nat} {r r' : Role} {c : Uuid}

theorem minds_of_owns {x : Role} (h : x.owns = some c) : x.minds = some c ∨ x = .leaving c := by
  cases x with
  | leaving d =>
    cases h
    exact .inr rfl
  | claiming d => exact .inl h
  | numbered d n => exact .inl h
  | claimed d => exact .inl h
  | promised d => exact .inl h
  | task d => exact .inl h
  | carrying d id => exact .inl h
  | clearing d => exact .inl h
  | _ => cases h

/-- Whoever has the lock and sees a flag set knows that its owner sees to the backlog. -/
theorem minder_of_flag (h : FlagKept s roles) (hr : r ∈ roles) (hh : r.holds = true)
    (hne : r ≠ .leaving c) (hin : c ∈ s.dispatching) : ∃ x ∈ roles, x.minds = some c := by
  obtain ⟨x, hx, ho⟩ := List.countP_pos_iff.mp (h.kept c hin)
  rcases minds_of_owns (by simpa using ho) with hm | rfl
  · exact ⟨x, hx, hm⟩
  · exact absurd (holders_eq (Nat.le_trans h.held (toNat_le_one _)) hr hx hh rfl) hne

theorem minds_set (hi : roles[i]? = some r) (h : r.minds = some c → r'.minds = some c)
    (hx : ∃ x ∈ roles, x.minds = some c) : ∃ x ∈ roles.set i r', x.minds = some c := by
  obtain ⟨x, hx, hm⟩ := hx
  by_cases hne : x = r
  · subst hne
    exact ⟨r', mem_set_self hi r', h hm⟩
  · exact ⟨x, mem_set_of_ne hi hx hne r', hm⟩

namespace Minded

/-- Moves that change neither items nor modes, and drop a minder only where
nothing is pending in auto mode or somebody else takes over. -/
theorem step (h : Minded s roles) (hi : roles[i]? = some r)
    (hflag : FlagKept s' (roles.set i r')) (hitems : s'.store.items = s.store.items)
    (hmodes : s'.store.modes = s.store.modes) (hn : s.nextId ≤ s'.nextId)
    (hcached : ∀ d, Cached s' d ↔ Cached s d) (hrows : ∀ d, Stored s d → Stored s' d)
    (hbusy : ∀ d, .busy d ∈ roles.set i r' → d ∈ s'.dispatching)
    (hminds : ∀ d, HasPending s d → IsAuto s d → r.minds = some d →
      ∃ x ∈ roles.set i r', x.minds = some d)
    (hother : r' ≠ .other) (hsends : ∀ d, r'.sends = some d → Cached s d)
    (hcarry : ∀ d id, r' = .carrying d id → r = .carrying d id) : Minded s' (roles.set i r') := by
  refine ⟨hflag, fun hm => ?_, fun d hp ha => ?_, hbusy, fun x hx d hd => ?_, fun d hd => ?_,
    fun j hj => ?_, fun j hj k hk => ?_, fun d id hm => ?_⟩
  · rcases mem_set hm with he | hm
    · exact hother he.symm
    · exact h.routes hm
  · have hp' : HasPending s d := by
      unfold HasPending at hp ⊢
      rwa [hitems] at hp
    have ha' : IsAuto s d := by
      unfold IsAuto at ha ⊢
      rwa [hmodes] at ha
    by_cases hr : r.minds = some d
    · exact hminds d hp' ha' hr
    · exact minds_set hi (fun he => absurd he hr) (h.minded d hp' ha')
  · rw [hcached]
    rcases mem_set hx with rfl | hx
    · exact hsends d hd
    · exact h.cached x hx d hd
  · exact hrows d (h.rows d ((hcached d).mp hd))
  · rw [hitems] at hj
    exact Nat.lt_of_lt_of_le (h.itemIds j hj) hn
  · rw [hitems] at hj hk
    exact h.itemChat j hj k hk
  · have hm' : .carrying d id ∈ roles := by
      rcases mem_set hm with he | hm
      · exact hcarry d id he.symm ▸ mem_of_get hi
      · exact hm
    rw [hitems]
    exact ⟨Nat.lt_of_lt_of_le (h.carried d id hm').1 hn, (h.carried d id hm').2⟩

theorem busy_set (h : Minded s roles) (hi : roles[i]? = some r)
    (hd : s'.dispatching = s.dispatching) (hr : ∀ d, r' = .busy d → r = .busy d) :
    ∀ d, .busy d ∈ roles.set i r' → d ∈ s'.dispatching := by
  intro d hm
  rw [hd]
  rcases mem_set hm with he | hm
  · exact h.busy d (hr d he.symm ▸ mem_of_get hi)
  · exact h.busy d hm

theorem quiet (h : Minded s roles) (hi : roles[i]? = some r)
    (hflag : FlagKept s' (roles.set i r')) (hq : Quiet s s')
    (hbusy : ∀ d, r' = .busy d → r = .busy d)
    (hminds : ∀ d, HasPending s d → IsAuto s d → r.minds = some d →
      ∃ x ∈ roles.set i r', x.minds = some d)
    (hother : r' ≠ .other) (hsends : ∀ d, r'.sends = some d → Cached s d)
    (hcarry : ∀ d id, r' = .carrying d id → r = .carrying d id) : Minded s' (roles.set i r') :=
  h.step hi hflag hq.items hq.modes (Nat.le_of_eq hq.nextId.symm) hq.cached
    (fun d => (hq.stored d).mpr) (h.busy_set hi hq.dispatching hbusy) hminds hother hsends hcarry

theorem not_other (h : Minded s roles) (hi : roles[i]? = some r) : r ≠ .other := by
  rintro rfl
  exact h.routes (mem_of_get hi)

/-- Quiet moves that keep the role. -/
theorem stay (h : Minded s roles) (hi : roles[i]? = some r) (hq : Quiet s s') :
    Minded s' (roles.set i r) :=
  h.quiet hi (h.toFlagKept.quiet hi hq id (fun _ => id) (fun _ => id) fun _ _ => id) hq
    (fun _ => id) (fun _ _ _ hm => ⟨r, mem_set_self hi r, hm⟩) (h.not_other hi)
    (h.cached r (mem_of_get hi)) fun _ _ => id

theorem answered (h : Minded s roles) (hi : roles[i]? = some r)
    (answers : List (Request × Response)) :
    Minded { s with answers := answers } (roles.set i r) :=
  h.step hi (h.toFlagKept.same hi rfl rfl (Nat.le_refl _) (FlagKept.keys_refl s)) rfl rfl
    (Nat.le_refl _) (fun _ => .rfl) (fun _ => id) (h.busy_set hi rfl fun _ => id)
    (fun _ _ _ hm => ⟨r, mem_set_self hi r, hm⟩) (h.not_other hi)
    (h.cached r (mem_of_get hi)) fun _ _ => id

theorem unlock (h : Minded s roles) (hi : roles[i]? = some r) (hu : Unlocks r r') :
    Minded (unlocked s) (roles.set i r') := by
  have hfacts : r'.minds = r.minds ∧ r' ≠ .other ∧ r'.sends = none ∧
      (∀ d, r' ≠ .busy d) ∧ ∀ d id, r' ≠ .carrying d id := by
    cases hu <;> exact ⟨rfl, by simp, rfl, by simp, by simp⟩
  obtain ⟨hminds, hother, hsends, hbusy, hcarry⟩ := hfacts
  refine h.step hi (h.toFlagKept.unlock hi hu) rfl rfl (Nat.le_refl _) (fun _ => .rfl)
    (fun _ => id) (h.busy_set hi rfl fun d he => absurd he (hbusy d)) (fun d _ _ hm => ?_) hother
    (by simp [hsends]) fun d id he => absurd he (hcarry d id)
  exact ⟨r', mem_set_self hi r', hminds.trans hm⟩

theorem look (h : Minded s roles) (hi : roles[i]? = some r)
    (hl : Looks c (decide (c ∈ s.dispatching)) r r') : Minded s (roles.set i r') := by
  have hmem := mem_of_get hi
  have hflag := h.toFlagKept.look hi hl
  have hself := mem_set_self hi r'
  generalize hb : decide (c ∈ s.dispatching) = b at hl
  have hstep : ∀ (hbusy : ∀ d, r' = .busy d → d ∈ s.dispatching)
      (hminds : ∀ d, r.minds = some d → ∃ x ∈ roles.set i r', x.minds = some d),
      r' ≠ .other → (∀ d, r'.sends = some d → r.sends = some d) →
      (∀ d id, r' ≠ .carrying d id) → Minded s (roles.set i r') := by
    intro hbusy hminds hother hsends hcarry
    refine h.step hi hflag rfl rfl (Nat.le_refl _) (fun _ => .rfl) (fun _ => id) (fun d hm => ?_)
      (fun d _ _ => hminds d) hother (fun d hd => h.cached r hmem d (hsends d hd))
      fun d id he => absurd he (hcarry d id)
    rcases mem_set hm with he | hm
    · exact hbusy d he.symm
    · exact h.busy d hm
  cases hl with
  | admittedBusy =>
    refine hstep ?_ (by simp [Role.minds]) (by simp) (by simp [Role.sends]) (by simp)
    rintro _ ⟨⟩
    simpa using hb
  | admittedClear =>
    exact hstep (by simp) (by simp [Role.minds]) (by simp) (by simp [Role.sends]) (by simp)
  | holdingBusy =>
    exact hstep (by simp) (by simp [Role.minds]) (by simp) (by simp [Role.sends]) (by simp)
  | holdingClear =>
    exact hstep (by simp) (by simp [Role.minds]) (by simp) (by simp [Role.sends]) (by simp)
  | kickBusy =>
    -- The flag has an owner who will look at the queue again.
    refine hstep (by simp) ?_ (by simp) (by simp [Role.sends]) (by simp)
    rintro _ ⟨⟩
    exact minder_of_flag hflag hself rfl (by simp) (by simpa using hb)
  | kickClear =>
    refine hstep (by simp) ?_ (by simp) (by simp [Role.sends]) (by simp)
    rintro _ ⟨⟩
    exact ⟨_, hself, rfl⟩

theorem take (h : Minded s roles) (hi : roles[i]? = some r) (ht : Takes c r r') :
    Minded (flagged c s) (roles.set i r') := by
  have hfacts : (∀ d, r.minds = some d → r'.minds = some d) ∧ r' ≠ .other ∧
      (∀ d, r'.sends = some d → r.sends = some d) ∧ (∀ d, r' ≠ .busy d) ∧
      ∀ d id, r' ≠ .carrying d id := by
    cases ht <;> exact ⟨by simp [Role.minds], by simp, by simp [Role.sends], by simp, by simp⟩
  obtain ⟨hminds, hother, hsends, hbusy, hcarry⟩ := hfacts
  refine h.step hi (h.toFlagKept.take hi ht) rfl rfl (Nat.le_refl _) (fun _ => .rfl)
    (fun _ => id) (fun d hm => ?_) (fun d _ _ hm => ⟨r', mem_set_self hi r', hminds d hm⟩) hother
    (fun d hd => h.cached r (mem_of_get hi) d (hsends d hd)) fun d id he => absurd he (hcarry d id)
  rcases mem_set hm with he | hm
  · exact absurd he.symm (hbusy d)
  · exact Finset.mem_insert_of_mem (h.busy d hm)

theorem free (h : Minded s roles) (hi : roles[i]? = some r) (hf : Frees c r) :
    Minded (unflagged c s) (roles.set i (.freed c)) := by
  have hflag := h.toFlagKept.free hi hf
  have hminds : r.minds = none := by cases hf <;> rfl
  refine h.step hi hflag rfl rfl (Nat.le_refl _) (fun _ => .rfl) (fun _ => id) (fun d hm => ?_)
    (by simp [hminds]) (by simp) (by simp [Role.sends]) (by simp)
  have hone := Nat.le_trans hflag.held (toNat_le_one _)
  cases holders_eq hone hm (mem_set_self hi _) rfl rfl

theorem lock {x : Site} (h : Minded s roles) (hi : roles[i]? = some r)
    (hfree : s.routingLock = false) (hl : Locks x r r') : Minded (locked s) (roles.set i r') := by
  have hfacts : r'.minds = r.minds ∧ r' ≠ .other ∧ r'.sends = none ∧
      (∀ d, r' ≠ .busy d) ∧ ∀ d id, r' ≠ .carrying d id := by
    cases hl <;> exact ⟨rfl, by simp, rfl, by simp, by simp⟩
  obtain ⟨hminds, hother, hsends, hbusy, hcarry⟩ := hfacts
  refine h.step hi (h.toFlagKept.lock hi hfree hl) rfl rfl (Nat.le_refl _) (fun _ => .rfl)
    (fun _ => id) (h.busy_set hi rfl fun d he => absurd he (hbusy d)) (fun d _ _ hm => ?_) hother
    (by simp [hsends]) fun d id he => absurd he (hcarry d id)
  exact ⟨r', mem_set_self hi r', hminds.trans hm⟩

theorem drop (h : Minded s roles) (hi : roles[i]? = some r) (hd : Drops c r r')
    (hwhy : ¬ HasPending s c ∨ ¬ IsAuto s c) : Minded s (roles.set i r') := by
  have hflag := h.toFlagKept.drop hi hd
  have hfacts : r.minds = some c ∧ r' ≠ .other ∧ (∀ d, r'.sends = some d → r.sends = some d) ∧
      (∀ d, r' ≠ .busy d) ∧ ∀ d id, r' ≠ .carrying d id := by
    cases hd <;> exact ⟨rfl, by simp, by simp [Role.sends], by simp, by simp⟩
  obtain ⟨hminds, hother, hsends, hbusy, hcarry⟩ := hfacts
  refine h.quiet hi hflag (.refl s) (fun d he => absurd he (hbusy d)) (fun d hp ha hm => ?_) hother
    (fun d hd => h.cached r (mem_of_get hi) d (hsends d hd)) fun d id he => absurd he (hcarry d id)
  rw [hminds] at hm
  cases hm
  rcases hwhy with hn | hn
  · exact absurd hp hn
  · exact absurd ha hn

/-- From here on `send_message` relies on the cache entry it has found. -/
theorem enter (h : Minded s roles) (hi : roles[i]? = some (.holding c)) (hc : Cached s c) :
    Minded s (roles.set i (.admitted c)) := by
  have hflag : FlagKept s (roles.set i (.admitted c)) :=
    h.toFlagKept.keep hi rfl rfl (Nat.le_refl _) (FlagKept.keys_refl s) id (by simp [Role.owns])
      (by simp [Role.drains]) (by simp)
  refine h.quiet hi hflag (.refl s) (by simp) (by simp [Role.minds]) (by simp) ?_ (by simp)
  rintro _ ⟨⟩
  exact hc

theorem number {n : Nat} (h : Minded s roles) (hi : roles[i]? = some (.claiming c))
    (hn : ∀ q ∈ s.store.prompts, q.chatId = c → q.seq ≠ n) :
    Minded s (roles.set i (.numbered c n)) :=
  h.quiet hi (h.toFlagKept.number hi hn) (.refl s) (by simp)
    (fun _ _ _ hm => ⟨_, mem_set_self hi _, hm⟩) (by simp)
    (fun d hd => h.cached (.claiming c) (mem_of_get hi) d hd) (by simp)

theorem claimed (h : Minded s roles) (hi : roles[i]? = some (.claiming c)) (hq : Quiet s s') :
    Minded s' (roles.set i (.claimed c)) := by
  have hflag : FlagKept s' (roles.set i (.claimed c)) :=
    h.toFlagKept.quiet hi hq id (fun _ => id) (by simp [Role.drains]) (by simp)
  exact h.quiet hi hflag hq (by simp) (fun _ _ _ hm => ⟨_, mem_set_self hi _, hm⟩) (by simp)
    (by simp [Role.sends]) (by simp)

theorem mind (h : Minded s roles) (hi : roles[i]? = some (.idle c)) (hq : Quiet s s') :
    Minded s' (roles.set i (.kicking c)) := by
  have hflag : FlagKept s' (roles.set i (.kicking c)) :=
    h.toFlagKept.quiet hi hq id (by simp [Role.owns]) (by simp [Role.drains]) (by simp)
  exact h.quiet hi hflag hq (by simp) (by simp [Role.minds]) (by simp) (by simp [Role.sends])
    (by simp)

theorem minds_of_drains {x : Role} (h : x.drains = some c) : x.minds = some c := by
  cases x <;> first | exact h | cases h

/-- A `send_message` that fails with the flag taken has lost its seq to a task
of the chat, which sees to the backlog. -/
theorem leak {call : Call} {w : Choice} (h : Minded s roles) (hi : roles[i]? = some r)
    (hr : r = .claiming c ∨ ∃ n, r = .numbered c n)
    (hwhy : w.fail = true ∧ call.stores = true ∨ Refuses s c call r) (hw : w.fail = false)
    (hq : Quiet s s') : Minded s' (roles.set i (.leaking c)) := by
  have hfacts : r.sends = some c ∧ r.drains = none ∧ ∀ d, r.minds = some d → d = c := by
    rcases hr with rfl | ⟨n, rfl⟩ <;> exact ⟨rfl, rfl, fun d hd => (Option.some.inj hd).symm⟩
  obtain ⟨hsends, hdrains, hminds⟩ := hfacts
  have hcached := h.cached r (mem_of_get hi) c hsends
  have hclash := h.toFlagKept.clash hi hr hwhy (fun _ => hcached) (fun _ => h.rows c hcached)
    fun _ => hw
  refine h.quiet hi (h.toFlagKept.leak hi hr hq hclash) hq (by simp) (fun d _ _ hm => ?_) (by simp)
    (by simp [Role.sends]) (by simp)
  obtain ⟨x, hx, hd⟩ := FlagKept.drains_set (q := .leaking c) hi (by simp [hdrains]) hclash
  exact ⟨x, hx, hminds d hm ▸ minds_of_drains hd⟩

theorem store {row : PromptRow} (h : Minded s roles) (hi : roles[i]? = some r)
    (hs : Stores c r r') (hid : row.id = s.nextId) (hc : row.chatId = c) :
    Minded { s with store := { s.store with prompts := s.store.prompts ++ [row] }
                    nextId := s.nextId + 1 } (roles.set i r') := by
  have hfacts : r'.minds = r.minds ∧ (∀ d, r'.sends = some d → r.sends = some d) ∧
      (∀ d, r' ≠ .busy d) ∧ (∀ d id, r' = .carrying d id → r = .carrying d id) ∧ r' ≠ .other := by
    cases hs <;> exact ⟨rfl, fun _ => id, by simp, by simp, by simp⟩
  obtain ⟨hminds, hsends, hbusy, hcarry, hother⟩ := hfacts
  refine h.step hi (h.toFlagKept.store hi hs hid hc) rfl rfl (Nat.le_succ _) (fun _ => .rfl)
    (fun _ => id) (h.busy_set hi rfl fun d he => absurd he (hbusy d)) (fun d _ _ hm => ?_) hother
    (fun d hd => h.cached r (mem_of_get hi) d (hsends d hd)) hcarry
  exact ⟨r', mem_set_self hi r', hminds.trans hm⟩

/-- A message that joins the queue is minded: by its sender, or by the owner of
the flag the sender saw. -/
theorem enqueue {row : QueueItemRow} (h : Minded s roles) (hi : roles[i]? = some r)
    (he : r = .busy c ∧ r' = .busy c ∨ r = .clear c ∧ r' = .backlog c) (hid : row.id = s.nextId)
    (hc : row.chatId = c) :
    Minded { setItems (s.store.items ++ [row]) s with nextId := s.nextId + 1 }
      (roles.set i r') := by
  have hmem := mem_of_get hi
  have hold : ∀ x ∈ s.store.items, x.id ≠ row.id := by
    intro x hx he
    have := h.itemIds x hx
    rw [he, hid] at this
    exact absurd this (Nat.lt_irrefl _)
  have hfacts : r'.sends = some c ∧ r.sends = some c ∧ r.minds = none ∧ r' ≠ .other ∧
      (∀ d, r' = .busy d → r = .busy d) ∧ ∀ d id, r' ≠ .carrying d id := by
    rcases he with ⟨rfl, rfl⟩ | ⟨rfl, rfl⟩ <;> exact ⟨rfl, rfl, rfl, by simp, by simp, by simp⟩
  obtain ⟨hsends', hsends, hminds, hother, hbusy, hcarry⟩ := hfacts
  have hflag : FlagKept { setItems (s.store.items ++ [row]) s with nextId := s.nextId + 1 }
      (roles.set i r') := by
    rcases he with ⟨rfl, rfl⟩ | ⟨rfl, rfl⟩
    · exact h.toFlagKept.same hi rfl rfl (Nat.le_succ _) (FlagKept.keys_refl s)
    · exact h.toFlagKept.keep hi rfl rfl (Nat.le_succ _) (FlagKept.keys_refl s) id
        (by simp [Role.owns]) (by simp [Role.drains]) (by simp)
  refine ⟨hflag, fun hm => ?_, fun d hp ha => ?_, h.busy_set hi rfl hbusy, fun x hx d hd => ?_,
    h.rows, fun j hj => ?_, fun j hj k hk hjk => ?_, fun d id hm => ?_⟩
  · rcases mem_set hm with he | hm
    · exact hother he.symm
    · exact h.routes hm
  · by_cases hdc : d = c
    · subst hdc
      rcases he with ⟨rfl, rfl⟩ | ⟨rfl, rfl⟩
      · exact minder_of_flag hflag (mem_set_self hi _) rfl (by simp) (h.busy d hmem)
      · exact ⟨_, mem_set_self hi _, rfl⟩
    · obtain ⟨j, hj, hjc, hjp⟩ := hp
      refine minds_set hi (by simp [hminds]) (h.minded d ⟨j, ?_, hjc, hjp⟩ ha)
      rcases List.mem_append.mp hj with hj | hj
      · exact hj
      · rw [List.mem_singleton.mp hj, hc] at hjc
        exact absurd hjc.symm hdc
  · rcases mem_set hx with rfl | hx
    · rw [hsends'] at hd
      exact h.cached r hmem d (hsends.trans hd)
    · exact h.cached x hx d hd
  · rcases List.mem_append.mp hj with hj | hj
    · exact Nat.lt_succ_of_lt (h.itemIds j hj)
    · rw [List.mem_singleton.mp hj, hid]
      exact Nat.lt_succ_self _
  · rcases List.mem_append.mp hj with hj | hj
    · rcases List.mem_append.mp hk with hk | hk
      · exact h.itemChat j hj k hk hjk
      · rw [List.mem_singleton.mp hk] at hjk
        exact absurd hjk (hold j hj)
    · rcases List.mem_append.mp hk with hk | hk
      · rw [List.mem_singleton.mp hj] at hjk
        exact absurd hjk.symm (hold k hk)
      · rw [List.mem_singleton.mp hj, List.mem_singleton.mp hk]
  · have hm' : .carrying d id ∈ roles := by
      rcases mem_set hm with he | hm
      · exact absurd he.symm (hcarry d id)
      · exact hm
    obtain ⟨hlt, hchat⟩ := h.carried d id hm'
    refine ⟨Nat.lt_succ_of_lt hlt, fun j hj hji => ?_⟩
    rcases List.mem_append.mp hj with hj | hj
    · exact hchat j hj hji
    · rw [List.mem_singleton.mp hj, hid] at hji
      exact absurd (hji ▸ hlt) (Nat.lt_irrefl _)

/-- Popping, finishing and giving back items: an item that becomes pending again
is in the hands of the task that gives it back. -/
theorem items {items : List QueueItemRow} (h : Minded s roles) (hi : roles[i]? = some r)
    (hh : Handles c s.store.items r r')
    (hfrom : ∀ i' ∈ items, ∃ i ∈ s.store.items, i.id = i'.id ∧ i.chatId = i'.chatId ∧
      (QueueRepo.isPending i' = true → QueueRepo.isPending i = true ∨ r = .carrying c i'.id)) :
    Minded (setItems items s) (roles.set i r') := by
  have hmem := mem_of_get hi
  have hfacts : r'.minds = r.minds ∧ r'.sends = r.sends ∧ r' ≠ .other ∧
      (∀ d, r' = .busy d → r = .busy d) ∧ r'.owns = r.owns ∧ r'.drains = r.drains ∧
      r'.holds = r.holds ∧ ∀ d n, r' ≠ .numbered d n := by
    cases hh <;> exact ⟨rfl, rfl, by simp, by simp, rfl, rfl, rfl, by simp⟩
  obtain ⟨hminds, hsends, hother, hbusy, howns, hdrains, hholds, hnum⟩ := hfacts
  have hflag : FlagKept (setItems items s) (roles.set i r') :=
    h.toFlagKept.keep hi rfl rfl (Nat.le_refl _) (FlagKept.keys_refl s) (by simp [hholds])
      (by simp [howns]) (by simp [hdrains]) fun d n he => absurd he (hnum d n)
  refine ⟨hflag, fun hm => ?_, fun d hp ha => ?_, h.busy_set hi rfl hbusy, fun x hx d hd => ?_,
    h.rows, fun j hj => ?_, fun j hj k hk hjk => ?_, fun d id hm => ?_⟩
  · rcases mem_set hm with he | hm
    · exact hother he.symm
    · exact h.routes hm
  · obtain ⟨i', hi', hic, hip⟩ := hp
    obtain ⟨j, hj, hjid, hjc, hjp⟩ := hfrom i' hi'
    rcases hjp hip with hjp | hr
    · exact minds_set hi (by simp [hminds]) (h.minded d ⟨j, hj, hjc.trans hic, hjp⟩ ha)
    · have hcar := (h.carried c i'.id (hr ▸ hmem)).2 j hj hjid
      have hdc : d = c := hic.symm.trans (hjc.symm.trans hcar)
      refine ⟨r', mem_set_self hi r', ?_⟩
      rw [hminds, hr, hdc]
      rfl
  · rcases mem_set hx with rfl | hx
    · exact h.cached r hmem d (hsends.symm.trans hd)
    · exact h.cached x hx d hd
  · obtain ⟨k, hk, hid, -, -⟩ := hfrom j hj
    exact hid ▸ h.itemIds k hk
  · obtain ⟨j₀, hj₀, hjid, hjc, -⟩ := hfrom j hj
    obtain ⟨k₀, hk₀, hkid, hkc, -⟩ := hfrom k hk
    exact hjc ▸ hkc ▸ h.itemChat j₀ hj₀ k₀ hk₀ (hjid.trans (hjk.trans hkid.symm))
  · have hcar : id < s.nextId ∧ ∀ j ∈ s.store.items, j.id = id → j.chatId = d := by
      rcases mem_set hm with he | hm
      · cases hh with
        | take ht =>
          cases he
          obtain ⟨j, hj, hjid, hjc⟩ := ht
          refine ⟨hjid ▸ h.itemIds j hj, fun k hk hkid => ?_⟩
          exact (h.itemChat k hk j hj (hkid.trans hjid.symm)).trans hjc
        | keep => exact h.carried d id (he ▸ hmem)
        | _ => cases he
      · exact h.carried d id hm
    refine ⟨hcar.1, fun j hj hjid => ?_⟩
    obtain ⟨k, hk, hkid, hkc, -⟩ := hfrom j hj
    exact hkc ▸ hcar.2 k hk (hkid.trans hjid)

theorem mode {mode : QueueMode} (h : Minded s roles) (hi : roles[i]? = some (.idle c))
    (hm : mode = .auto ∧ r = .kicking c ∨ mode = .manual ∧ r = .idle c) :
    Minded { s with store := { s.store with
      modes := Function.update s.store.modes c (some mode) } } (roles.set i r) := by
  have hfacts : r ≠ .other ∧ r.sends = none ∧ (∀ d, r ≠ .busy d) ∧ r.holds = false ∧
      (∀ d n, r ≠ .numbered d n) ∧ ∀ d id, r ≠ .carrying d id := by
    rcases hm with ⟨-, rfl⟩ | ⟨-, rfl⟩ <;> exact ⟨by simp, rfl, by simp, rfl, by simp, by simp⟩
  obtain ⟨hother, hsends, hbusy, hholds, hnum, hcarry⟩ := hfacts
  have hflag : FlagKept { s with store := { s.store with
      modes := Function.update s.store.modes c (some mode) } } (roles.set i r) :=
    h.toFlagKept.keep hi rfl rfl (Nat.le_refl _) (FlagKept.keys_refl s) (by simp [hholds])
      (by simp [Role.owns]) (by simp [Role.drains]) fun d n he => absurd he (hnum d n)
  refine ⟨hflag, fun hm => ?_, fun d hp ha => ?_,
    h.busy_set hi rfl fun d he => absurd he (hbusy d), fun x hx d hd => ?_, h.rows, h.itemIds,
    h.itemChat, fun d id hm => ?_⟩
  · rcases mem_set hm with he | hm
    · exact hother he.symm
    · exact h.routes hm
  · by_cases hdc : d = c
    · subst hdc
      rcases hm with ⟨rfl, rfl⟩ | ⟨rfl, rfl⟩
      · exact ⟨_, mem_set_self hi _, rfl⟩
      · simp [IsAuto, QueueRepo.getMode] at ha
    · have ha' : IsAuto s d := by
        unfold IsAuto QueueRepo.getMode at ha ⊢
        simpa [Function.update_of_ne hdc] using ha
      exact minds_set hi (by simp [Role.minds]) (h.minded d hp ha')
  · rcases mem_set hx with rfl | hx
    · rw [hsends] at hd
      cases hd
    · exact h.cached x hx d hd
  · rcases mem_set hm with he | hm
    · exact absurd he.symm (hcarry d id)
    · exact h.carried d id hm

theorem fork {tag : Tag} {rc : Role} (h : Minded s roles) (hi : roles[i]? = some r)
    (hf : Forks r tag rc r') : Minded s (roles.set i r' ++ [rc]) := by
  have hfacts : rc.minds = r.minds ∧ (∀ x, x = r' ∨ x = rc → x ≠ .other ∧ x.sends = none ∧
      (∀ d, x ≠ .busy d) ∧ ∀ d id, x ≠ .carrying d id) := by
    cases hf
    all_goals refine ⟨rfl, ?_⟩
    all_goals rintro x (rfl | rfl) <;> exact ⟨by simp, rfl, by simp, by simp⟩
  obtain ⟨hminds, hnew⟩ := hfacts
  have hmem : ∀ {x}, x ∈ roles.set i r' ++ [rc] → (x = r' ∨ x = rc) ∨ x ∈ roles := by
    intro x hx
    rcases List.mem_append.mp hx with hx | hx
    · exact (mem_set hx).imp_left .inl
    · exact .inl (.inr (List.mem_singleton.mp hx))
  refine ⟨h.toFlagKept.fork hi hf, fun hm => ?_, fun d hp ha => ?_, fun d hm => ?_,
    fun x hx d hd => ?_, h.rows, h.itemIds, h.itemChat, fun d id hm => ?_⟩
  · rcases hmem hm with he | hm
    · exact (hnew _ he).1 rfl
    · exact h.routes hm
  · obtain ⟨x, hx, hxm⟩ := h.minded d hp ha
    by_cases hne : x = r
    · subst hne
      exact ⟨rc, by simp, hminds.trans hxm⟩
    · exact ⟨x, List.mem_append_left _ (mem_set_of_ne hi hx hne r'), hxm⟩
  · rcases hmem hm with he | hm
    · exact absurd rfl ((hnew _ he).2.2.1 d)
    · exact h.busy d hm
  · rcases hmem hx with he | hx
    · rw [(hnew _ he).2.1] at hd
      cases hd
    · exact h.cached x hx d hd
  · rcases hmem hm with he | hm
    · exact absurd rfl ((hnew _ he).2.2.2 d id)
    · exact h.carried d id hm

theorem arrive (h : Minded s roles) {request : Request} (hr : request.routes = true) :
    Minded s (roles ++ [request.role]) := by
  have hfacts : request.role ≠ .other ∧ request.role.sends = none ∧
      (∀ d, request.role ≠ .busy d) ∧ ∀ d id, request.role ≠ .carrying d id := by
    cases request <;> first
      | (simp [Request.routes] at hr; done)
      | exact ⟨by simp [Request.role, Request.routes], rfl, by simp [Request.role, Request.routes],
          by simp [Request.role, Request.routes]⟩
  obtain ⟨hother, hsends, hbusy, hcarry⟩ := hfacts
  have hmem : ∀ {x}, x ∈ roles ++ [request.role] → x = request.role ∨ x ∈ roles := by
    intro x hx
    rcases List.mem_append.mp hx with hx | hx
    · exact .inr hx
    · exact .inl (List.mem_singleton.mp hx)
  refine ⟨h.toFlagKept.arrive request, fun hm => ?_, fun d hp ha => ?_, fun d hm => ?_,
    fun x hx d hd => ?_, h.rows, h.itemIds, h.itemChat, fun d id hm => ?_⟩
  · rcases hmem hm with he | hm
    · exact hother he.symm
    · exact h.routes hm
  · obtain ⟨x, hx, hxm⟩ := h.minded d hp ha
    exact ⟨x, List.mem_append_left _ hx, hxm⟩
  · rcases hmem hm with he | hm
    · exact absurd he.symm (hbusy d)
    · exact h.busy d hm
  · rcases hmem hx with rfl | hx
    · rw [hsends] at hd
      cases hd
    · exact h.cached x hx d hd
  · rcases hmem hm with he | hm
    · exact absurd he.symm (hcarry d id)
    · exact h.carried d id hm

end Minded

theorem minded_kept : routing.Kept Minded where
  sees _ _ _ _ _ _ := trivial
  sync s roles i r r' s' hv hi hm := by
    cases hm with
    | quiet h => exact hv.stay hi h
    | answered l => exact hv.answered hi l
    | apart h => exact absurd rfl (hv.not_other hi)
    | unlock h => exact hv.unlock hi h
    | look h => exact hv.look hi h
    | take h => exact hv.take hi h
    | free h => exact hv.free hi h
    | mind h => exact hv.mind hi h
  fork s roles i r tag rc r' hv hi hf := hv.fork hi hf

/-- Every await keeps the backlog minded as long as no store call fails: the
chats that messages are sent to are cached, hence stored. -/
theorem minded_await {x : Site} {w : Choice} (hv : Minded s roles) (hi : roles[i]? = some r)
    (hm : Moves (some (x, w)) r s r' s') (hw : w.fail = false) : Minded s' (roles.set i r') := by
  cases hm with
  | quiet h => exact hv.stay hi h
  | apart h => exact absurd rfl (hv.not_other hi)
  | lock hfree h => exact hv.lock hi hfree h
  | enter h => exact hv.enter hi h
  | drop h hwhy =>
    exact hv.drop hi h (hwhy.resolve_left (by simp [hw]))
  | number h => exact hv.number hi h
  | store h hid hc => exact hv.store hi h hid hc
  | claimed h => exact hv.claimed hi h
  | leak hr hcall hwhy h => exact hv.leak hi hr hwhy hw h
  | enqueue h hid hc => exact hv.enqueue hi h hid hc
  | items h hfrom => exact hv.items hi h hfrom
  | mode h => exact hv.mode hi h
  | mind h => exact hv.mind hi h

end Minding

/-- Only the routing requests, none of whose store calls fails. -/
def Smooth (_ : Server) : ServerEvent → Prop
  | .arrive request => request.routes = true
  | .run _ w => w.fail = false

instance (p : Server) : (e : ServerEvent) → Decidable (Smooth p e)
  | .arrive request => inferInstanceAs (Decidable (request.routes = true))
  | .run _ w => inferInstanceAs (Decidable (w.fail = false))

/-- A server that has just started and has no backlog to see to. -/
structure Settled (s : AppState) : Prop where
  idle : s.dispatching = ∅
  promptIds : ∀ q ∈ s.store.prompts, q.id < s.nextId
  itemIds : ∀ i ∈ s.store.items, i.id < s.nextId
  itemChat : ∀ i ∈ s.store.items, ∀ j ∈ s.store.items, i.id = j.id → i.chatId = j.chatId
  rows : ∀ c, Cached s c → Stored s c
  backlog : ∀ c, HasPending s c → ¬ IsAuto s c

theorem Settled.minded {s : AppState} (h : Settled s) : Minded s [] where
  held := Nat.zero_le _
  fresh := h.promptIds
  kept c hc := by
    rw [h.idle] at hc
    cases hc
  picked := by simp
  routes := by simp
  minded c hp ha := absurd ha (h.backlog c hp)
  busy := by simp
  cached := by simp
  rows := h.rows
  itemIds := h.itemIds
  itemChat := h.itemChat
  carried := by simp

theorem smooth_run {s : AppState} {p : Server} (hs : Settled s)
    (h : Pool.Reaches entry Smooth ⟨s, []⟩ p) :
    ∃ roles, routing.Coupled p roles ∧ Minded p.shared roles := by
  refine minded_kept.reaches ?_ ?_ h (coupled_start s) hs.minded
  · intro p roles request hc hv hg
    exact ⟨request.role, entry_follows request, hv.arrive hg⟩
  · intro p roles i w x r r' s' hc hv hg hat hr hm
    exact minded_await hv hr hm hg

theorem RestsHandler.chat {c d : Uuid} {x : Site} {r : Role} (h : RestsHandler c x r)
    (hm : r.minds = some d) : c = d := by
  cases r with
  | numbered e n =>
    obtain ⟨rfl, -⟩ := h
    exact Option.some.inj hm
  | task e => exact h.elim
  | carrying e n => exact h.elim
  | clearing e => exact h.elim
  | kicking e => exact Option.some.inj (h.1.symm.trans hm)
  | kickHeld e => exact Option.some.inj (h.1.symm.trans hm)
  | kickClear e => exact Option.some.inj (h.1.symm.trans hm)
  | backlog e => exact Option.some.inj (h.1.symm.trans hm)
  | claiming e => exact Option.some.inj (h.1.symm.trans hm)
  | claimed e => exact Option.some.inj (h.1.symm.trans hm)
  | promised e => exact Option.some.inj (h.1.symm.trans hm)
  | _ => cases hm

/-- Whoever sees to a chat's backlog is a task of that chat that has not ended. -/
theorem minder_unfinished {t : Task} {r : Role} {c : Uuid} (hrest : Rests t.tag t.site r)
    (hm : r.minds = some c) :
    (t.tag = .handler c ∨ t.tag = .dispatch c ∨ t.tag = .drain c) ∧ t.finished = false := by
  cases hs : t.site with
  | none =>
    exfalso
    rw [hs] at hrest
    cases ht : t.tag with
    | handler d =>
      rw [ht] at hrest
      rcases hrest with rfl | rfl
      · cases hm
      · cases hm
    | _ =>
      rw [ht] at hrest
      cases hrest
      cases hm
  | some x =>
    refine ⟨?_, finished_of_site hs⟩
    rw [hs] at hrest
    have htask : ∀ d, RestsTask d x r → d = c := by
      intro d hd
      rcases minds_of_owns hd.owns with hd | rfl
      · exact Option.some.inj (hd.symm.trans hm)
      · cases hm
    cases ht : t.tag with
    | handler d =>
      rw [ht] at hrest
      exact .inl (congrArg Tag.handler (RestsHandler.chat hrest hm))
    | dispatch d =>
      rw [ht] at hrest
      exact .inr (.inl (congrArg Tag.dispatch (htask d hrest)))
    | drain d =>
      rw [ht] at hrest
      exact .inr (.inr (congrArg Tag.drain (htask d hrest)))
    | guard d =>
      rw [ht] at hrest
      obtain ⟨rfl, -⟩ := hrest
      cases hm

/-- No backlog is stranded: once every handler, dispatch task and drain task of a
chat in auto mode has ended, nothing is pending in its queue. -/
theorem no_stranded_backlog {s : AppState} {p : Server} (hs : Settled s)
    (h : Pool.Reaches entry Smooth ⟨s, []⟩ p) {c : Uuid}
    (hidle : ∀ t ∈ p.threads, t.tag = .handler c ∨ t.tag = .dispatch c ∨ t.tag = .drain c →
      t.finished = true)
    (hauto : IsAuto p.shared c) : ¬ HasPending p.shared c := by
  intro hpending
  obtain ⟨roles, hc, hv⟩ := smooth_run hs h
  obtain ⟨r, hr, hm⟩ := hv.minded c hpending hauto
  obtain ⟨i, hi⟩ := List.getElem?_of_mem hr
  obtain ⟨t, ht, hrest⟩ := hc.thread hi
  obtain ⟨htag, hfin⟩ := minder_unfinished hrest hm
  rw [hidle t (List.mem_of_getElem? ht) htag] at hfin
  cases hfin

/-- A message queued behind a turn and drained once auto mode is on. -/
def queuedSend : List ServerEvent :=
  [.arrive (.sendMessage 1 ['a'])] ++ rounds 0 10 ++ [.arrive (.sendMessage 1 ['b'])] ++
    rounds 2 6 ++ [.arrive (.setMode 1 .auto)] ++ rounds 3 2 ++ rounds 1 28

theorem no_stranded_backlog_queued :
    ∃ p : Server, (Pool.Reaches entry Smooth ⟨serve freshStore 10 [], []⟩ p ∧
      IsAuto p.shared 1 ∧ p.shared.store.prompts.length = 2) ∧ ¬ HasPending p.shared 1 := by
  have hrun : (Pool.play entry Smooth ⟨serve freshStore 10 [], []⟩ queuedSend).map (fun p =>
      (decide (QueueRepo.getMode p.shared.store.modes 1 = .auto), p.shared.store.prompts.length,
        p.threads.map (fun t => (t.tag, t.finished)))) =
      some (true, 2, [(.handler 1, true), (.dispatch 1, true), (.handler 1, true),
        (.handler 1, true), (.guard 1, false)]) := by decide
  obtain ⟨p, hp, he⟩ := Option.map_eq_some_iff.mp hrun
  simp only [Prod.mk.injEq, decide_eq_true_eq] at he
  obtain ⟨hauto, hlen, hthreads⟩ := he
  have hsettled : Settled (serve freshStore 10 []) := by
    refine ⟨rfl, by decide, by decide, by decide, fun c hc => ?_, by simp [HasPending, serve, startup,
      freshStore, QueueRepo.recoverStaleRunning]⟩
    by_cases h1 : c = 1
    · subst h1
      decide
    · simp [Cached, serve, startup, hydrateFromStore, ChatRepo.listAll, freshStore, freshChat,
        ChatRepo.create, recordOfRow, h1] at hc
  refine ⟨p, ⟨Pool.play_reaches hp, hauto, hlen⟩,
    no_stranded_backlog hsettled (Pool.play_reaches hp) (fun t ht htag => ?_) hauto⟩
  have hm : (t.tag, t.finished) ∈ p.threads.map (fun t => (t.tag, t.finished)) :=
    List.mem_map_of_mem (f := fun t : Task => (t.tag, t.finished)) ht
  rw [hthreads] at hm
  rcases htag with htag | htag | htag
  · simpa [htag] using hm
  · simpa [htag] using hm
  · simp [htag] at hm

end AgentGrove
