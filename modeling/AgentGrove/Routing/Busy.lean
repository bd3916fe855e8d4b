import AgentGrove.Routing.OneTurn

namespace AgentGrove

open Coop

/-- The chat whose queue a role will look at again before it lets go of the flag. -/
def Role.drains : Role → Option Uuid
  | .task c | .carrying c _ | .clearing c => some c
  | _ => none

theorem Role.owns_of_drains {r : Role} {c : Uuid} (h : r.drains = some c) : r.owns = some c := by
  cases r <;> first | exact h | cases h

/-- Every flag that is set has an owner. A `send_message` that has picked its seq
finds it taken only while a task of its chat is about. -/
structure FlagKept (s : AppState) (roles : List Role) : Prop where
  held : roles.countP Role.holds ≤ s.routingLock.toNat
  fresh : ∀ q ∈ s.store.prompts, q.id < s.nextId
  kept : ∀ c ∈ s.dispatching, 0 < owners c roles
  picked : ∀ c n, .numbered c n ∈ roles → (∃ q ∈ s.store.prompts, q.chatId = c ∧ q.seq = n) →
    ∃ r ∈ roles, r.drains = some c

namespace FlagKept

variable {s s' : AppState} {roles : List Role} {i : Nat} {r r' : Role} {c : Uuid}

theorem owners_set_ge {q : Role} (hi : roles[i]? = some r)
    (h : ∀ c, r.owns = some c → q.owns = some c) (c : Uuid) :
    owners c roles ≤ owners c (roles.set i q) := by
  have hset := owners_set hi c q
  by_cases h' : r.owns = some c
  · simp only [h', h c h', decide_true] at hset
    omega
  · simp only [h', decide_false, Bool.toNat_false] at hset
    omega

theorem drains_set {q : Role} (hi : roles[i]? = some r)
    (h : ∀ c, r.drains = some c → q.drains = some c) (hx : ∃ x ∈ roles, x.drains = some c) :
    ∃ x ∈ roles.set i q, x.drains = some c := by
  obtain ⟨x, hx, hd⟩ := hx
  by_cases hne : x = r
  · subst hne
    exact ⟨q, mem_set_self hi q, h c hd⟩
  · exact ⟨x, mem_set_of_ne hi hx hne q, hd⟩

/-- Moves that lose nothing, set no flag and store no prompt. -/
theorem keep (h : FlagKept s roles) (hi : roles[i]? = some r)
    (hd : s'.dispatching = s.dispatching) (hl : s'.routingLock = s.routingLock)
    (hn : s.nextId ≤ s'.nextId)
    (hk : ∀ q' ∈ s'.store.prompts, ∃ q ∈ s.store.prompts, q.key = q'.key)
    (hholds : r'.holds = true → r.holds = true)
    (howns : ∀ c, r.owns = some c → r'.owns = some c)
    (hdrains : ∀ c, r.drains = some c → r'.drains = some c)
    (hnum : ∀ c n, r' = .numbered c n → r = .numbered c n) : FlagKept s' (roles.set i r') := by
  refine ⟨?_, fun q' hq' => ?_, fun c hc => ?_, fun c n hm hq => ?_⟩
  · rw [hl]
    exact Nat.le_trans (holds_set_le hi hholds) h.held
  · obtain ⟨q, hq, he⟩ := hk q' hq'
    have hid : q.id = q'.id := congrArg (fun k => k.1) he
    exact Nat.lt_of_lt_of_le (hid ▸ h.fresh q hq) hn
  · have := owners_set_ge hi howns c
    have := h.kept c (hd ▸ hc)
    omega
  · have hm' : .numbered c n ∈ roles := by
      rcases mem_set hm with he | hm
      · exact hnum c n he.symm ▸ mem_of_get hi
      · exact hm
    obtain ⟨q', hq', hc, hs⟩ := hq
    obtain ⟨q, hq, he⟩ := hk q' hq'
    have hchat : q.chatId = q'.chatId := congrArg (fun k => k.2.1) he
    have hseq : q.seq = q'.seq := congrArg (fun k => k.2.2.1) he
    exact drains_set hi hdrains (h.picked c n hm' ⟨q, hq, hchat.trans hc, hseq.trans hs⟩)

theorem same (h : FlagKept s roles) (hi : roles[i]? = some r)
    (hd : s'.dispatching = s.dispatching) (hl : s'.routingLock = s.routingLock)
    (hn : s.nextId ≤ s'.nextId)
    (hk : ∀ q' ∈ s'.store.prompts, ∃ q ∈ s.store.prompts, q.key = q'.key) :
    FlagKept s' (roles.set i r) :=
  h.keep hi hd hl hn hk id (fun _ => id) (fun _ => id) fun _ _ => id

theorem keys_refl (s : AppState) : ∀ q' ∈ s.store.prompts, ∃ q ∈ s.store.prompts, q.key = q'.key :=
  fun q' hq' => ⟨q', hq', rfl⟩

theorem quiet_keys (h : Quiet s s') :
    ∀ q' ∈ s'.store.prompts, ∃ q ∈ s.store.prompts, q.key = q'.key := by
  intro q' hq'
  have hm : q'.key ∈ s.store.prompts.map PromptRow.key := h.keys ▸ List.mem_map_of_mem hq'
  exact List.mem_map.mp hm

theorem quiet (h : FlagKept s roles) (hi : roles[i]? = some r) (hq : Quiet s s')
    (hholds : r'.holds = true → r.holds = true)
    (howns : ∀ c, r.owns = some c → r'.owns = some c)
    (hdrains : ∀ c, r.drains = some c → r'.drains = some c)
    (hnum : ∀ c n, r' = .numbered c n → r = .numbered c n) : FlagKept s' (roles.set i r') :=
  h.keep hi hq.dispatching hq.routingLock (Nat.le_of_eq hq.nextId.symm) (quiet_keys hq) hholds
    howns hdrains hnum

theorem unlock (h : FlagKept s roles) (hi : roles[i]? = some r) (hu : Unlocks r r') :
    FlagKept (unlocked s) (roles.set i r') := by
  have hfacts : r.holds = true ∧ r'.holds = false ∧ r'.owns = r.owns ∧ r'.drains = r.drains ∧
      ∀ c n, r' ≠ .numbered c n := by
    cases hu <;> exact ⟨rfl, rfl, rfl, rfl, by simp⟩
  obtain ⟨hr, hr', howns, hdrains, hnum⟩ := hfacts
  have hkeep : FlagKept s (roles.set i r') :=
    h.keep hi rfl rfl (Nat.le_refl _) (keys_refl s) (by simp [hr']) (by simp [howns])
      (by simp [hdrains]) fun c n he => absurd he (hnum c n)
  refine ⟨?_, hkeep.fresh, hkeep.kept, hkeep.picked⟩
  have hset := countP_set_add hi Role.holds r'
  rw [hr, hr'] at hset
  have := h.held
  have := toNat_le_one s.routingLock
  simp only [Bool.toNat_true, Bool.toNat_false] at hset
  simp only [unlocked, Bool.toNat_false]
  omega

theorem lock {x : Site} (h : FlagKept s roles) (hi : roles[i]? = some r)
    (hfree : s.routingLock = false) (hl : Locks x r r') :
    FlagKept (locked s) (roles.set i r') := by
  have hfacts : r.holds = false ∧ r'.holds = true ∧ r'.owns = r.owns ∧ r'.drains = r.drains ∧
      ∀ c n, r' ≠ .numbered c n := by
    cases hl <;> exact ⟨rfl, rfl, rfl, rfl, by simp⟩
  obtain ⟨hr, hr', howns, hdrains, hnum⟩ := hfacts
  have howns' : ∀ c, r.owns = some c → r'.owns = some c := by simp [howns]
  refine ⟨?_, h.fresh, fun c hc => ?_, fun c n hm hq => ?_⟩
  · have hset := countP_set_add hi Role.holds r'
    have := h.held
    rw [hr, hr'] at hset
    simp only [hfree, Bool.toNat_false, Bool.toNat_true] at this hset
    simp only [AgentGrove.locked, Bool.toNat_true]
    omega
  · have := owners_set_ge hi howns' c
    have := h.kept c hc
    omega
  · rcases mem_set hm with he | hm
    · exact absurd he.symm (hnum c n)
    · exact drains_set hi (by simp [hdrains]) (h.picked c n hm hq)

theorem look (h : FlagKept s roles) (hi : roles[i]? = some r) {b : Bool} (hl : Looks c b r r') :
    FlagKept s (roles.set i r') := by
  have hfacts : r.holds = true ∧ r.owns = none ∧ r.drains = none ∧ ∀ c n, r' ≠ .numbered c n := by
    cases hl <;> exact ⟨rfl, rfl, rfl, by simp⟩
  obtain ⟨hr, howns, hdrains, hnum⟩ := hfacts
  exact h.keep hi rfl rfl (Nat.le_refl _) (keys_refl s) (fun _ => hr) (by simp [howns])
    (by simp [hdrains]) fun c n he => absurd he (hnum c n)

theorem take (h : FlagKept s roles) (hi : roles[i]? = some r) (ht : Takes c r r') :
    FlagKept (flagged c s) (roles.set i r') := by
  have hfacts : r.holds = true ∧ r.owns = none ∧ r'.owns = some c ∧ r.drains = none ∧
      ∀ c n, r' ≠ .numbered c n := by
    cases ht <;> exact ⟨rfl, rfl, rfl, rfl, by simp⟩
  obtain ⟨hr, howns, howns', hdrains, hnum⟩ := hfacts
  have hkeep : FlagKept s (roles.set i r') :=
    h.keep hi rfl rfl (Nat.le_refl _) (keys_refl s) (fun _ => hr) (by simp [howns])
      (by simp [hdrains]) fun c n he => absurd he (hnum c n)
  refine ⟨hkeep.held, hkeep.fresh, fun d hd => ?_, hkeep.picked⟩
  rcases Finset.mem_insert.mp hd with rfl | hd
  · exact List.countP_pos_iff.mpr ⟨r', mem_set_self hi r', by simpa using howns'⟩
  · exact hkeep.kept d hd

theorem free (h : FlagKept s roles) (hi : roles[i]? = some r) (hf : Frees c r) :
    FlagKept (unflagged c s) (roles.set i (.freed c)) := by
  have hfacts : r.holds = true ∧ (∀ d, r.owns = some d → d = c) ∧ r.drains = none := by
    cases hf with
    | leaving => exact ⟨rfl, fun d hd => (Option.some.inj hd).symm, rfl⟩
    | removing => exact ⟨rfl, by simp [Role.owns], rfl⟩
  obtain ⟨hr, howns, hdrains⟩ := hfacts
  refine ⟨Nat.le_trans (holds_set_le hi fun _ => hr) h.held, h.fresh, fun d hd => ?_,
    fun d n hm hq => ?_⟩
  · have hd' := Finset.mem_erase.mp hd
    have hset := owners_set hi d (.freed c)
    have hne : ¬ r.owns = some d := fun he => hd'.1 (howns d he)
    have := h.kept d hd'.2
    simp only [hne, decide_false, Bool.toNat_false] at hset
    omega
  · rcases mem_set hm with he | hm
    · cases he
    · exact drains_set hi (by simp [hdrains]) (h.picked d n hm hq)

theorem fork {tag : Tag} {rc : Role} (h : FlagKept s roles) (hi : roles[i]? = some r)
    (hf : Forks r tag rc r') : FlagKept s (roles.set i r' ++ [rc]) := by
  have hfacts : r'.holds = false ∧ rc.holds = false ∧ r'.owns = none ∧ rc.owns = r.owns ∧
      r.drains = none ∧ (∀ c n, r' ≠ .numbered c n) ∧ ∀ c n, rc ≠ .numbered c n := by
    cases hf <;> exact ⟨rfl, rfl, rfl, rfl, rfl, by simp, by simp⟩
  obtain ⟨hr', hrc, howns', hownsc, hdrains, hnum, hnumc⟩ := hfacts
  refine ⟨?_, h.fresh, fun c hc => ?_, fun c n hm hq => ?_⟩
  · have hset := holds_set_le hi (q := r') (by simp [hr'])
    have := h.held
    rw [countP_concat, hrc]
    simp only [Bool.toNat_false]
    omega
  · have hset := owners_set hi c r'
    have hcat := countP_concat (roles.set i r') (fun r => r.owns = some c) rc
    have := h.kept c hc
    simp only [howns', hownsc, reduceCtorEq, decide_false, Bool.toNat_false] at hset hcat
    unfold owners at *
    omega
  · have hm' : .numbered c n ∈ roles := by
      rcases List.mem_append.mp hm with hm | hm
      · rcases mem_set hm with he | hm
        · exact absurd he.symm (hnum c n)
        · exact hm
      · exact absurd (List.mem_singleton.mp hm).symm (hnumc c n)
    obtain ⟨x, hx, hd⟩ := drains_set (q := r') hi (by simp [hdrains]) (h.picked c n hm' hq)
    exact ⟨x, List.mem_append_left _ hx, hd⟩

/-- A task that will let go of the flag has the lock, so no seq is picked. -/
theorem leave (h : FlagKept s roles) (hi : roles[i]? = some (.clearing c)) :
    FlagKept s (roles.set i (.leaving c)) := by
  have hle := holds_set_le (q := .leaving c) hi fun _ => rfl
  refine ⟨Nat.le_trans hle h.held, h.fresh, fun d hd => ?_, fun d n hm hq => ?_⟩
  · have := owners_set_ge (q := .leaving c) hi (fun _ => id) d
    have := h.kept d hd
    omega
  · have hone : (roles.set i (.leaving c)).countP Role.holds ≤ 1 :=
      Nat.le_trans hle (Nat.le_trans h.held (toNat_le_one _))
    cases holders_eq hone hm (mem_set_self hi _) rfl rfl

theorem drop (h : FlagKept s roles) (hi : roles[i]? = some r) (hd : Drops c r r') :
    FlagKept s (roles.set i r') := by
  cases hd with
  | task => exact h.leave hi
  | kick =>
    exact h.keep hi rfl rfl (Nat.le_refl _) (keys_refl s) id (by simp [Role.owns])
      (by simp [Role.drains]) (by simp)
  | backlog =>
    exact h.keep hi rfl rfl (Nat.le_refl _) (keys_refl s) id (by simp [Role.owns])
      (by simp [Role.drains]) (by simp)

theorem number {n : Nat} (h : FlagKept s roles) (hi : roles[i]? = some (.claiming c))
    (hn : ∀ q ∈ s.store.prompts, q.chatId = c → q.seq ≠ n) :
    FlagKept s (roles.set i (.numbered c n)) := by
  have hle := holds_set_le (q := .numbered c n) hi fun _ => rfl
  refine ⟨Nat.le_trans hle h.held, h.fresh, fun d hd => ?_, fun d m hm hq => ?_⟩
  · have := owners_set_ge (q := .numbered c n) hi (fun _ => id) d
    have := h.kept d hd
    omega
  · rcases mem_set hm with he | hm
    · cases he
      obtain ⟨q, hq, hqc, hqn⟩ := hq
      exact absurd hqn (hn q hq hqc)
    · exact drains_set hi (by simp [Role.drains]) (h.picked d m hm hq)

/-- Storing a prompt: either it is the lock's holder that stores it, and then no
other seq is picked, or it is a task of the chat. -/
theorem store {row : PromptRow} (h : FlagKept s roles) (hi : roles[i]? = some r)
    (hs : Stores c r r') (hid : row.id = s.nextId) (hc : row.chatId = c) :
    FlagKept { s with store := { s.store with prompts := s.store.prompts ++ [row] }
                      nextId := s.nextId + 1 } (roles.set i r') := by
  have hfacts : (r'.holds = true → r.holds = true) ∧ r'.owns = r.owns ∧ r'.drains = r.drains ∧
      (∀ c n, r' ≠ .numbered c n) ∧ (r'.holds = true ∨ r'.drains = some c) := by
    cases hs
    · exact ⟨id, rfl, rfl, by simp, .inl rfl⟩
    · exact ⟨id, rfl, rfl, by simp, .inl rfl⟩
    · exact ⟨id, rfl, rfl, by simp, .inr rfl⟩
    · exact ⟨fun _ => rfl, rfl, rfl, by simp, .inl rfl⟩
  obtain ⟨hholds, howns, hdrains, hnum, hwho⟩ := hfacts
  have howns' : ∀ c, r.owns = some c → r'.owns = some c := by simp [howns]
  have hle := holds_set_le hi hholds
  refine ⟨Nat.le_trans hle h.held, fun q hq => ?_, fun d hd => ?_, fun d n hm hq => ?_⟩
  · rcases List.mem_append.mp hq with hq | hq
    · exact Nat.lt_succ_of_lt (h.fresh q hq)
    · rw [List.mem_singleton.mp hq, hid]
      exact Nat.lt_succ_self _
  · have := owners_set_ge hi howns' d
    have := h.kept d hd
    omega
  · have hm' : .numbered d n ∈ roles := by
      rcases mem_set hm with he | hm
      · exact absurd he.symm (hnum d n)
      · exact hm
    rcases hwho with hh | hd
    · have hone : (roles.set i r').countP Role.holds ≤ 1 :=
        Nat.le_trans hle (Nat.le_trans h.held (toNat_le_one _))
      exact absurd (holders_eq hone hm (mem_set_self hi r') rfl hh).symm (hnum d n)
    · obtain ⟨q, hq, hqc, hqn⟩ := hq
      rcases List.mem_append.mp hq with hq | hq
      · exact drains_set hi (by simp [hdrains]) (h.picked d n hm' ⟨q, hq, hqc, hqn⟩)
      · rw [List.mem_singleton.mp hq, hc] at hqc
        exact ⟨r', mem_set_self hi r', hqc ▸ hd⟩

theorem apart {x : Option Site} (h : FlagKept s roles) (hi : roles[i]? = some .other)
    (ha : Apart x s s')
    (hcopy : ∀ c, x = some ⟨.forkChat, c, .insertPrompt⟩ → ∀ n, .numbered c n ∉ roles) :
    FlagKept s' (roles.set i .other) := by
  have hset : roles.set i .other = roles := by
    obtain ⟨hl, he⟩ := List.getElem?_eq_some_iff.mp hi
    rw [← he]
    exact List.set_getElem_self hl
  rw [hset]
  refine ⟨?_, fun q' hq' => ?_, fun c hc => h.kept c (ha.dispatching ▸ hc), fun c n hm hq => ?_⟩
  · rw [ha.routingLock]
    exact h.held
  · rcases ha.keys q' hq' with ⟨q, hq, he⟩ | ⟨-, -, hlt⟩
    · have hid : q.id = q'.id := congrArg (fun k => k.1) he
      exact Nat.lt_of_lt_of_le (hid ▸ h.fresh q hq) ha.nextId
    · exact hlt
  · obtain ⟨q', hq', hc, hs⟩ := hq
    rcases ha.keys q' hq' with ⟨q, hq, he⟩ | ⟨hx, -, -⟩
    · have hchat : q.chatId = q'.chatId := congrArg (fun k => k.2.1) he
      have hseq : q.seq = q'.seq := congrArg (fun k => k.2.2.1) he
      exact h.picked c n hm ⟨q, hq, hchat.trans hc, hseq.trans hs⟩
    · rw [hc] at hx
      exact absurd hm (hcopy c hx n)

/-- As long as the chat has its row and its cache entry and no store call fails,
only a task of the chat can spoil a `send_message` that has taken the flag. -/
theorem clash {call : Call} {w : Choice} (h : FlagKept s roles) (hi : roles[i]? = some r)
    (hr : r = .claiming c ∨ ∃ n, r = .numbered c n)
    (hwhy : w.fail = true ∧ call.stores = true ∨ Refuses s c call r)
    (hcached : call = .cloneChat ∨ call = .ingestPrompt → Cached s c)
    (hstored : call = .getRow ∨ call = .insertPrompt → Stored s c)
    (hfail : call.stores = true → w.fail = false) : ∃ x ∈ roles, x.drains = some c := by
  rcases hwhy with ⟨hf, hs⟩ | hwhy
  · rw [hfail hs] at hf
    cases hf
  rcases hr with rfl | ⟨n, rfl⟩
  · rcases hwhy with ⟨hc, hn⟩ | ⟨hc, hn⟩
    · exact absurd (hcached hc) hn
    · exact absurd (hstored (.inl hc)) hn
  · obtain ⟨hc, hn | ⟨q, hq, hid | ⟨hqc, hqn⟩⟩⟩ := hwhy
    · exact absurd (hstored (.inr hc)) hn
    · have := h.fresh q hq
      rw [hid] at this
      exact absurd this (Nat.lt_irrefl _)
    · exact h.picked c n (mem_of_get hi) ⟨q, hq, hqc, hqn⟩

/-- Giving up a flag just taken leaves it owned by that task. -/
theorem leak (h : FlagKept s roles) (hi : roles[i]? = some r)
    (hr : r = .claiming c ∨ ∃ n, r = .numbered c n) (hq : Quiet s s')
    (hclash : ∃ x ∈ roles, x.drains = some c) : FlagKept s' (roles.set i (.leaking c)) := by
  obtain ⟨x, hx, hd⟩ := hclash
  have hxr : x ≠ r := by
    rintro rfl
    rcases hr with rfl | ⟨n, rfl⟩ <;> cases hd
  have hfacts : r.holds = true ∧ (∀ d, r.owns = some d → d = c) ∧ r.drains = none := by
    rcases hr with rfl | ⟨n, rfl⟩ <;> exact ⟨rfl, fun d hd => (Option.some.inj hd).symm, rfl⟩
  obtain ⟨hrh, howns, hdrains⟩ := hfacts
  have hle := holds_set_le (q := .leaking c) hi fun _ => hrh
  refine ⟨?_, fun q' hq' => ?_, fun d hd => ?_, fun d n hm hq' => ?_⟩
  · rw [hq.routingLock]
    exact Nat.le_trans hle h.held
  · obtain ⟨q, hq₁, he⟩ := quiet_keys hq q' hq'
    have hid : q.id = q'.id := congrArg (fun k => k.1) he
    exact hq.nextId ▸ hid ▸ h.fresh q hq₁
  · by_cases hdc : d = c
    · subst hdc
      exact List.countP_pos_iff.mpr
        ⟨x, mem_set_of_ne hi hx hxr _, by simpa using Role.owns_of_drains hd⟩
    · have hset := owners_set hi d (.leaking c)
      have hne : ¬ r.owns = some d := fun he => hdc (howns d he)
      have := h.kept d (hq.dispatching ▸ hd)
      simp only [hne, decide_false, Bool.toNat_false] at hset
      omega
  · rcases mem_set hm with he | hm
    · cases he
    · obtain ⟨q', hq'', hqc, hqn⟩ := hq'
      obtain ⟨q, hq₁, he⟩ := quiet_keys hq q' hq''
      have hchat : q.chatId = q'.chatId := congrArg (fun k => k.2.1) he
      have hseq : q.seq = q'.seq := congrArg (fun k => k.2.2.1) he
      exact drains_set hi (by simp [hdrains])
        (h.picked d n hm ⟨q, hq₁, hchat.trans hqc, hseq.trans hqn⟩)

end FlagKept

section Kept

variable {s s' : AppState} {roles : List Role} {i : Nat} {r r' : Role} {c : Uuid}

theorem busy_kept : routing.Kept FlagKept where
  sees _ _ _ _ _ _ := trivial
  sync s roles i r r' s' hv hi hm := by
    cases hm with
    | quiet h => exact hv.quiet hi h id (fun _ => id) (fun _ => id) fun _ _ => id
    | answered l => exact hv.same hi rfl rfl (Nat.le_refl _) (FlagKept.keys_refl s)
    | apart h => exact hv.apart hi h fun c hc => by cases hc
    | unlock h => exact hv.unlock hi h
    | look h => exact hv.look hi h
    | take h => exact hv.take hi h
    | free h => exact hv.free hi h
    | mind h => exact hv.quiet hi h id (by simp [Role.owns]) (by simp [Role.drains]) (by simp)
  fork s roles i r tag rc r' hv hi hf := hv.fork hi hf

/-- What an await may do to a flag that is kept, as long as no `send_message`
fails once it has taken the flag and no fork's copy takes the seq it has picked. -/
theorem busy_await {x : Site} {w : Choice} (hv : FlagKept s roles) (hi : roles[i]? = some r)
    (hm : Moves (some (x, w)) r s r' s')
    (hcopy : ∀ c, x = ⟨.forkChat, c, .insertPrompt⟩ → ∀ n, .numbered c n ∉ roles)
    (hcached : ∀ c call, x = ⟨.sendMessage, c, call⟩ → call = .cloneChat ∨ call = .ingestPrompt →
      Cached s c)
    (hstored : ∀ c call, x = ⟨.sendMessage, c, call⟩ → call = .getRow ∨ call = .insertPrompt →
      Stored s c)
    (hfail : ∀ c call, x = ⟨.sendMessage, c, call⟩ → call.stores = true → w.fail = false) :
    FlagKept s' (roles.set i r') := by
  have hle := Nat.le_refl s.nextId
  have hkeys := FlagKept.keys_refl s
  cases hm with
  | quiet h => exact hv.quiet hi h id (fun _ => id) (fun _ => id) fun _ _ => id
  | apart h =>
    refine hv.apart hi h ?_
    rintro c hc
    exact hcopy c (Option.some.inj hc)
  | lock hfree h => exact hv.lock hi hfree h
  | enter h =>
    exact hv.keep hi rfl rfl hle hkeys id (by simp [Role.owns]) (by simp [Role.drains]) (by simp)
  | drop h hwhy => exact hv.drop hi h
  | number h => exact hv.number hi h
  | store h hid hc => exact hv.store hi h hid hc
  | claimed h => exact hv.quiet hi h id (fun _ => id) (by simp [Role.drains]) (by simp)
  | leak hr hcall hwhy h =>
    exact hv.leak hi hr h
      (hv.clash hi hr hwhy (hcached _ _ rfl) (hstored _ _ rfl) (hfail _ _ rfl))
  | enqueue h hid hc =>
    rcases h with ⟨rfl, rfl⟩ | ⟨rfl, rfl⟩
    · exact hv.same hi rfl rfl (Nat.le_succ _) hkeys
    · exact hv.keep hi rfl rfl (Nat.le_succ _) hkeys id (by simp [Role.owns])
        (by simp [Role.drains]) (by simp)
  | items h hfrom =>
    cases h with
    | take h => exact hv.keep hi rfl rfl hle hkeys id (fun _ => id) (fun _ => id) (by simp)
    | give => exact hv.keep hi rfl rfl hle hkeys id (fun _ => id) (fun _ => id) (by simp)
    | _ => exact hv.same hi rfl rfl hle hkeys
  | mode h =>
    rcases h with ⟨-, rfl⟩ | ⟨-, rfl⟩
    · exact hv.keep hi rfl rfl hle hkeys id (by simp [Role.owns]) (by simp [Role.drains]) (by simp)
    · exact hv.same hi rfl rfl hle hkeys
  | mind h => exact hv.quiet hi h id (by simp [Role.owns]) (by simp [Role.drains]) (by simp)

end Kept

/-- The steps at which a flag just taken by `send_message` is not lost: until its
prompt is stored and cached the chat has its row and its cache entry, no store
call fails, and no copy of a fork adds a prompt behind its back. -/
def Sheltered (p : Server) : ServerEvent → Prop
  | .arrive _ => True
  | .run i w =>
    match p.restsAt i with
    | some ⟨.sendMessage, c, .cloneChat⟩ | some ⟨.sendMessage, c, .ingestPrompt⟩ =>
      Cached p.shared c
    | some ⟨.sendMessage, c, .getRow⟩ | some ⟨.sendMessage, c, .insertPrompt⟩ =>
      w.fail = false ∧ Stored p.shared c
    | some ⟨.sendMessage, _, .maxSeq⟩ | some ⟨.sendMessage, _, .touchChat⟩ => w.fail = false
    | some ⟨.forkChat, c, .insertPrompt⟩ =>
      ∀ t ∈ p.threads, t.site ≠ some ⟨.sendMessage, c, .insertPrompt⟩
    | _ => True

instance (p : Server) : (e : ServerEvent) → Decidable (Sheltered p e)
  | .arrive _ => .isTrue trivial
  | .run i _ => by
    cases p with
    | mk shared threads =>
      unfold Sheltered
      dsimp only
      split <;> infer_instance

/-- A request comes with nothing to its name. -/
theorem FlagKept.arrive {s : AppState} {roles : List Role} (hv : FlagKept s roles)
    (request : Request) : FlagKept s (roles ++ [request.role]) := by
  have hfacts : request.role.holds = false ∧ ∀ c n, request.role ≠ .numbered c n := by
    cases request <;> exact ⟨rfl, by simp [Request.role, Request.routes]⟩
  obtain ⟨hh, hnum⟩ := hfacts
  refine ⟨?_, hv.fresh, fun c hc => ?_, fun c n hm hq => ?_⟩
  · rw [countP_concat, hh]
    exact hv.held
  · have := hv.kept c hc
    unfold owners at *
    rw [countP_concat]
    omega
  · rcases List.mem_append.mp hm with hm | hm
    · obtain ⟨x, hx, hd⟩ := hv.picked c n hm hq
      exact ⟨x, List.mem_append_left _ hx, hd⟩
    · exact absurd (List.mem_singleton.mp hm).symm (hnum c n)

theorem numbered_site {t : Task} {c : Uuid} {n : Nat} (h : Rests t.tag t.site (.numbered c n)) :
    t.site = some ⟨.sendMessage, c, .insertPrompt⟩ := by
  cases hs : t.site with
  | none =>
    rw [hs] at h
    cases ht : t.tag <;> rw [ht] at h <;> rcases h with h | h <;> cases h
  | some x =>
    rw [hs] at h
    cases ht : t.tag with
    | handler d =>
      rw [ht] at h
      obtain ⟨rfl, rfl⟩ := h
      rfl
    | guard d =>
      rw [ht] at h
      cases h.1
    | dispatch d =>
      rw [ht] at h
      exact h.elim
    | drain d =>
      rw [ht] at h
      exact h.elim

theorem sheltered_run {s : AppState} {p : Server} (hnone : s.dispatching = ∅)
    (hfresh : ∀ q ∈ s.store.prompts, q.id < s.nextId)
    (h : Pool.Reaches entry Sheltered ⟨s, []⟩ p) :
    ∃ roles, routing.Coupled p roles ∧ FlagKept p.shared roles := by
  refine busy_kept.reaches ?_ ?_ h (coupled_start s)
    ⟨Nat.zero_le _, hfresh, by simp [hnone], by simp⟩
  · exact fun p roles request hc hv _ => ⟨request.role, entry_follows request, hv.arrive request⟩
  · intro p roles i w x r r' s' hc hv hg hat hr hm
    dsimp only [Sheltered] at hg
    unfold Pool.At at hat
    rw [hat] at hg
    refine busy_await hv hr hm ?_ ?_ ?_ ?_
    · rintro c rfl n hn
      obtain ⟨j, hj⟩ := List.getElem?_of_mem hn
      obtain ⟨t, ht, hrest⟩ := hc.thread hj
      exact hg t (List.mem_of_getElem? ht) (numbered_site hrest)
    · rintro c call rfl (rfl | rfl)
      · exact hg
      · exact hg
    · rintro c call rfl (rfl | rfl)
      · exact hg.2
      · exact hg.2
    · rintro c call rfl hcall
      cases call with
      | getRow => exact hg.1
      | insertPrompt => exact hg.1
      | maxSeq => exact hg
      | touchChat => exact hg
      | _ => cases hcall

/-- No handler rests past its claim before it has begun. -/
theorem entry_unclaimed (request : Request) : (entry request).site.any Site.claims = false := by
  cases request with
  | updateItem c item body =>
    simp only [entry, handle, respond, updateItem]
    split <;> rfl
  | _ => rfl

/-- No chat is stuck busy, in every run that shelters the flags `send_message`
takes: where no handler of a chat is under way and its flag is set, a dispatch or
drain task of the chat is live. -/
theorem busy_has_live_task {s : AppState} {p : Server} (hnone : s.dispatching = ∅)
    (hfresh : ∀ q ∈ s.store.prompts, q.id < s.nextId)
    (h : Pool.Reaches entry Sheltered ⟨s, []⟩ p) {c : Uuid}
    (hidle : ∀ t ∈ p.threads, t.tag = .handler c →
      t.finished = true ∨ ∃ request, t = entry request)
    (hin : c ∈ p.shared.dispatching) : ∃ t ∈ p.threads, Live t c := by
  obtain ⟨roles, hc, hv⟩ := sheltered_run hnone hfresh h
  obtain ⟨r, hr, ho⟩ := List.countP_pos_iff.mp (hv.kept c hin)
  obtain ⟨j, hj⟩ := List.getElem?_of_mem hr
  obtain ⟨t, ht, hrest⟩ := hc.thread hj
  refine ⟨t, List.mem_of_getElem? ht, ?_⟩
  rcases owner_committed hrest (by simpa using ho) with hlive | ⟨htag, hclaims⟩
  · exact hlive
  · exfalso
    rcases hidle t (List.mem_of_getElem? ht) htag with hfin | ⟨request, rfl⟩
    · obtain ⟨x, hx, -⟩ := (Option.any_eq_true _ _).mp hclaims
      rw [finished_of_site hx] at hfin
      cases hfin
    · rw [entry_unclaimed request] at hclaims
      cases hclaims

/-- The store refuses the prompt of a message sent to an idle chat. -/
def refusedSend : List ServerEvent :=
  [.arrive (.sendMessage 1 ['a'])] ++ rounds 0 7 ++ [.run 0 { fail := true }]

theorem refused_send_leaks_flag :
    ¬ ∀ (s : AppState) (p : Server), s.dispatching = ∅ →
      (∀ q ∈ s.store.prompts, q.id < s.nextId) → Pool.Reaches entry Pool.anyStep ⟨s, []⟩ p →
      ∀ c, (∀ t ∈ p.threads, t.tag = .handler c →
        t.finished = true ∨ ∃ request, t = entry request) →
      c ∈ p.shared.dispatching → ∃ t ∈ p.threads, Live t c := by
  intro hall
  have hrun : (Pool.play entry Pool.anyStep ⟨serve freshStore 10 [], []⟩ refusedSend).map (fun p =>
      (decide (1 ∈ p.shared.dispatching), p.threads.map (fun t => (t.tag, t.finished)))) =
      some (true, [(.handler 1, true)]) := by decide
  obtain ⟨p, hp, he⟩ := Option.map_eq_some_iff.mp hrun
  simp only [Prod.mk.injEq, decide_eq_true_eq] at he
  obtain ⟨hin, hthreads⟩ := he
  have hall' : ∀ t ∈ p.threads, t.tag = .handler 1 ∧ t.finished = true := by
    intro t ht
    have hm : (t.tag, t.finished) ∈ p.threads.map (fun t => (t.tag, t.finished)) :=
      List.mem_map_of_mem (f := fun t : Task => (t.tag, t.finished)) ht
    rw [hthreads, List.mem_singleton, Prod.mk.injEq] at hm
    exact hm
  obtain ⟨t, ht, hlive⟩ := hall _ p rfl (by decide) (Pool.play_reaches hp) 1
    (fun t ht _ => .inl (hall' t ht).2) hin
  have hfin := (hall' t ht).2
  rw [hlive.2] at hfin
  cases hfin

/-- The flag of a message just sent is set, and the task of its turn is live. -/
theorem busy_has_live_task_sent :
    ∃ p : Server, (Pool.Reaches entry Sheltered ⟨serve freshStore 10 [], []⟩ p ∧
      1 ∈ p.shared.dispatching) ∧ ∃ t ∈ p.threads, Live t 1 := by
  have hrun : (Pool.play entry Sheltered ⟨serve freshStore 10 [], []⟩ oneSend).map (fun p =>
      (decide (1 ∈ p.shared.dispatching), p.threads.map (fun t => (t.tag, t.finished)))) =
      some (true, [(.handler 1, true), (.dispatch 1, false)]) := by decide
  obtain ⟨p, hp, he⟩ := Option.map_eq_some_iff.mp hrun
  simp only [Prod.mk.injEq, decide_eq_true_eq] at he
  obtain ⟨hin, hthreads⟩ := he
  refine ⟨p, ⟨Pool.play_reaches hp, hin⟩,
    busy_has_live_task rfl (by decide) (Pool.play_reaches hp) (fun t ht htag => .inl ?_) hin⟩
  have hm : (t.tag, t.finished) ∈ p.threads.map (fun t => (t.tag, t.finished)) :=
    List.mem_map_of_mem (f := fun t : Task => (t.tag, t.finished)) ht
  rw [hthreads] at hm
  simpa [htag] using hm

end AgentGrove
