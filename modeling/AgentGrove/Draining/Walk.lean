import AgentGrove.Draining.Pace

namespace AgentGrove

open Coop

/-- A drain in this phase with at least so many awaits left. -/
def Pace.atLeast (ph : Phase) (k : Nat) (r : Pace) : Prop := ∃ j, r = .due ph (k + j)

section Drain

variable {α β ε : Type} {c : Uuid} {t : Tag} {fn : Fn} {call : Call} {ph : Phase} {n m k : Nat}

theorem Pace.atLeast.refl (ph : Phase) (k : Nat) : Pace.atLeast ph k (.due ph k) := ⟨0, rfl⟩

theorem Pace.atLeast.up {r r' : Pace} (h : r.atLeast ph k) (hle : r.le r') : r'.atLeast ph k := by
  obtain ⟨j, rfl⟩ := h
  rcases hle with rfl | ⟨ph', k', j', he, rfl⟩
  · exact ⟨j, rfl⟩
  · cases he
    exact ⟨j + j', by rw [Nat.add_assoc]⟩

theorem Pace.atLeast.le {r : Pace} (h : r.atLeast ph k) : (Pace.due ph k).le r := by
  obtain ⟨j, rfl⟩ := h
  exact .inr ⟨ph, k, j, rfl, rfl⟩

/-- What ends may be reached with more to spare. -/
def Spare {α : Type} (Q : α → Pace → Prop) : Prop := ∀ a r r', Pace.le r r' → Q a r → Q a r'

theorem atLeast_follows {p : Async α} {Q : α → Pace → Prop} {r : Pace}
    (hp : (pace c).Follows t p (.due ph k) Q) (hq : Spare Q) (hr : r.atLeast ph k) :
    (pace c).Follows t p r Q :=
  pace_roomy.follows hp hr.le hq

section Task

variable (ht : Carrier.task.tagged c t)
include ht

theorem due_rests : (pace c).rest t (some ⟨fn, c, call⟩) (.due ph k) := ⟨ht, _, rfl, rfl⟩

theorem pace_spends (ph : Phase) : (pace c).Spends t (fun x => x.chat = c)
    (fun x => x.chat = c ∧ x.call.streams = true) Steady (Pace.due ph) where
  rest x k hx := ⟨ht, x, rfl, hx.elim id fun h => h.1⟩
  spend x w k s s' _ hs := by
    apply Paces.spend
    intro _
    have := cost_le x.call
    rw [hs.load, load_add]
    omega
  stay x w k s s' hx hs := by
    apply Paces.spend
    intro _
    rw [hs.load]
    simp [Call.cost, hx.2]
  sync k s s' hs := .steady hs

/-- Brief code first. -/
theorem brief_then {p : Async α} {f : α → Async β} {Q : β → Pace → Prop} (hp : Short c n p)
    (hf : ∀ a, (pace c).Follows t (f a) (.due ph k) Q) (hq : Spare Q) (hk : k + n = m) :
    (pace c).Follows t (p.bind f) (.due ph m) Q := by
  subst hk
  rw [Protocol.follows_bind]
  apply (pace_spends ht ph).follows hp
  intro a j
  exact atLeast_follows (hf a) hq ⟨j, rfl⟩

/-- Where the mode is read before a pop. -/
def Opening (ph : Phase) (k : Nat) : Prop := ph = .fresh ∧ k = 9 ∨ ph = .owed ∧ k = 1

theorem isAuto_paces (ho : Opening ph k) :
    (pace c).Follows t (isAuto fn c .isAuto) (.due ph (k + 1))
      (fun b x => b = true ∧ x = .due ph k ∨ b = false ∧ x = .due .fresh 8) := by
  have hstop : ∀ w s, Proceeds ⟨fn, c, .isAuto⟩ w →
      (w.fail = false → QueueRepo.getMode s.store.modes c ≠ .auto) →
      (Pace.due .fresh 8).load c s + Call.cost .isAuto ≤ (Pace.due ph (k + 1)).load c s := by
    intro w s hp hm
    have hmode := hm (hp.2 (.inl rfl))
    have hmul : width * pendingIn c s ≤ width * max 1 (pendingIn c s) :=
      Nat.mul_le_mul_left _ (Nat.le_max_right _ _)
    rcases ho with ⟨rfl, rfl⟩ | ⟨rfl, rfl⟩
    · simp only [Pace.load, Call.cost, Call.streams]
      simp
    · simp only [Pace.load, Call.cost, Call.streams, if_neg hmode, slack]
      simp
      omega
  apply Protocol.follows_then (M := fun e x => (e = .ok .auto ∧ x = .due ph k) ∨
    (e ≠ .ok .auto ∧ x = .due .fresh 8))
  · apply storeCall_follows (due_rests ht)
    · intro w s _ hf
      refine ⟨_, .spend fun hp => ?_, .inr ⟨by simp, rfl⟩⟩
      exact hstop w s hp fun hf' => absurd hf (by simp [hf'])
    · intro w s _ hf
      by_cases hm : QueueRepo.getMode s.store.modes c = .auto
      · refine ⟨_, .spend fun _ => ?_, .inl ⟨by simp [hm], rfl⟩⟩
        rw [load_add]
        exact Nat.le_refl _
      · exact ⟨_, .spend fun hp => hstop w s hp fun _ => hm, .inr ⟨by simpa using hm, rfl⟩⟩
  · intro e x hx
    split
    · rcases hx with ⟨-, hx⟩ | ⟨hne, -⟩
      · exact .inl ⟨rfl, hx⟩
      · exact absurd rfl hne
    · rename_i hne
      rcases hx with ⟨he, -⟩ | ⟨-, hx⟩
      · exact absurd he hne
      · exact .inr ⟨rfl, hx⟩

/-- A pop lowers the bound by a whole round, or finds the queue empty. -/
theorem popNextPending_paces (ho : Opening ph k) :
    (pace c).Follows t (popNextPending fn c) (.due ph k)
      (fun e x => (∃ item, e = .ok (some item)) ∧ x = .due .fresh 30 ∨
        (∀ item, e ≠ .ok (some item)) ∧ x = .due .fresh 8) := by
  apply storeCall_follows (due_rests ht)
  · intro w s _ hf
    refine ⟨_, .spend fun hp => ?_, .inr ⟨by simp, rfl⟩⟩
    have := hp.2 (.inr rfl)
    rw [hf] at this
    cases this
  · intro w s _ _
    dsimp only [QueueRepo.popNextPending]
    cases hrow : QueueRepo.headPending s.store.items c with
    | none =>
      refine ⟨_, .spend fun _ => ?_, .inr ⟨by simp [QueueRepo.pop], rfl⟩⟩
      have hzero : pendingIn c s = 0 := by
        by_contra hn
        exact headPending_none hrow (pendingIn_pos.mp (by omega))
      have hzero' : pendingIn c (setItems (QueueRepo.pop w.now s.store.items none).2 s) = 0 := hzero
      rcases ho with ⟨rfl, rfl⟩ | ⟨rfl, rfl⟩
      · simp [Pace.load, hzero, hzero', Call.cost, Call.streams]
      · simp [Pace.load, hzero, hzero', Call.cost, Call.streams, width]
        omega
    | some i =>
      obtain ⟨hi, hc, hp⟩ := headPending_mem hrow
      refine ⟨_, .spend fun _ => ?_, .inl ⟨by simp [QueueRepo.pop], rfl⟩⟩
      have hlt := pendingIn_pop_lt (c := c) (s := s) w.now hi hc hp
      have hmax : max 1 (pendingIn c s) = pendingIn c s := by omega
      have hlt' : pendingIn c (setItems (QueueRepo.pop w.now s.store.items (some i)).2 s) <
          pendingIn c s := hlt
      have hmul := Nat.mul_le_mul_left width (Nat.succ_le_of_lt hlt')
      rw [Nat.mul_succ] at hmul
      rcases ho with ⟨rfl, rfl⟩ | ⟨rfl, rfl⟩
      · simp [Pace.load, Call.cost, Call.streams, width] at hmul ⊢
        omega
      · simp [Pace.load, Call.cost, Call.streams, width, hmax] at hmul ⊢
        omega

theorem resetToPending_paces (itemId : Uuid) :
    (pace c).Follows t (resetToPending fn c itemId) (.due ph k)
      (fun _ x => x = .due .fresh 8) := by
  apply storeCall_follows (due_rests ht)
  · exact fun w s _ _ => ⟨_, .spend fun hp => absurd rfl hp.1, rfl⟩
  · exact fun w s _ _ => ⟨_, .spend fun hp => absurd rfl hp.1, rfl⟩

theorem markDone_paces (itemId : Uuid) :
    (pace c).Follows t (markDone fn c itemId) (.due ph (k + 1)) (fun _ x => x = .due ph k) := by
  have hspend : ∀ s s', pendingIn c s' ≤ pendingIn c s → s'.store.modes = s.store.modes →
      (Pace.due ph k).load c s' + Call.cost .markDone ≤ (Pace.due ph (k + 1)).load c s := by
    intro s s' hp hm
    rw [load_add]
    exact Nat.add_le_add_right (load_mono _ hp (by rw [hm])) 1
  apply storeCall_follows (due_rests ht)
  · exact fun w s _ _ => ⟨_, .spend fun _ => hspend s s (Nat.le_refl _) rfl, rfl⟩
  · exact fun w s _ _ => ⟨_, .spend fun _ => hspend s _ (pendingIn_sublist List.filter_sublist) rfl, rfl⟩

/-- Where a round of the drain leaves it. -/
def Rounded : Unit ⊕ Unit → Pace → Prop
  | .inl _, r => r.atLeast .fresh 11
  | .inr _, r => r.atLeast .fresh 8

omit ht in
theorem rounded_spare : Spare Rounded := by
  intro next r r' hle h
  cases next with
  | inl _ => exact h.up hle
  | inr _ => exact h.up hle

theorem drainRound_paces (ho : Opening ph k) :
    (pace c).Follows t (drainRound fn c) (.due ph (k + 1)) Rounded := by
  apply Protocol.follows_split (isAuto_paces ht ho)
  swap
  · rintro _ rfl
    exact .refl _ _
  rintro _ rfl
  apply Protocol.follows_split (popNextPending_paces ht ho)
  swap
  · intro e hne
    cases e with
    | error e => exact .refl _ _
    | ok found =>
      cases found with
      | none => exact .refl _ _
      | some item => exact absurd rfl (hne item)
  rintro _ ⟨item, rfl⟩
  have hreset : ∀ {k}, (pace c).Follows t ((resetToPending fn c item.id).bind fun _ =>
      (.ret (.inr ()) : Async (Unit ⊕ Unit))) (.due .fresh k) Rounded := by
    intro k
    apply Protocol.follows_to (resetToPending_paces ht _)
    exact fun _ => .refl _ _
  have hstill : Short c 1 (isAuto fn c .isStillAuto) := by
    apply short_then (m := 0) storeRead_short _ (by decide)
    intro mode
    split <;> trivial
  apply brief_then ht (k := 29) hstill _ rounded_spare rfl
  intro auto
  cases auto with
  | false => exact hreset
  | true =>
  apply brief_then ht (k := 28) (show Short c 1 (getChat fn c .cloneChat) from read_short) _
    rounded_spare rfl
  intro found
  cases found with
  | none => exact hreset
  | some chat =>
  apply brief_then ht (k := 23) (persistAddPrompt_short _) _ rounded_spare rfl
  intro stored
  split
  swap
  · exact hreset
  rename_i prompt
  apply Protocol.follows_to (markDone_paces ht _)
  intro _
  apply brief_then ht (k := 22) (publish_short _) _ rounded_spare rfl
  intro _
  apply brief_then ht (k := 20) (resolveCwd_short _) _ rounded_spare rfl
  intro cwd
  apply brief_then ht (k := 20) (show Short c 0 (resolveProvider chat.provider) from
    atOnce_short fun s => .refl s) _ rounded_spare rfl
  intro provider
  cases provider with
  | some p =>
    apply brief_then ht (k := 11) (dispatchViaProvider_short _ _ _ _ _ _ _) _ rounded_spare rfl
    exact fun _ => .refl _ _
  | none =>
    apply brief_then ht (k := 16) (dispatchEcho_short _ _) _ rounded_spare rfl
    exact fun _ => ⟨5, rfl⟩

/-- Where the drain is about to go round. -/
def Turning (k k' : Nat) (r : Pace) : Prop := r.atLeast .fresh k ∨ r.atLeast .owed k'

omit ht in
theorem Turning.up {k k' : Nat} {r r' : Pace} (h : Turning k k' r) (hle : r.le r') :
    Turning k k' r' :=
  h.imp (fun h => h.up hle) fun h => h.up hle

omit ht in
theorem await_spends {x : Site} {s : AppState} {w : Choice} :
    Paces c (some (x, w)) (.due ph (k + 1)) s (.due ph k) s := by
  apply Paces.spend
  intro _
  rw [load_add]
  exact Nat.add_le_add_left (cost_le x.call) _

/-- The two loops of the drain: each turn takes one from what is left at the head. -/
theorem turning_follows {k k' : Nat} {r : Pace} {body : Unit → Async (Unit ⊕ β)}
    {Q : β → Pace → Prop} (hr : Turning (k + 1) (k' + 1) r)
    (hbody : ∀ r, Turning k k' r → (pace c).Follows t (body ()) r (fun next x =>
      match next with
      | .inl _ => Turning (k + 1) (k' + 1) x
      | .inr b => Q b x)) :
    (pace c).Follows t (.loop ⟨fn, c, call⟩ () body .ret) r Q := by
  refine ⟨fun _ x => Turning (k + 1) (k' + 1) x, hr, ?_⟩
  intro _ x hx
  have hhead : ∀ ph k j w s, Paces c (some (⟨fn, c, call⟩, w)) (.due ph (k + 1 + j)) s
      (.due ph (k + j)) s := by
    intro ph k j w s
    rw [Nat.add_right_comm]
    exact await_spends
  rcases hx with ⟨j, rfl⟩ | ⟨j, rfl⟩
  · refine ⟨due_rests ht, fun w s _ => ⟨_, hhead _ k j w s, ?_⟩⟩
    apply Protocol.follows_mono (hbody _ (.inl ⟨j, rfl⟩))
    intro next x hx
    cases next with
    | inl _ => exact hx
    | inr _ => exact hx
  · refine ⟨due_rests ht, fun w s _ => ⟨_, hhead _ k' j w s, ?_⟩⟩
    apply Protocol.follows_mono (hbody _ (.inr ⟨j, rfl⟩))
    intro next x hx
    cases next with
    | inl _ => exact hx
    | inr _ => exact hx

theorem drainLoop_paces {r : Pace} (hr : Turning 11 3 r) :
    (pace c).Follows t (drainLoop fn c) r (fun _ x => x.atLeast .fresh 8) := by
  apply turning_follows ht hr
  intro r hr
  have hround : (pace c).Follows t (drainRound fn c) r Rounded := by
    rcases hr with hr | hr
    · exact atLeast_follows (drainRound_paces ht (.inl ⟨rfl, rfl⟩)) rounded_spare hr
    · exact atLeast_follows (drainRound_paces ht (.inr ⟨rfl, rfl⟩)) rounded_spare hr
  apply Protocol.follows_mono hround
  intro next x hx
  cases next with
  | inl _ => exact .inl hx
  | inr _ => exact hx

/-- Whether the queue was seen empty or not. -/
def Counted (q : QueueState) (r : Pace) : Prop :=
  0 < q.pendingCount ∧ r = .due .seen 5 ∨ q.pendingCount = 0 ∧ r = .due .fresh 5

theorem readState_paces :
    (pace c).Follows t (readState fn c) (.due .fresh 7) Counted := by
  apply Protocol.follows_to (m := .due .fresh 6)
  · apply storeCall_follows (due_rests ht)
    · exact fun w s _ _ => ⟨_, await_spends, rfl⟩
    · exact fun w s _ _ => ⟨_, await_spends, rfl⟩
  intro mode
  refine (Protocol.follows_bind _ _ _).mpr ?_
  apply storeCall_follows (due_rests ht)
  · exact fun w s _ _ => ⟨_, await_spends, .inr ⟨rfl, rfl⟩⟩
  · intro w s _ _
    by_cases hp : HasPending s c
    · refine ⟨.due .seen 5, .spend fun _ => ?_, .inl ⟨Nat.pos_of_ne_zero fun hz => ?_, rfl⟩⟩
      · have hpos := pendingIn_pos.mpr hp
        have hmax : max 1 (pendingIn c s) = pendingIn c s := by omega
        simp [Pace.load, hmax, Call.cost, Call.streams]
      · exact (pendingCount_list s c _).mp hz hp
    · exact ⟨_, await_spends, .inr ⟨(pendingCount_list s c _).mpr hp, rfl⟩⟩

/-- The drain goes on only if it has seen a pending item and auto mode. -/
theorem mustContinue_paces {r : Pace} (queue : QueueState) (hr : Counted queue r) :
    (pace c).Follows t (mustContinue fn c queue) r
      (fun b x => b = true ∧ x = .due .owed 4 ∨ b = false ∧ ∃ ph k, x = .due ph k) := by
  unfold mustContinue
  rcases hr with ⟨hq, rfl⟩ | ⟨hq, rfl⟩
  swap
  · rw [hq]
    exact .inr ⟨rfl, _, _, rfl⟩
  rw [if_pos hq]
  apply Protocol.follows_then (M := fun e x => (e = .ok .auto ∧ x = .due .owed 4) ∨
    (e ≠ .ok .auto ∧ x = .due .seen 4))
  · apply storeCall_follows (due_rests ht)
    · exact fun w s _ _ => ⟨_, await_spends, .inr ⟨by simp, rfl⟩⟩
    · intro w s _ _
      by_cases hm : QueueRepo.getMode s.store.modes c = .auto
      · refine ⟨.due .owed 4, .spend fun _ => ?_, .inl ⟨by simp [hm], rfl⟩⟩
        simp [Pace.load, hm, Call.cost, Call.streams]
      · exact ⟨_, await_spends, .inr ⟨by simpa using hm, rfl⟩⟩
  · intro e x hx
    split
    · rcases hx with ⟨-, hx⟩ | ⟨hne, -⟩
      · exact .inl ⟨rfl, hx⟩
      · exact absurd rfl hne
    · rename_i hne
      rcases hx with ⟨he, -⟩ | ⟨-, hx⟩
      · exact absurd he hne
      · exact .inr ⟨rfl, _, _, hx⟩

/-- Either the flag is given back or the queue owes the drain an item. -/
theorem clearDispatching_paces :
    (pace c).Follows t (clearDispatching fn c) (.due .fresh 8)
      (fun b x => b = false ∧ x = .due .owed 4 ∨ b = true ∧ x = .freed) := by
  apply Protocol.follows_to (m := .due .fresh 7)
  · refine ⟨due_rests ht, fun w s s' _ _ ha => ?_⟩
    dsimp only at ha
    split at ha
    · cases ha
    · cases ha
      refine ⟨_, .spend fun _ => ?_, rfl⟩
      simp [Pace.load, pendingIn, Call.cost, Call.streams]
  intro _
  apply Protocol.follows_then (readState_paces ht)
  intro queue r hr
  apply Protocol.follows_then (mustContinue_paces ht queue hr)
  rintro b x (⟨rfl, rfl⟩ | ⟨rfl, ph, k, rfl⟩)
  · exact fun s _ => ⟨_, .steady ⟨rfl, rfl⟩, .inl ⟨rfl, rfl⟩⟩
  · refine fun s _ => ⟨_, .free, fun s _ => ⟨_, .freed rfl, fun s _ => ⟨_, .freed rfl, ?_⟩⟩⟩
    exact .inr ⟨rfl, rfl⟩

theorem drainUntilIdle_paces {r : Pace} (hr : Turning 12 4 r) :
    (pace c).Follows t (drainUntilIdle fn c) r (fun _ x => x = .freed) := by
  apply turning_follows ht hr
  intro r hr
  apply Protocol.follows_then (drainLoop_paces ht hr)
  intro _ x hx
  apply atLeast_follows _ _ hx
  · apply Protocol.follows_split (clearDispatching_paces ht)
    · rintro _ rfl
      exact .inr (.refl _ _)
    · rintro _ rfl
      rfl
  · intro next r r' hle h
    cases next with
    | inl _ => exact h.up hle
    | inr _ =>
      rcases hle with rfl | ⟨ph, k, j, rfl, rfl⟩
      · exact h
      · cases h

end Task

/-- A task of another kind is free to do what it likes. -/
theorem other_follows {α : Type} {p : Async α} (hp : p.Spawns fun tag child =>
      child.Resting ∧ ∃ rc, (Carrier.task.tagged c tag ∧ rc = .start ∨
        ¬ Carrier.task.tagged c tag ∧ rc = .other) ∧
        (pace c).Follows tag child rc (fun _ x => (pace c).rest tag none x))
    (ht : ¬ Carrier.task.tagged c t) : (pace c).Follows t p .other (fun _ x => x = .other) := by
  apply Protocol.follows_spawning hp
  · exact fun _ => ht
  · exact fun _ _ _ => .other
  · rintro tag child ⟨hr, rc, hrc, hf⟩
    exact ⟨rc, ⟨rfl, hrc⟩, hr, hf⟩

theorem dropGuard_paces :
    (pace c).Follows t (dropGuard c) .freed (fun _ x => x = .freed) := by
  have htag : ¬ Carrier.task.tagged c (.guard c) := by simp [Carrier.tagged]
  refine ⟨.other, .freed, ⟨rfl, .inr ⟨htag, rfl⟩⟩, trivial, ?_, rfl⟩
  apply Protocol.follows_mono (other_follows _ htag)
  · rintro _ _ rfl
    exact htag
  · exact fun _ _ _ _ => trivial

theorem drain_ends {p : Async Unit} {r : Pace} (ht : Carrier.task.tagged c t)
    (hp : (pace c).Follows t p r (fun _ x => x = .freed)) :
    (pace c).Follows t (p.bind fun _ => dropGuard c) r (fun _ x => (pace c).rest t none x) := by
  apply Protocol.follows_to hp
  intro _
  apply Protocol.follows_mono dropGuard_paces
  rintro _ _ rfl
  exact ⟨ht, rfl⟩

theorem drainTask_paces : (pace c).Follows (.drain c) (drainTask c) .start
    (fun _ x => (pace c).rest (.drain c) none x) := by
  have ht : Carrier.task.tagged c (.drain c) := .inr rfl
  exact drain_ends ht (drainUntilIdle_paces ht (.inl ⟨31, rfl⟩))

theorem dispatchTask_paces (chat : ChatRecord) (prompt : PromptRecord) (body : Text) :
    (pace c).Follows (.dispatch c) (dispatchTask c chat prompt body) .start
      (fun _ x => (pace c).rest (.dispatch c) none x) := by
  have ht : Carrier.task.tagged c (.dispatch c) := .inl rfl
  have hfreed : Spare (fun (_ : Unit) x => (pace c).rest (.dispatch c) none x) := by
    intro _ r r' hle h
    exact pace_roomy.rest _ _ _ _ hle h
  apply brief_then ht (k := 41) (resolveCwd_short _) _ hfreed rfl
  intro cwd
  apply brief_then ht (k := 41) (show Short c 0 (resolveProvider chat.provider) from
    atOnce_short fun s => .refl s) _ hfreed rfl
  intro provider
  apply brief_then ht (k := 16) (firstTurn_short _ _ _ _ _) _ hfreed rfl
  intro _
  apply brief_then ht (k := 12) (endCompaction_short _) _ hfreed rfl
  intro _
  exact drain_ends ht (drainUntilIdle_paces ht (.inl (.refl _ _)))

end Drain

end AgentGrove
