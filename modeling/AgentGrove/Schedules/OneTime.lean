import AgentGrove.Schedules.Cadence
import AgentGrove.Turns.Handed

namespace AgentGrove

open Coop

/-- The action puts a pending item with this message into the chat's queue. -/
def Enqueues (c : Uuid) (content : Text) (itemId : Uuid) (a : TurnAction) : Prop :=
  ∃ item ∈ a.after.store.items,
    item.id = itemId ∧ item.chatId = c ∧ item.body = content ∧ item.status = .pending

/-- What an answer to a message tells: it is in the queue or in the chat, or at some moment
there was no such chat, or the store failed. -/
def Answers (c : Uuid) (content : Text) (as : List TurnAction) : Except Failure SendMessageResponse → Prop
  | .ok (.queued itemId) => ∃ a ∈ as, Enqueues c content itemId a
  | .ok (.dispatched prompt) => prompt.content = content ∧ ∃ put ∈ as, Ingests c prompt put
  | .error (.notFound, _) => ∃ a ∈ as, ¬ Cached a.before c
  | .error (code, _) => code = .internalServerError

section Sends

variable {E : AppState → AppState → Prop} {s s' : AppState} {as : List TurnAction} {c : Uuid}
  {content : Text} {fn : Fn}

/-- What a handler does first does not change what its answer tells. -/
theorem Answers.later (front : List TurnAction) {res : Except Failure SendMessageResponse}
    (h : Answers c content as res) : Answers c content (front ++ as) res := by
  unfold Answers at h ⊢
  split at h
  · obtain ⟨a, ha, hput⟩ := h
    exact ⟨a, List.mem_append_right _ ha, hput⟩
  · obtain ⟨hcontent, put, hmem, hput⟩ := h
    exact ⟨hcontent, put, List.mem_append_right _ hmem, hput⟩
  · obtain ⟨a, ha, hgone⟩ := h
    exact ⟨a, List.mem_append_right _ ha, hgone⟩
  · exact h

theorem enqueueItem_inserts {item : QueueItem}
    (h : (enqueueItem fn c content).Traces E s as (.ret (.ok item)) s') :
    ∃ a ∈ as, Enqueues c content item.id a := by
  obtain ⟨position, as₁, as₂, s₁, rfl, -, h⟩ := h.of_bind_ret
  cases position with
  | error e =>
    obtain ⟨-, he⟩ := h.of_ret
    cases he
  | ok position =>
    obtain ⟨w, s₂, rfl, hitem⟩ := access_returns h
    refine ⟨_, List.mem_append_right _ (List.mem_singleton_self _), ?_⟩
    split at hitem
    · cases hitem
    · rename_i hw
      cases hitem
      dsimp only
      rw [if_neg hw]
      exact ⟨_, List.mem_append_right _ (List.mem_singleton_self _), rfl, rfl, rfl, rfl⟩

theorem persistAddPrompt_misses
    (h : (persistAddPrompt fn c content).Traces E s as (.ret (.ok none)) s') :
    ∃ a ∈ as, ¬ Cached a.before c := by
  obtain ⟨stored, as₁, as₂, s₁, rfl, -, h⟩ := h.of_bind_ret
  cases stored with
  | error e =>
    obtain ⟨-, he⟩ := h.of_ret
    cases he
  | ok row =>
    obtain ⟨ok, as₃, as₄, s₂, rfl, hput, h⟩ := h.of_bind_ret
    obtain ⟨w, s₃, rfl, rfl⟩ := access_returns hput
    obtain ⟨rfl, he⟩ := h.of_ret
    dsimp only at he
    split at he
    · cases he
    · rename_i hnone
      exact ⟨_, List.mem_append_right _ (List.mem_append_left _ (List.mem_singleton_self _)), hnone⟩

/-- The end of a handler that gives the routing lock back. -/
theorem unlock_returns {α : Type} {x y : α}
    (h : (unlockRouting.bind fun _ => (.ret x : Async α)).Traces E s as (.ret y) s') : x = y := by
  obtain ⟨_, as₁, as₂, s₁, rfl, -, h⟩ := h.of_bind_ret
  exact (Prog.ret.inj h.of_ret.2).symm

theorem sendMessage_answers {res : Except Failure SendMessageResponse}
    (h : (sendMessage c content).Traces E s as (.ret res) s') : Answers c content as res := by
  obtain ⟨_, as₁, as₂, s₁, rfl, -, h⟩ := h.of_bind_ret
  apply Answers.later
  obtain ⟨known, as₃, as₄, s₂, rfl, hknown, h⟩ := h.of_bind_ret
  obtain ⟨w, s₃, rfl, rfl⟩ := access_returns hknown
  cases hchat : s₃.chats.get c with
  | none =>
    simp only [hchat] at h
    cases unlock_returns h
    exact ⟨_, List.mem_append_left _ (List.mem_singleton_self _), by simp [Cached, hchat]⟩
  | some chat =>
  simp only [hchat] at h
  apply Answers.later
  obtain ⟨isBusy, as₅, as₆, s₄, rfl, -, h⟩ := h.of_bind_ret
  apply Answers.later
  obtain ⟨queue, as₇, as₈, s₅, rfl, -, h⟩ := h.of_bind_ret
  apply Answers.later
  split at h
  · obtain ⟨queued, as₉, as₁₀, s₆, rfl, hqueued, h⟩ := h.of_bind_ret
    cases queued with
    | error e =>
      cases unlock_returns h
      exact rfl
    | ok item =>
      obtain ⟨a, ha, hput⟩ := enqueueItem_inserts hqueued
      have hres : res = .ok (.queued item.id) := by
        obtain ⟨kick, as₁₁, as₁₂, s₇, rfl, -, h⟩ := h.of_bind_ret
        cases kick with
        | false => exact (unlock_returns h).symm
        | true =>
          obtain ⟨_, as₁₃, as₁₄, s₈, rfl, -, h⟩ := h.of_bind_ret
          obtain ⟨_, as₁₅, as₁₆, s₉, rfl, -, h⟩ := h.of_bind_ret
          obtain ⟨_, as₁₇, as₁₈, s₁₀, rfl, -, h⟩ := h.of_bind_ret
          exact Prog.ret.inj h.of_ret.2
      rw [hres]
      exact ⟨a, List.mem_append_left _ ha, hput⟩
  · obtain ⟨_, as₉, as₁₀, s₆, rfl, -, h⟩ := h.of_bind_ret
    apply Answers.later
    obtain ⟨found, as₁₁, as₁₂, s₇, rfl, hfound, h⟩ := h.of_bind_ret
    obtain ⟨w, s₈, rfl, rfl⟩ := access_returns hfound
    cases hclone : s₈.chats.get c with
    | none =>
      simp only [hclone] at h
      cases unlock_returns h
      exact ⟨_, List.mem_append_left _ (List.mem_singleton_self _), by simp [Cached, hclone]⟩
    | some chat =>
      simp only [hclone] at h
      apply Answers.later
      obtain ⟨stored, as₁₃, as₁₄, s₉, rfl, hstored, h⟩ := h.of_bind_ret
      split at h
      · cases unlock_returns h
        exact rfl
      · cases unlock_returns h
        obtain ⟨a, ha, hgone⟩ := persistAddPrompt_misses hstored
        exact ⟨a, List.mem_append_left _ ha, hgone⟩
      · obtain ⟨hcontent, put, hmem, hput⟩ := persistAddPrompt_ingests hstored
        obtain ⟨_, as₁₅, as₁₆, s₁₀, rfl, -, h⟩ := h.of_bind_ret
        obtain ⟨_, as₁₇, as₁₈, s₁₁, rfl, -, h⟩ := h.of_bind_ret
        rw [Prog.ret.inj h.of_ret.2]
        exact ⟨hcontent, put, List.mem_append_left _ hmem, hput⟩

end Sends

end AgentGrove

namespace AgentGrove.Schedules

open Coop Relation

/-- What becomes of a message that a pass is about to send. -/
inductive Fate where
  | accepted
  /-- A copy of it still waits in the queue of its chat. -/
  | waiting
  | chatGone
  | refused (code : StatusCode)
deriving DecidableEq

/-- The fate of a schedule's message, where this action decides it. -/
def fate (id : Uuid) (a : PlanAction) : Option Fate :=
  match a.label with
  | some (.queue k _, u) => if k.row.id = id && k.waits u.items then some .waiting else none
  | some (.send k _, v) =>
    if k.row.id = id then
      some (match v.sent with
        | .ok () => .accepted
        | .error .notFound => .chatGone
        | .error code => .refused code)
    else none
  | _ => none

/-- The action switches a one-time schedule off. -/
def switchesOff (id : Uuid) (a : PlanAction) : Bool :=
  (ScheduleRepo.get a.before.schedules id).any (fun r => r.enabled && r.intervalSecs.isNone) &&
    (ScheduleRepo.get a.after.schedules id).any (fun r => !r.enabled)

/-- A pass is at work on this schedule. -/
def concerns (id : Uuid) (a : PlanAction) : Bool :=
  match a.label with
  | some (.mark k _, _) | some (.queue k _, _) | some (.send k _, _) | some (.pause k _, _) => k.row.id = id
  | _ => false

section Fates

variable {E : Planner → Planner → Prop} {id : Uuid} {now : Int} {s s' : Planner} {k : Held}
  {rest due : List Held} {as : List PlanAction}

theorem switchesOff_changes {a : PlanAction} (h : switchesOff id a = true) :
    a.after.rowsOf id ≠ a.before.rowsOf id := by
  intro hsame
  unfold switchesOff at h
  rw [get_rowsOf, get_rowsOf, hsame] at h
  cases hrow : (a.before.rowsOf id).head? with
  | none => simp [hrow] at h
  | some r =>
    rw [hrow] at h
    cases he : r.enabled <;> simp [he] at h

/-- What follows a mark decides about the message. -/
theorem Outcome.fated (h : Outcome E k rest s as s') : ∃ f, f ∈ as.filterMap (fate k.row.id) := by
  cases h with
  | skipped hq => exact ⟨.waiting, by simp [fate, hq]⟩
  | sent hq hs hv => exact ⟨.accepted, by simp [fate, hv]⟩
  | gone hq hs hv => exact ⟨.chatGone, by simp [fate, hv]⟩
  | @refused s₁ s₂ _ u v code hq hs hv hcode =>
    refine ⟨.refused code, ?_⟩
    cases code with
    | notFound => exact absurd rfl hcode
    | _ => simp [fate, hv]

theorem Outcome.spares (h : Outcome E k rest s as s') (hk : k.row.id ≠ id) :
    ∀ a ∈ as, a.after.rowsOf id = a.before.rowsOf id := by
  cases h with
  | skipped => simp
  | sent => simp [Planner.accepted, Planner.told, Planner.rowsOf]
  | refused => simp [Planner.told, Planner.rowsOf]
  | @gone s₁ s₂ s₃ s₄ _ u v x hq hs hv hs₂ hs₃ =>
    have hpause : s₃.rowsOf id = s₂.rowsOf id := by
      rw [hs₃]
      split
      · rfl
      · rw [rowsOf_afterPause, if_neg hk]
    have htold : (s₄.told k).rowsOf id = s₄.rowsOf id := rfl
    simp [hpause, htold]

/-- A pass changes no other schedule when it handles one. -/
theorem Handled.spares (h : Handled E now k rest s as s') (hk : k.row.id ≠ id) :
    ∀ a ∈ as, a.after.rowsOf id = a.before.rowsOf id := by
  cases h with
  | failed => simp
  | @marked s₁ s₂ _ w as hs hw hs₂ hout =>
    rw [List.forall_mem_cons]
    refine ⟨?_, hout.spares hk⟩
    rw [rowsOf_afterMark, if_neg hk]

/-- A schedule that a pass switches off is the one it handles, and its message has its fate. -/
theorem Handled.fated (h : Handled E now k rest s as s') {a : PlanAction} (ha : a ∈ as)
    (hoff : switchesOff id a = true) : k.row.id = id ∧ ∃ f, f ∈ as.filterMap (fate id) := by
  have hid : k.row.id = id := by
    by_contra hk
    exact switchesOff_changes hoff (h.spares hk a ha)
  subst hid
  refine ⟨rfl, ?_⟩
  cases h with
  | failed =>
    cases List.mem_singleton.mp ha
    exact absurd rfl (switchesOff_changes hoff)
  | marked hs hw hs₂ hout =>
    obtain ⟨f, hf⟩ := hout.fated
    refine ⟨f, ?_⟩
    rw [List.filterMap_cons_none rfl]
    exact hf

theorem Handles.fated (h : Handles E now due s as s') {a : PlanAction} (ha : a ∈ as)
    (hoff : switchesOff id a = true) :
    (∃ k ∈ due, k.row.id = id) ∧ ∃ f, f ∈ as.filterMap (fate id) := by
  induction h with
  | done => cases ha
  | step hk _ ih =>
    rw [List.filterMap_append]
    rcases List.mem_append.mp ha with ha | ha
    · obtain ⟨hid, f, hf⟩ := hk.fated ha hoff
      exact ⟨⟨_, List.mem_cons_self .., hid⟩, f, List.mem_append_left _ hf⟩
    · obtain ⟨⟨k, hmem, hid⟩, f, hf⟩ := ih ha
      exact ⟨⟨k, List.mem_cons_of_mem _ hmem, hid⟩, f, List.mem_append_right _ hf⟩

theorem mem_due {rows : List ScheduleRow} {r : ScheduleRow} :
    r ∈ ScheduleRepo.due now rows ↔ r ∈ rows ∧ r.isDue now = true := by
  unfold ScheduleRepo.due
  rw [(List.perm_insertionSort _ _).mem_iff, List.mem_filter]
  rfl

/-- A pass switches a one-time schedule off only when it has read it as due, and its message
has its fate in that pass. -/
theorem pass_fated (h : (fireDue now).Traces E s as (.ret ()) s') {a : PlanAction} (ha : a ∈ as)
    (hoff : switchesOff id a = true) :
    (∃ b ∈ as, ∃ r ∈ b.before.rowsOf id, r.isDue now = true) ∧ ∃ f, f ∈ as.filterMap (fate id) := by
  obtain ⟨w, s₁, hs, ⟨hw, rfl, hs'⟩ | ⟨hw, as', s₂, rfl, hs₂, hall⟩⟩ := pass_of_trace h
  · cases List.mem_singleton.mp ha
    exact absurd rfl (switchesOff_changes hoff)
  · rcases List.mem_cons.mp ha with rfl | ha
    · exact absurd rfl (switchesOff_changes hoff)
    obtain ⟨⟨k, hk, hid⟩, f, hf⟩ := hall.fated ha hoff
    obtain ⟨r, hr, rfl⟩ := List.mem_map.mp hk
    obtain ⟨hmem, hdue⟩ := mem_due.mp hr
    refine ⟨⟨_, List.mem_cons_self .., r, ?_, hdue⟩, f, ?_⟩
    · exact List.mem_filter.mpr ⟨hmem, by simpa using hid⟩
    · rw [List.filterMap_cons_none rfl]
      exact hf

theorem Outcome.concerned (h : Outcome E k rest s as s') : ∀ a ∈ as, concerns id a = true → k.row.id = id := by
  cases h <;> simp [concerns]

theorem Handled.concerned (h : Handled E now k rest s as s') :
    ∀ a ∈ as, concerns id a = true → k.row.id = id := by
  cases h with
  | failed => simp [concerns]
  | marked hs hw hs₂ hout =>
    rw [List.forall_mem_cons]
    exact ⟨by simp [concerns], hout.concerned⟩

theorem Handles.concerned (h : Handles E now due s as s') {a : PlanAction} (ha : a ∈ as)
    (hc : concerns id a = true) : ∃ k ∈ due, k.row.id = id := by
  induction h with
  | done => cases ha
  | step hk _ ih =>
    rcases List.mem_append.mp ha with ha | ha
    · exact ⟨_, List.mem_cons_self .., hk.concerned a ha hc⟩
    · obtain ⟨k, hmem, hid⟩ := ih ha
      exact ⟨k, List.mem_cons_of_mem _ hmem, hid⟩

/-- A pass does not touch a schedule that is switched off. -/
theorem pass_off {r : ScheduleRow} (h : (fireDue now).Traces (Spares id) s as (.ret ()) s')
    (hr : s.rowsOf id = [r]) (hoff : r.enabled = false) :
    s'.rowsOf id = [r] ∧ ∀ a ∈ as, concerns id a = false := by
  have hdue : r.isDue now = false := by simp [ScheduleRow.isDue, hoff]
  refine ⟨?_, fun a ha => ?_⟩
  · rcases pass_row h hr with ⟨-, hrow, -⟩ | ⟨htrue, -⟩
    · exact hrow
    · rw [hdue] at htrue
      cases htrue
  · by_contra hc
    rw [Bool.not_eq_false] at hc
    obtain ⟨w, s₁, hs, ⟨hw, rfl, hs'⟩ | ⟨hw, as', s₂, rfl, hs₂, hall⟩⟩ := pass_of_trace h
    · cases List.mem_singleton.mp ha
      cases hc
    · rcases List.mem_cons.mp ha with rfl | ha
      · cases hc
      obtain ⟨k, hk, hid⟩ := hall.concerned ha hc
      obtain ⟨r', hr', rfl⟩ := List.mem_map.mp hk
      have hnone := due_filter ((spares_all hs).trans hr) now
      rw [hdue, if_neg Bool.false_ne_true] at hnone
      exact List.filter_eq_nil_iff.mp hnone r' hr' (by simpa using hid)

/-- And no tick does, until somebody edits it. -/
theorem ticking_off {r : ScheduleRow} {ts : List Tick} (h : Ticking (Spares id) s ts s')
    (hr : s.rowsOf id = [r]) (hoff : r.enabled = false) :
    s'.rowsOf id = [r] ∧ ∀ t ∈ ts, ∀ a ∈ t.acts, concerns id a = false := by
  induction h with
  | rest s => exact ⟨hr, fun _ ht => nomatch ht⟩
  | others hE _ ih => exact ih (hE.trans hr)
  | tick hpass _ ih =>
    obtain ⟨hrow, hacts⟩ := pass_off hpass hr hoff
    obtain ⟨hlast, hlater⟩ := ih hrow
    exact ⟨hlast, List.forall_mem_cons.mpr ⟨hacts, hlater⟩⟩

theorem ticking_fated {ts : List Tick} (h : Ticking E s ts s') :
    ∀ t ∈ ts, ∀ a ∈ t.acts, switchesOff id a = true →
      (∃ b ∈ t.acts, ∃ r ∈ b.before.rowsOf id, r.isDue t.now = true) ∧
        ∃ f, f ∈ t.acts.filterMap (fate id) := by
  induction h with
  | rest s => exact fun _ ht => nomatch ht
  | others _ _ ih => exact ih
  | tick hpass _ ih => exact List.forall_mem_cons.mpr ⟨fun a ha hoff => pass_fated hpass ha hoff, ih⟩

end Fates

/-- A one-time schedule is switched off only in a tick that has read it as due and has decided
about its message, and no later tick comes back to it. What the answer to a message tells is
stored, or there is no such chat, or the store has failed. -/
theorem one_time_fated :
    (∀ (E : Planner → Planner → Prop) s ts s' id, Ticking E s ts s' →
      ∀ t ∈ ts, ∀ a ∈ t.acts, switchesOff id a = true →
        (∃ b ∈ t.acts, ∃ r ∈ b.before.rowsOf id, r.isDue t.now = true) ∧
          ∃ f, f ∈ t.acts.filterMap (fate id)) ∧
    (∀ id s ts s' r, Ticking (Spares id) s ts s' → s.rowsOf id = [r] → r.enabled = false →
      s'.rowsOf id = [r] ∧ ∀ t ∈ ts, ∀ a ∈ t.acts, concerns id a = false) ∧
    ∀ (E : AppState → AppState → Prop) s as s' c content res,
      (AgentGrove.sendMessage c content).Traces E s as (.ret res) s' → Answers c content as res :=
  ⟨fun _ _ _ _ _ h => ticking_fated h, fun _ _ _ _ _ h hr hoff => ticking_off h hr hoff,
    fun _ _ _ _ _ _ _ h => sendMessage_answers h⟩

/-- A schedule that runs once, after a minute. -/
def once : ScheduleRow := ScheduleRepo.create 7 1 ['a'] none 60000 0

/-- The store fails while the message is sent, and a minute later it is back. -/
def outage : List (Int × List Choice) :=
  [(60000, [{}, {}, {}, { sent := .error .internalServerError }]), (120000, [{}])]

theorem outage_fates : ∃ ts s', Ticking (Spares 7) (boot [once] [1] 8) ts s' ∧
    ts.map (fun t => (t.acts.any (switchesOff 7), t.acts.filterMap (fate 7))) =
      [(true, [.refused .internalServerError]), (false, [])] := by
  have hrun : (playTicks outage (boot [once] [1] 8)).map
      (fun out => out.1.map (fun t => (t.acts.any (switchesOff 7), t.acts.filterMap (fate 7)))) =
        some [(true, [.refused .internalServerError]), (false, [])] := by decide
  obtain ⟨⟨ts, s'⟩, hplay, hfates⟩ := Option.map_eq_some_iff.mp hrun
  exact ⟨ts, s', playTicks_ticking (Spares 7) hplay, hfates⟩

theorem one_time_fated_outage : ∃ ts s', Ticking (Spares 7) (boot [once] [1] 8) ts s' ∧
    ∃ t ∈ ts, ∃ a ∈ t.acts, switchesOff 7 a = true ∧
      (∃ b ∈ t.acts, ∃ r ∈ b.before.rowsOf 7, r.isDue t.now = true) ∧
        ∃ f, f ∈ t.acts.filterMap (fate 7) := by
  obtain ⟨ts, s', hticks, hfates⟩ := outage_fates
  cases ts with
  | nil => cases hfates
  | cons t ts =>
    obtain ⟨a, ha, hoff⟩ := List.any_eq_true.mp (Prod.mk.inj (List.cons.inj hfates).1).1
    refine ⟨t :: ts, s', hticks, t, List.mem_cons_self .., a, ha, hoff, ?_⟩
    exact one_time_fated.1 (Spares 7) _ _ _ 7 hticks t (List.mem_cons_self ..) a ha hoff

/-- The message of a one-time schedule is lost when the send fails. -/
theorem refused_message_lost : ¬ ∀ (E : Planner → Planner → Prop) s ts s' id, Ticking E s ts s' →
    ∀ t ∈ ts, ∀ a ∈ t.acts, switchesOff id a = true →
      .accepted ∈ t.acts.filterMap (fate id) ∨ .waiting ∈ t.acts.filterMap (fate id) ∨
        .chatGone ∈ t.acts.filterMap (fate id) := by
  intro hclaim
  obtain ⟨ts, s', hticks, hfates⟩ := outage_fates
  cases ts with
  | nil => cases hfates
  | cons t ts =>
    obtain ⟨hoff, hfate⟩ := Prod.mk.inj (List.cons.inj hfates).1
    obtain ⟨a, ha, hoff⟩ := List.any_eq_true.mp hoff
    have hlost := hclaim (Spares 7) _ _ _ 7 hticks t (List.mem_cons_self ..) a ha hoff
    rw [hfate] at hlost
    revert hlost
    decide

end AgentGrove.Schedules
