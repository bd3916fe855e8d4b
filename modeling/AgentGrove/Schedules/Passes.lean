import AgentGrove.Coop.Trace
import AgentGrove.Model.Schedules

namespace AgentGrove.Schedules

open Coop Relation

abbrev PlanAction := Action Site Choice Planner

/-- The state in which a pass has marked its row. -/
def Planner.afterMark (s : Planner) (now : Int) (k : Held) : Planner :=
  s.overwrite k (ScheduleRepo.markRan k.row.id now s.schedules)

/-- The state in which a pass has paused its row, at this time. -/
def Planner.afterPause (s : Planner) (now : Int) (k : Held) : Planner :=
  s.overwrite k (ScheduleRepo.disable k.row.id now s.schedules)

/-- The views of a chat hear that its schedule has fired. -/
def Planner.told (s : Planner) (k : Held) : Planner :=
  { s with bus := s.bus ++ [(k.row.chatId, .scheduleFired k.row.id)] }

/-- The state in which a message has gone into its chat. -/
def Planner.accepted (s : Planner) (k : Held) : Planner :=
  { s with sent := s.sent ++ [⟨k, s.answered k.row.id⟩] }

/-- A copy of the message waits in its chat's queue. -/
def Held.waits (k : Held) (items : List (QueueStatus × Text)) : Bool :=
  items.any (fun i => i.1 = .pending && i.2 = k.row.body)

/-- What a pass does about a row that it has marked. -/
inductive Outcome (E : Planner → Planner → Prop) (k : Held) (rest : List Held) :
    Planner → List PlanAction → Planner → Prop where
  | skipped {s s' : Planner} {u : Choice} (hq : k.waits u.items = true) (hs : ReflTransGen E s s') :
      Outcome E k rest s [⟨some (.queue k rest, u), s, s⟩] s'
  | sent {s s₁ s₂ s' : Planner} {u v : Choice} (hq : k.waits u.items = false)
      (hs : ReflTransGen E s s₁) (hv : v.sent = .ok ()) (hs₂ : ReflTransGen E (s₁.accepted k) s₂)
      (hs' : ReflTransGen E (s₂.told k) s') :
      Outcome E k rest s [⟨some (.queue k rest, u), s, s⟩, ⟨some (.send k rest, v), s₁, s₁.accepted k⟩,
        ⟨none, s₂, s₂.told k⟩] s'
  | gone {s s₁ s₂ s₃ s₄ s' : Planner} {u v x : Choice} (hq : k.waits u.items = false)
      (hs : ReflTransGen E s s₁) (hv : v.sent = .error .notFound) (hs₂ : ReflTransGen E s₁ s₂)
      (hs₃ : s₃ = if x.fail then s₂ else s₂.afterPause x.now k) (hs₄ : ReflTransGen E s₃ s₄)
      (hs' : ReflTransGen E (s₄.told k) s') :
      Outcome E k rest s [⟨some (.queue k rest, u), s, s⟩, ⟨some (.send k rest, v), s₁, s₁⟩,
        ⟨some (.pause k rest, x), s₂, s₃⟩, ⟨none, s₄, s₄.told k⟩] s'
  | refused {s s₁ s₂ s' : Planner} {u v : Choice} {code : StatusCode} (hq : k.waits u.items = false)
      (hs : ReflTransGen E s s₁) (hv : v.sent = .error code) (hcode : code ≠ .notFound)
      (hs₂ : ReflTransGen E s₁ s₂) (hs' : ReflTransGen E (s₂.told k) s') :
      Outcome E k rest s [⟨some (.queue k rest, u), s, s⟩, ⟨some (.send k rest, v), s₁, s₁⟩,
        ⟨none, s₂, s₂.told k⟩] s'

/-- What a pass at this time does about a row that it has read as due. -/
inductive Handled (E : Planner → Planner → Prop) (now : Int) (k : Held) (rest : List Held) :
    Planner → List PlanAction → Planner → Prop where
  | failed {s s₁ s' : Planner} {w : Choice} (hs : ReflTransGen E s s₁) (hw : w.fail = true)
      (hs' : ReflTransGen E s₁ s') : Handled E now k rest s [⟨some (.mark k rest, w), s₁, s₁⟩] s'
  | marked {s s₁ s₂ s' : Planner} {w : Choice} {as : List PlanAction} (hs : ReflTransGen E s s₁)
      (hw : w.fail = false) (hs₂ : ReflTransGen E (s₁.afterMark now k) s₂)
      (h : Outcome E k rest s₂ as s') :
      Handled E now k rest s (⟨some (.mark k rest, w), s₁, s₁.afterMark now k⟩ :: as) s'

/-- What a pass does about the rows it has left. -/
inductive Handles (E : Planner → Planner → Prop) (now : Int) :
    List Held → Planner → List PlanAction → Planner → Prop where
  | done {s s' : Planner} (hs : ReflTransGen E s s') : Handles E now [] s [] s'
  | step {k : Held} {rest : List Held} {s s₁ s' : Planner} {as as' : List PlanAction}
      (hk : Handled E now k rest s as s₁) (h : Handles E now rest s₁ as' s') :
      Handles E now (k :: rest) s (as ++ as') s'

section Reading

variable {E : Planner → Planner → Prop} {k : Held} {rest : List Held} {now : Int}
  {s s' : Planner} {as : List PlanAction}

/-- A call takes place once, and the others act before it and after it. -/
theorem call_trace {β : Type} {site : Site} {act : Choice → Planner → Planner × β} {b : β}
    (h : (call site act).Traces E s as (.ret b) s') : ∃ w s₁, ReflTransGen E s s₁ ∧
      as = [⟨some (site, w), s₁, (act w s₁).1⟩] ∧ b = (act w s₁).2 ∧
        ReflTransGen E (act w s₁).1 s' := by
  obtain ⟨w, s₁, s₂, hs, hact, has, hs'⟩ := h.of_await_ret
  obtain ⟨rfl, rfl⟩ := Prod.mk.inj (Option.some.inj hact)
  exact ⟨w, s₁, hs, has, rfl, hs'⟩

theorem publish_trace (h : (publish k.row.chatId (.scheduleFired k.row.id)).Traces E s as (.ret ()) s') :
    as = [⟨none, s, s.told k⟩] ∧ ReflTransGen E (s.told k) s' := by
  obtain ⟨has, -, hs⟩ := h.of_sync_ret
  exact ⟨has, hs⟩

/-- From the send on. -/
theorem sent_trace {u : Choice} {s₀ : Planner} (hq : k.waits u.items = false) (hs₀ : ReflTransGen E s₀ s)
    (h : ((sendMessage k rest).bind fun res => (received k rest res).bind fun _ =>
      publish k.row.chatId (.scheduleFired k.row.id)).Traces E s as (.ret ()) s') :
    Outcome E k rest s₀ (⟨some (.queue k rest, u), s₀, s₀⟩ :: as) s' := by
  obtain ⟨res, as₁, as₂, s₁, rfl, hsend, h⟩ := h.of_bind_ret
  obtain ⟨⟨⟩, as₃, as₄, s₂, rfl, hrec, hpub⟩ := h.of_bind_ret
  obtain ⟨rfl, hs'⟩ := publish_trace hpub
  obtain ⟨v, s₃, hs₃, rfl, hres, hs₁⟩ := call_trace hsend
  cases hv : v.sent with
  | ok =>
    simp only [hv] at hres hs₁
    subst hres
    obtain ⟨rfl, -, hs₂⟩ := Prog.Traces.of_ret_ret hrec
    exact .sent hq (hs₀.trans hs₃) hv (hs₁.trans hs₂) hs'
  | error code =>
    simp only [hv] at hres hs₁
    subst hres
    by_cases hcode : code = .notFound
    · subst hcode
      obtain ⟨x, s₄, hs₄, rfl, -, hs₂⟩ := call_trace hrec
      refine .gone hq (hs₀.trans hs₃) hv (hs₁.trans hs₄) ?_ hs₂ hs'
      cases x.fail <;> rfl
    · have hskip : received k rest (.error code) = .ret () := by
        cases code with
        | notFound => exact absurd rfl hcode
        | _ => rfl
      rw [hskip] at hrec
      obtain ⟨rfl, -, hs₂⟩ := Prog.Traces.of_ret_ret hrec
      exact .refused hq (hs₀.trans hs₃) hv hcode (hs₁.trans hs₂) hs'

/-- From the mark on. -/
theorem queue_trace {due : List Held} (h : ((alreadyQueued k rest).bind fun queued =>
      if queued then fireEach now due
      else (sendMessage k rest).bind fun res => (received k rest res).bind fun _ =>
        (publish k.row.chatId (.scheduleFired k.row.id)).bind fun _ => fireEach now due).Traces
      E s as (.ret ()) s') :
    ∃ s₁ s₂ as₁ as₂, ReflTransGen E s s₁ ∧ as = as₁ ++ as₂ ∧ Outcome E k rest s₁ as₁ s₂ ∧
      (fireEach now due).Traces E s₂ as₂ (.ret ()) s' := by
  obtain ⟨queued, as₁, as₂, s₂, rfl, hqueue, h⟩ := h.of_bind_ret
  obtain ⟨u, s₁, hs₁, rfl, rfl, hs₂⟩ := call_trace hqueue
  cases hq : k.waits u.items with
  | true =>
    rw [if_pos (by exact hq)] at h
    exact ⟨s₁, s₂, _, as₂, hs₁, rfl, .skipped hq hs₂, h⟩
  | false =>
    have hsend : ¬ ((List.any u.items fun i => i.1 = .pending && i.2 = k.row.body) = true) := by
      rw [Bool.not_eq_true]
      exact hq
    rw [if_neg hsend] at h
    have hassoc : ((sendMessage k rest).bind fun res => (received k rest res).bind fun _ =>
        (publish k.row.chatId (.scheduleFired k.row.id)).bind fun _ => fireEach now due) =
      ((sendMessage k rest).bind fun res => (received k rest res).bind fun _ =>
        publish k.row.chatId (.scheduleFired k.row.id)).bind fun _ => fireEach now due := by
      simp only [Prog.bind_assoc]
    rw [hassoc] at h
    obtain ⟨⟨⟩, as₂, as₃, s₃, rfl, hsent, h⟩ := h.of_bind_ret
    exact ⟨s₁, s₃, _, as₃, hs₁, rfl, sent_trace hq hs₂ hsent, h⟩

/-- What a pass does from any of its rows on. -/
theorem handles_of_trace {due : List Held} (h : (fireEach now due).Traces E s as (.ret ()) s') :
    Handles E now due s as s' := by
  induction due generalizing s as with
  | nil =>
    obtain ⟨rfl, -, hs⟩ := Prog.Traces.of_ret_ret h
    exact .done hs
  | cons k rest ih =>
    obtain ⟨marked, as₁, as₂, s₂, rfl, hmark, h⟩ := Prog.Traces.of_bind_ret h
    obtain ⟨w, s₁, hs₁, rfl, rfl, hs₂⟩ := call_trace hmark
    cases hw : w.fail with
    | true =>
      simp only [hw, ↓reduceIte] at h hs₂ ⊢
      exact .step (.failed hs₁ hw hs₂) (ih h)
    | false =>
      simp only [hw, Bool.false_eq_true, ↓reduceIte] at h hs₂ ⊢
      obtain ⟨s₃, s₄, as₃, as₄, hs₃, rfl, hout, h⟩ := queue_trace h
      rw [← List.append_assoc]
      exact .step (.marked hs₁ hw (hs₂.trans hs₃) hout) (ih h)

/-- What a pass does: nothing if the store cannot be read, else it handles what is due. -/
theorem pass_of_trace (h : (fireDue now).Traces E s as (.ret ()) s') :
    ∃ w s₁, ReflTransGen E s s₁ ∧
      ((w.fail = true ∧ as = [⟨some (.due, w), s₁, s₁⟩] ∧ ReflTransGen E s₁ s') ∨
        w.fail = false ∧ ∃ as' s₂, as = ⟨some (.due, w), s₁, s₁⟩ :: as' ∧ ReflTransGen E s₁ s₂ ∧
          Handles E now (s₁.hold (ScheduleRepo.due now s₁.schedules)) s₂ as' s') := by
  obtain ⟨due, as₁, as₂, s₂, rfl, hdue, h⟩ := Prog.Traces.of_bind_ret h
  obtain ⟨w, s₁, hs₁, rfl, rfl, hs₂⟩ := call_trace hdue
  refine ⟨w, s₁, hs₁, ?_⟩
  cases hw : w.fail with
  | true =>
    simp only [hw, ↓reduceIte] at h hs₂ ⊢
    obtain ⟨rfl, -, hs⟩ := Prog.Traces.of_ret_ret h
    exact .inl ⟨trivial, rfl, hs₂.trans hs⟩
  | false =>
    simp only [hw, Bool.false_eq_true, ↓reduceIte] at h hs₂ ⊢
    exact .inr ⟨trivial, as₂, s₂, rfl, hs₂, handles_of_trace h⟩

end Reading

/-- A pass of the ticker, and what it did. -/
structure Tick where
  now : Int
  acts : List PlanAction

/-- The ticker: one pass after another, with any pause between them. -/
inductive Ticking (E : Planner → Planner → Prop) : Planner → List Tick → Planner → Prop where
  | rest (s : Planner) : Ticking E s [] s
  | others {s s₁ s' : Planner} {ts : List Tick} (hE : E s s₁) (h : Ticking E s₁ ts s') :
      Ticking E s ts s'
  | tick {s s₁ s' : Planner} {now : Int} {as : List PlanAction} {ts : List Tick}
      (hpass : (fireDue now).Traces E s as (.ret ()) s₁) (h : Ticking E s₁ ts s') :
      Ticking E s (⟨now, as⟩ :: ts) s'

/-- Passes at these times, with nobody in between. -/
def playTicks : List (Int × List Choice) → Planner → Option (List Tick × Planner)
  | [], s => some ([], s)
  | (now, ws) :: rest, s => ((fireDue now).alone ws s).bind (fun out =>
      if out.2.1.returned.isSome then
        (playTicks rest out.2.2).map (fun more => (⟨now, out.1⟩ :: more.1, more.2))
      else none)

theorem playTicks_ticking (E : Planner → Planner → Prop) {runs : List (Int × List Choice)} {s : Planner}
    {out : List Tick × Planner} (h : playTicks runs s = some out) : Ticking E s out.1 out.2 := by
  induction runs generalizing s out with
  | nil =>
    cases h
    exact .rest s
  | cons run runs ih =>
    obtain ⟨pass, hpass, h⟩ := Option.bind_eq_some_iff.mp h
    split at h
    · rename_i hret
      obtain ⟨more, hmore, rfl⟩ := Option.map_eq_some_iff.mp h
      obtain ⟨u, hu⟩ := Option.isSome_iff_exists.mp hret
      have ht := Prog.traces_alone E hpass
      rw [Prog.eq_ret_of_returned hu] at ht
      exact .tick ht (ih hmore)
    · cases h

end AgentGrove.Schedules
