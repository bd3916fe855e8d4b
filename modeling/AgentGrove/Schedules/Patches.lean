import AgentGrove.Schedules.Cadence

namespace AgentGrove.Schedules

open Coop Relation

/-- A member of a JSON object. -/
inductive Member (α : Type) where
  | absent
  | null
  | value (a : α)
deriving DecidableEq

def Member.value? {α : Type} : Member α → Option α
  | .value a => some a
  | _ => none

/-- The body of a `PATCH`, before it is decoded. -/
structure Patch where
  body : Member Text := .absent
  intervalSecs : Member Int := .absent
  nextRunAt : Member Int := .absent
  enabled : Member Bool := .absent

/-- What a derived decoder makes of the members: an optional field is `none` when it is absent
or null, and so is the outer option of a field with two. -/
structure Derived (decode : Patch → UpdateBody) : Prop where
  body : ∀ p, (decode p).body = p.body.value?
  intervalSecs : ∀ p, (decode p).intervalSecs = p.intervalSecs.value?.map some
  nextRunAt : ∀ p, (decode p).nextRunAt = p.nextRunAt.value?
  enabled : ∀ p, (decode p).enabled = p.enabled.value?

/-- The timing that a patch asks for, with everything else as it was. -/
structure Realised (p : Patch) (cur row : ScheduleRow) : Prop where
  next : ∀ t, p.nextRunAt = .value t → row.nextRunAt = t
  interval : ∀ i, p.intervalSecs = .value i → row.intervalSecs = some i
  oneTime : p.intervalSecs = .null → row.intervalSecs = none
  sameInterval : p.intervalSecs = .absent → row.intervalSecs = cur.intervalSecs
  sameBody : p.body.value? = none → row.body = cur.body
  sameEnabled : p.enabled.value? = none → row.enabled = cur.enabled

/-- The patch switches the schedule on again. -/
def Patch.reenables (p : Patch) (cur : ScheduleRow) : Bool := p.enabled = .value true && !cur.enabled

/-- A patch that the update can follow when its clock shows `now`: it does not ask a recurring
schedule to become a one-time one, and gives a recurring schedule no other time than the one
it has or the one it gets. -/
def Patch.Plain (p : Patch) (cur : ScheduleRow) (now : Int) : Prop :=
  (p.intervalSecs = .null → cur.intervalSecs = none) ∧
    ∀ t i, p.nextRunAt = .value t → cur.intervalSecs = some i →
      (t = cur.nextRunAt ∧ p.reenables cur = false) ∨ t = now + i * 1000

section Updates

variable {decode : Patch → UpdateBody} {p : Patch} {cur row : ScheduleRow} {now : Int}
  {s s' : Planner} {id chatId : Uuid} {as : List PlanAction}

theorem rowsOf_write (s : Planner) (id : Uuid) (new : ScheduleRow) :
    (s.write id new).rowsOf id = (s.rowsOf id).map (fun r => { r with
      body := new.body
      intervalSecs := new.intervalSecs
      enabled := new.enabled
      nextRunAt := new.nextRunAt
      updatedAt := new.updatedAt }) := by
  refine (filter_setRow (fun _ => ?_) id).trans (if_pos rfl)
  rfl

/-- A store call that has not failed. -/
theorem storeCall_ok {E : Planner → Planner → Prop} {β : Type} {site : Site}
    {act : Choice → Planner → Planner × Except Failure β} {b : β}
    (h : (storeCall site act).Traces E s as (.ret (.ok b)) s') :
    ∃ w s₁, ReflTransGen E s s₁ ∧ as = [⟨some (site, w), s₁, (act w s₁).1⟩] ∧
      (act w s₁).2 = .ok b ∧ ReflTransGen E (act w s₁).1 s' := by
  obtain ⟨w, s₁, hs, rfl, hb, hs'⟩ := call_trace h
  cases hw : w.fail with
  | true =>
    simp only [hw, ↓reduceIte] at hb
    cases hb
  | false =>
    simp only [hw, Bool.false_eq_true, ↓reduceIte] at hb hs' ⊢
    exact ⟨w, s₁, hs, rfl, hb.symm, hs'⟩

/-- An update that is answered with a row has stored it, patched at the time of its read. -/
theorem updateRow_stores {b : UpdateBody} {out : ScheduleRow × Nat}
    (h : (updateRow chatId id b).Traces (Spares id) s as (.ret (.ok (some out))) s')
    (hr : s.rowsOf id = [cur]) : ∃ w, some (Site.read, w) ∈ as.map Action.label ∧
      out.1 = ScheduleRepo.patched w.now cur b ∧ s'.rowsOf id = [out.1] := by
  obtain ⟨read, as₁, as₂, s₁, rfl, hread, h⟩ := Prog.Traces.of_bind_ret h
  cases read with
  | error e =>
    obtain ⟨-, he⟩ := h.of_ret
    cases he
  | ok read =>
  obtain ⟨w, s₂, hs₂, rfl, hfound, hs₁⟩ := storeCall_ok hread
  have hrow : s₂.rowsOf id = [cur] := (spares_all hs₂).trans hr
  rw [get_rowsOf, hrow, List.head?_cons, Except.ok.injEq] at hfound
  cases read with
  | none =>
    obtain ⟨-, he⟩ := h.of_ret
    cases he
  | some new =>
  have hnew : new = ScheduleRepo.patched w.now cur b := by
    obtain ⟨cur', hcur, rfl⟩ := Option.map_eq_some_iff.mp hfound
    cases (Option.filter_eq_some_iff.mp hcur).1
    rfl
  obtain ⟨wrote, as₃, as₄, s₃, rfl, hwrite, hafter⟩ := Prog.Traces.of_bind_ret h
  cases wrote with
  | error e =>
    obtain ⟨-, he⟩ := hafter.of_ret
    cases he
  | ok voice =>
  obtain ⟨w₁, s₄, hs₄, rfl, -, hs₃⟩ := storeCall_ok hwrite
  obtain ⟨w₂, s₅, hs₅, rfl, hreread, hs'⟩ := storeCall_ok hafter
  have hwritten : s₅.rowsOf id = [new] := by
    have hbefore : s₄.rowsOf id = [cur] := (spares_all hs₄).trans ((spares_all hs₁).trans hrow)
    rw [spares_all hs₅, spares_all hs₃, rowsOf_write, hbefore, List.map_singleton, hnew]
    rfl
  rw [get_rowsOf, hwritten, List.head?_cons] at hreread
  cases hreread
  exact ⟨w, by simp, hnew, (spares_all hs').trans hwritten⟩

theorem update_stores {b : UpdateBody}
    (h : (update chatId id now b).Traces (Spares id) s as (.ret (.ok row)) s') (hr : s.rowsOf id = [cur]) :
    validate now b.body b.intervalSecs b.nextRunAt = .ok () ∧
      ∃ w, some (Site.read, w) ∈ as.map Action.label ∧ row = ScheduleRepo.patched w.now cur b ∧
        s'.rowsOf id = [row] := by
  unfold update at h
  cases hvalid : validate now b.body b.intervalSecs b.nextRunAt with
  | error e =>
    rw [hvalid] at h
    obtain ⟨-, he⟩ := h.of_ret
    cases he
  | ok =>
  rw [hvalid] at h
  refine ⟨rfl, ?_⟩
  obtain ⟨out, as₁, as₂, s₁, rfl, hrow, h⟩ := Prog.Traces.of_bind_ret h
  cases out with
  | error e =>
    obtain ⟨-, he⟩ := h.of_ret
    cases he
  | ok out =>
  cases out with
  | none =>
    obtain ⟨-, he⟩ := h.of_ret
    cases he
  | some out =>
  obtain ⟨w, hw, hout, hstored⟩ := updateRow_stores hrow hr
  obtain ⟨_, as₃, as₄, s₂, rfl, hpublish, h⟩ := Prog.Traces.of_bind_ret h
  obtain ⟨_, as₅, as₆, s₃, rfl, hsettle, h⟩ := Prog.Traces.of_bind_ret h
  obtain ⟨rfl, hrow', hs'⟩ := Prog.Traces.of_ret_ret h
  cases hrow'
  refine ⟨w, by simp [hw], hout, ?_⟩
  obtain ⟨-, -, hs₂⟩ := hpublish.of_sync_ret
  obtain ⟨-, -, hs₃⟩ := hsettle.of_sync_ret
  have hpublished : s₂.rowsOf id = s₁.rowsOf id := (spares_all hs₂).trans rfl
  have hsettled : s₃.rowsOf id = s₂.rowsOf id := (spares_all hs₃).trans rfl
  exact (spares_all hs').trans (hsettled.trans (hpublished.trans hstored))

theorem Patch.reenables_eq (p : Patch) (cur : ScheduleRow) :
    (p.enabled.value?.getD cur.enabled && !cur.enabled) = p.reenables cur := by
  unfold Patch.reenables
  cases p.enabled with
  | value on => cases on <;> simp [Member.value?]
  | _ => simp [Member.value?]

/-- A schedule gets the time that a patch gives, or, where it is recurring, its next slot from
now on. -/
theorem patched_next {t : Int} (hd : Derived decode) (ht : p.nextRunAt = .value t)
    (hi : p.intervalSecs.value? = none) : (ScheduleRepo.patched now cur (decode p)).nextRunAt =
      match cur.intervalSecs with
      | none => t
      | some i => if t = cur.nextRunAt ∧ p.reenables cur = false then t else now + i * 1000 := by
  unfold ScheduleRepo.patched
  rw [hd.intervalSecs, hd.nextRunAt, hd.enabled, ht, hi, Option.map_none, Option.getD_none]
  dsimp only
  rw [p.reenables_eq cur]
  simp only [Member.value?, Option.getD_some, ne_eq, not_true_eq_false, decide_false, Bool.false_or]
  cases cur.intervalSecs with
  | none =>
    split <;> simp_all
  | some i =>
    by_cases hsame : t = cur.nextRunAt
    · subst hsame
      cases p.reenables cur <;> simp
    · simp [hsame]

/-- A time and an interval together are refused. -/
theorem validate_time {t : Int} {body : Option Text} {interval : Option Int}
    (h : validate now body (interval.map some) (some t) = .ok ()) : interval = none := by
  cases interval with
  | none => rfl
  | some i =>
    unfold validate at h
    split at h
    · cases h
    · simp only [Option.map_some, Option.isSome_some, ↓reduceIte] at h
      split at h <;> cases h

/-- What an accepted patch makes of a row is what it asks for exactly where it is plain. -/
theorem patched_realised {clock : Int} (hd : Derived decode) (hv : validate clock (decode p).body (decode p).intervalSecs
      (decode p).nextRunAt = .ok ()) :
    Realised p cur (ScheduleRepo.patched now cur (decode p)) ↔ p.Plain cur now := by
  have hinterval : (ScheduleRepo.patched now cur (decode p)).intervalSecs =
      (p.intervalSecs.value?.map some).getD cur.intervalSecs := by
    rw [← hd.intervalSecs]
    rfl
  have htime : ∀ t, p.nextRunAt = .value t → p.intervalSecs.value? = none := by
    intro t ht
    rw [hd.intervalSecs, hd.nextRunAt, ht] at hv
    exact validate_time hv
  constructor
  · intro h
    refine ⟨fun hnull => ?_, fun t i ht hi => ?_⟩
    · have hone := h.oneTime hnull
      rwa [hinterval, hnull] at hone
    · have hnext := h.next t ht
      rw [patched_next hd ht (htime t ht), hi] at hnext
      dsimp only at hnext
      split at hnext
      · rename_i hkept
        exact .inl hkept
      · exact .inr hnext.symm
  · intro h
    refine ⟨fun t ht => ?_, fun i hi => ?_, fun hnull => ?_, fun habsent => ?_, fun hbody => ?_, fun hon => ?_⟩
    · rw [patched_next hd ht (htime t ht)]
      cases hi : cur.intervalSecs with
      | none => rfl
      | some i =>
        dsimp only
        split
        · rfl
        · rename_i hkept
          rcases h.2 t i ht hi with hsame | hslot
          · exact absurd hsame hkept
          · exact hslot.symm
    · rw [hinterval, hi]
      rfl
    · rw [hinterval, hnull]
      exact h.1 hnull
    · rw [hinterval, habsent]
      rfl
    · unfold ScheduleRepo.patched
      rw [hd.body, hbody]
      rfl
    · unfold ScheduleRepo.patched
      rw [hd.enabled, hon]
      rfl

end Updates

/-- An accepted patch realises the timing it asks for exactly when it is plain at the time at
which the update has read the schedule. -/
theorem patch_realised_iff (decode : Patch → UpdateBody) (hd : Derived decode) (p : Patch)
    (cur row : ScheduleRow) (now : Int) (s s' : Planner) (id chatId : Uuid) (as : List PlanAction)
    (hr : s.rowsOf id = [cur])
    (h : (update chatId id now (decode p)).Traces (Spares id) s as (.ret (.ok row)) s') :
    ∃ w, some (Site.read, w) ∈ as.map Action.label ∧ s'.rowsOf id = [row] ∧
      (Realised p cur row ↔ p.Plain cur w.now) := by
  obtain ⟨hv, w, hw, hrow, hstored⟩ := update_stores h hr
  refine ⟨w, hw, hstored, ?_⟩
  rw [hrow]
  exact patched_realised hd hv

/-- The derived decoder. -/
def decodePatch (p : Patch) : UpdateBody where
  body := p.body.value?
  intervalSecs := p.intervalSecs.value?.map some
  nextRunAt := p.nextRunAt.value?
  enabled := p.enabled.value?

theorem decodePatch_derived : Derived decodePatch := ⟨fun _ => rfl, fun _ => rfl, fun _ => rfl, fun _ => rfl⟩

/-- Every two minutes instead of every minute. -/
def slower : Patch := { intervalSecs := .value 120 }

theorem patch_realised_slower : ∃ row as s',
    (update 1 7 1000 (decodePatch slower)).Traces (Spares 7) (boot [minutely] [1] 8) as (.ret (.ok row)) s' ∧
    row = { minutely with intervalSecs := some 120, nextRunAt := 121000, updatedAt := 1000 } ∧
      ∃ w, some (Site.read, w) ∈ as.map Action.label ∧ s'.rowsOf 7 = [row] ∧
        (Realised slower minutely row ↔ slower.Plain minutely w.now) := by
  have hrun : ((update 1 7 1000 (decodePatch slower)).alone [{ now := 1000 }, {}, {}]
      (boot [minutely] [1] 8)).map (fun out => out.2.1.returned) =
      some (some (.ok { minutely with intervalSecs := some 120, nextRunAt := 121000, updatedAt := 1000 })) := rfl
  obtain ⟨⟨as, q, s'⟩, hout, hret⟩ := Option.map_eq_some_iff.mp hrun
  have ht := Prog.traces_alone (Spares 7) hout
  rw [Prog.eq_ret_of_returned hret] at ht
  exact ⟨_, as, s', ht, rfl,
    patch_realised_iff decodePatch decodePatch_derived slower minutely _ 1000 _ s' 7 1 as rfl ht⟩

/-- Once at a given time, instead of every minute. -/
def onlyOnce : Patch := { intervalSecs := .null, nextRunAt := .value 500000 }

/-- A recurring schedule that is to run once keeps its interval, and its own next slot. -/
theorem null_interval_ignored : ¬ ∀ (decode : Patch → UpdateBody), Derived decode →
    ∀ (p : Patch) (cur row : ScheduleRow) (now : Int) (s s' : Planner) (id chatId : Uuid)
      (as : List PlanAction), s.rowsOf id = [cur] →
      (update chatId id now (decode p)).Traces (Spares id) s as (.ret (.ok row)) s' →
        Realised p cur row := by
  intro hclaim
  have hrun : ((update 1 7 1000 (decodePatch onlyOnce)).alone [{ now := 1000 }, {}, {}]
      (boot [minutely] [1] 8)).map (fun out => out.2.1.returned) =
      some (some (.ok { minutely with nextRunAt := 61000, updatedAt := 1000 })) := rfl
  obtain ⟨⟨as, q, s'⟩, hout, hret⟩ := Option.map_eq_some_iff.mp hrun
  have ht := Prog.traces_alone (Spares 7) hout
  rw [Prog.eq_ret_of_returned hret] at ht
  have hdone := hclaim decodePatch decodePatch_derived onlyOnce minutely _ 1000 _ s' 7 1 as rfl ht
  have hinterval : (some 60 : Option Int) = none := hdone.oneTime rfl
  cases hinterval

end AgentGrove.Schedules
