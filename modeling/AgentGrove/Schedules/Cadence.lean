import AgentGrove.Schedules.Passes

namespace AgentGrove.Schedules

open Coop Relation

/-- The stored rows of a schedule. -/
def Planner.rowsOf (s : Planner) (id : Uuid) : List ScheduleRow := s.schedules.filter (fun r => r.id = id)

/-- The others leave a schedule alone. -/
def Spares (id : Uuid) (s s' : Planner) : Prop := s'.rowsOf id = s.rowsOf id

/-- A pass at `now` has moved the next run of a schedule on. -/
structure Fire where
  now : Int
  old : Int
  next : Int
deriving DecidableEq

/-- The fire that an action makes, where it marks this schedule. -/
def fireOf (id : Uuid) (now : Int) (a : PlanAction) : Option Fire :=
  match a.label with
  | some (.mark k _, w) =>
    if k.row.id = id && !w.fail then
      (ScheduleRepo.get a.before.schedules id).bind (fun r =>
        (ScheduleRepo.get a.after.schedules id).map (fun r' => ⟨now, r.nextRunAt, r'.nextRunAt⟩))
    else none
  | _ => none

def Tick.fires (t : Tick) (id : Uuid) : List Fire := t.acts.filterMap (fireOf id t.now)

/-- A row that is switched off. -/
def paused (now : Int) (r : ScheduleRow) : ScheduleRow := { r with enabled := false, updatedAt := now }

/-- A row whose time has come. -/
def ScheduleRow.isDue (r : ScheduleRow) (now : Int) : Bool := r.enabled && decide (r.nextRunAt ≤ now)

/-- What a fire makes of a row: the pass may pause it later. -/
def Advanced (now : Int) (r r' : ScheduleRow) : Prop :=
  r' = ScheduleRepo.marked now r ∨ ∃ t, r' = paused t (ScheduleRepo.marked now r)

/-- A store call of a pass fails. -/
def failing (a : PlanAction) : Bool := a.label.any (fun l => l.2.fail)

section Rows

variable {E : Planner → Planner → Prop} {id : Uuid} {now : Int} {s s' : Planner} {k : Held}
  {rest due : List Held} {r : ScheduleRow} {as : List PlanAction} {rows : List ScheduleRow}

theorem spares_all (h : ReflTransGen (Spares id) s s') : s'.rowsOf id = s.rowsOf id := by
  induction h with
  | refl => rfl
  | tail _ hE ih => exact Eq.trans hE ih

theorem get_rowsOf : ScheduleRepo.get s.schedules id = (s.rowsOf id).head? := by
  unfold Planner.rowsOf
  rw [List.head?_filter]
  rfl

theorem filter_setRow {f : ScheduleRow → ScheduleRow} (hf : ∀ r, (f r).id = r.id) (id' : Uuid) :
    (ScheduleRepo.setRow id' f rows).filter (fun r => r.id = id) =
      if id' = id then (rows.filter (fun r => r.id = id)).map f else rows.filter (fun r => r.id = id) := by
  have hid : ∀ r, (if r.id = id' then f r else r).id = r.id := by
    intro r
    split
    · exact hf r
    · rfl
  unfold ScheduleRepo.setRow
  rw [List.filter_map]
  have hsame : ((fun r : ScheduleRow => decide (r.id = id)) ∘ fun r => if r.id = id' then f r else r) =
      fun r => decide (r.id = id) := by
    funext r
    simp only [Function.comp_apply, hid]
  rw [hsame]
  split
  · rename_i h
    subst h
    exact List.map_congr_left fun r hr => if_pos (by simpa using (List.mem_filter.mp hr).2)
  · rename_i h
    refine (List.map_congr_left fun r hr => if_neg ?_).trans (List.map_id _)
    rw [show r.id = id by simpa using (List.mem_filter.mp hr).2]
    exact fun h' => h h'.symm

theorem marked_id (now : Int) (r : ScheduleRow) : (ScheduleRepo.marked now r).id = r.id := by
  unfold ScheduleRepo.marked
  split <;> rfl

theorem rowsOf_afterMark : (s.afterMark now k).rowsOf id =
    if k.row.id = id then (s.rowsOf id).map (ScheduleRepo.marked now) else s.rowsOf id :=
  filter_setRow (marked_id now) _

theorem rowsOf_afterPause : (s.afterPause now k).rowsOf id =
    if k.row.id = id then (s.rowsOf id).map (paused now) else s.rowsOf id :=
  filter_setRow (f := paused now) (fun _ => rfl) _

/-- Of a schedule with one row, a pass reads that row or none. -/
theorem due_filter (hr : s.rowsOf id = [r]) (now : Int) :
    (ScheduleRepo.due now s.schedules).filter (fun r => r.id = id) = if r.isDue now then [r] else [] := by
  have hperm : ((ScheduleRepo.due now s.schedules).filter (fun r => r.id = id)).Perm
      (if r.isDue now then [r] else []) := by
    refine ((List.perm_insertionSort _ _).filter _).trans ?_
    rw [List.filter_comm, show s.schedules.filter (fun r => r.id = id) = [r] from hr, List.filter_singleton,
      cond_eq_ite]
    exact List.Perm.refl _
  split at hperm
  · rename_i h
    rw [if_pos h]
    exact List.perm_singleton.mp hperm
  · rename_i h
    rw [if_neg h]
    exact List.perm_nil.mp hperm

end Rows

section Passes

variable {id : Uuid} {now : Int} {s s' : Planner} {k : Held} {rest due : List Held}
  {r : ScheduleRow} {as : List PlanAction}

/-- After the mark nothing fires, and the row is at most paused. -/
theorem Outcome.row (h : Outcome (Spares id) k rest s as s') (now : Int) :
    as.filterMap (fireOf id now) = [] ∧ (s'.rowsOf id = s.rowsOf id ∨
      k.row.id = id ∧ ∃ t, s'.rowsOf id = (s.rowsOf id).map (paused t)) := by
  cases h with
  | skipped hq hs => exact ⟨rfl, .inl (spares_all hs)⟩
  | @sent s₁ s₂ _ u v hq hs hv hs₂ hs' =>
    have hsent : s₂.rowsOf id = s₁.rowsOf id := (spares_all hs₂).trans rfl
    have htold : s'.rowsOf id = s₂.rowsOf id := (spares_all hs').trans rfl
    exact ⟨rfl, .inl (htold.trans (hsent.trans (spares_all hs)))⟩
  | @refused s₁ s₂ _ u v code hq hs hv hcode hs₂ hs' =>
    have htold : s'.rowsOf id = s₂.rowsOf id := (spares_all hs').trans rfl
    exact ⟨rfl, .inl (htold.trans ((spares_all hs₂).trans (spares_all hs)))⟩
  | @gone s₁ s₂ s₃ s₄ _ u v x hq hs hv hs₂ hs₃ hs₄ hs' =>
    refine ⟨rfl, ?_⟩
    have hbefore : s₂.rowsOf id = s.rowsOf id := (spares_all hs₂).trans (spares_all hs)
    have htold : s'.rowsOf id = s₄.rowsOf id := (spares_all hs').trans rfl
    have hafter : s'.rowsOf id = s₃.rowsOf id := htold.trans (spares_all hs₄)
    rw [hafter, hs₃]
    split
    · exact .inl hbefore
    · rw [rowsOf_afterPause, hbefore]
      split
      · rename_i hk
        exact .inr ⟨hk, x.now, rfl⟩
      · exact .inl rfl

/-- A pass that handles another schedule leaves this one alone. -/
theorem Handled.other (hk : k.row.id ≠ id) (h : Handled (Spares id) now k rest s as s') :
    as.filterMap (fireOf id now) = [] ∧ s'.rowsOf id = s.rowsOf id := by
  cases h with
  | failed hs hw hs' =>
    refine ⟨?_, (spares_all hs').trans (spares_all hs)⟩
    simp [fireOf, hk]
  | @marked s₁ s₂ _ w as hs hw hs₂ hout =>
    obtain ⟨hfires, hrow⟩ := hout.row now
    have hmark : s₂.rowsOf id = s.rowsOf id := by
      rw [spares_all hs₂, rowsOf_afterMark, if_neg hk, spares_all hs]
    refine ⟨by simp [fireOf, hk, hfires], ?_⟩
    rcases hrow with hrow | ⟨hid, -⟩
    · exact hrow.trans hmark
    · exact absurd hid hk

/-- A pass that handles this schedule fires it, unless the store fails. -/
theorem Handled.own (hk : k.row.id = id) (hr : s.rowsOf id = [r])
    (h : Handled (Spares id) now k rest s as s') :
    (as.filterMap (fireOf id now) = [] ∧ s'.rowsOf id = [r] ∧ ∃ a ∈ as, failing a = true) ∨
      as.filterMap (fireOf id now) = [⟨now, r.nextRunAt, (ScheduleRepo.marked now r).nextRunAt⟩] ∧
        ∃ r', s'.rowsOf id = [r'] ∧ Advanced now r r' := by
  cases h with
  | @failed s₁ _ w hs hw hs' =>
    refine .inl ⟨?_, ((spares_all hs').trans (spares_all hs)).trans hr, _, List.mem_singleton.mpr rfl, ?_⟩
    · simp [fireOf, hw]
    · simpa [failing] using hw
  | @marked s₁ s₂ _ w as hs hw hs₂ hout =>
    right
    obtain ⟨hfires, hrow⟩ := hout.row now
    have hbefore : s₁.rowsOf id = [r] := (spares_all hs).trans hr
    have hafter : (s₁.afterMark now k).rowsOf id = [ScheduleRepo.marked now r] := by
      rw [rowsOf_afterMark, if_pos hk, hbefore, List.map_singleton]
    have hmark : s₂.rowsOf id = [ScheduleRepo.marked now r] := (spares_all hs₂).trans hafter
    refine ⟨?_, ?_⟩
    · rw [List.filterMap_cons_some (b := ⟨now, r.nextRunAt, (ScheduleRepo.marked now r).nextRunAt⟩), hfires]
      simp [fireOf, hk, hw, get_rowsOf, hbefore, hafter]
    · rcases hrow with hrow | ⟨-, t, hrow⟩
      · exact ⟨_, hrow.trans hmark, .inl rfl⟩
      · rw [hmark] at hrow
        exact ⟨_, hrow, .inr ⟨t, rfl⟩⟩

theorem Handles.other (h : Handles (Spares id) now due s as s') (hk : ∀ k ∈ due, k.row.id ≠ id) :
    as.filterMap (fireOf id now) = [] ∧ s'.rowsOf id = s.rowsOf id := by
  induction h with
  | done hs => exact ⟨rfl, spares_all hs⟩
  | step hk₁ _ ih =>
    obtain ⟨hfires, hrow⟩ := hk₁.other (hk _ (List.mem_cons_self ..))
    obtain ⟨hfires', hrow'⟩ := ih fun k hk' => hk k (List.mem_cons_of_mem _ hk')
    rw [List.filterMap_append, hfires, hfires']
    exact ⟨rfl, hrow'.trans hrow⟩

/-- A pass that has this schedule once in its list fires it, unless the store fails. -/
theorem Handles.own (h : Handles (Spares id) now due s as s')
    (hdue : due.filter (fun k => k.row.id = id) = [k]) (hr : s.rowsOf id = [r]) :
    (as.filterMap (fireOf id now) = [] ∧ s'.rowsOf id = [r] ∧ ∃ a ∈ as, failing a = true) ∨
      as.filterMap (fireOf id now) = [⟨now, r.nextRunAt, (ScheduleRepo.marked now r).nextRunAt⟩] ∧
        ∃ r', s'.rowsOf id = [r'] ∧ Advanced now r r' := by
  induction h with
  | done hs => cases hdue
  | @step k₁ rest s s₁ s' as as' hk h ih =>
    rw [List.filterMap_append]
    by_cases hid : k₁.row.id = id
    · rw [List.filter_cons_of_pos (by simpa using hid)] at hdue
      have hrest : ∀ k ∈ rest, k.row.id ≠ id := by
        have hnone := (List.cons.inj hdue).2
        exact fun k hk => by simpa using List.filter_eq_nil_iff.mp hnone k hk
      obtain ⟨hfires, hrow⟩ := h.other hrest
      rw [hfires, List.append_nil, hrow]
      rcases hk.own hid hr with ⟨hnone, hsame, a, ha, hfail⟩ | hfired
      · exact .inl ⟨hnone, hsame, a, List.mem_append_left _ ha, hfail⟩
      · exact .inr hfired
    · rw [List.filter_cons_of_neg (by simpa using hid)] at hdue
      obtain ⟨hfires, hrow⟩ := hk.other hid
      rw [hfires, List.nil_append]
      rcases ih hdue (hrow.trans hr) with ⟨hnone, hsame, a, ha, hfail⟩ | hfired
      · exact .inl ⟨hnone, hsame, a, List.mem_append_right _ ha, hfail⟩
      · exact .inr hfired

/-- A pass over a schedule with one row: it fires once where the row is due and the store
does not fail, else it leaves the row alone. -/
theorem pass_row (h : (fireDue now).Traces (Spares id) s as (.ret ()) s') (hr : s.rowsOf id = [r]) :
    ((Tick.mk now as).fires id = [] ∧ s'.rowsOf id = [r] ∧
      (r.isDue now = true → ∃ a ∈ as, failing a = true)) ∨
    r.isDue now = true ∧
      (Tick.mk now as).fires id = [⟨now, r.nextRunAt, (ScheduleRepo.marked now r).nextRunAt⟩] ∧
        ∃ r', s'.rowsOf id = [r'] ∧ Advanced now r r' := by
  obtain ⟨w, s₁, hs, ⟨hw, rfl, hs'⟩ | ⟨hw, as', s₂, rfl, hs₂, hall⟩⟩ := pass_of_trace h
  · refine .inl ⟨rfl, ((spares_all hs').trans (spares_all hs)).trans hr, fun _ => ?_⟩
    exact ⟨_, List.mem_singleton.mpr rfl, by simpa [failing] using hw⟩
  have hread : s₁.rowsOf id = [r] := (spares_all hs).trans hr
  have hrow : s₂.rowsOf id = [r] := (spares_all hs₂).trans hread
  have hheld : (s₁.hold (ScheduleRepo.due now s₁.schedules)).filter (fun k => k.row.id = id) =
      s₁.hold (if r.isDue now then [r] else []) := by
    rw [← due_filter hread now]
    unfold Planner.hold
    rw [List.filter_map]
    rfl
  have hfires : (Tick.mk now (⟨some (.due, w), s₁, s₁⟩ :: as')).fires id = as'.filterMap (fireOf id now) := rfl
  rw [hfires]
  cases hdue : r.isDue now with
  | false =>
    rw [hdue, if_neg Bool.false_ne_true] at hheld
    obtain ⟨hnone, hsame⟩ := hall.other fun k hk => by simpa using List.filter_eq_nil_iff.mp hheld k hk
    exact .inl ⟨hnone, hsame.trans hrow, fun h => nomatch h⟩
  | true =>
    rw [hdue, if_pos rfl] at hheld
    rcases hall.own hheld hrow with ⟨hnone, hsame, a, ha, hfail⟩ | hfired
    · exact .inl ⟨hnone, hsame, fun _ => ⟨a, List.mem_cons_of_mem _ ha, hfail⟩⟩
    · exact .inr ⟨rfl, hfired⟩

end Passes

section Runs

variable {id : Uuid} {s s' : Planner} {r : ScheduleRow} {ts : List Tick} {i t : Int}

/-- The next run after a fire lies within an interval of the fire, and an interval or more
after the old one. -/
structure Fire.OnCadence (f : Fire) (i : Int) : Prop where
  due : f.old ≤ f.now
  later : f.now < f.next
  soon : f.next ≤ f.now + i * 1000
  apart : f.old + i * 1000 ≤ f.next

theorem marked_interval (now : Int) (r : ScheduleRow) :
    (ScheduleRepo.marked now r).intervalSecs = r.intervalSecs := by
  unfold ScheduleRepo.marked
  split <;> rfl

theorem marked_next {now : Int} (hi : r.intervalSecs = some i) : (ScheduleRepo.marked now r).nextRunAt =
    if now < r.nextRunAt + i * 1000 then r.nextRunAt + i * 1000 else now + i * 1000 := by
  unfold ScheduleRepo.marked
  rw [hi]

theorem marked_onCadence {now : Int} (hi : r.intervalSecs = some i) (hpos : 0 < i) (hdue : r.isDue now = true) :
    (Fire.mk now r.nextRunAt (ScheduleRepo.marked now r).nextRunAt).OnCadence i := by
  have hnow : r.nextRunAt ≤ now := of_decide_eq_true (Bool.and_eq_true_iff.mp hdue).2
  constructor <;> dsimp only
  · exact hnow
  · rw [marked_next hi]
    split <;> omega
  · rw [marked_next hi]
    split <;> omega
  · rw [marked_next hi]
    split <;> omega

theorem advanced_interval {now : Int} {r r' : ScheduleRow} (h : Advanced now r r') :
    r'.intervalSecs = r.intervalSecs ∧ r'.nextRunAt = (ScheduleRepo.marked now r).nextRunAt := by
  rcases h with rfl | ⟨t, rfl⟩
  · exact ⟨marked_interval now r, rfl⟩
  · exact ⟨marked_interval now r, rfl⟩

/-- Fires one after another, each from where the one before it has put the next run. -/
inductive Chained (i : Int) : Int → List Fire → Prop where
  | nil {n : Int} : Chained i n []
  | cons {f : Fire} {fs : List Fire} (hf : f.OnCadence i) (h : Chained i f.next fs) :
      Chained i f.old (f :: fs)

/-- The fires of a run of ticks are chained, at most one to a tick, and the schedule stays. -/
theorem ticking_chained (h : Ticking (Spares id) s ts s') (hr : s.rowsOf id = [r])
    (hi : r.intervalSecs = some i) (hpos : 0 < i) :
    Chained i r.nextRunAt (ts.flatMap (fun t => t.fires id)) ∧ (∀ t ∈ ts, (t.fires id).length ≤ 1) ∧
      ∃ r', s'.rowsOf id = [r'] ∧ r'.intervalSecs = some i := by
  induction h generalizing r with
  | rest s => exact ⟨.nil, fun _ ht => (nomatch ht), r, hr, hi⟩
  | others hE _ ih => exact ih (hE.trans hr) hi
  | @tick s s₁ s' now as ts hpass _ ih =>
    rw [List.flatMap_cons, List.forall_mem_cons]
    rcases pass_row hpass hr with ⟨hnone, hrow, -⟩ | ⟨hdue, hfires, r', hrow, hadv⟩
    · rw [hnone]
      obtain ⟨hchain, hone, hstays⟩ := ih hrow hi
      exact ⟨hchain, ⟨Nat.zero_le 1, hone⟩, hstays⟩
    · rw [hfires]
      obtain ⟨hint, hnext⟩ := advanced_interval hadv
      obtain ⟨hchain, hone, hstays⟩ := ih hrow (hint.trans hi)
      rw [hnext] at hchain
      exact ⟨.cons (marked_onCadence hi hpos hdue) hchain, ⟨Nat.le_refl 1, hone⟩, hstays⟩

variable {n : Int} {fs : List Fire}

theorem Chained.onCadence (h : Chained i n fs) : ∀ f ∈ fs, f.OnCadence i := by
  induction h with
  | nil => exact fun _ hf => nomatch hf
  | cons hf _ ih => exact List.forall_mem_cons.mpr ⟨hf, ih⟩

/-- The fires are at least an interval apart, counted from the first run. -/
theorem Chained.paced (h : Chained i n fs) (k : Nat) (f : Fire) (hk : fs[k]? = some f) :
    n + k * (i * 1000) ≤ f.now := by
  induction h generalizing k with
  | nil => cases hk
  | @cons g fs hg _ ih =>
    cases k with
    | zero =>
      cases hk
      have hdue := hg.due
      omega
    | succ k =>
      have hrest := ih k hk
      have happly := hg.apart
      rw [Int.natCast_add, Int.add_mul]
      omega

/-- So only so many of them happen up to any time. -/
theorem Chained.counted (h : Chained i n fs) (hpos : 0 < i) (ht : n ≤ t) :
    (fs.countP (fun f => f.now ≤ t) : Int) ≤ 1 + (t - n) / (i * 1000) := by
  have hstep : 0 < i * 1000 := by omega
  have hq : 0 ≤ (t - n) / (i * 1000) := Int.ediv_nonneg (by omega) hstep.le
  obtain ⟨q, hq⟩ := Int.eq_ofNat_of_zero_le hq
  have hslots : t - n < (q + 1) * (i * 1000) := by
    rw [← hq]
    exact Int.lt_ediv_add_one_mul_self _ hstep
  have hlate : (fs.drop (q + 1)).countP (fun f => f.now ≤ t) = 0 := by
    rw [List.countP_eq_zero]
    intro f hf
    obtain ⟨j, hj⟩ := List.getElem?_of_mem hf
    rw [List.getElem?_drop] at hj
    have hpaced := h.paced _ f hj
    have hmore : ((q : Int) + 1) * (i * 1000) ≤ ((q + 1 + j : Nat) : Int) * (i * 1000) :=
      Int.mul_le_mul_of_nonneg_right (by omega) hstep.le
    simp only [decide_eq_true_eq]
    omega
  have hsplit : fs.countP (fun f => f.now ≤ t) =
      (fs.take (q + 1)).countP (fun f => f.now ≤ t) + (fs.drop (q + 1)).countP (fun f => f.now ≤ t) := by
    rw [← List.countP_append, List.take_append_drop]
  have hearly : (fs.take (q + 1)).countP (fun f => f.now ≤ t) ≤ q + 1 :=
    List.countP_le_length.trans (List.length_take_le _ _)
  rw [hsplit, hlate, hq]
  omega

/-- However many slots have passed, the next pass fires once and puts the next run after it. -/
theorem backlog_once {now : Int} {as : List PlanAction} (hr : s.rowsOf id = [r])
    (hi : r.intervalSecs = some i) (hpos : 0 < i) (hdue : r.isDue now = true)
    (hpass : (fireDue now).Traces (Spares id) s as (.ret ()) s') (has : ∀ a ∈ as, failing a = false) :
    ∃ f, (Tick.mk now as).fires id = [f] ∧ ∃ r', s'.rowsOf id = [r'] ∧ now < r'.nextRunAt := by
  rcases pass_row hpass hr with ⟨-, -, hfails⟩ | ⟨-, hfires, r', hrow, hadv⟩
  · obtain ⟨a, ha, hfail⟩ := hfails hdue
    rw [has a ha] at hfail
    cases hfail
  · refine ⟨_, hfires, r', hrow, ?_⟩
    rw [(advanced_interval hadv).2]
    exact (marked_onCadence hi hpos hdue).later

end Runs

/-- A recurring schedule that nobody edits keeps its cadence, whatever the times of the ticks. -/
theorem cadence_kept (id : Uuid) (s s' : Planner) (ts : List Tick) (r : ScheduleRow) (i : Int)
    (hr : s.rowsOf id = [r]) (hi : r.intervalSecs = some i) (hpos : 0 < i)
    (h : Ticking (Spares id) s ts s') :
    (∀ f ∈ ts.flatMap (fun t => t.fires id), f.OnCadence i) ∧
    (∀ (k : Nat) (f : Fire), (ts.flatMap (fun t => t.fires id))[k]? = some f →
      r.nextRunAt + k * (i * 1000) ≤ f.now) ∧
    (∀ t, r.nextRunAt ≤ t → ((ts.flatMap (fun t => t.fires id)).countP (fun f => f.now ≤ t) : Int) ≤
      1 + (t - r.nextRunAt) / (i * 1000)) ∧
    (∀ t ∈ ts, (t.fires id).length ≤ 1) ∧
    ∀ now as s'' r', s'.rowsOf id = [r'] → r'.isDue now = true →
      (fireDue now).Traces (Spares id) s' as (.ret ()) s'' → (∀ a ∈ as, failing a = false) →
        ∃ f, (Tick.mk now as).fires id = [f] ∧ ∃ r'', s''.rowsOf id = [r''] ∧ now < r''.nextRunAt := by
  obtain ⟨hchain, hone, r₁, hr₁, hi₁⟩ := ticking_chained h hr hi hpos
  refine ⟨hchain.onCadence, fun k f hk => hchain.paced k f hk, fun t ht => hchain.counted hpos ht, hone, ?_⟩
  intro now as s'' r' hr' hdue hpass has
  cases hr₁.symm.trans hr'
  exact backlog_once hr' hi₁ hpos hdue hpass has

/-- A schedule that runs every minute, the first time after one. -/
def minutely : ScheduleRow := ScheduleRepo.create 7 1 ['a'] (some 60) 60000 0

/-- A tick exactly on the slot, one a little late, a long sleep, and a tick before the next slot. -/
def waking : List (Int × List Choice) :=
  [(60000, [{}, {}, {}, {}]), (125000, [{}, {}, {}, {}]), (900000, [{}, {}, {}, {}]), (930000, [{}])]

theorem cadence_kept_minutely : ∃ s' ts,
    (Ticking (Spares 7) (boot [minutely] [1] 8) ts s' ∧ ts.flatMap (fun t => t.fires 7) =
      [⟨60000, 60000, 120000⟩, ⟨125000, 120000, 180000⟩, ⟨900000, 180000, 960000⟩]) ∧
    (∀ f ∈ ts.flatMap (fun t => t.fires 7), f.OnCadence 60) ∧
    ∀ (k : Nat) (f : Fire), (ts.flatMap (fun t => t.fires 7))[k]? = some f → 60000 + k * (60 * 1000) ≤ f.now := by
  have hrun : (playTicks waking (boot [minutely] [1] 8)).map (fun out => out.1.flatMap (fun t => t.fires 7)) =
      some [⟨60000, 60000, 120000⟩, ⟨125000, 120000, 180000⟩, ⟨900000, 180000, 960000⟩] := by decide
  obtain ⟨⟨ts, s'⟩, hplay, hfires⟩ := Option.map_eq_some_iff.mp hrun
  have hticks := playTicks_ticking (Spares 7) hplay
  have hall := cadence_kept 7 _ s' ts minutely 60 rfl rfl (by decide) hticks
  exact ⟨s', ts, ⟨hticks, hfires⟩, hall.1, hall.2.1⟩

end AgentGrove.Schedules
