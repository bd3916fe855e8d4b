import AgentGrove.Coop.Upholds
import AgentGrove.Schedules.Cadence

namespace AgentGrove.Schedules

open Coop

def minI64 : Int := -9223372036854775808

def maxI64 : Int := 9223372036854775807

def InI64 (v : Int) : Prop := minI64 ≤ v ∧ v ≤ maxI64

instance (v : Int) : Decidable (InI64 v) := inferInstanceAs (Decidable (_ ∧ _))

/-- Whether `update` starts the countdown of this row anew. -/
def restarts (cur : ScheduleRow) (b : UpdateBody) : Bool :=
  b.intervalSecs.getD cur.intervalSecs ≠ cur.intervalSecs || b.nextRunAt.getD cur.nextRunAt ≠ cur.nextRunAt ||
    (b.enabled.getD cur.enabled && !cur.enabled)

/-- What starting a countdown computes. -/
def countdown (now i : Int) : List Int := [i * 1000, now + i * 1000]

/-- What `mark_ran` computes for a row. -/
def markSums (now : Int) (row : ScheduleRow) : List Int :=
  match row.intervalSecs with
  | none => []
  | some i => [i * 1000, row.nextRunAt + i * 1000] ++
      if now < row.nextRunAt + i * 1000 then [] else [now + i * 1000]

/-- The integers that a request computes at one of its actions. -/
def sumsOf (r : Request) (a : PlanAction) : List Int :=
  match r, a.label with
  | .create _ _ b, some (.insert, w) =>
    if b.nextRunAt.isNone then b.intervalSecs.toList.flatMap (countdown w.now) else []
  | .update chatId id _ b, some (.read, w) =>
    ((ScheduleRepo.get a.before.schedules id).filter (fun r => r.chatId = chatId)).toList.flatMap (fun cur =>
      if restarts cur b then
        match b.intervalSecs.getD cur.intervalSecs with
        | some i => countdown w.now i
        | none => [w.now + 60000]
      else [])
  | .fireDue now, some (.mark k _, _) => (a.before.rowsOf k.row.id).flatMap (markSums now)
  | _, _ => []

/-- The times that a create and a restarting update store come after the time of the request. -/
def Later (r : Request) (a : PlanAction) : Prop :=
  match r, a.label with
  | .create _ now _, some (.insert, _) =>
    ∀ row ∈ a.after.schedules, row ∈ a.before.schedules ∨ now < row.nextRunAt
  | .update _ _ now b, some (.write _ new, _) =>
    ∃ cur clock, new = ScheduleRepo.patched clock cur b ∧ (restarts cur b = true → now < new.nextRunAt)
  | _, _ => True

/-- Every sum of the action is an `i64`, and what it stores lies ahead. -/
def Sums (r : Request) (e : Option (Site × Choice)) (s s' : Planner) : Prop :=
  (∀ v ∈ sumsOf r ⟨e, s, s'⟩, InI64 v) ∧ Later r ⟨e, s, s'⟩

/-- An interval after which the latest clock is still an `i64`. -/
def Roomy (latest : Nat) (i : Int) : Prop := latest + i * 1000 ≤ maxI64

instance (latest : Nat) (i : Int) : Decidable (Roomy latest i) := inferInstanceAs (Decidable (_ ≤ _))

/-- A stored schedule whose next run can be computed. -/
def ScheduleRow.Roomy (latest : Nat) (row : ScheduleRow) : Prop :=
  ∀ i, row.intervalSecs = some i → minIntervalSecs ≤ i ∧ Schedules.Roomy latest i ∧ minI64 ≤ row.nextRunAt

def Planner.Roomy (latest : Nat) (s : Planner) : Prop := ∀ row ∈ s.schedules, row.Roomy latest

/-- A request that sets no interval too long for the clock. -/
def Request.Roomy (latest : Nat) : Request → Prop
  | .create _ now b => minI64 ≤ now ∧ ∀ i ∈ b.intervalSecs, Schedules.Roomy latest i
  | .update _ _ now b => minI64 ≤ now ∧ ∀ o ∈ b.intervalSecs, ∀ i ∈ o, Schedules.Roomy latest i
  | .delete _ _ => True
  | .fireDue now => minI64 ≤ now ∧ now ≤ latest

instance (latest : Nat) : (r : Request) → Decidable (r.Roomy latest)
  | .create _ _ _ | .update _ _ _ _ | .fireDue _ => inferInstanceAs (Decidable (_ ∧ _))
  | .delete _ _ => .isTrue trivial

/-- The time at which a request was validated. -/
def Request.askedAt : Request → Option Int
  | .create _ now _ | .update _ _ now _ => some now
  | _ => none

/-- A row that a pass marks is still due, or an update has started its countdown and there is
room for two intervals. -/
def Unraced (latest : Nat) (s : Planner) : Request → Site → Prop
  | .fireDue now, .mark k _ => ∀ row ∈ s.rowsOf k.row.id, ∀ i ∈ row.intervalSecs,
    row.nextRunAt ≤ now ∨ (row.nextRunAt ≤ latest + i * 1000 ∧ Roomy latest (2 * i))
  | _, _ => True

instance (latest : Nat) (s : Planner) : (r : Request) → (x : Site) → Decidable (Unraced latest s r x)
  | .fireDue _, .mark _ _ => inferInstanceAs (Decidable (∀ row ∈ _, ∀ i ∈ _, _))
  | .create _ _ _, _ | .update _ _ _ _, _ | .delete _ _, _ | .fireDue _, .chat | .fireDue _, .insert
  | .fireDue _, .get | .fireDue _, .read | .fireDue _, .write _ _ | .fireDue _, .reread _ _
  | .fireDue _, .erase _ _ | .fireDue _, .due | .fireDue _, .queue _ _ | .fireDue _, .send _ _
  | .fireDue _, .pause _ _ => .isTrue trivial

/-- A clock that does not go back within a request or past the latest time, and no row that is
marked far ahead of its time. -/
def Timely (latest : Nat) (r : Request) (x : Site) (w : Choice) (s : Planner) : Prop :=
  w.now ≤ latest ∧ (∀ now ∈ r.askedAt, now ≤ w.now) ∧ Unraced latest s r x

instance (latest : Nat) (r : Request) (x : Site) (w : Choice) (s : Planner) :
    Decidable (Timely latest r x w s) := inferInstanceAs (Decidable (_ ∧ _ ∧ _))

section Rows

variable {latest : Nat} {now clock : Int} {body : Option Text} {interval : Option (Option Int)}
  {next : Option Int} {cur row : ScheduleRow} {b : UpdateBody} {i t : Int}

theorem validate_interval (h : validate now body (some (some i)) next = .ok ()) :
    minIntervalSecs ≤ i ∧ next = none := by
  unfold validate at h
  split at h
  · cases h
  dsimp only at h
  split at h
  · cases h
  rename_i hi
  cases next with
  | none => exact ⟨by omega, rfl⟩
  | some t => cases h

theorem validate_next (h : validate now body interval (some t) = .ok ()) : now < t := by
  have hfuture : interval.join = none → now < t := by
    intro hnone
    unfold validate at h
    split at h
    · cases h
    rcases interval with _ | _ | i
    · dsimp only at h
      split at h
      · cases h
      · omega
    · dsimp only at h
      split at h
      · cases h
      · omega
    · cases hnone
  rcases interval with _ | _ | i
  · exact hfuture rfl
  · exact hfuture rfl
  · cases (validate_interval h).2

/-- The interval that a request sets is one the clock has room for. -/
def Sets (latest : Nat) (interval : Option (Option Int)) : Prop :=
  ∀ i, interval = some (some i) → minIntervalSecs ≤ i ∧ Roomy latest i

/-- The interval that an update leaves a row with. -/
theorem interval_roomy (hcur : cur.Roomy latest) (hb : Sets latest b.intervalSecs)
    (hi : b.intervalSecs.getD cur.intervalSecs = some i) : minIntervalSecs ≤ i ∧ Roomy latest i := by
  cases hset : b.intervalSecs with
  | none =>
    rw [hset, Option.getD_none] at hi
    exact ⟨(hcur i hi).1, (hcur i hi).2.1⟩
  | some interval =>
    rw [hset, Option.getD_some] at hi
    subst hi
    exact hb i hset

theorem inI64_countdown (hi : minIntervalSecs ≤ i) (hroom : Roomy latest i) (hclock : clock ≤ latest)
    (hmin : minI64 ≤ clock) : ∀ v ∈ countdown clock i, InI64 v := by
  unfold minIntervalSecs at hi
  unfold Roomy at hroom
  unfold countdown InI64
  unfold minI64 maxI64 at *
  intro v hv
  simp only [List.mem_cons, List.not_mem_nil, or_false] at hv
  rcases hv with rfl | rfl <;> omega

theorem patched_next_restarts (clock : Int) (cur : ScheduleRow) (b : UpdateBody) :
    (ScheduleRepo.patched clock cur b).nextRunAt =
      if restarts cur b then
        (b.intervalSecs.getD cur.intervalSecs).elim (b.nextRunAt.getD (clock + 60000))
          (fun i => clock + i * 1000)
      else b.nextRunAt.getD cur.nextRunAt := by
  unfold ScheduleRepo.patched restarts
  dsimp only
  split
  · rename_i i hrestart hi
    rw [if_pos hrestart, hi, Option.elim_some]
  · rename_i hrestart hi
    rw [if_pos hrestart, hi, Option.elim_none]
  · rename_i hrestart
    rw [hrestart, if_neg Bool.false_ne_true]

/-- An update that starts a countdown stores a time after its request. -/
theorem patched_later (hcur : cur.Roomy latest) (hb : Sets latest b.intervalSecs)
    (hv : validate now body b.intervalSecs b.nextRunAt = .ok ()) (hclock : now ≤ clock)
    (hrestart : restarts cur b = true) : now < (ScheduleRepo.patched clock cur b).nextRunAt := by
  rw [patched_next_restarts, if_pos hrestart]
  cases hi : b.intervalSecs.getD cur.intervalSecs with
  | some i =>
    have hmin := (interval_roomy hcur hb hi).1
    unfold minIntervalSecs at hmin
    show now < clock + i * 1000
    omega
  | none =>
    cases hnext : b.nextRunAt with
    | some t =>
      rw [hnext] at hv
      exact validate_next hv
    | none =>
      show now < clock + 60000
      omega

theorem patched_roomy (hcur : cur.Roomy latest) (hb : Sets latest b.intervalSecs)
    (hv : validate now body b.intervalSecs b.nextRunAt = .ok ()) (hmin : minI64 ≤ now)
    (hclock : now ≤ clock) : (ScheduleRepo.patched clock cur b).Roomy latest := by
  intro i hi
  have hset : b.intervalSecs.getD cur.intervalSecs = some i := hi
  obtain ⟨hlow, hroom⟩ := interval_roomy hcur hb hset
  refine ⟨hlow, hroom, ?_⟩
  rw [patched_next_restarts, hset]
  split
  · unfold minIntervalSecs at hlow
    show minI64 ≤ clock + i * 1000
    omega
  · rename_i hkeep
    cases hnext : b.nextRunAt with
    | some t =>
      rw [hnext] at hv
      have hlater := validate_next hv
      dsimp only [Option.getD_some]
      omega
    | none =>
      have hsame : cur.intervalSecs = some i := by
        rw [← hset]
        unfold restarts at hkeep
        simp only [Bool.or_eq_true, not_or, decide_eq_true_eq, ne_eq, not_not] at hkeep
        exact hkeep.1.1.symm
      exact (hcur i hsame).2.2

theorem patch_sums_inI64 (hcur : cur.Roomy latest) (hb : Sets latest b.intervalSecs)
    (hlatest : latest + 60000 ≤ maxI64) (hclock : clock ≤ latest) (hmin : minI64 ≤ clock) :
    ∀ v ∈ (match b.intervalSecs.getD cur.intervalSecs with
      | some i => countdown clock i
      | none => [clock + 60000]), InI64 v := by
  cases hi : b.intervalSecs.getD cur.intervalSecs with
  | some i =>
    obtain ⟨hlow, hroom⟩ := interval_roomy hcur hb hi
    exact inI64_countdown hlow hroom hclock hmin
  | none =>
    intro v hv
    rw [List.mem_singleton.mp hv]
    unfold InI64
    omega

theorem marked_roomy (hrow : row.Roomy latest) (hmin : minI64 ≤ now) :
    (ScheduleRepo.marked now row).Roomy latest := by
  intro i hi
  rw [marked_interval] at hi
  obtain ⟨hlow, hroom, hnext⟩ := hrow i hi
  refine ⟨hlow, hroom, ?_⟩
  unfold minIntervalSecs at hlow
  rw [marked_next hi]
  split <;> omega

theorem mark_sums_inI64 (hrow : row.Roomy latest) (hnow : now ≤ latest) (hmin : minI64 ≤ now)
    (hdue : ∀ i, row.intervalSecs = some i → row.nextRunAt ≤ now ∨
      (row.nextRunAt ≤ latest + i * 1000 ∧ Roomy latest (2 * i))) : ∀ v ∈ markSums now row, InI64 v := by
  unfold markSums
  cases hi : row.intervalSecs with
  | none => exact fun _ hv => nomatch hv
  | some i =>
    obtain ⟨hlow, hroom, hnext⟩ := hrow i hi
    have hcases := hdue i hi
    unfold minIntervalSecs at hlow
    unfold Roomy at hroom hcases
    unfold InI64
    unfold minI64 maxI64 at *
    intro v hv
    simp only [List.mem_append, List.mem_cons, List.not_mem_nil, or_false] at hv
    rcases hv with (rfl | rfl) | hv
    · omega
    · omega
    · split at hv
      · cases hv
      · rw [List.mem_singleton.mp hv]
        omega

end Rows

section Sites

variable {latest : Nat} {r : Request} {β : Type} {x : Site} {Q : β → Prop}

theorem call_upholds {act : Choice → Planner → Planner × β}
    (h : ∀ w s, s.Roomy latest → Timely latest r x w s →
      Sums r (some (x, w)) s (act w s).1 ∧ (act w s).1.Roomy latest ∧ Q (act w s).2) :
    (call x act).Upholds (Timely latest r) (Planner.Roomy latest) (Sums r) Q := by
  intro w s s' b hs hok ha
  obtain ⟨rfl, rfl⟩ := Prod.mk.inj (Option.some.inj ha)
  exact h w s hs hok

theorem sums_none {s s' : Planner} : Sums r none s s' := by
  cases r <;> exact ⟨fun _ hv => (nomatch hv), trivial⟩

theorem publish_upholds {chatId : Uuid} {note : Note} : (publish chatId note).Upholds (Timely latest r)
    (Planner.Roomy latest) (Sums r) (fun _ => True) :=
  fun _ hs => ⟨sums_none, hs, trivial⟩

theorem settle_upholds {id : Uuid} {voice : Nat} : (settle id voice).Upholds (Timely latest r)
    (Planner.Roomy latest) (Sums r) (fun _ => True) :=
  fun _ hs => ⟨sums_none, hs, trivial⟩

/-- A row that a create stores. -/
theorem created_roomy {b : CreateBody} {now clock : Int} (id chatId : Uuid)
    (hv : validate now (some b.body) (some b.intervalSecs) b.nextRunAt = .ok ())
    (hset : ∀ i, b.intervalSecs = some i → Roomy latest i) (hmin : minI64 ≤ now) (hclock : now ≤ clock) :
    now < b.nextRunAt.getD (clock + b.intervalSecs.getD 0 * 1000) ∧
      (ScheduleRepo.create id chatId (trim b.body) b.intervalSecs
        (b.nextRunAt.getD (clock + b.intervalSecs.getD 0 * 1000)) clock).Roomy latest := by
  have hlater : now < b.nextRunAt.getD (clock + b.intervalSecs.getD 0 * 1000) := by
    cases hnext : b.nextRunAt with
    | some t =>
      rw [hnext] at hv
      exact validate_next hv
    | none =>
      cases hi : b.intervalSecs with
      | some i =>
        rw [hi] at hv
        have hlow := (validate_interval hv).1
        unfold minIntervalSecs at hlow
        show now < clock + i * 1000
        omega
      | none =>
        rw [hi, hnext] at hv
        unfold validate at hv
        split at hv <;> cases hv
  refine ⟨hlater, fun i hi => ?_⟩
  have hi : b.intervalSecs = some i := hi
  refine ⟨?_, hset i hi, ?_⟩
  · rw [hi] at hv
    exact (validate_interval hv).1
  · show minI64 ≤ b.nextRunAt.getD (clock + b.intervalSecs.getD 0 * 1000)
    omega

theorem create_upholds {chatId : Uuid} {now : Int} {b : CreateBody}
    (hr : (Request.create chatId now b).Roomy latest) :
    (create chatId now b).Upholds (Timely latest (.create chatId now b)) (Planner.Roomy latest)
      (Sums (.create chatId now b)) (fun _ => True) := by
  unfold create
  cases hv : validate now (some b.body) (some b.intervalSecs) b.nextRunAt with
  | error e => trivial
  | ok =>
  refine Prog.Upholds.bind (Q := fun _ => True)
    (call_upholds fun w s hs _ => ⟨⟨fun _ hv => (nomatch hv), trivial⟩, hs, trivial⟩) fun known _ => ?_
  cases known with
  | false => trivial
  | true =>
  refine Prog.Upholds.bind (Q := fun _ => True) (call_upholds fun w s hs hok => ?_) fun out _ => ?_
  · have hclock : now ≤ w.now := hok.2.1 now rfl
    refine ⟨⟨?_, ?_⟩, ?_, trivial⟩
    · intro v hmem
      change v ∈ if b.nextRunAt.isNone then b.intervalSecs.toList.flatMap (countdown w.now) else [] at hmem
      split at hmem
      · obtain ⟨i, hi, hmem⟩ := List.mem_flatMap.mp hmem
        have hi : b.intervalSecs = some i := by simpa using hi
        rw [hi] at hv
        exact inI64_countdown (validate_interval hv).1 (hr.2 i hi) hok.1 (hr.1.trans hclock) v hmem
      · cases hmem
    · intro row hrow
      cases hw : w.fail with
      | true =>
        simp only [hw, ↓reduceIte] at hrow
        exact .inl hrow
      | false =>
        simp only [hw, Bool.false_eq_true, ↓reduceIte] at hrow
        rcases List.mem_append.mp hrow with hrow | hrow
        · exact .inl hrow
        · rw [List.mem_singleton.mp hrow]
          exact .inr (created_roomy s.nextId chatId hv hr.2 hr.1 hclock).1
    · cases w.fail with
      | true => exact hs
      | false =>
        simp only [Bool.false_eq_true, ↓reduceIte]
        intro row hrow
        rcases List.mem_append.mp hrow with hrow | hrow
        · exact hs row hrow
        · rw [List.mem_singleton.mp hrow]
          exact (created_roomy _ _ hv hr.2 hr.1 hclock).2
  cases out with
  | error e => trivial
  | ok row =>
  refine Prog.Upholds.bind (Q := fun _ => True) (call_upholds fun w s hs _ => ?_) fun out _ => ?_
  · refine ⟨⟨fun _ hv => (nomatch hv), trivial⟩, ?_, trivial⟩
    cases w.fail <;> exact hs
  cases out with
  | error e => trivial
  | ok row => exact Prog.Upholds.bind publish_upholds fun _ _ => trivial

/-- What an update that has read its row goes on to write. -/
def Patches (latest : Nat) (now : Int) (b : UpdateBody) (new : ScheduleRow) : Prop :=
  new.Roomy latest ∧ ∃ cur clock, new = ScheduleRepo.patched clock cur b ∧
    (restarts cur b = true → now < new.nextRunAt)

theorem owned_mem {s : Planner} {chatId id : Uuid} {cur : ScheduleRow}
    (h : (ScheduleRepo.get s.schedules id).filter (fun r => r.chatId = chatId) = some cur) :
    cur ∈ s.schedules :=
  List.mem_of_find?_eq_some (Option.filter_eq_some_iff.mp h).1

theorem updateRow_upholds {chatId id : Uuid} {now : Int} {b : UpdateBody} (hlatest : latest + 60000 ≤ maxI64)
    (hv : validate now b.body b.intervalSecs b.nextRunAt = .ok ())
    (hr : (Request.update chatId id now b).Roomy latest) :
    (updateRow chatId id b).Upholds (Timely latest (.update chatId id now b)) (Planner.Roomy latest)
      (Sums (.update chatId id now b)) (fun _ => True) := by
  have hb : Sets latest b.intervalSecs := by
    intro i hi
    rw [hi] at hv
    exact ⟨(validate_interval hv).1, hr.2 _ hi i rfl⟩
  refine Prog.Upholds.bind (Q := fun out => ∀ new, out = .ok (some new) → Patches latest now b new)
    (call_upholds fun w s hs hok => ?_) fun out hout => ?_
  · have hclock : now ≤ w.now := hok.2.1 now rfl
    refine ⟨⟨?_, ?_⟩, ?_, ?_⟩
    · intro v hmem
      obtain ⟨cur, hcur, hmem⟩ := List.mem_flatMap.mp hmem
      have hroomy := hs cur (owned_mem (Option.mem_toList.mp hcur))
      split at hmem
      · exact patch_sums_inI64 hroomy hb hlatest hok.1 (hr.1.trans hclock) v hmem
      · cases hmem
    · exact trivial
    · cases w.fail <;> exact hs
    · intro new hnew
      cases hw : w.fail with
      | true =>
        simp only [hw, ↓reduceIte] at hnew
        cases hnew
      | false =>
        simp only [hw, Bool.false_eq_true, ↓reduceIte, Except.ok.injEq] at hnew
        obtain ⟨cur, hcur, rfl⟩ := Option.map_eq_some_iff.mp hnew
        have hroomy := hs cur (owned_mem hcur)
        exact ⟨patched_roomy hroomy hb hv hr.1 hclock, cur, w.now, rfl,
          patched_later hroomy hb hv hclock⟩
  cases out with
  | error e => trivial
  | ok out =>
  cases out with
  | none => trivial
  | some new =>
  obtain ⟨hnew, hpatched⟩ := hout new rfl
  refine Prog.Upholds.bind (Q := fun _ => True) (call_upholds fun w s hs _ => ?_) fun out _ => ?_
  · refine ⟨⟨fun _ hv => (nomatch hv), hpatched⟩, ?_, trivial⟩
    cases w.fail with
    | true => exact hs
    | false =>
      intro row hrow
      obtain ⟨r, hr, rfl⟩ := List.mem_map.mp hrow
      split
      · exact hnew
      · exact hs r hr
  cases out with
  | error e => trivial
  | ok voice =>
    refine call_upholds fun w s hs _ => ⟨⟨fun _ hv => (nomatch hv), trivial⟩, ?_, trivial⟩
    cases w.fail <;> exact hs

theorem update_upholds {chatId id : Uuid} {now : Int} {b : UpdateBody} (hlatest : latest + 60000 ≤ maxI64)
    (hr : (Request.update chatId id now b).Roomy latest) :
    (update chatId id now b).Upholds (Timely latest (.update chatId id now b)) (Planner.Roomy latest)
      (Sums (.update chatId id now b)) (fun _ => True) := by
  unfold update
  cases hv : validate now b.body b.intervalSecs b.nextRunAt with
  | error e => trivial
  | ok =>
  refine (updateRow_upholds hlatest hv hr).bind fun out _ => ?_
  cases out with
  | error e => trivial
  | ok out =>
  cases out with
  | none => trivial
  | some out =>
    refine Prog.Upholds.bind publish_upholds fun _ _ => ?_
    exact Prog.Upholds.bind settle_upholds fun _ _ => trivial

theorem delete_upholds {chatId id : Uuid} : (delete chatId id).Upholds (Timely latest (.delete chatId id))
    (Planner.Roomy latest) (Sums (.delete chatId id)) (fun _ => True) := by
  refine Prog.Upholds.bind (Q := fun _ => True) (call_upholds fun w s hs _ => ?_) fun out _ => ?_
  · refine ⟨⟨fun _ hv => (nomatch hv), trivial⟩, ?_, trivial⟩
    cases w.fail with
    | true => exact hs
    | false => exact fun row hrow => hs row (List.mem_of_mem_filter hrow)
  rcases out with e | ⟨removed, voice⟩
  · trivial
  cases removed with
  | false => trivial
  | true =>
    refine Prog.Upholds.bind publish_upholds fun _ _ => ?_
    exact Prog.Upholds.bind settle_upholds fun _ _ => trivial

theorem setRow_roomy {s : Planner} {id : Uuid} {f : ScheduleRow → ScheduleRow} (hs : s.Roomy latest)
    (hf : ∀ row, row.Roomy latest → (f row).Roomy latest) :
    ∀ row ∈ ScheduleRepo.setRow id f s.schedules, row.Roomy latest := by
  intro row hrow
  obtain ⟨r, hr, rfl⟩ := List.mem_map.mp hrow
  split
  · exact hf r (hs r hr)
  · exact hs r hr

/-- A pass from any of its rows on. The induction is on the list it has read. -/
theorem fireEach_upholds {now : Int} (hr : (Request.fireDue now).Roomy latest) (due : List Held) :
    (fireEach now due).Upholds (Timely latest (.fireDue now)) (Planner.Roomy latest)
      (Sums (.fireDue now)) (fun _ => True) := by
  induction due with
  | nil => trivial
  | cons k rest ih =>
    refine Prog.Upholds.bind (Q := fun _ => True) (call_upholds fun w s hs hok => ?_) fun marked _ => ?_
    · refine ⟨⟨?_, trivial⟩, ?_, trivial⟩
      · intro v hmem
        obtain ⟨row, hrow, hmem⟩ := List.mem_flatMap.mp hmem
        exact mark_sums_inI64 (hs row (List.mem_of_mem_filter hrow)) hr.2 hr.1 (hok.2.2 row hrow) v hmem
      · cases w.fail with
        | true => exact hs
        | false => exact setRow_roomy hs fun row hrow => marked_roomy hrow hr.1
    cases marked with
    | false => exact ih
    | true =>
    refine Prog.Upholds.bind (Q := fun _ => True)
      (call_upholds fun w s hs _ => ⟨⟨fun _ hv => (nomatch hv), trivial⟩, hs, trivial⟩) fun queued _ => ?_
    cases queued with
    | true => exact ih
    | false =>
    refine Prog.Upholds.bind (Q := fun _ => True) (call_upholds fun w s hs _ => ?_) fun res _ => ?_
    · refine ⟨⟨fun _ hv => (nomatch hv), trivial⟩, ?_, trivial⟩
      cases w.sent <;> exact hs
    have hreceived : (received k rest res).Upholds (Timely latest (.fireDue now)) (Planner.Roomy latest)
        (Sums (.fireDue now)) (fun _ => True) := by
      unfold received
      split
      · refine call_upholds fun w s hs _ => ⟨⟨fun _ hv => (nomatch hv), trivial⟩, ?_, trivial⟩
        cases w.fail with
        | true => exact hs
        | false => exact setRow_roomy hs fun row hrow => hrow
      · trivial
    exact hreceived.bind fun _ _ => Prog.Upholds.bind publish_upholds fun _ _ => ih

theorem fireDue_upholds {now : Int} (hr : (Request.fireDue now).Roomy latest) :
    (fireDue now).Upholds (Timely latest (.fireDue now)) (Planner.Roomy latest)
      (Sums (.fireDue now)) (fun _ => True) := by
  refine Prog.Upholds.bind (Q := fun _ => True) (call_upholds fun w s hs _ => ?_) fun out _ => ?_
  · refine ⟨⟨fun _ hv => (nomatch hv), trivial⟩, ?_, trivial⟩
    cases w.fail <;> exact hs
  cases out with
  | error e => trivial
  | ok due => exact fireEach_upholds hr due

theorem handle_upholds (hlatest : latest + 60000 ≤ maxI64) (hr : r.Roomy latest) :
    Desk.Serves (Timely latest) (Planner.Roomy latest) Sums (entry r) r := by
  cases r with
  | create chatId now b => exact (create_upholds hr).bind fun _ _ => trivial
  | update chatId id now b => exact (update_upholds hlatest hr).bind fun _ _ => trivial
  | delete chatId id => exact delete_upholds.bind fun _ _ => trivial
  | fireDue now => exact fireDue_upholds hr

end Sites

abbrev PlanDesk := Desk Site Unit Choice Planner Request

/-- Requests that leave the clock room, handled in time. -/
def Allowed (latest : Nat) (d : PlanDesk) : Event Choice Request → Prop
  | .arrive r => r.Roomy latest
  | .run i w => ∀ r ∈ d.owners[i]?, ∀ x ∈ d.pool.restsAt i, Timely latest r x w d.pool.shared

instance (latest : Nat) (d : PlanDesk) : (e : Event Choice Request) → Decidable (Allowed latest d e)
  | .arrive r => inferInstanceAs (Decidable (r.Roomy latest))
  | .run _ _ => inferInstanceAs (Decidable (∀ r ∈ _, ∀ x ∈ _, Timely latest r x _ _))

/-- The server has just started, and nobody has asked for anything. -/
def openDesk (schedules : List ScheduleRow) (chats : List Uuid) (nextId : Uuid) : PlanDesk :=
  ⟨⟨boot schedules chats nextId, []⟩, []⟩

/-- A schedule that runs every minute. -/
def creation : Request := .create 1 0 { body := ['a'], intervalSecs := some 60, nextRunAt := none }

/-- It is created at time 0, and a pass has read it as due a minute later. -/
def firstMinute : List (Event Choice Request) :=
  [.arrive creation, .run 0 {}, .run 0 {}, .run 0 {}, .arrive (.fireDue 60000), .run 1 {}]

/-- The integers that a task computes in its next step. -/
def nextSums (d : PlanDesk) (i : Nat) (w : Choice) : Option (List Int) :=
  d.pool.threads[i]?.bind (fun th => d.owners[i]?.bind (fun r =>
    (th.prog.resume w d.pool.shared).map (fun _ =>
      (th.prog.resumeActs w d.pool.shared).flatMap (sumsOf r))))

theorem nextSums_eq {d : PlanDesk} {i : Nat} {w : Choice} {sums : List Int}
    (h : nextSums d i w = some sums) : ∃ th r out, d.pool.threads[i]? = some th ∧
      d.owners[i]? = some r ∧ th.prog.resume w d.pool.shared = some out ∧
        (th.prog.resumeActs w d.pool.shared).flatMap (sumsOf r) = sums := by
  obtain ⟨th, hth, h⟩ := Option.bind_eq_some_iff.mp h
  obtain ⟨r, hr, h⟩ := Option.bind_eq_some_iff.mp h
  obtain ⟨out, hout, h⟩ := Option.map_eq_some_iff.mp h
  exact ⟨th, r, out, hth, hr, hout, h⟩

/-- A schedule with the longest interval there is. -/
def longest : Request := .create 1 0 { body := ['a'], intervalSecs := some maxI64, nextRunAt := none }

end AgentGrove.Schedules
