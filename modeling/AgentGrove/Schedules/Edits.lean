import AgentGrove.Coop.Census
import AgentGrove.Coop.Protocol
import AgentGrove.Model.Schedules

namespace AgentGrove.Schedules

open Coop

abbrev PlanPool := Pool Site Unit Choice Planner

/-- Every message goes out by the newest edit that had been answered, and no pass writes
over the timing that an edit it does not know of has stored. -/
structure Respects (s : Planner) : Prop where
  sent : ∀ x ∈ s.sent, x.owed ≤ x.held.voice
  overwritten : ∀ x ∈ s.overwritten, x.plan = x.held.plan

/-- The rows that a pass has read and not yet marked. -/
def Site.toMark : Site → List Held
  | .mark h rest => h :: rest
  | .queue _ rest | .send _ rest | .pause _ rest => rest
  | _ => []

/-- The row that a pass has marked and not yet sent. -/
def Site.toSend : Site → List Held
  | .queue h _ | .send h _ => [h]
  | _ => []

/-- Where an edit is about to write, and whether it changes what may be sent. -/
def Planner.edited (s : Planner) : Site → Option (Uuid × Bool)
  | .write id new => if s.has id then some (id, s.silences id new) else none
  | .erase chatId id => if s.owns chatId id then some (id, true) else none
  | _ => none

/-- An edit of this schedule falls in no gap of a pass that rests here. -/
def Misses (e : Uuid × Bool) (y : Site) : Prop :=
  (∀ k ∈ y.toMark, k.row.id ≠ e.1) ∧ (e.2 = true → ∀ k ∈ y.toSend, k.row.id ≠ e.1)

instance (e : Uuid × Bool) (y : Site) : Decidable (Misses e y) := inferInstanceAs (Decidable (_ ∧ _))

/-- A pass that pauses a schedule knows of every edit of it. -/
def Pauses (s : Planner) : Site → Prop
  | .pause h _ => s.has h.row.id = true → s.planAt h.row.id = h.plan
  | _ => True

instance (s : Planner) : (x : Site) → Decidable (Pauses s x)
  | .pause h _ => inferInstanceAs (Decidable (s.has h.row.id = true → _))
  | .chat | .insert | .get | .read | .write _ _ | .reread _ _ | .erase _ _ | .due | .mark _ _
  | .queue _ _ | .send _ _ => .isTrue trivial

/-- Edits fall in no gap, and only a pass that knows of them pauses a schedule. -/
def Careful (p : PlanPool) : Event Choice Request → Prop
  | .arrive _ => True
  | .run i w => w.fail = false → ∀ x ∈ p.restsAt i,
      (∀ e ∈ p.shared.edited x, ∀ th ∈ p.sites, ∀ y ∈ th.2, Misses e y) ∧ Pauses p.shared x

instance (p : PlanPool) : (e : Event Choice Request) → Decidable (Careful p e)
  | .arrive _ => .isTrue trivial
  | .run _ w => inferInstanceAs (Decidable (w.fail = false → _))

/-- Where a request is, or that it has an edit to answer. -/
inductive Role where
  | rests (x : Site)
  | settling (id : Uuid) (voice : Nat)
  | idle

def Role.site : Role → Option Site
  | .rests x => some x
  | _ => none

/-- What a pass relies on where it rests, and an edit that reads its row back. -/
structure Current (x : Site) (s : Planner) : Prop where
  toMark : ∀ k ∈ x.toMark, s.planAt k.row.id = k.plan ∧ s.voiceAt k.row.id = k.voice
  toSend : ∀ k ∈ x.toSend, s.voiceAt k.row.id = k.voice
  reread : ∀ id voice, x = .reread id voice → voice ≤ s.voiceAt id

def Sees : Role → Planner → Prop
  | .rests x, s => Current x s
  | .settling id voice, s => voice ≤ s.voiceAt id
  | .idle, _ => True

/-- Where a pass goes on with these rows. -/
def onward : List Held → Role
  | [] => .idle
  | h :: rest => .rests (.mark h rest)

/-- The steps. -/
inductive Moves : Option (Site × Choice) → Role → Planner → Role → Planner → Prop where
  | idle {e : Option (Site × Choice)} {r : Role} {s : Planner} : Moves e r s .idle s
  | publish {r : Role} {s : Planner} {bus : List (Uuid × Note)} :
      Moves none r s r { s with bus := bus }
  /-- On to a place that relies on nothing. -/
  | goto {e : Option (Site × Choice)} {r : Role} {s : Planner} {x : Site} (hx : ∀ s, Current x s) :
      Moves e r s (.rests x) s
  | insert {w : Choice} {r : Role} {s : Planner} {rows : List ScheduleRow} {n : Uuid} :
      Moves (some (.insert, w)) r s (.rests .get) { s with schedules := rows, nextId := n }
  | due {w : Choice} {r : Role} {s : Planner} (rows : List ScheduleRow) :
      Moves (some (.due, w)) r s (onward (s.hold rows)) s
  | mark {w : Choice} {s : Planner} {h : Held} {rest : List Held} (rows : List ScheduleRow) :
      Moves (some (.mark h rest, w)) (.rests (.mark h rest)) s (.rests (.queue h rest)) (s.overwrite h rows)
  /-- A pass is done with its row. -/
  | next {e : Option (Site × Choice)} {s : Planner} {x : Site} {rest : List Held}
      (hx : ∀ k ∈ rest, k ∈ x.toMark) : Moves e (.rests x) s (onward rest) s
  | unqueued {w : Choice} {s : Planner} {h : Held} {rest : List Held} :
      Moves (some (.queue h rest, w)) (.rests (.queue h rest)) s (.rests (.send h rest)) s
  | send {w : Choice} {s : Planner} {h : Held} {rest : List Held} :
      Moves (some (.send h rest, w)) (.rests (.send h rest)) s (onward rest)
        { s with sent := s.sent ++ [⟨h, s.answered h.row.id⟩] }
  | gone {w : Choice} {s : Planner} {h : Held} {rest : List Held} :
      Moves (some (.send h rest, w)) (.rests (.send h rest)) s (.rests (.pause h rest)) s
  | pause {w : Choice} {s : Planner} {h : Held} {rest : List Held} (hw : w.fail = false)
      (rows : List ScheduleRow) :
      Moves (some (.pause h rest, w)) (.rests (.pause h rest)) s (onward rest) (s.overwrite h rows)
  | write {w : Choice} {r : Role} {s : Planner} {id : Uuid} {new : ScheduleRow} (hw : w.fail = false) :
      Moves (some (.write id new, w)) r s (.rests (.reread id ((s.write id new).voiceAt id)))
        (s.write id new)
  | reread {w : Choice} {s : Planner} {id : Uuid} {voice : Nat} :
      Moves (some (.reread id voice, w)) (.rests (.reread id voice)) s (.settling id voice) s
  | erase {w : Choice} {r : Role} {s : Planner} {chatId id : Uuid} (hw : w.fail = false) :
      Moves (some (.erase chatId id, w)) r s (.settling id ((s.erase chatId id).voiceAt id))
        (s.erase chatId id)
  | settle {s : Planner} {id : Uuid} {voice : Nat} :
      Moves none (.settling id voice) s .idle
        { s with answered := Function.update s.answered id (max (s.answered id) voice) }

/-- The requests about schedules, the ticker's passes included. -/
def planning : Protocol Site Unit Choice Planner Role where
  rest _ x r := x = r.site
  sees := Sees
  move := Moves
  fork _ _ _ _ := False

/-- The state of the schedules' record. -/
structure Orderly (s : Planner) : Prop where
  answered : ∀ id, s.answered id ≤ s.voiceAt id
  respects : Respects s

section Steps

variable {s s' : Planner} {r r' : Role} {e : Option (Site × Choice)} {x : Site} {id : Uuid} {b : Bool}

theorem bump_other {f : Uuid → Nat} {k : Uuid} (hk : k ≠ id) : bump f id b k = f k := by
  unfold bump
  split
  · exact Function.update_of_ne hk _ _
  · rfl

theorem le_bump (f : Uuid → Nat) (k : Uuid) : f k ≤ bump f id b k := by
  unfold bump
  split
  · by_cases hk : k = id
    · subst hk
      simp
    · simp [Function.update_of_ne hk]
  · exact le_rfl

/-- The counters of one schedule do not go back, and only this edit moves them. -/
structure EditedTo (s s' : Planner) (edit : Option (Uuid × Bool)) : Prop where
  grows : ∀ id, s.voiceAt id ≤ s'.voiceAt id
  plan : ∀ id, (∀ e ∈ edit, id ≠ e.1) → s'.planAt id = s.planAt id
  voice : ∀ id, (∀ e ∈ edit, e.2 = true → id ≠ e.1) → s'.voiceAt id = s.voiceAt id

theorem silences_has {new : ScheduleRow} (h : s.silences id new = true) : s.has id = true := by
  unfold Planner.silences at h
  unfold Planner.has
  obtain ⟨row, hrow, hr⟩ := List.any_eq_true.mp h
  exact List.any_eq_true.mpr ⟨row, hrow, by simp_all⟩

theorem write_edited (s : Planner) (id : Uuid) (new : ScheduleRow) :
    EditedTo s (s.write id new) (s.edited (.write id new)) := by
  refine ⟨fun k => le_bump _ k, fun k hk => ?_, fun k hk => ?_⟩
  · cases hhas : s.has id with
    | true =>
      apply bump_other
      exact hk (id, s.silences id new) (by simp [Planner.edited, hhas])
    | false => simp [Planner.write, bump, hhas]
  · cases hs : s.silences id new with
    | true =>
      apply bump_other
      exact hk (id, s.silences id new) (by simp [Planner.edited, silences_has hs]) hs
    | false => simp [Planner.write, bump, hs]

theorem erase_edited (s : Planner) (chatId id : Uuid) :
    EditedTo s (s.erase chatId id) (s.edited (.erase chatId id)) := by
  refine ⟨fun k => le_bump _ k, fun k hk => ?_, fun k hk => ?_⟩
  · cases hs : s.owns chatId id with
    | true =>
      apply bump_other
      exact hk (id, true) (by simp [Planner.edited, hs])
    | false => simp [Planner.erase, bump, hs]
  · cases hs : s.owns chatId id with
    | true =>
      apply bump_other
      exact hk (id, true) (by simp [Planner.edited, hs]) rfl
    | false => simp [Planner.erase, bump, hs]

/-- The edit that a step makes. -/
def Planner.editOf (s : Planner) : Option (Site × Choice) → Option (Uuid × Bool)
  | some (x, w) => if w.fail then none else s.edited x
  | none => none

theorem EditedTo.same (hp : s'.planAt = s.planAt) (hv : s'.voiceAt = s.voiceAt)
    (edit : Option (Uuid × Bool)) : EditedTo s s' edit :=
  ⟨fun _ => by rw [hv], fun _ _ => by rw [hp], fun _ _ => by rw [hv]⟩

theorem Moves.edited (h : Moves e r s r' s') : EditedTo s s' (s.editOf e) := by
  cases h with
  | write hw => simpa [Planner.editOf, hw] using write_edited s _ _
  | erase hw => simpa [Planner.editOf, hw] using erase_edited s _ _
  | _ => refine .same ?_ ?_ _ <;> rfl

/-- What a request relies on outlasts an edit that misses it. -/
theorem Sees.edit {edit : Option (Uuid × Bool)} (h : Sees r s) (hs : EditedTo s s' edit)
    (hmiss : ∀ e ∈ edit, ∀ y ∈ r.site, Misses e y) : Sees r s' := by
  cases r with
  | rests x =>
    refine ⟨fun k hk => ?_, fun k hk => ?_, fun id voice hx => (h.reread id voice hx).trans (hs.grows id)⟩
    · have hm : ∀ e ∈ edit, k.row.id ≠ e.1 := fun e he => (hmiss e he x rfl).1 k hk
      rw [hs.plan _ hm, hs.voice _ fun e he _ => hm e he]
      exact h.toMark k hk
    · rw [hs.voice _ fun e he hb => (hmiss e he x rfl).2 hb k hk]
      exact h.toSend k hk
  | settling id voice => exact Nat.le_trans h (hs.grows id)
  | idle => trivial

theorem sees_onward {rest : List Held}
    (h : ∀ k ∈ rest, s.planAt k.row.id = k.plan ∧ s.voiceAt k.row.id = k.voice) : Sees (onward rest) s := by
  cases rest with
  | nil => trivial
  | cons k rest => exact ⟨h, fun _ hk => (nomatch hk), fun _ _ hx => (nomatch hx)⟩

/-- What the acting request relies on next. -/
theorem Moves.sees (h : Moves e r s r' s') (hr : Sees r s) : Sees r' s' := by
  cases h with
  | idle | settle => trivial
  | publish =>
    cases r with
    | rests x => exact ⟨hr.toMark, hr.toSend, hr.reread⟩
    | settling id voice => exact hr
    | idle => trivial
  | goto hx => exact hx s
  | insert => exact ⟨fun _ hk => (nomatch hk), fun _ hk => (nomatch hk), fun _ _ hx => (nomatch hx)⟩
  | due rows =>
    refine sees_onward fun k hk => ?_
    obtain ⟨row, -, rfl⟩ := List.mem_map.mp hk
    exact ⟨rfl, rfl⟩
  | @mark w s h rest rows =>
    refine ⟨fun k hk => hr.toMark k (List.mem_cons_of_mem _ hk), fun k hk => ?_, fun _ _ hx => (nomatch hx)⟩
    rw [List.mem_singleton.mp hk]
    exact (hr.toMark h (List.mem_cons_self ..)).2
  | next hx => exact sees_onward fun k hk => hr.toMark k (hx k hk)
  | unqueued => exact ⟨hr.toMark, hr.toSend, fun _ _ hx => (nomatch hx)⟩
  | send => exact sees_onward hr.toMark
  | gone => exact ⟨hr.toMark, fun _ hk => (nomatch hk), fun _ _ hx => (nomatch hx)⟩
  | pause => exact sees_onward hr.toMark
  | write =>
    refine ⟨fun _ hk => (nomatch hk), fun _ hk => (nomatch hk), fun id' voice' hx => ?_⟩
    cases hx
    exact le_rfl
  | reread => exact hr.reread _ _ rfl
  | erase => exact le_rfl

theorem Respects.overwrite (h : Respects s) {k : Held} (rows : List ScheduleRow)
    (hk : s.has k.row.id = true → s.planAt k.row.id = k.plan) : Respects (s.overwrite k rows) := by
  refine ⟨h.sent, fun x hx => ?_⟩
  unfold Planner.overwrite at hx
  dsimp only at hx
  split at hx
  · rename_i hhas
    rcases List.mem_append.mp hx with hx | hx
    · exact h.overwritten x hx
    · rw [List.mem_singleton.mp hx]
      exact hk hhas
  · exact h.overwritten x hx

/-- The record stays in order through a step that pauses nothing it does not know of. -/
theorem Orderly.move (ho : Orderly s) (h : Moves e r s r' s') (hr : Sees r s)
    (hpause : ∀ x w, e = some (x, w) → w.fail = false → Pauses s x) : Orderly s' := by
  have hanswered : s'.answered = s.answered → ∀ id, s'.answered id ≤ s'.voiceAt id := by
    intro hs id
    rw [hs]
    exact (ho.answered id).trans (h.edited.grows id)
  cases h with
  | idle | goto | next | due | unqueued | gone | reread => exact ho
  | publish => exact ⟨ho.answered, ho.respects.sent, ho.respects.overwritten⟩
  | insert => exact ⟨ho.answered, ho.respects.sent, ho.respects.overwritten⟩
  | @mark w s k rest rows =>
    exact ⟨hanswered rfl, ho.respects.overwrite rows fun _ => (hr.toMark k (List.mem_cons_self ..)).1⟩
  | @send w s k rest =>
    refine ⟨ho.answered, fun x hx => ?_, ho.respects.overwritten⟩
    rcases List.mem_append.mp hx with hx | hx
    · exact ho.respects.sent x hx
    · rw [List.mem_singleton.mp hx]
      show s.answered k.row.id ≤ k.voice
      rw [← hr.toSend k (List.mem_singleton.mpr rfl)]
      exact ho.answered _
  | pause hw rows => exact ⟨hanswered rfl, ho.respects.overwrite rows (hpause _ _ rfl hw)⟩
  | write => exact ⟨hanswered rfl, ho.respects.sent, ho.respects.overwritten⟩
  | erase => exact ⟨hanswered rfl, ho.respects.sent, ho.respects.overwritten⟩
  | @settle s id voice =>
    refine ⟨fun k => ?_, ho.respects.sent, ho.respects.overwritten⟩
    dsimp only
    by_cases hk : k = id
    · subst hk
      rw [Function.update_self]
      exact max_le (ho.answered k) hr
    · rw [Function.update_of_ne hk]
      exact ho.answered k

end Steps

section Handlers

variable {r : Role} {β : Type} {x : Site} {Q : β → Role → Prop}

theorem call_follows {act : Choice → Planner → Planner × β}
    (h : ∀ w s, ∃ r', Moves (some (x, w)) (.rests x) s r' (act w s).1 ∧ Q (act w s).2 r') :
    planning.Follows () (call x act) (.rests x) Q := by
  refine ⟨rfl, fun w s s' b _ ha => ?_⟩
  obtain ⟨rfl, rfl⟩ := Prod.mk.inj (Option.some.inj ha)
  exact h w s

/-- A store call and what is done with its result, an error included. -/
theorem storeCall_then {γ : Type} {act : Choice → Planner → Planner × Except Failure β}
    {f : Except Failure β → PlanProg γ} {G : β → Role → Prop} {Q : γ → Role → Prop}
    (hact : ∀ w s, w.fail = false → (∃ e, act w s = (s, .error e)) ∨
      ∃ a r', (act w s).2 = .ok a ∧ Moves (some (x, w)) (.rests x) s r' (act w s).1 ∧ G a r')
    (herr : ∀ e, planning.Follows () (f (.error e)) .idle Q)
    (hok : ∀ a r, G a r → planning.Follows () (f (.ok a)) r Q) :
    planning.Follows () ((storeCall x act).bind f) (.rests x) Q := by
  refine Protocol.follows_then (M := fun out r => (∃ e, out = .error e ∧ r = .idle) ∨
    ∃ a, out = .ok a ∧ G a r) (call_follows fun w s => ?_) ?_
  · cases hw : w.fail with
    | true =>
      simp only [↓reduceIte]
      exact ⟨_, .idle, .inl ⟨_, rfl, rfl⟩⟩
    | false =>
      simp only [Bool.false_eq_true, ↓reduceIte]
      rcases hact w s hw with ⟨e, he⟩ | ⟨a, r', ha, hm, hg⟩
      · rw [he]
        exact ⟨_, .idle, .inl ⟨e, rfl, rfl⟩⟩
      · exact ⟨r', hm, .inr ⟨a, ha, hg⟩⟩
  · intro out r hr
    rcases hr with ⟨e, rfl, rfl⟩ | ⟨a, rfl, hg⟩
    · exact herr e
    · exact hok a r hg

theorem publish_follows {chatId : Uuid} {note : Note} :
    planning.Follows () (publish chatId note) r (fun _ r' => r' = r) :=
  fun _ _ => ⟨_, .publish, rfl⟩

/-- A place that relies on nothing. -/
theorem current_free (hm : x.toMark = []) (hs : x.toSend = []) (hx : ∀ id voice, x ≠ .reread id voice)
    (s : Planner) : Current x s :=
  ⟨by simp [hm], by simp [hs], fun id voice he => absurd he (hx id voice)⟩

/-- How a handler ends. -/
def Ended {α : Type} (_ : α) (r : Role) : Prop := none = r.site

/-- A handler that keeps to the protocol from a role that relies on nothing. -/
def Keeps {α : Type} (p : PlanProg α) : Prop :=
  ∃ r, (∀ s, Sees r s) ∧ planning.Follows () p r Ended

theorem keeps_ret {α : Type} (a : α) : Keeps (.ret a) := ⟨.idle, fun _ => trivial, rfl⟩

theorem create_keeps (chatId : Uuid) (now : Int) (b : CreateBody) : Keeps (create chatId now b) := by
  unfold create
  cases validate now (some b.body) (some b.intervalSecs) b.nextRunAt with
  | error e => exact keeps_ret _
  | ok _ =>
    refine ⟨.rests .chat, current_free rfl rfl fun _ _ h => (nomatch h), ?_⟩
    refine Protocol.follows_then
      (M := fun known r => r = if known = true then .rests .insert else .idle)
      (call_follows fun w s => ⟨_, ?_, rfl⟩) ?_
    · dsimp only
      split
      · exact .goto (current_free rfl rfl fun _ _ h => (nomatch h))
      · exact .idle
    rintro known _ rfl
    cases known with
    | false => exact rfl
    | true =>
      refine storeCall_then (G := fun _ r => r = .rests .get)
        (fun w s _ => .inr ⟨_, _, rfl, .insert, rfl⟩) (fun _ => rfl) ?_
      rintro row _ rfl
      refine storeCall_then (G := fun _ r => r = .idle) (fun w s _ => ?_) (fun _ => rfl) ?_
      · dsimp only
        cases ScheduleRepo.get s.schedules row.id with
        | none => exact .inl ⟨_, rfl⟩
        | some row => exact .inr ⟨_, _, rfl, .idle, rfl⟩
      · rintro row _ rfl
        exact Protocol.follows_to publish_follows fun _ => rfl

theorem settle_follows {id : Uuid} {voice : Nat} :
    planning.Follows () (settle id voice) (.settling id voice) (fun _ r => r = .idle) :=
  fun _ _ => ⟨_, .settle, rfl⟩

/-- What is left to do of an edit: to answer it, if its row is there. -/
def Written (id : Uuid) (out : Except Failure (Option (ScheduleRow × Nat))) (r : Role) : Prop :=
  match out with
  | .ok (some (_, voice)) => r = .settling id voice
  | _ => r = .idle

theorem updateRow_follows (chatId id : Uuid) (b : UpdateBody) :
    planning.Follows () (updateRow chatId id b) (.rests .read) (Written id) := by
  refine storeCall_then (G := fun out r =>
    r = match out with | none => .idle | some new => .rests (.write id new)) (fun w s _ => ?_)
    (fun _ => rfl) ?_
  · refine .inr ⟨_, _, rfl, ?_, rfl⟩
    dsimp only
    split
    · exact .idle
    · exact .goto (current_free rfl rfl fun _ _ h => (nomatch h))
  rintro out _ rfl
  cases out with
  | none => exact rfl
  | some new =>
    refine storeCall_then (G := fun voice r => r = .rests (.reread id voice))
      (fun w s hw => .inr ⟨_, _, rfl, .write hw, rfl⟩) (fun _ => rfl) ?_
    rintro voice _ rfl
    refine call_follows fun w s => ?_
    cases w.fail with
    | true => exact ⟨_, .idle, rfl⟩
    | false =>
      cases hget : ScheduleRepo.get s.schedules id with
      | none => exact ⟨_, .idle, by simp [Written, hget]⟩
      | some row => exact ⟨_, .reread, by simp [Written, hget]⟩

theorem update_keeps (chatId id : Uuid) (now : Int) (b : UpdateBody) :
    Keeps (update chatId id now b) := by
  unfold update
  cases validate now b.body b.intervalSecs b.nextRunAt with
  | error e => exact keeps_ret _
  | ok _ =>
    refine ⟨.rests .read, current_free rfl rfl fun _ _ h => (nomatch h), ?_⟩
    refine Protocol.follows_then (updateRow_follows chatId id b) fun out r hr => ?_
    match out, hr with
    | .error e, hr =>
      cases hr
      exact rfl
    | .ok none, hr =>
      cases hr
      exact rfl
    | .ok (some (row, voice)), hr =>
      cases hr
      refine Protocol.follows_to publish_follows fun _ => ?_
      exact Protocol.follows_to settle_follows fun _ => rfl

theorem delete_keeps (chatId id : Uuid) : Keeps (delete chatId id) := by
  refine ⟨.rests (.erase chatId id), current_free rfl rfl fun _ _ h => (nomatch h), ?_⟩
  refine storeCall_then (G := fun out r => r = .settling id out.2)
    (fun w s hw => .inr ⟨_, _, rfl, .erase hw, rfl⟩) (fun _ => rfl) ?_
  rintro ⟨removed, voice⟩ _ rfl
  cases removed with
  | false => exact rfl
  | true =>
    refine Protocol.follows_to publish_follows fun _ => ?_
    exact Protocol.follows_to settle_follows fun _ => rfl

/-- A pass from any of its rows on. The induction is on the list it has read. -/
theorem fireEach_follows (now : Int) (due : List Held) :
    planning.Follows () (fireEach now due) (onward due) Ended := by
  induction due with
  | nil => exact rfl
  | cons h rest ih =>
    refine Protocol.follows_then (M := fun ok r =>
      r = if ok = true then .rests (.queue h rest) else onward rest) (call_follows fun w s => ?_) ?_
    · cases w.fail with
      | true => exact ⟨_, .next fun k hk => List.mem_cons_of_mem _ hk, rfl⟩
      | false => exact ⟨_, .mark _, rfl⟩
    rintro ok _ rfl
    cases ok with
    | false => exact ih
    | true =>
      refine Protocol.follows_then (M := fun queued r =>
        r = if queued = true then onward rest else .rests (.send h rest)) (call_follows fun w s => ?_) ?_
      · refine ⟨_, ?_, rfl⟩
        dsimp only
        split
        · exact .next fun k hk => hk
        · exact .unqueued
      rintro queued _ rfl
      cases queued with
      | true => exact ih
      | false =>
        refine Protocol.follows_then (M := fun res r =>
          r = if res = .error .notFound then .rests (.pause h rest) else onward rest)
          (call_follows fun w s => ?_) ?_
        · refine ⟨_, ?_, rfl⟩
          cases w.sent with
          | ok _ => exact .send
          | error code =>
            dsimp only
            split
            · exact .gone
            · exact .next fun k hk => hk
        intro res r hr
        have hreceived : planning.Follows () (received h rest res) r (fun _ r => r = onward rest) := by
          unfold received
          split
          · rw [hr, if_pos rfl]
            refine call_follows fun w s => ?_
            cases hw : w.fail with
            | true => exact ⟨_, .next fun k hk => hk, rfl⟩
            | false => exact ⟨_, .pause hw _, rfl⟩
          · rename_i hne
            rw [hr, if_neg hne]
            rfl
        exact Protocol.follows_to hreceived fun _ => Protocol.follows_to publish_follows fun _ => ih

theorem fireDue_keeps (now : Int) : Keeps (fireDue now) := by
  refine ⟨.rests .due, current_free rfl rfl fun _ _ h => (nomatch h), ?_⟩
  refine storeCall_then (G := fun held r => r = onward held)
    (fun w s _ => .inr ⟨_, _, rfl, .due _, rfl⟩) (fun _ => rfl) ?_
  rintro held _ rfl
  exact fireEach_follows now held

theorem handle_keeps (request : Request) : Keeps (handle request) := by
  have hdrop : ∀ {α : Type} {p : PlanProg α}, Keeps p → Keeps (do let _ ← p) := by
    intro α p hp
    obtain ⟨r, hr, hf⟩ := hp
    exact ⟨r, hr, Protocol.follows_then hf fun _ _ h => h⟩
  cases request with
  | create chatId now b => exact hdrop (create_keeps chatId now b)
  | update chatId id now b => exact hdrop (update_keeps chatId id now b)
  | delete chatId id => exact hdrop (delete_keeps chatId id)
  | fireDue now => exact fireDue_keeps now

end Handlers

/-- The record is in order, and every request relies on what holds. -/
structure Settles (s : Planner) (roles : List Role) : Prop where
  orderly : Orderly s
  sees : ∀ r ∈ roles, Sees r s

section Runs

variable {s s' : Planner} {roles : List Role} {r r' : Role} {i : Nat} {e : Option (Site × Choice)}
  {p : PlanPool}

theorem Settles.move (h : Settles s roles) (hi : roles[i]? = some r) (hm : Moves e r s r' s')
    (hpause : ∀ x w, e = some (x, w) → w.fail = false → Pauses s x)
    (hmiss : ∀ r ∈ roles, ∀ edit ∈ s.editOf e, ∀ y ∈ r.site, Misses edit y) :
    Settles s' (roles.set i r') := by
  have hr := h.sees r (List.mem_of_getElem? hi)
  refine ⟨h.orderly.move hm hr hpause, fun r₁ hr₁ => ?_⟩
  rcases mem_set hr₁ with rfl | hr₁
  · exact hm.sees hr
  · exact (h.sees r₁ hr₁).edit hm.edited (hmiss r₁ hr₁)

theorem settles_kept : planning.Kept Settles where
  sees _ _ _ r h hi := h.sees r (List.mem_of_getElem? hi)
  sync _ _ _ _ _ _ h hi hm := h.move hi hm (fun _ _ he => nomatch he) (fun _ _ _ he => (nomatch he))
  fork _ _ _ _ _ _ _ _ _ hf := hf.elim

theorem settles_await {w : Choice} {x : Site} (hc : planning.Coupled p roles)
    (h : Settles p.shared roles) (hg : Careful p (.run i w)) (hat : p.At i x)
    (hi : roles[i]? = some r) (hm : Moves (some (x, w)) r p.shared r' s') :
    Settles s' (roles.set i r') := by
  refine h.move hi hm (fun y u he hu => ?_) (fun r₁ hr₁ edit hedit y hy => ?_)
  · cases he
    exact (hg hu x hat).2
  · unfold Planner.editOf at hedit
    dsimp only at hedit
    split at hedit
    · cases hedit
    · rename_i hw
      obtain ⟨j, hj⟩ := List.getElem?_of_mem hr₁
      obtain ⟨th, hth, hrest⟩ := hc.thread hj
      have hmem : (th.tag, th.site) ∈ p.sites := List.mem_map.mpr ⟨th, List.mem_of_getElem? hth, rfl⟩
      have hsite : th.site = r₁.site := hrest
      exact (hg (by simpa using hw) x hat).1 edit hedit _ hmem y (hsite ▸ hy)

/-- In a run whose edits fall in no gap of a pass, and whose passes pause only what they know
of, the schedules' edits are respected. -/
theorem edits_respected (schedules : List ScheduleRow) (chats : List Uuid) (nextId : Uuid)
    (h : Pool.Reaches entry Careful ⟨boot schedules chats nextId, []⟩ p) : Respects p.shared := by
  have hstart : Settles (boot schedules chats nextId) [] :=
    ⟨⟨fun _ => le_rfl, fun _ hx => (nomatch hx), fun _ hx => (nomatch hx)⟩, fun _ hr => (nomatch hr)⟩
  obtain ⟨roles, -, hsettles⟩ := settles_kept.reaches
    (fun p roles request _ hv _ => by
      obtain ⟨r, hr, hf⟩ := handle_keeps request
      refine ⟨r, hf, hv.orderly, fun r₁ hr₁ => ?_⟩
      rcases List.mem_append.mp hr₁ with hr₁ | hr₁
      · exact hv.sees r₁ hr₁
      · rw [List.mem_singleton.mp hr₁]
        exact hr _)
    (fun p roles i w x r r' s' hc hv hg hat hi hm => settles_await hc hv hg hat hi hm)
    h ⟨rfl, fun _ _ hi => nomatch hi⟩ hstart
  exact hsettles.orderly.respects

end Runs

/-- A schedule of chat 1 that is due. -/
def hourly : ScheduleRow := ScheduleRepo.create 7 1 ['a'] (some 3600) 0 0

/-- A pass fires, then the message is edited, then an hour later another pass fires. -/
def firing : List (Event Choice Request) :=
  [.arrive (.fireDue 0), .run 0 {}, .run 0 {}, .run 0 {}, .run 0 {},
    .arrive (.update 1 7 0 { body := some ['b'] }), .run 1 {}, .run 1 {}, .run 1 {},
    .arrive (.fireDue 4000000), .run 2 {}, .run 2 {}, .run 2 {}, .run 2 {}]

theorem edits_respected_between : ∃ p : PlanPool,
    (Pool.Reaches entry Careful ⟨boot [hourly] [1] 8, []⟩ p ∧
      p.shared.sent.map (fun x => x.held.row.body) = [['a'], ['b']]) ∧ Respects p.shared := by
  have hrun : ((Pool.play entry Careful ⟨boot [hourly] [1] 8, []⟩ firing).map
      (fun p => p.shared.sent.map (fun x => x.held.row.body))) = some [['a'], ['b']] := by decide
  obtain ⟨p, hp, hbodies⟩ := Option.map_eq_some_iff.mp hrun
  have hreach := Pool.play_reaches hp
  exact ⟨p, ⟨hreach, hbodies⟩, edits_respected [hourly] [1] 8 hreach⟩

/-- The message is edited between the mark and the send of a pass. -/
def crossing : List (Event Choice Request) :=
  [.arrive (.fireDue 0), .run 0 {}, .run 0 {}, .arrive (.update 1 7 0 { body := some ['b'] }),
    .run 1 {}, .run 1 {}, .run 1 {}, .run 0 {}, .run 0 {}]

theorem edited_message_sent : ¬ ∀ (schedules : List ScheduleRow) (chats : List Uuid) (nextId : Uuid)
    (p : PlanPool), Pool.Reaches entry Pool.anyStep ⟨boot schedules chats nextId, []⟩ p →
      Respects p.shared := by
  intro hall
  have hrun : ((Pool.play entry Pool.anyStep ⟨boot [hourly] [1] 8, []⟩ crossing).map
      (fun p => decide (∀ x ∈ p.shared.sent, x.owed ≤ x.held.voice))) = some false := by decide
  obtain ⟨p, hp, hstale⟩ := Option.map_eq_some_iff.mp hrun
  exact of_decide_eq_false hstale (hall [hourly] [1] 8 p (Pool.play_reaches hp)).sent

end AgentGrove.Schedules
