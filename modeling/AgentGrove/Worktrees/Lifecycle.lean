import AgentGrove.Coop.Census
import AgentGrove.Coop.Protocol
import AgentGrove.Model.Worktrees
import Mathlib.Data.List.Nodup

namespace AgentGrove.Worktrees

open Coop

abbrev GrovePool := Pool Site Tag Choice Grove

/-- A removed row has no worktree, and a live row that is ready has one. -/
structure Agrees (s : Grove) (r : WorktreeRecord) : Prop where
  removed : r.removedAt.isSome = true → s.disk r.path ≠ .worktree
  ready : r.removedAt = none → r.status = .ready → s.disk r.path = .worktree

/-- Once everything is at rest the rows agree with the disk, and no create task has ever
marked a row as ready that had been removed. -/
structure Tidy (p : GrovePool) : Prop where
  agrees : (∀ t ∈ p.threads, t.finished = true) → ∀ r ∈ p.shared.rows, Agrees p.shared r
  readied : ∀ x ∈ p.shared.readied, x.2 = false

/-- How far a request is with a worktree. -/
inductive Stage where
  | minds
  /-- The worktree is on disk, and the create task goes on. -/
  | added
  /-- The removal is over, and the row comes next. -/
  | clearing
  /-- The worktree is on disk again, and the row comes next. -/
  | restoring
  /-- The row is live again, and its status comes next. -/
  | restored
deriving DecidableEq

def Call.stage : Call → Stage
  | .preScript | .script | .ready => .added
  | .prune | .wipe | .branch | .drop | .rollback => .clearing
  | .unremove => .restoring
  | .restored => .restored
  | _ => .minds

/-- Another request rests in one of these stages with this worktree. -/
def Others (p : GrovePool) (i : Nat) (k : Key) (stages : List Stage) : Prop :=
  ∃ t ∈ p.sites.eraseIdx i, ∃ x ∈ t.2, x.wt = some k ∧ x.call.stage ∈ stages

instance (p : GrovePool) (i : Nat) (k : Key) : DecidablePred (Others p i k) := fun stages =>
  inferInstanceAs (Decidable (∃ t ∈ p.sites.eraseIdx i, ∃ x ∈ t.2, x.wt = some k ∧ x.call.stage ∈ stages))

/-- What a step takes for granted: the create task, that its row has not been removed; a
removal, that nothing is left on disk; whoever marks a row as ready, that its worktree is
there. In the last two cases another request may be about to put things right. -/
def Grants (s : Grove) (others : List Stage → Prop) (w : Choice) (call : Call) (k : Key) : Prop :=
  match call with
  | .add => w.git.isOk = true → s.removedOnce k.id = false
  | .ready => s.removedOnce k.id = false
  | .drop => s.live k.id = true → s.disk k.path = .worktree → others [.restoring]
  | .rollback | .restored => s.live k.id = true → s.disk k.path ≠ .worktree →
      others [.clearing, .restored]
  | _ => True

instance (s : Grove) (others : List Stage → Prop) [DecidablePred others] (w : Choice) (k : Key) :
    (call : Call) → Decidable (Grants s others w call k)
  | .add => inferInstanceAs (Decidable (_ → _))
  | .ready => inferInstanceAs (Decidable (_ = _))
  | .drop => inferInstanceAs (Decidable (_ → _ → _))
  | .rollback | .restored => inferInstanceAs (Decidable (_ → _ → _))
  | .project | .inspect | .insert | .start | .fetch | .fail | .preScript | .script | .remove | .prune
  | .wipe | .branch | .getRow | .postScript | .removing | .owner | .inside | .branchExists | .fetchBase
  | .regrow | .unremove | .reread => .isTrue trivial

/-- No store call fails. -/
def Stored (_ : GrovePool) : Event Choice Request → Prop
  | .arrive _ => True
  | .run _ w => w.fail = false

/-- No store call fails, and every step finds what it takes for granted. -/
def Careful (p : GrovePool) : Event Choice Request → Prop
  | .arrive _ => True
  | .run i w => w.fail = false ∧ ∀ x ∈ p.restsAt i, ∀ k ∈ x.wt, Grants p.shared (Others p i k) w x.call k

instance (p : GrovePool) : (e : Event Choice Request) → Decidable (Stored p e)
  | .arrive _ => .isTrue trivial
  | .run _ _ => inferInstanceAs (Decidable (_ = _))

instance (p : GrovePool) : (e : Event Choice Request) → Decidable (Careful p e)
  | .arrive _ => .isTrue trivial
  | .run _ _ => inferInstanceAs (Decidable (_ ∧ _))

inductive Role where
  | idle
  | on (stage : Stage) (k : Key)
deriving DecidableEq

def Site.role (x : Site) : Role :=
  match x.wt with
  | none => .idle
  | some k => .on x.call.stage k

/-- There is a row with this id and path. -/
def Knows (s : Grove) (k : Key) : Prop := ∃ r ∈ s.rows, r.key = k

def Sees : Role → Grove → Prop
  | .idle, _ => True
  | .on _ k, s => Knows s k

/-- The state with the occupant of a path changed. -/
def Grove.occupy (s : Grove) (path : Text) (o : Occupant) : Grove :=
  { s with disk := Function.update s.disk path o }

def Grove.setRow (s : Grove) (id : Uuid) (f : WorktreeRecord → WorktreeRecord) : Grove :=
  { s with rows := WorktreeRepo.setRow id f s.rows }

def Grove.say (s : Grove) (bus : List (Topic × Note)) : Grove := { s with bus := bus }

def withStatus (status : WorktreeStatus) (now : Nat) (r : WorktreeRecord) : WorktreeRecord :=
  { r with status := status, updatedAt := now }

/-- The steps. -/
inductive Moves : Option (Site × Choice) → Role → Grove → Role → Grove → Prop where
  | fail {x : Site} {w : Choice} {r r' : Role} {s : Grove} (hw : w.fail = true) :
      Moves (some (x, w)) r s r' s
  | keep {e : Option (Site × Choice)} {r : Role} {s : Grove} (bus : List (Topic × Note)) :
      Moves e r s r (s.say bus)
  | learn {e : Option (Site × Choice)} {k : Key} {s : Grove} (hk : Knows s k) :
      Moves e .idle s (.on .minds k) s
  /-- The create task turns to its cleanup. -/
  | lower {e : Option (Site × Choice)} {k : Key} {s : Grove} :
      Moves e (.on .added k) s (.on .minds k) s
  /-- Nothing has to be restored on disk. -/
  | intact {e : Option (Site × Choice)} {k : Key} {s : Grove} :
      Moves e (.on .minds k) s (.on .restoring k) s
  | insert {e : Option (Site × Choice)} {s : Grove} {row : WorktreeRecord} (hid : row.id = s.nextId)
      (hpath : ∀ r ∈ s.rows, r.path ≠ row.path) (hstatus : row.status = .creating)
      (hlive : row.removedAt = none) :
      Moves e .idle s (.on .minds row.key) { s with rows := s.rows ++ [row], nextId := s.nextId + 1 }
  | status {e : Option (Site × Choice)} {stage : Stage} {k : Key} {s : Grove} {status : WorktreeStatus}
      (now : Nat) (hs : status ≠ .ready) :
      Moves e (.on stage k) s (.on stage k) (s.setRow k.id (withStatus status now))
  | add {w : Choice} {k : Key} {s : Grove} (hw : w.git.isOk = true) :
      Moves (some (⟨.add, some k⟩, w)) (.on .minds k) s (.on .added k) (s.occupy k.path .worktree)
  | ready {w : Choice} {k : Key} {s : Grove} (hw : w.fail = false) :
      Moves (some (⟨.ready, some k⟩, w)) (.on .added k) s (.on .minds k)
        { s.setRow k.id (withStatus .ready w.now) with
          readied := s.readied ++ [(k.id, s.removedOnce k.id)] }
  | remove {e : Option (Site × Choice)} {k : Key} {s : Grove} {o : Occupant}
      (ho : o = .worktree → s.disk k.path = .worktree) :
      Moves e (.on .minds k) s (.on .clearing k) (s.occupy k.path o)
  | wipe {e : Option (Site × Choice)} {k : Key} {s : Grove} {o : Occupant}
      (ho : o = .worktree → s.disk k.path = .worktree) :
      Moves e (.on .clearing k) s (.on .clearing k) (s.occupy k.path o)
  | drop {w : Choice} {k : Key} {s : Grove} (hw : w.fail = false) :
      Moves (some (⟨.drop, some k⟩, w)) (.on .clearing k) s (.on .minds k) (s.dropRow k.id w.now)
  | rollback {w : Choice} {k : Key} {s : Grove} (hw : w.fail = false) :
      Moves (some (⟨.rollback, some k⟩, w)) (.on .clearing k) s (.on .minds k)
        (s.setRow k.id (withStatus .ready w.now))
  | regrow {e : Option (Site × Choice)} {k : Key} {s : Grove} :
      Moves e (.on .minds k) s (.on .restoring k) (s.occupy k.path .worktree)
  | unremove {e : Option (Site × Choice)} {k : Key} {s : Grove} (now : Nat) :
      Moves e (.on .restoring k) s (.on .restored k)
        (s.setRow k.id (fun r => { r with removedAt := none, updatedAt := now }))
  /-- Somebody else has restored the row. -/
  | already {e : Option (Site × Choice)} {k : Key} {s : Grove} (hl : s.live k.id = true) :
      Moves e (.on .restoring k) s (.on .minds k) s
  | restored {w : Choice} {k : Key} {s : Grove} (hw : w.fail = false) :
      Moves (some (⟨.restored, some k⟩, w)) (.on .restored k) s (.on .minds k)
        (s.setRow k.id (withStatus .ready w.now))

/-- The requests about worktrees and the tasks that create them. -/
def lifecycle : Protocol Site Tag Choice Grove Role where
  rest _ x r := match x with
    | some x => r = x.role
    | none => r = .idle ∨ ∃ k, r = .on .minds k
  sees := Sees
  move := Moves
  fork r _ rc r' := rc = r ∧ r' = r

/-- Somebody is about to write the row, or to say that it is ready. -/
def Tended (roles : List Role) (k : Key) : Prop :=
  .on .clearing k ∈ roles ∨ .on .restored k ∈ roles

/-- How a row stands to the disk while requests are under way. -/
structure Cared (s : Grove) (roles : List Role) (r : WorktreeRecord) : Prop where
  removed : r.removedAt.isSome = true → s.disk r.path = .worktree → .on .restoring r.key ∈ roles
  ready : r.removedAt = none → r.status = .ready → s.disk r.path ≠ .worktree → Tended roles r.key
  once : r.removedAt.isSome = true → s.removedOnce r.id = true
  added : .on .added r.key ∈ roles → s.disk r.path = .worktree ∨ s.removedOnce r.id = true ∨
    Tended roles r.key

/-- The invariant. -/
structure Kempt (s : Grove) (roles : List Role) : Prop where
  ids : (s.rows.map WorktreeRecord.id).Nodup
  paths : (s.rows.map WorktreeRecord.path).Nodup
  bound : ∀ r ∈ s.rows, r.id < s.nextId
  sees : ∀ r ∈ roles, Sees r s
  cared : ∀ r ∈ s.rows, Cared s roles r
  readied : ∀ x ∈ s.readied, x.2 = false

/-- A step that works on one worktree: its row, its path and its mark. -/
structure Within (k : Key) (f : WorktreeRecord → WorktreeRecord) (s s' : Grove) : Prop where
  key : ∀ r, (f r).key = r.key
  rows : s'.rows = WorktreeRepo.setRow k.id f s.rows
  disk : ∀ path, path ≠ k.path → s'.disk path = s.disk path
  once : ∀ id, id ≠ k.id → s'.removedOnce id = s.removedOnce id
  next : s'.nextId = s.nextId

/-- A role with this worktree or none. -/
def Role.About (k : Key) : Role → Prop
  | .idle => True
  | .on _ k' => k' = k

section Steps

variable {s s' : Grove} {roles : List Role} {r r' : Role} {i : Nat} {k : Key} {row : WorktreeRecord}
  {f : WorktreeRecord → WorktreeRecord}

theorem Kempt.same_id (h : Kempt s roles) {a b : WorktreeRecord} (ha : a ∈ s.rows) (hb : b ∈ s.rows)
    (hid : a.id = b.id) : a = b :=
  List.inj_on_of_nodup_map h.ids ha hb hid

theorem Kempt.same_path (h : Kempt s roles) {a b : WorktreeRecord} (ha : a ∈ s.rows) (hb : b ∈ s.rows)
    (hpath : a.path = b.path) : a = b :=
  List.inj_on_of_nodup_map h.paths ha hb hpath

theorem get_of_mem (h : Kempt s roles) (hrow : row ∈ s.rows) :
    WorktreeRepo.get s.rows row.id = some row := by
  unfold WorktreeRepo.get
  cases hf : s.rows.find? (fun r => r.id = row.id) with
  | none => exact absurd (by simp) (List.find?_eq_none.mp hf row hrow)
  | some b =>
    have hb := List.mem_of_find?_eq_some hf
    have hid : b.id = row.id := by simpa using List.find?_some hf
    rw [h.same_id hb hrow hid]

theorem live_of_mem (h : Kempt s roles) (hrow : row ∈ s.rows) :
    s.live row.id = row.removedAt.isNone := by
  simp [Grove.live, get_of_mem h hrow]

theorem mem_setRow {rows : List WorktreeRecord} {id : Uuid} {x : WorktreeRecord}
    (hx : x ∈ WorktreeRepo.setRow id f rows) :
    ∃ r ∈ rows, (r.id = id ∧ x = f r) ∨ (r.id ≠ id ∧ x = r) := by
  obtain ⟨r, hr, rfl⟩ := List.mem_map.mp hx
  by_cases hid : r.id = id
  · exact ⟨r, hr, .inl ⟨hid, if_pos hid⟩⟩
  · exact ⟨r, hr, .inr ⟨hid, if_neg hid⟩⟩

theorem map_setRow {β : Type} (g : WorktreeRecord → β) (hg : ∀ r, g (f r) = g r) (id : Uuid)
    (rows : List WorktreeRecord) : (WorktreeRepo.setRow id f rows).map g = rows.map g := by
  unfold WorktreeRepo.setRow
  rw [List.map_map]
  apply List.map_congr_left
  intro r _
  by_cases hid : r.id = id
  · simp [hid, hg]
  · simp [hid]

theorem setRow_self (id : Uuid) (rows : List WorktreeRecord) :
    WorktreeRepo.setRow id (fun r => r) rows = rows := by
  simp [WorktreeRepo.setRow]

/-- A row that the step is not about. -/
theorem Cared.beside (h : Cared s roles row) (hi : roles[i]? = some r) (hr : r.About k)
    (hr' : r'.About k) (hne : row.key ≠ k) (hdisk : s'.disk row.path = s.disk row.path)
    (honce : s'.removedOnce row.id = s.removedOnce row.id) : Cared s' (roles.set i r') row := by
  have hkeep : ∀ stage, .on stage row.key ∈ roles → .on stage row.key ∈ roles.set i r' := by
    intro stage hm
    refine mem_set_of_ne hi hm ?_ r'
    rintro rfl
    exact hne hr
  have htend : Tended roles row.key → Tended (roles.set i r') row.key :=
    Or.imp (hkeep .clearing) (hkeep .restored)
  refine ⟨fun hx hd => ?_, fun hx hs hd => ?_, fun hx => ?_, fun hm => ?_⟩
  · exact hkeep _ (h.removed hx (hdisk ▸ hd))
  · exact htend (h.ready hx hs (hdisk ▸ hd))
  · rw [honce]
    exact h.once hx
  · rw [hdisk, honce]
    rcases mem_set hm with heq | hm
    · subst heq
      exact absurd hr' hne
    · exact (h.added hm).imp_right (Or.imp_right htend)

/-- A step on one worktree is judged by its row. -/
theorem Kempt.within (h : Kempt s roles) (hi : roles[i]? = some r) (hr : r.About k) (hr' : r'.About k)
    (hk : Knows s k) (hw : Within k f s s') (hreadied : ∀ x ∈ s'.readied, x.2 = false)
    (hown : ∀ row ∈ s.rows, row.key = k → Cared s' (roles.set i r') (f row)) :
    Kempt s' (roles.set i r') := by
  have hid : ∀ r, (f r).id = r.id := fun r => congrArg Key.id (hw.key r)
  have hpath : ∀ r, (f r).path = r.path := fun r => congrArg Key.path (hw.key r)
  have hknows : ∀ k', Knows s k' → Knows s' k' := by
    intro k' hk'
    obtain ⟨row, hrow, hkey⟩ := hk'
    have hm : row.key ∈ s'.rows.map WorktreeRecord.key := by
      rw [hw.rows, map_setRow _ hw.key]
      exact List.mem_map_of_mem hrow
    obtain ⟨row', hrow', hkey'⟩ := List.mem_map.mp hm
    exact ⟨row', hrow', hkey'.trans hkey⟩
  obtain ⟨own, hmem, hkey⟩ := hk
  have hownid : own.id = k.id := congrArg Key.id hkey
  have hownpath : own.path = k.path := congrArg Key.path hkey
  refine ⟨?_, ?_, fun x hx => ?_, fun x hx => ?_, fun x hx => ?_, hreadied⟩
  · rw [hw.rows, map_setRow _ hid]
    exact h.ids
  · rw [hw.rows, map_setRow _ hpath]
    exact h.paths
  · rw [hw.rows] at hx
    rw [hw.next]
    obtain ⟨r₀, hr₀, ⟨-, rfl⟩ | ⟨-, rfl⟩⟩ := mem_setRow hx
    · rw [hid]
      exact h.bound r₀ hr₀
    · exact h.bound _ hr₀
  · rcases mem_set hx with rfl | hx
    · cases x with
      | idle => trivial
      | on stage k' =>
        have hx' : k' = k := hr'
        exact hx' ▸ hknows k ⟨own, hmem, hkey⟩
    · have hsees := h.sees x hx
      cases x with
      | idle => trivial
      | on stage k' => exact hknows k' hsees
  · rw [hw.rows] at hx
    obtain ⟨r₀, hr₀, ⟨he, rfl⟩ | ⟨he, rfl⟩⟩ := mem_setRow hx
    · have hsame : r₀ = own := h.same_id hr₀ hmem (he.trans hownid.symm)
      exact hown r₀ hr₀ (hsame ▸ hkey)
    · have hne : x.path ≠ k.path := by
        intro hp
        have hsame : x = own := h.same_path hr₀ hmem (hp.trans hownpath.symm)
        exact he (hsame ▸ hownid)
      exact (h.cared x hr₀).beside hi hr hr' (fun hx' => hne (congrArg Key.path hx'))
        (hw.disk _ hne) (hw.once _ he)

end Steps

section Moving

variable {s s' : Grove} {roles : List Role} {r r' : Role} {i : Nat} {e : Option (Site × Choice)}

/-- Another request's role. -/
def Beside (roles : List Role) (i : Nat) (k : Key) (stages : List Stage) : Prop :=
  ∃ stage ∈ stages, ∃ j, j ≠ i ∧ roles[j]? = some (.on stage k)

theorem Beside.stays {k : Key} {stage : Stage} (h : Beside roles i k [stage]) (r' : Role) :
    .on stage k ∈ roles.set i r' := by
  obtain ⟨stage', hstage, j, hne, hj⟩ := h
  rw [List.mem_singleton.mp hstage] at hj
  exact List.mem_of_getElem? ((List.getElem?_set_ne (Ne.symm hne)).trans hj)

theorem Beside.tends {k : Key} (h : Beside roles i k [.clearing, .restored]) (r' : Role) :
    Tended (roles.set i r') k := by
  obtain ⟨stage, hstage, j, hne, hj⟩ := h
  have hm : .on stage k ∈ roles.set i r' :=
    List.mem_of_getElem? ((List.getElem?_set_ne (Ne.symm hne)).trans hj)
  simp only [List.mem_cons, List.not_mem_nil, or_false] at hstage
  rcases hstage with rfl | rfl
  · exact .inl hm
  · exact .inr hm

/-- Roles that put nothing right by themselves. -/
def Role.plain : Role → Bool
  | .idle | .on .minds _ | .on .added _ => true
  | _ => false

theorem Cared.still {row : WorktreeRecord} (h : Cared s roles row) (hi : roles[i]? = some r)
    (hr : r.plain = true) (hr' : r' ≠ .on .added row.key) : Cared s (roles.set i r') row := by
  have hkeep : ∀ {x : Role}, x ∈ roles → x.plain = false → x ∈ roles.set i r' := by
    intro x hx hplain
    refine mem_set_of_ne hi hx ?_ r'
    rintro rfl
    rw [hr] at hplain
    cases hplain
  have htend : Tended roles row.key → Tended (roles.set i r') row.key :=
    Or.imp (fun hx => hkeep hx rfl) (fun hx => hkeep hx rfl)
  refine ⟨fun hx hd => hkeep (h.removed hx hd) rfl, fun hx hs hd => htend (h.ready hx hs hd), h.once,
    fun hm => ?_⟩
  rcases mem_set hm with heq | hm
  · exact absurd heq.symm hr'
  · exact (h.added hm).imp_right (Or.imp_right htend)

/-- The same worktree, with what is said about it. -/
theorem within_say (s : Grove) (k : Key) (bus : List (Topic × Note)) :
    Within k (fun row => row) s (s.say bus) :=
  ⟨fun _ => rfl, (setRow_self _ _).symm, fun _ _ => rfl, fun _ _ => rfl, rfl⟩

theorem within_setRow (s : Grove) {k : Key} {f : WorktreeRecord → WorktreeRecord}
    (hf : ∀ r, (f r).key = r.key) : Within k f s (s.setRow k.id f) :=
  ⟨hf, rfl, fun _ _ => rfl, fun _ _ => rfl, rfl⟩

theorem within_occupy (s : Grove) (k : Key) (o : Occupant) :
    Within k (fun row => row) s (s.occupy k.path o) :=
  ⟨fun _ => rfl, (setRow_self _ _).symm, fun _ hp => Function.update_of_ne hp _ _, fun _ _ => rfl, rfl⟩

/-- The row as `WorktreeRepo::delete` leaves it. -/
def dropped (now : Nat) (row : WorktreeRecord) : WorktreeRecord :=
  if row.removedAt.isNone then { row with removedAt := some now, updatedAt := now } else row

theorem dropped_key (now : Nat) (row : WorktreeRecord) : (dropped now row).key = row.key := by
  unfold dropped
  split <;> rfl

theorem dropped_removed (now : Nat) (row : WorktreeRecord) : (dropped now row).removedAt.isSome = true := by
  unfold dropped
  split
  · rfl
  · rename_i hs
    simpa [Option.isSome_iff_ne_none] using hs

theorem within_dropRow (s : Grove) (k : Key) (now : Nat) :
    Within k (dropped now) s (s.dropRow k.id now) :=
  ⟨dropped_key now, rfl, fun _ _ => rfl, fun _ hid => Function.update_of_ne hid _ _, rfl⟩

/-- A new row is nobody's yet. -/
theorem Kempt.insert (h : Kempt s roles) {row : WorktreeRecord} (hi : roles[i]? = some .idle)
    (hid : row.id = s.nextId) (hpath : ∀ r ∈ s.rows, r.path ≠ row.path) (hstatus : row.status = .creating)
    (hlive : row.removedAt = none) :
    Kempt { s with rows := s.rows ++ [row], nextId := s.nextId + 1 } (roles.set i (.on .minds row.key)) := by
  have hfresh : ∀ r ∈ s.rows, r.id ≠ row.id := fun r hr => by
    rw [hid]
    exact Nat.ne_of_lt (h.bound r hr)
  have hnobody : ∀ stage, .on stage row.key ∉ roles := by
    intro stage hm
    obtain ⟨r, hr, hkey⟩ := h.sees _ hm
    exact hfresh r hr (congrArg Key.id hkey)
  refine ⟨?_, ?_, fun x hx => ?_, fun x hx => ?_, fun x hx => ?_, h.readied⟩
  · rw [List.map_append, List.nodup_append]
    refine ⟨h.ids, List.nodup_singleton _, fun a ha b hb => ?_⟩
    obtain ⟨r, hr, rfl⟩ := List.mem_map.mp ha
    rw [List.mem_singleton.mp hb]
    exact hfresh r hr
  · rw [List.map_append, List.nodup_append]
    refine ⟨h.paths, List.nodup_singleton _, fun a ha b hb => ?_⟩
    obtain ⟨r, hr, rfl⟩ := List.mem_map.mp ha
    rw [List.mem_singleton.mp hb]
    exact hpath r hr
  · rcases List.mem_append.mp hx with hx | hx
    · exact Nat.lt_succ_of_lt (h.bound x hx)
    · rw [List.mem_singleton.mp hx, hid]
      exact Nat.lt_succ_self _
  · rcases mem_set hx with rfl | hx
    · exact ⟨row, List.mem_append_right _ (List.mem_singleton.mpr rfl), rfl⟩
    · have hsees := h.sees x hx
      cases x with
      | idle => trivial
      | on stage k =>
        obtain ⟨r, hr, hkey⟩ := hsees
        exact ⟨r, List.mem_append_left _ hr, hkey⟩
  · rcases List.mem_append.mp hx with hx | hx
    · have hc : Cared s (roles.set i (.on .minds row.key)) x := (h.cared x hx).still hi rfl (by simp)
      exact ⟨hc.removed, hc.ready, hc.once, hc.added⟩
    · rw [List.mem_singleton.mp hx]
      refine ⟨fun hr => ?_, fun _ hs => ?_, fun hr => ?_, fun hm => ?_⟩
      · rw [hlive] at hr
        cases hr
      · rw [hstatus] at hs
        cases hs
      · rw [hlive] at hr
        cases hr
      · rcases mem_set hm with heq | hm
        · cases heq
        · exact absurd hm (hnobody _)

/-- Whoever else marks a row as ready finds its worktree, or leaves it to another request. -/
theorem Kempt.markReady {k : Key} {stage : Stage} (h : Kempt s roles) (hi : roles[i]? = some (.on stage k))
    (hstage : stage = .clearing ∨ stage = .restored) (now : Nat)
    (hg : s.live k.id = true → s.disk k.path ≠ .worktree → Beside roles i k [.clearing, .restored]) :
    Kempt (s.setRow k.id (withStatus .ready now)) (roles.set i (.on .minds k)) := by
  have hsees : Knows s k := h.sees _ (List.mem_of_getElem? hi)
  refine h.within hi rfl rfl hsees (within_setRow s fun _ => rfl) h.readied fun row hrow hkey => ?_
  subst hkey
  have hc := h.cared row hrow
  have hput : s.disk row.path ≠ .worktree →
      row.removedAt.isSome = true ∨ Tended (roles.set i (.on .minds row.key)) row.key := by
    intro hd
    cases hr : row.removedAt with
    | some t => exact .inl rfl
    | none => exact .inr ((hg ((live_of_mem h hrow).trans (by rw [hr]; rfl)) hd).tends _)
  refine ⟨fun hr hd => ?_, fun hr _ hd => ?_, hc.once, fun _ => ?_⟩
  · refine mem_set_of_ne hi (hc.removed hr hd) ?_ _
    rcases hstage with rfl | rfl <;> simp
  · refine (hput hd).resolve_left fun hs => ?_
    rw [show row.removedAt = none from hr] at hs
    cases hs
  · by_cases hd : s.disk row.path = .worktree
    · exact .inl hd
    · exact .inr ((hput hd).imp_left hc.once)

/-- A removal finds nothing left on disk, or leaves the row to a restore. -/
theorem Kempt.dropRow {k : Key} (h : Kempt s roles) (hi : roles[i]? = some (.on .clearing k)) (now : Nat)
    (hg : s.live k.id = true → s.disk k.path = .worktree → Beside roles i k [.restoring]) :
    Kempt (s.dropRow k.id now) (roles.set i (.on .minds k)) := by
  have hsees : Knows s k := h.sees _ (List.mem_of_getElem? hi)
  refine h.within hi rfl rfl hsees (within_dropRow s k now) h.readied fun row hrow hkey => ?_
  subst hkey
  have hc := h.cared row hrow
  have hkey := dropped_key now row
  have hid : (dropped now row).id = row.id := congrArg Key.id hkey
  have hpath : (dropped now row).path = row.path := congrArg Key.path hkey
  have honce : (s.dropRow row.id now).removedOnce row.id = true := by
    simp only [Grove.dropRow, Function.update_self, Bool.or_eq_true, live_of_mem h hrow]
    cases hr : row.removedAt with
    | none => exact .inr rfl
    | some t => exact .inl (hc.once (by rw [hr]; rfl))
  refine ⟨fun _ hd => ?_, fun hr => ?_, fun _ => hid ▸ honce, fun _ => .inr (.inl (hid ▸ honce))⟩
  · rw [hpath] at hd
    rw [hkey]
    cases hr : row.removedAt with
    | none => exact (hg ((live_of_mem h hrow).trans (by rw [hr]; rfl)) hd).stays _
    | some t => exact mem_set_of_ne hi (hc.removed (by rw [hr]; rfl) hd) (by simp) _
  · have hsome := dropped_removed now row
    rw [hr] at hsome
    cases hsome

/-- One step that finds what it takes for granted. -/
theorem Kempt.move (h : Kempt s roles) (hi : roles[i]? = some r) (hm : Moves e r s r' s')
    (hg : ∀ x w, e = some (x, w) → w.fail = false ∧ ∀ k ∈ x.wt, Grants s (Beside roles i k) w x.call k) :
    Kempt s' (roles.set i r') := by
  have hsees := h.sees r (List.mem_of_getElem? hi)
  have hkeep : ∀ {x : Role}, x ∈ roles → x ≠ r → x ∈ roles.set i r' :=
    fun hx hne => mem_set_of_ne hi hx hne r'
  have hself : r' ∈ roles.set i r' := mem_set_self hi r'
  cases hm with
  | fail hw =>
    rw [(hg _ _ rfl).1] at hw
    cases hw
  | keep bus =>
    rw [set_self hi]
    refine ⟨h.ids, h.paths, h.bound, fun x hx => ?_, fun x hx => ?_, h.readied⟩
    · have hx' := h.sees x hx
      cases x with
      | idle => trivial
      | on stage k => exact hx'
    · have hc := h.cared x hx
      exact ⟨hc.removed, hc.ready, hc.once, hc.added⟩
  | learn hk =>
    refine h.within hi trivial rfl hk (within_say s _ s.bus) h.readied fun row hrow hkey => ?_
    exact (h.cared row hrow).still hi rfl (by simp)
  | lower =>
    refine h.within hi rfl rfl hsees (within_say s _ s.bus) h.readied fun row hrow hkey => ?_
    exact (h.cared row hrow).still hi rfl (by simp)
  | intact =>
    refine h.within hi rfl rfl hsees (within_say s _ s.bus) h.readied fun row hrow hkey => ?_
    exact (h.cared row hrow).still hi rfl (by simp)
  | insert hid hpath hstatus hlive => exact h.insert hi hid hpath hstatus hlive
  | @status _ stage k _ status now hs =>
    refine h.within hi rfl rfl hsees (within_setRow s fun _ => rfl) h.readied fun row hrow hkey => ?_
    have hc := h.cared row hrow
    rw [set_self hi]
    exact ⟨hc.removed, fun _ hst => absurd hst hs, hc.once, hc.added⟩
  | @add w k _ hw =>
    have honce := (hg _ _ rfl).2 k rfl hw
    refine h.within hi rfl rfl hsees (within_occupy s k _) h.readied fun row hrow hkey => ?_
    subst hkey
    have hdisk : (s.occupy row.path .worktree).disk row.path = .worktree := Function.update_self ..
    refine ⟨fun hr => ?_, fun _ _ hd => absurd hdisk hd, (h.cared row hrow).once, fun _ => .inl hdisk⟩
    have := (h.cared row hrow).once hr
    rw [show s.removedOnce row.id = false from honce] at this
    cases this
  | @ready w k _ hw =>
    have honce : s.removedOnce k.id = false := (hg _ _ rfl).2 k rfl
    have hw' : Within k (withStatus .ready w.now) s { s.setRow k.id (withStatus .ready w.now) with
        readied := s.readied ++ [(k.id, s.removedOnce k.id)] } :=
      ⟨fun _ => rfl, rfl, fun _ _ => rfl, fun _ _ => rfl, rfl⟩
    refine h.within hi rfl rfl hsees hw' (fun x hx => ?_) fun row hrow hkey => ?_
    · rcases List.mem_append.mp hx with hx | hx
      · exact h.readied x hx
      · rw [List.mem_singleton.mp hx]
        exact honce
    · subst hkey
      have hc := h.cared row hrow
      have hon : s.disk row.path = .worktree ∨ s.removedOnce row.id = true ∨ Tended roles row.key :=
        hc.added (List.mem_of_getElem? hi)
      have htended : s.disk row.path ≠ .worktree → Tended (roles.set i (.on .minds row.key)) row.key := by
        intro hd
        rcases hon with hd' | ho | ht
        · exact absurd hd' hd
        · rw [show s.removedOnce row.id = false from honce] at ho
          cases ho
        · exact ht.imp (fun hx => hkeep hx (by simp)) (fun hx => hkeep hx (by simp))
      refine ⟨fun hr hd => hkeep (hc.removed hr hd) (by simp), fun _ _ => htended, hc.once, fun _ => ?_⟩
      by_cases hd : s.disk row.path = .worktree
      · exact .inl hd
      · exact .inr (.inr (htended hd))
  | @remove _ k _ o ho =>
    refine h.within hi rfl rfl hsees (within_occupy s k o) h.readied fun row hrow hkey => ?_
    subst hkey
    have hdisk : (s.occupy row.path o).disk row.path = o := Function.update_self ..
    have hc := h.cared row hrow
    refine ⟨fun hr hd => ?_, fun _ _ _ => .inl hself, hc.once, fun _ => .inr (.inr (.inl hself))⟩
    exact hkeep (hc.removed hr (ho (hdisk ▸ hd))) (by simp)
  | @wipe _ k _ o ho =>
    refine h.within hi rfl rfl hsees (within_occupy s k o) h.readied fun row hrow hkey => ?_
    subst hkey
    have hdisk : (s.occupy row.path o).disk row.path = o := Function.update_self ..
    have hc := h.cared row hrow
    refine ⟨fun hr hd => ?_, fun _ _ _ => .inl hself, hc.once, fun _ => .inr (.inr (.inl hself))⟩
    exact hkeep (hc.removed hr (ho (hdisk ▸ hd))) (by simp)
  | @drop w k _ hw => exact h.dropRow hi w.now ((hg _ _ rfl).2 k rfl)
  | @rollback w k _ hw => exact h.markReady hi (.inl rfl) w.now ((hg _ _ rfl).2 k rfl)
  | @regrow _ k _ =>
    refine h.within hi rfl rfl hsees (within_occupy s k _) h.readied fun row hrow hkey => ?_
    subst hkey
    have hdisk : (s.occupy row.path .worktree).disk row.path = .worktree := Function.update_self ..
    exact ⟨fun _ _ => hself, fun _ _ hd => absurd hdisk hd, (h.cared row hrow).once, fun _ => .inl hdisk⟩
  | @unremove _ k _ now =>
    refine h.within hi rfl rfl hsees (within_setRow s fun _ => rfl) h.readied fun row hrow hkey => ?_
    subst hkey
    exact ⟨fun hr => (nomatch hr), fun _ _ _ => .inr hself, fun hr => (nomatch hr),
      fun _ => .inr (.inr (.inr hself))⟩
  | @already _ k _ hl =>
    refine h.within hi rfl rfl hsees (within_say s k s.bus) h.readied fun row hrow hkey => ?_
    subst hkey
    have hc := h.cared row hrow
    have hlive : row.removedAt = none := by
      have hl' : s.live row.id = true := hl
      simpa [live_of_mem h hrow] using hl'
    have htend : Tended roles row.key → Tended (roles.set i (.on .minds row.key)) row.key :=
      Or.imp (fun hx => hkeep hx (by simp)) (fun hx => hkeep hx (by simp))
    refine ⟨fun hr => ?_, fun hr hs hd => htend (hc.ready hr hs hd), hc.once, fun hm => ?_⟩
    · rw [hlive] at hr
      cases hr
    · rcases mem_set hm with heq | hm
      · cases heq
      · exact (hc.added hm).imp_right (Or.imp_right htend)
  | @restored w k _ hw => exact h.markReady hi (.inr rfl) w.now ((hg _ _ rfl).2 k rfl)

end Moving

section Handlers

variable {r : Role} {β : Type} {t : Tag} {site : Site} {wt : WorktreeRecord}

theorem access_follows {act : Choice → Grove → Grove × β} {Q : β → Role → Prop} (hr : r = site.role)
    (h : ∀ w s, Sees r s → ∃ r', Moves (some (site, w)) r s r' (act w s).1 ∧ Q (act w s).2 r') :
    lifecycle.Follows t (access site act) r Q := by
  refine ⟨hr, fun w s s' b hs ha => ?_⟩
  obtain ⟨rfl, rfl⟩ := Prod.mk.inj (Option.some.inj ha)
  exact h w s hs

/-- A call that only looks. -/
theorem look_follows {act : Choice → Grove → β} (hr : r = site.role) :
    lifecycle.Follows t (access site (fun w s => (s, act w s))) r (fun _ r' => r' = r) :=
  access_follows hr fun _ s _ => ⟨r, .keep s.bus, rfl⟩

theorem atOnce_follows {act : Grove → β} :
    lifecycle.Follows t (atOnce (fun s => (s, act s))) r (fun _ r' => r' = r) :=
  fun s _ => ⟨r, .keep s.bus, rfl⟩

theorem publish_follows {topic : Topic} {note : Note} :
    lifecycle.Follows t (publish topic note) r (fun _ r' => r' = r) :=
  fun s _ => ⟨r, .keep (s.bus ++ [(topic, note)]), rfl⟩

theorem setStatus_follows {call : Call} {status : WorktreeStatus} (hs : status ≠ .ready) :
    lifecycle.Follows t (setStatus call wt status) (.on call.stage wt.key)
      (fun _ r' => r' = .on call.stage wt.key) := by
  refine access_follows rfl fun w s _ => ⟨_, ?_, rfl⟩
  cases hw : w.fail with
  | true => exact .fail hw
  | false => exact .status w.now hs

/-- A step that succeeded has led to another stage. -/
def Reached (k : Key) (stage : Stage) {ε α : Type} (out : Except ε α) (r : Role) : Prop :=
  r = .on (if out.isOk = true then stage else .minds) k

theorem addWorktree_follows {call : Call} {stage : Stage} (hc : call.stage = .minds)
    (hm : ∀ w s, w.git.isOk = true → Moves (some (on call wt, w)) (.on .minds wt.key) s
      (.on stage wt.key) (s.occupy wt.path .worktree)) :
    lifecycle.Follows t (addWorktree call wt) (.on .minds wt.key) (Reached wt.key stage) := by
  refine ⟨by simp [lifecycle, Site.role, on, hc], fun w s s' out _ hact => ?_⟩
  dsimp only at hact
  split at hact
  · obtain ⟨rfl, rfl⟩ := Prod.mk.inj (Option.some.inj hact)
    exact ⟨_, .keep s.bus, rfl⟩
  · rename_i hgit
    split at hact
    · obtain ⟨rfl, rfl⟩ := Prod.mk.inj (Option.some.inj hact)
      exact ⟨_, hm w s (by rw [hgit]; rfl), rfl⟩
    · cases hact

theorem leftBy_worktree {w : Choice} {o : Occupant} (h : o.leftBy w = .worktree) : o = .worktree := by
  unfold Occupant.leftBy at h
  split at h
  · cases h
  · exact h

theorem removeWorktree_follows : lifecycle.Follows t (removeWorktree wt) (.on .minds wt.key)
    (fun _ r => r = .on .clearing wt.key) := by
  refine ⟨rfl, fun w s s' out _ hact => ?_⟩
  dsimp only at hact
  split at hact
  · obtain ⟨rfl, rfl⟩ := Prod.mk.inj (Option.some.inj hact)
    exact ⟨_, .remove leftBy_worktree, rfl⟩
  · split at hact
    · obtain ⟨rfl, rfl⟩ := Prod.mk.inj (Option.some.inj hact)
      exact ⟨_, .remove fun ho => (nomatch ho), rfl⟩
    · cases hact

theorem deleteRow_follows : lifecycle.Follows t (deleteRow wt) (.on .clearing wt.key)
    (fun _ r => r = .on .minds wt.key) := by
  refine access_follows rfl fun w s _ => ⟨_, ?_, rfl⟩
  cases hw : w.fail with
  | true => exact .fail hw
  | false => exact .drop hw

theorem pruneAfter_follows (out : Except GitError Unit) :
    lifecycle.Follows t (pruneAfter wt out) (.on .clearing wt.key) (fun _ r => r = .on .clearing wt.key) := by
  cases out with
  | error e => exact look_follows rfl
  | ok _ => exact rfl

theorem removeDirAll_follows : lifecycle.Follows t (removeDirAll wt) (.on .clearing wt.key)
    (fun _ r => r = .on .clearing wt.key) := by
  refine access_follows rfl fun w s _ => ⟨_, .wipe fun ho => ?_, rfl⟩
  split at ho
  · cases ho
  · exact leftBy_worktree ho

theorem cleanup_follows : lifecycle.Follows t (cleanupFailedWorktree wt) (.on .minds wt.key)
    (fun _ r => r = .on .minds wt.key) := by
  have hrest : lifecycle.Follows t ((deleteBranch wt).bind fun _ => (deleteRow wt).bind fun _ => .ret ())
      (.on .clearing wt.key) (fun _ r => r = .on .minds wt.key) :=
    Protocol.follows_to (look_follows rfl) fun _ => Protocol.follows_to deleteRow_follows fun _ => rfl
  refine Protocol.follows_to removeWorktree_follows fun out => ?_
  refine Protocol.follows_to (pruneAfter_follows out) fun _ => ?_
  refine Protocol.follows_to atOnce_follows fun leftover => ?_
  cases leftover with
  | true => exact Protocol.follows_to removeDirAll_follows fun _ => hrest
  | false => exact hrest

/-- What a request or task ends as. -/
def Ended {α : Type} (_ : α) (r : Role) : Prop := lifecycle.rest .handler none r

theorem ended_minds {α : Type} {a : α} (k : Key) : Ended a (.on .minds k) := .inr ⟨k, rfl⟩

theorem giveUp_follows (line : Text) :
    lifecycle.Follows t (giveUp wt line) (.on .minds wt.key) Ended := by
  refine Protocol.follows_to (setStatus_follows (by simp)) fun _ => ?_
  refine Protocol.follows_to publish_follows fun _ => Protocol.follows_to publish_follows fun _ => ?_
  refine Protocol.follows_mono publish_follows fun _ r hr => ?_
  rw [hr]
  exact ended_minds _

theorem tearDown_follows (line : Text) (code : Int) :
    lifecycle.Follows t (tearDown wt line code) (.on .minds wt.key) Ended := by
  refine Protocol.follows_to publish_follows fun _ => Protocol.follows_to publish_follows fun _ => ?_
  refine Protocol.follows_to cleanup_follows fun _ => Protocol.follows_to publish_follows fun _ => ?_
  refine Protocol.follows_mono publish_follows fun _ r hr => ?_
  rw [hr]
  exact ended_minds _

theorem markReady_follows : lifecycle.Follows t (markReady wt) (.on .added wt.key) Ended := by
  have hready : lifecycle.Follows t (setReady wt) (.on .added wt.key)
      (fun _ r => r = .on .minds wt.key) := by
    refine access_follows rfl fun w s _ => ⟨_, ?_, rfl⟩
    cases hw : w.fail with
    | true => exact .fail hw
    | false => exact .ready hw
  refine Protocol.follows_to hready fun _ => Protocol.follows_to publish_follows fun _ => ?_
  refine Protocol.follows_mono publish_follows fun _ r hr => ?_
  rw [hr]
  exact ended_minds _

theorem createTask_follows : lifecycle.Follows t (createTask wt) (.on .minds wt.key) Ended := by
  refine Protocol.follows_to (look_follows rfl) fun _ => ?_
  refine Protocol.follows_to publish_follows fun _ => ?_
  refine Protocol.follows_to (look_follows rfl) fun fetched => ?_
  cases fetched with
  | error e => exact giveUp_follows _
  | ok _ =>
    refine Protocol.follows_to publish_follows fun _ => Protocol.follows_to publish_follows fun _ => ?_
    refine Protocol.follows_then (addWorktree_follows rfl fun w s hw => Moves.add hw) ?_
    rintro out _ rfl
    cases out with
    | error e => exact giveUp_follows _
    | ok _ =>
      refine Protocol.follows_to publish_follows fun _ => ?_
      cases wt.preScript with
      | none => exact markReady_follows
      | some script =>
        refine Protocol.follows_to (setStatus_follows (by simp)) fun _ => ?_
        refine Protocol.follows_to publish_follows fun _ => ?_
        refine Protocol.follows_then (M := fun out r =>
          r = .on (if out = .ok 0 then .added else .minds) wt.key) (access_follows rfl fun w s _ => ?_) ?_
        · refine ⟨_, ?_, rfl⟩
          dsimp only
          split
          · exact .keep s.bus
          · exact .lower
        rintro out _ rfl
        cases out with
        | error e => exact tearDown_follows _ _
        | ok code =>
          dsimp only
          by_cases hcode : code = 0
          · rw [if_pos hcode, if_pos (by rw [hcode])]
            exact markReady_follows
          · rw [if_neg hcode, if_neg (by simpa using hcode)]
            exact tearDown_follows _ _

/-- Whoever reads a row knows it. -/
theorem knows_of_get {s : Grove} {id : Uuid} {row : WorktreeRecord}
    (h : WorktreeRepo.get s.rows id = some row) : Knows s row.key :=
  ⟨row, List.mem_of_find?_eq_some h, rfl⟩

theorem get_isSome_of_knows {s : Grove} {k : Key} (h : Knows s k) :
    (WorktreeRepo.get s.rows k.id).isSome = true := by
  obtain ⟨row, hrow, hkey⟩ := h
  unfold WorktreeRepo.get
  rw [List.find?_isSome]
  exact ⟨row, hrow, by simp [← hkey, WorktreeRecord.key]⟩

/-- A row that was read, or an error. -/
def Found {ε : Type} (out : Except ε WorktreeRecord) (r : Role) : Prop :=
  r = match out with | .ok wt => .on .minds wt.key | .error _ => .idle

theorem getRow_follows (id : Uuid) :
    lifecycle.Follows t (getRow (outer .getRow) id) .idle Found := by
  refine access_follows rfl fun w s _ => ?_
  cases w.fail with
  | true => exact ⟨_, .keep s.bus, rfl⟩
  | false =>
    dsimp only
    cases hget : WorktreeRepo.get s.rows id with
    | none => exact ⟨_, .keep s.bus, rfl⟩
    | some row => exact ⟨_, .learn (knows_of_get hget), rfl⟩

theorem insertRow_follows (projectId : Uuid) (body : CreateWorktreeBody) (path : Text)
    (preScript : Option Text) :
    lifecycle.Follows t (insertRow projectId body path preScript) .idle Found := by
  unfold insertRow
  cases checkInput body.branch body.baseRef path with
  | error e => exact rfl
  | ok _ =>
    refine access_follows rfl fun w s _ => ?_
    dsimp only
    split
    · exact ⟨_, .keep s.bus, rfl⟩
    · split
      · exact ⟨_, .keep s.bus, rfl⟩
      · rename_i hpath
        refine ⟨_, .insert rfl (fun r hr he => hpath ?_) rfl rfl, rfl⟩
        exact List.any_eq_true.mpr ⟨r, hr, by simpa using he⟩

theorem create_follows (projectId : Uuid) (body : CreateWorktreeBody) :
    lifecycle.Follows t (create projectId body) .idle Ended := by
  refine Protocol.follows_to (look_follows rfl) fun found => ?_
  match found with
  | .error none => exact .inl rfl
  | .error (some e) => exact .inl rfl
  | .ok project =>
    refine Protocol.follows_to (look_follows rfl) fun hasRemote => ?_
    cases hasRemote with
    | false => exact .inl rfl
    | true =>
      refine Protocol.follows_to atOnce_follows fun stateDir => ?_
      refine Protocol.follows_then (insertRow_follows _ _ _ _) ?_
      rintro out _ rfl
      cases out with
      | error e => exact .inl rfl
      | ok wt =>
        have hspawn : lifecycle.Follows t (.spawn .createTask (createTask wt) (.ret ())) (.on .minds wt.key)
            (fun _ r => r = .on .minds wt.key) :=
          ⟨_, _, ⟨rfl, rfl⟩, trivial, createTask_follows, rfl⟩
        refine Protocol.follows_to hspawn fun _ => ?_
        exact Protocol.follows_to publish_follows fun _ => ended_minds _

theorem forget_follows : lifecycle.Follows t (forget wt) (.on .clearing wt.key) Ended := by
  refine Protocol.follows_to deleteRow_follows fun out => ?_
  cases out with
  | error e => exact ended_minds _
  | ok _ => exact Protocol.follows_to publish_follows fun _ => ended_minds _

theorem removed_follows (dropBranch : Bool) :
    lifecycle.Follows t (removed wt dropBranch) (.on .clearing wt.key) Ended := by
  cases dropBranch with
  | false => exact forget_follows
  | true =>
    refine Protocol.follows_to (look_follows rfl) fun out => ?_
    cases out with
    | ok _ => exact forget_follows
    | error e =>
      dsimp only
      split
      · exact forget_follows
      · exact Protocol.follows_to deleteRow_follows fun _ => ended_minds _

theorem delete_follows (projectId worktreeId : Uuid) (dropBranch : Bool) :
    lifecycle.Follows t (delete projectId worktreeId dropBranch) .idle Ended := by
  refine Protocol.follows_to (look_follows rfl) fun found => ?_
  cases found with
  | error e => exact .inl rfl
  | ok project =>
    refine Protocol.follows_then (getRow_follows worktreeId) ?_
    rintro out _ rfl
    cases out with
    | error e => exact .inl rfl
    | ok wt =>
      dsimp only
      split
      · exact ended_minds _
      cases wt.postScript
      case' some script => refine Protocol.follows_to (look_follows rfl) fun _ => ?_
      -- With a script or without one, the removal is the same.
      all_goals
        refine Protocol.follows_to (setStatus_follows (by simp)) fun _ => ?_
        refine Protocol.follows_to removeWorktree_follows fun out => ?_
        cases out with
        | ok _ => exact removed_follows dropBranch
        | error e =>
          refine Protocol.follows_to atOnce_follows fun present => ?_
          split
          · exact Protocol.follows_to (look_follows rfl) fun _ => removed_follows dropBranch
          · have hback : lifecycle.Follows t (setStatus .rollback wt .ready) (.on .clearing wt.key)
                (fun _ r => r = .on .minds wt.key) := by
              refine access_follows rfl fun w s _ => ⟨_, ?_, rfl⟩
              cases hw : w.fail with
              | true => exact .fail hw
              | false => exact .rollback hw
            exact Protocol.follows_to hback fun _ => ended_minds _

theorem isWorktreePath_follows : lifecycle.Follows t (isWorktreePath wt) (.on .minds wt.key)
    (fun out r => r = .on (if out = .ok true then .restoring else .minds) wt.key) := by
  refine Protocol.follows_to atOnce_follows fun present => ?_
  cases present with
  | false => exact rfl
  | true =>
    refine access_follows rfl fun w s _ => ⟨_, ?_, rfl⟩
    dsimp only
    match w.yes with
    | .ok true => exact .intact
    | .ok false => exact .keep s.bus
    | .error (.nonZero _ _) => exact .keep s.bus
    | .error .gitNotFound => exact .keep s.bus
    | .error (.io _) => exact .keep s.bus

theorem restoreWorktree_follows :
    lifecycle.Follows t (restoreWorktree wt) (.on .minds wt.key) (Reached wt.key .restoring) := by
  have hadd : lifecycle.Follows t (addWorktree .regrow wt) (.on .minds wt.key) (Reached wt.key .restoring) :=
    addWorktree_follows rfl fun w s _ => .regrow
  refine Protocol.follows_then isWorktreePath_follows ?_
  rintro out _ rfl
  match out with
  | .error e => exact rfl
  | .ok true => exact rfl
  | .ok false =>
    refine Protocol.follows_to atOnce_follows fun present => ?_
    cases present with
    | true => exact rfl
    | false =>
      refine Protocol.follows_to (look_follows rfl) fun known => ?_
      match known with
      | .error e => exact rfl
      | .ok true => exact hadd
      | .ok false =>
        refine Protocol.follows_to (look_follows rfl) fun _ => ?_
        refine Protocol.follows_then hadd ?_
        rintro out _ rfl
        cases out with
        | ok _ => exact rfl
        | error e => exact hadd

theorem restoreRow_follows : lifecycle.Follows t (restoreRow wt) (.on .restoring wt.key)
    (fun out r => r = .on (if out = .ok true then .restored else .minds) wt.key) := by
  refine access_follows rfl fun w s hs => ⟨_, ?_, rfl⟩
  cases hw : w.fail with
  | true => exact .fail hw
  | false =>
    cases hl : s.live wt.id with
    | true => simpa [hl] using Moves.already hl
    | false =>
      have hsome : (WorktreeRepo.get s.rows wt.id).isSome = true := get_isSome_of_knows hs
      simp only [hsome]
      exact .unremove w.now

theorem restore_follows (worktreeId : Uuid) :
    lifecycle.Follows t (restore worktreeId) .idle Ended := by
  refine Protocol.follows_then (getRow_follows worktreeId) ?_
  rintro out _ rfl
  cases out with
  | error e => exact .inl rfl
  | ok wt =>
    dsimp only
    split
    · exact ended_minds _
    refine Protocol.follows_to (look_follows rfl) fun owner => ?_
    cases owner with
    | error e => exact ended_minds _
    | ok project =>
      refine Protocol.follows_then restoreWorktree_follows ?_
      rintro out _ rfl
      cases out with
      | error e => exact ended_minds _
      | ok _ =>
        refine Protocol.follows_then restoreRow_follows ?_
        rintro out _ rfl
        match out with
        | .error e => exact ended_minds _
        | .ok false => exact ended_minds _
        | .ok true =>
          have hready : lifecycle.Follows t (setStatus .restored wt .ready) (.on .restored wt.key)
              (fun _ r => r = .on .minds wt.key) := by
            refine access_follows rfl fun w s _ => ⟨_, ?_, rfl⟩
            cases hw : w.fail with
            | true => exact .fail hw
            | false => exact .restored hw
          refine Protocol.follows_to hready fun _ => ?_
          refine Protocol.follows_to (look_follows rfl) fun out => ?_
          cases out with
          | error e => exact ended_minds _
          | ok fresh => exact Protocol.follows_to publish_follows fun _ => ended_minds _

theorem handle_follows (request : Request) :
    lifecycle.Follows t (handle request) .idle Ended := by
  cases request with
  | create projectId body =>
    exact Protocol.follows_then (create_follows projectId body) fun _ _ h => h
  | delete projectId worktreeId dropBranch =>
    exact Protocol.follows_then (delete_follows projectId worktreeId dropBranch) fun _ _ h => h
  | restore worktreeId => exact Protocol.follows_then (restore_follows worktreeId) fun _ _ h => h

end Handlers

section Runs

variable {s : Grove} {roles : List Role} {r r' : Role} {i : Nat} {k : Key} {p p' : GrovePool}

/-- Another request starts with nothing, or with what one has already. -/
theorem Kempt.append (h : Kempt s roles) (hr : r = .idle ∨ r ∈ roles) : Kempt s (roles ++ [r]) := by
  have hmem : ∀ stage k, .on stage k ∈ roles ++ [r] ↔ .on stage k ∈ roles := by
    intro stage k
    rw [List.mem_append, List.mem_singleton]
    refine ⟨?_, .inl⟩
    rintro (hm | heq)
    · exact hm
    · rcases hr with rfl | hr
      · cases heq
      · exact heq ▸ hr
  refine ⟨h.ids, h.paths, h.bound, fun x hx => ?_, fun x hx => ?_, h.readied⟩
  · cases x with
    | idle => trivial
    | on stage k => exact h.sees _ ((hmem stage k).mp hx)
  · have hc := h.cared x hx
    have htend : Tended roles x.key → Tended (roles ++ [r]) x.key :=
      Or.imp (hmem _ _).mpr (hmem _ _).mpr
    refine ⟨fun hr hd => (hmem _ _).mpr (hc.removed hr hd), fun hr hs hd => htend (hc.ready hr hs hd),
      hc.once, fun hm => ?_⟩
    exact (hc.added ((hmem _ _).mp hm)).imp_right (Or.imp_right htend)

theorem kempt_kept : lifecycle.Kept Kempt where
  sees s roles i r hv hi := hv.sees r (List.mem_of_getElem? hi)
  sync s roles i r r' s' hv hi hm := hv.move hi hm fun x w he => (nomatch he)
  fork s roles i r tag rc r' hv hi hf := by
    obtain ⟨rfl, rfl⟩ := hf
    rw [set_self hi]
    exact hv.append (.inr (List.mem_of_getElem? hi))

/-- Requests that rest in a stage with a worktree have that role. -/
theorem Others.beside (hc : lifecycle.Coupled p roles) {stages : List Stage} (h : Others p i k stages) :
    Beside roles i k stages := by
  obtain ⟨t, ht, x, hx, hk, hstage⟩ := h
  obtain ⟨j, hne, hj⟩ := List.mem_eraseIdx_iff_getElem?.mp ht
  obtain ⟨th, hth, rfl⟩ := Option.map_eq_some_iff.mp (List.getElem?_map .. ▸ hj)
  obtain ⟨r, hr, hrest⟩ := hc.role hth
  have hsite : th.site = some x := hx
  rw [hsite] at hrest
  refine ⟨x.call.stage, hstage, j, hne, ?_⟩
  rw [hr, show r = x.role from hrest]
  simp [Site.role, hk]

theorem Grants.mono {others others' : List Stage → Prop} {w : Choice} {call : Call}
    (h : Grants s others w call k) (ho : ∀ stages, others stages → others' stages) :
    Grants s others' w call k := by
  cases call with
  | drop => exact fun hl hd => ho _ (h hl hd)
  | rollback => exact fun hl hd => ho _ (h hl hd)
  | restored => exact fun hl hd => ho _ (h hl hd)
  | _ => exact h

/-- At rest nobody tends or restores a worktree. -/
theorem role_of_finished (hc : lifecycle.Coupled p roles) (hall : ∀ t ∈ p.threads, t.finished = true)
    (hr : r ∈ roles) : r = .idle ∨ ∃ k, r = .on .minds k := by
  obtain ⟨i, hi⟩ := List.getElem?_of_mem hr
  obtain ⟨t, ht, hrest⟩ := hc.thread hi
  rw [Thread.site_of_finished (hall t (List.mem_of_getElem? ht))] at hrest
  exact hrest

theorem Kempt.tidy (h : Kempt p.shared roles) (hc : lifecycle.Coupled p roles) : Tidy p := by
  refine ⟨fun hall row hrow => ?_, h.readied⟩
  have hno : ∀ stage, stage ≠ .minds → .on stage row.key ∉ roles := by
    intro stage hne hm
    rcases role_of_finished hc hall hm with heq | ⟨k, heq⟩
    · cases heq
    · exact hne (Role.on.inj heq).1
  have hcared := h.cared row hrow
  refine ⟨fun hr hd => hno _ (by simp) (hcared.removed hr hd), fun hr hs => ?_⟩
  by_contra hd
  rcases hcared.ready hr hs hd with hm | hm
  · exact hno _ (by simp) hm
  · exact hno _ (by simp) hm

theorem kempt_boot (stateDir : Text) (projects : Uuid → Option Project) (disk : Text → Occupant) :
    Kempt (boot stateDir projects disk) [] :=
  ⟨.nil, .nil, fun _ hx => (nomatch hx), fun _ hx => (nomatch hx), fun _ hx => (nomatch hx),
    fun _ hx => (nomatch hx)⟩

/-- Creations, deletions and restores all of whose steps find what they take for granted
leave rows and disk in agreement. -/
theorem worktrees_tidy (stateDir : Text) (projects : Uuid → Option Project) (disk : Text → Occupant)
    (h : Pool.Reaches entry Careful ⟨boot stateDir projects disk, []⟩ p) : Tidy p := by
  have hc : lifecycle.Coupled (⟨boot stateDir projects disk, []⟩ : GrovePool) [] :=
    ⟨rfl, fun _ _ hi => (nomatch hi)⟩
  obtain ⟨roles, hc, hv⟩ := kempt_kept.reaches
    (fun p roles request _ hv _ => ⟨.idle, handle_follows request, hv.append (.inl rfl)⟩)
    (fun p roles i w x r r' s' hc hv hg hat hi hm => by
      refine hv.move hi hm fun x' w' he => ?_
      cases he
      exact ⟨hg.1, fun k hk => (hg.2 x hat k hk).mono fun stages ho => ho.beside hc⟩)
    h hc (kempt_boot stateDir projects disk)
  exact hv.tidy hc

end Runs

/-- One project, and a disk with nothing on it. -/
def bare : Grove := boot ['/', 's'] (fun _ => some ⟨['/', 'p'], none⟩) (fun _ => .missing)

def newTree : CreateWorktreeBody := { branch := ['b'], path := some ['/', 'w'] }

/-- A worktree that is created, deleted and restored, each in its turn. -/
def inTurn : List (Event Choice Request) :=
  [.arrive (.create 0 newTree), .run 0 {}, .run 0 {}, .run 0 {}, .run 1 {}, .run 1 {}, .run 1 {}, .run 1 {},
    .arrive (.delete 0 0 true), .run 2 {}, .run 2 {}, .run 2 {}, .run 2 {}, .run 2 {}, .run 2 { now := 5 },
    .arrive (.restore 0), .run 3 {}, .run 3 {}, .run 3 {}, .run 3 {}, .run 3 {}, .run 3 {}, .run 3 {}]

theorem worktrees_tidy_in_turn :
    ∃ p : GrovePool, (Pool.Reaches entry Careful ⟨bare, []⟩ p ∧ (∀ t ∈ p.threads, t.finished = true) ∧
        p.shared.readied = [(0, false)]) ∧ Tidy p := by
  have hrun : ((Pool.play entry Careful ⟨bare, []⟩ inTurn).map (fun p =>
      (p.threads.map Thread.finished, p.shared.readied))) = some ([true, true, true, true], [(0, false)]) := by
    decide
  obtain ⟨p, hp, hfinal⟩ := Option.map_eq_some_iff.mp hrun
  simp only [Prod.mk.injEq] at hfinal
  have hreach := Pool.play_reaches hp
  refine ⟨p, ⟨hreach, fun t ht => ?_, hfinal.2⟩, worktrees_tidy _ _ _ hreach⟩
  have hmem : t.finished ∈ p.threads.map Thread.finished := List.mem_map_of_mem ht
  rw [hfinal.1] at hmem
  simpa using hmem

/-- A delete that finds no directory, before the create task adds the worktree. -/
def overtaken : List (Event Choice Request) :=
  [.arrive (.create 0 newTree), .run 0 {}, .run 0 {}, .run 0 {},
    .arrive (.delete 0 0 false), .run 2 {}, .run 2 {}, .run 2 {},
    .run 2 { git := .error (.nonZero 128 []) }, .run 2 {}, .run 2 { now := 5 },
    .run 1 {}, .run 1 {}, .run 1 {}, .run 1 {}]

theorem deleted_worktree_ready :
    ¬ ∀ (stateDir : Text) (projects : Uuid → Option Project) (disk : Text → Occupant) (p : GrovePool),
      Pool.Reaches entry Stored ⟨boot stateDir projects disk, []⟩ p → Tidy p := by
  intro hall
  have hrun : ((Pool.play entry Stored ⟨bare, []⟩ overtaken).map (fun p => p.shared.readied)) =
      some [(0, true)] := by decide
  obtain ⟨p, hp, hreadied⟩ := Option.map_eq_some_iff.mp hrun
  have htidy := hall _ _ _ p (Pool.play_reaches hp)
  have hmark := htidy.readied (0, true) (by simp [hreadied])
  cases hmark

end AgentGrove.Worktrees
