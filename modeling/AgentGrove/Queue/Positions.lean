import AgentGrove.Coop.Machine
import AgentGrove.Queue.Order

namespace AgentGrove.QueueRepo

open Coop

/-- An enqueue that has read the position for its row and not yet inserted it. -/
structure Enqueue where
  chatId : Uuid
  body : Text
  position : Nat

/-- The table of queue items, and the enqueues between their two statements. -/
structure Table where
  items : List QueueItemRow
  enqueues : List Enqueue
  nextId : Uuid

/-- The statements of the repository's operations; those of one transaction are one. -/
inductive Statement where
  | maxPosition (chatId : Uuid) (body : Text)
  | insertItem (n : Nat)
  | popNextPending (chatId : Uuid)
  | popSpecificPending (chatId itemId : Uuid)
  | markDone (itemId : Uuid)
  | resetToPending (itemId : Uuid)
  | cancel (itemId : Uuid)
  | updateBody (itemId : Uuid) (body : Text)
  | reorder (chatId : Uuid) (ordered : List Uuid)
  | recoverStaleRunning

namespace Table

def setItems (t : Table) (items : List QueueItemRow) : Table := { t with items := items }

/-- Run a statement at a clock reading. -/
def step (t : Table) : Statement × Nat → Option Table
  | (.maxPosition c body, _) =>
    some { t with enqueues := t.enqueues ++ [⟨c, body, nextPosition t.items c⟩] }
  | (.insertItem n, now) => (t.enqueues[n]?).map (fun e =>
      { items := insert t.nextId now e.chatId e.body e.position t.items
        enqueues := t.enqueues.eraseIdx n
        nextId := t.nextId + 1 })
  | (.popNextPending c, now) => some (t.setItems (QueueRepo.popNextPending now c t.items).2)
  | (.popSpecificPending c id, now) =>
    some (t.setItems (QueueRepo.popSpecificPending now c id t.items).2)
  | (.markDone id, _) => some (t.setItems (QueueRepo.markDone id t.items))
  | (.resetToPending id, now) => some (t.setItems (QueueRepo.resetToPending now id t.items))
  | (.cancel id, _) => some (t.setItems (QueueRepo.cancel id t.items))
  | (.updateBody id body, now) => some (t.setItems (QueueRepo.updateBody now id body t.items))
  | (.reorder c ordered, now) => some (t.setItems (QueueRepo.reorder now c ordered t.items))
  | (.recoverStaleRunning, now) => some (t.setItems (QueueRepo.recoverStaleRunning now t.items))

def machine : Machine Table (Statement × Nat) := ⟨step⟩

def empty : Table := ⟨[], [], 0⟩

end Table

/-- Pending or Running: neither done nor cancelled. -/
def isLive (i : QueueItemRow) : Bool := isPending i || isRunning i

/-- No row is inserted at a position that another enqueue of the chat has taken in the meantime,
and no reorder hands out a position that a Running row of the chat still has. -/
def Untaken (t : Table) : Statement × Nat → Prop
  | (.insertItem n, _) => ∀ e ∈ t.enqueues[n]?, nextPosition t.items e.chatId ≤ e.position
  | (.reorder c _, _) => ∀ i ∈ t.items, i.chatId = c → isRunning i = true →
      (waiting t.items c).length ≤ i.position
  | _ => True

instance (t : Table) (e : Statement × Nat) : Decidable (Untaken t e) :=
  match e with
  | (.insertItem n, _) => inferInstanceAs (Decidable (∀ e ∈ t.enqueues[n]?, _))
  | (.reorder c _, _) => inferInstanceAs (Decidable (∀ i ∈ t.items, i.chatId = c → _ → _))
  | (.maxPosition _ _, _) | (.popNextPending _, _) | (.popSpecificPending _ _, _)
  | (.markDone _, _) | (.resetToPending _, _) | (.cancel _, _) | (.updateBody _ _, _)
  | (.recoverStaleRunning, _) => .isTrue trivial

/-- Live rows of one chat have positions of their own. -/
def Spread (items : List QueueItemRow) : Prop :=
  ∀ i ∈ items, ∀ j ∈ items, i.chatId = j.chatId → isLive i = true → isLive j = true →
    i.position = j.position → i.id = j.id

instance (items : List QueueItemRow) : Decidable (Spread items) :=
  inferInstanceAs (Decidable (∀ i ∈ items, ∀ j ∈ items, _ → _ → _ → _ → _))

/-- A row and what a statement that moves nothing makes of it. -/
structure Kin (i j : QueueItemRow) : Prop where
  id : i.id = j.id
  chatId : i.chatId = j.chatId
  position : i.position = j.position
  live : isLive j = true → isLive i = true

/-- Every row was there before, at its place. -/
structure Stays (items items' : List QueueItemRow) : Prop where
  keys : (items'.map QueueItemRow.id).Sublist (items.map QueueItemRow.id)
  kin : ∀ j ∈ items', ∃ i ∈ items, Kin i j

structure Placed (t : Table) : Prop where
  keys : (t.items.map QueueItemRow.id).Nodup
  fresh : ∀ i ∈ t.items, i.id < t.nextId
  spread : Spread t.items

section

variable {t : Table} {items items' rows : List QueueItemRow} {i j : QueueItemRow} {c id : Uuid}
  {now : Nat}

theorem Kin.refl (i : QueueItemRow) : Kin i i := ⟨rfl, rfl, rfl, fun h => h⟩

theorem live_pending (h : isPending i = true) : isLive i = true := by
  rw [isLive, h, Bool.true_or]

theorem live_running (h : isRunning i = true) : isLive i = true := by
  rw [isLive, h, Bool.or_true]

theorem Stays.filter (p : QueueItemRow → Bool) (items : List QueueItemRow) :
    Stays items (items.filter p) :=
  ⟨List.filter_sublist.map _, fun j hj => ⟨j, List.mem_of_mem_filter hj, .refl j⟩⟩

/-- A pass over the table that changes live rows in nothing but status, body and clock. -/
theorem Stays.map {f : QueueItemRow → QueueItemRow} (h : ∀ i ∈ items, Kin i (f i)) :
    Stays items (items.map f) := by
  constructor
  · have hids : items.map (QueueItemRow.id ∘ f) = items.map QueueItemRow.id :=
      List.map_congr_left fun i hi => (h i hi).id.symm
    rw [List.map_map, hids]
  · intro j hj
    obtain ⟨i, hi, rfl⟩ := List.mem_map.mp hj
    exact ⟨i, hi, h i hi⟩

theorem Stays.setStatus {guard : QueueItemRow → Bool} {status : QueueStatus}
    (h : ∀ i ∈ items, i.id = id → guard i = true → isLive i = true) :
    Stays items (setStatus guard status now id items) := by
  apply Stays.map
  intro i hi
  split
  · rename_i hg
    exact ⟨rfl, rfl, rfl, fun _ => h i hi hg.1 hg.2⟩
  · exact .refl i

/-- A pop marks one pending row. -/
theorem Stays.pop (hkeys : (items.map QueueItemRow.id).Nodup) {row : Option QueueItemRow}
    (h : ∀ r, row = some r → r ∈ items ∧ isPending r = true) : Stays items (pop now items row).2 := by
  cases row with
  | none => exact ⟨.refl _, fun j hj => ⟨j, hj, .refl j⟩⟩
  | some r =>
    obtain ⟨hr, hp⟩ := h r rfl
    exact Stays.setStatus fun i hi hid _ => row_eq hkeys hi hr hid ▸ live_pending hp

theorem headPending_mem (h : headPending items c = some i) : i ∈ items ∧ isPending i = true := by
  have hmem : i ∈ pendingRows items c := List.mem_of_mem_head? h
  rw [pendingRows, List.mem_insertionSort, mem_waiting] at hmem
  exact ⟨hmem.1, hmem.2.2⟩

theorem Spread.keep (h : Spread items) (hs : Stays items items') : Spread items' := by
  intro i hi j hj hc hil hjl hpos
  obtain ⟨i₀, hi₀, hki⟩ := hs.kin i hi
  obtain ⟨j₀, hj₀, hkj⟩ := hs.kin j hj
  rw [← hki.id, ← hkj.id]
  apply h i₀ hi₀ j₀ hj₀ _ (hki.live hil) (hkj.live hjl)
  · rw [hki.position, hkj.position, hpos]
  · rw [hki.chatId, hkj.chatId, hc]

theorem Placed.keep (h : Placed t) (hs : Stays t.items items) : Placed (t.setItems items) := by
  refine ⟨h.keys.sublist hs.keys, fun j hj => ?_, h.spread.keep hs⟩
  obtain ⟨i, hi, hk⟩ := hs.kin j hj
  exact hk.id ▸ h.fresh i hi

/-- A row that comes in behind all the others. -/
theorem Placed.insert (h : Placed t) {position : Nat} (body : Text) (enqueues : List Enqueue)
    (hfree : nextPosition t.items c ≤ position) :
    Placed ⟨QueueRepo.insert t.nextId now c body position t.items, enqueues, t.nextId + 1⟩ := by
  have hold : ∀ i ∈ t.items, i.chatId = c → i.position ≠ position := by
    intro i hi hc
    exact Nat.ne_of_lt (Nat.lt_of_lt_of_le (position_lt_next hi hc) hfree)
  refine ⟨?_, ?_, ?_⟩
  · simp only [QueueRepo.insert, List.map_append, List.map_cons, List.map_nil]
    rw [List.nodup_append]
    refine ⟨h.keys, List.nodup_singleton _, ?_⟩
    intro a ha b hb he
    obtain ⟨i, hi, rfl⟩ := List.mem_map.mp ha
    exact Nat.lt_irrefl _ (List.mem_singleton.mp (he ▸ hb) ▸ h.fresh i hi)
  · intro i hi
    rcases List.mem_append.mp hi with hi | hi
    · exact Nat.lt_succ_of_lt (h.fresh i hi)
    · rw [List.mem_singleton.mp hi]
      exact Nat.lt_succ_self _
  · intro i hi j hj hc hil hjl hpos
    rcases List.mem_append.mp hi with hi | hi
    · rcases List.mem_append.mp hj with hj | hj
      · exact h.spread i hi j hj hc hil hjl hpos
      · rw [List.mem_singleton.mp hj] at hc hpos
        exact absurd hpos (hold i hi hc)
    · rcases List.mem_append.mp hj with hj | hj
      · rw [List.mem_singleton.mp hi] at hc hpos
        exact absurd hpos.symm (hold j hj hc.symm)
      · rw [List.mem_singleton.mp hi, List.mem_singleton.mp hj]

/-- A reorder hands out the positions below the number of pending rows. -/
theorem reorder_positions (hkeys : (items.map QueueItemRow.id).Nodup) (ordered : List Uuid)
    (hj : j ∈ reorder now c ordered items) :
    ∃ i ∈ items, i.id = j.id ∧ i.chatId = j.chatId ∧ i.status = j.status ∧
      (¬(j.chatId = c ∧ isPending j = true) → i = j) ∧
      (j.chatId = c → isPending j = true → j.position < (waiting items c).length ∧
        (finalOrder (pendingIds items c) ordered)[j.position]? = some j.id) := by
  have hcurrent := nodup_pendingIds hkeys c
  have hfinal := @finalOrder_perm ordered _ hcurrent
  obtain ⟨i, hi, rfl⟩ := List.mem_map.mp ((reorder_place now c ordered items) ▸ hj)
  have hfields := place_fields now (finalOrder (pendingIds items c) ordered) i
  have hid : i.id = (place now (finalOrder (pendingIds items c) ordered) i).id := by rw [hfields]
  have hchat : i.chatId = (place now (finalOrder (pendingIds items c) ordered) i).chatId := by
    rw [hfields]
  have hstatus : i.status = (place now (finalOrder (pendingIds items c) ordered) i).status := by
    rw [hfields]
  refine ⟨i, hi, hid, hchat, hstatus, fun hn => ?_, fun hc hp => ?_⟩
  · refine (place_absent fun hin => ?_).symm
    obtain ⟨k, hk, hki⟩ := mem_pendingIds.mp (hfinal.mem_iff.mp hin)
    have hsame : k = i := row_eq hkeys (mem_waiting.mp hk).1 hi hki
    rw [hsame, mem_waiting] at hk
    apply hn
    rw [← hchat, isPending, ← hstatus]
    exact hk.2
  · have hpend : isPending i = true := by
      rw [isPending, hstatus]
      exact hp
    have hwait : i ∈ waiting items c := mem_waiting.mpr ⟨hi, hchat.trans hc, hpend⟩
    have hin := hfinal.mem_iff.mpr (mem_pendingIds.mpr ⟨i, hwait, rfl⟩)
    have hlen : (finalOrder (pendingIds items c) ordered).length = (waiting items c).length := by
      rw [hfinal.length_eq, pendingIds, pendingRows, List.length_map, List.length_insertionSort]
    rw [place_position hpend hin, ← hid]
    constructor
    · rw [← hlen]
      exact List.idxOf_lt_length_of_mem hin
    · rw [List.getElem?_eq_getElem (List.idxOf_lt_length_of_mem hin), List.getElem_idxOf]

theorem Placed.reorder (h : Placed t) (ordered : List Uuid)
    (hfree : ∀ i ∈ t.items, i.chatId = c → isRunning i = true → (waiting t.items c).length ≤ i.position) :
    Placed (t.setItems (reorder now c ordered t.items)) := by
  have hrun : ∀ j, isLive j = true → isPending j ≠ true → isRunning j = true := by
    intro j hl hp
    rw [isLive, Bool.or_eq_true] at hl
    exact hl.resolve_left hp
  -- A live row of the chat is either pending, and then below the bound, or as it was, above it.
  have hmixed : ∀ i ∈ QueueRepo.reorder now c ordered t.items,
      ∀ j ∈ QueueRepo.reorder now c ordered t.items, i.chatId = c → j.chatId = c →
      isPending i = true → isPending j ≠ true → isLive j = true → i.position ≠ j.position := by
    intro i hi j hj hic hjc hip hjp hjl
    obtain ⟨-, -, -, -, -, -, hlow⟩ := reorder_positions h.keys ordered hi
    obtain ⟨j₀, hj₀, -, -, -, hsame, -⟩ := reorder_positions h.keys ordered hj
    have hj' : j ∈ t.items := hsame (fun hn => hjp hn.2) ▸ hj₀
    have hhigh := hfree j hj' hjc (hrun j hjl hjp)
    have hless := (hlow hic hip).1
    omega
  refine ⟨?_, ?_, ?_⟩
  · have hids : (QueueRepo.reorder now c ordered t.items).map QueueItemRow.id =
        t.items.map QueueItemRow.id := by
      rw [reorder_place, List.map_map]
      exact List.map_congr_left fun i _ => place_id now _ i
    exact hids ▸ h.keys
  · intro j hj
    obtain ⟨i, hi, hid, -⟩ := reorder_positions h.keys ordered hj
    exact hid ▸ h.fresh i hi
  · intro i hi j hj hc hil hjl hpos
    obtain ⟨i₀, hi₀, -, -, -, hisame, hinew⟩ := reorder_positions h.keys ordered hi
    obtain ⟨j₀, hj₀, -, -, -, hjsame, hjnew⟩ := reorder_positions h.keys ordered hj
    by_cases hic : i.chatId = c
    · have hjc : j.chatId = c := hc ▸ hic
      by_cases hip : isPending i = true
      · by_cases hjp : isPending j = true
        · have hi' := (hinew hic hip).2
          have hj' := (hjnew hjc hjp).2
          rw [hpos, hj'] at hi'
          exact (Option.some.inj hi').symm
        · exact absurd hpos (hmixed i hi j hj hic hjc hip hjp hjl)
      · by_cases hjp : isPending j = true
        · exact absurd hpos.symm (hmixed j hj i hi hjc hic hjp hip hil)
        · have hi' := hisame fun hn => hip hn.2
          have hj' := hjsame fun hn => hjp hn.2
          exact h.spread i (hi' ▸ hi₀) j (hj' ▸ hj₀) hc hil hjl hpos
    · have hjc : j.chatId ≠ c := hc ▸ hic
      have hi' := hisame fun hn => hic hn.1
      have hj' := hjsame fun hn => hjc hn.1
      exact h.spread i (hi' ▸ hi₀) j (hj' ▸ hj₀) hc hil hjl hpos

theorem Placed.step (h : Placed t) {e : Statement × Nat} (hg : Untaken t e) {t' : Table}
    (hstep : t.step e = some t') : Placed t' := by
  obtain ⟨statement, now⟩ := e
  cases statement with
  | maxPosition c body =>
    cases hstep
    exact ⟨h.keys, h.fresh, h.spread⟩
  | insertItem n =>
    obtain ⟨e, he, rfl⟩ := Option.map_eq_some_iff.mp hstep
    exact h.insert e.body _ (hg e he)
  | popNextPending c =>
    cases hstep
    exact h.keep (.pop h.keys fun _ hr => headPending_mem hr)
  | popSpecificPending c id =>
    cases hstep
    refine h.keep (.pop h.keys fun r hr => ⟨List.mem_of_find?_eq_some hr, ?_⟩)
    have hfound := List.find?_some hr
    simp only [decide_eq_true_eq] at hfound
    exact hfound.2.2
  | markDone id =>
    cases hstep
    exact h.keep (.filter _ _)
  | resetToPending id =>
    cases hstep
    exact h.keep (.setStatus fun i _ _ hr => live_running hr)
  | cancel id =>
    cases hstep
    exact h.keep (.filter _ _)
  | updateBody id body =>
    cases hstep
    refine h.keep (.map fun i _ => ?_)
    split
    · exact ⟨rfl, rfl, rfl, fun hl => hl⟩
    · exact .refl i
  | reorder c ordered =>
    cases hstep
    exact h.reorder ordered hg
  | recoverStaleRunning =>
    cases hstep
    refine h.keep (.map fun i _ => ?_)
    split
    · rename_i hr
      exact ⟨rfl, rfl, rfl, fun _ => live_running hr⟩
    · exact .refl i

end

/-- As long as no position is handed out twice, the live rows of every chat have positions of their
own, and these alone say in which order they are drained. -/
theorem positions_distinct {t : Table} (h : Table.machine.Reaches Untaken Table.empty t) (c : Uuid) :
    Spread t.items ∧ (pendingRows t.items c).Pairwise (fun i j => i.position < j.position) := by
  have hplaced : Placed t := by
    apply h.keeps ⟨List.nodup_nil, fun _ hi => (nomatch hi), fun _ hi => (nomatch hi)⟩
    intro s e s' hs hg he
    exact hs.step hg he
  refine ⟨hplaced.spread, ?_⟩
  have hperm : (pendingRows t.items c).Perm (waiting t.items c) := List.perm_insertionSort _ _
  have hids : (pendingRows t.items c).Pairwise (fun i j => i.id ≠ j.id) :=
    List.pairwise_map.mp (nodup_pendingIds hplaced.keys c)
  refine ((List.pairwise_insertionSort Before _).and hids).imp_of_mem ?_
  rintro i j hi hj ⟨hbefore, hne⟩
  obtain ⟨hi, hic, hip⟩ := mem_waiting.mp (hperm.mem_iff.mp hi)
  obtain ⟨hj, hjc, hjp⟩ := mem_waiting.mp (hperm.mem_iff.mp hj)
  have hdiff : i.position ≠ j.position := fun hpos =>
    hne (hplaced.spread i hi j hj (hic.trans hjc.symm) (live_pending hip) (live_pending hjp) hpos)
  unfold Before at hbefore
  omega

/-- Two items of chat 1 are enqueued one after the other. -/
def twoEnqueued : List (Statement × Nat) :=
  [(.maxPosition 1 ['a'], 0), (.insertItem 0, 0), (.maxPosition 1 ['b'], 0), (.insertItem 0, 0)]

theorem positions_distinct_reset : ∃ t,
    Table.machine.play Untaken Table.empty (twoEnqueued ++ [(.popSpecificPending 1 1, 0),
      (.reorder 1 [0], 0), (.resetToPending 1, 0)]) = some t ∧
      Spread t.items ∧ (pendingRows t.items 1).Pairwise (fun i j => i.position < j.position) := by
  have hrun : (Table.machine.play Untaken Table.empty (twoEnqueued ++ [(.popSpecificPending 1 1, 0),
      (.reorder 1 [0], 0), (.resetToPending 1, 0)])).isSome := by decide
  obtain ⟨t, ht⟩ := Option.isSome_iff_exists.mp hrun
  exact ⟨t, ht, positions_distinct (Machine.play_reaches ht) 1⟩

/-- A reorder puts the second item at the position that the first, now Running, has kept. -/
theorem position_taken_twice :
    ¬ ∀ t, Table.machine.Reaches Machine.anyEvent Table.empty t → Spread t.items := by
  intro hclaim
  have hrun : (Table.machine.play Machine.anyEvent Table.empty (twoEnqueued ++
      [(.popNextPending 1, 0), (.reorder 1 [1], 0)])).map (fun t => decide (Spread t.items)) =
        some false := by decide
  obtain ⟨t, ht, hfalse⟩ := Option.map_eq_some_iff.mp hrun
  exact of_decide_eq_false hfalse (hclaim t (Machine.play_reaches ht))

end AgentGrove.QueueRepo
