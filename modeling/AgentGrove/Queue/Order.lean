import AgentGrove.Coop.Ranking
import AgentGrove.Model.Store
import Mathlib.Data.List.Nodup

namespace AgentGrove

section Items

variable {items : List QueueItemRow} {guard : QueueItemRow → Bool} {status : QueueStatus}
  {now : Nat} {id : Uuid} {i j : QueueItemRow}

theorem setStatus_ids : (QueueRepo.setStatus guard status now id items).map QueueItemRow.id =
    items.map QueueItemRow.id := by
  simp only [QueueRepo.setStatus, List.map_map]
  apply List.map_congr_left
  intro i _
  simp only [Function.comp]
  split
  · rfl
  · rfl

theorem setStatus_stay (h : i ∈ items) (hne : i.id ≠ id) :
    i ∈ QueueRepo.setStatus guard status now id items := by
  apply List.mem_map.mpr
  exact ⟨i, h, if_neg fun hc => hne hc.1⟩

theorem setStatus_hit (h : i ∈ items) (hid : i.id = id) (hg : guard i = true) :
    { i with status := status, updatedAt := now } ∈
      QueueRepo.setStatus guard status now id items := by
  apply List.mem_map.mpr
  exact ⟨i, h, if_pos ⟨hid, hg⟩⟩

theorem setStatus_cases (h : j ∈ QueueRepo.setStatus guard status now id items) :
    j ∈ items ∧ (j.id = id → guard j = false) ∨
      ∃ i ∈ items, i.id = id ∧ guard i = true ∧ j = { i with status := status, updatedAt := now } := by
  obtain ⟨i, hi, rfl⟩ := List.mem_map.mp h
  by_cases hc : i.id = id ∧ guard i = true
  · rw [if_pos hc]
    exact .inr ⟨i, hi, hc.1, hc.2, rfl⟩
  · rw [if_neg hc]
    refine .inl ⟨hi, fun hid => ?_⟩
    simpa using fun hg => hc ⟨hid, hg⟩

theorem markDone_cases : j ∈ QueueRepo.markDone id items ↔
    j ∈ items ∧ ¬ (j.id = id ∧ QueueRepo.isRunning j = true) := by
  simp only [QueueRepo.markDone, List.mem_filter, Bool.not_eq_eq_eq_not, Bool.not_true,
    decide_eq_false_iff_not]

theorem row_eq (hd : (items.map QueueItemRow.id).Nodup) (hi : i ∈ items) (hj : j ∈ items)
    (h : i.id = j.id) : i = j :=
  List.inj_on_of_nodup_map hd hi hj h

end Items

end AgentGrove

namespace AgentGrove.QueueRepo

open Coop

/-- The pending rows of a chat as the table has them. -/
def waiting (items : List QueueItemRow) (c : Uuid) : List QueueItemRow :=
  items.filter (fun i => i.chatId = c ∧ isPending i)

/-- The pending rows of a chat in the order in which they are read. -/
def pendingRows (items : List QueueItemRow) (c : Uuid) : List QueueItemRow :=
  (waiting items c).insertionSort Before

def pendingIds (items : List QueueItemRow) (c : Uuid) : List Uuid :=
  (pendingRows items c).map QueueItemRow.id

/-- Pop the head of a chat's queue once for each clock reading, or until it is empty. -/
def popAll (c : Uuid) : List Nat → List QueueItemRow → List Uuid × List QueueItemRow
  | [], items => ([], items)
  | now :: nows, items =>
    match popNextPending now c items with
    | (none, items) => ([], items)
    | (some i, items) => (i.id :: (popAll c nows items).1, (popAll c nows items).2)

/-- The order a request asks for: what it lists by first occurrence, then the rest as it was. -/
def Requested (ordered old : List Uuid) (a b : Uuid) : Prop :=
  ordered.idxOf a < ordered.idxOf b ∨
    a ∉ ordered ∧ b ∉ ordered ∧ old.idxOf a < old.idxOf b

/-- What a reorder may do to a row: a pending one of the chat gets another position. -/
def Moved (c : Uuid) (i i' : QueueItemRow) : Prop :=
  i' = { i with position := i'.position, updatedAt := i'.updatedAt } ∧
    (¬(i.chatId = c ∧ isPending i) → i' = i)

/-- The pending rows of a chat are these, each at a place of its own. -/
structure Lined (items : List QueueItemRow) (c : Uuid) (rows : List QueueItemRow) : Prop where
  perm : (waiting items c).Perm rows
  strict : rows.Pairwise (fun a b => a.position < b.position)

instance : Std.Total Before where
  total a b := by
    unfold Before
    omega

instance : IsTrans QueueItemRow Before where
  trans a b d := by
    unfold Before
    omega

section

variable {items rows : List QueueItemRow} {c : Uuid} {i r : QueueItemRow} {id : Uuid}

theorem headPending_eq (items : List QueueItemRow) (c : Uuid) :
    headPending items c = (pendingRows items c).head? := rfl

theorem mem_waiting : i ∈ waiting items c ↔ i ∈ items ∧ i.chatId = c ∧ isPending i = true := by
  simp [waiting]

/-- Where positions differ they alone decide the order. -/
theorem Lined.sorted (h : Lined items c rows) : pendingRows items c = rows := by
  refine insertionSort_strict (fun a b hlt => ?_) h.perm h.strict
  unfold Before
  omega

theorem Lined.ids (h : Lined items c rows) : pendingIds items c = rows.map QueueItemRow.id := by
  rw [pendingIds, h.sorted]

/-- Marking a row Running takes it out of the line. -/
theorem waiting_setStatus (now : Nat) (id : Uuid) :
    waiting (setStatus (fun _ => true) .running now id items) c =
      (waiting items c).filter (fun i => i.id ≠ id) := by
  have hkept : ∀ j : QueueItemRow, j.id ≠ id →
      (if j.id = id ∧ (fun _ : QueueItemRow => true) j = true then
        { j with status := .running, updatedAt := now } else j) = j := by
    intro j hj
    simp [hj]
  unfold waiting setStatus
  rw [List.filter_map, List.filter_filter]
  have hcond : ∀ j ∈ items, ((fun i : QueueItemRow => decide (i.chatId = c ∧ isPending i)) ∘ fun j =>
      if j.id = id ∧ (fun _ : QueueItemRow => true) j = true then
        { j with status := .running, updatedAt := now } else j) j =
      (decide (j.id ≠ id) && decide (j.chatId = c ∧ isPending j)) := by
    intro j _
    by_cases hj : j.id = id
    · simp [hj, isPending]
    · simp [hj]
  rw [List.filter_congr hcond]
  apply (List.map_congr_left _).trans (List.map_id _)
  intro j hj
  rw [List.mem_filter, Bool.and_eq_true, decide_eq_true_eq] at hj
  exact hkept j hj.2.1

/-- A pop takes the first of the line. -/
theorem Lined.pop (h : Lined items c (r :: rows)) (hkeys : (items.map QueueItemRow.id).Nodup)
    (now : Nat) :
    ∃ items', popNextPending now c items =
        (some { r with status := .running, updatedAt := now }, items') ∧
      Lined items' c rows ∧ items'.map QueueItemRow.id = items.map QueueItemRow.id := by
  have hhead : headPending items c = some r := by
    rw [headPending_eq, h.sorted]
    rfl
  refine ⟨setStatus (fun _ => true) .running now r.id items, ?_, ⟨?_, ?_⟩, setStatus_ids⟩
  · rw [popNextPending, hhead]
    rfl
  · rw [waiting_setStatus]
    have hnodup : ((r :: rows).map QueueItemRow.id).Nodup :=
      (h.perm.map QueueItemRow.id).nodup_iff.mp (hkeys.sublist (List.filter_sublist.map _))
    have hrest : (r :: rows).filter (fun i => i.id ≠ r.id) = rows := by
      rw [List.filter_cons_of_neg (by simp)]
      apply List.filter_eq_self.mpr
      intro i hi
      rw [List.map_cons, List.nodup_cons] at hnodup
      simp only [decide_eq_true_eq]
      exact fun he => hnodup.1 (he ▸ List.mem_map_of_mem hi)
    have hperm := h.perm.filter (fun i => i.id ≠ r.id)
    rwa [hrest] at hperm
  · exact (List.pairwise_cons.mp h.strict).2

theorem Lined.pop_empty (h : Lined items c []) (now : Nat) : popNextPending now c items = (none, items) := by
  have hhead : headPending items c = none := by
    rw [headPending_eq, h.sorted]
    rfl
  rw [popNextPending, hhead]
  rfl

/-- Pops take the line from its head on. -/
theorem Lined.popAll (h : Lined items c rows) (hkeys : (items.map QueueItemRow.id).Nodup)
    (nows : List Nat) : ((popAll c nows items).1 = (rows.map QueueItemRow.id).take nows.length) ∧
      Lined (QueueRepo.popAll c nows items).2 c (rows.drop nows.length) ∧
      (QueueRepo.popAll c nows items).2.map QueueItemRow.id = items.map QueueItemRow.id := by
  induction nows generalizing items rows with
  | nil => exact ⟨rfl, h, rfl⟩
  | cons now nows ih =>
    cases rows with
    | nil =>
      simp only [QueueRepo.popAll, h.pop_empty]
      exact ⟨rfl, h, trivial⟩
    | cons r rows =>
      obtain ⟨items', hpop, hline, hsame⟩ := h.pop hkeys now
      obtain ⟨hids, hrest, hkept⟩ := ih hline (hsame ▸ hkeys)
      simp only [QueueRepo.popAll, hpop, hids]
      exact ⟨rfl, hrest, hkept.trans hsame⟩

end

section Reorder

variable {items : List QueueItemRow} {c : Uuid} {ordered current : List Uuid} {i : QueueItemRow}
  {now pos : Nat}

theorem finalOrder_eq (current ordered : List Uuid) : finalOrder current ordered =
    firsts (ordered.filter (fun i => i ∈ current)) ++ current.filter (fun i => i ∉ ordered) := rfl

/-- The final order has the pending ids, no more and no fewer. -/
theorem finalOrder_perm (h : current.Nodup) : (finalOrder current ordered).Perm current := by
  have hnodup : (finalOrder current ordered).Nodup := by
    rw [finalOrder_eq, List.nodup_append]
    refine ⟨nodup_firsts _, h.filter _, ?_⟩
    rintro a ha _ hb rfl
    have hin : a ∈ ordered := List.mem_of_mem_filter (mem_firsts.mp ha)
    have hout := (List.mem_filter.mp hb).2
    simp [hin] at hout
  rw [List.perm_ext_iff_of_nodup hnodup h]
  intro a
  by_cases ha : a ∈ ordered
  · simp [finalOrder_eq, ha]
  · simp [finalOrder_eq, ha]

theorem finalOrder_requested (h : current.Nodup) :
    (finalOrder current ordered).Pairwise (Requested ordered current) := by
  rw [finalOrder_eq, List.pairwise_append]
  refine ⟨(pairwise_firsts _ ordered).imp .inl, ?_, fun a ha b hb => .inl ?_⟩
  · have hrest := (pairwise_idxOf h).filter (fun i => decide (i ∉ ordered))
    refine hrest.imp_of_mem fun ha hb hlt => .inr ⟨?_, ?_, hlt⟩
    · simpa using (List.mem_filter.mp ha).2
    · simpa using (List.mem_filter.mp hb).2
  · have hin : a ∈ ordered := List.mem_of_mem_filter (mem_firsts.mp ha)
    have hout : b ∉ ordered := by simpa using (List.mem_filter.mp hb).2
    rw [List.idxOf_eq_length hout]
    exact List.idxOf_lt_length_of_mem hin

/-- Where a final order puts a row. -/
def place (now : Nat) (final : List Uuid) (i : QueueItemRow) : QueueItemRow :=
  match final.idxOf? i.id with
  | none => i
  | some pos =>
    if isPending i ∧ i.position ≠ pos then { i with position := pos, updatedAt := now } else i

theorem reorder_place (now : Nat) (c : Uuid) (ordered : List Uuid) (items : List QueueItemRow) :
    reorder now c ordered items =
      items.map (place now (finalOrder (pendingIds items c) ordered)) := rfl

theorem place_absent {final : List Uuid} (h : i.id ∉ final) : place now final i = i := by
  unfold place
  rw [List.idxOf?_eq_none_iff.mpr h]

theorem place_fields (now : Nat) (final : List Uuid) (i : QueueItemRow) :
    place now final i = { i with
      position := (place now final i).position, updatedAt := (place now final i).updatedAt } := by
  unfold place
  split
  · rfl
  · split <;> rfl

theorem place_position {final : List Uuid} (hp : isPending i = true) (h : i.id ∈ final) :
    (place now final i).position = final.idxOf i.id := by
  unfold place
  rw [idxOf?_of_mem h]
  dsimp only
  split
  · rfl
  · rename_i hn
    by_contra hne
    exact hn ⟨hp, hne⟩

theorem place_id (now : Nat) (final : List Uuid) (i : QueueItemRow) :
    (place now final i).id = i.id := by
  rw [place_fields]

theorem mem_pendingIds {id : Uuid} :
    id ∈ pendingIds items c ↔ ∃ i ∈ waiting items c, i.id = id := by
  simp [pendingIds, pendingRows, List.mem_insertionSort]

theorem nodup_pendingIds (hkeys : (items.map QueueItemRow.id).Nodup) (c : Uuid) :
    (pendingIds items c).Nodup := by
  have hperm := (List.perm_insertionSort Before (waiting items c)).map QueueItemRow.id
  exact hperm.nodup_iff.mpr (hkeys.sublist (List.filter_sublist.map _))

/-- The rows that wait are the same ones in their new places. -/
theorem waiting_map_place (final : List Uuid) :
    waiting (items.map (place now final)) c = (waiting items c).map (place now final) := by
  unfold waiting
  rw [List.filter_map]
  congr 1
  apply List.filter_congr
  intro j _
  rw [Function.comp_apply, place_fields]
  rfl

/-- After a reorder the rows stand in line as the final order says. -/
theorem reorder_lined (hkeys : (items.map QueueItemRow.id).Nodup) (now : Nat) (c : Uuid)
    (ordered : List Uuid) : ∃ rows, Lined (reorder now c ordered items) c rows ∧
      rows.map QueueItemRow.id = finalOrder (pendingIds items c) ordered := by
  have hcurrent := nodup_pendingIds hkeys c
  have hfinal := @finalOrder_perm ordered _ hcurrent
  generalize hf : finalOrder (pendingIds items c) ordered = final at hfinal
  have hin : ∀ j ∈ waiting items c, j.id ∈ final := fun j hj =>
    hfinal.mem_iff.mpr (mem_pendingIds.mpr ⟨j, hj, rfl⟩)
  have hpos : ∀ j ∈ waiting items c, (place now final j).position = final.idxOf j.id := fun j hj =>
    place_position (mem_waiting.mp hj).2.2 (hin j hj)
  let rows := ((waiting items c).map (place now final)).insertionSort Before
  have hperm : rows.Perm ((waiting items c).map (place now final)) := List.perm_insertionSort _ _
  have hids : (rows.map QueueItemRow.id).Perm final := by
    have hsame : ((waiting items c).map (place now final)).map QueueItemRow.id =
        (waiting items c).map QueueItemRow.id := by
      rw [List.map_map]
      exact List.map_congr_left fun j _ => place_id now final j
    have hsorted := (List.perm_insertionSort Before (waiting items c)).map QueueItemRow.id
    exact (hperm.map _).trans (hsame ▸ hsorted.symm.trans hfinal.symm)
  have hplaced : ∀ j ∈ rows, j.position = final.idxOf j.id := by
    intro j hj
    obtain ⟨k, hk, rfl⟩ := List.mem_map.mp (hperm.mem_iff.mp hj)
    rw [hpos k hk, place_id]
  have hstrict : rows.Pairwise (fun a b => a.position < b.position) := by
    have hnodup : rows.Pairwise (fun a b => a.id ≠ b.id) :=
      List.pairwise_map.mp (hids.nodup_iff.mpr (hfinal.nodup_iff.mpr hcurrent))
    refine ((List.pairwise_insertionSort Before _).and hnodup).imp_of_mem ?_
    rintro a b ha hb ⟨hbefore, hne⟩
    have hdiff : a.position ≠ b.position := by
      rw [hplaced a ha, hplaced b hb]
      intro he
      exact hne ((List.idxOf_inj (hids.mem_iff.mp (List.mem_map_of_mem ha))).mp he)
    unfold Before at hbefore
    omega
  refine ⟨rows, ⟨?_, hstrict⟩, ?_⟩
  · rw [reorder_place, hf, waiting_map_place]
    exact hperm.symm
  · refine eq_of_strict (fun a b hab => Nat.lt_asymm hab) hids ?_
      (pairwise_idxOf (hfinal.nodup_iff.mpr hcurrent))
    refine List.pairwise_map.mpr (hstrict.imp_of_mem fun ha hb hlt => ?_)
    rwa [hplaced _ ha, hplaced _ hb] at hlt

theorem reorder_moved (hkeys : (items.map QueueItemRow.id).Nodup) (now : Nat) (c : Uuid)
    (ordered : List Uuid) : List.Forall₂ (Moved c) items (reorder now c ordered items) := by
  have hfinal := @finalOrder_perm ordered _ (nodup_pendingIds hkeys c)
  rw [reorder_place, List.forall₂_map_right_iff]
  apply List.forall₂_same.mpr
  refine fun i hi => ⟨place_fields now _ i, fun hn => ?_⟩
  apply place_absent
  intro hin
  obtain ⟨j, hj, hid⟩ := mem_pendingIds.mp (hfinal.mem_iff.mp hin)
  have hsame : j = i := row_eq hkeys (mem_waiting.mp hj).1 hi hid
  exact hn (hsame ▸ (mem_waiting.mp hj).2)

/-- One `UPDATE` of the loop that writes the new positions. -/
def placeRow (now : Nat) (items : List QueueItemRow) (x : Uuid × Nat) : List QueueItemRow :=
  items.map (fun i =>
    if i.id = x.1 ∧ isPending i ∧ i.position ≠ x.2 then { i with position := x.2, updatedAt := now }
    else i)

theorem foldl_placeRow {final : List Uuid} (hnodup : final.Nodup) (k : Nat) :
    (final.zipIdx k).foldl (placeRow now) items = items.map (fun i =>
      match final.idxOf? i.id with
      | none => i
      | some pos =>
        if isPending i ∧ i.position ≠ pos + k then { i with position := pos + k, updatedAt := now }
        else i) := by
  induction final generalizing k items with
  | nil => simp
  | cons id final ih =>
    obtain ⟨hid, hnodup⟩ := List.nodup_cons.mp hnodup
    rw [List.zipIdx_cons, List.foldl_cons, ih hnodup, placeRow, List.map_map]
    apply List.map_congr_left
    intro i _
    rw [Function.comp_apply, List.idxOf?_cons]
    by_cases hi : i.id = id
    · -- The update of this row; none of the later ones is for it.
      have hrow : (if i.id = id ∧ isPending i ∧ i.position ≠ k then
          { i with position := k, updatedAt := now } else i).id = id := by
        split <;> exact hi
      rw [List.idxOf?_eq_none_iff.mpr (hrow.symm ▸ hid)]
      simp [hi]
    · have hne : (id == i.id) = false := by simpa using Ne.symm hi
      simp only [hi, false_and, if_false, hne, Bool.false_eq_true]
      cases final.idxOf? i.id with
      | none => rfl
      | some pos => simp only [Option.map_some, Nat.add_assoc, Nat.add_comm 1 k]

/-- The loop of updates comes to one pass over the table. -/
theorem reorder_rows (hkeys : (items.map QueueItemRow.id).Nodup) (now : Nat) (c : Uuid)
    (ordered : List Uuid) : reorder now c ordered items =
      (finalOrder (pendingIds items c) ordered).zipIdx.foldl (placeRow now) items := by
  have hfinal := @finalOrder_perm ordered _ (nodup_pendingIds hkeys c)
  exact (foldl_placeRow (hfinal.nodup_iff.mpr (nodup_pendingIds hkeys c)) 0).symm

end Reorder

section Enqueue

variable {items rows : List QueueItemRow} {c : Uuid}

theorem position_lt_next {i : QueueItemRow} (hi : i ∈ items) (hc : i.chatId = c) :
    i.position < nextPosition items c := by
  have hmem : i ∈ ofChat items c := List.mem_filter.mpr ⟨hi, decide_eq_true hc⟩
  unfold nextPosition
  generalize ofChat items c = l at hmem
  induction l with
  | nil => cases hmem
  | cons j l ih =>
    rw [List.foldr_cons]
    rcases List.mem_cons.mp hmem with rfl | hmem
    · omega
    · have := ih hmem
      omega

/-- A new item goes to the end of the line. -/
theorem Lined.insert (h : Lined items c rows) (id now : Nat) (body : Text) :
    Lined (QueueRepo.insert id now c body (nextPosition items c) items) c
      (rows ++ [{ id := id, chatId := c, body := body, status := .pending
                  position := nextPosition items c, createdAt := now, updatedAt := now }]) := by
  constructor
  · rw [waiting, QueueRepo.insert, List.filter_append]
    apply h.perm.append
    simp [isPending]
  · refine List.pairwise_append.mpr ⟨h.strict, List.pairwise_singleton _ _, fun r hr q hq => ?_⟩
    rw [List.mem_singleton.mp hq]
    obtain ⟨hi, hc, -⟩ := mem_waiting.mp (h.perm.mem_iff.mpr hr)
    exact position_lt_next hi hc

end Enqueue

/-- A reorder changes nothing but the places of the chat's pending rows. These are the rows that
were pending before, in the order asked for, and so they are popped, and an item
enqueued at any later point comes last. -/
theorem reorder_honours {items : List QueueItemRow} (hkeys : (items.map QueueItemRow.id).Nodup)
    (now : Nat) (c : Uuid) (ordered : List Uuid) :
    let items' := reorder now c ordered items
    List.Forall₂ (Moved c) items items' ∧
      (pendingIds items' c).Perm (pendingIds items c) ∧
      (pendingIds items' c).Pairwise (Requested ordered (pendingIds items c)) ∧
      (∀ nows, (popAll c nows items').1 = (pendingIds items' c).take nows.length) ∧
      ∀ nows nows' id now' body, id ∉ items.map QueueItemRow.id →
        let rest := (popAll c nows items').2
        (popAll c nows' (QueueRepo.insert id now' c body (nextPosition rest c) rest)).1 =
          ((pendingIds items' c).drop nows.length ++ [id]).take nows'.length := by
  intro items'
  obtain ⟨rows, hrows, hids⟩ := reorder_lined hkeys now c ordered
  have hline : pendingIds items' c = rows.map QueueItemRow.id := hrows.ids
  have hkept : items'.map QueueItemRow.id = items.map QueueItemRow.id := by
    rw [show items' = _ from reorder_place now c ordered items, List.map_map]
    exact List.map_congr_left fun i _ => place_id now _ i
  refine ⟨reorder_moved hkeys now c ordered, ?_, ?_, fun nows => ?_, ?_⟩
  · rw [hline, hids]
    exact finalOrder_perm (nodup_pendingIds hkeys c)
  · rw [hline, hids]
    exact finalOrder_requested (nodup_pendingIds hkeys c)
  · rw [hline]
    exact (hrows.popAll (hkept ▸ hkeys) nows).1
  · intro nows nows' id now' body hid rest
    obtain ⟨-, hrest, hsame⟩ := hrows.popAll (hkept ▸ hkeys) nows
    have hkeys' : ((QueueRepo.insert id now' c body (nextPosition rest c) rest).map
        QueueItemRow.id).Nodup := by
      have hrestkeys : rest.map QueueItemRow.id = items.map QueueItemRow.id := hsame.trans hkept
      rw [QueueRepo.insert, List.map_append, hrestkeys, List.nodup_append]
      refine ⟨hkeys, List.nodup_singleton _, ?_⟩
      rintro a ha b hb rfl
      have hab : a = id := List.mem_singleton.mp hb
      exact hid (hab ▸ ha)
    rw [((hrest.insert id now' body).popAll hkeys' nows').1, hline, List.map_append, List.map_drop]
    rfl

/-- A row of chat 1. -/
def rowAt (id : Uuid) (status : QueueStatus) (position : Nat) : QueueItemRow :=
  { id := id, chatId := 1, body := ['a'], status := status, position := position, createdAt := 0
    updatedAt := 0 }

def oneRunning : List QueueItemRow := [rowAt 2 .running 0, rowAt 3 .pending 1, rowAt 4 .pending 2]

theorem reorder_honours_one_running :
    (popAll 1 [0, 0] (reorder 0 1 [4, 9, 4, 2] oneRunning)).1 = [4, 3] := by
  have hkeys : (oneRunning.map QueueItemRow.id).Nodup := by decide
  have horder : pendingIds (reorder 0 1 [4, 9, 4, 2] oneRunning) 1 = [4, 3] := by decide
  have hpops := (reorder_honours hkeys 0 1 [4, 9, 4, 2]).2.2.2.1 [0, 0]
  rwa [horder] at hpops

end AgentGrove.QueueRepo
