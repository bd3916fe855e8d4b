import AgentGrove.Coop.Census
import AgentGrove.Queue.Order
import AgentGrove.Transfer.Walk

namespace AgentGrove

open Coop

/-- What every popped row can rely on while a task has it in hand: it is in the
queue, marked Running, and nobody else has it. -/
structure Carried (s : AppState) (hands : List Hand) : Prop where
  distinct : (s.store.items.map QueueItemRow.id).Nodup
  fresh : ∀ i ∈ s.store.items, i.id < s.nextId
  kept : ∀ h ∈ hands, ∀ row, h.row = some row →
    row ∈ s.store.items ∧ QueueRepo.isRunning row = true
  once : ∀ row, hands.countP (fun h => h.row = some row) ≤ 1

namespace Carried

variable {s s' : AppState} {hands : List Hand} {n : Nat} {h h' : Hand} {row : QueueItemRow}
  {i : QueueItemRow} {items : List QueueItemRow}

theorem count_set (hi : hands[n]? = some h) (x : Hand) (row : QueueItemRow) :
    (hands.set n x).countP (fun h => h.row = some row) + (decide (h.row = some row)).toNat =
      hands.countP (fun h => h.row = some row) + (decide (x.row = some row)).toNat :=
  countP_set_add hi _ x

/-- Moves that leave the queue alone and bring no row into anyone's hands. -/
theorem keep (hv : Carried s hands) (hi : hands[n]? = some h)
    (hitems : s'.store.items = s.store.items) (hn : s.nextId ≤ s'.nextId)
    (hrow : ∀ row, h'.row = some row → h.row = some row) : Carried s' (hands.set n h') := by
  constructor
  · rw [hitems]
    exact hv.distinct
  · intro i hm
    rw [hitems] at hm
    exact Nat.lt_of_lt_of_le (hv.fresh i hm) hn
  · intro x hx row hr
    rw [hitems]
    rcases mem_set hx with rfl | hx
    · exact hv.kept h (mem_of_get hi) row (hrow row hr)
    · exact hv.kept x hx row hr
  · intro row
    have hset := count_set hi h' row
    have hone := hv.once row
    by_cases hr : h'.row = some row
    · simp only [hr, hrow row hr, decide_true] at hset
      omega
    · simp only [hr, decide_false, Bool.toNat_false] at hset
      omega

/-- Nobody but the task at `n` has a row under an id that its own row has. -/
theorem others (hv : Carried s hands) (hi : hands[n]? = some h) (hr : h.row = some row)
    {x : Hand} (hx : x ∈ hands.set n .empty) {row' : QueueItemRow} (hr' : x.row = some row') :
    row'.id ≠ row.id := by
  intro hid
  have hmem : x ∈ hands := by
    rcases mem_set hx with rfl | hx
    · cases hr'
    · exact hx
  have heq := row_eq hv.distinct (hv.kept x hmem row' hr').1 (hv.kept h (mem_of_get hi) row hr).1 hid
  subst heq
  have hset := count_set hi .empty row'
  have hone := hv.once row'
  have hpos : 0 < (hands.set n .empty).countP (fun h => h.row = some row') :=
    List.countP_pos_iff.mpr ⟨x, hx, by simpa using hr'⟩
  simp only [hr, decide_true, Bool.toNat_true, Hand.row_empty, reduceCtorEq, decide_false,
    Bool.toNat_false] at hset
  omega

/-- A change to the rows under one id, by the only task that may have such a row
in hand. -/
theorem change {id : Uuid} (hv : Carried s hands) (hi : hands[n]? = some h)
    (hdistinct : (items.map QueueItemRow.id).Nodup)
    (hfrom : ∀ j ∈ items, ∃ k ∈ s.store.items, k.id = j.id)
    (hstay : ∀ j ∈ s.store.items, j.id ≠ id → j ∈ items)
    (hothers : ∀ x ∈ hands.set n .empty, ∀ row, x.row = some row → row.id ≠ id)
    (hnew : ∀ row, h'.row = some row →
      row ∈ items ∧ QueueRepo.isRunning row = true ∧ row.id = id) :
    Carried (setItems items s) (hands.set n h') := by
  constructor
  · exact hdistinct
  · intro j hj
    obtain ⟨k, hk, hid⟩ := hfrom j hj
    exact hid ▸ hv.fresh k hk
  · intro x hx row hr
    rcases mem_set_or hi hx with rfl | hx
    · exact ⟨(hnew row hr).1, (hnew row hr).2.1⟩
    · have hmem : x ∈ hands := by
        rcases mem_set (hx .empty) with rfl | hx
        · cases hr
        · exact hx
      obtain ⟨hin, hrun⟩ := hv.kept x hmem row hr
      exact ⟨hstay row hin (hothers x (hx .empty) row hr), hrun⟩
  · intro row
    have hset := count_set hi h' row
    have hempty := count_set hi .empty row
    have hone := hv.once row
    simp only [Hand.row_empty, reduceCtorEq, decide_false, Bool.toNat_false] at hempty
    by_cases hr : h'.row = some row
    · have hzero : (hands.set n .empty).countP (fun h => h.row = some row) = 0 := by
        apply List.countP_eq_zero.mpr
        intro x hx he
        exact hothers x hx row (by simpa using he) (hnew row hr).2.2
      simp only [hr, decide_true, Bool.toNat_true] at hset
      omega
    · simp only [hr, decide_false, Bool.toNat_false] at hset
      omega

theorem queue (hv : Carried s hands) (hi : hands[n]? = some h) (hid : row.id = s.nextId)
    (hrow : h'.row = none) :
    Carried { setItems (s.store.items ++ [row]) s with nextId := s.nextId + 1 }
      (hands.set n h') := by
  have hkeep : Carried s (hands.set n h') := hv.keep hi rfl (Nat.le_refl _) (by simp [hrow])
  constructor
  · show ((s.store.items ++ [row]).map QueueItemRow.id).Nodup
    rw [List.map_append, List.map_singleton]
    apply hv.distinct.append (List.nodup_singleton _)
    intro id hm hs
    obtain ⟨i, him, hi'⟩ := List.mem_map.mp hm
    have hlt := hv.fresh i him
    rw [hi', List.mem_singleton.mp hs, hid] at hlt
    exact Nat.lt_irrefl _ hlt
  · intro i hm
    rcases List.mem_append.mp hm with hm | hm
    · exact Nat.lt_succ_of_lt (hv.fresh i hm)
    · rw [List.mem_singleton.mp hm, hid]
      exact Nat.lt_succ_self _
  · intro x hx r hr
    obtain ⟨hin, hrun⟩ := hkeep.kept x hx r hr
    exact ⟨List.mem_append_left _ hin, hrun⟩
  · exact hkeep.once

theorem pop {k : Carrier} {now : Nat} (hv : Carried s hands) (hi : hands[n]? = some h)
    (him : i ∈ s.store.items) (hp : QueueRepo.isPending i = true) :
    Carried (setItems (QueueRepo.setStatus (fun _ => true) .running now i.id s.store.items) s)
      (hands.set n (.carrying k (running now i))) := by
  apply hv.change hi
  · rw [setStatus_ids]
    exact hv.distinct
  · intro j hj
    rcases setStatus_cases hj with ⟨hj, -⟩ | ⟨k, hk, -, -, rfl⟩
    · exact ⟨j, hj, rfl⟩
    · exact ⟨k, hk, rfl⟩
  · exact fun j hj hne => setStatus_stay hj hne
  · intro x hx row hr hid
    have hmem : x ∈ hands := by
      rcases mem_set hx with rfl | hx
      · cases hr
      · exact hx
    obtain ⟨hin, hrun⟩ := hv.kept x hmem row hr
    rw [row_eq hv.distinct hin him hid, not_running hp] at hrun
    cases hrun
  · intro row hr
    cases hr
    exact ⟨setStatus_hit him rfl rfl, rfl, rfl⟩

theorem giveBack {now : Nat} (hv : Carried s hands) (hi : hands[n]? = some h)
    (hr : h.row = some row) (hrow : h'.row = none) :
    Carried (setItems (QueueRepo.resetToPending now row.id s.store.items) s) (hands.set n h') := by
  apply hv.change hi
  · unfold QueueRepo.resetToPending
    rw [setStatus_ids]
    exact hv.distinct
  · intro j hj
    rcases setStatus_cases hj with ⟨hj, -⟩ | ⟨k, hk, -, -, rfl⟩
    · exact ⟨j, hj, rfl⟩
    · exact ⟨k, hk, rfl⟩
  · exact fun j hj hne => setStatus_stay hj hne
  · exact fun x hx row' hr' => hv.others hi hr hx hr'
  · simp [hrow]

theorem finish (hv : Carried s hands) (hi : hands[n]? = some h) (hr : h.row = some row)
    (hrow : h'.row = none) :
    Carried (setItems (QueueRepo.markDone row.id s.store.items) s) (hands.set n h') := by
  apply hv.change hi
  · exact (List.filter_sublist.map _).nodup hv.distinct
  · exact fun j hj => ⟨j, (markDone_cases.mp hj).1, rfl⟩
  · exact fun j hj hne => markDone_cases.mpr ⟨hj, fun hc => hne hc.1⟩
  · exact fun x hx row' hr' => hv.others hi hr hx hr'
  · simp [hrow]

theorem split (hv : Carried s hands) (hi : hands[n]? = some h) :
    Carried s (hands.set n h ++ [.empty]) := by
  have hkeep : Carried s (hands.set n h) := hv.keep hi rfl (Nat.le_refl _) fun _ => id
  constructor
  · exact hv.distinct
  · exact hv.fresh
  · intro x hx row hr
    rcases List.mem_append.mp hx with hx | hx
    · exact hkeep.kept x hx row hr
    · rw [List.mem_singleton.mp hx] at hr
      cases hr
  · intro row
    rw [countP_concat]
    have := hkeep.once row
    simpa [Hand.row] using this

theorem arrive (hv : Carried s hands) (hrow : h.row = none) : Carried s (hands ++ [h]) := by
  constructor
  · exact hv.distinct
  · exact hv.fresh
  · intro x hx row hr
    rcases List.mem_append.mp hx with hx | hx
    · exact hv.kept x hx row hr
    · rw [List.mem_singleton.mp hx, hrow] at hr
      cases hr
  · intro row
    rw [countP_concat]
    have := hv.once row
    simpa [hrow] using this

/-- Edits may drop, move or rewrite pending rows only. -/
theorem edit {x : Site} {w : Choice} (hv : Carried s hands) (hi : hands[n]? = some h) (hs : Edits x w s s') :
    Carried s' (hands.set n h) := by
  have hkeep : Carried s (hands.set n h) := hv.keep hi rfl (Nat.le_refl _) fun _ => id
  constructor
  · exact hs.ids.nodup hv.distinct
  · intro i hm
    have hid := hs.ids.subset (List.mem_map_of_mem hm)
    obtain ⟨j, hj, he⟩ := List.mem_map.mp hid
    exact he ▸ Nat.lt_of_lt_of_le (hv.fresh j hj) hs.nextId
  · intro x hx row hr
    obtain ⟨hin, hrun⟩ := hkeep.kept x hx row hr
    exact ⟨(hs.running row hrun).mpr hin, hrun⟩
  · exact hkeep.once

/-- Nothing a task may do with its hand breaks this. -/
theorem passes {e : Option (Site × Choice)} (hv : Carried s hands) (hi : hands[n]? = some h)
    (hm : Passes e h s h' s') : Carried s' (hands.set n h') := by
  have hle := Nat.le_refl s.nextId
  cases hm with
  | still hs => exact hv.keep hi hs.items (Nat.le_of_eq hs.nextId.symm) fun _ => id
  | answer ha => exact hv.keep hi rfl hle (by simp [Hand.row])
  | queue hw hid hc hb hp => exact hv.queue hi hid rfl
  | send hw hid hc hb => exact hv.keep hi rfl (Nat.le_succ _) (by simp [Hand.row])
  | refuse => exact hv.keep hi rfl hle (by simp [Hand.row])
  | spoil hwhy hs =>
    exact hv.keep hi hs.items (Nat.le_of_eq hs.nextId.symm) (by simp [Hand.row])
  | pop hh him hp => exact hv.pop hi him hp
  | number hn => exact hv.keep hi rfl hle (by simp [Hand.row])
  | copy hh hw hid hc hb =>
    rcases hh with ⟨rfl, rfl⟩ | ⟨rfl, n, rfl⟩
    · exact hv.keep hi rfl (Nat.le_succ _) fun _ => id
    · exact hv.keep hi rfl (Nat.le_succ _) fun _ => id
  | botch hfn hwhy hs => exact hv.keep hi hs.items (Nat.le_of_eq hs.nextId.symm) fun _ => id
  | giveBack => exact hv.giveBack hi rfl rfl
  | lose hw => exact hv.keep hi rfl hle (by simp [Hand.row])
  | finish =>
    rename_i k row
    cases k
    · exact hv.finish hi rfl rfl
    · exact hv.finish hi rfl rfl
  | forget hw =>
    rename_i k row
    apply hv.keep hi rfl hle
    cases k
    · simp [Carrier.after, Hand.row]
    · simp [Carrier.after, Hand.row]
  | edit he => exact hv.edit hi he
  | strand hfn hwhy hs =>
    exact hv.keep hi hs.items (Nat.le_of_eq hs.nextId.symm) (by simp [Hand.row])
  | abandon hfn hh hwhy hs =>
    exact hv.keep hi hs.items (Nat.le_of_eq hs.nextId.symm) (by simp [Hand.row])

end Carried

theorem Request.hand_row (request : Request) : request.hand.row = none := by
  cases request <;> rfl

theorem carried_kept : transfer.Kept Carried where
  sees _ _ _ _ _ _ := trivial
  sync _ _ _ _ _ _ hv hi hm := hv.passes hi hm
  fork s hands n h tag x h' hv hi hf := by
    cases hf
    exact hv.split hi

end AgentGrove
