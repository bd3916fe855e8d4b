import AgentGrove.Model.QueueOps
import AgentGrove.Queue.Order

namespace AgentGrove

/-- The rows of all queues but one chat's. -/
def foreignOf (c : Uuid) (items : List QueueItemRow) : List QueueItemRow :=
  items.filter (fun i => i.chatId ≠ c)

/-- The other chats' queues are these, and no id of theirs belongs to this chat or is still free. -/
structure Fenced (c : Uuid) (rows : List QueueItemRow) (modes : Uuid → Option QueueMode)
    (s : AppState) : Prop where
  others : foreignOf c s.store.items = rows
  otherModes : ∀ d, d ≠ c → s.store.modes d = modes d
  own : ∀ i ∈ s.store.items, i.chatId = c → i.id ∉ rows.map QueueItemRow.id
  fresh : ∀ i ∈ rows, i.id < s.nextId

section Rows

variable {c d : Uuid} {rows items : List QueueItemRow} {modes : Uuid → Option QueueMode} {s s' : AppState}
  {i : QueueItemRow} {itemId : Uuid}

theorem mem_foreignOf : i ∈ foreignOf c items ↔ i ∈ items ∧ i.chatId ≠ c := by
  simp [foreignOf, List.mem_filter]

/-- What a queue shows of another chat. -/
theorem ofChat_foreign (h : d ≠ c) :
    QueueRepo.ofChat items d = (foreignOf c items).filter (fun i => i.chatId = d) := by
  unfold QueueRepo.ofChat foreignOf
  rw [List.filter_filter]
  refine List.filter_congr fun i _ => ?_
  by_cases hi : i.chatId = d
  · simp [hi, h]
  · simp [hi]

/-- Changes to rows in place that leave the other chats' alone. -/
theorem foreignOf_map {f : QueueItemRow → QueueItemRow} (hchat : ∀ i, (f i).chatId = i.chatId)
    (hf : ∀ i ∈ foreignOf c items, f i = i) : foreignOf c (items.map f) = foreignOf c items := by
  have hkeep : ((fun i : QueueItemRow => decide (i.chatId ≠ c)) ∘ f) = fun i => decide (i.chatId ≠ c) := by
    funext i
    simp only [Function.comp_apply, hchat]
  have hmap : foreignOf c (items.map f) = (foreignOf c items).map f := by
    unfold foreignOf
    rw [List.filter_map, hkeep]
  rw [hmap]
  exact (List.map_congr_left hf).trans (List.map_id _)

/-- Rows that go, none of them another chat's. -/
theorem foreignOf_filter {p : QueueItemRow → Bool} (hp : ∀ i ∈ foreignOf c items, p i = true) :
    foreignOf c (items.filter p) = foreignOf c items := by
  unfold foreignOf
  rw [List.filter_filter]
  refine List.filter_congr fun i hi => ?_
  by_cases hc : i.chatId = c
  · simp [hc]
  · simp [hc, hp i (mem_foreignOf.mpr ⟨hi, hc⟩)]

namespace Fenced

/-- Code that touches no queue. -/
theorem keep (h : Fenced c rows modes s) (hi : s'.store.items = s.store.items)
    (hm : s'.store.modes = s.store.modes) (hn : s.nextId ≤ s'.nextId) : Fenced c rows modes s' where
  others := hi ▸ h.others
  otherModes := hm ▸ h.otherModes
  own := hi ▸ h.own
  fresh i hmem := Nat.lt_of_lt_of_le (h.fresh i hmem) hn

theorem setMode (h : Fenced c rows modes s) (mode : Option QueueMode) : Fenced c rows modes
    { s with store := { s.store with modes := Function.update s.store.modes c mode } } where
  others := h.others
  otherModes d hd := (Function.update_of_ne hd _ _).trans (h.otherModes d hd)
  own := h.own
  fresh := h.fresh

theorem map (h : Fenced c rows modes s) {f : QueueItemRow → QueueItemRow} (hid : ∀ i, (f i).id = i.id)
    (hchat : ∀ i, (f i).chatId = i.chatId) (hf : ∀ i ∈ rows, f i = i) :
    Fenced c rows modes (setItems (s.store.items.map f) s) where
  others := by
    refine (foreignOf_map hchat ?_).trans h.others
    rw [h.others]
    exact hf
  otherModes := h.otherModes
  own i hi hc := by
    obtain ⟨j, hj, rfl⟩ := List.mem_map.mp hi
    rw [hid]
    exact h.own j hj ((hchat j).symm.trans hc)
  fresh := h.fresh

theorem filter (h : Fenced c rows modes s) {p : QueueItemRow → Bool} (hp : ∀ i ∈ rows, p i = true) :
    Fenced c rows modes (setItems (s.store.items.filter p) s) where
  others := by
    refine (foreignOf_filter ?_).trans h.others
    rw [h.others]
    exact hp
  otherModes := h.otherModes
  own i hi hc := h.own i (List.mem_of_mem_filter hi) hc
  fresh := h.fresh

theorem insert (h : Fenced c rows modes s) {now position : Nat} {body : Text} : Fenced c rows modes
    { setItems (QueueRepo.insert s.nextId now c body position s.store.items) s with
      nextId := s.nextId + 1 } where
  others := by
    have hnew : foreignOf c (QueueRepo.insert s.nextId now c body position s.store.items) =
        foreignOf c s.store.items := by
      simp [foreignOf, QueueRepo.insert]
    exact hnew.trans h.others
  otherModes := h.otherModes
  own i hi hc := by
    rcases List.mem_append.mp hi with hi | hi
    · exact h.own i hi hc
    · rw [List.mem_singleton.mp hi]
      intro hmem
      obtain ⟨j, hj, he⟩ := List.mem_map.mp hmem
      exact Nat.ne_of_lt (h.fresh j hj) he
  fresh i hi := Nat.lt_succ_of_lt (h.fresh i hi)

/-- An update by an id that is not another chat's. -/
theorem setStatus (h : Fenced c rows modes s) (hid : itemId ∉ rows.map QueueItemRow.id)
    (guard : QueueItemRow → Bool) (status : QueueStatus) (now : Nat) :
    Fenced c rows modes (setItems (QueueRepo.setStatus guard status now itemId s.store.items) s) := by
  refine h.map (fun i => ?_) (fun i => ?_) fun i hi => ?_
  · split <;> rfl
  · split <;> rfl
  · exact if_neg fun hc => hid (List.mem_map.mpr ⟨i, hi, hc.1⟩)

theorem markDone (h : Fenced c rows modes s) (hid : itemId ∉ rows.map QueueItemRow.id) :
    Fenced c rows modes (setItems (QueueRepo.markDone itemId s.store.items) s) := by
  refine h.filter fun i hi => ?_
  have hne : i.id ≠ itemId := fun he => hid (List.mem_map.mpr ⟨i, hi, he⟩)
  simp [hne]

/-- The row that a pop of this chat returns is this chat's. -/
theorem pop (h : Fenced c rows modes s) {row : Option QueueItemRow}
    (hrow : ∀ i, row = some i → i ∈ s.store.items ∧ i.chatId = c) (now : Nat) :
    Fenced c rows modes (setItems (QueueRepo.pop now s.store.items row).2 s) ∧
      ∀ i, (QueueRepo.pop now s.store.items row).1 = some i → i.id ∉ rows.map QueueItemRow.id := by
  cases row with
  | none => exact ⟨h, fun _ hi => nomatch hi⟩
  | some i =>
    obtain ⟨hi, hc⟩ := hrow i rfl
    have hid := h.own i hi hc
    refine ⟨h.setStatus hid _ _ _, fun j hj => ?_⟩
    cases hj
    exact hid

theorem headPending_own (h : QueueRepo.headPending items c = some i) : i ∈ items ∧ i.chatId = c := by
  have hmem : i ∈ QueueRepo.pendingRows items c := List.mem_of_head? h
  rw [QueueRepo.pendingRows, List.mem_insertionSort, QueueRepo.mem_waiting] at hmem
  exact ⟨hmem.1, hmem.2.1⟩

theorem popNextPending (h : Fenced c rows modes s) (now : Nat) :
    Fenced c rows modes (setItems (QueueRepo.popNextPending now c s.store.items).2 s) ∧
      ∀ i, (QueueRepo.popNextPending now c s.store.items).1 = some i → i.id ∉ rows.map QueueItemRow.id :=
  h.pop (fun _ hi => headPending_own hi) now

theorem popSpecificPending (h : Fenced c rows modes s) (now : Nat) (itemId : Uuid) :
    Fenced c rows modes (setItems (QueueRepo.popSpecificPending now c itemId s.store.items).2 s) ∧
      ∀ i, (QueueRepo.popSpecificPending now c itemId s.store.items).1 = some i →
        i.id ∉ rows.map QueueItemRow.id := by
  refine h.pop (fun i hi => ?_) now
  have hown := List.find?_some hi
  exact ⟨List.mem_of_find?_eq_some hi, (of_decide_eq_true hown).2.1⟩

theorem finalOrder_mem {current ordered : List Uuid} {id : Uuid}
    (h : id ∈ QueueRepo.finalOrder current ordered) : id ∈ current := by
  unfold QueueRepo.finalOrder at h
  rcases List.mem_append.mp h with h | h
  · have hmem : id ∈ ordered.filter (fun i => i ∈ current) := by simpa using h
    simpa using (List.mem_filter.mp hmem).2
  · exact List.mem_of_mem_filter h

/-- A reorder numbers only this chat's pending rows. -/
theorem reorder (h : Fenced c rows modes s) (now : Nat) (ordered : List Uuid) :
    Fenced c rows modes (setItems (QueueRepo.reorder now c ordered s.store.items) s) := by
  rw [QueueRepo.reorder_place]
  refine h.map (QueueRepo.place_id now _) (fun i => ?_) fun i hi => ?_
  · rw [QueueRepo.place_fields]
  · apply QueueRepo.place_absent
    intro hfinal
    obtain ⟨j, hj, he⟩ := QueueRepo.mem_pendingIds.mp (finalOrder_mem hfinal)
    obtain ⟨hmem, hc, -⟩ := QueueRepo.mem_waiting.mp hj
    exact h.own j hmem hc (List.mem_map.mpr ⟨i, hi, he.symm⟩)

/-- A cancel by an id that is not that of another chat's pending row. -/
theorem cancel (h : Fenced c rows modes s) (hid : ∀ i ∈ rows, i.id = itemId → QueueRepo.isPending i = false) :
    Fenced c rows modes (setItems (QueueRepo.cancel itemId s.store.items) s) := by
  refine h.filter fun i hi => ?_
  by_cases he : i.id = itemId
  · simp [he, hid i hi he]
  · simp [he]

theorem updateBody (h : Fenced c rows modes s)
    (hid : ∀ i ∈ rows, i.id = itemId → QueueRepo.isPending i = false) (now : Nat) (body : Text) :
    Fenced c rows modes (setItems (QueueRepo.updateBody now itemId body s.store.items) s) := by
  refine h.map (fun i => ?_) (fun i => ?_) fun i hi => ?_
  · split <;> rfl
  · split <;> rfl
  · refine if_neg fun hc => ?_
    rw [hid i hi hc.1] at hc
    cases hc.2

end Fenced

end Rows

end AgentGrove
