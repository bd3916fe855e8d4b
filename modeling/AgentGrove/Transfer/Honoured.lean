import AgentGrove.Coop.Endless
import AgentGrove.Coop.Machine
import AgentGrove.Transfer.Editors
import AgentGrove.Transfer.Owned

namespace AgentGrove

open Coop

/-- A server beside what its users can tell of their queued messages: the request that
each handler serves, the item that each task popped last, the requests answered with
204 in their order, and every prompt that was stored for a popped item. -/
structure Noted where
  server : Server
  serves : Nat → Option Request
  carries : Nat → Option Uuid
  granted : List Request
  delivered : List (Uuid × PromptRow)

/-- The pending item that a pop marks Running. -/
def taken (s s' : AppState) : Option Uuid :=
  (s.store.items.find? (fun i => QueueRepo.isPending i &&
    s'.store.items.any (fun j => decide (j.id = i.id) && QueueRepo.isRunning j))).map QueueItemRow.id

namespace Noted

/-- The request that the task of an event serves. -/
def asked (a : Noted) : ServerEvent → Option Request
  | .arrive request => some request
  | .run i _ => a.serves i

/-- That request, if the step that ends in `p` answers it with 204. -/
def grants (a : Noted) (e : ServerEvent) (p : Server) : List Request :=
  (a.asked e).toList.filter (fun request =>
    (request, Response.done) ∈ p.shared.answers.drop a.server.shared.answers.length)

def pops (a : Noted) : ServerEvent → Nat → Option Uuid
  | .arrive _ => a.carries
  | .run i w =>
    match a.server.restsAt i, a.server.acts i w with
    | some x, some s' =>
      if x.call = .popItem then Function.update a.carries i (taken a.server.shared s') else a.carries
    | _, _ => a.carries

/-- The prompts that a step stores, with the item its task has popped. -/
def stores (a : Noted) : ServerEvent → List (Uuid × PromptRow)
  | .arrive _ => []
  | .run i w =>
    match a.server.restsAt i, a.server.acts i w, a.carries i with
    | some x, some s', some id =>
      if x.fn.carrier.isSome ∧ x.call = .insertPrompt then
        (s'.store.prompts.drop a.server.shared.store.prompts.length).map (fun q => (id, q))
      else []
    | _, _, _ => []

end Noted

def noting : Machine Noted ServerEvent where
  step a e := (a.server.fire entry e).map (fun p => {
    server := p
    serves := a.server.serving a.serves e
    carries := a.pops e
    granted := a.granted ++ a.grants e p
    delivered := a.delivered ++ a.stores e })

/-- The body of the last edit of an item that was granted. -/
def lastEdit (granted : List Request) (id : Uuid) : Option Text :=
  granted.reverse.findSome? (fun
    | .updateItem _ item body => if item = id then some body else none
    | _ => none)

/-- No prompt was ever stored for an item whose cancel was granted, and a prompt stored
for an edited one has the body of the last edit that was granted. -/
structure Honoured (a : Noted) : Prop where
  cancels : ∀ c id, .cancel c id ∈ a.granted → ∀ e ∈ a.delivered, e.1 ≠ id
  edits : ∀ id body, lastEdit a.granted id = some body → ∀ e ∈ a.delivered, e.1 = id →
    e.2.content = body

/-- No dispatch or drain task that has stored the prompt of an item then fails to touch
the chat or finds it evicted. -/
def HandsOn (a : Noted) : ServerEvent → Prop
  | .arrive _ => True
  | .run i w => ∀ x ∈ a.server.restsAt i, x.fn.carrier = some .task →
      ¬ Breaks a.server.shared w x.chat x.call

instance (a : Noted) : (e : ServerEvent) → Decidable (HandsOn a e)
  | .arrive _ => .isTrue trivial
  | .run i _ => inferInstanceAs (Decidable (∀ x ∈ a.server.restsAt i, _))

/-- The prompt of the item is stored: it is not pending, and whoever has it in hand has
stored it. -/
structure Spent (id : Uuid) (s : AppState) (hands : List Hand) : Prop where
  known : id < s.nextId
  running : ∀ i ∈ s.store.items, i.id = id → QueueRepo.isRunning i = true
  copied : ∀ h ∈ hands, ∀ row, h.row = some row → row.id = id → ∃ k, h = .copied k row

section Moves

variable {id : Uuid} {s s' : AppState} {hands : List Hand} {n : Nat} {h h' : Hand} {t : Tag}
  {x : Site} {w : Choice} {row : QueueItemRow} {e : Option (Site × Choice)}

/-- Moves after which the rows under the id are old ones or Running. -/
theorem Spent.keep (hv : Spent id s hands) (hn : s.nextId ≤ s'.nextId)
    (hitems : ∀ j ∈ s'.store.items, j.id = id → j ∈ s.store.items ∨ QueueRepo.isRunning j = true)
    (hrow : ∀ row, h'.row = some row → row.id = id → ∃ k, h' = .copied k row) :
    Spent id s' (hands.set n h') := by
  refine ⟨Nat.lt_of_lt_of_le hv.known hn, fun j hj hid => ?_, fun x hx row hr hid => ?_⟩
  · rcases hitems j hj hid with hold | hrun
    · exact hv.running j hold hid
    · exact hrun
  · rcases mem_set hx with rfl | hx
    · exact hrow row hr hid
    · exact hv.copied x hx row hr hid

theorem Spent.still (hv : Spent id s hands) (hs : Still s s')
    (hrow : ∀ row, h'.row = some row → row.id = id → ∃ k, h' = .copied k row) :
    Spent id s' (hands.set n h') :=
  hv.keep (Nat.le_of_eq hs.nextId.symm) (fun _ hj _ => .inl (hs.items ▸ hj)) hrow

/-- Whoever has not stored the prompt of its row has another row. -/
theorem Spent.other (hv : Spent id s hands) (hi : hands[n]? = some h) (hr : h.row = some row)
    (hne : ∀ k, h ≠ .copied k row) : row.id ≠ id := by
  intro hid
  obtain ⟨k, hk⟩ := hv.copied h (mem_of_get hi) row hr hid
  exact hne k hk

/-- A spent item stays spent, unless its row is carried once more after its prompt was stored. -/
theorem Spent.passes (hv : Spent id s hands) (hi : hands[n]? = some h) (hm : Passes e h s h' s')
    (hgood : ∀ x w, e = some (x, w) → x.fn.carrier = some .task → ¬ Breaks s w x.chat x.call) :
    Spent id s' (hands.set n h') := by
  have hle := Nat.le_refl s.nextId
  cases hm with
  | still hs => exact hv.still hs (hv.copied h (mem_of_get hi))
  | answer ha => exact hv.keep hle (fun _ hj _ => .inl hj) (by simp [Hand.row])
  | queue hw hid hc hb hp =>
    refine hv.keep (Nat.le_succ _) (fun j hj he => ?_) (by simp [Hand.row])
    rcases List.mem_append.mp hj with hj | hj
    · exact .inl hj
    · have hk := hv.known
      rw [← he, List.mem_singleton.mp hj, hid] at hk
      exact absurd hk (Nat.lt_irrefl _)
  | send hw hid hc hb => exact hv.keep (Nat.le_succ _) (fun _ hj _ => .inl hj) (by simp [Hand.row])
  | refuse => exact hv.keep hle (fun _ hj _ => .inl hj) (by simp [Hand.row])
  | spoil hwhy hs => exact hv.still hs (by simp [Hand.row])
  | @pop fn w h k s i hh him hp =>
    refine hv.keep hle (fun j hj he => ?_) fun row hr he => ?_
    · rcases setStatus_cases hj with ⟨hj, -⟩ | ⟨_, -, -, -, rfl⟩
      · exact .inl hj
      · exact .inr rfl
    · cases hr
      have hrun := hv.running i him he
      rw [not_running hp] at hrun
      cases hrun
  | number hn =>
    refine hv.keep hle (fun _ hj _ => .inl hj) fun row hr he => ?_
    exact absurd he (hv.other hi hr (by simp))
  | @copy fn w h k row s q hh hw hid hc hb =>
    refine hv.keep (Nat.le_succ _) (fun _ hj _ => .inl hj) fun row' hr _ => ?_
    cases hr
    exact ⟨k, rfl⟩
  | botch hfn hwhy hs => exact absurd hwhy (hgood _ _ rfl hfn)
  | @giveBack fn w row s =>
    refine hv.keep hle (fun j hj he => ?_) (by simp [Hand.row])
    rcases setStatus_cases hj with ⟨hj, -⟩ | ⟨j, hj, hid, -, rfl⟩
    · exact .inl hj
    · exact absurd (hid.symm.trans he) (hv.other hi rfl (by simp))
  | lose hw => exact hv.keep hle (fun _ hj _ => .inl hj) (by simp [Hand.row])
  | @finish fn w k row s =>
    refine hv.keep hle (fun j hj _ => .inl (markDone_cases.mp hj).1) ?_
    cases k <;> simp [Carrier.after, Hand.row]
  | @forget fn w k row s hw =>
    refine hv.keep hle (fun _ hj _ => .inl hj) ?_
    cases k <;> simp [Carrier.after, Hand.row]
  | edit he =>
    refine hv.keep he.nextId (fun j hj hid => .inr ?_) (by simp [Hand.row])
    obtain ⟨i, hi, hslot⟩ := List.mem_map.mp (he.slots.subset (List.mem_map_of_mem hj))
    simp only [QueueItemRow.slot, Prod.mk.injEq] at hslot
    have hrun := hv.running i hi (hslot.1.trans hid)
    rw [QueueRepo.isRunning, ← hslot.2.2]
    exact hrun
  | abandon hfn hh hwhy hs => exact hv.still hs (by simp [Hand.row])
  | strand hfn hwhy hs => exact hv.still hs (by simp [Hand.row])

/-- The row of a prompt that has just been stored is spent. -/
theorem Carried.spends {k : Carrier} (hv : Carried s hands) (hi : hands[n]? = some h)
    (hr : h.row = some row) (hitems : s'.store.items = s.store.items) (hn : s.nextId ≤ s'.nextId) :
    Spent row.id s' (hands.set n (.copied k row)) := by
  obtain ⟨hmem, hrun⟩ := hv.kept h (mem_of_get hi) row hr
  refine ⟨Nat.lt_of_lt_of_le (hv.fresh row hmem) hn, fun j hj hid => ?_, fun x hx row' hr' hid => ?_⟩
  · rw [hitems] at hj
    rw [row_eq hv.distinct hj hmem hid]
    exact hrun
  · rcases mem_set_or hi hx with rfl | hx
    · cases hr'
      exact ⟨k, rfl⟩
    · exact absurd hid (hv.others hi hr (hx .empty) hr')

/-- What a row in hand comes from. -/
theorem Passes.holds (hm : Passes (some (x, w)) h s h' s') (hr : h'.row = some row) :
    h.row = some row ∨ x.call = .popItem ∧ ∃ i ∈ s.store.items, QueueRepo.isPending i = true ∧
      row = running w.now i ∧
      s' = setItems (QueueRepo.setStatus (fun _ => true) .running w.now i.id s.store.items) s := by
  cases hm with
  | still hs => exact .inl hr
  | pop hh him hp =>
    cases hr
    exact .inr ⟨rfl, _, him, hp, rfl, rfl⟩
  | number hn => exact .inl hr
  | copy hh hw hid hc hb =>
    rcases hh with ⟨-, rfl⟩ | ⟨-, m, rfl⟩
    · exact .inl hr
    · exact .inl hr
  | botch hfn hwhy hs => exact .inl hr
  | @finish fn w k row s => cases k <;> cases hr
  | @forget fn w k row s hw => cases k <;> cases hr
  | _ => cases hr

/-- The item that a pop takes. -/
theorem taken_pop {i : QueueItemRow} {now : Nat} (hd : (s.store.items.map QueueItemRow.id).Nodup)
    (hi : i ∈ s.store.items) (hp : QueueRepo.isPending i = true) :
    taken s (setItems (QueueRepo.setStatus (fun _ => true) .running now i.id s.store.items) s) =
      some i.id := by
  simp only [taken, setItems]
  cases hf : s.store.items.find? (fun k => QueueRepo.isPending k &&
      (QueueRepo.setStatus (fun _ => true) .running now i.id s.store.items).any
        (fun j => decide (j.id = k.id) && QueueRepo.isRunning j)) with
  | none =>
    have hno := List.find?_eq_none.mp hf i hi
    simp only [hp, Bool.true_and, List.any_eq_true, Bool.and_eq_true, decide_eq_true_eq, not_exists,
      not_and] at hno
    exact absurd rfl (hno _ (setStatus_hit hi rfl rfl) rfl)
  | some k =>
    have hk := List.find?_some hf
    simp only [Bool.and_eq_true, List.any_eq_true, decide_eq_true_eq] at hk
    obtain ⟨hkp, j, hj, hid, hrun⟩ := hk
    rcases setStatus_cases hj with ⟨hj, -⟩ | ⟨m, -, hm, -, rfl⟩
    · have he := row_eq hd hj (List.mem_of_find?_eq_some hf) hid
      rw [he, not_running hkp] at hrun
      cases hrun
    · exact congrArg some (hid.symm.trans hm)

/-- What the insert of a carrier stores. -/
theorem Passes.copies (hm : Passes (some (x, w)) h s h' s') (hrest : HoldsAt t x h)
    (hx : x.fn.carrier.isSome = true) (hc : x.call = .insertPrompt) :
    s'.store.prompts.drop s.store.prompts.length = [] ∨
      ∃ k row q, h' = .copied k row ∧ h.row = some row ∧ q.content = row.body ∧
        s'.store.items = s.store.items ∧ s'.store.prompts.drop s.store.prompts.length = [q] := by
  have hnone : ∀ {s'}, Still s s' → s'.store.prompts.drop s.store.prompts.length = [] := by
    intro s' hs
    have hl := congrArg List.length hs.keys
    simp only [List.length_map] at hl
    rw [← hl, List.drop_length]
  cases hm with
  | still hs => exact .inl (hnone hs)
  | copy hh hw hid hcc hb =>
    refine .inr ⟨_, _, _, rfl, ?_, hb, rfl, List.drop_left⟩
    rcases hh with ⟨-, rfl⟩ | ⟨-, m, rfl⟩
    · rfl
    · rfl
  | abandon hfn hh hwhy hs => exact .inl (hnone hs)
  | strand hfn hwhy hs => exact .inl (hnone hs)
  | botch hfn hwhy hs => exact .inl (hnone hs)
  | edit he =>
    rw [hrest.1] at hx
    cases hx
  | send hw hid hcc hb => cases hx
  | refuse => cases hx
  | spoil hwhy hs => cases hx
  | _ => cases hc

theorem Passes.nextId (hm : Passes e h s h' s') : s.nextId ≤ s'.nextId := by
  cases hm with
  | still hs => exact Nat.le_of_eq hs.nextId.symm
  | queue hw hid hc hb hp => exact Nat.le_succ _
  | send hw hid hc hb => exact Nat.le_succ _
  | copy hh hw hid hc hb => exact Nat.le_succ _
  | edit h => exact h.nextId
  | spoil hwhy hs => exact Nat.le_of_eq hs.nextId.symm
  | botch hfn hwhy hs => exact Nat.le_of_eq hs.nextId.symm
  | abandon hfn hh hwhy hs => exact Nat.le_of_eq hs.nextId.symm
  | strand hfn hwhy hs => exact Nat.le_of_eq hs.nextId.symm
  | _ => exact Nat.le_refl _

/-- Only edits change bodies. -/
theorem Passes.bodies (hm : Passes (some (x, w)) h s h' s') (he : h = .editor → BodiesStay s s') :
    BodiesStay s s' := by
  cases hm with
  | still hs => exact hs.bodies
  | queue hw hid hc hb hp =>
    refine ⟨Nat.le_succ _, fun j hj => ?_⟩
    rcases List.mem_append.mp hj with hj | hj
    · exact .inr ⟨j, hj, rfl, rfl⟩
    · rw [List.mem_singleton.mp hj, hid]
      exact .inl (Nat.le_refl _)
  | send hw hid hc hb => exact .same rfl (Nat.le_succ _)
  | refuse => exact .refl s
  | spoil hwhy hs => exact hs.bodies
  | pop hh him hp => exact .setStatus _ _ _ _
  | number hn => exact .refl s
  | copy hh hw hid hc hb => exact .same rfl (Nat.le_succ _)
  | botch hfn hwhy hs => exact hs.bodies
  | giveBack => exact .setStatus _ _ _ _
  | lose hw => exact .refl s
  | finish => exact .filter _
  | forget hw => exact .refl s
  | edit h => exact he rfl
  | abandon hfn hh hwhy hs => exact hs.bodies
  | strand hfn hwhy hs => exact hs.bodies

end Moves

/-- What was granted is true of the queue and of the prompts delivered. -/
structure Fulfilled (granted : List Request) (delivered : List (Uuid × PromptRow)) (s : AppState) :
    Prop where
  cancels : ∀ c id, .cancel c id ∈ granted → id < s.nextId ∧ (∀ i ∈ s.store.items, i.id ≠ id) ∧
    ∀ e ∈ delivered, e.1 ≠ id
  edits : ∀ id body, lastEdit granted id = some body → id < s.nextId ∧
    (∀ i ∈ s.store.items, i.id = id → i.body = body) ∧ ∀ e ∈ delivered, e.1 = id → e.2.content = body

/-- What a cancel or an edit does to the items if it finds its row. -/
def Revises (request : Request) (id : Uuid) (act : Nat → List QueueItemRow → List QueueItemRow) :
    Prop :=
  (∃ c, request = .cancel c id ∧ act = fun _ => QueueRepo.cancel id) ∨
    ∃ c body, request = .updateItem c id body ∧ act = fun now => QueueRepo.updateBody now id body

section Fulfilled

variable {granted : List Request} {delivered extra : List (Uuid × PromptRow)} {s s' : AppState}
  {request : Request} {id : Uuid} {hands : List Hand} {now : Nat}
  {act : Nat → List QueueItemRow → List QueueItemRow} {prog : Async Unit} {w : Choice}

theorem lastEdit_mute (granted : List Request) (hr : request.edits = false) (id : Uuid) :
    lastEdit (granted ++ [request]) id = lastEdit granted id := by
  unfold lastEdit
  rw [List.reverse_concat, List.findSome?_cons]
  cases request with
  | updateItem c item body => cases hr
  | _ => rfl

theorem lastEdit_cancel (granted : List Request) (c item id : Uuid) :
    lastEdit (granted ++ [.cancel c item]) id = lastEdit granted id := by
  unfold lastEdit
  rw [List.reverse_concat, List.findSome?_cons]

theorem lastEdit_update (granted : List Request) (c item id : Uuid) (body : Text) :
    lastEdit (granted ++ [.updateItem c item body]) id =
      if item = id then some body else lastEdit granted id := by
  unfold lastEdit
  rw [List.reverse_concat, List.findSome?_cons]
  by_cases he : item = id
  · simp [he]
  · simp [he]

/-- A step that changes no body, and stores prompts of queued messages only. -/
theorem Fulfilled.keep (hv : Fulfilled granted delivered s) (hb : BodiesStay s s')
    (hnew : ∀ e ∈ extra, ∃ i ∈ s.store.items, i.id = e.1 ∧ e.2.content = i.body) :
    Fulfilled granted (delivered ++ extra) s' := by
  constructor
  · intro c id hg
    obtain ⟨hlt, hrows, hdel⟩ := hv.cancels c id hg
    refine ⟨Nat.lt_of_lt_of_le hlt hb.nextId, fun j hj hid => ?_, fun e he hid => ?_⟩
    · rcases hb.rows j hj with hge | ⟨i, hi, hij, -⟩
      · rw [hid] at hge
        exact Nat.not_lt.mpr hge hlt
      · exact hrows i hi (hij.trans hid)
    · rcases List.mem_append.mp he with he | he
      · exact hdel e he hid
      · obtain ⟨i, hi, hie, -⟩ := hnew e he
        exact hrows i hi (hie.trans hid)
  · intro id body hl
    obtain ⟨hlt, hrows, hdel⟩ := hv.edits id body hl
    refine ⟨Nat.lt_of_lt_of_le hlt hb.nextId, fun j hj hid => ?_, fun e he hid => ?_⟩
    · rcases hb.rows j hj with hge | ⟨i, hi, hij, hbody⟩
      · rw [hid] at hge
        exact absurd hlt (Nat.not_lt.mpr hge)
      · exact hbody ▸ hrows i hi (hij.trans hid)
    · rcases List.mem_append.mp he with he | he
      · exact hdel e he hid
      · obtain ⟨i, hi, hie, hbody⟩ := hnew e he
        exact hbody.trans (hrows i hi (hie.trans hid))

theorem Fulfilled.same (hv : Fulfilled granted delivered s) (hb : BodiesStay s s') :
    Fulfilled granted delivered s' := by
  have hkeep : Fulfilled granted (delivered ++ []) s' := hv.keep hb (by simp)
  rwa [List.append_nil] at hkeep

/-- Granting anything but a cancel or an edit. -/
theorem Fulfilled.mute (hv : Fulfilled granted delivered s) (hr : request.edits = false) :
    Fulfilled (granted ++ [request]) delivered s := by
  constructor
  · intro c id hg
    rcases List.mem_append.mp hg with hg | hg
    · exact hv.cancels c id hg
    · rw [← List.mem_singleton.mp hg] at hr
      cases hr
  · intro id body hl
    rw [lastEdit_mute granted hr] at hl
    exact hv.edits id body hl

/-- A pending row has no prompt yet. -/
theorem Spent.not_pending (hv : Spent id s hands) {i : QueueItemRow} (hi : i ∈ s.store.items)
    (hp : QueueRepo.isPending i = true) : i.id ≠ id := by
  intro hid
  have hrun := hv.running i hi hid
  rw [not_running hp] at hrun
  cases hrun

theorem Fulfilled.cancel (hv : Fulfilled granted delivered s) (hc : Carried s hands)
    (hs : ∀ e ∈ delivered, Spent e.1 s hands) (c : Uuid)
    (ha : QueueRepo.affects QueueRepo.isPending id s.store.items = true) :
    Fulfilled (granted ++ [.cancel c id]) delivered (setItems (QueueRepo.cancel id s.store.items) s) := by
  obtain ⟨i, hi, hmatch⟩ := List.any_eq_true.mp ha
  obtain ⟨rfl, hp⟩ := of_decide_eq_true hmatch
  have hkeep : Fulfilled granted delivered (setItems (QueueRepo.cancel i.id s.store.items) s) :=
    hv.same (.filter _)
  constructor
  · intro c' id' hg
    rcases List.mem_append.mp hg with hg | hg
    · exact hkeep.cancels c' id' hg
    · cases List.mem_singleton.mp hg
      refine ⟨hc.fresh i hi, fun j hj hid => ?_, fun e he hid => ?_⟩
      · simp only [setItems, QueueRepo.cancel, List.mem_filter, Bool.not_eq_eq_eq_not, Bool.not_true,
          decide_eq_false_iff_not, not_and] at hj
        exact hj.2 hid (row_eq hc.distinct hj.1 hi hid ▸ hp)
      · exact (hs e he).not_pending hi hp hid.symm
  · intro id' body hl
    rw [lastEdit_cancel] at hl
    exact hkeep.edits id' body hl

theorem Fulfilled.update (hv : Fulfilled granted delivered s) (hc : Carried s hands)
    (hs : ∀ e ∈ delivered, Spent e.1 s hands) (c : Uuid) (body : Text)
    (ha : QueueRepo.affects QueueRepo.isPending id s.store.items = true) :
    Fulfilled (granted ++ [.updateItem c id body]) delivered
      (setItems (QueueRepo.updateBody now id body s.store.items) s) := by
  obtain ⟨i, hi, hmatch⟩ := List.any_eq_true.mp ha
  obtain ⟨rfl, hp⟩ := of_decide_eq_true hmatch
  have hfrom : ∀ j ∈ QueueRepo.updateBody now i.id body s.store.items,
      ∃ k ∈ s.store.items, k.id = j.id ∧ if k.id = i.id then j.body = body else j = k := by
    intro j hj
    obtain ⟨k, hk, rfl⟩ := List.mem_map.mp hj
    refine ⟨k, hk, ?_⟩
    by_cases hid : k.id = i.id
    · rw [if_pos ⟨hid, row_eq hc.distinct hk hi hid ▸ hp⟩, if_pos hid]
      exact ⟨rfl, rfl⟩
    · rw [if_neg fun hk => hid hk.1, if_neg hid]
      exact ⟨rfl, rfl⟩
  constructor
  · intro c' id' hg
    rcases List.mem_append.mp hg with hg | hg
    · obtain ⟨hlt, hrows, hdel⟩ := hv.cancels c' id' hg
      refine ⟨hlt, fun j hj hid => ?_, hdel⟩
      obtain ⟨k, hk, hkj, -⟩ := hfrom j hj
      exact hrows k hk (hkj.trans hid)
    · cases List.mem_singleton.mp hg
  · intro id' body' hl
    rw [lastEdit_update] at hl
    split at hl
    · rename_i he
      cases hl
      subst he
      refine ⟨hc.fresh i hi, fun j hj hid => ?_, fun e he hid => ?_⟩
      · obtain ⟨k, hk, hkj, hbody⟩ := hfrom j hj
        rw [if_pos (hkj.trans hid)] at hbody
        exact hbody
      · exact absurd hid.symm ((hs e he).not_pending hi hp)
    · rename_i hne
      obtain ⟨hlt, hrows, hdel⟩ := hv.edits id' body' hl
      refine ⟨hlt, fun j hj hid => ?_, hdel⟩
      obtain ⟨k, hk, hkj, hbody⟩ := hfrom j hj
      rw [if_neg fun hki => hne (hki.symm.trans (hkj.trans hid))] at hbody
      exact hbody ▸ hrows k hk (hkj.trans hid)

/-- An edit that finds no pending row changes nothing. -/
theorem Revises.misses (hr : Revises request id act)
    (ha : QueueRepo.affects QueueRepo.isPending id s.store.items = false) :
    act now s.store.items = s.store.items := by
  have hno : ∀ i ∈ s.store.items, ¬ (i.id = id ∧ QueueRepo.isPending i = true) := by
    intro i hi hc
    have := List.any_eq_false.mp ha i hi
    simp [hc] at this
  rcases hr with ⟨c, -, rfl⟩ | ⟨c, body, -, rfl⟩
  · apply List.filter_eq_self.mpr
    intro i hi
    simp only [Bool.not_eq_eq_eq_not, Bool.not_true, decide_eq_false_iff_not]
    exact hno i hi
  · have hsame : s.store.items.map (fun i => if i.id = id ∧ QueueRepo.isPending i = true then
        { i with body := body, updatedAt := now } else i) = s.store.items.map fun i => i :=
      List.map_congr_left fun i hi => if_neg (hno i hi)
    exact hsame.trans (List.map_id _)

/-- Both together: an edit is granted if and only if it found its row. -/
theorem Fulfilled.revises (hv : Fulfilled granted delivered s) (hc : Carried s hands)
    (hs : ∀ e ∈ delivered, Spent e.1 s hands) (hr : Revises request id act) :
    Fulfilled (granted ++ if QueueRepo.affects QueueRepo.isPending id s.store.items then [request] else [])
      delivered (setItems (act now s.store.items) s) := by
  cases ha : QueueRepo.affects QueueRepo.isPending id s.store.items with
  | true =>
    rcases hr with ⟨c, rfl, rfl⟩ | ⟨c, body, rfl, rfl⟩
    · exact hv.cancel hc hs c ha
    · exact hv.update hc hs c body ha
  | false =>
    rw [hr.misses ha]
    simp only [Bool.false_eq_true, if_false, List.append_nil]
    exact hv

/-- A handler at its edit. -/
theorem Abides.at_edit (h : Abides request prog) (he : request.edits = true) (hrest : prog.Resting)
    {out : AppState × Async Unit × List (Tag × Async Unit)} (ho : prog.resume w s = some out) :
    ∃ fn c call id act, prog = changes request fn c call id act ∧ call ≠ .insertPrompt ∧
      Revises request id act := by
  rcases h.1 he with rfl | rfl
  · cases request with
    | cancel c id => exact ⟨_, _, _, _, _, entry_cancel c id, by simp, .inl ⟨c, rfl, rfl⟩⟩
    | updateItem c id body =>
      cases hb : (trim body).isEmpty with
      | true =>
        rw [entry_updateItem_blank c id hb] at hrest
        exact hrest.elim
      | false =>
        exact ⟨_, _, _, _, _, entry_updateItem c id hb, by simp, .inr ⟨c, body, rfl, rfl⟩⟩
    | _ => cases he
  · cases ho

end Fulfilled

/-- What holds of the records and the tables while tasks work with the given hands. -/
structure Upheld (serves : Nat → Option Request) (carries : Nat → Option Uuid)
    (granted : List Request) (delivered : List (Uuid × PromptRow)) (s : AppState)
    (hands : List Hand) : Prop where
  carried : Carried s hands
  editors : ∀ j, hands[j]? = some .editor → ∃ request, serves j = some request ∧ request.hand = .editor
  carries : ∀ j h row, hands[j]? = some h → h.row = some row → carries j = some row.id
  spent : ∀ e ∈ delivered, Spent e.1 s hands
  fulfilled : Fulfilled granted delivered s

section Upheld

variable {serves serves' : Nat → Option Request} {carries carries' : Nat → Option Uuid}
  {granted granted' : List Request} {delivered extra : List (Uuid × PromptRow)} {s s' : AppState}
  {hands : List Hand} {n : Nat} {h h' : Hand} {e : Option (Site × Choice)} {x : Site} {w : Choice}

/-- Nobody becomes an editor. -/
theorem Passes.editor (hm : Passes e h s h' s') (he : h' = .editor) : h = .editor := by
  cases hm with
  | still hs => exact he
  | edit h => rfl
  | @finish fn w k row s => cases k <;> cases he
  | @forget fn w k row s hw => cases k <;> cases he
  | _ => cases he

/-- One move of a task, given what comes into its hand and what is granted for it. -/
theorem Upheld.moves (hv : Upheld serves carries granted delivered s hands)
    (hi : hands[n]? = some h) (hm : Passes e h s h' s')
    (hgood : ∀ x w, e = some (x, w) → x.fn.carrier = some .task → ¬ Breaks s w x.chat x.call)
    (hsame : ∀ j, j ≠ n → carries' j = carries j)
    (hrow : ∀ row, h'.row = some row → carries' n = some row.id)
    (hnew : ∀ e ∈ extra, Spent e.1 s' (hands.set n h'))
    (hful : Fulfilled granted' (delivered ++ extra) s') :
    Upheld serves carries' granted' (delivered ++ extra) s' (hands.set n h') := by
  have hl := (List.getElem?_eq_some_iff.mp hi).1
  refine ⟨hv.carried.passes hi hm, fun j hj => ?_, fun j k row hj hr => ?_, fun e he => ?_, hful⟩
  · by_cases hjn : n = j
    · subst hjn
      rw [List.getElem?_set_self hl, Option.some.injEq] at hj
      exact hv.editors n (hm.editor hj ▸ hi)
    · rw [List.getElem?_set_ne hjn] at hj
      exact hv.editors j hj
  · by_cases hjn : n = j
    · subst hjn
      rw [List.getElem?_set_self hl, Option.some.injEq] at hj
      subst hj
      exact hrow row hr
    · rw [List.getElem?_set_ne hjn] at hj
      rw [hsame j (Ne.symm hjn)]
      exact hv.carries j k row hj hr
  · rcases List.mem_append.mp he with he | he
    · exact (hv.spent e he).passes hi hm hgood
    · exact hnew e he

/-- A task more, with nothing in hand. -/
theorem Upheld.append (hv : Upheld serves carries granted delivered s hands) (hr : h.row = none)
    (hserves : ∀ j, j < hands.length → serves' j = serves j)
    (he : h = .editor → ∃ request, serves' hands.length = some request ∧ request.hand = .editor) :
    Upheld serves' carries granted delivered s (hands ++ [h]) := by
  refine ⟨hv.carried.arrive hr, fun j hj => ?_, fun j k row hj hrow => ?_, fun e hmem => ?_,
    hv.fulfilled⟩
  · rcases get_concat hj with hj | ⟨rfl, rfl⟩
    · rw [hserves j (List.getElem?_eq_some_iff.mp hj).1]
      exact hv.editors j hj
    · exact he rfl
  · rcases get_concat hj with hj | ⟨rfl, rfl⟩
    · exact hv.carries j k row hj hrow
    · rw [hr] at hrow
      cases hrow
  · have hs := hv.spent e hmem
    refine ⟨hs.known, hs.running, fun x hx row hrow hid => ?_⟩
    rcases List.mem_append.mp hx with hx | hx
    · exact hs.copied x hx row hrow hid
    · rw [List.mem_singleton.mp hx, hr] at hrow
      cases hrow

theorem upheld_kept (serves : Nat → Option Request) (carries : Nat → Option Uuid)
    (granted : List Request) (delivered : List (Uuid × PromptRow)) (i : Nat) :
    transfer.KeptBy i (Upheld serves carries granted delivered) where
  sees _ _ _ _ _ := trivial
  sync s hands h h' s' hv hi hm := by
    have hmoves : (∀ row, h'.row = some row → carries i = some row.id) → BodiesStay s s' →
        Upheld serves carries granted (delivered ++ []) s' (hands.set i h') :=
      fun hrow hb => hv.moves hi hm (by simp) (fun _ _ => rfl) hrow (by simp)
        (hv.fulfilled.keep hb (by simp))
    rw [List.append_nil] at hmoves
    cases hm with
    | still hs => exact hmoves (fun row hr => hv.carries i _ row hi hr) hs.bodies
    | answer ha => exact hmoves (by simp [Hand.row]) (.same rfl (Nat.le_refl _))
  fork s hands h tag x h' hv hi hf := by
    cases hf
    rw [set_self hi]
    exact hv.append rfl (fun _ _ => rfl) (by simp)

end Upheld

/-- Between two steps the records are true. -/
structure Trusted (a : Noted) (hands : List Hand) : Prop where
  coupled : transfer.Coupled a.server hands
  serving : Pool.Serving Abides a.serves a.server
  upheld : Upheld a.serves a.carries a.granted a.delivered a.server.shared hands

section Steps

variable {a a' : Noted} {hands : List Hand} {i : Nat} {w : Choice} {x : Site} {h h' : Hand}
  {s' : AppState} {e : ServerEvent} {p : Server} {request : Request}

/-- A step grants nothing or the request of its task. -/
theorem Noted.grants_cases (a : Noted) (e : ServerEvent) (p : Server) :
    a.grants e p = [] ∨ ∃ request, a.asked e = some request ∧ a.grants e p = [request] := by
  unfold grants
  cases ha : a.asked e with
  | none => exact .inl rfl
  | some request =>
    rw [Option.toList_some, List.filter_singleton, Bool.cond_decide]
    split
    · exact .inr ⟨request, rfl, rfl⟩
    · exact .inl rfl

theorem Noted.grants_eq (ha : a.asked e = some request) {response : Response}
    (hp : p.shared.answers = a.server.shared.answers ++ [(request, response)]) :
    a.grants e p = if response = .done then [request] else [] := by
  unfold grants
  rw [ha, hp, List.drop_left, Option.toList_some, List.filter_singleton, Bool.cond_decide]
  simp only [List.mem_singleton, Prod.mk.injEq, true_and, eq_comm]

/-- No edit is granted before it was made. -/
theorem arrive_grants (hf : a.server.fire (ω := Choice) entry (.arrive request) = some p)
    (he : request.edits = true) : a.grants (.arrive request) p = [] := by
  cases hf
  cases request with
  | cancel c id => simp [Noted.grants, Noted.asked, entry_cancel, changes, respond, changeItem, storeCall, access,
      Prog.bind, Prog.settle]
  | updateItem c id body =>
    cases hb : (trim body).isEmpty with
    | true =>
      simp [Noted.grants, Noted.asked, entry_updateItem_blank c id hb, answer, atOnce, Prog.settle]
    | false =>
      simp [Noted.grants, Noted.asked, entry_updateItem c id hb, changes, respond, changeItem, storeCall, access,
        Prog.bind, Prog.settle]
  | _ => cases he

/-- Granting anything but an edit takes nothing from what was granted. -/
theorem Trusted.mutes {granted : List Request} {delivered : List (Uuid × PromptRow)}
    (hv : Fulfilled granted delivered s') (hno : a.grants e p = [] ∨ ∃ request, a.asked e = some request ∧
      request.edits = false) : Fulfilled (granted ++ a.grants e p) delivered s' := by
  rcases a.grants_cases e p with hg | ⟨request, ha, hg⟩
  · rw [hg, List.append_nil]
    exact hv
  · rw [hg]
    rcases hno with hno | ⟨request', ha', hb⟩
    · rw [hg] at hno
      cases hno
    · rw [ha, Option.some.injEq] at ha'
      exact hv.mute (ha' ▸ hb)

theorem Trusted.arrive (hv : Trusted a hands)
    (he : noting.step a (.arrive request) = some a') : ∃ hands', Trusted a' hands' := by
  simp only [noting, Option.map_eq_some_iff] at he
  obtain ⟨p, hf, rfl⟩ := he
  have hlen := hv.coupled.1
  have hserves : ∀ j, j < hands.length →
      a.server.serving a.serves (.arrive request : ServerEvent) j = a.serves j := by
    intro j hj
    rw [Pool.serving, Function.update_of_ne (by omega)]
  have hup : Upheld (a.server.serving a.serves (.arrive request : ServerEvent)) a.carries
      (a.granted ++ a.grants (.arrive request) p) a.delivered a.server.shared (hands ++ [request.hand]) := by
    have happ := hv.upheld.append request.hand_row hserves fun hed =>
      ⟨request, by rw [Pool.serving, ← hlen, Function.update_self], hed⟩
    refine ⟨happ.carried, happ.editors, happ.carries, happ.spent, Trusted.mutes happ.fulfilled ?_⟩
    cases hb : request.edits with
    | true => exact .inl (arrive_grants hf hb)
    | false => exact .inr ⟨request, rfl, hb⟩
  obtain ⟨hands', hc, hv'⟩ := (upheld_kept _ _ _ _ hands.length).arrive hv.coupled
    (entry_passes request) hup hf
  refine ⟨hands', hc, hv.serving.arrive (abides_settle request) hf, ?_⟩
  show Upheld _ _ _ (a.delivered ++ []) _ _
  rw [List.append_nil]
  exact hv'

/-- What a move at an await leaves in the hand of its task was noted. -/
theorem Trusted.fetches (hv : Trusted a hands) (hat : a.server.At i x)
    (hacts : a.server.acts i w = some s') (hi : hands[i]? = some h)
    (hm : Passes (some (x, w)) h a.server.shared h' s') {row : QueueItemRow} (hr : h'.row = some row) :
    a.pops (.run i w) i = some row.id := by
  have hsite : a.server.restsAt i = some x := hat
  simp only [Noted.pops, hsite, hacts]
  rcases hm.holds hr with hrow | ⟨hx, j, hj, hp, rfl, rfl⟩
  · rw [if_neg]
    · exact hv.upheld.carries i h row hi hrow
    · intro hx
      obtain ⟨th, hth, hrest⟩ := hv.coupled.thread hi
      have hs : th.site = some x := by
        rw [← hsite, Pool.restsAt, hth]
        rfl
      rw [hs] at hrest
      have hcar : x.carries = true := HoldsAt.carries hrest (by simp [hrow])
      simp [Site.carries, hx, Call.handles] at hcar
  · rw [if_pos hx, Function.update_self]
    exact taken_pop hv.upheld.carried.distinct hj hp

theorem Noted.pops_other (a : Noted) (i : Nat) (w : Choice) {j : Nat} (hne : j ≠ i) :
    a.pops (.run i w) j = a.carries j := by
  simp only [pops]
  cases a.server.restsAt i with
  | none => rfl
  | some x =>
    cases a.server.acts i w with
    | none => rfl
    | some s' =>
      dsimp only
      split
      · exact Function.update_of_ne hne _ _
      · rfl

/-- What a move at an await stores for its item is noted, and spends the item. -/
theorem Trusted.stores (hv : Trusted a hands) (hat : a.server.At i x)
    (hacts : a.server.acts i w = some s') (hi : hands[i]? = some h)
    (hm : Passes (some (x, w)) h a.server.shared h' s') {e : Uuid × PromptRow}
    (he : e ∈ a.stores (.run i w)) : Spent e.1 s' (hands.set i h') ∧
      ∃ j ∈ a.server.shared.store.items, j.id = e.1 ∧ e.2.content = j.body := by
  have hsite : a.server.restsAt i = some x := hat
  simp only [Noted.stores, hsite, hacts] at he
  cases hcar : a.carries i with
  | none =>
    rw [hcar] at he
    cases he
  | some id =>
    rw [hcar] at he
    dsimp only at he
    split at he
    · rename_i hx
      obtain ⟨th, hth, hrest⟩ := hv.coupled.thread hi
      have hs : th.site = some x := by
        rw [← hsite, Pool.restsAt, hth]
        rfl
      rw [hs] at hrest
      rcases hm.copies hrest hx.1 hx.2 with hnil | ⟨k, row, q, rfl, hr, hb, hitems, hone⟩
      · rw [hnil] at he
        cases he
      · rw [hone] at he
        rw [List.mem_singleton.mp he]
        have hid := hv.upheld.carries i h row hi hr
        rw [hcar, Option.some.injEq] at hid
        subst hid
        refine ⟨hv.upheld.carried.spends hi hr hitems hm.nextId, row, ?_, rfl, hb⟩
        exact (hv.upheld.carried.kept h (mem_of_get hi) row hr).1
    · cases he

/-- What a move at an await leaves of what was granted, and what it adds. -/
theorem Trusted.fulfils (hv : Trusted a hands) (hf : a.server.fire entry (.run i w) = some p)
    (hat : a.server.At i x) (hacts : a.server.acts i w = some s') (hi : hands[i]? = some h)
    (hm : Passes (some (x, w)) h a.server.shared h' s') :
    Fulfilled (a.granted ++ a.grants (.run i w) p) (a.delivered ++ a.stores (.run i w)) s' := by
  obtain ⟨th, hth, -⟩ := hv.coupled.thread hi
  obtain ⟨-, -, hrest, -⟩ := hv.coupled.2 i th hth
  obtain ⟨out, hout, hp, -⟩ := Pool.fire_own hf hth
  have hthacts : th.prog.acts w a.server.shared = some s' := by
    rw [← hacts, Pool.acts, hth]
    rfl
  by_cases hedit : ∃ request, a.serves i = some request ∧ request.edits = true
  · obtain ⟨request, hreq, he⟩ := hedit
    obtain ⟨fn, c, call, id, act, hprog, hcall, hr⟩ :=
      (hv.serving.fits i th request hth hreq).at_edit he hrest hout
    rw [hprog] at hout hthacts
    obtain ⟨-, response, hanswers, hdone⟩ := changes_resume hout
    have hstores : a.stores (.run i w) = [] := by
      have hsite : a.server.restsAt i = some ⟨fn, c, call⟩ := by
        rw [Pool.restsAt, hth, Option.bind_some, Thread.site, hprog]
        rfl
      simp only [Noted.stores, hsite, hacts]
      cases a.carries i with
      | none => rfl
      | some id => exact if_neg fun hx => hcall hx.2
    have hasked : a.asked (.run i w) = some request := hreq
    rw [hstores, List.append_nil, Noted.grants_eq hasked (hp ▸ hanswers), changes_acts hthacts]
    cases hw : w.fail with
    | true =>
      simp only [hw, Bool.true_eq_false, false_and, iff_false] at hdone
      rw [if_neg hdone, List.append_nil]
      exact hv.upheld.fulfilled
    | false =>
      simp only [hdone, hw, true_and, Bool.false_eq_true, if_false]
      exact hv.upheld.fulfilled.revises hv.upheld.carried hv.upheld.spent hr
  · have hbodies : h = .editor → BodiesStay a.server.shared s' := by
      rintro rfl
      obtain ⟨request, hreq, hhand⟩ := hv.upheld.editors i hi
      have hno : request.edits = false := by
        simpa using fun he => hedit ⟨request, hreq, he⟩
      obtain ⟨y, hy⟩ := ((hv.serving.fits i th request hth hreq).2 hno hhand).acts hthacts
      exact hy
    apply Trusted.mutes (hv.upheld.fulfilled.keep (hm.bodies hbodies) fun e he =>
      (hv.stores hat hacts hi hm he).2)
    rcases a.grants_cases (.run i w) p with hg | ⟨request, hreq, -⟩
    · exact .inl hg
    · exact .inr ⟨request, hreq, by simpa using fun he => hedit ⟨request, hreq, he⟩⟩

theorem Trusted.run (hv : Trusted a hands) (hg : HandsOn a (.run i w))
    (he : noting.step a (.run i w) = some a') : ∃ hands', Trusted a' hands' := by
  simp only [noting, Option.map_eq_some_iff] at he
  obtain ⟨p, hf, rfl⟩ := he
  obtain ⟨hands', hc, hv'⟩ := (upheld_kept a.serves (a.pops (.run i w))
    (a.granted ++ a.grants (.run i w) p) (a.delivered ++ a.stores (.run i w)) i).fire_acting
    hv.coupled (fun _ _ => trivial) (by
      intro x h h' s' hat hacts hi hm
      apply hv.upheld.moves hi hm
      · rintro _ _ ⟨⟩
        exact hg x hat
      · exact fun j hne => a.pops_other i w hne
      · exact fun row hr => hv.fetches hat hacts hi hm hr
      · exact fun e he => (hv.stores hat hacts hi hm he).1
      · exact hv.fulfils hf hat hacts hi hm) hf
  exact ⟨hands', hc, hv.serving.run abides_resume hf, hv'⟩

theorem Trusted.honoured (hv : Trusted a hands) : Honoured a :=
  ⟨fun c id hg => (hv.upheld.fulfilled.cancels c id hg).2.2,
    fun id body hl => (hv.upheld.fulfilled.edits id body hl).2.2⟩

end Steps

/-- A server just started, of which nothing was noted yet. -/
def unnoted (s : AppState) : Noted := ⟨⟨s, []⟩, fun _ => none, fun _ => none, [], []⟩

theorem Trusted.start {s : AppState} (hd : (s.store.items.map QueueItemRow.id).Nodup)
    (hf : ∀ i ∈ s.store.items, i.id < s.nextId) : Trusted (unnoted s) [] := by
  refine ⟨transfer_start s, ⟨fun _ _ => rfl, by simp [unnoted]⟩, ?_⟩
  refine ⟨⟨hd, hf, by simp, by simp⟩, by simp, by simp, by simp [unnoted], ?_⟩
  exact ⟨by simp [unnoted], by simp [unnoted, lastEdit]⟩

/-- No prompt is ever stored for an item whose cancel was answered with 204, and every
prompt stored for an edited item has the body of its last edit answered so, as long as no
task that has stored the prompt of an item fails to hand it on. -/
theorem cancels_and_edits_honoured {s : AppState} {a : Noted}
    (hd : (s.store.items.map QueueItemRow.id).Nodup) (hf : ∀ i ∈ s.store.items, i.id < s.nextId)
    (h : noting.Reaches HandsOn (unnoted s) a) : Honoured a := by
  have htrusted : ∃ hands, Trusted a hands := by
    apply h.keeps ⟨[], .start hd hf⟩
    intro a e a' ⟨hands, hv⟩ hg he
    cases e with
    | arrive request => exact hv.arrive he
    | run i w => exact hv.run hg he
  obtain ⟨hands, hv⟩ := htrusted
  exact hv.honoured

/-- Of two queued messages one is rewritten and one taken back before the first is run. -/
def onePicked : List ServerEvent :=
  .arrive (.enqueue 1 ['a']) :: rounds 0 2 ++ .arrive (.updateItem 1 10 ['b']) :: rounds 1 1 ++
    .arrive (.enqueue 1 ['c']) :: rounds 2 2 ++ .arrive (.cancel 1 11) :: rounds 3 1 ++
    .arrive (.runNext 1) :: rounds 4 9

theorem cancels_and_edits_honoured_picked : ∃ a,
    noting.Reaches HandsOn (unnoted (serve freshStore 10 [['p']])) a ∧ Honoured a ∧
      a.granted = [.updateItem 1 10 ['b'], .cancel 1 11] ∧
      a.delivered.map (fun e => (e.1, e.2.content)) = [(10, ['b'])] := by
  have hrun : (noting.play HandsOn (unnoted (serve freshStore 10 [['p']])) onePicked).map
      (fun a => (a.granted, a.delivered.map (fun e => (e.1, e.2.content)))) =
      some ([.updateItem 1 10 ['b'], .cancel 1 11], [(10, ['b'])]) := by decide
  obtain ⟨a, ha, he⟩ := Option.map_eq_some_iff.mp hrun
  simp only [Prod.mk.injEq] at he
  have hreach := Machine.play_reaches ha
  exact ⟨a, hreach, cancels_and_edits_honoured (by decide) (by decide) hreach, he.1, he.2⟩

/-- The chat is deleted while the drain has stored a prompt that is not yet cached. The drain
gives the item back, and its cancel is granted. -/
def deletedMidway : List ServerEvent :=
  .arrive (.enqueue 1 ['a']) :: rounds 0 2 ++ .arrive (.setMode 1 .auto) :: rounds 1 5 ++
    rounds 2 9 ++ .arrive (.deleteChat 1) :: rounds 3 2 ++ rounds 2 3 ++
    .arrive (.cancel 1 10) :: rounds 4 1

theorem cancelled_item_delivered :
    ¬ ∀ (s : AppState) (a : Noted), (s.store.items.map QueueItemRow.id).Nodup →
      (∀ i ∈ s.store.items, i.id < s.nextId) →
      noting.Reaches Machine.anyEvent (unnoted s) a → Honoured a := by
  intro hall
  have hrun : (noting.play Machine.anyEvent (unnoted (serve freshStore 10 [['p']]))
      deletedMidway).map (fun a => (a.granted, a.delivered.map Prod.fst)) =
      some ([.setMode 1 .auto, .deleteChat 1, .cancel 1 10], [10]) := by decide
  obtain ⟨a, ha, he⟩ := Option.map_eq_some_iff.mp hrun
  simp only [Prod.mk.injEq] at he
  have hgood := hall _ a (by decide) (by decide) (Machine.play_reaches ha)
  have hmem : 10 ∈ a.delivered.map Prod.fst := by simp [he.2]
  obtain ⟨e, hdel, hid⟩ := List.mem_map.mp hmem
  exact hgood.cancels 1 10 (by simp [he.1]) e hdel hid

end AgentGrove
