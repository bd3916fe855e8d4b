import AgentGrove.Proofs.Aside
import AgentGrove.Routing.Roles

namespace AgentGrove

open Coop

section Routing

variable {α : Type} {t : Tag} {r r' : Role} {fn : Fn} {c : Uuid} {call : Call}

/-- Calm code keeps any role that may rest wherever the code does. -/
theorem calm_follows {p : Async α} (hp : Calm fn c p)
    (hr : ∀ call, Rests t (some ⟨fn, c, call⟩) r) :
    routing.Follows t p r (fun _ r' => r' = r) := by
  refine Protocol.follows_within hp ?_ ?_ ?_ fun _ => rfl
  · rintro ⟨f, d, call⟩ ⟨rfl, rfl, -⟩
    exact hr call
  · exact fun _ _ _ _ _ _ h => .quiet h
  · exact fun _ _ _ h => .quiet h

theorem publish_follows (d : Uuid) (frame : Frame) :
    routing.Follows t (publish d frame) r (fun _ r' => r' = r) :=
  atOnce_follows fun _ _ => ⟨r, .quiet ⟨rfl, rfl, rfl, rfl, rfl, rfl, fun _ => .rfl, rfl, rfl⟩, rfl⟩

theorem answer_follows (request : Request) (response : Response) :
    routing.Follows t (answer request response) r (fun _ r' => r' = r) :=
  atOnce_follows fun _ _ => ⟨r, .answered _, rfl⟩

theorem lockRouting_follows (hr : Rests t (some ⟨fn, c, call⟩) r)
    (h : Locks ⟨fn, c, call⟩ r r') :
    routing.Follows t (lockRouting fn c call) r (fun _ x => x = r') := by
  refine ⟨hr, fun w s s' b _ ha => ?_⟩
  dsimp only at ha
  cases hl : s.routingLock with
  | true => simp [hl] at ha
  | false =>
    rw [hl] at ha
    cases ha
    exact ⟨r', .lock hl h, rfl⟩

theorem unlockRouting_follows (h : Unlocks r r') :
    routing.Follows t unlockRouting r (fun _ x => x = r') :=
  atOnce_follows fun _ _ => ⟨r', .unlock h, rfl⟩

/-- Looking at the flag settles which of two roles the task goes on in. -/
theorem isDispatching_follows {busy clear : Role} (hb : Looks c true r busy)
    (hc : Looks c false r clear) :
    routing.Follows t (isDispatching c) r
      (fun b x => b = true ∧ x = busy ∨ b = false ∧ x = clear) := by
  refine atOnce_follows fun s _ => ?_
  by_cases h : c ∈ s.dispatching
  · exact ⟨busy, .look (c := c) (by simpa [h] using hb), .inl ⟨by simp [h], rfl⟩⟩
  · exact ⟨clear, .look (c := c) (by simpa [h] using hc), .inr ⟨by simp [h], rfl⟩⟩

theorem insertDispatching_follows (h : Takes c r r') :
    routing.Follows t (insertDispatching c) r (fun _ x => x = r') :=
  atOnce_follows fun _ _ => ⟨r', .take h, rfl⟩

theorem removeDispatching_follows (h : Frees c r) :
    routing.Follows t (removeDispatching c) r (fun _ x => x = .freed c) :=
  atOnce_follows fun _ _ => ⟨.freed c, .free h, rfl⟩

theorem isAuto_iff (s : AppState) (c : Uuid) :
    QueueRepo.getMode s.store.modes c = .manual ↔ ¬ IsAuto s c := by
  unfold IsAuto
  cases QueueRepo.getMode s.store.modes c <;> simp

/-- A drain may be given up once the mode reads as manual. -/
theorem isAuto_drops (hr : Rests t (some ⟨fn, c, call⟩) r) (h : Drops c r r') :
    routing.Follows t (isAuto fn c call) r
      (fun b x => b = true ∧ x = r ∨ b = false ∧ x = r') := by
  refine Protocol.follows_then (M := fun e x => e = .ok .auto ∧ x = r ∨ e ≠ .ok .auto ∧ x = r')
    (storeCall_follows hr ?_ ?_) ?_
  · exact fun w s _ hw => ⟨r', .drop h (.inl hw), .inr ⟨by simp, rfl⟩⟩
  · intro w s _ _
    cases hm : QueueRepo.getMode s.store.modes c with
    | auto => exact ⟨r, .quiet (.refl s), .inl ⟨rfl, rfl⟩⟩
    | manual => exact ⟨r', .drop h (.inr (.inr ((isAuto_iff s c).mp hm))), .inr ⟨by simp, rfl⟩⟩
  · intro e x hx
    split
    · exact .inl ⟨rfl, by simpa using hx⟩
    · rename_i hne
      exact .inr ⟨rfl, (hx.resolve_left fun he => hne he.1).2⟩

theorem quiet_keeps (w : Choice) (s : AppState) (call : Call) :
    ∃ r', routing.move (some (⟨fn, c, call⟩, w)) r s r' s ∧ r' = r :=
  ⟨r, .quiet (.refl s), rfl⟩

/-- A store call that only reads keeps any role. -/
theorem storeRead_follows {ε β : Type} {err : ε} {act : Choice → AppState → Except ε β}
    (hr : Rests t (some ⟨fn, c, call⟩) r) :
    routing.Follows t (storeCall fn c call err (fun w s => (s, act w s))) r (fun _ x => x = r) :=
  storeCall_follows hr (fun w s _ _ => quiet_keeps w s call) fun w s _ _ => quiet_keeps w s call

theorem isAuto_follows (hr : Rests t (some ⟨fn, c, call⟩) r) :
    routing.Follows t (isAuto fn c call) r (fun _ x => x = r) := by
  refine Protocol.follows_to (storeRead_follows hr) fun mode => ?_
  split <;> rfl

theorem pendingCount_list (s : AppState) (c : Uuid) (mode : QueueMode) :
    QueueState.pendingCount ⟨c, mode, ((QueueRepo.list s.store.items c).filter
      (fun i => i.status ≠ .done)).map QueueItem.ofRow⟩ = 0 ↔ ¬ HasPending s c := by
  simp only [QueueState.pendingCount, List.length_eq_zero_iff, List.filter_eq_nil_iff,
    List.mem_map, List.mem_filter, QueueRepo.list, QueueRepo.ofChat, List.mem_insertionSort]
  constructor
  · rintro h ⟨i, hi, hc, hp⟩
    have hp' : i.status = .pending := by simpa [QueueRepo.isPending] using hp
    exact h (QueueItem.ofRow i) ⟨i, ⟨⟨hi, by simpa using hc⟩, by simp [hp']⟩, rfl⟩
      (by simp [QueueItem.ofRow, hp'])
  · rintro h _ ⟨i, ⟨⟨hi, hc⟩, -⟩, rfl⟩ hp
    exact h ⟨i, hi, by simpa using hc, hp⟩

theorem readState_follows
    (hr : ∀ call, call.afterClaim = false → call ≠ .markDone → Rests t (some ⟨fn, c, call⟩) r) :
    routing.Follows t (readState fn c) r (fun _ x => x = r) := by
  refine Protocol.follows_to (storeRead_follows (hr _ rfl (by decide))) fun mode => ?_
  exact Protocol.follows_to (storeRead_follows (hr _ rfl (by decide))) fun rows => rfl

/-- A drain may be given up once the queue reads as empty. -/
theorem readState_drops
    (hr : ∀ call, call.afterClaim = false → call ≠ .markDone → Rests t (some ⟨fn, c, call⟩) r)
    (h : Drops c r r') :
    routing.Follows t (readState fn c) r
      (fun q x => 0 < q.pendingCount ∧ x = r ∨ q.pendingCount = 0 ∧ x = r') := by
  refine Protocol.follows_to (storeRead_follows (hr _ rfl (by decide))) fun mode => ?_
  refine Protocol.follows_bind _ _ _ |>.mpr (storeCall_follows (hr _ rfl (by decide)) ?_ ?_)
  · exact fun w s _ hw => ⟨r', .drop h (.inl hw), .inr ⟨rfl, rfl⟩⟩
  · intro w s _ _
    by_cases hp : HasPending s c
    · refine ⟨r, .quiet (.refl s), .inl ⟨Nat.pos_of_ne_zero fun hz => ?_, rfl⟩⟩
      exact (pendingCount_list s c _).mp hz hp
    · exact ⟨r', .drop h (.inr (.inl hp)), .inr ⟨(pendingCount_list s c _).mpr hp, rfl⟩⟩

theorem enqueueItem_follows
    (hr : ∀ call, call.afterClaim = false → call ≠ .markDone → Rests t (some ⟨fn, c, call⟩) r)
    (h : r = .busy c ∧ r' = .busy c ∨ r = .clear c ∧ r' = .backlog c) (body : Text) :
    routing.Follows t (enqueueItem fn c body) r
      (fun e x => (∃ item, e = .ok item) ∧ x = r' ∨ (∃ err, e = .error err) ∧ x = r) := by
  refine Protocol.follows_to (storeRead_follows (hr _ rfl (by decide))) fun position => ?_
  cases position with
  | error err => exact .inr ⟨⟨err, rfl⟩, rfl⟩
  | ok position =>
    refine storeCall_follows (hr _ rfl (by decide)) ?_ ?_
    · exact fun _ s _ _ => ⟨r, .quiet (.refl s), .inr ⟨⟨_, rfl⟩, rfl⟩⟩
    · exact fun w s _ _ => ⟨r', .enqueue h rfl rfl, .inl ⟨⟨_, rfl⟩, rfl⟩⟩

/-- Storing a prompt from a role that may, whatever comes of it. -/
theorem storeAddPrompt_follows (hr : ∀ call, call ≠ .markDone → Rests t (some ⟨fn, c, call⟩) r)
    (h : Stores c r r) (content : Text) :
    routing.Follows t (storeAddPrompt fn c content) r (fun _ x => x = r) := by
  refine Protocol.follows_to (storeRead_follows (hr _ (by decide))) fun row => ?_
  cases row with
  | error e => rfl
  | ok row =>
  refine Protocol.follows_to (storeRead_follows (hr _ (by decide))) fun seq => ?_
  cases seq with
  | error e => rfl
  | ok seq =>
  refine Protocol.follows_to (storeCall_follows (hr _ (by decide)) (fun w s _ _ => quiet_keeps w s _) ?_) fun stored => ?_
  · intro w s _ _
    dsimp only
    split
    · exact ⟨r, .store h rfl rfl, rfl⟩
    · exact quiet_keeps w s _
  cases stored with
  | error e => rfl
  | ok stored =>
  refine Protocol.follows_to (storeCall_follows (hr _ (by decide)) (fun w s _ _ => quiet_keeps w s _) ?_) fun touched => ?_
  · exact fun _ s _ _ => ⟨r, .quiet (.updateRow s c _ fun _ => rfl), rfl⟩
  cases touched <;> rfl

theorem persistAddPrompt_follows (hr : ∀ call, call ≠ .markDone → Rests t (some ⟨fn, c, call⟩) r)
    (h : Stores c r r) (content : Text) :
    routing.Follows t (persistAddPrompt fn c content) r (fun _ x => x = r) := by
  refine Protocol.follows_to (storeAddPrompt_follows hr h content) fun row => ?_
  cases row with
  | error e => rfl
  | ok row =>
    refine Protocol.follows_to (access_follows (hr _ (by decide)) ?_) fun ok => rfl
    exact fun _ s _ => ⟨r, .quiet (ingest_quiet s c _), rfl⟩

/-- Storing the prompt of a flag just taken: the flag is kept for a task if all
goes well and leaks otherwise. -/
theorem storeAddPrompt_claims (content : Text) :
    routing.Follows (.handler c) (storeAddPrompt .sendMessage c content) (.claiming c)
      (fun a x => (∃ row, a = .ok row) ∧ x = .claiming c ∨
        (∃ e, a = .error e) ∧ x = .leaking c) := by
  have hrest : ∀ call, call.afterClaim = true →
      Rests (.handler c) (some ⟨.sendMessage, c, call⟩) (.claiming c) :=
    fun call hcall => ⟨rfl, rfl, by simp [Site.claims, hcall, Role.owns]⟩
  refine Protocol.follows_then (M := fun a x => (∃ row, a = .ok row) ∧ x = .claiming c ∨
    (∃ e, a = .error e) ∧ x = .leaking c) (storeCall_follows (hrest _ rfl) ?_ ?_) ?_
  · exact fun w s _ hw => ⟨_, .leak (.inl rfl) rfl (.inl ⟨hw, rfl⟩) (.refl s), .inr ⟨⟨_, rfl⟩, rfl⟩⟩
  · intro w s _ _
    dsimp only
    cases hget : ChatRepo.get s.store.chats c with
    | some row => exact ⟨_, .quiet (.refl s), .inl ⟨⟨_, rfl⟩, rfl⟩⟩
    | none =>
      refine ⟨_, .leak (.inl rfl) rfl (.inr (.inr ⟨rfl, ?_⟩)) (.refl s), .inr ⟨⟨_, rfl⟩, rfl⟩⟩
      simp [Stored, hget]
  rintro _ _ (⟨⟨row, rfl⟩, rfl⟩ | ⟨⟨e, rfl⟩, rfl⟩)
  swap
  · exact .inr ⟨⟨e, rfl⟩, rfl⟩
  refine Protocol.follows_then (M := fun a x => (∃ seq, a = .ok seq ∧ x = .numbered c seq) ∨
    (∃ e, a = .error e) ∧ x = .leaking c) (storeCall_follows (hrest _ rfl) ?_ ?_) ?_
  · exact fun w s _ hw => ⟨_, .leak (.inl rfl) rfl (.inl ⟨hw, rfl⟩) (.refl s), .inr ⟨⟨_, rfl⟩, rfl⟩⟩
  · exact fun w s _ _ => ⟨_, .number fun r hr hc => nextSeq_fresh hr hc, .inl ⟨_, rfl, rfl⟩⟩
  rintro _ _ (⟨seq, rfl, rfl⟩ | ⟨⟨e, rfl⟩, rfl⟩)
  swap
  · exact .inr ⟨⟨e, rfl⟩, rfl⟩
  refine Protocol.follows_then (M := fun a x => (∃ row, a = .ok row) ∧ x = .claiming c ∨
    (∃ e, a = .error e) ∧ x = .leaking c)
    (storeCall_follows ⟨rfl, rfl⟩ ?_ ?_) ?_
  · exact fun w s _ hw =>
      ⟨_, .leak (.inr ⟨seq, rfl⟩) rfl (.inl ⟨hw, rfl⟩) (.refl s), .inr ⟨⟨_, rfl⟩, rfl⟩⟩
  · intro w s _ _
    dsimp only
    split
    · exact ⟨_, .store .numbered rfl rfl, .inl ⟨⟨_, rfl⟩, rfl⟩⟩
    · rename_i hacc
      exact ⟨_, .leak (.inr ⟨seq, rfl⟩) rfl (.inr ⟨rfl, not_accepts hacc⟩) (.refl s),
        .inr ⟨⟨_, rfl⟩, rfl⟩⟩
  rintro _ _ (⟨⟨stored, rfl⟩, rfl⟩ | ⟨⟨e, rfl⟩, rfl⟩)
  swap
  · exact .inr ⟨⟨e, rfl⟩, rfl⟩
  refine Protocol.follows_then (M := fun a x => a = .ok () ∧ x = .claiming c ∨
    (∃ e, a = .error e) ∧ x = .leaking c) (storeCall_follows (hrest _ rfl) ?_ ?_) ?_
  · exact fun w s _ hw => ⟨_, .leak (.inl rfl) rfl (.inl ⟨hw, rfl⟩) (.refl s), .inr ⟨⟨_, rfl⟩, rfl⟩⟩
  · exact fun w s _ _ => ⟨_, .quiet (.updateRow s c _ fun _ => rfl), .inl ⟨rfl, rfl⟩⟩
  rintro _ _ (⟨rfl, rfl⟩ | ⟨⟨e, rfl⟩, rfl⟩)
  · exact .inl ⟨⟨_, rfl⟩, rfl⟩
  · exact .inr ⟨⟨e, rfl⟩, rfl⟩

theorem persistAddPrompt_claims (content : Text) :
    routing.Follows (.handler c) (persistAddPrompt .sendMessage c content) (.claiming c)
      (fun a x => (∃ p, a = .ok (some p)) ∧ x = .claimed c ∨
        (∀ p, a ≠ .ok (some p)) ∧ x = .leaking c) := by
  refine Protocol.follows_then (storeAddPrompt_claims content) ?_
  rintro _ _ (⟨⟨row, rfl⟩, rfl⟩ | ⟨⟨e, rfl⟩, rfl⟩)
  swap
  · exact .inr ⟨by simp, rfl⟩
  refine Protocol.follows_then (M := fun ok x => ok = true ∧ x = .claimed c ∨ ok = false ∧ x = .leaking c)
    (access_follows ⟨rfl, rfl, rfl⟩ fun w s _ => ?_) ?_
  · cases hget : s.chats.get c with
    | some chat =>
      exact ⟨_, .claimed (ingest_quiet s c _), .inl ⟨by simp [ChatRegistry.ingestPrompt, hget], rfl⟩⟩
    | none =>
      refine ⟨_, .leak (.inl rfl) rfl (.inr (.inl ⟨.inr rfl, by simp [Cached, hget]⟩))
        (ingest_quiet s c _), .inr ⟨by simp [ChatRegistry.ingestPrompt, hget], rfl⟩⟩
  · rintro _ _ (⟨rfl, rfl⟩ | ⟨rfl, rfl⟩)
    · exact .inl ⟨⟨_, rfl⟩, rfl⟩
    · exact .inr ⟨by simp, rfl⟩

/-- Where the rows of an updated queue come from. -/
def From (k : Option Uuid) (items items' : List QueueItemRow) : Prop :=
  ∀ i' ∈ items', ∃ i ∈ items, i.id = i'.id ∧ i.chatId = i'.chatId ∧
    (QueueRepo.isPending i' = true → QueueRepo.isPending i = true ∨ k = some i'.id)

theorem setStatus_from (guard : QueueItemRow → Bool) (status : QueueStatus) (now : Nat)
    (itemId : Uuid) (items : List QueueItemRow) {k : Option Uuid}
    (h : status = .pending → k = some itemId) :
    From k items (QueueRepo.setStatus guard status now itemId items) := by
  intro i' hi'
  obtain ⟨i, hi, rfl⟩ := List.mem_map.mp hi'
  refine ⟨i, hi, ?_⟩
  split
  · rename_i hg
    refine ⟨rfl, rfl, fun hp => .inr ?_⟩
    have hs : status = .pending := by simpa [QueueRepo.isPending] using hp
    rw [h hs, ← hg.1]
  · exact ⟨rfl, rfl, .inl⟩

theorem filter_from (items : List QueueItemRow) (keep : QueueItemRow → Bool)
    {k : Option Uuid} : From k items (items.filter keep) :=
  fun i' hi' => ⟨i', (List.mem_filter.mp hi').1, rfl, rfl, .inl⟩

theorem self_from (items : List QueueItemRow) {k : Option Uuid} : From k items items :=
  fun i' hi' => ⟨i', hi', rfl, rfl, .inl⟩

theorem pop_from (now : Nat) (items : List QueueItemRow) (row : Option QueueItemRow)
    {k : Option Uuid} : From k items (QueueRepo.pop now items row).2 := by
  cases row with
  | none => exact self_from items
  | some i => exact setStatus_from _ _ _ _ _ (by simp)

theorem items_move {x : Site} {w : Choice} {s : AppState} {items : List QueueItemRow}
    {k : Option Uuid} (h : Handles c s.store.items r r') (hf : From k s.store.items items)
    (hc : ∀ id, k = some id → r = .carrying c id) :
    routing.move (some (x, w)) r s r' (setItems items s) := by
  refine .items h fun i' hi' => ?_
  obtain ⟨i, hi, hid, hch, hp⟩ := hf i' hi'
  exact ⟨i, hi, hid, hch, fun hp' => (hp hp').imp_right (hc _)⟩

/-- A handler's pop. -/
theorem popItem_follows (hr : Rests t (some ⟨fn, c, .popItem⟩) (.checked c))
    (row : List QueueItemRow → Option QueueItemRow) :
    routing.Follows t (popItem fn c (fun now items => QueueRepo.pop now items (row items)))
      (.checked c) (fun _ x => x = .checked c) := by
  refine storeCall_follows hr (fun w s _ _ => quiet_keeps w s _) fun w s _ _ => ?_
  exact ⟨_, items_move (k := none) .checked (pop_from _ _ _) (by simp), rfl⟩

theorem changeItem_follows {itemId : Uuid} {guard : QueueItemRow → Bool}
    {act : Nat → List QueueItemRow → List QueueItemRow} {k : Option Uuid}
    (hr : Rests t (some ⟨fn, c, call⟩) r) (hh : ∀ items, Handles c items r r')
    (hf : ∀ now items, From k items (act now items))
    (hc : ∀ id, k = some id → r = .carrying c id) :
    routing.Follows t (changeItem fn c call itemId guard act) r (fun _ x => x = r') := by
  refine storeCall_follows hr ?_ ?_
  · intro w s _ _
    have hm := items_move (x := ⟨fn, c, call⟩) (w := w) (hh s.store.items) (self_from _) hc
    exact ⟨r', hm, rfl⟩
  · exact fun w s _ _ => ⟨r', items_move (hh _) (hf _ _) hc, rfl⟩

section Task

variable (ht : t = .dispatch c ∨ t = .drain c)
include ht

theorem task_rests (call : Call) : Rests t (some ⟨fn, c, call⟩) (.task c) := by
  rcases ht with rfl | rfl <;> exact ⟨rfl, rfl⟩

theorem carrying_rests (itemId : Uuid) (call : Call) :
    Rests t (some ⟨fn, c, call⟩) (.carrying c itemId) := by
  rcases ht with rfl | rfl <;> exact ⟨rfl, rfl⟩

theorem clearing_rests (call : Call) : Rests t (some ⟨fn, c, call⟩) (.clearing c) := by
  rcases ht with rfl | rfl <;> exact ⟨rfl, rfl⟩

theorem popNextPending_takes :
    routing.Follows t (popNextPending fn c) (.task c)
      (fun e x => (∃ item, e = .ok (some item) ∧ x = .carrying c item.id) ∨
        (∀ item, e ≠ .ok (some item)) ∧ x = .task c) := by
  refine storeCall_follows (task_rests ht _) ?_ ?_
  · exact fun w s _ _ => ⟨_, .quiet (.refl s), .inr ⟨by simp, rfl⟩⟩
  · intro w s _ _
    dsimp only [QueueRepo.popNextPending]
    cases hrow : QueueRepo.headPending s.store.items c with
    | none =>
      exact ⟨_, items_move (k := none) .task (self_from _) (by simp),
        .inr ⟨by simp [QueueRepo.pop], rfl⟩⟩
    | some i =>
      obtain ⟨hi, hc, -⟩ := headPending_mem hrow
      exact ⟨_, items_move (k := none) (.take ⟨i, hi, rfl, hc⟩)
        (pop_from w.now _ (some i)) (by simp), .inl ⟨_, rfl, rfl⟩⟩

theorem resetToPending_gives (itemId : Uuid) :
    routing.Follows t (resetToPending fn c itemId) (.carrying c itemId)
      (fun _ x => x = .task c) := by
  refine changeItem_follows (k := some itemId) (carrying_rests ht _ _) (fun _ => .give)
    (fun now items => setStatus_from _ _ _ _ _ fun _ => rfl) ?_
  rintro _ ⟨⟩
  rfl

theorem markDone_gives (itemId : Uuid) :
    routing.Follows t (markDone fn c itemId) (.carrying c itemId) (fun _ x => x = .task c) :=
  changeItem_follows (k := none) (carrying_rests ht _ _) (fun _ => .give)
    (fun now items => filter_from _ _) (by simp)

theorem drainRound_follows :
    routing.Follows t (drainRound fn c) (.task c) (fun _ x => x = .task c) := by
  have hreset : ∀ itemId, routing.Follows t
      ((resetToPending fn c itemId).bind fun _ => (.ret (.inr ()) : Async (Unit ⊕ Unit)))
      (.carrying c itemId) (fun _ x => x = .task c) :=
    fun itemId => Protocol.follows_to (resetToPending_gives ht itemId) fun _ => rfl
  refine Protocol.follows_to (isAuto_follows (task_rests ht _)) fun auto => ?_
  cases auto with
  | false => rfl
  | true =>
  refine Protocol.follows_then (popNextPending_takes ht) ?_
  rintro e x (⟨item, rfl, rfl⟩ | ⟨hne, rfl⟩)
  swap
  · cases e with
    | error e => rfl
    | ok found =>
      cases found with
      | none => rfl
      | some item => exact absurd rfl (hne item)
  refine Protocol.follows_to (isAuto_follows (carrying_rests ht _ _)) fun auto => ?_
  cases auto with
  | false => exact hreset item.id
  | true =>
  refine Protocol.follows_to (getChat_follows (carrying_rests ht _ _) fun w s _ => quiet_keeps w s _)
    fun found => ?_
  cases found with
  | none => exact hreset item.id
  | some chat =>
  refine Protocol.follows_to (persistAddPrompt_follows (fun _ _ => carrying_rests ht _ _) .carrying _) fun stored => ?_
  split
  · refine Protocol.follows_to (markDone_gives ht item.id) fun _ => Protocol.follows_to (publish_follows _ _) fun _ => ?_
    refine Protocol.follows_to (calm_follows (resolveCwd_calm _) (task_rests ht)) fun cwd => ?_
    refine Protocol.follows_to (calm_follows (show Calm fn c (resolveProvider _) from resolveProvider_calm _) (task_rests ht))
      fun provider => ?_
    cases provider with
    | some p =>
      exact Protocol.follows_to (calm_follows (dispatchViaProvider_calm _ _ _ _ _ _ _) (task_rests ht))
        fun _ => rfl
    | none => exact Protocol.follows_to (calm_follows (dispatchEcho_calm _ _) (task_rests ht)) fun _ => rfl
  · exact hreset item.id

theorem drainLoop_follows :
    routing.Follows t (drainLoop fn c) (.task c) (fun _ x => x = .task c) := by
  apply loop_follows (task_rests ht _) fun _ s => Moves.quiet (.refl s)
  intro _
  apply Protocol.follows_mono (drainRound_follows ht)
  intro next x hx
  cases next with
  | inl _ => exact hx
  | inr _ => exact hx

theorem mustContinue_drops (queue : QueueState) (hq : 0 < queue.pendingCount) :
    routing.Follows t (mustContinue fn c queue) (.clearing c)
      (fun b x => b = true ∧ x = .clearing c ∨ b = false ∧ x = .leaving c) := by
  unfold mustContinue
  rw [if_pos hq]
  exact isAuto_drops (clearing_rests ht _) .task

theorem clearDispatching_follows :
    routing.Follows t (clearDispatching fn c) (.task c)
      (fun b x => b = false ∧ x = .task c ∨ b = true ∧ x = .idle c) := by
  have hfree : routing.Follows t ((removeDispatching c).bind fun _ => unlockRouting.bind fun _ =>
      (publish c .chatIdle).bind fun _ => .ret true) (.leaving c)
      (fun b x => b = false ∧ x = .task c ∨ b = true ∧ x = .idle c) :=
    Protocol.follows_to (removeDispatching_follows .leaving) fun _ =>
      Protocol.follows_to (unlockRouting_follows .freed) fun _ =>
        Protocol.follows_to (publish_follows _ _) fun _ => .inr ⟨rfl, rfl⟩
  refine Protocol.follows_to (lockRouting_follows (task_rests ht _) .task) fun _ => ?_
  refine Protocol.follows_then (readState_drops (fun call _ _ => clearing_rests ht call) .task) ?_
  rintro queue _ (⟨hq, rfl⟩ | ⟨hq, rfl⟩)
  · refine Protocol.follows_then (mustContinue_drops ht queue hq) ?_
    rintro _ _ (⟨rfl, rfl⟩ | ⟨rfl, rfl⟩)
    · exact Protocol.follows_to (unlockRouting_follows .clearing) fun _ => .inl ⟨rfl, rfl⟩
    · exact hfree
  · have hzero : mustContinue fn c queue = .ret false := by
      unfold mustContinue
      rw [hq]
      rfl
    rw [hzero]
    exact hfree

theorem drainUntilIdle_follows :
    routing.Follows t (drainUntilIdle fn c) (.task c) (fun _ x => x = .idle c) := by
  apply loop_follows (task_rests ht _) fun _ s => Moves.quiet (.refl s)
  intro _
  apply Protocol.follows_to (drainLoop_follows ht)
  intro _
  refine Protocol.follows_then (clearDispatching_follows ht) ?_
  rintro _ _ (⟨rfl, rfl⟩ | ⟨rfl, rfl⟩)
  · rfl
  · rfl

end Task

theorem dropGuard_follows :
    routing.Follows t (dropGuard c) (.idle c) (fun _ x => x = .idle c) := by
  refine spawn_follows .guard trivial ?_ rfl
  refine Protocol.follows_to (lockRouting_follows ⟨rfl, rfl⟩ .guard) fun _ => ?_
  refine Protocol.follows_to (removeDispatching_follows .removing) fun _ => ?_
  exact Protocol.follows_to (unlockRouting_follows .freed) fun _ => publish_follows _ _

theorem drainTask_follows :
    routing.Follows (.drain c) (drainTask c) (.task c) (fun _ x => Rests (.drain c) none x) :=
  Protocol.follows_to (drainUntilIdle_follows (.inr rfl)) fun _ => dropGuard_follows

theorem dispatchTask_follows (chat : ChatRecord) (prompt : PromptRecord) (body : Text) :
    routing.Follows (.dispatch c) (dispatchTask c chat prompt body) (.task c)
      (fun _ x => Rests (.dispatch c) none x) := by
  have ht : Tag.dispatch c = .dispatch c ∨ Tag.dispatch c = .drain c := .inl rfl
  refine Protocol.follows_to (calm_follows (resolveCwd_calm _) (task_rests ht)) fun cwd => ?_
  refine Protocol.follows_to (calm_follows
    (show Calm .dispatchTask c (resolveProvider _) from resolveProvider_calm _) (task_rests ht))
    fun provider => ?_
  refine Protocol.follows_to (calm_follows (firstTurn_calm _ _ _ _ _) (task_rests ht)) fun _ => ?_
  refine Protocol.follows_to (calm_follows (endCompaction_calm _) (task_rests ht)) fun _ => ?_
  exact Protocol.follows_to (drainUntilIdle_follows ht) fun _ => dropGuard_follows

theorem spawnDrainTask_follows :
    routing.Follows t (spawnDrainTask c) (.promised c) (fun _ x => x = .idle c) :=
  spawn_follows .drain trivial drainTask_follows rfl

theorem spawnDispatchTask_follows (chat : ChatRecord) (prompt : PromptRecord) (body : Text) :
    routing.Follows t (spawnDispatchTask c chat prompt body) (.promised c)
      (fun _ x => x = .idle c) :=
  spawn_follows .dispatch (dispatchTask_resting chat prompt body)
    (dispatchTask_follows chat prompt body) rfl

section Rests

variable (fn : Fn) (call : Call)

theorem unclaimed (hc : call.afterClaim = false) (hm : call ≠ .markDone) :
    Site.claims ⟨fn, c, call⟩ = false := by
  simp [Site.claims, hc, hm]

theorem busy_rests (hc : call.afterClaim = false) (hm : call ≠ .markDone) :
    Rests (.handler c) (some ⟨fn, c, call⟩) (.busy c) :=
  ⟨rfl, rfl, (unclaimed fn call hc hm).symm⟩

theorem clear_rests (hc : call.afterClaim = false) (hm : call ≠ .markDone) :
    Rests (.handler c) (some ⟨fn, c, call⟩) (.clear c) :=
  ⟨rfl, rfl, (unclaimed fn call hc hm).symm⟩

theorem kickClear_rests (hc : call.afterClaim = false) (hm : call ≠ .markDone) :
    Rests (.handler c) (some ⟨fn, c, call⟩) (.kickClear c) :=
  ⟨rfl, rfl, (unclaimed fn call hc hm).symm⟩

theorem checked_rests (h : Site.claims ⟨fn, c, call⟩ = false) :
    Rests (.handler c) (some ⟨fn, c, call⟩) (.checked c) :=
  ⟨rfl, rfl, h.symm⟩

theorem forcing_rests : Rests (.handler c) (some ⟨.addPrompt, c, call⟩) (.forcing c) := by
  refine ⟨rfl, rfl, ?_⟩
  simp [Site.claims, Role.owns]

end Rests

/-- A handler of `c` walked from one role to the idle one. -/
abbrev Serves {α : Type} (c : Uuid) (p : Async α) (r : Role) : Prop :=
  routing.Follows (.handler c) p r (fun _ x => x = .idle c)

theorem kickDrainIfIdle_serves (fn : Fn) : Serves c (kickDrainIfIdle fn c) (.kicking c) := by
  refine Protocol.follows_to (lockRouting_follows ⟨rfl, rfl, rfl⟩ .kick) fun _ => ?_
  refine Protocol.follows_then (isDispatching_follows .kickBusy .kickClear) ?_
  rintro _ _ (⟨rfl, rfl⟩ | ⟨rfl, rfl⟩)
  · exact unlockRouting_follows .holding
  refine Protocol.follows_then (isAuto_drops ⟨rfl, rfl, rfl⟩ .kick) ?_
  rintro _ _ (⟨rfl, rfl⟩ | ⟨rfl, rfl⟩)
  swap
  · exact unlockRouting_follows .holding
  refine Protocol.follows_then (readState_drops (kickClear_rests fn) .kick) ?_
  rintro queue _ (⟨hq, rfl⟩ | ⟨hq, rfl⟩)
  · rw [if_neg (by omega)]
    refine Protocol.follows_to (insertDispatching_follows .kick) fun _ => ?_
    exact Protocol.follows_to (unlockRouting_follows .claimed) fun _ => spawnDrainTask_follows
  · rw [if_pos hq]
    exact unlockRouting_follows .holding

theorem needKick_drops (isBusy : Bool) (hb : isBusy = false) :
    routing.Follows (.handler c) (needKick c isBusy) (.backlog c)
      (fun b x => b = true ∧ x = .backlog c ∨ b = false ∧ x = .clear c) := by
  rw [hb]
  exact isAuto_drops ⟨rfl, rfl, rfl⟩ .backlog

theorem sendMessage_serves (content : Text) : Serves c (sendMessage c content) (.idle c) := by
  refine Protocol.follows_to (lockRouting_follows ⟨rfl, rfl, rfl⟩ .handler) fun _ => ?_
  refine Protocol.follows_then (M := fun found x => (∃ chat, found = some chat) ∧ x = .admitted c ∨
    found = none ∧ x = .holding c) (getChat_follows ⟨rfl, rfl, rfl⟩ fun w s _ => ?_) ?_
  · cases hget : s.chats.get c with
    | some chat => exact ⟨_, .enter (by simp [Cached, hget]), .inl ⟨⟨chat, rfl⟩, rfl⟩⟩
    | none => exact ⟨_, .quiet (.refl s), .inr ⟨rfl, rfl⟩⟩
  rintro _ _ (⟨⟨chat, rfl⟩, rfl⟩ | ⟨rfl, rfl⟩)
  swap
  · exact Protocol.follows_to (unlockRouting_follows .holding) fun _ => rfl
  refine Protocol.follows_then (isDispatching_follows .admittedBusy .admittedClear) ?_
  rintro _ _ (⟨rfl, rfl⟩ | ⟨rfl, rfl⟩)
  · -- Busy: the message joins the queue.
    refine Protocol.follows_to (readState_follows (busy_rests _)) fun queue => ?_
    refine Protocol.follows_to (m := .busy c) (Protocol.follows_mono (enqueueItem_follows
      (busy_rests _) (.inl ⟨rfl, rfl⟩) _) ?_) fun queued => ?_
    · rintro _ _ (⟨-, h⟩ | ⟨-, h⟩) <;> exact h
    cases queued with
    | error e => exact Protocol.follows_to (unlockRouting_follows .busy) fun _ => rfl
    | ok item =>
      refine Protocol.follows_then (M := fun b x => b = false ∧ x = .busy c) ⟨rfl, rfl⟩ ?_
      rintro _ _ ⟨rfl, rfl⟩
      exact Protocol.follows_to (unlockRouting_follows .busy) fun _ => rfl
  refine Protocol.follows_to (readState_follows (clear_rests _)) fun queue => ?_
  split
  · -- Idle with a backlog: the message joins it and may start a drain.
    refine Protocol.follows_then (enqueueItem_follows (clear_rests _)
      (.inr ⟨rfl, rfl⟩) _) ?_
    rintro _ _ (⟨⟨item, rfl⟩, rfl⟩ | ⟨⟨e, rfl⟩, rfl⟩)
    swap
    · exact Protocol.follows_to (unlockRouting_follows .clear) fun _ => rfl
    refine Protocol.follows_then (needKick_drops _ rfl) ?_
    rintro _ _ (⟨rfl, rfl⟩ | ⟨rfl, rfl⟩)
    · refine Protocol.follows_to (insertDispatching_follows .backlog) fun _ => ?_
      refine Protocol.follows_to (unlockRouting_follows .claimed) fun _ => ?_
      exact Protocol.follows_to spawnDrainTask_follows fun _ => rfl
    · exact Protocol.follows_to (unlockRouting_follows .clear) fun _ => rfl
  · refine Protocol.follows_to (insertDispatching_follows .send) fun _ => ?_
    refine Protocol.follows_then (M := fun found x => (∃ chat, found = some chat) ∧ x = .claiming c ∨
      found = none ∧ x = .leaking c) (getChat_follows ⟨rfl, rfl, rfl⟩ fun w s _ => ?_) ?_
    · cases hget : s.chats.get c with
      | some chat => exact ⟨_, .quiet (.refl s), .inl ⟨⟨chat, rfl⟩, rfl⟩⟩
      | none =>
        exact ⟨_, .leak (.inl rfl) rfl (.inr (.inl ⟨.inl rfl, by simp [Cached, hget]⟩)) (.refl s),
          .inr ⟨rfl, rfl⟩⟩
    rintro _ _ (⟨⟨chat, rfl⟩, rfl⟩ | ⟨rfl, rfl⟩)
    swap
    · exact Protocol.follows_to (unlockRouting_follows .leaking) fun _ => rfl
    refine Protocol.follows_then (persistAddPrompt_claims content) ?_
    rintro stored _ (⟨⟨p, rfl⟩, rfl⟩ | ⟨hne, rfl⟩)
    · refine Protocol.follows_to (unlockRouting_follows .claimed) fun _ => ?_
      exact Protocol.follows_to (spawnDispatchTask_follows _ _ _) fun _ => rfl
    · cases stored with
      | error e => exact Protocol.follows_to (unlockRouting_follows .leaking) fun _ => rfl
      | ok found =>
        cases found with
        | none => exact Protocol.follows_to (unlockRouting_follows .leaking) fun _ => rfl
        | some p => exact absurd rfl (hne p)

theorem addPrompt_serves (content : Text) : Serves c (addPrompt c content) (.eager c) := by
  refine Protocol.follows_to (lockRouting_follows ⟨rfl, rfl, rfl⟩ .force) fun _ => ?_
  refine Protocol.follows_to (getChat_follows ⟨rfl, rfl, rfl⟩ fun w s _ => quiet_keeps w s _)
    fun found => ?_
  cases found with
  | none => exact Protocol.follows_to (unlockRouting_follows .forcing) fun _ => rfl
  | some chat =>
  refine Protocol.follows_to (persistAddPrompt_follows (fun call _ => forcing_rests call) .forcing _)
    fun stored => ?_
  cases stored with
  | error e => exact Protocol.follows_to (unlockRouting_follows .forcing) fun _ => rfl
  | ok stored =>
    cases stored with
    | none => exact Protocol.follows_to (unlockRouting_follows .forcing) fun _ => rfl
    | some prompt =>
      refine Protocol.follows_to (insertDispatching_follows .force) fun _ => ?_
      refine Protocol.follows_to (unlockRouting_follows .claimed) fun _ => ?_
      exact Protocol.follows_to (spawnDispatchTask_follows _ _ _) fun _ => rfl

theorem dispatchPopped_serves {fn : Fn} (hfn : fn = .runNext ∨ fn = .dispatchItem)
    (item : QueueItem) : Serves c (dispatchPopped fn c item) (.checked c) := by
  have hrest : ∀ call, call ≠ .markDone → Rests (.handler c) (some ⟨fn, c, call⟩) (.checked c) := by
    intro call hm
    refine checked_rests fn call ?_
    rcases hfn with rfl | rfl <;> simp [Site.claims, hm]
  refine Protocol.follows_to (getChat_follows (hrest _ (by decide)) fun w s _ => quiet_keeps w s _)
    fun found => ?_
  cases found with
  | none => exact Protocol.follows_to (unlockRouting_follows .checked) fun _ => rfl
  | some chat =>
  refine Protocol.follows_to (persistAddPrompt_follows hrest .checked _)
    fun stored => ?_
  split
  · refine Protocol.follows_to (insertDispatching_follows .checked) fun _ => ?_
    refine Protocol.follows_to (unlockRouting_follows .claimed) fun _ => ?_
    refine Protocol.follows_to (changeItem_follows (k := none) ⟨rfl, rfl, ?_⟩ (fun _ => .promised)
      (fun now items => filter_from _ _) (by simp)) fun _ => ?_
    · rcases hfn with rfl | rfl <;> rfl
    refine Protocol.follows_to (publish_follows _ _) fun _ => ?_
    exact Protocol.follows_to (spawnDispatchTask_follows _ _ _) fun _ => rfl
  · exact Protocol.follows_to (unlockRouting_follows .checked) fun _ => rfl

theorem popAndDispatch_serves {fn : Fn} (hfn : fn = .runNext ∨ fn = .dispatchItem)
    (row : List QueueItemRow → Option QueueItemRow) :
    Serves c (popAndDispatch fn c (popItem fn c fun now items => QueueRepo.pop now items (row items)))
      (.idle c) := by
  refine Protocol.follows_to (lockRouting_follows ⟨rfl, rfl, rfl⟩ .handler) fun _ => ?_
  refine Protocol.follows_then (isDispatching_follows .holdingBusy .holdingClear) ?_
  rintro _ _ (⟨rfl, rfl⟩ | ⟨rfl, rfl⟩)
  · exact Protocol.follows_to (unlockRouting_follows .holding) fun _ => rfl
  refine Protocol.follows_to (popItem_follows (checked_rests _ _ rfl) row) fun popped => ?_
  cases popped with
  | error e => exact Protocol.follows_to (unlockRouting_follows .checked) fun _ => rfl
  | ok found =>
    cases found with
    | none => exact Protocol.follows_to (unlockRouting_follows .checked) fun _ => rfl
    | some item => exact dispatchPopped_serves hfn item

theorem runNext_serves : Serves c (runNext c) (.idle c) :=
  popAndDispatch_serves (.inl rfl) fun items => QueueRepo.headPending items c

theorem dispatchItem_serves (itemId : Uuid) : Serves c (dispatchItem c itemId) (.idle c) :=
  popAndDispatch_serves (.inr rfl) fun items =>
    items.find? (fun i => i.id = itemId ∧ i.chatId = c ∧ QueueRepo.isPending i)

theorem retryChat_serves : Serves c (retryChat c) (.idle c) := by
  have hrest : ∀ call, Rests (.handler c) (some ⟨.retryChat, c, call⟩) (.checked c) :=
    fun call => checked_rests _ _ (by simp [Site.claims])
  refine Protocol.follows_to (lockRouting_follows ⟨rfl, rfl, rfl⟩ .handler) fun _ => ?_
  refine Protocol.follows_to (getChat_follows ⟨rfl, rfl, rfl⟩ fun w s _ => quiet_keeps w s _)
    fun found => ?_
  cases found with
  | none => exact Protocol.follows_to (unlockRouting_follows .holding) fun _ => rfl
  | some chat =>
  dsimp only
  split
  · exact Protocol.follows_to (unlockRouting_follows .holding) fun _ => rfl
  refine Protocol.follows_then (isDispatching_follows .holdingBusy .holdingClear) ?_
  rintro _ _ (⟨rfl, rfl⟩ | ⟨rfl, rfl⟩)
  · exact Protocol.follows_to (unlockRouting_follows .holding) fun _ => rfl
  refine Protocol.follows_to (calm_follows retryPrompt_calm hrest) fun retried => ?_
  cases retried with
  | none => exact Protocol.follows_to (unlockRouting_follows .checked) fun _ => rfl
  | some prompt =>
  refine Protocol.follows_to (calm_follows (persistPromptEvents_calm _ rfl rfl) hrest) fun _ => ?_
  refine Protocol.follows_to (storeCall_follows (hrest _) (fun w s _ _ => quiet_keeps w s _) ?_)
    fun _ => ?_
  · exact fun w s _ _ => ⟨_, .quiet (.updatePrompt s prompt.id _ fun _ => rfl), rfl⟩
  refine Protocol.follows_to (getChat_follows (hrest _) fun w s _ => quiet_keeps w s _)
    fun found => ?_
  cases found with
  | none => exact Protocol.follows_to (unlockRouting_follows .checked) fun _ => rfl
  | some chat =>
    refine Protocol.follows_to (insertDispatching_follows .checked) fun _ => ?_
    refine Protocol.follows_to (unlockRouting_follows .claimed) fun _ => ?_
    exact Protocol.follows_to (spawnDispatchTask_follows _ _ _) fun _ => rfl

theorem setMode_serves (mode : QueueMode) : Serves c (setMode c mode) (.idle c) := by
  refine Protocol.follows_then (M := fun e x => e = .ok () ∧ mode = .auto ∧ x = .kicking c ∨
    (e ≠ .ok () ∨ mode = .manual) ∧ x = .idle c) (storeCall_follows ⟨rfl, rfl, rfl⟩ ?_ ?_) ?_
  · exact fun w s _ _ => ⟨_, .quiet (.refl s), .inr ⟨.inl (by simp), rfl⟩⟩
  · intro w s _ _
    cases mode with
    | auto => exact ⟨_, .mode (.inl ⟨rfl, rfl⟩), .inl ⟨rfl, rfl, rfl⟩⟩
    | manual => exact ⟨_, .mode (.inr ⟨rfl, rfl⟩), .inr ⟨.inr rfl, rfl⟩⟩
  rintro e _ (⟨rfl, rfl, rfl⟩ | ⟨he, rfl⟩)
  · exact Protocol.follows_to (kickDrainIfIdle_serves .setMode) fun _ => rfl
  · cases e with
    | error e => rfl
    | ok _ =>
      have hm : mode = .manual := he.resolve_left fun h => h rfl
      rw [hm]
      rfl

theorem stopTurn_serves : Serves c (stopTurn c) (.idle c) := by
  have hkick : ∀ (act : AppState → AppState × Unit), (∀ s, Quiet s (act s).1) →
      Serves c ((atOnce act).bind fun _ => (kickDrainIfIdle .stopTurn c).bind fun _ =>
        (.ret (.ok ()) : Async (Except Failure Unit))) (.idle c) := by
    intro act hact
    refine Protocol.follows_to (atOnce_follows fun s _ => ⟨.kicking c, .mind (hact s), rfl⟩) fun _ => ?_
    exact Protocol.follows_to (kickDrainIfIdle_serves .stopTurn) fun _ => rfl
  refine Protocol.follows_to (access_follows ⟨rfl, rfl, rfl⟩ fun w s _ => quiet_keeps w s _) fun token => ?_
  cases token with
  | some token =>
    exact hkick _ fun s => ⟨rfl, rfl, rfl, rfl, rfl, rfl, fun _ => .rfl, rfl, rfl⟩
  | none =>
  refine Protocol.follows_to (storeRead_follows ⟨rfl, rfl, rfl⟩) fun prompts => ?_
  dsimp only
  split
  · rename_i tail _
    refine Protocol.follows_to (storeCall_follows ⟨rfl, rfl, rfl⟩ (fun w s _ _ => quiet_keeps w s _) ?_)
      fun _ => ?_
    · exact fun w s _ _ => ⟨_, .quiet (.updatePrompt s tail.id _ fun _ => rfl), rfl⟩
    refine Protocol.follows_to (m := .idle c) (access_follows ⟨rfl, rfl, rfl⟩ ?_) fun _ => ?_
    · exact fun w s _ => ⟨_, .quiet (.chatMut s c _), rfl⟩
    exact Protocol.follows_to (publish_follows _ _) fun _ => rfl
  · refine Protocol.follows_to (lockRouting_follows ⟨rfl, rfl, rfl⟩ .stop) fun _ => ?_
    refine Protocol.follows_to (removeDispatching_follows .removing) fun _ => ?_
    refine Protocol.follows_to (unlockRouting_follows .freed) fun _ => ?_
    exact hkick _ fun s => ⟨rfl, rfl, rfl, rfl, rfl, rfl, fun _ => .rfl, rfl, rfl⟩

end Routing

/-- Code of a handler that takes no part in routing. -/
abbrev Unrouted {α : Type} (p : Async α) : Prop :=
  p.Within (fun x => x.fn.routes = false) (fun e => Apart (e.map Prod.fst))

section Unrouted

variable {fn : Fn} {c : Uuid} {call : Call} {α β ε : Type}

theorem Apart.of_keys {x : Option Site} {s s' : AppState} (hd : s'.dispatching = s.dispatching)
    (hl : s'.routingLock = s.routingLock) (hn : s.nextId ≤ s'.nextId)
    (hk : ∀ r' ∈ s'.store.prompts, ∃ r ∈ s.store.prompts, r.key = r'.key) : Apart x s s' :=
  ⟨hd, hl, hn, fun r' hr' => .inl (hk r' hr')⟩

theorem Apart.of_prompts {x : Option Site} {s s' : AppState} (hd : s'.dispatching = s.dispatching)
    (hl : s'.routingLock = s.routingLock) (hn : s.nextId ≤ s'.nextId)
    (hk : s'.store.prompts = s.store.prompts) : Apart x s s' :=
  .of_keys hd hl hn fun r' hr' => ⟨r', hk ▸ hr', rfl⟩

theorem Quiet.apart {x : Option Site} {s s' : AppState} (h : Quiet s s') : Apart x s s' := by
  apply Apart.of_keys h.dispatching h.routingLock (Nat.le_of_eq h.nextId.symm)
  intro r' hr'
  have hm : r'.key ∈ s.store.prompts.map PromptRow.key := h.keys ▸ List.mem_map_of_mem hr'
  exact List.mem_map.mp hm

theorem Aside.unrouted {p : Async α} (h : Aside p) : Unrouted p := by
  apply Prog.Within.mono h
  · rintro ⟨f, d, call⟩ hx
    simp only [Site.aside, Bool.and_eq_true] at hx
    cases f <;> first | rfl | cases hx.1
  · intro e s s' hsite hb
    cases e with
    | none => exact Quiet.apart hb
    | some e =>
    obtain ⟨x, w⟩ := e
    obtain ⟨he, hd, hl⟩ := hb
    refine ⟨hd, hl, he.nextId, fun r' hr' => ?_⟩
    rcases he.prompts with hkeys | ⟨hcall, -, q, hid, hc, hprompts, hn⟩
    · exact .inl (List.mem_map.mp (hkeys.subset (List.mem_map_of_mem hr')))
    · rw [hprompts] at hr'
      rcases List.mem_append.mp hr' with hr' | hr'
      · exact .inl ⟨r', hr', rfl⟩
      · rw [List.mem_singleton.mp hr', hid, hn]
        have hx := hsite x w rfl
        obtain ⟨f, d, call⟩ := x
        dsimp only at hcall hc
        subst hcall hc
        simp only [Site.aside, Bool.and_eq_true, Bool.or_eq_true, decide_eq_true_eq, ne_eq,
          not_true_eq_false, false_or] at hx
        rw [hx.2]
        exact .inr ⟨rfl, Nat.le_refl _, Nat.lt_succ_self _⟩

theorem storeUnrouted {err : ε} {act : Choice → AppState → AppState × Except ε β}
    (hf : fn.routes = false) (ha : ∀ w s, Apart (some ⟨fn, c, call⟩) s (act w s).1) :
    Unrouted (storeCall fn c call err act) :=
  storeCall_within hf (fun _ s => (Quiet.refl s).apart) ha

theorem storeReadUnrouted {err : ε} {act : Choice → AppState → Except ε β}
    (hf : fn.routes = false) : Unrouted (storeCall fn c call err (fun w s => (s, act w s))) :=
  storeUnrouted hf fun _ s => (Quiet.refl s).apart

theorem cache_unrouted {act : Choice → AppState → ChatRegistry} (hf : fn.routes = false) :
    Unrouted (access fn c call (fun w s => ({ s with chats := act w s }, ()))) :=
  access_within hf fun _ _ => .of_prompts rfl rfl (Nat.le_refl _) rfl

theorem enqueue_unrouted (body : Text) : Unrouted (enqueue c body) := by
  refine .bind (.bind (storeReadUnrouted rfl) fun position => ?_) fun queued => ?_
  · cases position with
    | error e => trivial
    | ok position => exact storeUnrouted rfl fun w s => .of_prompts rfl rfl (Nat.le_succ _) rfl
  · cases queued <;> trivial

theorem deleteChat_unrouted : Unrouted (deleteChat c) := by
  apply Prog.Within.bind
  · exact storeUnrouted rfl fun w s => .of_prompts rfl rfl (Nat.le_refl _) rfl
  intro gone
  cases gone with
  | error e => trivial
  | ok _ => exact (cache_unrouted rfl).bind fun _ => trivial

theorem restoreChat_unrouted : Unrouted (restoreChat c) := by
  apply Prog.Within.bind
  · exact storeUnrouted rfl fun w s => .of_prompts rfl rfl (Nat.le_refl _) rfl
  intro back
  split
  · trivial
  · trivial
  · apply (storeReadUnrouted rfl).bind
    intro row
    cases row with
    | error e => trivial
    | ok row => exact (cache_unrouted rfl).bind fun _ => trivial

theorem answer_unrouted (request : Request) (response : Response) :
    Unrouted (answer request response) :=
  atOnce_within fun _ => .of_prompts rfl rfl (Nat.le_refl _) rfl

theorem respond_unrouted {request : Request} {render : α → Response}
    {handler : Async (Except Failure α)} (h : Unrouted handler) :
    Unrouted (respond request render handler) := by
  refine h.bind fun out => ?_
  cases out <;> exact answer_unrouted _ _

theorem Unrouted.follows {p : Async Unit} (h : Unrouted p) :
    routing.Follows (.handler c) p .other (fun _ x => Rests (.handler c) none x) := by
  refine Protocol.follows_within h (fun _ hx => hx) ?_ ?_ fun _ => .inr rfl
  · exact fun _ _ _ _ _ _ h => .apart h
  · exact fun _ _ _ h => .apart (e := none) h

theorem Serves.respond {handler : Async (Except Failure α)} {r : Role} (h : Serves c handler r)
    (request : Request) (render : α → Response) :
    routing.Follows (.handler c) (respond request render handler) r
      (fun _ x => Rests (.handler c) none x) := by
  refine Protocol.follows_to h fun out => ?_
  cases out <;> exact Protocol.follows_mono (answer_follows _ _) fun _ _ => .inl

end Unrouted

/-- The routing routes. The others leave lock and flags alone. -/
def Request.routes : Request → Bool
  | .sendMessage _ _ | .addPrompt _ _ | .runNext _ | .dispatchItem _ _ | .retryChat _
  | .setMode _ _ | .stopTurn _ => true
  | _ => false

/-- The role in which a request starts out. -/
def Request.role : Request → Role
  | .addPrompt c _ => .eager c
  | request => if request.routes then .idle request.chat else .other

theorem entry_follows (request : Request) :
    routing.Follows (entry request).tag (entry request).prog request.role
      (fun _ x => Rests (entry request).tag none x) := by
  cases request with
  | sendMessage c content => exact (sendMessage_serves content).respond _ _
  | addPrompt c content => exact (addPrompt_serves content).respond _ _
  | runNext c => exact runNext_serves.respond _ _
  | dispatchItem c item => exact (dispatchItem_serves item).respond _ _
  | retryChat c => exact retryChat_serves.respond _ _
  | setMode c mode => exact (setMode_serves mode).respond _ _
  | stopTurn c => exact stopTurn_serves.respond _ _
  | enqueue c body => exact (respond_unrouted (enqueue_unrouted body)).follows
  | reorder c ids => exact (respond_unrouted (reorder_aside ids).unrouted).follows
  | cancel c item => exact (respond_unrouted (cancel_aside item).unrouted).follows
  | updateItem c item body =>
    exact (respond_unrouted (updateItem_aside item body).unrouted).follows
  | createChat p w title provider model effort =>
    exact (respond_unrouted (createChat_offside p w title provider model effort).aside.unrouted).follows
  | deleteChat c => exact (respond_unrouted deleteChat_unrouted).follows
  | restoreChat c => exact (respond_unrouted restoreChat_unrouted).follows
  | patch c title model effort =>
    exact (respond_unrouted (patch_offside title model effort).aside.unrouted).follows
  | forkChat c seq => exact (respond_unrouted (forkChat_offside seq).aside.unrouted).follows
  | truncateChat c seq => exact (respond_unrouted (truncateChat_offside seq).aside.unrouted).follows
  | revertPrompt c p => exact (respond_unrouted (revertPrompt_offside p).aside.unrouted).follows

end AgentGrove
