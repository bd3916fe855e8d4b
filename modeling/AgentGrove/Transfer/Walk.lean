import AgentGrove.Transfer.Hands

namespace AgentGrove

open Coop

/-- Code that moves no message, whose awaits meet `S`. -/
abbrev Inert {α : Type} (S : Site → Prop) (p : Async α) : Prop := p.Within S (fun _ => Still)

section Inert

variable {S : Site → Prop} {α β ε : Type} {fn : Fn} {c : Uuid} {call : Call}

theorem readInert {act : Choice → AppState → β} (hs : S ⟨fn, c, call⟩) :
    Inert S (access fn c call (fun w s => (s, act w s))) :=
  access_within hs fun _ s => .refl s

theorem storeReadInert {err : ε} {act : Choice → AppState → Except ε β} (hs : S ⟨fn, c, call⟩) :
    Inert S (storeCall fn c call err (fun w s => (s, act w s))) :=
  storeCall_within hs (fun _ s => .refl s) fun _ s => .refl s

theorem publishOn_inert (topic : Topic) (frame : Frame) : Inert S (publishOn topic frame) :=
  atOnce_within fun _ => ⟨rfl, rfl, rfl, rfl⟩

theorem unlockRouting_inert : Inert S unlockRouting :=
  atOnce_within fun _ => ⟨rfl, rfl, rfl, rfl⟩

theorem insertDispatching_inert : Inert S (insertDispatching c) :=
  atOnce_within fun _ => ⟨rfl, rfl, rfl, rfl⟩

theorem removeDispatching_inert : Inert S (removeDispatching c) :=
  atOnce_within fun _ => ⟨rfl, rfl, rfl, rfl⟩

theorem isDispatching_inert : Inert S (isDispatching c) :=
  atOnce_within fun s => .refl s

theorem lockRouting_inert (hs : S ⟨fn, c, call⟩) : Inert S (lockRouting fn c call) := by
  refine ⟨hs, ?_, fun _ => trivial⟩
  intro w s s' b ha
  dsimp only at ha
  split at ha
  · cases ha
  · cases ha
    exact ⟨rfl, rfl, rfl, rfl⟩

theorem isAuto_inert (hs : S ⟨fn, c, call⟩) : Inert S (isAuto fn c call) := by
  apply Prog.Within.bind (storeReadInert hs)
  intro mode
  split <;> trivial

theorem readState_inert (hm : S ⟨fn, c, .getMode⟩) (hl : S ⟨fn, c, .listItems⟩) :
    Inert S (readState fn c) := by
  apply Prog.Within.bind (storeReadInert hm)
  intro mode
  apply Prog.Within.bind (storeReadInert hl)
  intro rows
  trivial

theorem mustContinue_inert (hs : S ⟨fn, c, .clearAuto⟩) (queue : QueueState) :
    Inert S (mustContinue fn c queue) := by
  unfold mustContinue
  split
  · exact isAuto_inert hs
  · trivial

theorem Calm.inert {p : Async α} (h : Calm fn c p) (hs : ∀ x, On fn c x → S x) : Inert S p :=
  Prog.Within.mono h hs fun _ _ _ _ => Quiet.still

/-- Looking whether the drain must go on, and giving the flag back if not. -/
theorem clearDispatching_inert (hs : ∀ call, call.handles = false → S ⟨fn, c, call⟩) :
    Inert S (clearDispatching fn c) := by
  apply Prog.Within.bind (lockRouting_inert (hs _ rfl))
  intro _
  apply Prog.Within.bind (readState_inert (hs _ rfl) (hs _ rfl))
  intro queue
  apply Prog.Within.bind (mustContinue_inert (hs _ rfl) queue)
  intro again
  split
  · apply Prog.Within.bind unlockRouting_inert
    intro _
    trivial
  · apply Prog.Within.bind removeDispatching_inert
    intro _
    apply Prog.Within.bind unlockRouting_inert
    intro _
    apply Prog.Within.bind (publishOn_inert _ _)
    intro _
    trivial

end Inert

section Transfer

variable {α : Type} {t : Tag} {h h' : Hand} {fn : Fn} {c : Uuid} {call : Call}

theorem inert_follows {S : Site → Prop} {p : Async α} (hp : Inert S p)
    (hr : ∀ x, S x → HoldsAt t x h) : transfer.Follows t p h (fun _ x => x = h) := by
  apply Protocol.follows_within hp hr
  · exact fun _ _ _ _ _ _ hs => .still hs
  · exact fun _ _ _ hs => .still hs
  · exact fun _ => rfl

/-- Where one await is all there is. -/
theorem one_follows {p : Async α} (hp : Inert (fun x => x = ⟨fn, c, call⟩) p)
    (hr : HoldsAt t ⟨fn, c, call⟩ h) : transfer.Follows t p h (fun _ x => x = h) := by
  apply inert_follows hp
  rintro _ rfl
  exact hr

/-- Code without an await. -/
theorem now_follows {p : Async α} (hp : Inert (fun _ => False) p) :
    transfer.Follows t p h (fun _ x => x = h) :=
  inert_follows hp fun _ hx => hx.elim

theorem spawn_passes {tag : Tag} {child : Async Unit} (hr : child.Resting)
    (hc : transfer.Follows tag child .empty (fun _ x => Holds tag none x)) :
    transfer.Follows t (.spawn tag child (.ret ())) h (fun _ x => x = h) :=
  spawn_follows .spawn hr hc rfl

/-- What storing the prompt of a message does to the hand of the task that does
it: from `h` over `num` to `kept`, or to `lost` if it comes to nothing. -/
structure Ways (t : Tag) (fn : Fn) (c : Uuid) (content : Text) (h lost kept : Hand)
    (num : Nat → Hand) : Prop where
  restRow : HoldsAt t ⟨fn, c, .getRow⟩ h
  restSeq : HoldsAt t ⟨fn, c, .maxSeq⟩ h
  restInsert : ∀ n, HoldsAt t ⟨fn, c, .insertPrompt⟩ (num n)
  restTouch : HoldsAt t ⟨fn, c, .touchChat⟩ kept
  restIngest : HoldsAt t ⟨fn, c, .ingestPrompt⟩ kept
  noRow : ∀ w s, w.fail = true ∨ ¬ Stored s c →
    Passes (some (⟨fn, c, .getRow⟩, w)) h s lost s
  noSeq : ∀ w s, w.fail = true → Passes (some (⟨fn, c, .maxSeq⟩, w)) h s lost s
  seq : ∀ w s n, (∀ q ∈ s.store.prompts, q.chatId = c → q.seq ≠ n) →
    Passes (some (⟨fn, c, .maxSeq⟩, w)) h s (num n) s
  refuse : ∀ w s n, (w.fail = true ∨ ¬ Stored s c ∨ ∃ q ∈ s.store.prompts,
      q.id = s.nextId ∨ q.chatId = c ∧ q.seq = n) →
    Passes (some (⟨fn, c, .insertPrompt⟩, w)) (num n) s lost s
  insert : ∀ w s n q, w.fail = false → q.id = s.nextId → q.chatId = c → q.content = content →
    Passes (some (⟨fn, c, .insertPrompt⟩, w)) (num n) s kept (withPrompt q s)
  breaks : ∀ w s s' call, Breaks s w c call → Still s s' →
    Passes (some (⟨fn, c, call⟩, w)) kept s lost s'

section Ways

variable {content : Text} {lost kept : Hand} {num : Nat → Hand}
  (hw : Ways t fn c content h lost kept num)
include hw

theorem storeAddPrompt_passes :
    transfer.Follows t (storeAddPrompt fn c content) h
      (fun a x => (∃ row, a = .ok row) ∧ x = kept ∨ (∃ e, a = .error e) ∧ x = lost) := by
  have herr : ∀ (e : ChatError), transfer.Follows t
      (.ret (.error e) : Async (Except ChatError PromptRow)) lost
      (fun a x => (∃ row, a = .ok row) ∧ x = kept ∨ (∃ e, a = .error e) ∧ x = lost) :=
    fun e => .inr ⟨⟨e, rfl⟩, rfl⟩
  apply Protocol.follows_split (A := fun a => ∃ row, a = .ok row) (B := fun a => ∃ e, a = .error e)
  · apply storeCall_follows hw.restRow
    · intro w s _ hf
      exact ⟨lost, hw.noRow w s (.inl hf), .inr ⟨⟨_, rfl⟩, rfl⟩⟩
    · intro w s _ _
      dsimp only
      cases hget : ChatRepo.get s.store.chats c with
      | some row => exact ⟨h, .still (.refl s), .inl ⟨⟨_, rfl⟩, rfl⟩⟩
      | none =>
        have hn : ¬ Stored s c := by simp [Stored, hget]
        exact ⟨lost, hw.noRow w s (.inr hn), .inr ⟨⟨_, rfl⟩, rfl⟩⟩
  swap
  · rintro _ ⟨e, rfl⟩
    exact herr e
  rintro _ ⟨row, rfl⟩
  apply Protocol.follows_then (M := fun a x => (∃ n, a = .ok n ∧ x = num n) ∨ (∃ e, a = .error e) ∧ x = lost)
  · apply storeCall_follows hw.restSeq
    · intro w s _ hf
      exact ⟨lost, hw.noSeq w s hf, .inr ⟨⟨_, rfl⟩, rfl⟩⟩
    · intro w s _ _
      exact ⟨_, hw.seq w s _ fun q hq hc => nextSeq_fresh hq hc, .inl ⟨_, rfl, rfl⟩⟩
  rintro _ x (⟨n, rfl, hx⟩ | ⟨⟨e, rfl⟩, hx⟩)
  swap
  · rw [hx]
    exact herr e
  rw [hx]
  apply Protocol.follows_split (A := fun a => ∃ row, a = .ok row) (B := fun a => ∃ e, a = .error e)
  · apply storeCall_follows (hw.restInsert n)
    · intro w s _ hf
      exact ⟨lost, hw.refuse w s n (.inl hf), .inr ⟨⟨_, rfl⟩, rfl⟩⟩
    · intro w s _ hf
      dsimp only
      split
      · exact ⟨kept, hw.insert w s n _ hf rfl rfl rfl, .inl ⟨⟨_, rfl⟩, rfl⟩⟩
      · rename_i hacc
        exact ⟨lost, hw.refuse w s n (.inr (not_accepts hacc)), .inr ⟨⟨_, rfl⟩, rfl⟩⟩
  swap
  · rintro _ ⟨e, rfl⟩
    exact herr e
  rintro _ ⟨stored, rfl⟩
  apply Protocol.follows_split (A := fun a => a = .ok ()) (B := fun a => ∃ e, a = .error e)
  · apply storeCall_follows hw.restTouch
    · intro w s _ hf
      exact ⟨lost, hw.breaks w s s _ (.inl ⟨rfl, hf⟩) (.refl s), .inr ⟨⟨_, rfl⟩, rfl⟩⟩
    · intro w s _ _
      exact ⟨kept, .still ⟨rfl, rfl, rfl, rfl⟩, .inl ⟨rfl, rfl⟩⟩
  · rintro _ rfl
    exact .inl ⟨⟨_, rfl⟩, rfl⟩
  · rintro _ ⟨e, rfl⟩
    exact herr e

theorem persistAddPrompt_passes :
    transfer.Follows t (persistAddPrompt fn c content) h
      (fun a x => (∃ p, a = .ok (some p)) ∧ x = kept ∨ (∀ p, a ≠ .ok (some p)) ∧ x = lost) := by
  apply Protocol.follows_split (storeAddPrompt_passes hw)
  swap
  · rintro _ ⟨e, rfl⟩
    exact .inr ⟨by simp, rfl⟩
  rintro _ ⟨row, rfl⟩
  apply Protocol.follows_split (A := fun ok => ok = true) (B := fun ok => ok = false)
  · apply access_follows hw.restIngest
    intro w s _
    cases hget : s.chats.get c with
    | some chat =>
      refine ⟨kept, .still (ingest_quiet s c _).still, .inl ⟨?_, rfl⟩⟩
      simp [ChatRegistry.ingestPrompt, hget]
    | none =>
      have hn : ¬ Cached s c := by simp [Cached, hget]
      refine ⟨lost, hw.breaks w s _ _ (.inr ⟨rfl, hn⟩) (ingest_quiet s c _).still, .inr ⟨?_, rfl⟩⟩
      simp [ChatRegistry.ingestPrompt, hget]
  · rintro _ rfl
    exact .inl ⟨⟨_, rfl⟩, rfl⟩
  · rintro _ rfl
    exact .inr ⟨by simp, rfl⟩

end Ways

/-- Either pop, if the row it picks is a pending one of the chat. -/
theorem popItem_passes {k : Carrier} {pick : List QueueItemRow → Option QueueItemRow}
    (hh : k = .task ∧ h = .empty ∨ k = .handler ∧ h = .fetching c)
    (hr : HoldsAt t ⟨fn, c, .popItem⟩ h)
    (hpick : ∀ items i, pick items = some i →
      i ∈ items ∧ i.chatId = c ∧ QueueRepo.isPending i = true) :
    transfer.Follows t (popItem fn c (fun now items => QueueRepo.pop now items (pick items))) h
      (fun e x => (∃ row, e = .ok (some (QueueItem.ofRow row)) ∧ row.chatId = c ∧
          x = .carrying k row) ∨
        (∀ item, e ≠ .ok (some item)) ∧ x = h) := by
  apply storeCall_follows hr
  · intro w s _ _
    exact ⟨h, .still (.refl s), .inr ⟨by simp, rfl⟩⟩
  · intro w s _ _
    dsimp only
    cases hrow : pick s.store.items with
    | none => exact ⟨h, .still ⟨rfl, rfl, rfl, rfl⟩, .inr ⟨by simp [QueueRepo.pop], rfl⟩⟩
    | some i =>
      obtain ⟨hi, hc, hp⟩ := hpick _ _ hrow
      subst hc
      exact ⟨.carrying k (running w.now i), .pop hh hi hp, .inl ⟨_, rfl, rfl, rfl⟩⟩

theorem markDone_passes {k : Carrier} {row : QueueItemRow}
    (hr : HoldsAt t ⟨fn, row.chatId, .markDone⟩ (.copied k row)) :
    transfer.Follows t (markDone fn row.chatId row.id) (.copied k row)
      (fun _ x => x = k.after row.chatId) := by
  apply storeCall_follows hr
  · intro w s _ hf
    exact ⟨_, .forget hf, rfl⟩
  · intro w s _ _
    exact ⟨_, .finish, rfl⟩

section Task

variable (hfn : fn.carrier = some .task)
include hfn

theorem empty_rests {x : Site} (hf : x.fn = fn) (hc : x.call.handles = false) :
    HoldsAt t x .empty := by
  obtain ⟨f, d, call⟩ := x
  dsimp only at hf hc
  subst hf
  refine ⟨by simp [hfn], by simp [Site.carries, hc], ?_⟩
  cases f <;> first | rfl | cases hfn

theorem task_calm {p : Async α} (hp : Calm fn c p) :
    transfer.Follows t p .empty (fun _ x => x = .empty) := by
  apply inert_follows (hp.inert fun x hx => hx)
  rintro ⟨f, d, call⟩ ⟨rfl, rfl, hcalm⟩
  refine empty_rests hfn rfl ?_
  cases call <;> first | rfl | cases hcalm

theorem carrying_holds {row : QueueItemRow} (ht : Carrier.task.tagged row.chatId t)
    (hh : call.handles = true) (hb : call.between = false) :
    HoldsAt t ⟨fn, row.chatId, call⟩ (.carrying .task row) :=
  ⟨ht, rfl, hfn, hh, hb⟩

theorem copied_holds {row : QueueItemRow} (ht : Carrier.task.tagged row.chatId t)
    (hb : call.between = true) : HoldsAt t ⟨fn, row.chatId, call⟩ (.copied .task row) :=
  ⟨ht, rfl, hfn, hb⟩

theorem resetToPending_passes {row : QueueItemRow} (ht : Carrier.task.tagged row.chatId t) :
    transfer.Follows t (resetToPending fn row.chatId row.id) (.carrying .task row)
      (fun _ x => x = .empty) := by
  apply storeCall_follows (carrying_holds hfn ht rfl rfl)
  · intro w s _ hf
    exact ⟨_, .lose hf, rfl⟩
  · intro w s _ _
    exact ⟨_, .giveBack, rfl⟩

theorem task_ways {row : QueueItemRow} (ht : Carrier.task.tagged row.chatId t) :
    Ways t fn row.chatId row.body (.carrying .task row) (.carrying .task row) (.copied .task row)
      (fun _ => .carrying .task row) where
  restRow := carrying_holds hfn ht rfl rfl
  restSeq := carrying_holds hfn ht rfl rfl
  restInsert _ := carrying_holds hfn ht rfl rfl
  restTouch := copied_holds hfn ht rfl
  restIngest := copied_holds hfn ht rfl
  noRow _ s _ := .still (.refl s)
  noSeq _ s _ := .still (.refl s)
  seq _ s _ _ := .still (.refl s)
  refuse _ s _ _ := .still (.refl s)
  insert _ _ _ _ hw hid hc hb := .copy (.inl ⟨rfl, rfl⟩) hw hid hc hb
  breaks _ _ _ _ hwhy hs := .botch hfn hwhy hs

/-- One pass of the drain: it ends with empty hands however it ends. -/
theorem drainRound_passes (ht : Carrier.task.tagged c t) :
    transfer.Follows t (drainRound fn c) .empty (fun _ x => x = .empty) := by
  apply Protocol.follows_to (one_follows (isAuto_inert rfl) (empty_rests hfn rfl rfl))
  intro auto
  cases auto with
  | false => rfl
  | true =>
  apply Protocol.follows_then (popItem_passes (.inl ⟨rfl, rfl⟩) (empty_rests hfn rfl rfl)
    fun _ _ => headPending_mem)
  rintro e x (⟨row, rfl, rfl, rfl⟩ | ⟨hne, rfl⟩)
  swap
  · cases e with
    | error e => rfl
    | ok found =>
      cases found with
      | none => rfl
      | some item => exact absurd rfl (hne item)
  have hreset : transfer.Follows t ((resetToPending fn row.chatId row.id).bind fun _ =>
      (.ret (.inr ()) : Async (Unit ⊕ Unit))) (.carrying .task row) (fun _ x => x = .empty) :=
    Protocol.follows_to (resetToPending_passes hfn ht) fun _ => rfl
  apply Protocol.follows_to (one_follows (isAuto_inert rfl) (carrying_holds hfn ht rfl rfl))
  intro auto
  cases auto with
  | false => exact hreset
  | true =>
  apply Protocol.follows_to (one_follows (readInert rfl) (carrying_holds hfn ht rfl rfl))
  intro found
  cases found with
  | none => exact hreset
  | some chat =>
  apply Protocol.follows_then (persistAddPrompt_passes (task_ways hfn ht))
  rintro stored _ (⟨⟨p, rfl⟩, rfl⟩ | ⟨hne, rfl⟩)
  swap
  · split
    · exact absurd rfl (hne _)
    · exact hreset
  apply Protocol.follows_to (markDone_passes (copied_holds hfn ht rfl))
  intro _
  apply Protocol.follows_to (now_follows (publishOn_inert _ _))
  intro _
  apply Protocol.follows_to (task_calm hfn (resolveCwd_calm _))
  intro cwd
  apply Protocol.follows_to (task_calm hfn (show Calm fn row.chatId (resolveProvider _) from
    resolveProvider_calm _))
  intro provider
  cases provider with
  | some p => exact Protocol.follows_to (task_calm hfn (dispatchViaProvider_calm _ _ _ _ _ _ _)) fun _ => rfl
  | none => exact Protocol.follows_to (task_calm hfn (dispatchEcho_calm _ _)) fun _ => rfl

theorem drainUntilIdle_passes (ht : Carrier.task.tagged c t) :
    transfer.Follows t (drainUntilIdle fn c) .empty (fun _ x => x = .empty) := by
  have hloop : transfer.Follows t (drainLoop fn c) .empty (fun _ x => x = .empty) := by
    apply loop_follows (empty_rests (t := t) hfn rfl rfl) fun _ s => Passes.still (.refl s)
    intro _
    apply Protocol.follows_mono (drainRound_passes hfn ht)
    intro next x hx
    cases next with
    | inl _ => exact hx
    | inr _ => exact hx
  apply loop_follows (empty_rests (t := t) hfn rfl rfl) fun _ s => Passes.still (.refl s)
  intro _
  apply Protocol.follows_to hloop
  intro _
  have hclear : Inert (fun x => x.fn = fn ∧ x.call.handles = false) (clearDispatching fn c) :=
    clearDispatching_inert fun call hc => ⟨rfl, hc⟩
  apply Protocol.follows_to (inert_follows hclear fun x hx => empty_rests hfn hx.1 hx.2)
  intro freed
  cases freed with
  | true => rfl
  | false => rfl

end Task

theorem dropGuard_passes : transfer.Follows t (dropGuard c) .empty (fun _ x => x = .empty) := by
  have hguard : Inert (fun x => x = ⟨.guard, c, .lock⟩) (guardTask c) := by
    apply Prog.Within.bind (S := fun x => x = ⟨.guard, c, .lock⟩) (lockRouting_inert rfl)
    intro _
    apply Prog.Within.bind removeDispatching_inert
    intro _
    apply Prog.Within.bind unlockRouting_inert
    intro _
    exact publishOn_inert _ _
  apply spawn_passes
  · trivial
  · exact Protocol.follows_mono (one_follows hguard ⟨by simp [Fn.carrier], rfl, rfl⟩) fun _ _ => .inl

theorem drainTask_passes :
    transfer.Follows (.drain c) (drainTask c) .empty (fun _ x => Holds (.drain c) none x) := by
  apply Protocol.follows_to (drainUntilIdle_passes rfl (.inr rfl))
  intro _
  exact Protocol.follows_mono dropGuard_passes fun _ _ => .inl

theorem dispatchTask_passes (chat : ChatRecord) (prompt : PromptRecord) (body : Text) :
    transfer.Follows (.dispatch c) (dispatchTask c chat prompt body) .empty
      (fun _ x => Holds (.dispatch c) none x) := by
  have hfn : Fn.dispatchTask.carrier = some .task := rfl
  apply Protocol.follows_to (task_calm hfn (resolveCwd_calm _))
  intro cwd
  apply Protocol.follows_to (task_calm hfn
    (show Calm .dispatchTask c (resolveProvider _) from resolveProvider_calm _))
  intro provider
  apply Protocol.follows_to (task_calm hfn (firstTurn_calm _ _ _ _ _))
  intro _
  apply Protocol.follows_to (task_calm hfn (endCompaction_calm _))
  intro _
  apply Protocol.follows_to (drainUntilIdle_passes hfn (.inl rfl))
  intro _
  exact Protocol.follows_mono dropGuard_passes fun _ _ => .inl

theorem spawnDrainTask_passes :
    transfer.Follows t (spawnDrainTask c) h (fun _ x => x = h) :=
  spawn_passes trivial drainTask_passes

theorem spawnDispatchTask_passes (chat : ChatRecord) (prompt : PromptRecord) (body : Text) :
    transfer.Follows t (spawnDispatchTask c chat prompt body) h (fun _ x => x = h) :=
  spawn_passes (dispatchTask_resting chat prompt body) (dispatchTask_passes chat prompt body)

/-- A handler that may end in whatever hand lets it give the answer it returns. -/
abbrev Delivers (c : Uuid) (request : Request) (p : Async (Except Failure α)) (h : Hand) : Prop :=
  transfer.Follows (.handler c) p h
    (fun out x => ∀ response, response.ok = out.isOk → x.answers request response)

section Sending

variable {body : Text} {request : Request} (hm : request.message = some (c, body))
include hm

theorem refused_delivers (e : Failure) :
    Delivers c request (unlockRouting.bind fun _ => (.ret (.error e) : Async (Except Failure α)))
      (.sender c body) :=
  Protocol.follows_to (now_follows unlockRouting_inert) fun _ _ hr => ⟨hm, hr⟩

theorem lost_delivers (e : Failure) :
    Delivers c request (unlockRouting.bind fun _ => (.ret (.error e) : Async (Except Failure α)))
      (.refused c body) :=
  Protocol.follows_to (now_follows unlockRouting_inert) fun _ _ hr => ⟨hm, hr⟩

theorem accepted_delivers (a : α) :
    Delivers c request (.ret (.ok a) : Async (Except Failure α)) (.stored c body) :=
  fun _ hr => ⟨hm, hr⟩

omit hm

theorem sender_holds (hfn : fn.carrier = none) (hw : Site.waits ⟨fn, c, call⟩ = false) :
    HoldsAt (.handler c) ⟨fn, c, call⟩ (.sender c body) :=
  ⟨rfl, rfl, hfn, hw⟩

theorem enqueueItem_passes (hfn : fn.carrier = none) :
    transfer.Follows (.handler c) (enqueueItem fn c body) (.sender c body)
      (fun e x => (∃ item, e = .ok item) ∧ x = .stored c body ∨
        (∃ err, e = .error err) ∧ x = .sender c body) := by
  apply Protocol.follows_to (one_follows (storeReadInert rfl) (sender_holds hfn (by simp [Site.waits])))
  intro position
  cases position with
  | error e => exact .inr ⟨⟨e, rfl⟩, rfl⟩
  | ok position =>
    have hrest : HoldsAt (.handler c) ⟨fn, c, .insertItem⟩ (.sender c body) :=
      sender_holds hfn (by simp [Site.waits])
    apply storeCall_follows hrest
    · intro w s _ _
      exact ⟨_, .still (.refl s), .inr ⟨⟨_, rfl⟩, rfl⟩⟩
    · intro w s _ hf
      exact ⟨.stored c body, .queue hf rfl rfl rfl rfl, .inl ⟨⟨_, rfl⟩, rfl⟩⟩

theorem send_ways : Ways (.handler c) .sendMessage c body (.sender c body) (.refused c body)
    (.stored c body) (fun _ => .sender c body) where
  restRow := sender_holds rfl rfl
  restSeq := sender_holds rfl rfl
  restInsert _ := sender_holds rfl rfl
  restTouch := ⟨rfl, rfl, rfl⟩
  restIngest := ⟨rfl, rfl, rfl⟩
  noRow _ _ _ := .refuse
  noSeq _ _ _ := .refuse
  seq _ s _ _ := .still (.refl s)
  refuse _ _ _ _ := .refuse
  insert _ _ _ _ hw hid hc hb := .send hw hid hc hb
  breaks _ _ _ _ hwhy hs := .spoil hwhy hs

include hm

theorem sendMessage_delivers :
    Delivers c request (sendMessage c body) (.sender c body) := by
  have hrest : ∀ call, Site.waits ⟨.sendMessage, c, call⟩ = false →
      HoldsAt (.handler c) ⟨.sendMessage, c, call⟩ (.sender c body) :=
    fun _ => sender_holds rfl
  apply Protocol.follows_to (one_follows (lockRouting_inert rfl) (hrest _ rfl))
  intro _
  apply Protocol.follows_to (one_follows (readInert rfl) (hrest _ rfl))
  intro found
  cases found with
  | none => exact refused_delivers hm _
  | some chat =>
  apply Protocol.follows_to (now_follows isDispatching_inert)
  intro isBusy
  have hread : Inert (fun x => x.fn = .sendMessage ∧ x.chat = c ∧ x.waits = false)
      (readState .sendMessage c) := readState_inert ⟨rfl, rfl, rfl⟩ ⟨rfl, rfl, rfl⟩
  apply Protocol.follows_to (inert_follows hread ?_)
  swap
  · rintro ⟨f, d, call⟩ ⟨rfl, rfl, hw⟩
    exact hrest call hw
  intro queue
  split
  · apply Protocol.follows_split (enqueueItem_passes rfl)
    swap
    · rintro _ ⟨e, rfl⟩
      exact refused_delivers hm _
    rintro _ ⟨item, rfl⟩
    have hkick : Inert (fun x => x = ⟨.sendMessage, c, .isAuto⟩) (needKick c isBusy) := by
      unfold needKick
      split
      · trivial
      · exact isAuto_inert rfl
    have hstored : HoldsAt (.handler c) ⟨.sendMessage, c, .isAuto⟩ (.stored c body) :=
      ⟨rfl, rfl, rfl⟩
    apply Protocol.follows_to (one_follows hkick hstored)
    intro kick
    split
    · apply Protocol.follows_to (now_follows insertDispatching_inert)
      intro _
      apply Protocol.follows_to (now_follows unlockRouting_inert)
      intro _
      exact Protocol.follows_to spawnDrainTask_passes fun _ => accepted_delivers hm _
    · exact Protocol.follows_to (now_follows unlockRouting_inert) fun _ => accepted_delivers hm _
  · apply Protocol.follows_to (now_follows insertDispatching_inert)
    intro _
    apply Protocol.follows_to (one_follows (readInert rfl) (hrest _ rfl))
    intro found
    cases found with
    | none => exact refused_delivers hm _
    | some chat =>
    apply Protocol.follows_split (persistAddPrompt_passes send_ways)
    · rintro _ ⟨p, rfl⟩
      apply Protocol.follows_to (now_follows unlockRouting_inert)
      intro _
      exact Protocol.follows_to (spawnDispatchTask_passes _ _ _) fun _ => accepted_delivers hm _
    · intro stored hne
      cases stored with
      | error e => exact lost_delivers hm _
      | ok found =>
        cases found with
        | none => exact lost_delivers hm _
        | some p => exact absurd rfl (hne p)

theorem enqueue_delivers : Delivers c request (enqueue c body) (.sender c body) := by
  apply Protocol.follows_split (enqueueItem_passes rfl)
  · rintro _ ⟨item, rfl⟩
    exact accepted_delivers hm _
  · rintro _ ⟨e, rfl⟩
    exact fun _ hr => ⟨hm, hr⟩

end Sending

section Fetching

variable {request : Request} (hm : request.message = none)
include hm

theorem dropped_delivers (e : Failure) :
    Delivers c request (unlockRouting.bind fun _ => (.ret (.error e) : Async (Except Failure α)))
      (.dropped c) :=
  Protocol.follows_to (now_follows unlockRouting_inert) fun _ _ hr => ⟨hm, hr⟩

theorem unfetched_delivers (e : Failure) :
    Delivers c request (unlockRouting.bind fun _ => (.ret (.error e) : Async (Except Failure α)))
      (.fetching c) :=
  Protocol.follows_to (now_follows unlockRouting_inert) fun _ _ hr => ⟨hm, hr⟩

variable (hfn : fn.carrier = some .handler)
include hfn

omit hm in
theorem handler_ways (row : QueueItemRow) :
    Ways (.handler row.chatId) fn row.chatId row.body (.carrying .handler row)
      (.dropped row.chatId) (.copied .handler row) (.numbered row) where
  restRow := ⟨rfl, rfl, hfn, rfl, rfl⟩
  restSeq := ⟨rfl, rfl, hfn, rfl, rfl⟩
  restInsert _ := ⟨rfl, rfl, hfn, rfl⟩
  restTouch := ⟨rfl, rfl, hfn, rfl⟩
  restIngest := ⟨rfl, rfl, hfn, rfl⟩
  noRow _ s hw := .abandon hfn (.inl rfl) (.inr (.inl ⟨rfl, hw⟩)) (.refl s)
  noSeq _ s hw := .abandon hfn (.inl rfl) (.inr (.inr (.inl ⟨rfl, hw⟩))) (.refl s)
  seq _ _ _ hn := .number hn
  refuse _ s n hw := by
    refine .abandon hfn (.inr ⟨n, rfl⟩) (.inr (.inr (.inr ⟨rfl, ?_⟩))) (.refl s)
    exact hw.imp_right fun hw => hw.imp_right fun hq => ⟨row, n, rfl, hq⟩
  insert _ _ n _ hw hid hc hb := .copy (.inr ⟨rfl, n, rfl⟩) hw hid hc hb
  breaks _ _ _ _ hwhy hs := .strand hfn hwhy hs

theorem dispatchPopped_delivers (row : QueueItemRow) :
    Delivers row.chatId request (dispatchPopped fn row.chatId (QueueItem.ofRow row))
      (.carrying .handler row) := by
  apply Protocol.follows_split (A := fun found => ∃ chat, found = some chat) (B := fun found => found = none)
  · have hrest : HoldsAt (.handler row.chatId) ⟨fn, row.chatId, .cloneChat⟩
        (.carrying .handler row) := ⟨rfl, rfl, hfn, rfl, rfl⟩
    apply getChat_follows hrest
    intro w s _
    cases hget : s.chats.get row.chatId with
    | some chat => exact ⟨_, .still (.refl s), .inl ⟨⟨chat, rfl⟩, rfl⟩⟩
    | none =>
      have hn : ¬ Cached s row.chatId := by simp [Cached, hget]
      exact ⟨_, .abandon hfn (.inl rfl) (.inl ⟨rfl, hn⟩) (.refl s), .inr ⟨rfl, rfl⟩⟩
  swap
  · rintro _ rfl
    exact dropped_delivers hm _
  rintro _ ⟨chat, rfl⟩
  apply Protocol.follows_split (persistAddPrompt_passes (handler_ways hfn row))
  · rintro _ ⟨p, rfl⟩
    apply Protocol.follows_to (now_follows insertDispatching_inert)
    intro _
    apply Protocol.follows_to (now_follows unlockRouting_inert)
    intro _
    apply Protocol.follows_to (markDone_passes
      (show HoldsAt _ ⟨fn, row.chatId, .markDone⟩ (.copied .handler row) from ⟨rfl, rfl, hfn, rfl⟩))
    intro _
    apply Protocol.follows_to (now_follows (publishOn_inert _ _))
    intro _
    exact Protocol.follows_to (spawnDispatchTask_passes _ _ _) fun _ _ hr => ⟨hm, hr⟩
  · intro stored hne
    split
    · exact absurd rfl (hne _)
    · exact dropped_delivers hm _

theorem popAndDispatch_delivers {pick : List QueueItemRow → Option QueueItemRow}
    (hpick : ∀ items i, pick items = some i →
      i ∈ items ∧ i.chatId = c ∧ QueueRepo.isPending i = true) :
    Delivers c request
      (popAndDispatch fn c (popItem fn c fun now items => QueueRepo.pop now items (pick items)))
      (.fetching c) := by
  have hrest : ∀ call, call.handles = false → HoldsAt (.handler c) ⟨fn, c, call⟩ (.fetching c) := by
    intro call hc
    exact ⟨rfl, rfl, hfn, by simp [Site.carries, hc]⟩
  apply Protocol.follows_to (one_follows (lockRouting_inert rfl) (hrest _ rfl))
  intro _
  apply Protocol.follows_to (now_follows isDispatching_inert)
  intro busy
  split
  · exact unfetched_delivers hm _
  apply Protocol.follows_then (popItem_passes (.inr ⟨rfl, rfl⟩) (hrest _ rfl) hpick)
  rintro popped _ (⟨row, rfl, rfl, rfl⟩ | ⟨hne, rfl⟩)
  · exact dispatchPopped_delivers hm hfn row
  · cases popped with
    | error e => exact unfetched_delivers hm _
    | ok found =>
      cases found with
      | none => exact unfetched_delivers hm _
      | some item => exact absurd rfl (hne item)

end Fetching

theorem runNext_delivers : Delivers c (.runNext c) (runNext c) (.fetching c) :=
  popAndDispatch_delivers rfl rfl fun _ _ => headPending_mem

theorem dispatchItem_delivers (itemId : Uuid) :
    Delivers c (.dispatchItem c itemId) (dispatchItem c itemId) (.fetching c) := by
  apply popAndDispatch_delivers rfl rfl
  intro items i hi
  have hp := List.find?_some hi
  simp only [Bool.decide_and, Bool.and_eq_true, decide_eq_true_eq] at hp
  exact ⟨List.mem_of_find?_eq_some hi, hp.2.1, hp.2.2⟩

section Aside

variable (hfn : fn.carrier = none) (hne : fn ≠ .sendMessage)
include hfn hne

theorem aside_rests (x : Site) (hx : x.fn = fn) : HoldsAt t x .empty := by
  obtain ⟨f, d, call⟩ := x
  dsimp only at hx
  subst hx
  exact ⟨by simp [hfn], by simp [Site.carries, hfn], by simp [Site.waits, hne]⟩

theorem kickDrainIfIdle_passes :
    transfer.Follows t (kickDrainIfIdle fn c) .empty (fun _ x => x = .empty) := by
  have hrest := aside_rests (t := t) hfn hne
  apply Protocol.follows_to (one_follows (lockRouting_inert rfl) (hrest _ rfl))
  intro _
  apply Protocol.follows_to (now_follows isDispatching_inert)
  intro busy
  split
  · exact now_follows unlockRouting_inert
  apply Protocol.follows_to (one_follows (isAuto_inert rfl) (hrest _ rfl))
  intro auto
  split
  · exact now_follows unlockRouting_inert
  have hread : Inert (fun x => x.fn = fn) (readState fn c) := readState_inert rfl rfl
  apply Protocol.follows_to (inert_follows hread hrest)
  intro queue
  split
  · exact now_follows unlockRouting_inert
  apply Protocol.follows_to (now_follows insertDispatching_inert)
  intro _
  apply Protocol.follows_to (now_follows unlockRouting_inert)
  intro _
  exact spawnDrainTask_passes

end Aside

theorem empty_delivers {request : Request} (hm : request.message = none)
    {p : Async (Except Failure α)}
    (h : transfer.Follows (.handler c) p .empty (fun _ x => x = .empty)) :
    Delivers c request p .empty := by
  apply Protocol.follows_mono h
  rintro out _ rfl _ _
  exact hm

theorem setMode_delivers (mode : QueueMode) :
    Delivers c (.setMode c mode) (setMode c mode) .empty := by
  apply empty_delivers rfl
  have hwrite : Inert (fun x => x.fn = .setMode) (storeCall .setMode c .setMode QueueError.db
      (fun _ s => ({ s with store := { s.store with
        modes := Function.update s.store.modes c (some mode) } }, .ok ()))) :=
    storeCall_within rfl (fun _ s => .refl s) fun _ _ => ⟨rfl, rfl, rfl, rfl⟩
  apply Protocol.follows_to (inert_follows hwrite (aside_rests rfl (by decide)))
  intro written
  cases written with
  | error e => rfl
  | ok _ =>
    have hkick : transfer.Follows (.handler c) (kickIfAuto .setMode c mode) .empty
        (fun _ x => x = .empty) := by
      unfold kickIfAuto
      split
      · exact kickDrainIfIdle_passes rfl (by decide)
      · rfl
    exact Protocol.follows_to hkick fun _ => rfl

theorem stopTurn_delivers : Delivers c (.stopTurn c) (stopTurn c) .empty := by
  apply empty_delivers rfl
  have hrest : ∀ x : Site, x.fn = .stopTurn → HoldsAt (.handler c) x .empty :=
    aside_rests rfl (by decide)
  have hkick : transfer.Follows (.handler c) ((kickDrainIfIdle .stopTurn c).bind fun _ =>
      (.ret (.ok ()) : Async (Except Failure Unit))) .empty (fun _ x => x = .empty) :=
    Protocol.follows_to (kickDrainIfIdle_passes rfl (by decide)) fun _ => rfl
  apply Protocol.follows_to (one_follows (readInert rfl) (hrest _ rfl))
  intro token
  cases token with
  | some token =>
    apply Protocol.follows_to (now_follows (atOnce_within fun _ => ⟨rfl, rfl, rfl, rfl⟩))
    intro _
    exact hkick
  | none =>
  apply Protocol.follows_to (one_follows (storeReadInert rfl) (hrest _ rfl))
  intro prompts
  dsimp only
  split
  · rename_i tail _
    apply Protocol.follows_to (one_follows (storeCall_within rfl (fun _ s => .refl s) fun w s => ?_)
      (hrest _ rfl))
    · intro _
      apply Protocol.follows_to (one_follows (access_within rfl fun _ _ => ⟨rfl, rfl, rfl, rfl⟩)
        (hrest _ rfl))
      intro _
      exact Protocol.follows_to (now_follows (publishOn_inert _ _)) fun _ => rfl
    · exact (Quiet.updatePrompt s tail.id
        (fun r => { r with events := tail.events ++ [.error didNotComplete] }) fun _ => rfl).still
  · apply Protocol.follows_to (one_follows (lockRouting_inert rfl) (hrest _ rfl))
    intro _
    apply Protocol.follows_to (now_follows removeDispatching_inert)
    intro _
    apply Protocol.follows_to (now_follows unlockRouting_inert)
    intro _
    apply Protocol.follows_to (now_follows (publishOn_inert _ _))
    intro _
    exact hkick

theorem deleteChat_delivers : Delivers c (.deleteChat c) (deleteChat c) .empty := by
  apply empty_delivers rfl
  have hinert : Inert (fun x => x.fn = .deleteChat) (deleteChat c) := by
    apply Prog.Within.bind (S := fun x : Site => x.fn = .deleteChat)
      (storeCall_within rfl (fun _ s => .refl s) fun _ _ => ⟨rfl, rfl, rfl, rfl⟩)
    intro gone
    cases gone with
    | error e => trivial
    | ok _ =>
      apply Prog.Within.bind (S := fun x : Site => x.fn = .deleteChat)
        (access_within rfl fun _ _ => ⟨rfl, rfl, rfl, rfl⟩)
      intro _
      trivial
  exact inert_follows hinert (aside_rests rfl (by decide))

theorem restoreChat_delivers : Delivers c (.restoreChat c) (restoreChat c) .empty := by
  apply empty_delivers rfl
  have hinert : Inert (fun x => x.fn = .restoreChat) (restoreChat c) := by
    apply Prog.Within.bind (S := fun x : Site => x.fn = .restoreChat)
      (storeCall_within rfl (fun _ s => .refl s) fun _ _ => ⟨rfl, rfl, rfl, rfl⟩)
    intro back
    split
    · trivial
    · trivial
    · apply Prog.Within.bind (S := fun x : Site => x.fn = .restoreChat) (storeReadInert rfl)
      intro row
      cases row with
      | error e => trivial
      | ok row =>
        apply Prog.Within.bind (S := fun x : Site => x.fn = .restoreChat)
          (access_within rfl fun _ _ => ⟨rfl, rfl, rfl, rfl⟩)
        intro _
        trivial
  exact inert_follows hinert (aside_rests rfl (by decide))

section Editor

theorem editor_rests (hf : fn.carrier = none) (hw : Site.waits ⟨fn, c, call⟩ = false) :
    HoldsAt t ⟨fn, c, call⟩ .editor :=
  ⟨hf, hw⟩

theorem editor_calm {p : Async α} (hf : fn.carrier = none) (hne : fn ≠ .sendMessage)
    (hp : Calm fn c p) : transfer.Follows t p .editor (fun _ x => x = .editor) := by
  apply inert_follows (hp.inert fun x hx => hx)
  rintro ⟨f, d, call⟩ ⟨rfl, rfl, -⟩
  exact editor_rests hf (by simp [Site.waits, hne])

theorem add_ways {content : Text} :
    Ways (.handler c) .addPrompt c content .editor .editor .editor (fun _ => .editor) where
  restRow := editor_rests rfl rfl
  restSeq := editor_rests rfl rfl
  restInsert _ := editor_rests rfl rfl
  restTouch := editor_rests rfl rfl
  restIngest := editor_rests rfl rfl
  noRow _ s _ := .still (.refl s)
  noSeq _ s _ := .still (.refl s)
  seq _ s _ _ := .still (.refl s)
  refuse _ s _ _ := .still (.refl s)
  insert _ s n q hw hid hc _ := by
    refine .edit ⟨Nat.le_succ _, rfl, List.Sublist.refl _, fun _ _ => .rfl, .inr ?_⟩
    exact ⟨rfl, hw, q, hid, hc, rfl, rfl⟩
  breaks _ _ _ _ _ hs := .still hs

theorem editor_delivers {request : Request} (hm : request.message = none)
    {p : Async (Except Failure α)}
    (h : transfer.Follows (.handler c) p .editor (fun _ x => x = .editor)) :
    Delivers c request p .editor := by
  apply Protocol.follows_mono h
  rintro out _ rfl _ _
  exact hm

theorem Aside.delivers {request : Request} (hm : request.message = none)
    {p : Async (Except Failure α)} (h : Aside p) : Delivers c request p .editor := by
  apply editor_delivers hm
  apply Protocol.follows_within h
  · rintro ⟨f, d, call⟩ hx
    simp only [Site.aside, Bool.and_eq_true] at hx
    have hrest : f.carrier = none ∧ f ≠ .sendMessage := by
      cases f <;> first | exact ⟨rfl, by decide⟩ | cases hx.1
    exact editor_rests (t := .handler c) hrest.1 (by simp [Site.waits, hrest.2])
  · exact fun x w s s' _ _ hb => .edit hb.1
  · exact fun s s' _ hq => .still (Quiet.still hq)
  · exact fun _ => rfl

theorem addPrompt_delivers (content : Text) :
    Delivers c (.addPrompt c content) (addPrompt c content) .editor := by
  apply editor_delivers rfl
  have hfail : ∀ e : Failure, transfer.Follows (.handler c) (unlockRouting.bind fun _ =>
      (.ret (.error e) : Async (Except Failure PromptRecord))) .editor (fun _ x => x = .editor) :=
    fun e => Protocol.follows_to (now_follows unlockRouting_inert) fun _ => rfl
  apply Protocol.follows_to (one_follows (lockRouting_inert rfl) (editor_rests rfl rfl))
  intro _
  apply Protocol.follows_to (one_follows (readInert rfl) (editor_rests rfl rfl))
  intro found
  cases found with
  | none => exact hfail _
  | some chat =>
  apply Protocol.follows_split (persistAddPrompt_passes add_ways)
  · rintro _ ⟨p, rfl⟩
    apply Protocol.follows_to (now_follows insertDispatching_inert)
    intro _
    apply Protocol.follows_to (now_follows unlockRouting_inert)
    intro _
    exact Protocol.follows_to (spawnDispatchTask_passes _ _ _) fun _ => rfl
  · intro stored hne
    cases stored with
    | error e => exact hfail _
    | ok stored =>
      cases stored with
      | none => exact hfail _
      | some p => exact absurd rfl (hne p)

theorem retryChat_delivers : Delivers c (.retryChat c) (retryChat c) .editor := by
  apply editor_delivers rfl
  have hfail : ∀ e : Failure, transfer.Follows (.handler c) (unlockRouting.bind fun _ =>
      (.ret (.error e) : Async (Except Failure PromptRecord))) .editor (fun _ x => x = .editor) :=
    fun e => Protocol.follows_to (now_follows unlockRouting_inert) fun _ => rfl
  apply Protocol.follows_to (one_follows (lockRouting_inert rfl) (editor_rests rfl rfl))
  intro _
  apply Protocol.follows_to (one_follows (readInert rfl) (editor_rests rfl rfl))
  intro found
  cases found with
  | none => exact hfail _
  | some chat =>
  dsimp only
  split
  · exact hfail _
  apply Protocol.follows_to (now_follows isDispatching_inert)
  intro busy
  split
  · exact hfail _
  apply Protocol.follows_to (editor_calm rfl (by decide)
    (show Calm .retryChat c _ from retryPrompt_calm))
  intro retried
  cases retried with
  | none => exact hfail _
  | some prompt =>
  apply Protocol.follows_to (editor_calm rfl (by decide)
    (show Calm .retryChat c _ from persistPromptEvents_calm prompt.id rfl rfl))
  intro _
  have hpaths : ∀ s : AppState, Still s { s with store := { s.store with
      prompts := ChatRepo.updatePrompt prompt.id (fun r => { r with touchedPaths := [] })
        s.store.prompts } } :=
    fun s => (Quiet.updatePrompt s prompt.id (fun r => { r with touchedPaths := [] })
      fun _ => rfl).still
  apply Protocol.follows_to (one_follows (storeCall_within rfl (fun _ s => .refl s) fun _ s => hpaths s)
    (editor_rests rfl rfl))
  intro _
  apply Protocol.follows_to (one_follows (readInert rfl) (editor_rests rfl rfl))
  intro found
  cases found with
  | none => exact hfail _
  | some chat =>
    apply Protocol.follows_to (now_follows insertDispatching_inert)
    intro _
    apply Protocol.follows_to (now_follows unlockRouting_inert)
    intro _
    exact Protocol.follows_to (spawnDispatchTask_passes _ _ _) fun _ => rfl

end Editor

theorem Delivers.respond {request : Request} {p : Async (Except Failure α)} {h : Hand}
    (hd : Delivers c request p h) (render : α → Response) (hr : ∀ a, (render a).ok = true) :
    transfer.Follows (.handler c) (respond request render p) h
      (fun _ x => Holds (.handler c) none x) := by
  apply Protocol.follows_then hd
  intro out x hx
  cases out with
  | ok a =>
    apply atOnce_follows
    intro s _
    exact ⟨.ended, .answer (hx _ (hr a)), .inr rfl⟩
  | error e =>
    apply atOnce_follows
    intro s _
    exact ⟨.ended, .answer (hx _ rfl), .inr rfl⟩

end Transfer

/-- The hand with which a request starts out. -/
def Request.hand : Request → Hand
  | .sendMessage c body | .enqueue c body => .sender c body
  | .runNext c | .dispatchItem c _ => .fetching c
  | .setMode _ _ | .stopTurn _ | .deleteChat _ | .restoreChat _ => .empty
  | _ => .editor

theorem entry_passes (request : Request) :
    transfer.Follows (entry request).tag (entry request).prog request.hand
      (fun _ x => Holds (entry request).tag none x) := by
  cases request with
  | sendMessage c body => exact (sendMessage_delivers rfl).respond _ fun _ => rfl
  | enqueue c body => exact (enqueue_delivers rfl).respond _ fun _ => rfl
  | runNext c => exact runNext_delivers.respond _ fun _ => rfl
  | dispatchItem c item => exact (dispatchItem_delivers item).respond _ fun _ => rfl
  | setMode c mode => exact (setMode_delivers mode).respond _ fun _ => rfl
  | stopTurn c => exact stopTurn_delivers.respond _ fun _ => rfl
  | deleteChat c => exact deleteChat_delivers.respond _ fun _ => rfl
  | restoreChat c => exact restoreChat_delivers.respond _ fun _ => rfl
  | addPrompt c content => exact (addPrompt_delivers content).respond _ fun _ => rfl
  | retryChat c => exact retryChat_delivers.respond _ fun _ => rfl
  | reorder c ids => exact ((reorder_aside ids).delivers rfl).respond _ fun _ => rfl
  | cancel c item => exact ((cancel_aside item).delivers rfl).respond _ fun _ => rfl
  | updateItem c item body =>
    exact ((updateItem_aside item body).delivers rfl).respond _ fun _ => rfl
  | createChat p w title provider model effort =>
    exact ((createChat_offside p w title provider model effort).aside.delivers rfl).respond _ fun _ => rfl
  | patch c title model effort =>
    exact ((patch_offside title model effort).aside.delivers rfl).respond _ fun _ => rfl
  | forkChat c seq => exact ((forkChat_offside seq).aside.delivers rfl).respond _ fun _ => rfl
  | truncateChat c seq => exact ((truncateChat_offside seq).aside.delivers rfl).respond _ fun _ => rfl
  | revertPrompt c p => exact ((revertPrompt_offside p).aside.delivers rfl).respond _ fun _ => rfl

end AgentGrove
