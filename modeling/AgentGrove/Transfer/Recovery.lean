import AgentGrove.Transfer.Messages

namespace AgentGrove

open Coop

/-- Somebody is between storing the prompt of a row of the chat and deleting the row. -/
def Handing (p : Server) (c : Uuid) : Prop :=
  ∃ t ∈ p.threads, ∃ x ∈ t.site, x.chat = c ∧ x.between = true

instance (p : Server) (c : Uuid) : Decidable (Handing p c) :=
  inferInstanceAs (Decidable (∃ t ∈ p.threads, _))

/-- A send to the chat that has stored its message and not answered. -/
def sending (c : Uuid) (t : Task) : Bool :=
  t.tag = .handler c && t.site.any Site.waits

/-- What the books owe an answer for. -/
def Hand.waiting (c : Uuid) : Hand → Option Text
  | stored d body => if d = c then some body else none
  | _ => none

section Recover

variable {items : List QueueItemRow} {c : Uuid} {now : Nat}

def recovered (now : Nat) (i : QueueItemRow) : QueueItemRow :=
  if QueueRepo.isRunning i then { i with status := .pending, updatedAt := now } else i

theorem recovered_same (now : Nat) (i : QueueItemRow) :
    (recovered now i).id = i.id ∧ (recovered now i).chatId = i.chatId ∧
      (recovered now i).body = i.body ∧ (recovered now i).position = i.position ∧
      (recovered now i).createdAt = i.createdAt := by
  unfold recovered
  split
  · exact ⟨rfl, rfl, rfl, rfl, rfl⟩
  · exact ⟨rfl, rfl, rfl, rfl, rfl⟩

/-- Recovery keeps the order in which the queue is read. -/
theorem recover_order (c : Uuid) :
    (QueueRepo.list (QueueRepo.recoverStaleRunning now items) c).map QueueItemRow.id =
      (QueueRepo.list items c).map QueueItemRow.id := by
  have hrows : QueueRepo.ofChat (QueueRepo.recoverStaleRunning now items) c =
      (QueueRepo.ofChat items c).map (recovered now) := by
    unfold QueueRepo.ofChat QueueRepo.recoverStaleRunning
    rw [List.filter_map]
    congr 1
    apply List.filter_congr
    intro i _
    have hchat := (recovered_same now i).2.1
    unfold recovered at hchat
    simp [hchat]
  have hsort : ((QueueRepo.ofChat items c).map (recovered now)).insertionSort QueueRepo.Before =
      ((QueueRepo.ofChat items c).insertionSort QueueRepo.Before).map (recovered now) := by
    symm
    apply List.map_insertionSort
    intro a _ b _
    obtain ⟨-, -, -, hpa, hca⟩ := recovered_same now a
    obtain ⟨-, -, -, hpb, hcb⟩ := recovered_same now b
    unfold QueueRepo.Before
    rw [hpa, hca, hpb, hcb]
  unfold QueueRepo.list
  rw [hrows, hsort, List.map_map]
  apply List.map_congr_left
  intro i _
  exact (recovered_same now i).1

/-- Where all rows of a chat are Pending, the drain takes them in that order. -/
theorem drains_in_order (h : ∀ i ∈ items, i.chatId = c → i.status = .pending) :
    QueueRepo.headPending items c = (QueueRepo.list items c).head? := by
  unfold QueueRepo.headPending QueueRepo.list QueueRepo.ofChat
  congr 2
  apply List.filter_congr
  intro i hi
  by_cases hc : i.chatId = c
  · simp [hc, QueueRepo.isPending, h i hi hc]
  · simp [hc]

theorem recover_pending
    (h : ∀ i ∈ items, QueueRepo.isPending i = true ∨ QueueRepo.isRunning i = true) :
    ∀ i ∈ QueueRepo.recoverStaleRunning now items, i.status = .pending := by
  intro i hi
  obtain ⟨j, hj, rfl⟩ := List.mem_map.mp hi
  split
  · rfl
  · rename_i hno
    rcases h j hj with hp | hr
    · simpa [QueueRepo.isPending] using hp
    · exact absurd hr hno

theorem represented_startup (s : AppState) (now : Nat) (c : Uuid) (b : Text) :
    represented (startup now s) c b = represented s c b := by
  simp only [represented, startup, QueueRepo.recoverStaleRunning, List.countP_map]
  congr 1
  apply List.countP_congr
  intro i _
  simp only [Function.comp]
  split
  · rfl
  · rfl

end Recover

section Crash

variable {p : Server} {hands : List Hand} {c : Uuid} {h : Hand}

theorem copies_nothing (hn : ¬ Handing p c) (hc : transfer.Coupled p hands) (hh : h ∈ hands)
    (b : Text) : h.owes c b = decide (h.waiting c = some b) := by
  cases h with
  | stored d body =>
    by_cases hd : d = c
    · simp [Hand.owes, Hand.waiting, hd]
    · simp [Hand.owes, Hand.waiting, hd]
  | copied k row =>
    obtain ⟨i, hi⟩ := List.getElem?_of_mem hh
    obtain ⟨t, ht, hrest⟩ := hc.thread hi
    cases hs : t.site with
    | none =>
      rw [hs] at hrest
      rcases hrest with hr | hr
      · cases hr
      · cases hr
    | some x =>
      rw [hs] at hrest
      have hne : row.chatId ≠ c := by
        intro he
        refine hn ⟨t, mem_of_get ht, x, hs, hrest.2.1.trans he, ?_⟩
        simp [Site.between, hrest.2.2.1, hrest.2.2.2]
      simp [Hand.owes, Hand.waiting, hne]
  | _ => simp [Hand.owes, Hand.waiting]

theorem not_waits {x : Site} {k : Carrier} (h : x.fn.carrier = some k) : x.waits = false := by
  by_cases hfn : x.fn = .sendMessage
  · rw [hfn] at h
    cases h
  · simp [Site.waits, hfn]

/-- Just the sends that have stored their message wait to be answered for it. -/
theorem waiting_iff {t : Task} (hr : Holds t.tag t.site h) :
    sending c t = (h.waiting c).isSome := by
  unfold sending
  cases hs : t.site with
  | none =>
    rw [hs] at hr
    rcases hr with rfl | rfl
    · simp [Hand.waiting]
    · simp [Hand.waiting]
  | some x =>
    rw [hs] at hr
    cases h with
    | stored d body =>
      obtain ⟨ht, -, hw⟩ := hr
      by_cases hd : d = c
      · simp [Hand.waiting, ht, hw, hd]
      · simp [Hand.waiting, ht, hd]
    | empty => simp [Hand.waiting, hr.2.2]
    | editor => simp [Hand.waiting, hr.2]
    | sender d body => simp [Hand.waiting, hr.2.2.2]
    | fetching d => simp [Hand.waiting, not_waits hr.2.2.1]
    | carrying k row => simp [Hand.waiting, not_waits hr.2.2.1]
    | numbered row seq => simp [Hand.waiting, not_waits hr.2.2.1]
    | copied k row => simp [Hand.waiting, not_waits hr.2.2.1]
    | _ => exact hr.elim

/-- The messages of sends that wait for their answer, one for each such send. -/
theorem waiting_count (hc : transfer.Coupled p hands) (c : Uuid) :
    (hands.filterMap (Hand.waiting c)).length = p.threads.countP (sending c) := by
  rw [List.length_filterMap_eq_countP]
  apply countP_eq_of_get hc.1.symm
  intro i h t hi ht
  obtain ⟨h', hi', hrest⟩ := hc.role ht
  rw [hi] at hi'
  cases hi'
  exact (waiting_iff hrest).symm

theorem owes_count (hn : ¬ Handing p c) (hc : transfer.Coupled p hands) (b : Text) :
    hands.countP (Hand.owes c b) = (hands.filterMap (Hand.waiting c)).count b := by
  rw [List.count_eq_countP, List.countP_filterMap]
  apply List.countP_congr
  intro h hh
  rw [copies_nothing hn hc hh]
  cases h.waiting c with
  | none => simp
  | some body => simp

end Crash

/-- Whatever a crash interrupts, startup finds every message that was there at
the start or accepted since and drains the queue in its old order. Unless the
crash hits between the INSERT of a row's prompt and the DELETE of the row, it
finds each of them once: what else it finds belongs to sends that were answered
with an error, or were still to be answered, one message for each. -/
theorem recovery_is_exact {s : AppState} (hs : Fresh s) {p : Server}
    (h : Pool.Reaches entry Whole ⟨s, []⟩ p) (now : Nat) (c : Uuid) :
    (∀ i ∈ (startup now p.shared).store.items, i.status = .pending) ∧
    (QueueRepo.list (startup now p.shared).store.items c).map QueueItemRow.id =
      (QueueRepo.list p.shared.store.items c).map QueueItemRow.id ∧
    QueueRepo.headPending (startup now p.shared).store.items c =
      (QueueRepo.list (startup now p.shared).store.items c).head? ∧
    (∀ b, represented s c b + answered true p.shared c b ≤
      represented (startup now p.shared) c b) ∧
    (¬ Handing p c → ∃ waiting : List Text, waiting.length = p.threads.countP (sending c) ∧
      ∀ b, represented (startup now p.shared) c b ≤ represented s c b +
        answered true p.shared c b + answered false p.shared c b + waiting.count b) := by
  obtain ⟨hands, hc, hl⟩ := ledger_run hs h
  have hpending : ∀ i ∈ (startup now p.shared).store.items, i.status = .pending :=
    recover_pending hl.states
  refine ⟨hpending, recover_order c, drains_in_order fun i hi _ => hpending i hi, ?_, ?_⟩
  · intro b
    rw [represented_startup]
    have := hl.lower c b
    omega
  · intro hn
    refine ⟨hands.filterMap (Hand.waiting c), waiting_count hc c, fun b => ?_⟩
    have hstrays : hands.countP (Hand.strays c b) = 0 := by
      apply List.countP_eq_zero.mpr
      intro x hx
      simp [no_strays hc hx b]
    have hupp := hl.upper c b
    rw [hstrays, owes_count hn hc] at hupp
    rw [represented_startup]
    omega

/-- `run_next` has stored the prompt of a queued message, and the process dies
before the row is deleted. -/
def halfwayRun : List ServerEvent :=
  [.arrive (.enqueue 1 ['a'])] ++ rounds 0 2 ++ [.arrive (.runNext 1)] ++ rounds 1 6

theorem crash_doubles_message :
    ¬ ∀ (s : AppState) (p : Server), Fresh s → Pool.Reaches entry Whole ⟨s, []⟩ p →
      ∀ (now : Nat) (c : Uuid), p.threads.countP (sending c) = 0 →
      ∀ b, answered false p.shared c b = 0 → represented (startup now p.shared) c b =
        represented s c b + answered true p.shared c b := by
  intro hall
  have hrun : (Pool.play entry Whole ⟨serve freshStore 10 [], []⟩ halfwayRun).map
      (fun p => (p.threads.countP (sending 1), answered false p.shared 1 ['a'],
        answered true p.shared 1 ['a'], represented (startup 0 p.shared) 1 ['a'])) =
      some (0, 0, 1, 2) := by decide
  obtain ⟨p, hp, he⟩ := Option.map_eq_some_iff.mp hrun
  simp only [Prod.mk.injEq] at he
  obtain ⟨hnobody, hrefused, haccepted, htwice⟩ := he
  have hfresh : Fresh (serve freshStore 10 []) := ⟨rfl, by decide, by decide, by decide⟩
  have hone := hall _ p hfresh (Pool.play_reaches hp) 0 1 hnobody ['a'] hrefused
  have hnone : represented (serve freshStore 10 []) 1 ['a'] = 0 := rfl
  rw [htwice, haccepted, hnone] at hone
  cases hone

/-- A crash right after the pop: the message comes back as a Pending item. -/
theorem recovery_is_exact_popped :
    ∃ p : Server, ¬ Handing p 1 ∧ answered true p.shared 1 ['a'] = 1 ∧
      represented (startup 0 p.shared) 1 ['a'] = 1 := by
  have hrun : (Pool.play entry Whole ⟨serve freshStore 10 [], []⟩
      ([.arrive (.enqueue 1 ['a'])] ++ rounds 0 2 ++ [.arrive (.runNext 1)] ++ rounds 1 2)).map
      (fun p => (decide (Handing p 1), p.threads.countP (sending 1),
        answered false p.shared 1 ['a'], answered true p.shared 1 ['a'])) =
      some (false, 0, 0, 1) := by decide
  obtain ⟨p, hp, he⟩ := Option.map_eq_some_iff.mp hrun
  simp only [Prod.mk.injEq, decide_eq_false_iff_not] at he
  obtain ⟨hno, hnobody, hrefused, haccepted⟩ := he
  have hfresh : Fresh (serve freshStore 10 []) := ⟨rfl, by decide, by decide, by decide⟩
  obtain ⟨-, -, -, hlow, hupp⟩ := recovery_is_exact hfresh (Pool.play_reaches hp) 0 1
  obtain ⟨waiting, hlen, hupp⟩ := hupp hno
  rw [hnobody, List.length_eq_zero_iff] at hlen
  have hnone : represented (serve freshStore 10 []) 1 ['a'] = 0 := rfl
  have hlow := hlow ['a']
  have hupp := hupp ['a']
  rw [haccepted, hnone] at hlow hupp
  rw [hrefused, hlen, List.count_nil] at hupp
  exact ⟨p, hno, haccepted, by omega⟩

end AgentGrove
