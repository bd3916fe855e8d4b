import AgentGrove.Transfer.Owned

namespace AgentGrove

open Coop

/-- How often a message of a chat stands in its queue and its timeline together. -/
def represented (s : AppState) (c : Uuid) (body : Text) : Nat :=
  s.store.items.countP (fun i => i.chatId = c ∧ i.body = body) +
    s.store.prompts.countP (fun q => q.chatId = c ∧ q.content = body)

/-- How often taking in a message was answered with success, or with an error. -/
def answered (good : Bool) (s : AppState) (c : Uuid) (body : Text) : Nat :=
  s.answers.countP (fun a => a.1.message = some (c, body) ∧ a.2.ok = good)

/-- Whether a message may be in the tables though it is going to be refused. -/
def Hand.strays (c : Uuid) (body : Text) (h : Hand) : Bool := h = .refused c body

/-- The requests that take in, move or answer for messages, and those that may
run beside them. -/
def Request.transfers : Request → Bool
  | .sendMessage _ _ | .enqueue _ _ | .runNext _ | .dispatchItem _ _ | .setMode _ _ | .stopTurn _
  | .deleteChat _ | .restoreChat _ => true
  | _ => false

/-- Only such requests arrive. -/
def Transferring (_ : Server) : ServerEvent → Prop
  | .arrive request => request.transfers = true
  | .run _ _ => True

instance (p : Server) : (e : ServerEvent) → Decidable (Transferring p e)
  | .arrive request => inferInstanceAs (Decidable (request.transfers = true))
  | .run _ _ => .isTrue trivial

/-- No row is forgotten or left behind once its prompt is in the store. -/
def Whole (p : Server) : ServerEvent → Prop
  | .arrive request => request.transfers = true
  | .run i w => ∀ x ∈ p.restsAt i,
      Finishes x w ∧ (x.fn.carrier.isSome = true → ¬ Breaks p.shared w x.chat x.call)

instance (p : Server) : (e : ServerEvent) → Decidable (Whole p e)
  | .arrive request => inferInstanceAs (Decidable (request.transfers = true))
  | .run i _ => inferInstanceAs (Decidable (∀ x ∈ p.restsAt i, _))

/-- The books of all messages: what stands in the tables is what stood there at
the start, what was accepted since and what is owed an answer or a row's end,
but for messages of sends that failed after they had stored them. -/
structure Ledger (base : Uuid → Text → Nat) (s : AppState) (hands : List Hand) : Prop
    extends Carried s hands where
  plain : ∀ h ∈ hands, h ≠ .editor
  states : ∀ i ∈ s.store.items, QueueRepo.isPending i = true ∨ QueueRepo.isRunning i = true
  lower : ∀ c b, base c b + answered true s c b + hands.countP (Hand.owes c b) ≤ represented s c b
  upper : ∀ c b, represented s c b ≤ base c b + answered true s c b + answered false s c b +
    hands.countP (Hand.owes c b) + hands.countP (Hand.strays c b)

section Counts

variable {items : List QueueItemRow} {row : QueueItemRow} {s s' : AppState} {c : Uuid}
  {b : Text}

theorem setStatus_count {guard : QueueItemRow → Bool} {status : QueueStatus} {now : Nat} {id : Uuid}
    {P : QueueItemRow → Bool}
    (hP : ∀ i, P { i with status := status, updatedAt := now } = P i) :
    (QueueRepo.setStatus guard status now id items).countP P = items.countP P := by
  unfold QueueRepo.setStatus
  rw [List.countP_map]
  apply List.countP_congr
  intro i _
  simp only [Function.comp]
  split
  · rw [hP]
  · rfl

theorem markDone_count (hd : (items.map QueueItemRow.id).Nodup) (hm : row ∈ items)
    (hr : QueueRepo.isRunning row = true) (P : QueueItemRow → Bool) :
    (QueueRepo.markDone row.id items).countP P + (P row).toNat = items.countP P := by
  have herase : QueueRepo.markDone row.id items = items.erase row := by
    rw [hd.of_map.erase_eq_filter]
    apply List.filter_congr
    intro i hi
    by_cases he : i = row
    · simp [he, hr]
    · have hid : i.id ≠ row.id := fun hid => he (row_eq hd hi hm hid)
      simp [he, hid]
  have hperm := (List.perm_cons_erase hm).countP_eq P
  rw [herase, hperm, List.countP_cons]
  cases P row <;> simp

theorem represented_keys (s : AppState) (c : Uuid) (b : Text) : represented s c b =
    s.store.items.countP (fun i => i.chatId = c ∧ i.body = b) +
      (s.store.prompts.map PromptRow.key).countP (fun k => k.2.1 = c ∧ k.2.2.2 = b) := by
  rw [List.countP_map]
  rfl

theorem Still.represented (h : Still s s') (c : Uuid) (b : Text) :
    represented s' c b = represented s c b := by
  rw [represented_keys, represented_keys, h.items, h.keys]

theorem Still.answered (h : Still s s') (good : Bool) (c : Uuid) (b : Text) :
    answered good s' c b = answered good s c b := by
  unfold AgentGrove.answered
  rw [h.answers]

theorem represented_prompt (q : PromptRow) (s : AppState) (c : Uuid) (b : Text) :
    represented (withPrompt q s) c b =
      represented s c b + (decide (q.chatId = c ∧ q.content = b)).toNat := by
  simp only [represented, withPrompt, countP_concat]
  omega

theorem represented_item (s : AppState) (n : Nat) (c : Uuid) (b : Text) :
    represented { setItems (s.store.items ++ [row]) s with nextId := n } c b =
      represented s c b + (decide (row.chatId = c ∧ row.body = b)).toNat := by
  simp only [represented, setItems, countP_concat]
  omega

theorem represented_setItems (h : ∀ P : QueueItemRow → Bool,
      (∀ i j : QueueItemRow, i.chatId = j.chatId → i.body = j.body → P i = P j) →
      items.countP P = s.store.items.countP P) (c : Uuid) (b : Text) :
    represented (setItems items s) c b = represented s c b := by
  unfold represented setItems
  rw [h]
  intro i j hc hb
  simp [hc, hb]

end Counts

section Answers

variable {h : Hand} {request : Request} {response : Response}

/-- A success is answered just for the message that is owed one. -/
theorem Hand.answers.owes (ha : h.answers request response) (c : Uuid) (b : Text) :
    decide (request.message = some (c, b) ∧ response.ok = true) = h.owes c b := by
  cases h with
  | empty =>
    have hm : request.message = none := ha
    simp [Hand.owes, hm]
  | editor =>
    have hm : request.message = none := ha
    simp [Hand.owes, hm]
  | stored d body =>
    obtain ⟨hm, hok⟩ := ha
    simp [Hand.owes, hm, hok]
  | sender d body => simp [Hand.owes, ha.2]
  | refused d body => simp [Hand.owes, ha.2]
  | fetching d => simp [Hand.owes, ha.1]
  | dropped d => simp [Hand.owes, ha.1]
  | handed d => simp [Hand.owes, ha.1]
  | _ => exact ha.elim

theorem Hand.answers.strays (ha : h.answers request response) (c : Uuid) (b : Text) :
    (h.strays c b).toNat ≤
      (decide (request.message = some (c, b) ∧ response.ok = false)).toNat := by
  cases h with
  | refused d body =>
    obtain ⟨hm, hok⟩ := ha
    simp [Hand.strays, hm, hok]
  | _ => simp [Hand.strays]

end Answers

namespace Ledger

variable {base : Uuid → Text → Nat} {s s' : AppState} {hands : List Hand} {n : Nat} {h h' : Hand}
  {row : QueueItemRow}

/-- What one entry of the books must add up to. -/
theorem post (hv : Ledger base s hands) (hi : hands[n]? = some h)
    (hc : Carried s' (hands.set n h')) (hplain : h' ≠ .editor)
    (hstates : ∀ i ∈ s'.store.items, QueueRepo.isPending i = true ∨ QueueRepo.isRunning i = true)
    (hlow : ∀ c b, answered true s' c b + (h'.owes c b).toNat + represented s c b ≤
      answered true s c b + (h.owes c b).toNat + represented s' c b)
    (hupp : ∀ c b, represented s' c b + answered true s c b + answered false s c b +
        (h.owes c b).toNat + (h.strays c b).toNat ≤
      represented s c b + answered true s' c b + answered false s' c b +
        (h'.owes c b).toNat + (h'.strays c b).toNat) : Ledger base s' (hands.set n h') := by
  refine ⟨hc, ?_, hstates, ?_, ?_⟩
  · intro x hx
    rcases mem_set hx with rfl | hx
    · exact hplain
    · exact hv.plain x hx
  · intro c b
    have howes := countP_set_add hi (Hand.owes c b) h'
    have hold := hv.lower c b
    have hnew := hlow c b
    omega
  · intro c b
    have howes := countP_set_add hi (Hand.owes c b) h'
    have hstrays := countP_set_add hi (Hand.strays c b) h'
    have hold := hv.upper c b
    have hnew := hupp c b
    omega

/-- Entries that leave tables and answers as they are. -/
theorem move (hv : Ledger base s hands) (hi : hands[n]? = some h) (hs : Still s s')
    (hc : Carried s' (hands.set n h')) (hplain : h' ≠ .editor)
    (hlow : ∀ c b, (h'.owes c b).toNat ≤ (h.owes c b).toNat)
    (hupp : ∀ c b, (h.owes c b).toNat + (h.strays c b).toNat ≤
      (h'.owes c b).toNat + (h'.strays c b).toNat) : Ledger base s' (hands.set n h') := by
  apply hv.post hi hc hplain
  · rw [hs.items]
    exact hv.states
  · intro c b
    rw [hs.answered, hs.represented]
    have := hlow c b
    omega
  · intro c b
    rw [hs.answered, hs.answered, hs.represented]
    have := hupp c b
    omega

/-- Entries that only rewrite the queue. -/
theorem rewrite {items : List QueueItemRow} (hv : Ledger base s hands) (hi : hands[n]? = some h)
    (hc : Carried (setItems items s) (hands.set n h')) (hplain : h' ≠ .editor)
    (hstates : ∀ i ∈ items, QueueRepo.isPending i = true ∨ QueueRepo.isRunning i = true)
    (hsame : ∀ c b, (h'.owes c b).toNat + represented s c b =
      (h.owes c b).toNat + represented (setItems items s) c b)
    (hstrays : ∀ c b, h.strays c b = h'.strays c b) :
    Ledger base (setItems items s) (hands.set n h') := by
  have hans : ∀ good c b, answered good (setItems items s) c b = answered good s c b :=
    fun _ _ _ => rfl
  apply hv.post hi hc hplain hstates
  · intro c b
    rw [hans]
    have := hsame c b
    omega
  · intro c b
    rw [hans, hans, hstrays]
    have := hsame c b
    omega

theorem status {guard : QueueItemRow → Bool} {status : QueueStatus} {now : Nat} {id : Uuid}
    (hv : Ledger base s hands) (hi : hands[n]? = some h)
    (hst : status = .pending ∨ status = .running)
    (hc : Carried (setItems (QueueRepo.setStatus guard status now id s.store.items) s)
      (hands.set n h')) (hplain : h' ≠ .editor)
    (howes : ∀ c b, h'.owes c b = h.owes c b) (hstrays : ∀ c b, h.strays c b = h'.strays c b) :
    Ledger base (setItems (QueueRepo.setStatus guard status now id s.store.items) s)
      (hands.set n h') := by
  apply hv.rewrite hi hc hplain
  · intro j hj
    rcases setStatus_cases hj with ⟨hj, -⟩ | ⟨i, -, -, -, rfl⟩
    · exact hv.states j hj
    · rcases hst with rfl | rfl
      · exact .inl rfl
      · exact .inr rfl
  · intro c b
    have hrep : represented (setItems (QueueRepo.setStatus guard status now id s.store.items) s) c b =
        represented s c b :=
      represented_setItems (fun P hP => setStatus_count fun i => hP _ _ rfl rfl) c b
    rw [hrep, howes]
  · exact hstrays

theorem finish (hv : Ledger base s hands) (hi : hands[n]? = some h) (hr : h.row = some row)
    (hc : Carried (setItems (QueueRepo.markDone row.id s.store.items) s) (hands.set n h'))
    (howes : ∀ c b, h.owes c b = decide (row.chatId = c ∧ row.body = b)) (hplain : h' ≠ .editor)
    (hnone : ∀ c b, h'.owes c b = false) (hstrays : ∀ c b, h.strays c b = h'.strays c b) :
    Ledger base (setItems (QueueRepo.markDone row.id s.store.items) s) (hands.set n h') := by
  obtain ⟨hin, hrun⟩ := hv.kept h (mem_of_get hi) row hr
  apply hv.rewrite hi hc hplain
  · exact fun j hj => hv.states j (markDone_cases.mp hj).1
  · intro c b
    have hone := markDone_count hv.distinct hin hrun (fun i => i.chatId = c ∧ i.body = b)
    rw [howes, hnone]
    simp only [represented, setItems, Bool.toNat_false] at hone ⊢
    omega
  · exact hstrays

theorem answer {request : Request} {response : Response} (hv : Ledger base s hands)
    (hi : hands[n]? = some h) (ha : h.answers request response) :
    Ledger base { s with answers := s.answers ++ [(request, response)] } (hands.set n .ended) := by
  have hc := hv.toCarried.passes hi (.answer ha)
  have hcount : ∀ good c b,
      answered good { s with answers := s.answers ++ [(request, response)] } c b =
        answered good s c b +
          (decide (request.message = some (c, b) ∧ response.ok = good)).toNat := by
    intro good c b
    simp only [answered, countP_concat]
  have hrep : ∀ c b, represented { s with answers := s.answers ++ [(request, response)] } c b =
      represented s c b := fun _ _ => rfl
  apply hv.post hi hc (by simp) hv.states
  · intro c b
    have hended : Hand.ended.owes c b = false := rfl
    rw [hcount, hrep, ha.owes c b, hended, Bool.toNat_false]
    omega
  · intro c b
    have hstray := ha.strays c b
    rw [hcount, hcount, hrep, ha.owes c b]
    omega

/-- Nothing a task may do with its hand upsets the books, as long as rows whose
prompts are stored are deleted. -/
theorem passes {e : Option (Site × Choice)} (hv : Ledger base s hands) (hi : hands[n]? = some h)
    (hm : Passes e h s h' s')
    (hgood : ∀ x w, e = some (x, w) →
      Finishes x w ∧ (x.fn.carrier.isSome = true → ¬ Breaks s w x.chat x.call)) :
    Ledger base s' (hands.set n h') := by
  have hc := hv.toCarried.passes hi hm
  have hplain := hv.plain h (mem_of_get hi)
  have hans : ∀ good q c b, answered good (withPrompt q s) c b = answered good s c b :=
    fun _ _ _ _ => rfl
  cases hm with
  | still hs => exact hv.move hi hs hc hplain (fun _ _ => Nat.le_refl _) fun _ _ => Nat.le_refl _
  | answer ha => exact hv.answer hi ha
  | @queue _ _ d body _ row hw hid hd hb hp =>
    have hans : ∀ good c b, answered good
        { setItems (s.store.items ++ [row]) s with nextId := s.nextId + 1 } c b =
          answered good s c b := fun _ _ _ => rfl
    apply hv.post hi hc (by simp)
    · intro i hin
      rcases List.mem_append.mp hin with hin | hin
      · exact hv.states i hin
      · rw [List.mem_singleton.mp hin]
        exact .inl (by simp [QueueRepo.isPending, hp])
    · intro c b
      rw [hans, represented_item, hd, hb]
      simp [Hand.owes]
      omega
    · intro c b
      rw [hans, hans, represented_item, hd, hb]
      simp [Hand.owes, Hand.strays]
      omega
  | @send _ d body _ q hw hid hd hb =>
    apply hv.post hi hc (by simp) hv.states
    · intro c b
      rw [hans, represented_prompt, hd, hb]
      simp [Hand.owes]
      omega
    · intro c b
      rw [hans, hans, represented_prompt, hd, hb]
      simp [Hand.owes, Hand.strays]
      omega
  | refuse =>
    apply hv.move hi (.refl s) hc (by simp)
    · exact fun _ _ => Nat.le_refl _
    · simp [Hand.owes, Hand.strays]
  | spoil hwhy hs =>
    apply hv.move hi hs hc (by simp)
    · simp [Hand.owes]
    · intro c b
      simp only [Hand.owes, Hand.strays]
      simp
  | pop hh him hp =>
    rcases hh with ⟨rfl, rfl⟩ | ⟨rfl, rfl⟩
    · exact hv.status hi (.inr rfl) hc (by simp) (fun _ _ => rfl) fun _ _ => rfl
    · exact hv.status hi (.inr rfl) hc (by simp) (fun _ _ => rfl) fun _ _ => rfl
  | number hn =>
    exact hv.move hi (.refl s) hc (by simp) (fun _ _ => Nat.le_refl _) fun _ _ => Nat.le_refl _
  | @copy _ _ _ k row _ q hh hw hid hd hb =>
    have hnone : ∀ c b, h.owes c b = false ∧ h.strays c b = false := by
      intro c b
      rcases hh with ⟨rfl, rfl⟩ | ⟨rfl, m, rfl⟩
      · exact ⟨rfl, rfl⟩
      · exact ⟨rfl, rfl⟩
    have howes : ∀ c b, (Hand.copied k row).owes c b =
        decide (q.chatId = c ∧ q.content = b) := by
      intro c b
      simp [Hand.owes, hd, hb]
    apply hv.post hi hc (by simp) hv.states
    · intro c b
      rw [hans, represented_prompt, howes, (hnone c b).1, Bool.toNat_false]
      omega
    · intro c b
      have hstrays : (Hand.copied k row).strays c b = false := rfl
      rw [hans, hans, represented_prompt, howes, (hnone c b).1, (hnone c b).2, hstrays,
        Bool.toNat_false]
      omega
  | botch hfn hwhy hs => exact absurd hwhy ((hgood _ _ rfl).2 (by rw [hfn]; rfl))
  | giveBack => exact hv.status hi (.inl rfl) hc (by simp) (fun _ _ => rfl) fun _ _ => rfl
  | lose hw =>
    exact hv.move hi (.refl s) hc (by simp) (fun _ _ => Nat.le_refl _) fun _ _ => Nat.le_refl _
  | @finish _ _ k row =>
    have howes : ∀ c b, (Hand.copied k row).owes c b =
        decide (row.chatId = c ∧ row.body = b) := by
      intro c b
      simp [Hand.owes]
    cases k with
    | task => exact hv.finish hi rfl hc howes (by simp [Carrier.after]) (fun _ _ => rfl) fun _ _ => rfl
    | handler =>
      exact hv.finish hi rfl hc howes (by simp [Carrier.after]) (fun _ _ => rfl) fun _ _ => rfl
  | forget hw =>
    have := (hgood _ _ rfl).1 rfl
    rw [hw] at this
    cases this
  | edit => exact absurd rfl hplain
  | abandon hfn hh hwhy hs =>
    rcases hh with rfl | ⟨m, rfl⟩
    · exact hv.move hi hs hc (by simp) (fun _ _ => Nat.le_refl _) fun _ _ => Nat.le_refl _
    · exact hv.move hi hs hc (by simp) (fun _ _ => Nat.le_refl _) fun _ _ => Nat.le_refl _
  | strand hfn hwhy hs => exact absurd hwhy ((hgood _ _ rfl).2 (by rw [hfn]; rfl))

theorem grow (hv : Ledger base s hands) (hc : Carried s (hands ++ [h])) (hplain : h ≠ .editor)
    (hnone : ∀ c b, h.owes c b = false ∧ h.strays c b = false) :
    Ledger base s (hands ++ [h]) := by
  refine ⟨hc, ?_, hv.states, ?_, ?_⟩
  · intro x hx
    rcases List.mem_append.mp hx with hx | hx
    · exact hv.plain x hx
    · exact List.mem_singleton.mp hx ▸ hplain
  · intro c b
    rw [countP_concat, (hnone c b).1]
    exact hv.lower c b
  · intro c b
    rw [countP_concat, countP_concat, (hnone c b).1, (hnone c b).2]
    exact hv.upper c b

theorem split (hv : Ledger base s hands) (hi : hands[n]? = some h) :
    Ledger base s (hands.set n h ++ [.empty]) := by
  have hc := hv.toCarried.split hi
  rw [set_self hi] at hc ⊢
  exact hv.grow hc (by simp) fun _ _ => ⟨rfl, rfl⟩

theorem arrive {request : Request} (hv : Ledger base s hands) (h : request.transfers = true) :
    Ledger base s (hands ++ [request.hand]) := by
  apply hv.grow (hv.toCarried.arrive request.hand_row)
  · cases request <;> first
      | (cases h; done)
      | (intro he; cases he)
  · intro c b
    cases request <;> exact ⟨rfl, rfl⟩

end Ledger

theorem ledger_kept (base : Uuid → Text → Nat) : transfer.Kept (Ledger base) where
  sees _ _ _ _ _ _ := trivial
  sync _ _ _ _ _ _ hv hi hm := hv.passes hi hm (by simp)
  fork s hands n h tag x h' hv hi hf := by
    cases hf
    exact hv.split hi

theorem Fresh.ledger {s : AppState} (h : Fresh s) : Ledger (represented s) s [] := by
  refine ⟨h.owned.toCarried, by simp, ?_, ?_, ?_⟩
  · intro i hi
    exact .inl (by simp [QueueRepo.isPending, (h.items i hi).2])
  · intro c b
    simp [answered, h.answers]
  · intro c b
    simp [answered, h.answers]

theorem ledger_await {base : Uuid → Text → Nat} {p : Server} {hands : List Hand} {i : Nat}
    {w : Choice} {x : Site} {h h' : Hand} {s' : AppState} (hv : Ledger base p.shared hands)
    (hg : Whole p (.run i w)) (hat : p.At i x) (hi : hands[i]? = some h)
    (hm : Passes (some (x, w)) h p.shared h' s') : Ledger base s' (hands.set i h') := by
  apply hv.passes hi hm
  rintro _ _ ⟨⟩
  exact hg x hat

theorem ledger_run {s : AppState} (hs : Fresh s) {p : Server}
    (h : Pool.Reaches entry Whole ⟨s, []⟩ p) :
    ∃ hands, transfer.Coupled p hands ∧ Ledger (represented s) p.shared hands := by
  apply (ledger_kept _).reaches ?_ ?_ h (transfer_start s) hs.ledger
  · intro p hands request hc hv hg
    exact ⟨request.hand, entry_passes request, hv.arrive hg⟩
  · intro p hands i w x h h' s' hc hv hg hat hi hm
    exact ledger_await hv hg hat hi hm

end AgentGrove
