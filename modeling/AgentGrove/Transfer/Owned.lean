import AgentGrove.Transfer.Carried

namespace AgentGrove

open Coop

/-- A row whose prompt is stored is deleted. -/
def Finishes (x : Site) (w : Choice) : Prop := x.call = .markDone → w.fail = false

/-- A row that cannot be handed on is given back. -/
def GivesBack (x : Site) (w : Choice) : Prop := x.call = .resetToPending → w.fail = false

/-- A handler that has popped a row meets no failure and finds its chat cached and stored. -/
def Fetches (s : AppState) (x : Site) (w : Choice) : Prop :=
  x.fn.carrier = some .handler →
    (x.call = .cloneChat → Cached s x.chat) ∧
    (x.call = .getRow ∨ x.call = .insertPrompt → w.fail = false ∧ Stored s x.chat) ∧
    (x.call = .maxSeq → w.fail = false) ∧ ¬ Breaks s w x.chat x.call

/-- Where a handler waits to store the prompt of a row under the seq it has picked. -/
def Site.numbers (c : Uuid) (x : Site) : Bool :=
  x.fn.carrier = some .handler && x.chat = c && x.call = .insertPrompt

/-- Nobody stores a prompt of a chat while such a handler of the chat waits. -/
def Alone (p : Server) (i : Nat) (x : Site) (w : Choice) : Prop :=
  x.call = .insertPrompt → w.fail = false →
    ∀ j, j < p.threads.length → j ≠ i → ∀ y ∈ p.restsAt j, y.numbers x.chat = false

/-- The steps at which a popped row is neither forgotten nor left behind. -/
def Guarded (p : Server) : ServerEvent → Prop
  | .arrive _ => True
  | .run i w => ∀ x ∈ p.restsAt i,
      Finishes x w ∧ GivesBack x w ∧ Fetches p.shared x w ∧ Alone p i x w

instance (s : AppState) (w : Choice) (c : Uuid) (call : Call) : Decidable (Breaks s w c call) :=
  inferInstanceAs (Decidable (_ ∨ _))

instance (x : Site) (w : Choice) : Decidable (Finishes x w) :=
  inferInstanceAs (Decidable (_ → _))

instance (x : Site) (w : Choice) : Decidable (GivesBack x w) :=
  inferInstanceAs (Decidable (_ → _))

instance (s : AppState) (x : Site) (w : Choice) : Decidable (Fetches s x w) :=
  inferInstanceAs (Decidable (_ → _))

instance (p : Server) (i : Nat) (x : Site) (w : Choice) : Decidable (Alone p i x w) :=
  inferInstanceAs (Decidable (_ → _))

instance (p : Server) : (e : ServerEvent) → Decidable (Guarded p e)
  | .arrive _ => inferInstanceAs (Decidable True)
  | .run i _ => inferInstanceAs (Decidable (∀ x ∈ p.restsAt i, _))

/-- Every row marked Running is in somebody's hands. -/
structure Owned (s : AppState) (hands : List Hand) : Prop extends Carried s hands where
  owned : ∀ i ∈ s.store.items, QueueRepo.isRunning i = true → ∃ h ∈ hands, h.row = some i
  prompts : ∀ q ∈ s.store.prompts, q.id < s.nextId
  seqs : ∀ row seq, .numbered row seq ∈ hands →
    ∀ q ∈ s.store.prompts, q.chatId = row.chatId → q.seq ≠ seq

theorem Still.prompt {s s' : AppState} (hs : Still s s') {q : PromptRow}
    (hq : q ∈ s'.store.prompts) :
    ∃ q' ∈ s.store.prompts, q'.id = q.id ∧ q'.chatId = q.chatId ∧ q'.seq = q.seq := by
  have hm : q.key ∈ s.store.prompts.map PromptRow.key := hs.keys ▸ List.mem_map_of_mem hq
  obtain ⟨q', hq', he⟩ := List.mem_map.mp hm
  simp only [PromptRow.key, Prod.mk.injEq] at he
  exact ⟨q', hq', he.1, he.2.1, he.2.2.1⟩

namespace Owned

variable {s s' : AppState} {hands : List Hand} {n : Nat} {h h' : Hand} {row : QueueItemRow}
  {i : QueueItemRow} {items : List QueueItemRow}

theorem rows_set (hi : hands[n]? = some h) (hrow : ∀ row, h.row = some row → h'.row = some row)
    (hx : ∃ x ∈ hands, x.row = some row) : ∃ x ∈ hands.set n h', x.row = some row := by
  obtain ⟨x, hx, hr⟩ := hx
  by_cases hne : x = h
  · subst hne
    exact ⟨h', mem_set_self hi h', hrow row hr⟩
  · exact ⟨x, mem_set_of_ne hi hx hne h', hr⟩

theorem seqs_set (hv : Owned s hands) (hi : hands[n]? = some h)
    (hnum : ∀ row seq, h' = .numbered row seq → h = .numbered row seq) (row : QueueItemRow)
    (seq : Nat) (hm : .numbered row seq ∈ hands.set n h') :
    ∀ q ∈ s.store.prompts, q.chatId = row.chatId → q.seq ≠ seq := by
  rcases mem_set hm with he | hm
  · exact hv.seqs row seq (hnum row seq he.symm ▸ mem_of_get hi)
  · exact hv.seqs row seq hm

/-- Moves that leave the queue alone and bring no prompt. -/
theorem keep (hv : Owned s hands) (hi : hands[n]? = some h) (hs : Still s s')
    (hrow : h'.row = h.row)
    (hnum : ∀ row seq, h' = .numbered row seq → h = .numbered row seq) :
    Owned s' (hands.set n h') := by
  refine ⟨hv.toCarried.keep hi hs.items (Nat.le_of_eq hs.nextId.symm) (by simp [hrow]), ?_, ?_, ?_⟩
  · intro j hj hr
    rw [hs.items] at hj
    exact rows_set hi (by simp [hrow]) (hv.owned j hj hr)
  · intro q hq
    obtain ⟨q', hq', hid, -, -⟩ := hs.prompt hq
    rw [hs.nextId, ← hid]
    exact hv.prompts q' hq'
  · intro row seq hm q hq hc
    obtain ⟨q', hq', -, hc', hseq⟩ := hs.prompt hq
    rw [← hseq]
    exact hv.seqs_set hi hnum row seq hm q' hq' (hc'.trans hc)

theorem answer {request : Request} {response : Response} (hv : Owned s hands)
    (hi : hands[n]? = some h) (ha : h.answers request response) :
    Owned { s with answers := s.answers ++ [(request, response)] } (hands.set n .ended) := by
  have hrow : h.row = none := by
    cases h <;> first | rfl | exact ha.elim
  refine ⟨hv.toCarried.keep hi rfl (Nat.le_refl _) (by simp [Hand.row]), ?_, hv.prompts, ?_⟩
  · intro j hj hr
    exact rows_set hi (by simp [hrow]) (hv.owned j hj hr)
  · exact hv.seqs_set hi (by simp)

theorem queue (hv : Owned s hands) (hi : hands[n]? = some h) (hid : row.id = s.nextId)
    (hp : row.status = .pending) (hr : h.row = none) (hrow : h'.row = none) :
    Owned { setItems (s.store.items ++ [row]) s with nextId := s.nextId + 1 }
      (hands.set n h') := by
  refine ⟨hv.toCarried.queue hi hid hrow, ?_, ?_, ?_⟩
  · intro j hj hrun
    rcases List.mem_append.mp hj with hj | hj
    · exact rows_set hi (by simp [hr]) (hv.owned j hj hrun)
    · rw [List.mem_singleton.mp hj] at hrun
      simp [QueueRepo.isRunning, hp] at hrun
  · exact fun q hq => Nat.lt_succ_of_lt (hv.prompts q hq)
  · apply hv.seqs_set hi
    intro row seq he
    rw [he] at hrow
    cases hrow

/-- A new prompt, stored while nobody else waits with a seq of its chat. -/
theorem prompt {q : PromptRow} (hv : Owned s hands) (hi : hands[n]? = some h)
    (hid : q.id = s.nextId) (hrow : h'.row = h.row) (hnum : ∀ row seq, h' ≠ .numbered row seq)
    (halone : ∀ row seq m, hands[m]? = some (.numbered row seq) → m ≠ n → row.chatId ≠ q.chatId) :
    Owned (withPrompt q s) (hands.set n h') := by
  refine ⟨hv.toCarried.keep hi rfl (Nat.le_succ _) (by simp [hrow]), ?_, ?_, ?_⟩
  · intro j hj hr
    exact rows_set hi (by simp [hrow]) (hv.owned j hj hr)
  · intro q' hq'
    rcases List.mem_append.mp hq' with hq' | hq'
    · exact Nat.lt_succ_of_lt (hv.prompts q' hq')
    · rw [List.mem_singleton.mp hq', hid]
      exact Nat.lt_succ_self _
  · intro row seq hm q' hq' hc
    obtain ⟨m, hm⟩ := List.getElem?_of_mem hm
    have hne : m ≠ n := by
      rintro rfl
      have hl := (List.getElem?_eq_some_iff.mp hi).1
      rw [List.getElem?_set_self hl] at hm
      exact hnum row seq (Option.some.inj hm)
    rw [List.getElem?_set_ne hne.symm] at hm
    rcases List.mem_append.mp hq' with hq' | hq'
    · exact hv.seqs row seq (List.mem_of_getElem? hm) q' hq' hc
    · rw [List.mem_singleton.mp hq'] at hc
      exact absurd hc.symm (halone row seq m hm hne)

theorem pop {k : Carrier} {now : Nat} (hv : Owned s hands) (hi : hands[n]? = some h)
    (hr : h.row = none) (him : i ∈ s.store.items) (hp : QueueRepo.isPending i = true) :
    Owned (setItems (QueueRepo.setStatus (fun _ => true) .running now i.id s.store.items) s)
      (hands.set n (.carrying k (running now i))) := by
  refine ⟨hv.toCarried.pop hi him hp, ?_, hv.prompts, hv.seqs_set hi (by simp)⟩
  intro j hj hrun
  rcases setStatus_cases hj with ⟨hj, -⟩ | ⟨i', hi', hid, -, rfl⟩
  · exact rows_set hi (by simp [hr]) (hv.owned j hj hrun)
  · rw [row_eq hv.distinct hi' him hid]
    exact ⟨_, mem_set_self hi _, rfl⟩

/-- A row leaves the hand of the task that had it, and is Running no more. -/
theorem release (hv : Owned s hands) (hi : hands[n]? = some h) (hr : h.row = some row)
    (hcarried : Carried (setItems items s) (hands.set n h'))
    (hnum : ∀ row seq, h' ≠ .numbered row seq)
    (hrun : ∀ j ∈ items, QueueRepo.isRunning j = true → j ∈ s.store.items ∧ j.id ≠ row.id) :
    Owned (setItems items s) (hands.set n h') := by
  refine ⟨hcarried, ?_, hv.prompts, hv.seqs_set hi fun row seq he => absurd he (hnum row seq)⟩
  intro j hj hjr
  obtain ⟨hj, hne⟩ := hrun j hj hjr
  obtain ⟨x, hx, hxr⟩ := hv.owned j hj hjr
  have hxh : x ≠ h := by
    rintro rfl
    rw [hr] at hxr
    exact hne (congrArg QueueItemRow.id (Option.some.inj hxr).symm)
  exact ⟨x, mem_set_of_ne hi hx hxh h', hxr⟩

theorem giveBack {now : Nat} (hv : Owned s hands) (hi : hands[n]? = some h)
    (hr : h.row = some row) :
    Owned (setItems (QueueRepo.resetToPending now row.id s.store.items) s)
      (hands.set n .empty) := by
  apply hv.release hi hr (hv.toCarried.giveBack hi hr rfl) (by simp)
  intro j hj hrun
  rcases setStatus_cases hj with ⟨hj, hguard⟩ | ⟨i, hi, -, -, rfl⟩
  · refine ⟨hj, fun hid => ?_⟩
    rw [hguard hid] at hrun
    cases hrun
  · cases hrun

theorem finish (hv : Owned s hands) (hi : hands[n]? = some h) (hr : h.row = some row)
    (hrow : h'.row = none) :
    Owned (setItems (QueueRepo.markDone row.id s.store.items) s) (hands.set n h') := by
  apply hv.release hi hr (hv.toCarried.finish hi hr hrow)
  · rintro row seq rfl
    cases hrow
  · intro j hj hrun
    obtain ⟨hj, hne⟩ := markDone_cases.mp hj
    exact ⟨hj, fun hid => hne ⟨hid, hrun⟩⟩

/-- A handler past its pop has no reason to give up. -/
theorem keeps {w : Choice} {fn : Fn} {call : Call} (hv : Owned s hands) (hi : hands[n]? = some h)
    (hfn : fn.carrier = some .handler)
    (hgood : Fetches s ⟨fn, row.chatId, call⟩ w) : ¬ GivesUp s w row.chatId call h := by
  obtain ⟨hclone, hstore, hseq, -⟩ := hgood hfn
  rintro (⟨rfl, hn⟩ | ⟨rfl, hn⟩ | ⟨rfl, hw⟩ | ⟨rfl, hn⟩)
  · exact hn (hclone rfl)
  · obtain ⟨hw, hs⟩ := hstore (.inl rfl)
    rcases hn with hn | hn
    · rw [hw] at hn
      cases hn
    · exact hn hs
  · rw [hseq rfl] at hw
    cases hw
  · obtain ⟨hw, hs⟩ := hstore (.inr rfl)
    rcases hn with hn | hn | ⟨row', seq, he, q, hq, hc⟩
    · rw [hw] at hn
      cases hn
    · exact hn hs
    · rcases hc with hid | ⟨hc, hs⟩
      · have := hv.prompts q hq
        rw [hid] at this
        exact Nat.lt_irrefl _ this
      · exact hv.seqs row' seq (he ▸ mem_of_get hi) q hq hc hs

/-- Edits, storing a prompt included if nobody waits with a seq of the chat. -/
theorem edit {x : Site} {w : Choice} (hv : Owned s hands) (hi : hands[n]? = some .editor) (hs : Edits x w s s')
    (halone : x.call = .insertPrompt → w.fail = false → ∀ row seq m, hands[m]? = some (.numbered row seq) →
      m ≠ n → row.chatId ≠ x.chat) : Owned s' (hands.set n .editor) := by
  have hcarried := hv.toCarried.edit hi hs
  rw [set_self hi] at hcarried ⊢
  have howned : ∀ i ∈ s'.store.items, QueueRepo.isRunning i = true →
      ∃ h ∈ hands, h.row = some i := fun j hj hr => hv.owned j ((hs.running j hr).mp hj) hr
  rcases hs.prompts with hkeys | ⟨hcall, hw, q, hid, hc, hprompts, hn⟩
  · have hold : ∀ q ∈ s'.store.prompts, ∃ q' ∈ s.store.prompts,
        q'.id = q.id ∧ q'.chatId = q.chatId ∧ q'.seq = q.seq := by
      intro q hq
      obtain ⟨q', hq', he⟩ := List.mem_map.mp (hkeys.subset (List.mem_map_of_mem hq))
      simp only [PromptRow.key, Prod.mk.injEq] at he
      exact ⟨q', hq', he.1, he.2.1, he.2.2.1⟩
    refine ⟨hcarried, howned, ?_, ?_⟩
    · intro q hq
      obtain ⟨q', hq', hid, -, -⟩ := hold q hq
      exact hid ▸ Nat.lt_of_lt_of_le (hv.prompts q' hq') hs.nextId
    · intro row seq hm q hq hc
      obtain ⟨q', hq', -, hc', hseq⟩ := hold q hq
      exact hseq ▸ hv.seqs row seq hm q' hq' (hc'.trans hc)
  · refine ⟨hcarried, howned, ?_, ?_⟩
    · intro q' hq'
      rw [hprompts] at hq'
      rw [hn]
      rcases List.mem_append.mp hq' with hq' | hq'
      · exact Nat.lt_succ_of_lt (hv.prompts q' hq')
      · rw [List.mem_singleton.mp hq', hid]
        exact Nat.lt_succ_self _
    · intro row seq hm q' hq' hc'
      rw [hprompts] at hq'
      rcases List.mem_append.mp hq' with hq' | hq'
      · exact hv.seqs row seq hm q' hq' hc'
      · obtain ⟨m, hm⟩ := List.getElem?_of_mem hm
        have hne : m ≠ n := by
          rintro rfl
          rw [hi] at hm
          cases hm
        rw [List.mem_singleton.mp hq', hc] at hc'
        exact absurd hc'.symm (halone hcall hw row seq m hm hne)

/-- What a task may do with its hand at a guarded step keeps every Running row owned. -/
theorem passes {e : Option (Site × Choice)} (hv : Owned s hands) (hi : hands[n]? = some h)
    (hm : Passes e h s h' s')
    (hgood : ∀ x w, e = some (x, w) → Finishes x w ∧ GivesBack x w ∧ Fetches s x w)
    (halone : ∀ x w, e = some (x, w) → x.call = .insertPrompt →
      w.fail = false → ∀ row seq m, hands[m]? = some (.numbered row seq) → m ≠ n → row.chatId ≠ x.chat) :
    Owned s' (hands.set n h') := by
  cases hm with
  | still hs => exact hv.keep hi hs rfl fun _ _ => id
  | answer ha => exact hv.answer hi ha
  | queue hw hid hc hb hp => exact hv.queue hi hid hp rfl rfl
  | send hw hid hc hb =>
    have hfree := halone _ _ rfl rfl hw
    rw [← hc] at hfree
    exact hv.prompt hi hid rfl (by simp) hfree
  | refuse => exact hv.keep hi (.refl s) rfl (by simp)
  | spoil hwhy hs => exact hv.keep hi hs rfl (by simp)
  | pop hh him hp =>
    have hrow : h.row = none := by
      rcases hh with ⟨-, rfl⟩ | ⟨-, rfl⟩
      · rfl
      · rfl
    exact hv.pop hi hrow him hp
  | number hn =>
    refine ⟨hv.toCarried.keep hi rfl (Nat.le_refl _) fun _ => id, ?_, hv.prompts, ?_⟩
    · intro j hj hr
      exact rows_set hi (fun _ => id) (hv.owned j hj hr)
    · intro row seq hm
      rcases mem_set hm with he | hm
      · cases he
        exact hn
      · exact hv.seqs row seq hm
  | copy hh hw hid hc hb =>
    have hfree := halone _ _ rfl rfl hw
    rw [← hc] at hfree
    rcases hh with ⟨-, rfl⟩ | ⟨-, seq, rfl⟩
    · exact hv.prompt hi hid rfl (by simp) hfree
    · exact hv.prompt hi hid rfl (by simp) hfree
  | botch hfn hwhy hs => exact hv.keep hi hs rfl (by simp)
  | giveBack => exact hv.giveBack hi rfl
  | lose hw =>
    have := (hgood _ _ rfl).2.1 rfl
    rw [hw] at this
    cases this
  | finish =>
    rename_i k row
    apply hv.finish hi rfl
    cases k
    · rfl
    · rfl
  | forget hw =>
    have := (hgood _ _ rfl).1 rfl
    rw [hw] at this
    cases this
  | edit he => exact hv.edit hi he (halone _ _ rfl)
  | abandon hfn hh hwhy hs => exact absurd hwhy (hv.keeps hi hfn (hgood _ _ rfl).2.2)
  | strand hfn hwhy hs => exact absurd hwhy ((hgood _ _ rfl).2.2 hfn).2.2.2

theorem split (hv : Owned s hands) (hi : hands[n]? = some h) :
    Owned s (hands.set n h ++ [.empty]) := by
  have hself : hands.set n h = hands := set_self hi
  refine ⟨hv.toCarried.split hi, ?_, hv.prompts, ?_⟩
  · intro j hj hr
    obtain ⟨x, hx, hxr⟩ := hv.owned j hj hr
    rw [hself]
    exact ⟨x, List.mem_append_left _ hx, hxr⟩
  · intro row seq hm
    rw [hself] at hm
    rcases List.mem_append.mp hm with hm | hm
    · exact hv.seqs row seq hm
    · cases List.mem_singleton.mp hm

theorem arrive (hv : Owned s hands) (request : Request) : Owned s (hands ++ [request.hand]) := by
  refine ⟨hv.toCarried.arrive request.hand_row, ?_, hv.prompts, ?_⟩
  · intro j hj hr
    obtain ⟨x, hx, hxr⟩ := hv.owned j hj hr
    exact ⟨x, List.mem_append_left _ hx, hxr⟩
  · intro row seq hm
    rcases List.mem_append.mp hm with hm | hm
    · exact hv.seqs row seq hm
    · have hrow := request.hand_row
      rw [← List.mem_singleton.mp hm] at hrow
      cases hrow

end Owned

theorem owned_kept : transfer.Kept Owned where
  sees _ _ _ _ _ _ := trivial
  sync _ _ _ _ _ _ hv hi hm := hv.passes hi hm (by simp) (by simp)
  fork s hands n h tag x h' hv hi hf := by
    cases hf
    exact hv.split hi

theorem numbered_rests {t : Thread Site Tag Choice AppState} {row : QueueItemRow} {seq : Nat}
    (h : Holds t.tag t.site (.numbered row seq)) :
    ∃ x, t.site = some x ∧ x.numbers row.chatId = true := by
  cases hs : t.site with
  | none =>
    rw [hs] at h
    rcases h with h | h
    · cases h
    · cases h
  | some x =>
    rw [hs] at h
    obtain ⟨-, hc, hfn, hcall⟩ := h
    exact ⟨x, rfl, by simp [Site.numbers, hc, hfn, hcall]⟩

theorem Alone.apart {p : Server} {hands : List Hand} {i : Nat} {x : Site} {w : Choice}
    (h : Alone p i x w)
    (hc : transfer.Coupled p hands) (hx : x.call = .insertPrompt)
    (hw : w.fail = false) (row : QueueItemRow) (seq m : Nat)
    (hm : hands[m]? = some (.numbered row seq)) (hne : m ≠ i) : row.chatId ≠ x.chat := by
  intro he
  obtain ⟨t, ht, hrest⟩ := hc.thread hm
  obtain ⟨y, hy, hnum⟩ := numbered_rests hrest
  have hat : y ∈ p.restsAt m := by
    simp only [Pool.restsAt, ht]
    exact hy
  have hno := h hx hw m (List.getElem?_eq_some_iff.mp ht).1 hne y hat
  rw [← he, hnum] at hno
  cases hno

theorem owned_await {p : Server} {hands : List Hand} {i : Nat} {w : Choice} {x : Site}
    {h h' : Hand} {s' : AppState} (hc : transfer.Coupled p hands) (hv : Owned p.shared hands)
    (hg : Guarded p (.run i w)) (hat : p.At i x) (hi : hands[i]? = some h)
    (hm : Passes (some (x, w)) h p.shared h' s') : Owned s' (hands.set i h') := by
  obtain ⟨hfin, hgive, hfetch, halone⟩ := hg x hat
  apply hv.passes hi hm
  · rintro _ _ ⟨⟩
    exact ⟨hfin, hgive, hfetch⟩
  · rintro _ _ ⟨⟩ hx hw
    exact halone.apart hc hx hw

/-- A server just started on tables without Running rows. -/
structure Fresh (s : AppState) : Prop where
  answers : s.answers = []
  distinct : (s.store.items.map QueueItemRow.id).Nodup
  items : ∀ i ∈ s.store.items, i.id < s.nextId ∧ i.status = .pending
  prompts : ∀ q ∈ s.store.prompts, q.id < s.nextId

theorem Fresh.owned {s : AppState} (h : Fresh s) : Owned s [] where
  distinct := h.distinct
  fresh i hi := (h.items i hi).1
  kept := by simp
  once := by simp
  owned i hi hr := by
    simp [QueueRepo.isRunning, (h.items i hi).2] at hr
  prompts := h.prompts
  seqs := by simp

theorem transfer_start (s : AppState) : transfer.Coupled ⟨s, []⟩ [] :=
  ⟨rfl, fun i t h => by simp at h⟩

theorem guarded_run {p p' : Server} {hands : List Hand} (hc : transfer.Coupled p hands)
    (hv : Owned p.shared hands) (h : Pool.Reaches entry Guarded p p') :
    ∃ hands', transfer.Coupled p' hands' ∧ Owned p'.shared hands' := by
  apply owned_kept.reaches ?_ ?_ h hc hv
  · intro p hands request hc hv hg
    exact ⟨request.hand, entry_passes request, hv.arrive request⟩
  · intro p hands i w x h h' s' hc hv hg hat hi hm
    exact owned_await hc hv hg hat hi hm

end AgentGrove
