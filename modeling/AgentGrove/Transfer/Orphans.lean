import AgentGrove.Transfer.Owned

namespace AgentGrove

open Coop

/-- The step ends with an error for an answer. -/
def Rejects (p p' : Server) : Prop :=
  ∃ request code message,
    p'.shared.answers = p.shared.answers ++ [(request, .failed code message)]

/-- The task at an index is on its way from a pop to what becomes of the row. -/
def InHand (p : Server) (i : Nat) : Prop := ∃ x ∈ p.restsAt i, x.carries = true

/-- The queue with one row replaced, by id. -/
def putRow (row : QueueItemRow) (items : List QueueItemRow) : List QueueItemRow :=
  items.map (fun j => if j.id = row.id then row else j)

/-- A handler that has popped a row and will answer with success. -/
def Hand.committed : Hand → Bool
  | carrying .handler _ | numbered _ _ | copied .handler _ | handed _ | ended => true
  | _ => false

section Moves

variable {s s' : AppState} {hands : List Hand} {n : Nat} {h h' : Hand}
  {e : Option (Site × Choice)}

/-- At a guarded step a committed handler stays so. -/
theorem committed_passes (hv : Owned s hands) (hi : hands[n]? = some h)
    (hc : h.committed = true) (hm : Passes e h s h' s')
    (hgood : ∀ x w, e = some (x, w) → Fetches s x w) : h'.committed = true := by
  cases hm with
  | still hs => exact hc
  | answer ha => rfl
  | queue => cases hc
  | send => cases hc
  | refuse => cases hc
  | spoil => cases hc
  | pop hh him hp =>
    rcases hh with ⟨-, rfl⟩ | ⟨rfl, -⟩
    · cases hc
    · rfl
  | number => rfl
  | copy hh =>
    rcases hh with ⟨-, rfl⟩ | ⟨rfl, -⟩
    · cases hc
    · rfl
  | botch => cases hc
  | giveBack => cases hc
  | lose => cases hc
  | @finish _ _ k =>
    cases k with
    | task => cases hc
    | handler => rfl
  | @forget _ _ k =>
    cases k with
    | task => cases hc
    | handler => rfl
  | edit => cases hc
  | abandon hfn hh hwhy hs => exact absurd hwhy (hv.keeps hi hfn (hgood _ _ rfl))
  | strand hfn hwhy hs => exact absurd hwhy (hgood _ _ rfl hfn).2.2.2

/-- Nothing happens to a hand that has ended. -/
theorem ended_passes (hm : Passes e .ended s h' s') : h' = .ended := by
  cases hm with
  | still hs => rfl
  | answer ha => rfl
  | pop hh him hp =>
    rcases hh with ⟨-, hh⟩ | ⟨-, hh⟩
    · cases hh
    · cases hh
  | copy hh =>
    rcases hh with ⟨-, hh⟩ | ⟨-, seq, hh⟩
    · cases hh
    · cases hh
  | abandon hfn hh =>
    rcases hh with hh | ⟨seq, hh⟩
    · cases hh
    · cases hh

/-- No move of a committed handler is an answer other than success. -/
theorem committed_answers (hc : h.committed = true) (hm : Passes e h s h' s') :
    s'.answers = s.answers ∨ h ≠ .ended ∧ h' = .ended ∧ ∃ request response,
      Response.ok response = true ∧ s'.answers = s.answers ++ [(request, response)] := by
  cases hm with
  | still hs => exact .inl hs.answers
  | answer ha =>
    refine .inr ?_
    cases h with
    | handed c => exact ⟨by simp, rfl, _, _, ha.2, rfl⟩
    | _ => first | exact ha.elim | cases hc
  | spoil hwhy hs => exact .inl hs.answers
  | botch hfn hwhy hs => exact .inl hs.answers
  | abandon hfn hh hwhy hs => exact .inl hs.answers
  | strand hfn hwhy hs => exact .inl hs.answers
  | edit => cases hc
  | _ => exact .inl rfl

end Moves

/-- The handler at `n` is committed, and since `answers` it has answered with
success at most. -/
def Engaged (n : Nat) (answers : List (Request × Response)) (s : AppState) (hands : List Hand) :
    Prop :=
  ∃ h, hands[n]? = some h ∧ h.committed = true ∧ (s.answers = answers ∨
    h = .ended ∧ ∃ request response, Response.ok response = true ∧
      s.answers = answers ++ [(request, response)])

/-- Since `s₀` the handler at `n` has not popped anything. -/
def Unengaged (n : Nat) (s₀ s : AppState) (hands : List Hand) : Prop :=
  s.store.items = s₀.store.items ∧ ∃ h, hands[n]? = some h ∧
    (h = .ended ∨ (∃ c, h = .fetching c) ∧ s.answers = s₀.answers)

section Engaged

variable {s s' s₀ : AppState} {hands : List Hand} {n : Nat} {h h' : Hand}
  {e : Option (Site × Choice)} {answers : List (Request × Response)}

theorem Engaged.passes (hv : Owned s hands) (hg : Engaged n answers s hands)
    (hi : hands[n]? = some h) (hm : Passes e h s h' s')
    (hgood : ∀ x w, e = some (x, w) → Fetches s x w) :
    Engaged n answers s' (hands.set n h') := by
  obtain ⟨h₁, hi₁, hc, hans⟩ := hg
  rw [hi] at hi₁
  cases hi₁
  refine ⟨h', get_set_self hi h', committed_passes hv hi hc hm hgood, ?_⟩
  rcases committed_answers hc hm with hsame | ⟨hne, rfl, request, response, hok, he⟩
  · rw [hsame]
    rcases hans with hans | ⟨rfl, hans⟩
    · exact .inl hans
    · exact .inr ⟨ended_passes hm, hans⟩
  · rcases hans with hans | ⟨hend, -⟩
    · exact .inr ⟨rfl, request, response, hok, hans ▸ he⟩
    · exact absurd hend hne

theorem Unengaged.passes (hu : Unengaged n s₀ s hands) (hi : hands[n]? = some h)
    (hm : Passes e h s h' s') :
    Engaged n s₀.answers s' (hands.set n h') ∨ Unengaged n s₀ s' (hands.set n h') := by
  obtain ⟨hitems, h₁, hi₁, hh⟩ := hu
  rw [hi] at hi₁
  cases hi₁
  have hself := get_set_self hi h'
  cases hm with
  | still hs =>
    refine .inr ⟨hs.items.trans hitems, h, hself, ?_⟩
    rcases hh with hh | ⟨hc, hans⟩
    · exact .inl hh
    · exact .inr ⟨hc, hs.answers.trans hans⟩
  | answer ha => exact .inr ⟨hitems, .ended, hself, .inl rfl⟩
  | pop hk him hp =>
    refine .inl ⟨_, hself, ?_, .inl ?_⟩
    · rcases hk with ⟨-, rfl⟩ | ⟨rfl, -⟩
      · rcases hh with hh | ⟨⟨c, hh⟩, -⟩ <;> cases hh
      · rfl
    · rcases hh with rfl | ⟨-, hans⟩
      · rcases hk with ⟨-, hk⟩ | ⟨-, hk⟩ <;> cases hk
      · exact hans
  | copy hk =>
    rcases hk with ⟨-, rfl⟩ | ⟨-, seq, rfl⟩
    · rcases hh with hh | ⟨⟨c, hh⟩, -⟩ <;> cases hh
    · rcases hh with hh | ⟨⟨c, hh⟩, -⟩ <;> cases hh
  | abandon hfn hk =>
    rcases hk with rfl | ⟨seq, rfl⟩ <;>
      rcases hh with hh | ⟨⟨c, hh⟩, -⟩ <;> cases hh
  | _ => rcases hh with hh | ⟨⟨c, hh⟩, -⟩ <;> cases hh

/-- What the handler at `n` does in one go. -/
theorem engaged_by (n : Nat) (s₀ : AppState) : transfer.KeptBy n (fun s hands =>
    Owned s hands ∧ (Engaged n s₀.answers s hands ∨ Unengaged n s₀ s hands)) where
  sees _ _ _ _ _ := trivial
  sync s hands h h' s' hv hi hm := by
    refine ⟨hv.1.passes hi hm (by simp) (by simp), ?_⟩
    rcases hv.2 with hg | hu
    · exact .inl (hg.passes hv.1 hi hm (by simp))
    · exact hu.passes hi hm
  fork s hands h tag x h' hv hi hf := by
    cases hf
    refine ⟨hv.1.split hi, ?_⟩
    rw [set_self hi]
    rcases hv.2 with ⟨h₁, hi₁, hg⟩ | ⟨hitems, h₁, hi₁, hu⟩
    · exact .inl ⟨h₁, get_append hi₁ _, hg⟩
    · exact .inr ⟨hitems, h₁, get_append hi₁ _, hu⟩

theorem handler_hand {t : Tag} {x : Site} (hr : HoldsAt t x h)
    (hx : x.fn.carrier = some .handler) : h.committed = true ∨ ∃ c, h = .fetching c := by
  cases h with
  | empty => exact absurd hx hr.1
  | editor =>
    rw [hr.1] at hx
    cases hx
  | sender c body =>
    rw [hr.2.2.1] at hx
    cases hx
  | stored c body =>
    have hc := HoldsAt.rowless hr rfl
    obtain ⟨fn, d, call⟩ := x
    have hw : Site.waits ⟨fn, d, call⟩ = true := hr.2.2
    simp only [Site.waits, Bool.and_eq_true, decide_eq_true_eq] at hw
    rw [hw.1] at hx
    cases hx
  | fetching c => exact .inr ⟨c, rfl⟩
  | carrying k row =>
    cases hr.2.2.1.symm.trans hx
    exact .inl rfl
  | numbered row seq => exact .inl rfl
  | copied k row =>
    cases hr.2.2.1.symm.trans hx
    exact .inl rfl
  | _ => exact hr.elim

end Engaged

section Refused

variable {p p₁ p₂ p₃ : Server} {hands : List Hand} {i : Nat} {w w' : Choice} {x : Site}

theorem hand_at (hc : transfer.Coupled p hands) (hat : p.At i x) :
    ∃ t h, p.threads[i]? = some t ∧ hands[i]? = some h ∧ HoldsAt t.tag x h := by
  unfold Pool.At Pool.restsAt at hat
  obtain ⟨t, ht, hx⟩ := Option.bind_eq_some_iff.mp hat
  obtain ⟨h, hi, hrest⟩ := hc.role ht
  rw [hx] at hrest
  exact ⟨t, h, ht, hi, hrest⟩

/-- One step of the handler at `i`: it ends up committed or has not popped. -/
theorem engaged_step (hc : transfer.Coupled p hands) (hv : Owned p.shared hands)
    (hg : Guarded p (.run i w))
    (hstart : Engaged i p.shared.answers p.shared hands ∨ Unengaged i p.shared p.shared hands)
    (hf : p.fire entry (.run i w) = some p₁) :
    ∃ hands₁, transfer.Coupled p₁ hands₁ ∧ Owned p₁.shared hands₁ ∧
      (Engaged i p.shared.answers p₁.shared hands₁ ∨ Unengaged i p.shared p₁.shared hands₁) := by
  apply (engaged_by i p.shared).fire hc ⟨hv, hstart⟩ ?_ hf
  intro x h h' s' hat hi hm
  refine ⟨owned_await hc hv hg hat hi hm, ?_⟩
  rcases hstart with he | hu
  · refine .inl (he.passes hv hi hm ?_)
    rintro _ _ ⟨⟩
    exact (hg x hat).2.2.1
  · exact hu.passes hi hm

theorem unengaged_of_fetching {c : Uuid} (hi : hands[i]? = some (.fetching c)) :
    Unengaged i p.shared p.shared hands :=
  ⟨rfl, _, hi, .inr ⟨⟨c, rfl⟩, rfl⟩⟩

theorem engaged_of_committed {h : Hand} (hi : hands[i]? = some h) (hh : h.committed = true) :
    Engaged i p.shared.answers p.shared hands :=
  ⟨h, hi, hh, .inl rfl⟩

theorem Engaged.accepts {s : AppState} (h : Engaged i p.shared.answers s hands)
    (hs : s = p₁.shared) : ¬ Rejects p p₁ := by
  rintro ⟨request, code, message, hr⟩
  obtain ⟨_, -, -, hsame | ⟨-, request', response, hok, he⟩⟩ := h
  · rw [hs, hr] at hsame
    have := congrArg List.length hsame
    simp at this
  · rw [hs, hr] at he
    have he' := List.append_cancel_left he
    simp only [List.cons.injEq, Prod.mk.injEq, and_true] at he'
    rw [← he'.2] at hok
    cases hok

/-- While others act, a committed handler stays committed. -/
theorem committed_run (hc : transfer.Coupled p hands) (hv : Owned p.shared hands)
    (hi : ∃ h, hands[i]? = some h ∧ h.committed = true) (h : Pool.Reaches entry Guarded p p₁) :
    ∃ hands₁, transfer.Coupled p₁ hands₁ ∧ Owned p₁.shared hands₁ ∧
      ∃ h, hands₁[i]? = some h ∧ h.committed = true := by
  have hset : ∀ {hands : List Hand} {j : Nat} {h' : Hand}, (∃ h, hands[i]? = some h ∧
      h.committed = true) → (j = i → h'.committed = true) →
      ∃ h, (hands.set j h')[i]? = some h ∧ h.committed = true := by
    intro hands j h' ⟨h, hi, hh⟩ hj
    by_cases he : j = i
    · subst he
      exact ⟨h', get_set_self hi h', hj rfl⟩
    · exact ⟨h, by rwa [List.getElem?_set_ne he], hh⟩
  have hkept : transfer.Kept (fun s hands => Owned s hands ∧
      ∃ h, hands[i]? = some h ∧ h.committed = true) := by
    constructor
    · exact fun _ _ _ _ _ _ => trivial
    · intro s hands j h h' s' hv hj hm
      refine ⟨hv.1.passes hj hm (by simp) (by simp), hset hv.2 ?_⟩
      rintro rfl
      obtain ⟨h₁, hi, hh⟩ := hv.2
      rw [hi] at hj
      cases hj
      exact committed_passes hv.1 hi hh hm (by simp)
    · intro s hands j h tag x h' hv hj hf
      cases hf
      rw [set_self hj]
      obtain ⟨h₁, hi, hh⟩ := hv.2
      refine ⟨set_self hj ▸ hv.1.split hj, h₁, get_append hi _, hh⟩
  refine hkept.reaches ?_ ?_ h hc ⟨hv, hi⟩
  · intro p hands request hc hv hg
    obtain ⟨h₁, hi, hh⟩ := hv.2
    exact ⟨request.hand, entry_passes request, hv.1.arrive request, h₁, get_append hi _, hh⟩
  · intro p hands j w x h h' s' hc hv hg hat hj hm
    refine ⟨owned_await hc hv.1 hg hat hj hm, hset hv.2 ?_⟩
    rintro rfl
    obtain ⟨h₁, hi, hh⟩ := hv.2
    rw [hi] at hj
    cases hj
    refine committed_passes hv.1 hi hh hm ?_
    rintro _ _ ⟨⟩
    exact (hg x hat).2.2.1

/-- A step of a handler that pops leaves it committed. -/
theorem step_commits (hc : transfer.Coupled p hands) (hv : Owned p.shared hands)
    (hat : p.At i x) (hx : x.fn.carrier = some .handler) (hg : Guarded p (.run i w))
    (hf : p.fire entry (.run i w) = some p₁) :
    ∃ hands₁, transfer.Coupled p₁ hands₁ ∧ Owned p₁.shared hands₁ ∧
      (Engaged i p.shared.answers p₁.shared hands₁ ∨
        p₁.shared.store.items = p.shared.store.items) := by
  obtain ⟨t, h, -, hi, hrest⟩ := hand_at hc hat
  have hstart : Engaged i p.shared.answers p.shared hands ∨
      Unengaged i p.shared p.shared hands := by
    rcases handler_hand hrest hx with hh | ⟨c, rfl⟩
    · exact .inl (engaged_of_committed hi hh)
    · exact .inr (unengaged_of_fetching hi)
  obtain ⟨hands₁, hc₁, hv₁, he | hu⟩ := engaged_step hc hv hg hstart hf
  · exact ⟨hands₁, hc₁, hv₁, .inl he⟩
  · exact ⟨hands₁, hc₁, hv₁, .inr hu.1⟩

/-- The step in which a handler answers with an error leaves the queue alone. -/
theorem rejects_now (hc : transfer.Coupled p hands) (hv : Owned p.shared hands)
    (hat : p.At i x) (hx : x.fn.carrier = some .handler) (hg : Guarded p (.run i w))
    (hf : p.fire entry (.run i w) = some p₁) (hr : Rejects p p₁) :
    p₁.shared.store.items = p.shared.store.items := by
  obtain ⟨hands₁, -, -, he | hsame⟩ := step_commits hc hv hat hx hg hf
  · exact absurd hr (he.accepts rfl)
  · exact hsame

/-- So does every step it took before. -/
theorem rejects_later (hc : transfer.Coupled p hands) (hv : Owned p.shared hands)
    (hat : p.At i x) (hx : x.fn.carrier = some .handler) (hg : Guarded p (.run i w))
    (hf : p.fire entry (.run i w) = some p₁) (h : Pool.Reaches entry Guarded p₁ p₂)
    (hg' : Guarded p₂ (.run i w')) (hf' : p₂.fire entry (.run i w') = some p₃)
    (hr : Rejects p₂ p₃) : p₁.shared.store.items = p.shared.store.items := by
  obtain ⟨hands₁, hc₁, hv₁, ⟨h₁, hi₁, hh₁, -⟩ | hsame⟩ := step_commits hc hv hat hx hg hf
  · obtain ⟨hands₂, hc₂, hv₂, h₂, hi₂, hh₂⟩ := committed_run hc₁ hv₁ ⟨h₁, hi₁, hh₁⟩ h
    have hstart := engaged_of_committed (p := p₂) hi₂ hh₂
    have hby : transfer.KeptBy i (fun s hands => Owned s hands ∧
        Engaged i p₂.shared.answers s hands) := by
      constructor
      · exact fun _ _ _ _ _ => trivial
      · intro s hands h h' s' hv hi hm
        exact ⟨hv.1.passes hi hm (by simp) (by simp), hv.2.passes hv.1 hi hm (by simp)⟩
      · intro s hands h tag x h' hv hi hf
        cases hf
        obtain ⟨h₁, hi₁, hg⟩ := hv.2
        rw [set_self hi]
        exact ⟨set_self hi ▸ hv.1.split hi, h₁, get_append hi₁ _, hg⟩
    obtain ⟨hands₃, -, -, he⟩ := hby.fire hc₂ ⟨hv₂, hstart⟩ (by
      intro x h h' s' hat hi hm
      refine ⟨owned_await hc₂ hv₂ hg' hat hi hm, hstart.passes hv₂ hi hm ?_⟩
      rintro _ _ ⟨⟩
      exact (hg' x hat).2.2.1) hf'
    exact absurd hr (he.accepts rfl)
  · exact hsame

end Refused

section Drain

variable {p p₁ p₂ p₃ : Server} {hands : List Hand} {i : Nat} {w w' : Choice} {fn : Fn} {c : Uuid}
  {row : QueueItemRow} {items : List QueueItemRow} {now : Nat}

theorem running_put (hd : (items.map QueueItemRow.id).Nodup) (hm : row ∈ items) :
    QueueRepo.setStatus (fun _ => true) .running now row.id items =
      putRow (running now row) items := by
  apply List.map_congr_left
  intro j hj
  by_cases hid : j.id = row.id
  · rw [if_pos ⟨hid, rfl⟩, row_eq hd hj hm hid]
    exact (if_pos rfl).symm
  · rw [if_neg fun h => hid h.1]
    exact (if_neg hid).symm

theorem reset_put {then_ : Nat} (hd : (items.map QueueItemRow.id).Nodup)
    (hm : running then_ row ∈ items) (hp : QueueRepo.isPending row = true) :
    QueueRepo.resetToPending now row.id items = putRow { row with updatedAt := now } items := by
  have hs : row.status = .pending := by simpa [QueueRepo.isPending] using hp
  apply List.map_congr_left
  intro j hj
  by_cases hid : j.id = row.id
  · rw [row_eq hd hj hm hid, if_pos ⟨rfl, rfl⟩]
    simp only [running, ← hs]
    simp
  · rw [if_neg fun h => hid h.1]
    exact (if_neg hid).symm

/-- A task rests on its way from a pop to the row's end just when its hand has the row. -/
theorem inHand_iff {h : Hand} (hc : transfer.Coupled p hands) (hi : hands[i]? = some h) :
    InHand p i ↔ h.row ≠ none := by
  obtain ⟨t, ht, hrest⟩ := hc.thread hi
  have hsite : p.restsAt i = t.site := by simp [Pool.restsAt, ht]
  constructor
  · rintro ⟨x, hx, hcar⟩ hn
    have hx' : t.site = some x := hsite.symm.trans hx
    rw [hx'] at hrest
    rw [HoldsAt.rowless hrest hn] at hcar
    cases hcar
  · intro hn
    cases hs : t.site with
    | none =>
      rw [hs] at hrest
      rcases hrest with rfl | rfl
      · exact absurd rfl hn
      · exact absurd rfl hn
    | some x =>
      rw [hs] at hrest
      exact ⟨x, hsite.trans hs, HoldsAt.carries hrest hn⟩

/-- A drain's pop: it marks a pending row of the chat Running and has it in hand,
or changes nothing. -/
theorem drain_pops (hc : transfer.Coupled p hands) (hv : Owned p.shared hands)
    (hat : p.At i ⟨fn, c, .popItem⟩) (hfn : fn.carrier = some .task) (hg : Guarded p (.run i w))
    (hf : p.fire entry (.run i w) = some p₁) :
    (¬ InHand p₁ i ∧ p₁.shared.store.items = p.shared.store.items) ∨
    ∃ row ∈ p.shared.store.items, row.chatId = c ∧ QueueRepo.isPending row = true ∧
      p₁.shared.store.items = putRow (running w.now row) p.shared.store.items ∧
      ∃ hands₁, transfer.Coupled p₁ hands₁ ∧ Owned p₁.shared hands₁ ∧
        hands₁[i]? = some (.carrying .task (running w.now row)) := by
  have hby : transfer.KeptBy i (fun s hands => Owned s hands ∧
      ((∃ h, hands[i]? = some h ∧ (h = .empty ∨ h = .ended)) ∧
          s.store.items = p.shared.store.items ∨
        ∃ row ∈ p.shared.store.items, row.chatId = c ∧ QueueRepo.isPending row = true ∧
          s.store.items = putRow (running w.now row) p.shared.store.items ∧
          hands[i]? = some (.carrying .task (running w.now row)))) := by
    constructor
    · exact fun _ _ _ _ _ => trivial
    · intro s hands h h' s' hv hi hm
      refine ⟨hv.1.passes hi hm (by simp) (by simp), ?_⟩
      rcases hv.2 with ⟨⟨h₁, hi₁, hh⟩, hsame⟩ | ⟨row, hrow, hchat, hp, hitems, hi₁⟩
      · rw [hi] at hi₁
        cases hi₁
        cases hm with
        | still hs => exact .inl ⟨⟨h, get_set_self hi h, hh⟩, hs.items.trans hsame⟩
        | answer ha => exact .inl ⟨⟨_, get_set_self hi _, .inr rfl⟩, hsame⟩
      · rw [hi] at hi₁
        cases hi₁
        cases hm with
        | still hs =>
          exact .inr ⟨row, hrow, hchat, hp, hs.items.trans hitems, get_set_self hi _⟩
        | answer ha => exact ha.elim
    · intro s hands h tag x h' hv hi hf
      cases hf
      refine ⟨hv.1.split hi, ?_⟩
      rw [set_self hi]
      rcases hv.2 with ⟨⟨h₁, hi₁, hh⟩, hsame⟩ | ⟨row, hrow, hchat, hp, hitems, hi₁⟩
      · exact .inl ⟨⟨h₁, get_append hi₁ _, hh⟩, hsame⟩
      · exact .inr ⟨row, hrow, hchat, hp, hitems, get_append hi₁ _⟩
  obtain ⟨t, h, -, hi, hrest⟩ := hand_at hc hat
  have hempty : h = .empty := by
    cases h with
    | empty => rfl
    | editor =>
      have hno : fn.carrier = none := hrest.1
      rw [hno] at hfn
      cases hfn
    | sender d body =>
      have hno : fn.carrier = none := hrest.2.2.1
      rw [hno] at hfn
      cases hfn
    | stored d body =>
      have hw : Site.waits ⟨fn, c, .popItem⟩ = true := hrest.2.2
      simp [Site.waits] at hw
    | fetching d =>
      have hh : fn.carrier = some .handler := hrest.2.2.1
      rw [hh] at hfn
      cases hfn
    | carrying k row => cases hrest.2.2.2.1
    | numbered row seq => cases hrest.2.2.2
    | copied k row => cases hrest.2.2.2
    | _ => exact hrest.elim
  subst hempty
  obtain ⟨hands₁, hc₁, hv₁, ⟨⟨h₁, hi₁, hh⟩, hsame⟩ | ⟨row, hrow, hchat, hp, hitems, hi₁⟩⟩ :=
    hby.fire hc ⟨hv, .inl ⟨⟨_, hi, .inl rfl⟩, rfl⟩⟩ (by
      intro x h h' s' hx hi' hm
      refine ⟨owned_await hc hv hg hx hi' hm, ?_⟩
      unfold Pool.At at hx hat
      rw [hat] at hx
      cases hx
      rw [hi] at hi'
      cases hi'
      cases hm with
      | still hs => exact .inl ⟨⟨_, get_set_self hi _, .inl rfl⟩, hs.items⟩
      | pop hh him hp =>
        rename_i row
        rcases hh with ⟨rfl, -⟩ | ⟨-, hh⟩
        · refine .inr ⟨row, him, rfl, hp, ?_, get_set_self hi _⟩
          exact running_put hv.distinct him
        · cases hh
      | abandon hfn' hh =>
        rcases hh with hh | ⟨seq, hh⟩
        · cases hh
        · cases hh) hf
  · refine .inl ⟨fun hin => (inHand_iff hc₁ hi₁).mp hin ?_, hsame⟩
    rcases hh with rfl | rfl
    · rfl
    · rfl
  · exact .inr ⟨row, hrow, hchat, hp, hitems, hands₁, hc₁, hv₁, hi₁⟩

/-- As long as the task rests with a row in hand, it is the row it has popped. -/
def Keeping (i : Nat) (row : QueueItemRow) (hands : List Hand) : Prop :=
  ∃ h, hands[i]? = some h ∧ (h = .carrying .task row ∨ h = .copied .task row ∨ h.row = none)

theorem Keeping.passes {s s' : AppState} {h h' : Hand} {e : Option (Site × Choice)}
    (hk : Keeping i row hands) (hi : hands[i]? = some h) (hm : Passes e h s h' s')
    (he : ∀ x w, e = some (x, w) → x.call ≠ .popItem) : Keeping i row (hands.set i h') := by
  obtain ⟨h₁, hi₁, hh⟩ := hk
  rw [hi] at hi₁
  cases hi₁
  refine ⟨h', get_set_self hi h', ?_⟩
  cases hm with
  | still hs => exact hh
  | answer ha => exact .inr (.inr rfl)
  | queue => exact .inr (.inr rfl)
  | send => exact .inr (.inr rfl)
  | refuse => exact .inr (.inr rfl)
  | spoil => exact .inr (.inr rfl)
  | pop => exact absurd rfl (he _ _ rfl)
  | number => rcases hh with hh | hh | hh <;> cases hh
  | copy hk =>
    rcases hk with ⟨rfl, rfl⟩ | ⟨-, seq, rfl⟩
    · rcases hh with hh | hh | hh
      · cases hh
        exact .inr (.inl rfl)
      · cases hh
      · cases hh
    · rcases hh with hh | hh | hh <;> cases hh
  | botch =>
    rcases hh with hh | hh | hh
    · cases hh
    · cases hh
      exact .inl rfl
    · cases hh
  | giveBack => exact .inr (.inr rfl)
  | lose => exact .inr (.inr rfl)
  | @finish _ _ k => cases k <;> exact .inr (.inr rfl)
  | @forget _ _ k => cases k <;> exact .inr (.inr rfl)
  | edit => exact .inr (.inr rfl)
  | abandon => exact .inr (.inr rfl)
  | strand => exact .inr (.inr rfl)

/-- Guarded steps while the task at an index has a row in hand. -/
def Midway (i : Nat) (p : Server) (e : ServerEvent) : Prop := Guarded p e ∧ InHand p i

theorem drain_keeps (hc : transfer.Coupled p hands) (hv : Owned p.shared hands)
    (hi : hands[i]? = some (.carrying .task row)) (h : Pool.Reaches entry (Midway i) p p₁) :
    ∃ hands₁, transfer.Coupled p₁ hands₁ ∧ Owned p₁.shared hands₁ ∧ Keeping i row hands₁ := by
  have hother : ∀ {hands : List Hand} {j : Nat} (x : Hand), j ≠ i → Keeping i row hands →
      Keeping i row (hands.set j x) := by
    intro hands j x hne ⟨h, hi, hh⟩
    exact ⟨h, by rwa [List.getElem?_set_ne hne], hh⟩
  have hkept : transfer.Kept (fun s hands => Owned s hands ∧ Keeping i row hands) := by
    constructor
    · exact fun _ _ _ _ _ _ => trivial
    · intro s hands j h h' s' hv hj hm
      refine ⟨hv.1.passes hj hm (by simp) (by simp), ?_⟩
      by_cases hji : j = i
      · subst hji
        exact hv.2.passes hj hm (by simp)
      · exact hother h' hji hv.2
    · intro s hands j h tag x h' hv hj hf
      cases hf
      obtain ⟨h₁, hi, hh⟩ := hv.2
      rw [set_self hj]
      exact ⟨set_self hj ▸ hv.1.split hj, h₁, get_append hi _, hh⟩
  refine hkept.reaches ?_ ?_ h hc ⟨hv, _, hi, .inl rfl⟩
  · intro p hands request hc hv hg
    obtain ⟨h₁, hi, hh⟩ := hv.2
    exact ⟨request.hand, entry_passes request, hv.1.arrive request, h₁, get_append hi _, hh⟩
  · intro p hands j w x h h' s' hc hv hg hat hj hm
    refine ⟨owned_await hc hv.1 hg.1 hat hj hm, ?_⟩
    by_cases hji : j = i
    · subst hji
      apply hv.2.passes hj hm
      rintro _ _ ⟨⟩ hcall
      obtain ⟨y, hy, hcar⟩ := hg.2
      unfold Pool.At at hat
      rw [hat] at hy
      cases hy
      simp [Site.carries, hcall, Call.handles] at hcar
    · exact hother h' hji hv.2

/-- Giving a row back undoes its pop. -/
theorem drain_returns {then_ : Nat} (hc : transfer.Coupled p hands) (hv : Owned p.shared hands)
    (hk : Keeping i (running then_ row) hands) (hp : QueueRepo.isPending row = true)
    (hat : p.At i ⟨fn, c, .resetToPending⟩) (hfn : fn.carrier = some .task)
    (hg : Guarded p (.run i w)) (hf : p.fire entry (.run i w) = some p₁) (hout : ¬ InHand p₁ i) :
    p₁.shared.store.items = putRow { row with updatedAt := w.now } p.shared.store.items := by
  obtain ⟨t, h, -, hi, hrest⟩ := hand_at hc hat
  obtain ⟨h₁, hi₁, hh⟩ := hk
  rw [hi] at hi₁
  cases hi₁
  have hcar : Site.carries ⟨fn, c, .resetToPending⟩ = true := by
    simp [Site.carries, hfn, Call.handles]
  have hhand : h = .carrying .task (running then_ row) := by
    rcases hh with rfl | rfl | hn
    · rfl
    · cases hrest.2.2.2
    · rw [hrest.rowless hn] at hcar
      cases hcar
  subst hhand
  have hby : transfer.KeptBy i (fun s hands =>
      hands[i]? = some (.carrying .task (running then_ row)) ∨
        (∃ h, hands[i]? = some h ∧ h.row = none) ∧
          s.store.items = putRow { row with updatedAt := w.now } p.shared.store.items) := by
    constructor
    · exact fun _ _ _ _ _ => trivial
    · intro s hands h h' s' hv hi hm
      rcases hv with hi₁ | ⟨⟨h₁, hi₁, hn⟩, hitems⟩
      · rw [hi] at hi₁
        cases hi₁
        cases hm with
        | still hs => exact .inl (get_set_self hi _)
        | answer ha => exact ha.elim
      · rw [hi] at hi₁
        cases hi₁
        cases hm with
        | still hs => exact .inr ⟨⟨h, get_set_self hi h, hn⟩, hs.items.trans hitems⟩
        | answer ha => exact .inr ⟨⟨_, get_set_self hi _, rfl⟩, hitems⟩
    · intro s hands h tag x h' hv hi hf
      cases hf
      rw [set_self hi]
      rcases hv with hi₁ | ⟨⟨h₁, hi₁, hn⟩, hitems⟩
      · exact .inl (get_append hi₁ _)
      · exact .inr ⟨⟨h₁, get_append hi₁ _, hn⟩, hitems⟩
  obtain ⟨hands₁, hc₁, hi₁ | ⟨-, hitems⟩⟩ := hby.fire hc (.inl hi) (by
    intro x h h' s' hx hi' hm
    have hgood := hg x hx
    unfold Pool.At at hx hat
    rw [hat] at hx
    cases hx
    rw [hi] at hi'
    cases hi'
    have hmem := (hv.kept _ (mem_of_get hi) _ rfl).1
    generalize hx : (⟨fn, c, .resetToPending⟩ : Site) = x at hm hgood
    cases hm with
    | still hs => exact .inl (get_set_self hi _)
    | pop hh =>
      rcases hh with ⟨-, hh⟩ | ⟨-, hh⟩
      · cases hh
      · cases hh
    | copy => cases hx
    | giveBack => exact .inr ⟨⟨_, get_set_self hi _, rfl⟩, reset_put hv.distinct hmem hp⟩
    | lose hw =>
      rw [hgood.2.1 rfl] at hw
      cases hw
    | abandon hfn' hh =>
      rcases hh with hh | ⟨seq, hh⟩
      · cases hh
      · cases hh) hf
  · exact absurd ((inHand_iff hc₁ hi₁).mpr (by simp [Hand.row])) hout
  · exact hitems

end Drain

/-- As long as a row stays as it is, this task rests with it in hand. -/
def Attends (j : Nat) (i : QueueItemRow) (p : Server) : Prop :=
  ∀ p', Pool.Reaches entry (fun p e => Guarded p e ∧ i ∈ p.shared.store.items) p p' →
    i ∈ p'.shared.store.items → ∃ t x, p'.threads[j]? = some t ∧ t.site = some x ∧
      (t.tag = .handler i.chatId ∨ Live t i.chatId) ∧ x.chat = i.chatId ∧ x.carries = true

/-- Whatever a handler of `run_next` or `dispatch_item` does before it answers
with an error leaves the queue as it was. -/
def RefusesCleanly (p : Server) : Prop :=
  ∀ j x w p₁, p.At j x → x.fn.carrier = some .handler → Guarded p (.run j w) →
    p.fire entry (.run j w) = some p₁ →
    (Rejects p p₁ ∨ ∃ p₂ w' p₃, Pool.Reaches entry Guarded p₁ p₂ ∧ Guarded p₂ (.run j w') ∧
      p₂.fire entry (.run j w') = some p₃ ∧ Rejects p₂ p₃) →
    p₁.shared.store.items = p.shared.store.items

/-- A drain step that fails puts the row it popped back under its old status
and place, whatever became of other rows meanwhile. -/
def ReturnsCleanly (p : Server) : Prop :=
  ∀ j fn c w p₁, p.At j ⟨fn, c, .popItem⟩ → fn.carrier = some .task → Guarded p (.run j w) →
    p.fire entry (.run j w) = some p₁ →
    (¬ InHand p₁ j → p₁.shared.store.items = p.shared.store.items) ∧
    ∀ fn' c' w' p₂ p₃, InHand p₁ j → Pool.Reaches entry (Midway j) p₁ p₂ →
      p₂.At j ⟨fn', c', .resetToPending⟩ → fn'.carrier = some .task → Guarded p₂ (.run j w') →
      p₂.fire entry (.run j w') = some p₃ → ¬ InHand p₃ j →
      ∃ row ∈ p.shared.store.items, row.chatId = c ∧ QueueRepo.isPending row = true ∧
        p₁.shared.store.items = putRow (running w.now row) p.shared.store.items ∧
        p₃.shared.store.items = putRow { row with updatedAt := w'.now } p₂.shared.store.items

section Attended

variable {s s' : AppState} {hands : List Hand} {n : Nat} {h h' : Hand} {p p' : Server}
  {i : QueueItemRow}

/-- A hand lets go of a row only by changing it. -/
theorem row_passes {e : Option (Site × Choice)} (hv : Owned s hands) (hi : hands[n]? = some h)
    (hrow : h.row = some i) (hrun : QueueRepo.isRunning i = true) (hm : Passes e h s h' s')
    (hgood : ∀ x w, e = some (x, w) → Finishes x w ∧ GivesBack x w ∧ Fetches s x w) :
    h'.row = some i ∨ i ∉ s'.store.items := by
  cases hm with
  | still hs => exact .inl hrow
  | answer ha => cases h <;> first | exact ha.elim | cases hrow
  | queue => cases hrow
  | send => cases hrow
  | refuse => cases hrow
  | spoil => cases hrow
  | pop hh =>
    rcases hh with ⟨-, rfl⟩ | ⟨-, rfl⟩
    · cases hrow
    · cases hrow
  | number => exact .inl hrow
  | copy hh =>
    rcases hh with ⟨-, rfl⟩ | ⟨-, seq, rfl⟩
    · exact .inl hrow
    · exact .inl hrow
  | botch => exact .inl hrow
  | giveBack =>
    cases hrow
    refine .inr fun hin => ?_
    rcases setStatus_cases hin with ⟨-, hno⟩ | ⟨j, -, -, -, hj⟩
    · rw [hno rfl] at hrun
      cases hrun
    · rw [hj] at hrun
      cases hrun
  | lose hw =>
    have := (hgood _ _ rfl).2.1 rfl
    rw [hw] at this
    cases this
  | finish =>
    cases hrow
    exact .inr fun hin => (markDone_cases.mp hin).2 ⟨rfl, hrun⟩
  | forget hw =>
    have := (hgood _ _ rfl).1 rfl
    rw [hw] at this
    cases this
  | edit => cases hrow
  | abandon hfn hh hwhy => exact absurd hwhy (hv.keeps hi hfn (hgood _ _ rfl).2.2)
  | strand hfn hwhy => exact absurd hwhy ((hgood _ _ rfl).2.2 hfn).2.2.2

/-- The task at `n` has this row, if the row is still as it was. -/
def Keeper (n : Nat) (i : QueueItemRow) (s : AppState) (hands : List Hand) : Prop :=
  i ∈ s.store.items → ∃ h, hands[n]? = some h ∧ h.row = some i

theorem keeper_run (hrun : QueueRepo.isRunning i = true) (hc : transfer.Coupled p hands)
    (hv : Owned p.shared hands) (hk : Keeper n i p.shared hands)
    (h : Pool.Reaches entry (fun p e => Guarded p e ∧ i ∈ p.shared.store.items) p p') :
    ∃ hands', transfer.Coupled p' hands' ∧ Owned p'.shared hands' ∧
      Keeper n i p'.shared hands' := by
  have hother : ∀ {hands : List Hand} {j : Nat} (x : Hand), j ≠ n →
      (∃ h, hands[n]? = some h ∧ h.row = some i) →
      ∃ h, (hands.set j x)[n]? = some h ∧ h.row = some i := by
    intro hands j x hne ⟨h, hi, hr⟩
    exact ⟨h, by rwa [List.getElem?_set_ne hne], hr⟩
  have hkept : transfer.Kept (fun s hands => Owned s hands ∧ Keeper n i s hands) := by
    constructor
    · exact fun _ _ _ _ _ _ => trivial
    · intro s hands j h h' s' hv hj hm
      refine ⟨hv.1.passes hj hm (by simp) (by simp), ?_⟩
      have hitems : s'.store.items = s.store.items := by
        cases hm with
        | still hs => exact hs.items
        | answer ha => rfl
      intro hin
      obtain ⟨h₁, hi, hr⟩ := hv.2 (hitems ▸ hin)
      by_cases hjn : j = n
      · subst hjn
        rw [hi] at hj
        cases hj
        rcases row_passes hv.1 hi hr hrun hm (by simp) with hr' | hno
        · exact ⟨h', get_set_self hi h', hr'⟩
        · exact absurd hin hno
      · exact hother h' hjn ⟨h₁, hi, hr⟩
    · intro s hands j h tag x h' hv hj hf
      cases hf
      rw [set_self hj]
      refine ⟨set_self hj ▸ hv.1.split hj, fun hin => ?_⟩
      obtain ⟨h₁, hi, hr⟩ := hv.2 hin
      exact ⟨h₁, get_append hi _, hr⟩
  refine hkept.reaches ?_ ?_ h hc ⟨hv, hk⟩
  · intro p hands request hc hv hg
    refine ⟨request.hand, entry_passes request, hv.1.arrive request, fun hin => ?_⟩
    obtain ⟨h₁, hi, hr⟩ := hv.2 hin
    exact ⟨h₁, get_append hi _, hr⟩
  · intro p hands j w x h h' s' hc hv hg hat hj hm
    refine ⟨owned_await hc hv.1 hg.1 hat hj hm, fun hin => ?_⟩
    obtain ⟨h₁, hi, hr⟩ := hv.2 hg.2
    by_cases hjn : j = n
    · subst hjn
      rw [hi] at hj
      cases hj
      obtain ⟨hfin, hgive, hfetch, -⟩ := hg.1 x hat
      have hgood : ∀ y w', some (x, w) = some (y, w') →
          Finishes y w' ∧ GivesBack y w' ∧ Fetches p.shared y w' := by
        rintro _ _ ⟨⟩
        exact ⟨hfin, hgive, hfetch⟩
      rcases row_passes hv.1 hi hr hrun hm hgood with hr' | hno
      · exact ⟨h', get_set_self hi h', hr'⟩
      · exact absurd hin hno
    · exact hother h' hjn ⟨h₁, hi, hr⟩

/-- The tags of the tasks that may have a row in hand. -/
theorem row_tag {t : Task} {x : Site} (hs : t.site = some x) (hr : HoldsAt t.tag x h)
    (hrow : h.row = some i) :
    (t.tag = .handler i.chatId ∨ Live t i.chatId) ∧ x.chat = i.chatId ∧ x.carries = true := by
  have hcar : x.carries = true := HoldsAt.carries hr (by simp [hrow])
  have hk : ∀ k : Carrier, k.tagged i.chatId t.tag →
      t.tag = .handler i.chatId ∨ Live t i.chatId := by
    intro k hk
    cases k with
    | task => exact .inr ⟨hk, finished_of_site hs⟩
    | handler => exact .inl hk
  cases h with
  | carrying k row =>
    cases hrow
    exact ⟨hk k hr.1, hr.2.1, hcar⟩
  | numbered row seq =>
    cases hrow
    exact ⟨.inl hr.1, hr.2.1, hcar⟩
  | copied k row =>
    cases hrow
    exact ⟨hk k hr.1, hr.2.1, hcar⟩
  | _ => cases hrow

theorem attends (hc : transfer.Coupled p hands) (hv : Owned p.shared hands)
    (hrun : QueueRepo.isRunning i = true) (hi : hands[n]? = some h) (hr : h.row = some i) :
    Attends n i p := by
  intro p' hreach hin
  obtain ⟨hands', hc', -, hk⟩ := keeper_run hrun hc hv (fun _ => ⟨h, hi, hr⟩) hreach
  obtain ⟨h', hi', hr'⟩ := hk hin
  obtain ⟨t, ht, hrest⟩ := hc'.thread hi'
  cases hs : t.site with
  | none =>
    rw [hs] at hrest
    rcases hrest with rfl | rfl
    · cases hr'
    · cases hr'
  | some x =>
    rw [hs] at hrest
    exact ⟨t, x, ht, hs, row_tag hs hrest hr'⟩

end Attended

/-- In every run of guarded steps each row marked Running has a task of its own
that is at work on it for as long as it stays so, a handler that answers with an
error has left the queue alone, and a drain step that fails undoes its pop. -/
theorem no_orphaned_item {s : AppState} (hs : Fresh s) {p : Server}
    (h : Pool.Reaches entry Guarded ⟨s, []⟩ p) :
    (∃ owner : QueueItemRow → Nat, ∀ i ∈ p.shared.store.items, QueueRepo.isRunning i = true →
      Attends (owner i) i p ∧ ∀ j ∈ p.shared.store.items, QueueRepo.isRunning j = true →
        owner i = owner j → i = j) ∧
    RefusesCleanly p ∧ ReturnsCleanly p := by
  obtain ⟨hands, hc, hv⟩ := guarded_run (transfer_start s) hs.owned h
  refine ⟨?_, ?_, ?_⟩
  · have hidx : ∀ i, ∃ n : Nat, i ∈ p.shared.store.items → QueueRepo.isRunning i = true →
        ∃ h : Hand, hands[n]? = some h ∧ h.row = some i := by
      intro i
      by_cases hi : i ∈ p.shared.store.items ∧ QueueRepo.isRunning i = true
      · obtain ⟨x, hx, hr⟩ := hv.owned i hi.1 hi.2
        obtain ⟨n, hn⟩ := List.getElem?_of_mem hx
        exact ⟨n, fun _ _ => ⟨x, hn, hr⟩⟩
      · exact ⟨0, fun h₁ h₂ => absurd ⟨h₁, h₂⟩ hi⟩
    choose owner howner using hidx
    refine ⟨owner, fun i hi hrun => ?_⟩
    obtain ⟨x, hx, hr⟩ := howner i hi hrun
    refine ⟨attends hc hv hrun hx hr, fun j hj hjrun he => ?_⟩
    obtain ⟨y, hy, hr'⟩ := howner j hj hjrun
    rw [← he, hx] at hy
    cases hy
    exact Option.some.inj (hr.symm.trans hr')
  · intro j x w p₁ hat hx hg hf hwhen
    rcases hwhen with hr | ⟨p₂, w', p₃, hreach, hg', hf', hr⟩
    · exact rejects_now hc hv hat hx hg hf hr
    · exact rejects_later hc hv hat hx hg hf hreach hg' hf' hr
  · intro j fn c w p₁ hat hfn hg hf
    rcases drain_pops hc hv hat hfn hg hf with
      ⟨hno, hsame⟩ | ⟨row, hrow, hchat, hp, hitems, hands₁, hc₁, hv₁, hi₁⟩
    · exact ⟨fun _ => hsame, fun _ _ _ _ _ hin => absurd hin hno⟩
    · refine ⟨fun hno => absurd ((inHand_iff hc₁ hi₁).mpr (by simp [Hand.row])) hno, ?_⟩
      intro fn' c' w' p₂ p₃ _ hreach hat' hfn' hg' hf' hout
      obtain ⟨hands₂, hc₂, hv₂, hk⟩ := drain_keeps hc₁ hv₁ hi₁ hreach
      exact ⟨row, hrow, hchat, hp, hitems, drain_returns hc₂ hv₂ hk hp hat' hfn' hg' hf' hout⟩

/-- A queued message, the chat deleted, and then `run_next`: the pop marks the
row Running before the handler finds the chat gone. -/
def orphaningRun : List ServerEvent :=
  [.arrive (.enqueue 1 ['a'])] ++ rounds 0 2 ++ [.arrive (.deleteChat 1)] ++ rounds 1 2 ++
    [.arrive (.runNext 1)] ++ rounds 2 3

theorem refused_pop_orphans_item :
    ¬ ∀ (s : AppState) (p : Server), Fresh s → Pool.Reaches entry Pool.anyStep ⟨s, []⟩ p →
      ∀ i ∈ p.shared.store.items, QueueRepo.isRunning i = true →
        ∃ t ∈ p.threads, t.finished = false := by
  intro hall
  have hrun : (Pool.play entry Pool.anyStep ⟨serve freshStore 10 [], []⟩ orphaningRun).map
      (fun p => (p.shared.store.items.map QueueItemRow.status,
        p.threads.all Thread.finished)) = some ([.running], true) := by decide
  obtain ⟨p, hp, he⟩ := Option.map_eq_some_iff.mp hrun
  simp only [Prod.mk.injEq, List.all_eq_true] at he
  obtain ⟨hstatus, hdone⟩ := he
  have hfresh : Fresh (serve freshStore 10 []) := ⟨rfl, by decide, by decide, by decide⟩
  obtain ⟨i, hi, hrunning⟩ : ∃ i ∈ p.shared.store.items, i.status = .running := by
    apply List.mem_map.mp
    rw [hstatus]
    exact List.mem_singleton_self _
  obtain ⟨t, ht, hno⟩ := hall _ p hfresh (Pool.play_reaches hp) i hi
    (by simp [QueueRepo.isRunning, hrunning])
  rw [hdone t ht] at hno
  cases hno

/-- A drain in the middle of a row, which the theorem finds an owner for. -/
theorem no_orphaned_item_popped :
    ∃ p : Server, (∃ i ∈ p.shared.store.items, QueueRepo.isRunning i = true ∧
      ∃ j, Attends j i p) ∧ RefusesCleanly p ∧ ReturnsCleanly p := by
  have hrun : (Pool.play entry Guarded ⟨serve freshStore 10 [], []⟩
      ([.arrive (.enqueue 1 ['a'])] ++ rounds 0 2 ++ [.arrive (.runNext 1)] ++ rounds 1 2)).map
      (fun p => p.shared.store.items.map QueueItemRow.status) = some [.running] := by decide
  obtain ⟨p, hp, hstatus⟩ := Option.map_eq_some_iff.mp hrun
  have hfresh : Fresh (serve freshStore 10 []) := ⟨rfl, by decide, by decide, by decide⟩
  obtain ⟨i, hi, hrunning⟩ : ∃ i ∈ p.shared.store.items, i.status = .running := by
    apply List.mem_map.mp
    rw [hstatus]
    exact List.mem_singleton_self _
  have hr : QueueRepo.isRunning i = true := by simp [QueueRepo.isRunning, hrunning]
  obtain ⟨⟨owner, howner⟩, hrefuse, hreturn⟩ := no_orphaned_item hfresh (Pool.play_reaches hp)
  exact ⟨p, ⟨i, hi, hr, owner i, (howner i hi hr).1⟩, hrefuse, hreturn⟩

end AgentGrove
