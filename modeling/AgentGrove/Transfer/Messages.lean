import AgentGrove.Transfer.Ledger

namespace AgentGrove

open Coop

/-- No handler of the chat is under way, and no drain step of it. -/
def AtRest (p : Server) (c : Uuid) : Prop :=
  ∀ t ∈ p.threads, (t.tag = .handler c → t.finished = true) ∧
    ∀ x ∈ t.site, x.chat = c → x.carries = false

instance (p : Server) (c : Uuid) : Decidable (AtRest p c) :=
  inferInstanceAs (Decidable (∀ t ∈ p.threads, _))

/-- Rows are neither forgotten nor left behind, nor given back once their prompt
is stored. -/
def Lossless (p : Server) (e : ServerEvent) : Prop := Guarded p e ∧ Whole p e

instance (p : Server) (e : ServerEvent) : Decidable (Lossless p e) :=
  inferInstanceAs (Decidable (_ ∧ _))

section AtRest

variable {p : Server} {hands : List Hand} {c : Uuid} {h : Hand}

/-- Nobody who is about to answer a failed send ever rests. -/
theorem no_strays (hc : transfer.Coupled p hands) (hh : h ∈ hands) (b : Text) :
    h.strays c b = false := by
  obtain ⟨i, hi⟩ := List.getElem?_of_mem hh
  obtain ⟨t, -, hrest⟩ := hc.thread hi
  cases h with
  | refused d body =>
    cases hs : t.site with
    | none =>
      rw [hs] at hrest
      rcases hrest with hr | hr
      · cases hr
      · cases hr
    | some x =>
      rw [hs] at hrest
      exact hrest.elim
  | _ => rfl

theorem no_row_of_rest (hq : AtRest p c) (hc : transfer.Coupled p hands) (hh : h ∈ hands)
    {row : QueueItemRow} (hr : h.row = some row) : row.chatId ≠ c := by
  intro he
  obtain ⟨i, hi⟩ := List.getElem?_of_mem hh
  obtain ⟨t, ht, hrest⟩ := hc.thread hi
  cases hs : t.site with
  | none =>
    rw [hs] at hrest
    rcases hrest with rfl | rfl
    · cases hr
    · cases hr
  | some x =>
    rw [hs] at hrest
    have hchat : x.chat = row.chatId := by
      cases h with
      | carrying k row =>
        cases hr
        exact hrest.2.1
      | numbered row seq =>
        cases hr
        exact hrest.2.1
      | copied k row =>
        cases hr
        exact hrest.2.1
      | _ => cases hr
    have hcar : x.carries = true := HoldsAt.carries hrest (by simp [hr])
    rw [(hq t (mem_of_get ht)).2 x hs (hchat.trans he)] at hcar
    cases hcar

theorem owes_nothing (hq : AtRest p c) (hc : transfer.Coupled p hands) (hh : h ∈ hands)
    (b : Text) : h.owes c b = false := by
  cases h with
  | stored d body =>
    obtain ⟨i, hi⟩ := List.getElem?_of_mem hh
    obtain ⟨t, ht, hrest⟩ := hc.thread hi
    cases hs : t.site with
    | none =>
      rw [hs] at hrest
      rcases hrest with hr | hr
      · cases hr
      · cases hr
    | some x =>
      rw [hs] at hrest
      have hne : d ≠ c := by
        rintro rfl
        have hdone := (hq t (mem_of_get ht)).1 hrest.1
        rw [finished_of_site hs] at hdone
        cases hdone
      simp [Hand.owes, hne]
  | copied k row =>
    have hne := no_row_of_rest hq hc hh rfl
    simp [Hand.owes, hne]
  | _ => rfl

end AtRest

theorem lossless_run {s : AppState} (hs : Fresh s) {p : Server}
    (h : Pool.Reaches entry Lossless ⟨s, []⟩ p) :
    ∃ hands, transfer.Coupled p hands ∧ Owned p.shared hands ∧
      Ledger (represented s) p.shared hands := by
  apply (owned_kept.and (ledger_kept _)).reaches ?_ ?_ h (transfer_start s) ⟨hs.owned, hs.ledger⟩
  · intro p hands request hc hv hg
    exact ⟨request.hand, entry_passes request, hv.1.arrive request, hv.2.arrive hg.2⟩
  · intro p hands i w x h h' s' hc hv hg hat hi hm
    exact ⟨owned_await hc hv.1 hg.1 hat hi hm, ledger_await hv.2 hg.2 hat hi hm⟩

/-- In every run of lossless steps, whenever a chat is at rest its queue holds
Pending items only, and queue and timeline together hold each message once for
every time it was there at the start or accepted since; what else they hold is
left of sends that were answered with an error. -/
theorem every_message_once {s : AppState} (hs : Fresh s) {p : Server}
    (h : Pool.Reaches entry Lossless ⟨s, []⟩ p) {c : Uuid} (hq : AtRest p c) :
    (∀ i ∈ p.shared.store.items, i.chatId = c → i.status = .pending) ∧
    ∀ b, represented s c b + answered true p.shared c b ≤ represented p.shared c b ∧
      represented p.shared c b ≤
        represented s c b + answered true p.shared c b + answered false p.shared c b := by
  obtain ⟨hands, hc, hv, hl⟩ := lossless_run hs h
  constructor
  · intro i hi hchat
    rcases hl.states i hi with hp | hr
    · simpa [QueueRepo.isPending] using hp
    · obtain ⟨x, hx, hrow⟩ := hv.owned i hi hr
      exact absurd hchat (no_row_of_rest hq hc hx hrow)
  · intro b
    have howes : hands.countP (Hand.owes c b) = 0 := by
      apply List.countP_eq_zero.mpr
      intro x hx
      simp [owes_nothing hq hc hx b]
    have hstrays : hands.countP (Hand.strays c b) = 0 := by
      apply List.countP_eq_zero.mpr
      intro x hx
      simp [no_strays hc hx b]
    have hlow := hl.lower c b
    have hupp := hl.upper c b
    rw [howes] at hlow hupp
    rw [hstrays] at hupp
    exact ⟨hlow, hupp⟩

/-- A queued message handed on by `run_next`, whose DELETE of the row fails. -/
def doublingRun : List ServerEvent :=
  [.arrive (.enqueue 1 ['a'])] ++ rounds 0 2 ++ [.arrive (.runNext 1)] ++ rounds 1 8 ++
    [.run 1 { fail := true }]

theorem kept_row_doubles_message :
    ¬ ∀ (s : AppState) (p : Server), Fresh s →
      Pool.Reaches entry Transferring ⟨s, []⟩ p → ∀ c, AtRest p c →
      ∀ b, answered false p.shared c b = 0 →
        represented p.shared c b = represented s c b + answered true p.shared c b := by
  intro hall
  have hrun : (Pool.play entry Transferring ⟨serve freshStore 10 [], []⟩ doublingRun).map
      (fun p => (decide (AtRest p 1), answered false p.shared 1 ['a'],
        answered true p.shared 1 ['a'], represented p.shared 1 ['a'])) =
      some (true, 0, 1, 2) := by decide
  obtain ⟨p, hp, he⟩ := Option.map_eq_some_iff.mp hrun
  simp only [Prod.mk.injEq, decide_eq_true_eq] at he
  obtain ⟨hrest, hrefused, haccepted, htwice⟩ := he
  have hfresh : Fresh (serve freshStore 10 []) := ⟨rfl, by decide, by decide, by decide⟩
  have hone := hall _ p hfresh (Pool.play_reaches hp) 1 hrest ['a'] hrefused
  have hnone : represented (serve freshStore 10 []) 1 ['a'] = 0 := rfl
  rw [htwice, haccepted, hnone] at hone
  cases hone

/-- The same run without the failure. -/
theorem every_message_once_handed :
    ∃ p : Server, (∀ i ∈ p.shared.store.items, i.chatId = 1 → i.status = .pending) ∧
      answered true p.shared 1 ['a'] = 1 ∧ represented p.shared 1 ['a'] = 1 := by
  have hrun : (Pool.play entry Lossless ⟨serve freshStore 10 [], []⟩
      ([.arrive (.enqueue 1 ['a'])] ++ rounds 0 2 ++ [.arrive (.runNext 1)] ++ rounds 1 9)).map
      (fun p => (decide (AtRest p 1), answered false p.shared 1 ['a'],
        answered true p.shared 1 ['a'])) = some (true, 0, 1) := by decide
  obtain ⟨p, hp, he⟩ := Option.map_eq_some_iff.mp hrun
  simp only [Prod.mk.injEq, decide_eq_true_eq] at he
  obtain ⟨hrest, hrefused, haccepted⟩ := he
  have hfresh : Fresh (serve freshStore 10 []) := ⟨rfl, by decide, by decide, by decide⟩
  obtain ⟨hpending, hall⟩ := every_message_once hfresh (Pool.play_reaches hp) hrest
  obtain ⟨hlow, hupp⟩ := hall ['a']
  have hnone : represented (serve freshStore 10 []) 1 ['a'] = 0 := rfl
  rw [haccepted, hnone] at hlow hupp
  rw [hrefused] at hupp
  exact ⟨p, hpending, haccepted, by omega⟩

end AgentGrove
