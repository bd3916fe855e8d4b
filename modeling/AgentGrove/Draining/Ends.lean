import AgentGrove.Coop.Endless
import AgentGrove.Draining.Spawns
import AgentGrove.Transfer.Owned

namespace AgentGrove

open Coop

section Steps

variable {c : Uuid} {p p' : Server} {paces : List Pace} {i : Nat} {w : Choice} {e : ServerEvent}
  {r : Pace}

theorem pace_start (s : AppState) : (pace c).Coupled ⟨s, []⟩ [] :=
  ⟨rfl, fun i t h => by simp at h⟩

/-- Nobody changes the place of another task. -/
theorem place_kept {j : Nat} (hj : j ≠ i) : (pace c).KeptBy j (fun _ paces => paces[i]? = some r) where
  sees _ _ _ _ _ := trivial
  sync _ paces _ r' _ hv _ _ := by rwa [List.getElem?_set_ne hj]
  fork _ paces _ _ rc r' hv _ _ := by
    have hl := (List.getElem?_eq_some_iff.mp hv).1
    rwa [List.getElem?_append_left (by simpa using hl), List.getElem?_set_ne hj]

theorem place_stays (hc : (pace c).Coupled p paces) (hr : paces[i]? = some r)
    (hne : ∀ w, e ≠ .run i w) (h : p.fire entry e = some p') :
    ∃ paces', (pace c).Coupled p' paces' ∧ paces'[i]? = some r := by
  have hl := (List.getElem?_eq_some_iff.mp hr).1
  cases e with
  | arrive request =>
    have hlen : paces.length ≠ i := by omega
    apply (place_kept hlen).arrive hc (entry_paces request) _ h
    rwa [List.getElem?_append_left hl]
  | run j w =>
    have hji : j ≠ i := by
      rintro rfl
      exact hne w rfl
    apply (place_kept hji).fire hc hr _ h
    intro site x x' s' _ _ _
    rwa [List.getElem?_set_ne hji]

/-- What a drain's own step leaves of its bound. -/
theorem load_by (d K : Nat) : (pace c).KeptBy i (fun s paces =>
    ∃ r, paces[i]? = some r ∧ r.load c s + d ≤ K) where
  sees _ _ _ _ _ := trivial
  sync s paces r r' s' hv hi hm := by
    obtain ⟨x, hx, hle⟩ := hv
    rw [hi] at hx
    cases hx
    refine ⟨r', get_set_self hi r', ?_⟩
    cases hm with
    | other => exact hle
    | steady h => rwa [h.load]
    | free => exact Nat.le_trans (Nat.add_le_add_right (Nat.zero_le _) d) hle
    | freed h => exact hle
  fork s paces r tag rc r' hv hi hf := by
    obtain ⟨x, hx, hle⟩ := hv
    rw [hi] at hx
    cases hx
    obtain ⟨rfl, -⟩ := hf
    exact ⟨r', get_append (get_set_self hi r') rc, hle⟩

theorem own_step (hc : (pace c).Coupled p paces) (hr : paces[i]? = some r) {x : Site}
    (hx : p.At i x) (hp : Proceeds x w) (ho : r ≠ .other) (h : p.fire entry (.run i w) = some p') :
    ∃ paces', (pace c).Coupled p' paces' ∧
      ∃ r', paces'[i]? = some r' ∧ r'.load c p'.shared + x.call.cost ≤ r.load c p.shared := by
  apply (load_by x.call.cost (r.load c p.shared)).fire_from hc (fun _ _ => trivial) _ h
  intro site q q' s' hat hq hm
  have hsite : site = x := Option.some.inj (hat.symm.trans hx)
  subst hsite
  rw [hr] at hq
  cases hq
  refine ⟨q', get_set_self hr q', ?_⟩
  cases hm with
  | other => exact absurd rfl ho
  | spend h => exact h hp

/-- A drain that has given its flag back finds it clear until it rests. -/
theorem freed_by : (pace c).KeptBy i (fun s paces =>
    ∃ r, paces[i]? = some r ∧ (r = .freed → c ∉ s.dispatching)) where
  sees _ _ _ _ _ := trivial
  sync s paces r r' s' hv hi hm := by
    obtain ⟨x, hx, hfree⟩ := hv
    rw [hi] at hx
    cases hx
    refine ⟨r', get_set_self hi r', ?_⟩
    cases hm with
    | other => simp
    | steady h => simp
    | free => exact fun _ => by simp [unflagged]
    | freed h =>
      rw [h]
      exact hfree
  fork s paces r tag rc r' hv hi hf := by
    obtain ⟨x, hx, hfree⟩ := hv
    rw [hi] at hx
    cases hx
    obtain ⟨rfl, -⟩ := hf
    exact ⟨r', get_append (get_set_self hi r') rc, hfree⟩

/-- The step with which a drain ends leaves the chat without its flag. -/
theorem last_step (hc : (pace c).Coupled p paces) {t : Task} (ht : p.threads[i]? = some t)
    (htag : Carrier.task.tagged c t.tag) (h : p.fire entry (.run i w) = some p')
    (hend : p'.Ended i) : c ∉ p'.shared.dispatching := by
  obtain ⟨r, hr, -⟩ := hc.role ht
  obtain ⟨paces', hc', r', hr', hfree⟩ := freed_by.fire_from hc (fun _ _ => trivial) (by
    intro site q q' s' hat hq hm
    refine ⟨q', get_set_self hq q', ?_⟩
    cases hm with
    | other => simp
    | spend h => simp) h
  obtain ⟨t', ht', hfin⟩ := hend
  obtain ⟨x, hx, hrest⟩ := hc'.role ht'
  rw [hr'] at hx
  cases hx
  obtain ⟨t'', ht'', he⟩ := Pool.fire_tag h ht
  rw [ht'] at ht''
  cases ht''
  have hsite : t'.site = none := by
    cases hs : t'.site with
    | none => rfl
    | some x =>
      rw [finished_of_site hs] at hfin
      cases hfin
  apply hfree
  rw [hsite, he] at hrest
  cases r' with
  | other => exact absurd htag hrest
  | due ph k =>
    obtain ⟨-, y, hy, -⟩ := hrest
    cases hy
  | freed => rfl

end Steps

section Runs

variable {c : Uuid} {run : Nat → Server} {events : Nat → ServerEvent} {i N : Nat}

/-- The awaits at which a drain of the chat at `i` may go wrong: no drain of the
chat puts an item back, and this one reads the mode and the queue. -/
def Draws (c : Uuid) (i : Nat) (p : Server) : ServerEvent → Prop
  | .arrive _ => True
  | .run j w => ∀ x ∈ p.restsAt j, x.chat = c → x.call ≠ .resetToPending ∧
      (j = i → x.call = .isAuto ∨ x.call = .popItem → w.fail = false)

/-- Nothing joins the queue of the chat. -/
def Unfed (c : Uuid) (p : Server) : ServerEvent → Prop
  | .arrive _ => True
  | .run j w => ∀ x ∈ p.restsAt j, x.chat = c → x.call = .insertItem → w.fail = true

/-- The task does not stay in the event loop of a turn for ever. -/
def TurnsEnd (run : Nat → Server) (i : Nat) : Prop :=
  ∀ n x, (run n).At i x → x.call.streams = true →
    ∃ m, n ≤ m ∧ ∀ y, (run m).At i y → y.call.streams = false

theorem paces_run {s : AppState} {p : Server} (h : Pool.Reaches entry Pool.anyStep ⟨s, []⟩ p) :
    ∃ paces, (pace c).Coupled p paces := by
  have hk : (pace c).Kept (fun _ _ => True) := by
    constructor
    · exact fun _ _ _ _ _ _ => trivial
    · exact fun _ _ _ _ _ _ _ _ _ => trivial
    · exact fun _ _ _ _ _ _ _ _ _ _ => trivial
  obtain ⟨paces, hc, -⟩ := hk.reaches
    (fun _ _ request _ _ _ => ⟨.other, entry_paces request, trivial⟩)
    (fun _ _ _ _ _ _ _ _ _ _ _ _ _ _ => trivial) h (pace_start s) trivial
  exact ⟨paces, hc⟩

theorem carried_run {s : AppState} {p : Server} (hs : Fresh s)
    (h : Pool.Reaches entry Pool.anyStep ⟨s, []⟩ p) :
    ∃ hands, transfer.Coupled p hands ∧ Carried p.shared hands := by
  apply carried_kept.reaches _ _ h (transfer_start s) hs.owned.toCarried
  · exact fun _ _ request _ hv _ => ⟨_, entry_passes request, hv.arrive request.hand_row⟩
  · exact fun _ _ _ _ _ _ _ _ _ hv _ _ hi hm => hv.passes hi hm

/-- A live drain is due some awaits, at a point that is about its chat. -/
theorem drain_due {p : Server} {paces : List Pace} (hc : (pace c).Coupled p paces) {t : Task}
    (ht : p.threads[i]? = some t) (htag : Carrier.task.tagged c t.tag) (hfin : t.finished = false) :
    ∃ r x, paces[i]? = some r ∧ r ≠ .other ∧ p.At i x ∧ x.chat = c := by
  obtain ⟨r, hr, ho⟩ := hc.2 i t ht
  obtain ⟨x, hx⟩ := site_of_unfinished ho.1 hfin
  have hrest := ho.rests
  rw [hx] at hrest
  have hat : p.At i x := by
    simp only [Pool.At, Pool.restsAt, ht]
    exact hx
  cases r with
  | other => exact absurd htag hrest
  | due ph k =>
    obtain ⟨-, y, hy, hchat⟩ := hrest
    cases hy
    exact ⟨_, x, hr, by simp, hat, hchat⟩
  | freed =>
    obtain ⟨-, hnone⟩ := hrest
    cases hnone

theorem Draws.proceeds {p : Server} {w : Choice} {x : Site} (hd : Draws c i p (.run i w))
    (hx : p.At i x) (hc : x.chat = c) : Proceeds x w :=
  ⟨(hd x hx hc).1, (hd x hx hc).2 rfl⟩

theorem Draws.no_refill {p : Server} {e : ServerEvent} (hd : Draws c i p e) (hu : Unfed c p e) :
    ∀ j w, e = .run j w → ∀ x, p.At j x → ¬ Refills c x w := by
  rintro j w rfl x hx ⟨hc, ⟨hcall, hw⟩ | hcall⟩
  · have := hu x hx hc hcall
    rw [hw] at this
    cases this
  · exact (hd x hx hc).1 hcall

/-- From some point on nothing is enqueued in the chat and its mode stays. -/
structure Quiesced (c : Uuid) (N : Nat) (run : Nat → Server) (events : Nat → ServerEvent) : Prop where
  unfed : ∀ n, N ≤ n → Unfed c (run n) (events n)
  mode : ∀ n, N ≤ n → QueueRepo.getMode (run n).shared.store.modes c =
    QueueRepo.getMode (run N).shared.store.modes c

variable (hrun : Pool.Endless entry run events) {s : AppState} (hs : Fresh s)
  (hstart : run 0 = ⟨s, []⟩) (hquiet : Quiesced c N run events)
  (hdraws : ∀ n, N ≤ n → Draws c i (run n) (events n)) {t : Task} {n₀ : Nat}
  (ht : (run n₀).threads[i]? = some t) (htag : Carrier.task.tagged c t.tag)
include hrun hs hstart hquiet hdraws ht htag

/-- Each step of the run keeps the bound of a drain, and its own awaits lower it. -/
theorem bound_step {n k : Nat} (hN : N ≤ n) (hn₀ : n₀ ≤ n) (hlive : ¬ (run n).Ended i)
    (hb : ∃ paces, (pace c).Coupled (run n) paces ∧
      ∃ r, paces[i]? = some r ∧ r.load c (run n).shared ≤ k) :
    (∃ paces, (pace c).Coupled (run (n + 1)) paces ∧
      ∃ r, paces[i]? = some r ∧ r.load c (run (n + 1)).shared ≤ k) ∧
    ∀ w x, events n = .run i w → (run n).At i x → x.call.streams = false →
      ∃ j, j < k ∧ ∃ paces, (pace c).Coupled (run (n + 1)) paces ∧
        ∃ r, paces[i]? = some r ∧ r.load c (run (n + 1)).shared ≤ j := by
  obtain ⟨paces, hc, r, hr, hle⟩ := hb
  obtain ⟨t', ht', he⟩ := hrun.tag ht hn₀
  have hfin : t'.finished = false := by
    cases hf : t'.finished with
    | false => rfl
    | true => exact absurd ⟨t', ht', hf⟩ hlive
  obtain ⟨r', x, hr', ho, hat, hchat⟩ := drain_due hc ht' (he ▸ htag) hfin
  rw [hr] at hr'
  cases hr'
  have hown : ∀ w, events n = .run i w → ∃ paces, (pace c).Coupled (run (n + 1)) paces ∧
      ∃ r', paces[i]? = some r' ∧ r'.load c (run (n + 1)).shared + x.call.cost ≤ k := by
    intro w hw
    have hf := hrun n
    have hd := hdraws n hN
    rw [hw] at hf hd
    obtain ⟨paces', hc', r', hr', hle'⟩ := own_step hc hr hat (hd.proceeds hat hchat) ho hf
    exact ⟨paces', hc', r', hr', Nat.le_trans hle' hle⟩
  constructor
  · by_cases hw : ∃ w, events n = .run i w
    · obtain ⟨w, hw⟩ := hw
      obtain ⟨paces', hc', r', hr', hle'⟩ := hown w hw
      exact ⟨paces', hc', r', hr', by omega⟩
    · obtain ⟨paces', hc', hr'⟩ := place_stays hc hr (fun w he => hw ⟨w, he⟩) (hrun n)
      refine ⟨paces', hc', r, hr', Nat.le_trans ?_ hle⟩
      have hreach := hrun.reaches n
      rw [hstart] at hreach
      obtain ⟨hands, hch, hv⟩ := carried_run hs hreach
      obtain ⟨-, -, -, hp⟩ := pending_step hch hv (hrun n)
        ((hdraws n hN).no_refill (hquiet.unfed n hN))
      exact load_mono r hp ((hquiet.mode (n + 1) (by omega)).trans (hquiet.mode n hN).symm)
  · intro w y hw hy hcost
    have hxy : y = x := Option.some.inj (hy.symm.trans hat)
    subst hxy
    obtain ⟨paces', hc', r', hr', hle'⟩ := hown w hw
    simp only [Call.cost, hcost, Bool.false_eq_true, ↓reduceIte] at hle'
    exact ⟨k - 1, by omega, paces', hc', r', hr', by omega⟩

omit hs hquiet hdraws in
/-- A drain that has not ended goes on, and not within a turn for ever. -/
theorem goes_on (hfair : Pool.Fair run events i) (hturns : TurnsEnd run i) {n : Nat}
    (hn : n₀ ≤ n) : ∃ m, n ≤ m ∧ ((run m).Ended i ∨
      ∃ w x, events m = .run i w ∧ (run m).At i x ∧ x.call.streams = false) := by
  -- Whether a live drain rests outside the event loop of a turn.
  have hrest : ∀ m, n₀ ≤ m → ¬ (run m).Ended i → ∃ t' x, (run m).threads[i]? = some t' ∧
      t'.finished = false ∧ (run m).At i x := by
    intro m hm hlive
    obtain ⟨t', ht', he⟩ := hrun.tag ht hm
    have hfin : t'.finished = false := by
      cases hf : t'.finished with
      | false => rfl
      | true => exact absurd ⟨t', ht', hf⟩ hlive
    have hreach := hrun.reaches m
    rw [hstart] at hreach
    obtain ⟨paces, hc⟩ := paces_run (c := c) hreach
    obtain ⟨-, x, -, -, hat, -⟩ := drain_due hc ht' (he ▸ htag) hfin
    exact ⟨t', x, ht', hfin, hat⟩
  have hoff : ∃ m, n ≤ m ∧ ((run m).Ended i ∨ ∃ t' x, (run m).threads[i]? = some t' ∧
      t'.finished = false ∧ (run m).At i x ∧ x.call.streams = false) := by
    by_cases hlive : (run n).Ended i
    · exact ⟨n, Nat.le_refl n, .inl hlive⟩
    obtain ⟨t', x, ht', hfin, hat⟩ := hrest n hn hlive
    cases hs : x.call.streams with
    | false => exact ⟨n, Nat.le_refl n, .inr ⟨t', x, ht', hfin, hat, hs⟩⟩
    | true =>
      obtain ⟨m, hm, hout⟩ := hturns n x hat hs
      by_cases hlive' : (run m).Ended i
      · exact ⟨m, hm, .inl hlive'⟩
      · obtain ⟨t'', y, ht'', hfin', hat'⟩ := hrest m (Nat.le_trans hn hm) hlive'
        exact ⟨m, hm, .inr ⟨t'', y, ht'', hfin', hat', hout y hat'⟩⟩
  obtain ⟨m, hm, hend | ⟨t', x, ht', hfin, hat, hcost⟩⟩ := hoff
  · exact ⟨m, hm, .inl hend⟩
  · obtain ⟨m', w, hm', ht'', hw⟩ := hrun.next_step hfair ht' hfin
    have hat' : (run m').At i x := by
      simp only [Pool.At, Pool.restsAt, ht', ht''] at hat ⊢
      exact hat
    exact ⟨m', Nat.le_trans hm hm', .inr ⟨w, x, hw, hat', hcost⟩⟩

/-- A drain ends some time. -/
theorem drain_ends_at (hfair : Pool.Fair run events i) (hturns : TurnsEnd run i) :
    ∃ m, n₀ ≤ m ∧ (run m).Ended i := by
  have hreach := hrun.reaches (max N n₀)
  rw [hstart] at hreach
  obtain ⟨paces, hc⟩ := paces_run (c := c) hreach
  obtain ⟨t', ht', he⟩ := hrun.tag ht (Nat.le_max_right N n₀)
  obtain ⟨r, hr, -⟩ := hc.role ht'
  have hend := @ends_by_rank (max N n₀) (fun n => (run n).Ended i)
    (fun n => ∃ w x, events n = .run i w ∧ (run n).At i x ∧ x.call.streams = false)
    (fun n k => ∃ paces, (pace c).Coupled (run n) paces ∧
      ∃ r, paces[i]? = some r ∧ r.load c (run n).shared ≤ k)
    ?_ ?_ ?_ _ _ (Nat.le_refl _) ⟨paces, hc, r, hr, Nat.le_refl _⟩
  · obtain ⟨m, hm, hend⟩ := hend
    exact ⟨m, by omega, hend⟩
  · intro n k hn hlive hb
    exact (bound_step hrun hs hstart hquiet hdraws ht htag (by omega) (by omega) hlive hb).1
  · rintro n k hn hlive ⟨w, x, hw, hx, hcost⟩ hb
    exact (bound_step hrun hs hstart hquiet hdraws ht htag (by omega) (by omega) hlive hb).2 w x hw hx hcost
  · intro n hn
    exact goes_on hrun hstart ht htag hfair hturns (by omega)

end Runs

/-- The drain terminates. Take any run from startup and any dispatch or drain
task of a chat in it. If from some point on nothing is enqueued in the chat, its
mode stays and no drain of the chat puts an item back or fails to read mode or
queue, and if the task is not left in a turn for ever, then it makes a last step
with which it ends, and the flag of the chat is clear then. -/
theorem drain_terminates {run : Nat → Server} {events : Nat → ServerEvent}
    (hrun : Pool.Endless entry run events) {s : AppState} (hs : Fresh s) (hstart : run 0 = ⟨s, []⟩)
    {i : Nat} (hfair : Pool.Fair run events i) (hturns : TurnsEnd run i) {t : Task} {n₀ : Nat}
    (ht : (run n₀).threads[i]? = some t) {c : Uuid} (hlive : Live t c) {N : Nat}
    (hquiet : Quiesced c N run events) (hdraws : ∀ n, N ≤ n → Draws c i (run n) (events n)) :
    ∃ m w, n₀ ≤ m ∧ events m = .run i w ∧ (∀ n, m < n → (run n).Ended i ∧
      ∀ w, events n ≠ .run i w) ∧ c ∉ (run (m + 1)).shared.dispatching := by
  obtain ⟨m', hm', hend⟩ := drain_ends_at hrun hs hstart hquiet hdraws ht hlive.1 hfair hturns
  -- The last moment at which the task lives.
  have hlast : ∀ d, (run (n₀ + d)).Ended i → ∃ m, n₀ ≤ m ∧ ¬ (run m).Ended i ∧ (run (m + 1)).Ended i := by
    intro d
    induction d with
    | zero =>
      rintro ⟨t', ht', hfin⟩
      rw [Nat.add_zero, ht] at ht'
      cases ht'
      rw [hlive.2] at hfin
      cases hfin
    | succ d ih =>
      intro hd
      by_cases he : (run (n₀ + d)).Ended i
      · exact ih he
      · exact ⟨n₀ + d, Nat.le_add_right n₀ d, he, hd⟩
  obtain ⟨m, hm, hbefore, hafter⟩ := hlast (m' - n₀) (by
    rw [Nat.add_sub_cancel' hm']
    exact hend)
  obtain ⟨t', ht', he⟩ := hrun.tag ht hm
  have hown : ∃ w, events m = .run i w := by
    by_contra hno
    have hstay := Pool.fire_other (hrun m) ht' fun w hw => hno ⟨w, hw⟩
    obtain ⟨t'', ht'', hfin⟩ := hafter
    rw [hstay] at ht''
    cases ht''
    exact hbefore ⟨t', ht', hfin⟩
  obtain ⟨w, hw⟩ := hown
  have hf := hrun m
  rw [hw] at hf
  have hreach := hrun.reaches m
  rw [hstart] at hreach
  obtain ⟨paces, hc⟩ := paces_run (c := c) hreach
  refine ⟨m, w, hm, hw, fun n hn => ?_, last_step hc ht' (he ▸ hlive.1) hf hafter⟩
  have hended := hrun.ended hafter hn
  exact ⟨hended, hended.no_step (hrun n)⟩

/-- Chat 2 beside chat 1, with a provider that is there. -/
def twoChats : Store :=
  { freshStore with chats := [freshChat, ChatRepo.create 2 0 0 none ['u'] ['q'] ['m'] none] }

/-- Chat 2 is in a turn that streams on, and auto mode starts a drain of chat 1. -/
def besideStream : List ServerEvent :=
  [.arrive (.sendMessage 2 ['x'])] ++ rounds 0 10 ++ rounds 1 3 ++
    [.arrive (.enqueue 1 ['a'])] ++ rounds 2 2 ++ [.arrive (.setMode 1 .auto)] ++ rounds 3 5

/-- Steps that leave chat 1 in auto mode, enqueue nothing and let its drain be. -/
def Untroubled (p : Server) (e : ServerEvent) : Prop :=
  QueueRepo.getMode p.shared.store.modes 1 = .auto ∧ Unfed 1 p e ∧ Draws 1 4 p e

instance (c : Uuid) (p : Server) : (e : ServerEvent) → Decidable (Unfed c p e)
  | .arrive _ => inferInstanceAs (Decidable True)
  | .run j _ => inferInstanceAs (Decidable (∀ x ∈ p.restsAt j, _))

instance (c : Uuid) (i : Nat) (p : Server) : (e : ServerEvent) → Decidable (Draws c i p e)
  | .arrive _ => inferInstanceAs (Decidable True)
  | .run j _ => inferInstanceAs (Decidable (∀ x ∈ p.restsAt j, _))

instance (p : Server) (e : ServerEvent) : Decidable (Untroubled p e) :=
  inferInstanceAs (Decidable (_ ∧ _))

theorem besideStream_plays :
    (Pool.play entry Pool.anyStep ⟨serve twoChats 10 [['q']], []⟩ besideStream).isSome = true := by
  decide

def draining : Server :=
  (Pool.play entry Pool.anyStep ⟨serve twoChats 10 [['q']], []⟩ besideStream).get besideStream_plays

theorem draining_plays : (draining.play entry Untroubled (rounds 4 23)).isSome = true := by
  decide

def drained : Server := (draining.play entry Untroubled (rounds 4 23)).get draining_plays

theorem drained_again :
    drained.play entry Untroubled [.run 1 {}, .run 1 { recv := .timeout }] = some drained := by
  rfl

/-- The queue of chat 1 is drained while chat 2 streams for ever. -/
theorem drain_terminates_beside_stream :
    ∃ (run : Nat → Server) (events : Nat → ServerEvent) (m : Nat), Pool.Endless entry run events ∧
      (∃ w, events m = .run 4 w) ∧ (∀ n, m < n → (run n).Ended 4) ∧
      1 ∉ (run (m + 1)).shared.dispatching := by
  have hpre : Pool.play entry Pool.anyStep ⟨serve twoChats 10 [['q']], []⟩ besideStream =
      some draining := (Option.some_get besideStream_plays).symm
  have hmid : draining.play entry Untroubled (rounds 4 23) = some drained :=
    (Option.some_get draining_plays).symm
  obtain ⟨hrun, hat, hend, hgood⟩ := Pool.lasso_endless hpre hmid drained_again
  have hdrain : draining.threads[4]?.map (fun t => (t.tag, t.finished)) = some (.drain 1, false) := by
    decide
  obtain ⟨t, ht, htag⟩ := Option.map_eq_some_iff.mp hdrain
  simp only [Prod.mk.injEq] at htag
  have hfinal : drained.threads[4]?.map Thread.finished = some true := by decide
  obtain ⟨t', ht', hfin⟩ := Option.map_eq_some_iff.mp hfinal
  have hended : ∀ n, (besideStream ++ rounds 4 23).length ≤ n → _ :=
    fun n hn => hrun.ended (i := 4) ⟨t', hend ▸ ht', hfin⟩ hn
  have hfresh : Fresh (serve twoChats 10 [['q']]) := ⟨rfl, by decide, by decide, by decide⟩
  have hquiet : Quiesced 1 besideStream.length _ _ :=
    ⟨fun n hn => (hgood n hn).2.1, fun n hn => (hgood n hn).1.trans (hgood _ (Nat.le_refl _)).1.symm⟩
  have hexit := drain_terminates hrun hfresh rfl
    (fun n => ⟨_, Nat.le_max_left n (besideStream ++ rounds 4 23).length,
      .inl (hended _ (Nat.le_max_right _ _))⟩)
    (fun n x _ _ => ⟨_, Nat.le_max_left n (besideStream ++ rounds 4 23).length, fun y hy => ?_⟩)
    (hat ▸ ht) ⟨.inr htag.1, htag.2⟩ hquiet fun n hn => (hgood n hn).2.2
  · obtain ⟨m, w, -, hw, hlast, hflag⟩ := hexit
    exact ⟨_, _, m, hrun, ⟨w, hw⟩, fun n hn => (hlast n hn).1, hflag⟩
  · obtain ⟨u, hu, hufin⟩ := hended (max n (besideStream ++ rounds 4 23).length) (Nat.le_max_right _ _)
    have hsite : u.site = some y := by
      simp only [Pool.At, Pool.restsAt, hu] at hy
      exact hy
    rw [finished_of_site hsite] at hufin
    cases hufin

/-- An item waits, its chat is deleted, and auto mode starts a drain. -/
def deletedBacklog : List ServerEvent :=
  [.arrive (.enqueue 1 ['a'])] ++ rounds 0 2 ++ [.arrive (.deleteChat 1)] ++ rounds 1 2 ++
    [.arrive (.setMode 1 .auto)] ++ rounds 2 5

/-- Steps of task 3 alone, outside any turn, that leave the chat in auto mode
and enqueue nothing. -/
def Spins (p : Server) : ServerEvent → Prop
  | .arrive _ => False
  | .run j _ => j = 3 ∧ QueueRepo.getMode p.shared.store.modes 1 = .auto ∧
      ∀ x ∈ p.restsAt 3, x.call.streams = false ∧ x.call ≠ .insertItem

instance (p : Server) : (e : ServerEvent) → Decidable (Spins p e)
  | .arrive _ => inferInstanceAs (Decidable False)
  | .run _ _ => inferInstanceAs (Decidable (_ ∧ _))

theorem deletedBacklog_plays :
    (Pool.play entry Pool.anyStep ⟨serve freshStore 10 [], []⟩ deletedBacklog).isSome = true := by
  decide

/-- The drain has just been started. -/
def spinning : Server :=
  (Pool.play entry Pool.anyStep ⟨serve freshStore 10 [], []⟩ deletedBacklog).get
    deletedBacklog_plays

theorem spinning_again : spinning.play entry Spins (.run 3 {} :: rounds 3 10) = some spinning := by
  rfl

theorem Spins.own {p : Server} {e : ServerEvent} (h : Spins p e) : ∃ w, e = .run 3 w := by
  cases e with
  | arrive request => exact h.elim
  | run j w =>
    obtain ⟨rfl, -⟩ := h
    exact ⟨w, rfl⟩

theorem Spins.place {p : Server} {e : ServerEvent} (h : Spins p e) :
    QueueRepo.getMode p.shared.store.modes 1 = .auto ∧
      ∀ x, p.At 3 x → x.call.streams = false ∧ x.call ≠ .insertItem := by
  cases e with
  | arrive request => exact h.elim
  | run j w => exact h.2

/-- The drain pops the item, finds its chat gone, puts it back and sees it pending. -/
theorem drain_spins_for_ever :
    ¬ ∀ (run : Nat → Server) (events : Nat → ServerEvent) (s : AppState) (i n₀ N : Nat) (t : Task)
      (c : Uuid), Pool.Endless entry run events → Fresh s → run 0 = ⟨s, []⟩ →
      Pool.Fair run events i → TurnsEnd run i → (run n₀).threads[i]? = some t → Live t c →
      Quiesced c N run events → ∃ m w, n₀ ≤ m ∧ events m = .run i w ∧ (∀ n, m < n →
        (run n).Ended i ∧ ∀ w, events n ≠ .run i w) ∧ c ∉ (run (m + 1)).shared.dispatching := by
  intro hall
  have hplay : Pool.play entry Pool.anyStep ⟨serve freshStore 10 [], []⟩ deletedBacklog =
      some spinning := (Option.some_get deletedBacklog_plays).symm
  have hnone : spinning.play entry Spins [] = some spinning := rfl
  obtain ⟨hrun, hat, -, hspins⟩ := Pool.lasso_endless hplay hnone spinning_again
  have hdrain : spinning.threads[3]?.map (fun t => (t.tag, t.finished)) = some (.drain 1, false) := by
    decide
  obtain ⟨t, ht, htag⟩ := Option.map_eq_some_iff.mp hdrain
  simp only [Prod.mk.injEq] at htag
  have hfresh : Fresh (serve freshStore 10 []) := ⟨rfl, by decide, by decide, by decide⟩
  have hexit := hall _ _ _ 3 deletedBacklog.length deletedBacklog.length t 1 hrun hfresh rfl
    (fun n => ?_) (fun n x _ _ => ?_) (hat ▸ ht) ⟨.inr htag.1, htag.2⟩ ⟨?_, ?_⟩
  · obtain ⟨m, w, -, -, hend, -⟩ := hexit
    obtain ⟨w', hw'⟩ := (hspins (max (m + 1) deletedBacklog.length) (Nat.le_max_right _ _)).own
    exact (hend (max (m + 1) deletedBacklog.length) (by omega)).2 w' hw'
  · exact ⟨_, Nat.le_max_left n deletedBacklog.length,
      .inr (hspins _ (Nat.le_max_right _ _)).own⟩
  · exact ⟨_, Nat.le_max_left n deletedBacklog.length,
      fun y hy => ((hspins _ (Nat.le_max_right _ _)).place.2 y hy).1⟩
  · intro n hn
    obtain ⟨w', hw'⟩ := (hspins n hn).own
    rw [hw']
    intro x hx _ hcall
    exact absurd hcall ((hspins n hn).place.2 x hx).2
  · intro n hn
    rw [(hspins n hn).place.1, (hspins _ (Nat.le_refl _)).place.1]

end AgentGrove
