import AgentGrove.Routing.Walk
import AgentGrove.Transfer.Carried

namespace AgentGrove

open Coop

/-- How many items of a chat are pending. -/
def pendingIn (c : Uuid) (s : AppState) : Nat :=
  s.store.items.countP (fun i => i.chatId = c ∧ QueueRepo.isPending i)

/-- The awaits that may add a pending item: an enqueue that goes through, and a
popped item put back. -/
def Refills (c : Uuid) (x : Site) (w : Choice) : Prop :=
  x.chat = c ∧ (x.call = .insertItem ∧ w.fail = false ∨ x.call = .resetToPending)

instance (c : Uuid) (x : Site) (w : Choice) : Decidable (Refills c x w) :=
  inferInstanceAs (Decidable (_ ∧ _))

section Counting

variable {c : Uuid} {s s' : AppState} {items : List QueueItemRow} {hands : List Hand} {n : Nat}
  {h h' : Hand} {i : QueueItemRow}

theorem pendingIn_congr (hi : s'.store.items = s.store.items) : pendingIn c s' = pendingIn c s := by
  unfold pendingIn
  rw [hi]

/-- Rows changed in place, none of them into a pending one of the chat. -/
theorem pendingIn_map {f : QueueItemRow → QueueItemRow}
    (hf : ∀ i ∈ s.store.items, (f i).chatId = c → QueueRepo.isPending (f i) = true →
      i.chatId = c ∧ QueueRepo.isPending i = true) :
    pendingIn c (setItems (s.store.items.map f) s) ≤ pendingIn c s := by
  show (s.store.items.map f).countP _ ≤ _
  rw [List.countP_map]
  apply List.countP_mono_left
  intro i hi hp
  simp only [Function.comp, decide_eq_true_eq] at hp ⊢
  exact hf i hi hp.1 hp.2

theorem pendingIn_sublist (hs : items.Sublist s.store.items) :
    pendingIn c (setItems items s) ≤ pendingIn c s :=
  hs.countP_le

theorem pendingIn_slots : pendingIn c s = (s.store.items.map QueueItemRow.slot).countP
    (fun x => x.2.1 = c ∧ x.2.2 = QueueStatus.pending) := by
  unfold pendingIn
  rw [List.countP_map]
  apply List.countP_congr
  intro i _
  simp only [QueueItemRow.slot, QueueRepo.isPending, Function.comp, decide_eq_true_eq]
  exact decide_eq_true_iff.symm

theorem pendingIn_pop (now : Nat) (id : Uuid) :
    pendingIn c (setItems (QueueRepo.setStatus (fun _ => true) .running now id s.store.items) s) ≤
      pendingIn c s := by
  apply pendingIn_map
  intro i _ hc hp
  split at hp
  · cases hp
  · rename_i hne
    rw [if_neg hne] at hc
    exact ⟨hc, hp⟩

/-- The row a pop takes was pending, and is not any more. -/
theorem pendingIn_pop_lt (now : Nat) (hi : i ∈ s.store.items) (hc : i.chatId = c)
    (hp : QueueRepo.isPending i = true) :
    pendingIn c (setItems (QueueRepo.setStatus (fun _ => true) .running now i.id s.store.items) s) <
      pendingIn c s := by
  have hstatus : i.status = .pending := by simpa [QueueRepo.isPending] using hp
  obtain ⟨l, r, hlr⟩ := List.append_of_mem hi
  have hl := pendingIn_pop (c := c) (s := setItems l s) now i.id
  have hr := pendingIn_pop (c := c) (s := setItems r s) now i.id
  unfold pendingIn at hl hr ⊢
  simp only [setItems, QueueRepo.setStatus] at hl hr ⊢
  rw [hlr, List.map_append, List.map_cons, List.countP_append, List.countP_append,
    List.countP_cons, List.countP_cons]
  simp [QueueRepo.isPending, hc, hstatus] at hl hr ⊢
  omega

theorem pendingIn_pos : 0 < pendingIn c s ↔ HasPending s c := by
  unfold pendingIn HasPending
  rw [List.countP_pos_iff]
  simp

theorem headPending_none (h : QueueRepo.headPending s.store.items c = none) :
    ¬ HasPending s c := by
  rintro ⟨i, hi, hc, hp⟩
  have hnil : (s.store.items.filter (fun i => i.chatId = c ∧ QueueRepo.isPending i)).insertionSort
      QueueRepo.Before = [] := List.head?_eq_none_iff.mp h
  have hm : i ∈ (s.store.items.filter (fun i => i.chatId = c ∧ QueueRepo.isPending i)).insertionSort
      QueueRepo.Before := by
    rw [List.mem_insertionSort, List.mem_filter]
    exact ⟨hi, by simp [hc, hp]⟩
  rw [hnil] at hm
  cases hm

/-- Nothing but an enqueue or an item put back adds a pending item. -/
theorem Passes.pending {e : Option (Site × Choice)} (hv : Carried s hands)
    (hi : hands[n]? = some h) (hm : Passes e h s h' s')
    (hno : ∀ x w, e = some (x, w) → ¬ Refills c x w) : pendingIn c s' ≤ pendingIn c s := by
  cases hm with
  | still hs => exact Nat.le_of_eq (pendingIn_congr hs.items)
  | answer ha => exact Nat.le_of_eq (pendingIn_congr rfl)
  | queue hw hid hc hb hp =>
    rename_i row
    have hne : row.chatId ≠ c := fun he => hno _ _ rfl ⟨hc ▸ he, .inl ⟨rfl, hw⟩⟩
    show (s.store.items ++ [row]).countP _ ≤ _
    rw [countP_concat]
    simp [hne, pendingIn]
  | send hw hid hc hb => exact Nat.le_of_eq (pendingIn_congr rfl)
  | refuse => exact Nat.le_refl _
  | spoil hwhy hs => exact Nat.le_of_eq (pendingIn_congr hs.items)
  | pop hh him hp => exact pendingIn_pop _ _
  | number hn => exact Nat.le_refl _
  | copy hh hw hid hc hb => exact Nat.le_of_eq (pendingIn_congr rfl)
  | botch hfn hwhy hs => exact Nat.le_of_eq (pendingIn_congr hs.items)
  | giveBack =>
    rename_i row
    have hne : row.chatId ≠ c := fun he => hno _ _ rfl ⟨he, .inr rfl⟩
    apply pendingIn_map
    intro i him hc hp
    split at hp
    · rename_i hg
      have hrow := (hv.kept _ (mem_of_get hi) row rfl).1
      have heq := row_eq hv.distinct him hrow hg.1
      rw [if_pos hg, heq] at hc
      exact absurd hc hne
    · rename_i hg
      rw [if_neg hg] at hc
      exact ⟨hc, hp⟩
  | lose hw => exact Nat.le_refl _
  | finish => exact pendingIn_sublist List.filter_sublist
  | forget hw => exact Nat.le_refl _
  | edit he =>
    rw [pendingIn_slots, pendingIn_slots]
    exact he.slots.countP_le
  | abandon hfn hh hwhy hs => exact Nat.le_of_eq (pendingIn_congr hs.items)
  | strand hfn hwhy hs => exact Nat.le_of_eq (pendingIn_congr hs.items)

end Counting

/-- No step of the server but such an await adds a pending item. -/
theorem pending_step {p p' : Server} {e : ServerEvent} {hands : List Hand} {c : Uuid}
    (hc : transfer.Coupled p hands) (hv : Carried p.shared hands)
    (h : p.fire entry e = some p')
    (hno : ∀ i w, e = .run i w → ∀ x, p.At i x → ¬ Refills c x w) :
    ∃ hands', transfer.Coupled p' hands' ∧ Carried p'.shared hands' ∧
      pendingIn c p'.shared ≤ pendingIn c p.shared := by
  have hk : transfer.Kept (fun s hands => Carried s hands ∧
      pendingIn c s ≤ pendingIn c p.shared) := by
    constructor
    · exact fun _ _ _ _ _ _ => trivial
    · intro s hands i r r' s' hv hi hm
      have hle : pendingIn c s' ≤ pendingIn c s := hm.pending hv.1 hi (by simp)
      exact ⟨hv.1.passes hi hm, Nat.le_trans hle hv.2⟩
    · intro s hands i r tag rc r' hv hi hf
      exact ⟨carried_kept.fork s hands i r tag rc r' hv.1 hi hf, hv.2⟩
  cases e with
  | arrive request =>
    have hv' := hv.arrive request.hand_row
    exact (hk.one _).arrive hc (entry_passes request) ⟨hv', Nat.le_refl _⟩ h
  | run i w =>
    apply (hk.one i).fire hc ⟨hv, Nat.le_refl _⟩ ?_ h
    intro x h h' s' hat hi hm
    refine ⟨hv.passes hi hm, hm.pending hv hi ?_⟩
    rintro _ _ ⟨⟩
    exact hno i w rfl x hat

end AgentGrove
