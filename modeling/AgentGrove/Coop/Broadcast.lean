import Mathlib.Data.List.Perm.Basic
import Mathlib.Tactic.Common

namespace Coop

section Window

variable {α : Type}

/-- Push onto a buffer that gives up its oldest entry once it is full. -/
def pushBounded (capacity : Nat) (buffer : List α) (a : α) : List α :=
  (if buffer.length ≥ capacity then buffer.tail else buffer) ++ [a]

/-- A bounded buffer holds the newest part of everything pushed. -/
theorem pushBounded_suffix {capacity : Nat} {buffer all : List α} (h : buffer <:+ all) (a : α) :
    pushBounded capacity buffer a <:+ all ++ [a] := by
  have hb : (if buffer.length ≥ capacity then buffer.tail else buffer) <:+ all := by
    split
    · exact (List.tail_suffix buffer).trans h
    · exact h
  obtain ⟨older, ho⟩ := hb
  exact ⟨older, by rw [pushBounded, ← ho, List.append_assoc]⟩

theorem suffix_eq_drop {l all : List α} (h : l <:+ all) : l = all.drop (all.length - l.length) := by
  obtain ⟨older, rfl⟩ := h
  simp

/-- Two readers of one sequence without repetitions agree on the order of what
both have read. -/
theorem common_order [DecidableEq α] {l l' all : List α} (hd : all.Nodup) (hl : l.Sublist all)
    (hl' : l'.Sublist all) : l.filter (fun m => m ∈ l') = l'.filter (fun m => m ∈ l) := by
  have hs : (l.filter (fun m => m ∈ l')).Sublist all := List.filter_sublist.trans hl
  have hs' : (l'.filter (fun m => m ∈ l)).Sublist all := List.filter_sublist.trans hl'
  apply (hd.perm_iff_eq_of_sublist hs hs').mp
  apply (List.perm_ext_iff_of_nodup (hd.sublist hs) (hd.sublist hs')).mpr
  intro m
  simp only [List.mem_filter, decide_eq_true_eq]
  exact and_comm

end Window

/-- A broadcast channel: all messages ever sent, of which a receiver can still
get the newest `capacity`. -/
structure Channel (α : Type) where
  capacity : Nat
  sent : List α := []

/-- The number of the next message a receiver is due. -/
structure Receiver where
  next : Nat
deriving DecidableEq

inductive RecvError where
  | closed
  | lagged (missed : Nat)
deriving DecidableEq

namespace Channel

variable {α : Type}

def subscribe (c : Channel α) : Receiver := ⟨c.sent.length⟩

def send (c : Channel α) (a : α) : Channel α := { c with sent := c.sent ++ [a] }

/-- A receiver that fell behind is told so once and moved to the oldest message
still kept. With nothing new the call waits, so there is no result yet. -/
def recv (c : Channel α) (r : Receiver) : Option (Except RecvError α × Receiver) :=
  if r.next + c.capacity < c.sent.length then
    some (.error (.lagged (c.sent.length - c.capacity - r.next)), ⟨c.sent.length - c.capacity⟩)
  else
    c.sent[r.next]?.map (fun a => (.ok a, ⟨r.next + 1⟩))

@[simp] theorem send_capacity (c : Channel α) (a : α) : (c.send a).capacity = c.capacity := rfl

@[simp] theorem send_sent (c : Channel α) (a : α) : (c.send a).sent = c.sent ++ [a] := rfl

@[simp] theorem subscribe_next (c : Channel α) : c.subscribe.next = c.sent.length := rfl

/-- What `recv` hands out is the next message, and the receiver moves past it. -/
theorem recv_ok {c : Channel α} {r r' : Receiver} {a : α} (h : c.recv r = some (.ok a, r')) :
    c.sent.drop r.next = a :: c.sent.drop r'.next ∧ r'.next ≤ c.sent.length := by
  unfold recv at h
  split at h
  · cases h
  · obtain ⟨b, hb, he⟩ := Option.map_eq_some_iff.mp h
    obtain ⟨hl, hg⟩ := List.getElem?_eq_some_iff.mp hb
    cases he
    exact ⟨by rw [List.drop_eq_getElem_cons hl, hg], hl⟩

theorem recv_lagged {c : Channel α} {r r' : Receiver} {n : Nat}
    (h : c.recv r = some (.error (.lagged n), r')) : r.next + c.capacity < c.sent.length := by
  unfold recv at h
  split at h
  · assumption
  · obtain ⟨b, hb, he⟩ := Option.map_eq_some_iff.mp h
    cases he

theorem recv_none {c : Channel α} {r : Receiver} (h : c.recv r = none) : c.sent.drop r.next = [] := by
  unfold recv at h
  split at h
  · cases h
  · rw [List.drop_eq_nil_iff, ← List.getElem?_eq_none_iff]
    exact Option.map_eq_none_iff.mp h

/-- The channel outlives its receivers here: a sender is always kept. -/
theorem recv_not_closed {c : Channel α} {r r' : Receiver} :
    c.recv r ≠ some (.error .closed, r') := by
  intro h
  unfold recv at h
  split at h
  · cases h
  · obtain ⟨b, hb, he⟩ := Option.map_eq_some_iff.mp h
    cases he

end Channel

end Coop
