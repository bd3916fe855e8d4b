import AgentGrove.Logs.Server
import AgentGrove.Model.ChatStream

namespace AgentGrove.Web

open Coop

def StreamEvent.dropped : StreamEvent → Option Nat
  | .agent ev => ev.dropped
  | .retry _ => none

def marker (dropped : Nat) : StreamEvent := .agent (.truncated dropped)

/-- The list that these events make of an empty one. -/
def boundedLog (max : Nat) (events : List StreamEvent) : List StreamEvent :=
  events.foldl (fun log ev => appendEventBounded log ev max) []

section

variable {ev : StreamEvent} {events : List StreamEvent} {max : Nat}

theorem appendEventBounded_short (h : events.length < max) :
    appendEventBounded events ev max = events ++ [ev] := if_pos h

/-- The first eviction takes two events and counts one. -/
theorem appendEventBounded_full (hreal : ∀ e ∈ events, e.dropped = none) (h : max ≤ events.length) :
    appendEventBounded events ev max = marker 1 :: events.tail.tail ++ [ev] := by
  unfold appendEventBounded
  rw [if_neg (Nat.not_lt.mpr h)]
  split
  · have hhead := hreal _ List.mem_cons_self
    cases hhead
  · rfl

theorem appendEventBounded_marked (dropped : Nat) (h : max ≤ events.length + 1) :
    appendEventBounded (marker dropped :: events) ev max = marker (dropped + 1) :: events.tail ++ [ev] :=
  if_neg (Nat.not_lt.mpr h)

/-- The list is the digest of the events that keeps one fewer than its bound, since the
marker has a place of its own. -/
theorem boundedLog_digest (hmax : 2 ≤ max) (h : ∀ e ∈ events, e.dropped = none) :
    boundedLog max events = digest marker max (max - 1) events := by
  have hpos : 0 < max - 1 := by omega
  have hle : max - 1 ≤ max := by omega
  induction events using List.reverseRecOn with
  | nil => exact (digest_short (Nat.zero_le max)).symm
  | append_singleton events ev ih =>
    have hevents : ∀ e ∈ events, e.dropped = none := fun e he => h e (List.mem_append_left _ he)
    have hlog : boundedLog max (events ++ [ev]) =
        appendEventBounded (digest marker max (max - 1) events) ev max := by
      rw [← ih hevents, boundedLog, List.foldl_concat]
      rfl
    rw [hlog]
    rcases Nat.lt_trichotomy events.length max with hl | hl | hl
    · rw [digest_concat_short hl, digest_short (Nat.le_of_lt hl), appendEventBounded_short hl]
    · have hone : latest (max - 1) events = events.tail := by
        have hsub : events.length - (max - 1) = 1 := by omega
        rw [latest, hsub, List.drop_one]
      rw [digest_concat_full hpos hle hl, digest_short (Nat.le_of_eq hl), hone,
        appendEventBounded_full hevents (Nat.le_of_eq hl.symm)]
    · have hkept : max ≤ (latest (max - 1) events).length + 1 := by
        rw [length_latest]
        omega
      rw [digest_concat_long hpos hle hl, digest_long hl, appendEventBounded_marked _ hkept]

end

/-- The list never outgrows its bound and keeps the most recent events in order, but it speaks
for all of them only as long as none has been dropped. -/
theorem client_log_accounts {max : Nat} (hmax : 2 ≤ max) {events : List StreamEvent}
    (hreal : ∀ ev ∈ events, ev.dropped = none) :
    (boundedLog max events).length ≤ max ∧
      (boundedLog max events).filter (fun ev => ev.dropped.isNone) <:+ events ∧
      (account StreamEvent.dropped (boundedLog max events) = events.length ↔ events.length ≤ max) := by
  have hle : max - 1 ≤ max := Nat.sub_le _ _
  have hmark : ∀ k, (marker k).dropped = some k := fun _ => rfl
  have hkeep : ∀ l : List StreamEvent, (∀ ev ∈ l, ev.dropped = none) →
      l.filter (fun ev => ev.dropped.isNone) = l := by
    intro l hl
    apply List.filter_eq_self.mpr
    intro ev hev
    rw [hl ev hev]
    rfl
  rw [boundedLog_digest hmax hreal]
  refine ⟨?_, ?_, ?_⟩
  · rw [length_digest hle]
    split
    · assumption
    · omega
  · by_cases hl : events.length ≤ max
    · rw [digest_short hl, hkeep events hreal]
    · have hlast := latest_suffix (max - 1) events
      rw [digest_long (Nat.lt_of_not_le hl), List.filter_cons_of_neg (by simp [hmark]),
        hkeep _ fun ev hev => hreal ev (hlast.subset hev)]
      exact hlast
  · rw [account_digest hmark hle hreal]
    split
    · simpa using ‹_›
    · omega

theorem client_log_accounts_two :
    (boundedLog 2 [.agent (.token ['a']), .agent (.token ['b'])]).length ≤ 2 ∧
      account StreamEvent.dropped (boundedLog 2 [.agent (.token ['a']), .agent (.token ['b'])]) = 2 := by
  obtain ⟨hlen, -, hall⟩ := @client_log_accounts 2 (by decide)
    [.agent (.token ['a']), .agent (.token ['b'])] (by decide)
  exact ⟨hlen, hall.mpr (by decide)⟩

/-- At the bound of 2 the third event drops two, and the marker counts one. -/
theorem client_log_miscounts : ¬ ∀ (max : Nat) (events : List StreamEvent), 2 ≤ max →
    (∀ ev ∈ events, ev.dropped = none) →
    account StreamEvent.dropped (boundedLog max events) = events.length := by
  intro hclaim
  have h := hclaim 2 [.agent (.token ['a']), .agent (.token ['b']), .agent (.token ['c'])]
    (by decide) (by decide)
  exact absurd h (by decide)

end AgentGrove.Web
