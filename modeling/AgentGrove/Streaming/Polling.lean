import AgentGrove.Coop.Machine
import AgentGrove.Model.Terminal

namespace AgentGrove.Terminal

open Coop

/-- A PTY and a client that polls its history, each time from the total of the time before. -/
structure Polling where
  session : Session
  since : Nat
  /-- The slices of the answers. -/
  returned : List Bytes
  /-- The chunks that the PTY has given, and those it had given at the last poll. -/
  chunks : List Bytes
  seen : List Bytes

inductive PollEvent where
  | read (chunk : Bytes)
  | broadcast
  | readerEnds
  | childEnds
  | kill
  | poll

namespace Polling

def start : Polling where
  session := .spawn
  since := 0
  returned := []
  chunks := []
  seen := []

def answered (σ : Polling) (d : HistoryDelta) : Polling :=
  { σ with since := d.total, returned := σ.returned ++ [d.bytes], seen := σ.chunks }

def step (σ : Polling) : PollEvent → Option Polling
  | .read chunk =>
    (σ.session.append chunk).map (fun s => { σ with session := s, chunks := σ.chunks ++ [chunk] })
  | .broadcast => σ.session.broadcast.map (fun s => { σ with session := s })
  | .readerEnds => σ.session.readerEnds.map (fun s => { σ with session := s })
  | .childEnds => some { σ with session := σ.session.childEnds }
  | .kill => σ.session.kill.map (fun s => { σ with session := s })
  | .poll => (σ.session.historySince σ.since).map σ.answered

def machine : Machine Polling PollEvent := ⟨step⟩

/-- Fewer bytes than the ring holds come between two polls. -/
def Frequent (σ : Polling) : PollEvent → Prop
  | .read chunk =>
    σ.chunks.flatten.length + chunk.length < σ.seen.flatten.length + Session.historyLimit
  | _ => True

instance (σ : Polling) : (e : PollEvent) → Decidable (Frequent σ e)
  | .read _ => inferInstanceAs (Decidable (_ < _))
  | .broadcast | .readerEnds | .childEnds | .kill | .poll => .isTrue trivial

/-- The answers so far are all that had been read at the last of them. -/
def Whole (σ : Polling) : Prop := σ.returned.flatten = σ.seen.flatten

/-- The ring is the newest part of what was read. The client's offset is a length of the
ring, which stops growing when the ring is full, and so do the answers. -/
structure Drifts (σ : Polling) : Prop where
  ring : σ.session.history =
    σ.chunks.flatten.drop (σ.chunks.flatten.length - Session.historyLimit)
  seen : σ.seen.flatten <+: σ.chunks.flatten
  since : σ.since = min σ.seen.flatten.length Session.historyLimit
  returned : σ.returned.flatten.length = σ.since
  whole : σ.seen.flatten.length ≤ Session.historyLimit → σ.Whole

section Steps

variable {s s' : Session} {σ σ' : Polling} {chunk all : Bytes}

/-- A full ring gives up as much as comes in. -/
theorem newest_append {α : Type} (limit : Nat) (all chunk : List α) :
    (if limit < (all.drop (all.length - limit) ++ chunk).length then
      (all.drop (all.length - limit) ++ chunk).drop
        ((all.drop (all.length - limit) ++ chunk).length - limit)
      else all.drop (all.length - limit) ++ chunk) =
    (all ++ chunk).drop ((all ++ chunk).length - limit) := by
  have hkept : all.drop (all.length - limit) ++ chunk = (all ++ chunk).drop (all.length - limit) :=
    (List.drop_append_of_le_length (Nat.sub_le _ _)).symm
  simp only [hkept, List.length_drop, List.length_append, List.drop_drop]
  split
  all_goals
    congr 1
    omega

theorem append_ring (h : s.append chunk = some s')
    (hring : s.history = all.drop (all.length - Session.historyLimit)) :
    s'.history = (all ++ chunk).drop ((all ++ chunk).length - Session.historyLimit) := by
  unfold Session.append at h
  split at h
  · cases h
    dsimp only
    rw [hring, newest_append]
  · cases h

theorem Drifts.held (h : Drifts σ) : σ.session.history.length =
    min σ.chunks.flatten.length Session.historyLimit := by
  rw [h.ring, List.length_drop]
  omega

/-- A step that touches neither the ring nor the client. -/
theorem Drifts.aside (h : Drifts σ) (hs : s'.history = σ.session.history) :
    Drifts { σ with session := s' } :=
  ⟨hs.trans h.ring, h.seen, h.since, h.returned, h.whole⟩

theorem Drifts.read (h : Drifts σ) (happ : σ.session.append chunk = some s') :
    Drifts { σ with session := s', chunks := σ.chunks ++ [chunk] } := by
  have hall : (σ.chunks ++ [chunk]).flatten = σ.chunks.flatten ++ chunk := by simp
  refine ⟨?_, ?_, h.since, h.returned, h.whole⟩
  · dsimp only
    rw [hall]
    exact append_ring happ h.ring
  · dsimp only
    rw [hall]
    exact h.seen.trans (List.prefix_append _ _)

/-- An answer is as long as the ring has grown. As long as nothing has left the ring, it is
what was read since the answer before. -/
theorem Drifts.poll {d : HistoryDelta} (h : Drifts σ) (hd : σ.session.historySince σ.since = some d) :
    Drifts (σ.answered d) := by
  have hgrown : σ.seen.flatten.length ≤ σ.chunks.flatten.length := h.seen.length_le
  have hsince : σ.since ≤ σ.session.history.length := by
    rw [h.since, h.held]
    omega
  unfold Session.historySince at hd
  split at hd
  · cases hd
    have hbytes : (if σ.since ≥ σ.session.history.length then []
        else σ.session.history.drop σ.since) = σ.session.history.drop σ.since := by
      split
      · rename_i hpast
        exact (List.drop_eq_nil_of_le hpast).symm
      · rfl
    simp only [hbytes]
    refine ⟨h.ring, List.prefix_rfl, h.held, ?_, fun (hroom : σ.chunks.flatten.length ≤ _) => ?_⟩
    · simp only [answered, List.flatten_append, List.flatten_singleton, List.length_append,
        List.length_drop, h.returned]
      omega
    · have hall : σ.session.history = σ.chunks.flatten := by
        rw [h.ring, Nat.sub_eq_zero_of_le hroom, List.drop_zero]
      have hold : σ.seen.flatten.length ≤ Session.historyLimit := Nat.le_trans hgrown hroom
      obtain ⟨new, hnew⟩ := h.seen
      have hwhole : σ.returned.flatten = σ.seen.flatten := h.whole hold
      have hoffset : σ.since = σ.seen.flatten.length := by
        rw [h.since]
        exact Nat.min_eq_left hold
      simp only [Whole, answered, List.flatten_append, List.flatten_singleton, hall, hwhole,
        ← hnew, hoffset, List.drop_left]
  · cases hd

theorem history_of_broadcast (h : s.broadcast = some s') : s'.history = s.history := by
  unfold Session.broadcast at h
  split at h
  · cases h
    rfl
  · cases h

theorem Drifts.step {e : PollEvent} (h : Drifts σ) (hs : σ.step e = some σ') : Drifts σ' := by
  cases e with
  | read chunk =>
    obtain ⟨s', happ, rfl⟩ := Option.map_eq_some_iff.mp hs
    exact h.read happ
  | broadcast =>
    obtain ⟨s', hsend, rfl⟩ := Option.map_eq_some_iff.mp hs
    exact h.aside (history_of_broadcast hsend)
  | readerEnds =>
    obtain ⟨s', hend, rfl⟩ := Option.map_eq_some_iff.mp hs
    unfold Session.readerEnds at hend
    split at hend
    · cases hend
      exact h.aside rfl
    · cases hend
  | childEnds =>
    cases hs
    exact h.aside rfl
  | kill =>
    obtain ⟨s', hkill, rfl⟩ := Option.map_eq_some_iff.mp hs
    unfold Session.kill at hkill
    split at hkill
    · cases hkill
      exact h.aside rfl
    · cases hkill
  | poll =>
    obtain ⟨d, hd, rfl⟩ := Option.map_eq_some_iff.mp hs
    exact h.poll hd

theorem Drifts.start : Drifts start :=
  ⟨rfl, List.prefix_rfl, rfl, rfl, fun _ => rfl⟩

theorem drifts_reached {good : Polling → PollEvent → Prop} (h : machine.Reaches good Polling.start σ) :
    Drifts σ :=
  h.keeps .start fun _ _ _ hd _ hs => hd.step hs

/-- More has been read than the answers can ever amount to. -/
theorem Drifts.short (h : Drifts σ) (hfull : Session.historyLimit < σ.seen.flatten.length) :
    ¬ σ.Whole := by
  intro hwhole
  have hlen := congrArg List.length hwhole
  rw [h.returned, h.since] at hlen
  omega

end Steps

/-- However often the client polls, what it gets is the output just as long as all the output
has room in the ring. -/
theorem polls_whole_iff {σ : Polling} (h : machine.Reaches Frequent start σ) :
    σ.Whole ↔ σ.seen.flatten.length ≤ Session.historyLimit := by
  have hd := drifts_reached h
  refine ⟨fun hwhole => ?_, hd.whole⟩
  by_contra hfull
  exact hd.short (Nat.lt_of_not_le hfull) hwhole

def greeted : Polling :=
  (machine.play Frequent start [.poll, .read [104], .poll, .broadcast, .read [105, 33], .poll, .poll]).get
    (by decide)

theorem polls_whole_iff_greeted : machine.Reaches Frequent start greeted ∧
    greeted.returned = [[], [104], [105, 33], []] ∧
    (greeted.Whole ↔ greeted.seen.flatten.length ≤ Session.historyLimit) := by
  have hr : machine.Reaches Frequent start greeted := Machine.play_reaches (Option.some_get _).symm
  exact ⟨hr, by decide, polls_whole_iff hr⟩

/-- A chunk that has been read, broadcast and polled. -/
theorem round_reached {σ : Polling} {b : Bytes} (hr : machine.Reaches Frequent start σ)
    (hreader : σ.session.reader = .read) (hlisted : σ.session.listed = true)
    (hseen : σ.seen = σ.chunks) (hne : b ≠ []) (hsize : b.length ≤ Session.bufferSize) :
    ∃ σ', machine.Reaches Frequent start σ' ∧ σ'.session.reader = .read ∧
      σ'.session.listed = true ∧ σ'.seen = σ'.chunks ∧ σ'.chunks = σ.chunks ++ [b] := by
  obtain ⟨s, happ, hl, hsend⟩ : ∃ s, σ.session.append b = some s ∧ s.listed = true ∧
      s.broadcast = some { s with output := s.output.send b, reader := .read } :=
    ⟨_, if_pos ⟨hreader, hne, hsize⟩, hlisted, rfl⟩
  obtain ⟨σ₁, hread, hs₁, hc₁⟩ : ∃ σ₁, machine.step σ (.read b) = some σ₁ ∧ σ₁.session = s ∧
      σ₁.chunks = σ.chunks ++ [b] := by
    refine ⟨{ σ with session := s, chunks := σ.chunks ++ [b] }, ?_, rfl, rfl⟩
    simp only [machine, step, happ, Option.map_some]
  obtain ⟨σ₂, hcast, hr₂, hl₂, hc₂⟩ : ∃ σ₂, machine.step σ₁ .broadcast = some σ₂ ∧
      σ₂.session.reader = .read ∧ σ₂.session.listed = true ∧ σ₂.chunks = σ₁.chunks := by
    refine ⟨{ σ₁ with session := { s with output := s.output.send b, reader := .read } }, ?_, rfl, hl, rfl⟩
    simp only [machine, step, hs₁, hsend, Option.map_some]
  obtain ⟨σ₃, hpoll, hs₃, hc₃, hseen₃⟩ : ∃ σ₃, machine.step σ₂ .poll = some σ₃ ∧
      σ₃.session = σ₂.session ∧ σ₃.chunks = σ₂.chunks ∧ σ₃.seen = σ₂.chunks := by
    obtain ⟨d, hd⟩ : ∃ d, σ₂.session.historySince σ₂.since = some d := ⟨_, if_pos hl₂⟩
    refine ⟨σ₂.answered d, ?_, rfl, rfl, rfl⟩
    simp only [machine, step, hd, Option.map_some]
  have hfrequent : Frequent σ (.read b) := by
    have hfits : Session.bufferSize < Session.historyLimit := by decide
    simp only [Frequent, hseen]
    omega
  refine ⟨σ₃, ((hr.tail ⟨.read b, hfrequent, hread⟩).tail ⟨.broadcast, trivial, hcast⟩).tail
    ⟨.poll, trivial, hpoll⟩, ?_, ?_, ?_, ?_⟩
  · rw [hs₃, hr₂]
  · rw [hs₃, hl₂]
  · rw [hseen₃, hc₃]
  · rw [hc₃, hc₂, hc₁]

theorem rounds_reached (n : Nat) : ∃ σ, machine.Reaches Frequent start σ ∧
    σ.session.reader = .read ∧ σ.session.listed = true ∧ σ.seen = σ.chunks ∧
    σ.chunks.flatten.length = n * Session.bufferSize := by
  induction n with
  | zero => exact ⟨start, .refl, rfl, rfl, rfl, (Nat.zero_mul _).symm⟩
  | succ n ih =>
    obtain ⟨σ, hr, hreader, hlisted, hseen, hlen⟩ := ih
    obtain ⟨b, hb⟩ : ∃ b : Bytes, b.length = Session.bufferSize :=
      ⟨List.replicate Session.bufferSize 0, List.length_replicate⟩
    have hne : b ≠ [] := List.ne_nil_of_length_pos (by rw [hb]; decide)
    obtain ⟨σ', hr', hreader', hlisted', hseen', hall⟩ :=
      round_reached hr hreader hlisted hseen hne (Nat.le_of_eq hb)
    refine ⟨σ', hr', hreader', hlisted', hseen', ?_⟩
    rw [hall, List.flatten_append, List.flatten_singleton, List.length_append, hlen, hb, Nat.succ_mul]

/-- Once the ring is full, a client that polls as often as it likes gets nothing more. -/
theorem polls_end_when_full : ¬ ∀ σ, machine.Reaches Frequent start σ → σ.Whole := by
  intro hall
  obtain ⟨σ, hr, -, -, hseen, hlen⟩ := rounds_reached 49
  refine (drifts_reached hr).short ?_ (hall σ hr)
  rw [hseen, hlen]
  decide

end Polling

end AgentGrove.Terminal
