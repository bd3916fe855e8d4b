import AgentGrove.Streaming.Polling
import AgentGrove.Streaming.Terminal
import Mathlib.Data.List.Infix

namespace AgentGrove.Terminal

open Coop

/-- All that the reader has appended. -/
def Session.printed (s : Session) : Bytes := s.output.sent.flatten ++ s.hand

/-- Where in the output the next chunk for a receiver begins. -/
def Session.offset (s : Session) (rx : Receiver) : Nat := (s.output.sent.take rx.next).flatten.length

/-- This frame is a piece of the output, with its byte `i` in it. -/
def Shows (all : Bytes) (i : Nat) (f : Frame) : Prop :=
  ∃ a, a ≤ i ∧ i < a + f.bytes.length ∧ f.bytes <+: all.drop a

def Shown (all : Bytes) (i : Nat) (frames : List Frame) : Prop := ∃ f ∈ frames, Shows all i f

theorem Shows.mono {all all' : Bytes} {i : Nat} {f : Frame} (h : Shows all i f) (hall : all <+: all') :
    Shows all' i f := by
  obtain ⟨a, hle, hlt, hpre⟩ := h
  exact ⟨a, hle, hlt, hpre.trans (List.IsPrefix.drop hall a)⟩

theorem Shown.mono {all all' : Bytes} {i : Nat} {frames frames' : List Frame} (h : Shown all i frames)
    (hall : all <+: all') (hf : frames ⊆ frames') : Shown all' i frames' := by
  obtain ⟨f, hm, hs⟩ := h
  exact ⟨f, hf hm, hs.mono hall⟩

theorem Shows.byte {all : Bytes} {i : Nat} {f : Frame} (h : Shows all i f) : ∃ b ∈ f.bytes, all[i]? = some b := by
  obtain ⟨a, hle, hlt, later, hl⟩ := h
  have hi : i - a < f.bytes.length := by omega
  refine ⟨f.bytes[i - a], List.getElem_mem hi, ?_⟩
  have hget : (f.bytes ++ later)[i - a]? = some f.bytes[i - a] := by
    rw [List.getElem?_append_left hi, List.getElem?_eq_getElem hi]
  rw [hl, List.getElem?_drop, Nat.add_sub_cancel' hle] at hget
  exact hget

/-- A connection, with the places in the output where its first copy of the history began
and where the last piece ended that it has taken. -/
structure View where
  socket : Socket
  first : Nat
  reached : Nat

/-- It has taken a chunk from its receiver. -/
def Site.takes : Site → Bool
  | .forward _ | .tail _ => true
  | _ => false

def Site.copies : Site → Bool
  | .snapshot | .resnapshot => true
  | _ => false

def View.onward (s : Session) (v : View) (t : Socket) : View where
  socket := t
  first := if v.socket.site = .snapshot then s.printed.length - s.history.length else v.first
  reached :=
    if v.socket.site.copies then s.printed.length
    else if t.site.takes then max v.reached (s.offset t.rx)
    else v.reached

/-- A PTY, with how much it had appended when it exited, and the connections to it. -/
structure Closing where
  session : Session
  ended : Option Nat
  views : List View

namespace Closing

def start : Closing := ⟨.spawn, none, []⟩

def turn (σ : Closing) (s : Session) : Closing :=
  { σ with
    session := s
    ended := if s.exited then some (σ.ended.getD s.printed.length) else σ.ended }

def step (σ : Closing) : ConsoleEvent → Option Closing
  | .read chunk => (σ.session.append chunk).map σ.turn
  | .broadcast => σ.session.broadcast.map σ.turn
  | .readerEnds => σ.session.readerEnds.map σ.turn
  | .childEnds => some (σ.turn σ.session.childEnds)
  | .kill => σ.session.kill.map σ.turn
  | .attach => some { σ with views := σ.views ++ [⟨.attach σ.session, 0, 0⟩] }
  | .wake j w => do
    let v ← σ.views[j]?
    let t ← v.socket.wake σ.session w
    return { σ with views := σ.views.set j (v.onward σ.session t) }

def machine : Machine Closing ConsoleEvent := ⟨step⟩

/-- A client that is told of the exit has been sent all that had been appended before it,
from where its first copy of the history began. -/
def NothingLost (σ : Closing) : Prop :=
  ∀ v ∈ σ.views, ∀ sent, sent ++ [.text .exited] <+: v.socket.out →
    ∃ e ∈ σ.ended, ∀ i, v.first ≤ i → i < e → Shown σ.session.printed i sent

/-- The shell has exited, with no more output than this before. -/
def EndedBy (ended : Option Nat) (n : Nat) : Prop := ∃ e ∈ ended, e ≤ n

instance (ended : Option Nat) (n : Nat) : Decidable (EndedBy ended n) :=
  inferInstanceAs (Decidable (∃ e ∈ ended, e ≤ n))

/-- A shell is found gone only when all that is owed is one queued chunk at most, or after
the replay none. After a lag the ring still has all that is owed, and the session is there. -/
def Flushed (s : Session) (ended : Option Nat) (v : View) : Wake → Prop
  | .copied => v.socket.site = .resnapshot →
      EndedBy ended v.reached ∨ s.printed.length - s.history.length ≤ v.reached
  | .sent ok => v.socket.site.replays = true → ok = true → s.isExited = true → EndedBy ended v.reached
  | .recv => v.socket.rx.next + s.output.capacity < s.output.sent.length → s.listed = false →
      EndedBy ended v.reached
  | .tick => s.isExited = true → EndedBy ended v.reached ∨
      s.output.sent.length ≤ v.socket.rx.next + s.output.capacity ∧
        EndedBy ended (s.offset ⟨v.socket.rx.next + 1⟩)
  | .client _ => True

def Careful (σ : Closing) : ConsoleEvent → Prop
  | .wake j w => ∀ v ∈ σ.views[j]?, Flushed σ.session σ.ended v w
  | _ => True

instance (s : Session) (ended : Option Nat) (v : View) : (w : Wake) → Decidable (Flushed s ended v w)
  | .copied | .sent _ | .recv | .tick => inferInstanceAs (Decidable (_ → _))
  | .client _ => .isTrue trivial

instance (σ : Closing) : (e : ConsoleEvent) → Decidable (Careful σ e)
  | .wake j w => inferInstanceAs (Decidable (∀ v ∈ σ.views[j]?, Flushed σ.session σ.ended v w))
  | .read _ | .broadcast | .readerEnds | .childEnds | .kill | .attach => .isTrue trivial

/-- Up to where it has taken output, a client that has been sent these frames lacks nothing
of what was appended before the exit. -/
def Gives (s : Session) (ended : Option Nat) (v : View) (frames : List Frame) : Prop :=
  ∀ i, v.first ≤ i → i < v.reached → (∀ e ∈ ended, i < e) → Shown s.printed i frames

/-- The receiver is not past what the client has taken. -/
def Follows (s : Session) (ended : Option Nat) (v : View) : Prop :=
  ∀ i, i < s.offset v.socket.rx → (∀ e ∈ ended, i < e) → i < v.reached

def Complete (s : Session) (ended : Option Nat) (v : View) (sent : List Frame) : Prop :=
  ∃ e ∈ ended, ∀ i, v.first ≤ i → i < e → Shown s.printed i sent

/-- How a connection stands to what it owes, where it is. -/
def Owes (s : Session) (ended : Option Nat) (v : View) : Prop :=
  match v.socket.site with
  | .snapshot => True
  | .resnapshot => Gives s ended v v.socket.out
  | .replay b | .forward b | .resync b =>
    Gives s ended v (v.socket.out ++ [.binary b]) ∧ Follows s ended v
  | .select => Gives s ended v v.socket.out ∧ Follows s ended v
  | .tail b => Gives s ended v (v.socket.out ++ [.binary b]) ∧ EndedBy ended v.reached
  | .farewell .exited => v.socket.broken = false → Gives s ended v v.socket.out ∧ EndedBy ended v.reached
  | .farewell .noSuchTerminal => True
  | .closed => ∀ sent, sent ++ [.text .exited] <+: v.socket.out → Complete s ended v sent

/-- The invariant of a connection. -/
structure Attends (s : Session) (ended : Option Nat) (v : View) : Prop where
  owes : Owes s ended v
  rx : v.socket.rx.next ≤ s.output.sent.length
  told : .text .exited ∈ v.socket.out → v.socket.site = .closed
  broken : v.socket.broken = true → v.socket.site.ending = true

/-- The invariant of a session and of what is known of its end. -/
structure Timed (s : Session) (ended : Option Nat) : Prop where
  ring : s.history = s.printed.drop (s.printed.length - Session.historyLimit)
  known : ended.isSome = s.exited
  bounded : ∀ e ∈ ended, e ≤ s.printed.length
  unlisted : s.listed = false → s.exited = true

/-- The session went on. -/
structure Prints (s s' : Session) : Prop where
  printed : s.printed <+: s'.printed
  sent : s.output.sent <+: s'.output.sent

section Steps

variable {s s' : Session} {ended ended' : Option Nat} {v : View} {t t' : Socket}
  {frames frames' : List Frame} {b chunk : Bytes} {rx : Receiver}

theorem offset_kept (hrx : rx.next ≤ s.output.sent.length) (h : s.output.sent <+: s'.output.sent) :
    s'.offset rx = s.offset rx := by
  obtain ⟨later, hl⟩ := h
  simp only [Session.offset, ← hl, List.take_append_of_le_length hrx]

theorem offset_le_sent (s : Session) (rx : Receiver) : s.offset rx ≤ s.output.sent.flatten.length := by
  have hsplit : s.output.sent.flatten.length =
      s.offset rx + (s.output.sent.drop rx.next).flatten.length := by
    rw [Session.offset, ← List.length_append, ← List.flatten_append, List.take_append_drop]
  omega

theorem offset_le (s : Session) (rx : Receiver) : s.offset rx ≤ s.printed.length := by
  have hsent := offset_le_sent s rx
  rw [Session.printed, List.length_append]
  omega

/-- A chunk that a receiver gets is the output from where it stands. -/
theorem offset_recv (h : s.output.sent.drop rx.next = b :: s.output.sent.drop (rx.next + 1)) :
    s.offset ⟨rx.next + 1⟩ = s.offset rx + b.length ∧ b <+: s.printed.drop (s.offset rx) := by
  have htake : s.output.sent.take (rx.next + 1) = s.output.sent.take rx.next ++ [b] := by
    have hget : s.output.sent[rx.next]? = some b := by
      rw [← List.head?_drop, h, List.head?_cons]
    rw [List.take_add_one, hget]
    rfl
  refine ⟨?_, ?_⟩
  · simp only [Session.offset, htake, List.flatten_append, List.flatten_singleton, List.length_append]
  · have hsplit : s.printed = (s.output.sent.take rx.next).flatten ++
        (b ++ ((s.output.sent.drop (rx.next + 1)).flatten ++ s.hand)) := by
      rw [Session.printed, ← List.append_assoc b, ← List.flatten_cons, ← h, ← List.append_assoc,
        ← List.flatten_append, List.take_append_drop]
    rw [hsplit, Session.offset, List.drop_left]
    exact List.prefix_append _ _

theorem Gives.mono (h : Gives s ended v frames) (hp : s.printed <+: s'.printed)
    (hb : ∀ e ∈ ended, e ∈ ended') (hf : frames ⊆ frames') : Gives s' ended' v frames' :=
  fun i hi hr he => (h i hi hr fun e hm => he e (hb e hm)).mono hp hf

theorem EndedBy.mono {n : Nat} (h : EndedBy ended n) (hb : ∀ e ∈ ended, e ∈ ended') : EndedBy ended' n := by
  obtain ⟨e, he, hr⟩ := h
  exact ⟨e, hb e he, hr⟩

/-- The session went on as far as a connection is concerned. -/
theorem Attends.session (h : Attends s ended v) (hp : Prints s s') (hb : ∀ e ∈ ended, e ∈ ended') :
    Attends s' ended' v := by
  have hgive : ∀ {frames}, Gives s ended v frames → Gives s' ended' v frames :=
    fun hg => hg.mono hp.printed hb (List.Subset.refl _)
  have hfollow : Follows s ended v → Follows s' ended' v := by
    intro hf i hi he
    rw [offset_kept h.rx hp.sent] at hi
    exact hf i hi fun e hm => he e (hb e hm)
  refine ⟨?_, Nat.le_trans h.rx hp.sent.length_le, h.told, h.broken⟩
  have ho := h.owes
  unfold Owes at ho ⊢
  split at ho
  · trivial
  · exact hgive ho
  · exact ⟨hgive ho.1, hfollow ho.2⟩
  · exact ⟨hgive ho.1, hfollow ho.2⟩
  · exact ⟨hgive ho.1, hfollow ho.2⟩
  · exact ⟨hgive ho.1, hfollow ho.2⟩
  · exact ⟨hgive ho.1, ho.2.mono hb⟩
  · exact fun hw => ⟨hgive (ho hw).1, (ho hw).2.mono hb⟩
  · trivial
  · intro sent hs
    obtain ⟨e, he, hall⟩ := ho sent hs
    exact ⟨e, hb e he, fun i hi hie => (hall i hi hie).mono hp.printed (List.Subset.refl _)⟩

/-- The ring is the newest part of the output, and a client that is sent all of it lacks
nothing if it has taken all that came before. -/
theorem Gives.copied (ht : Timed s ended) (h : Gives s ended v frames)
    (hgap : EndedBy ended v.reached ∨ s.printed.length - s.history.length ≤ v.reached) :
    Gives s ended { v with reached := s.printed.length } (frames ++ [.binary s.history]) := by
  intro i hi hlt he
  by_cases hold : i < v.reached
  · exact (h i hi hold he).mono List.prefix_rfl (List.subset_append_left _ _)
  rcases hgap with ⟨e, hm, hr⟩ | hfront
  · exact absurd (Nat.lt_of_lt_of_le (he e hm) hr) hold
  refine ⟨.binary s.history, List.mem_append_right _ (List.mem_singleton.mpr rfl),
    s.printed.length - s.history.length, Nat.le_trans hfront (Nat.le_of_not_lt hold), ?_, ?_⟩
  · dsimp only at hlt
    simp only [Frame.bytes]
    omega
  · have hlen : s.printed.length - s.history.length = s.printed.length - Session.historyLimit := by
      rw [ht.ring, List.length_drop]
      omega
    simp only [Frame.bytes, hlen]
    rw [← ht.ring]

/-- A chunk that is handed on brings its client on to the end of it. -/
theorem Gives.taken (h : Gives s ended v frames) (hf : Follows s ended v)
    (hb : s.output.sent.drop v.socket.rx.next = b :: s.output.sent.drop (v.socket.rx.next + 1)) :
    Gives s ended { v with reached := max v.reached (s.offset ⟨v.socket.rx.next + 1⟩) }
      (frames ++ [.binary b]) := by
  obtain ⟨hoffset, hpre⟩ := offset_recv hb
  intro i hi hlt he
  by_cases hold : i < v.reached
  · exact (h i hi hold he).mono List.prefix_rfl (List.subset_append_left _ _)
  have hstart : s.offset v.socket.rx ≤ i := Nat.le_of_not_lt fun hb => hold (hf i hb he)
  refine ⟨.binary b, List.mem_append_right _ (List.mem_singleton.mpr rfl), s.offset v.socket.rx,
    hstart, ?_, hpre⟩
  dsimp only at hlt
  simp only [Frame.bytes]
  omega

theorem Timed.over (ht : Timed s ended) (h : s.isExited = true) : EndedBy ended s.printed.length := by
  have hexited : s.exited = true := by
    simp only [Session.isExited, Bool.or_eq_true, Bool.not_eq_true'] at h
    rcases h with hl | he
    · exact ht.unlisted hl
    · exact he
  obtain ⟨e, he⟩ := Option.isSome_iff_exists.mp (ht.known.trans hexited)
  exact ⟨e, he, ht.bounded e he⟩

theorem Attends.unbroken (h : Attends s ended v) (hsite : v.socket.site.ending = false) :
    v.socket.broken = false := by
  rw [Bool.eq_false_iff]
  intro hb
  rw [h.broken hb] at hsite
  cases hsite

theorem Attends.untold (h : Attends s ended v) (hsite : v.socket.site ≠ .closed) :
    .text .exited ∉ v.socket.out :=
  fun hm => hsite (h.told hm)

/-- From the replay into the loop, or past it. -/
theorem Attends.enter (hgive : Gives s ended v v.socket.out) (hfollow : Follows s ended v)
    (hover : s.isExited = true → EndedBy ended v.reached) (hrx : v.socket.rx.next ≤ s.output.sent.length)
    (hout : .text .exited ∉ v.socket.out) (hb : v.socket.broken = false) :
    Attends s ended { v with socket := v.socket.enter s } := by
  cases hexit : s.isExited with
  | true =>
    have he : v.socket.enter s = { v.socket with site := .farewell .exited } := by
      simp [Socket.enter, hexit]
    rw [he]
    exact ⟨fun _ => ⟨hgive, hover hexit⟩, hrx, fun hm => absurd hm hout, fun _ => rfl⟩
  | false =>
    have he : v.socket.enter s = { v.socket with site := .select } := by
      simp [Socket.enter, hexit]
    rw [he]
    exact ⟨⟨hgive, hfollow⟩, hrx, fun hm => absurd hm hout,
      fun hb' => absurd (hb.symm.trans hb') (by simp)⟩

/-- The first copy of the history. -/
theorem Attends.copied (h : Attends s ended v) (ht : Timed s ended) (hsite : v.socket.site = .snapshot) :
    Attends s ended (v.onward s (v.socket.replay s)) := by
  have hb := h.unbroken (by rw [hsite]; rfl)
  have hout := h.untold (by simp [hsite])
  have he : v.onward s (v.socket.replay s) =
      ⟨v.socket.replay s, s.printed.length - s.history.length, s.printed.length⟩ := by
    simp [View.onward, hsite, Site.copies]
  rw [he]
  have hfollow : ∀ t : Socket, Follows s ended
      ⟨t, s.printed.length - s.history.length, s.printed.length⟩ :=
    fun t i hi _ => Nat.lt_of_lt_of_le hi (offset_le s t.rx)
  have hgive : Gives s ended ⟨v.socket, s.printed.length - s.history.length,
      s.printed.length - s.history.length⟩ v.socket.out :=
    fun i hi hlt _ => absurd hlt (Nat.not_lt.mpr hi)
  have hheld := hgive.copied ht (.inr (Nat.le_refl _))
  unfold Socket.replay
  split
  · rename_i hempty
    refine .enter (v := ⟨v.socket, s.printed.length - s.history.length, s.printed.length⟩)
      (fun i hi hlt _ => ?_) (hfollow _) ht.over h.rx hout hb
    rw [List.isEmpty_iff.mp hempty] at hi
    exact absurd hlt (Nat.not_lt.mpr hi)
  · exact ⟨⟨hheld, hfollow _⟩, h.rx, fun hm => absurd hm hout,
      fun hb' => absurd (hb.symm.trans hb') (by simp)⟩

/-- The copy after a lag. -/
theorem Attends.recopied (h : Attends s ended v) (ht : Timed s ended) (hsite : v.socket.site = .resnapshot)
    (hgap : EndedBy ended v.reached ∨ s.printed.length - s.history.length ≤ v.reached) :
    Attends s ended (v.onward s (v.socket.resync s)) := by
  have hb := h.unbroken (by rw [hsite]; rfl)
  have hout := h.untold (by simp [hsite])
  have hg : Gives s ended v v.socket.out := by simpa only [Owes, hsite] using h.owes
  have hheld := hg.copied ht hgap
  have he : v.onward s (v.socket.resync s) =
      { v with socket := v.socket.resync s, reached := s.printed.length } := by
    simp [View.onward, hsite, Site.copies]
  rw [he]
  have hfollow : ∀ t : Socket, Follows s ended { v with socket := t, reached := s.printed.length } :=
    fun t i hi _ => Nat.lt_of_lt_of_le hi (offset_le s t.rx)
  unfold Socket.resync
  split
  · rename_i hempty
    have hnothing : s.printed.length ≤ v.reached ∨ EndedBy ended v.reached := by
      rw [List.isEmpty_iff.mp hempty] at hgap
      exact hgap.symm
    refine ⟨⟨fun i hi hlt he => ?_, hfollow _⟩, h.rx, fun hm => absurd hm hout,
      fun hb' => absurd (hb.symm.trans hb') (by simp)⟩
    rcases hnothing with hall | ⟨e, hm, hr⟩
    · exact hg i hi (Nat.lt_of_lt_of_le hlt hall) he
    · exact hg i hi (Nat.lt_of_lt_of_le (he e hm) hr) he
  · exact ⟨⟨hheld, hfollow _⟩, h.rx, fun hm => absurd hm hout,
      fun hb' => absurd (hb.symm.trans hb') (by simp)⟩

/-- A connection that ends before its client is told of an exit. -/
theorem Attends.closes (h : Attends s ended v) (hout : t.out = v.socket.out) (hrx : t.rx = v.socket.rx)
    (hsite : t.site = .closed) (hopen : v.socket.site ≠ .closed) :
    Attends s ended { v with socket := t } := by
  refine ⟨?_, hrx ▸ h.rx, fun _ => hsite, fun _ => by rw [hsite]; rfl⟩
  simp only [Owes, hsite]
  intro sent hs
  have hm : .text .exited ∈ t.out := hs.subset (List.mem_append_right _ (List.mem_singleton.mpr rfl))
  exact absurd (hout ▸ hm) (h.untold hopen)

/-- A frame reached the client while the loop goes on. -/
theorem Attends.forwards (h : Attends s ended v)
    (hgive : Gives s ended v (v.socket.out ++ [.binary b])) (hfollow : Follows s ended v)
    (hsite : v.socket.site.ending = false) (hopen : v.socket.site ≠ .closed) :
    Attends s ended { v with socket :=
      { v.socket with out := v.socket.out ++ [.binary b], site := .select } } :=
  ⟨⟨hgive, hfollow⟩, h.rx, fun hm => absurd (by simpa using hm) (h.untold hopen),
    fun hb => absurd ((h.unbroken hsite).symm.trans hb) (by simp)⟩

/-- The frame that tells of the exit is the last. -/
theorem complete_of_told {out : List Frame} (hout : .text .exited ∉ out)
    (hall : Complete s ended v out) {sent : List Frame}
    (hs : sent ++ [.text .exited] <+: out ++ [.text .exited]) : Complete s ended v sent := by
  rcases List.prefix_concat_iff.mp hs with he | hpre
  · rwa [List.append_cancel_right he]
  · exact absurd (hpre.subset (List.mem_append_right _ (List.mem_singleton.mpr rfl))) hout

theorem Attends.sent {ok : Bool} (h : Attends s ended v) (hs : v.socket.sent s ok = some t)
    (hover : v.socket.site.replays = true → ok = true → s.isExited = true → EndedBy ended v.reached) :
    Attends s ended { v with socket := t } := by
  have ho := h.owes
  unfold Socket.sent at hs
  split at hs
  · rename_i b hsite
    have hb := h.unbroken (by rw [hsite]; rfl)
    have hout := h.untold (by simp [hsite])
    simp only [Owes, hsite] at ho
    cases ok with
    | true =>
      cases hs
      rw [if_pos rfl, Console.write_ok hb]
      exact .enter (v := { v with socket := { v.socket with out := v.socket.out ++ [.binary b] } })
        ho.1 ho.2 (hover (by rw [hsite]; rfl) rfl) h.rx (by simpa using hout) hb
    | false =>
      cases hs
      exact h.closes rfl rfl rfl (by simp [hsite])
  · rename_i b hsite
    have hb := h.unbroken (by rw [hsite]; rfl)
    simp only [Owes, hsite] at ho
    cases ok with
    | true =>
      cases hs
      rw [Console.write_ok hb]
      exact h.forwards ho.1 ho.2 (by rw [hsite]; rfl) (by simp [hsite])
    | false =>
      cases hs
      exact h.closes rfl rfl rfl (by simp [hsite])
  · rename_i b hsite
    have hb := h.unbroken (by rw [hsite]; rfl)
    simp only [Owes, hsite] at ho
    cases ok with
    | true =>
      cases hs
      rw [Console.write_ok hb]
      exact h.forwards ho.1 ho.2 (by rw [hsite]; rfl) (by simp [hsite])
    | false =>
      cases hs
      exact h.closes rfl rfl rfl (by simp [hsite])
  · rename_i b hsite
    have hb := h.unbroken (by rw [hsite]; rfl)
    have hout := h.untold (by simp [hsite])
    simp only [Owes, hsite] at ho
    cases hs
    cases ok with
    | true =>
      rw [Console.write_ok hb]
      exact ⟨fun _ => ho, h.rx, fun hm => absurd (by simpa using hm) hout, fun _ => rfl⟩
    | false =>
      exact ⟨fun hw => absurd hw (by simp [Socket.write]), h.rx, fun hm => absurd hm hout, fun _ => rfl⟩
  · rename_i n hsite
    have hout := h.untold (by simp [hsite])
    cases hs
    by_cases hok : ok = true ∧ v.socket.broken = false
    · obtain ⟨rfl, hb⟩ := hok
      rw [Console.write_ok hb]
      refine ⟨fun sent hsent => ?_, h.rx, fun _ => rfl, fun _ => rfl⟩
      cases n with
      | exited =>
        simp only [Owes, hsite] at ho
        obtain ⟨hgive, e, he, hr⟩ := ho hb
        refine complete_of_told hout ⟨e, he, fun i hi hie => ?_⟩ hsent
        refine hgive i hi (Nat.lt_of_lt_of_le hie hr) fun e' he' => ?_
        rw [Option.mem_unique he' he]
        exact hie
      | noSuchTerminal =>
        have hm : .text .exited ∈ v.socket.out ++ [.text .noSuchTerminal] :=
          hsent.subset (List.mem_append_right _ (List.mem_singleton.mpr rfl))
        simp [hout] at hm
    · have hfail : ok = false ∨ v.socket.broken = true := by
        cases ok <;> cases hbr : v.socket.broken <;> simp_all
      rw [Console.write_fails hfail]
      exact h.closes rfl rfl rfl (by simp [hsite])
  · cases hs

theorem recv_next {out : Except RecvError Bytes × Receiver} (h : s.recv rx = some out) :
    (∃ b, out = (.ok b, ⟨rx.next + 1⟩) ∧
        s.output.sent.drop rx.next = b :: s.output.sent.drop (rx.next + 1) ∧
        rx.next + 1 ≤ s.output.sent.length) ∨
      (∃ n rx', out = (.error (.lagged n), rx') ∧ rx'.next ≤ s.output.sent.length ∧
        rx.next + s.output.capacity < s.output.sent.length) ∨
      out = (.error .closed, rx) ∧ s.gone = true ∧ s.output.sent.drop rx.next = [] := by
  unfold Session.recv at h
  split at h
  · rename_i got hgot
    cases h
    unfold Channel.recv at hgot
    split at hgot
    · rename_i hlag
      cases hgot
      exact .inr (.inl ⟨_, _, rfl, Nat.sub_le _ _, hlag⟩)
    · obtain ⟨b, hb, he⟩ := Option.map_eq_some_iff.mp hgot
      obtain ⟨hl, hg⟩ := List.getElem?_eq_some_iff.mp hb
      cases he
      exact .inl ⟨b, rfl, by rw [List.drop_eq_getElem_cons hl, hg], hl⟩
  · rename_i hnone
    split at h
    · rename_i hgone
      cases h
      exact .inr (.inr ⟨rfl, hgone, Channel.recv_none hnone⟩)
    · cases h

/-- With nothing left in its receiver, a client is where the broadcast is. -/
theorem offset_end (h : s.output.sent.drop rx.next = []) : s.offset rx = s.output.sent.flatten.length := by
  rw [Session.offset, List.take_of_length_le (List.drop_eq_nil_iff.mp h)]

theorem Follows.caught (h : Follows s ended v) (he : EndedBy ended (s.offset v.socket.rx)) :
    EndedBy ended v.reached := by
  obtain ⟨e, hm, hle⟩ := he
  refine ⟨e, hm, Nat.le_of_not_lt fun hlt => ?_⟩
  refine Nat.lt_irrefl v.reached (h v.reached (Nat.lt_of_lt_of_le hlt hle) fun e' he' => ?_)
  rw [Option.mem_unique he' hm]
  exact hlt

/-- A step that neither copies the history nor takes a chunk. -/
theorem onward_still (hc : v.socket.site.copies = false) (ht : t.site.takes = false) :
    v.onward s t = { v with socket := t } := by
  have hne : v.socket.site ≠ .snapshot := by
    intro he
    rw [he] at hc
    cases hc
  simp [View.onward, hne, hc, ht]

theorem sent_still {ok : Bool} (h : t.sent s ok = some t') :
    t.site.copies = false ∧ t'.site.takes = false := by
  unfold Socket.sent at h
  split at h
  all_goals
    rename_i hsite
    cases h
  · rw [hsite]
    refine ⟨rfl, ?_⟩
    cases ok with
    | true =>
      cases he : s.isExited <;> simp [Socket.enter, he, Site.takes]
    | false => rfl
  · rw [hsite]
    cases ok <;> exact ⟨rfl, rfl⟩
  · rw [hsite]
    cases ok <;> exact ⟨rfl, rfl⟩
  · rw [hsite]
    exact ⟨rfl, rfl⟩
  · rw [hsite]
    exact ⟨rfl, rfl⟩

/-- What is handed out at once is the chunk the receiver is due. -/
theorem Attends.takes (h : Attends s ended v) (site : Site) (hsite : v.socket.site = .select)
    (hb : s.output.sent.drop v.socket.rx.next = b :: s.output.sent.drop (v.socket.rx.next + 1))
    (htakes : site.takes = true) :
    v.onward s { v.socket with rx := ⟨v.socket.rx.next + 1⟩, site := site } =
        ⟨{ v.socket with rx := ⟨v.socket.rx.next + 1⟩, site := site }, v.first,
          max v.reached (s.offset ⟨v.socket.rx.next + 1⟩)⟩ ∧
      Gives s ended ⟨{ v.socket with rx := ⟨v.socket.rx.next + 1⟩, site := site }, v.first,
        max v.reached (s.offset ⟨v.socket.rx.next + 1⟩)⟩ (v.socket.out ++ [.binary b]) := by
  have ho : Gives s ended v v.socket.out ∧ Follows s ended v := by
    simpa only [Owes, hsite] using h.owes
  refine ⟨?_, ho.1.taken ho.2 hb⟩
  simp [View.onward, hsite, Site.copies, htakes]

theorem Attends.received {out : Except RecvError Bytes × Receiver} (h : Attends s ended v)
    (ht : Timed s ended) (hsite : v.socket.site = .select) (hout : s.recv v.socket.rx = some out)
    (hlisted : v.socket.rx.next + s.output.capacity < s.output.sent.length → s.listed = false →
      EndedBy ended v.reached) :
    Attends s ended (v.onward s (v.socket.received s out)) := by
  have ho : Gives s ended v v.socket.out ∧ Follows s ended v := by
    simpa only [Owes, hsite] using h.owes
  have hb := h.unbroken (by rw [hsite]; rfl)
  have hnot := h.untold (by simp [hsite])
  have hstill : ∀ t : Socket, t.site.takes = false → v.onward s t = { v with socket := t } :=
    fun t ht => onward_still (by rw [hsite]; rfl) ht
  rcases recv_next hout with ⟨b, rfl, hdrop, hrx⟩ | ⟨n, rx', rfl, hrx, hlag⟩ | ⟨rfl, hgone, hdrop⟩
  · obtain ⟨he, hgive⟩ := h.takes (.forward b) hsite hdrop rfl
    rw [show v.socket.received s (.ok b, ⟨v.socket.rx.next + 1⟩) =
      { v.socket with rx := ⟨v.socket.rx.next + 1⟩, site := .forward b } from rfl, he]
    refine ⟨⟨hgive, fun i hi _ => Nat.lt_of_lt_of_le hi (Nat.le_max_right _ _)⟩, hrx,
      fun hm => absurd hm hnot, fun hb' => absurd (hb.symm.trans hb') (by simp)⟩
  · cases hl : s.listed with
    | true =>
      have he : v.socket.received s (.error (.lagged n), rx') =
          { v.socket with rx := s.output.subscribe, site := .resnapshot } := by
        simp [Socket.received, hl]
      rw [he, hstill _ rfl]
      exact ⟨ho.1, Nat.le_refl _, fun hm => absurd hm hnot,
        fun hb' => absurd (hb.symm.trans hb') (by simp)⟩
    | false =>
      have he : v.socket.received s (.error (.lagged n), rx') = { v.socket with rx := rx' } := by
        simp [Socket.received, hl]
      obtain ⟨e, hm, hr⟩ := hlisted hlag hl
      rw [he, hstill _ (by rw [hsite]; rfl)]
      refine ⟨?_, hrx, fun hm => absurd hm hnot, fun hb' => absurd (hb.symm.trans hb') (by simp)⟩
      simp only [Owes, hsite]
      exact ⟨ho.1, fun i _ hi => Nat.lt_of_lt_of_le (hi e hm) hr⟩
  · rw [hstill _ rfl]
    refine ⟨fun _ => ⟨ho.1, ho.2.caught ?_⟩, h.rx, fun hm => absurd hm hnot, fun _ => rfl⟩
    simp only [Session.gone, Bool.and_eq_true, Bool.not_eq_true', beq_iff_eq] at hgone
    obtain ⟨e, he, hle⟩ := ht.over (by simp [Session.isExited, hgone.1.1])
    refine ⟨e, he, Nat.le_trans hle (Nat.le_of_eq ?_)⟩
    rw [offset_end hdrop, Session.printed, Session.hand, hgone.2, List.append_nil]

theorem Attends.tick (h : Attends s ended v) (hsite : v.socket.site = .select)
    (hlast : s.isExited = true → EndedBy ended v.reached ∨
      s.output.sent.length ≤ v.socket.rx.next + s.output.capacity ∧
        EndedBy ended (s.offset ⟨v.socket.rx.next + 1⟩)) :
    Attends s ended (v.onward s (v.socket.tick s)) := by
  have ho : Gives s ended v v.socket.out ∧ Follows s ended v := by
    simpa only [Owes, hsite] using h.owes
  have hb := h.unbroken (by rw [hsite]; rfl)
  have hnot := h.untold (by simp [hsite])
  have hstill : ∀ t : Socket, t.site.takes = false → v.onward s t = { v with socket := t } :=
    fun t ht => onward_still (by rw [hsite]; rfl) ht
  unfold Socket.tick
  split
  · rename_i hexit
    have hbye : EndedBy ended v.reached →
        Attends s ended (v.onward s { v.socket with site := .farewell .exited }) := by
      intro hc
      rw [hstill _ rfl]
      exact ⟨fun _ => ⟨ho.1, hc⟩, h.rx, fun hm => absurd hm hnot, fun _ => rfl⟩
    have hnone : s.output.sent.drop v.socket.rx.next = [] → EndedBy ended v.reached := by
      intro hnil
      rcases hlast hexit with hc | ⟨-, e, he, hle⟩
      · exact hc
      · exact ho.2.caught ⟨e, he, Nat.le_trans hle (offset_end hnil ▸ offset_le_sent s _)⟩
    cases hrecv : s.recv v.socket.rx with
    | none => exact hbye (hnone (Console.due_recv_none hrecv))
    | some out =>
      rcases recv_next hrecv with ⟨b, rfl, hdrop, hrx⟩ | ⟨n, rx', rfl, hrx, hlag⟩ | ⟨rfl, hgone, hdrop⟩
      · obtain ⟨he, hgive⟩ := h.takes (.tail b) hsite hdrop rfl
        dsimp only
        rw [he]
        refine ⟨⟨hgive, ?_⟩, hrx, fun hm => absurd hm hnot, fun hb' => absurd (hb.symm.trans hb') (by simp)⟩
        rcases hlast hexit with ⟨e, hm, hr⟩ | ⟨-, e, hm, hr⟩
        · exact ⟨e, hm, Nat.le_trans hr (Nat.le_max_left _ _)⟩
        · exact ⟨e, hm, Nat.le_trans hr (Nat.le_max_right _ _)⟩
      · refine hbye ((hlast hexit).resolve_right fun hno => ?_)
        exact absurd hlag (Nat.not_lt.mpr hno.1)
      · exact hbye (hnone hdrop)
  · rw [hstill _ (by rw [hsite]; rfl)]
    exact h

/-- A step of the connection itself. -/
theorem Attends.wake {w : Wake} (h : Attends s ended v) (ht : Timed s ended) (hc : Flushed s ended v w)
    (hw : v.socket.wake s w = some t) : Attends s ended (v.onward s t) := by
  unfold Socket.wake at hw
  split at hw
  · rename_i hsite
    cases hw
    exact h.copied ht hsite
  · rename_i hsite
    cases hw
    exact h.recopied ht hsite (hc hsite)
  · obtain ⟨hcopies, htakes⟩ := sent_still hw
    rw [onward_still hcopies htakes]
    exact h.sent hw hc
  · rename_i hsite
    obtain ⟨out, hout, rfl⟩ := Option.map_eq_some_iff.mp hw
    exact h.received ht hsite hout hc
  · rename_i hsite
    cases hw
    exact h.tick hsite hc
  · rename_i leaves hsite
    cases hw
    have hstill : ∀ t : Socket, t.site.takes = false → v.onward s t = { v with socket := t } :=
      fun t ht => onward_still (by rw [hsite]; rfl) ht
    split
    · rw [hstill _ rfl]
      exact h.closes rfl rfl rfl (by simp [hsite])
    · rw [hstill _ (by rw [hsite]; rfl)]
      exact h
  · cases hw

theorem Attends.attach (s : Session) (ended : Option Nat) : Attends s ended ⟨.attach s, 0, 0⟩ := by
  unfold Socket.attach
  split
  · exact ⟨trivial, Nat.le_refl _, fun hm => (nomatch hm), fun hb => (nomatch hb)⟩
  · exact ⟨trivial, Nat.zero_le _, fun hm => (nomatch hm), fun hb => (nomatch hb)⟩

/-- What a step of the session leaves as it was, and what it adds to. -/
structure Moves (s s' : Session) : Prop extends Prints s s' where
  ring : s.history = s.printed.drop (s.printed.length - Session.historyLimit) →
    s'.history = s'.printed.drop (s'.printed.length - Session.historyLimit)
  exited : s.exited = true → s'.exited = true
  unlisted : s'.listed = false → s'.exited = true ∨ s.listed = false

theorem moves_append (h : s.append chunk = some s') : Moves s s' := by
  have hring : s.history = s.printed.drop (s.printed.length - Session.historyLimit) → _ :=
    Polling.append_ring h
  unfold Session.append at h
  split at h
  · rename_i hr
    cases h
    have hall : s.printed ++ chunk = s.output.sent.flatten ++ chunk := by
      simp [Session.printed, Session.hand, hr.1]
    refine ⟨⟨?_, List.prefix_rfl⟩, fun hold => ?_, id, .inr⟩
    · exact ⟨chunk, hall⟩
    · rw [hring hold, hall]
      rfl
  · cases h

theorem moves_broadcast (h : s.broadcast = some s') : Moves s s' := by
  unfold Session.broadcast at h
  split at h
  · rename_i chunk hr
    cases h
    have hall : Session.printed { s with output := s.output.send chunk, reader := .read } = s.printed := by
      simp [Session.printed, Session.hand, hr]
    refine ⟨⟨?_, List.prefix_append _ _⟩, fun hold => ?_, id, .inr⟩
    · rw [hall]
    · rw [hall]
      exact hold
  · cases h

theorem moves_readerEnds (h : s.readerEnds = some s') : Moves s s' := by
  unfold Session.readerEnds at h
  split at h
  · rename_i hr
    cases h
    have hall : Session.printed { s with reader := .ended, exited := true } = s.printed := by
      simp [Session.printed, Session.hand, hr]
    refine ⟨⟨?_, List.prefix_rfl⟩, fun hold => ?_, fun _ => rfl, .inr⟩
    · rw [hall]
    · rw [hall]
      exact hold
  · cases h

theorem moves_childEnds (s : Session) : Moves s s.childEnds :=
  ⟨⟨List.prefix_rfl, List.prefix_rfl⟩, id, fun _ => rfl, .inr⟩

theorem moves_kill (h : s.kill = some s') : Moves s s' := by
  unfold Session.kill at h
  split at h
  · cases h
    exact ⟨⟨List.prefix_rfl, List.prefix_rfl⟩, id, fun _ => rfl, fun _ => .inl rfl⟩
  · cases h

end Steps

/-- The invariant of a terminal and its connections. -/
structure Watched (σ : Closing) : Prop where
  timed : Timed σ.session σ.ended
  views : ∀ v ∈ σ.views, Attends σ.session σ.ended v

theorem Watched.turn {σ : Closing} {s' : Session} (h : Watched σ) (hm : Moves σ.session s') :
    Watched (σ.turn s') := by
  have hkept : ∀ e ∈ σ.ended, e ∈ (σ.turn s').ended := by
    intro e he
    simp only [Closing.turn]
    split
    · rw [Option.mem_def.mp he]
      rfl
    · exact he
  refine ⟨⟨hm.ring h.timed.ring, ?_, fun e he => ?_, fun hl => ?_⟩, fun v hv => ?_⟩
  · simp only [Closing.turn]
    cases hex : s'.exited with
    | true => rfl
    | false =>
      rw [if_neg (by simp), h.timed.known]
      exact Bool.eq_false_iff.mpr fun hs => by simp [hm.exited hs] at hex
  · have hgrown : σ.session.printed.length ≤ s'.printed.length := hm.printed.length_le
    simp only [Closing.turn] at he
    split at he
    · cases hended : σ.ended with
      | none =>
        rw [hended] at he
        exact Nat.le_of_eq (Option.some.inj he).symm
      | some e' =>
        rw [hended] at he
        exact Option.some.inj he ▸ Nat.le_trans (h.timed.bounded e' hended) hgrown
    · exact Nat.le_trans (h.timed.bounded e he) hgrown
  · rcases hm.unlisted hl with hex | hold
    · exact hex
    · exact hm.exited (h.timed.unlisted hold)
  · exact (h.views v hv).session hm.toPrints hkept

theorem Watched.step {σ σ' : Closing} {e : ConsoleEvent} (h : Watched σ) (hc : Careful σ e)
    (hs : σ.step e = some σ') : Watched σ' := by
  cases e with
  | read chunk =>
    obtain ⟨s', hs', rfl⟩ := Option.map_eq_some_iff.mp hs
    exact h.turn (moves_append hs')
  | broadcast =>
    obtain ⟨s', hs', rfl⟩ := Option.map_eq_some_iff.mp hs
    exact h.turn (moves_broadcast hs')
  | readerEnds =>
    obtain ⟨s', hs', rfl⟩ := Option.map_eq_some_iff.mp hs
    exact h.turn (moves_readerEnds hs')
  | childEnds =>
    cases hs
    exact h.turn (moves_childEnds _)
  | kill =>
    obtain ⟨s', hs', rfl⟩ := Option.map_eq_some_iff.mp hs
    exact h.turn (moves_kill hs')
  | attach =>
    cases hs
    refine ⟨h.timed, fun v hv => ?_⟩
    rcases List.mem_append.mp hv with hv | hv
    · exact h.views v hv
    · rw [List.mem_singleton.mp hv]
      exact .attach _ _
  | wake j w =>
    simp only [Closing.step, Option.bind_eq_bind, Option.bind_eq_some_iff] at hs
    obtain ⟨v, hv, t, ht, he⟩ := hs
    cases he
    refine ⟨h.timed, fun u hu => ?_⟩
    rcases List.mem_or_eq_of_mem_set hu with hu | rfl
    · exact h.views u hu
    · exact (h.views v (List.mem_of_getElem? hv)).wake h.timed (hc v hv) ht

theorem Watched.nothingLost {σ : Closing} (h : Watched σ) : σ.NothingLost := by
  intro v hv sent hs
  have hm : .text .exited ∈ v.socket.out :=
    hs.subset (List.mem_append_right _ (List.mem_singleton.mpr rfl))
  have ho := (h.views v hv).owes
  simp only [Owes, (h.views v hv).told hm] at ho
  exact ho sent hs

def lastLine : Closing :=
  (machine.play Careful start [.attach, .wake 0 .copied, .read [1], .broadcast, .wake 0 .recv,
    .wake 0 (.sent true), .read [2, 3], .broadcast, .readerEnds, .wake 0 .tick, .wake 0 (.sent true),
    .wake 0 (.sent true)]).get (by decide)

def twoLines : Closing :=
  (machine.play Machine.anyEvent start [.attach, .wake 0 .copied, .read [1], .broadcast, .read [2],
    .broadcast, .readerEnds, .wake 0 .tick, .wake 0 (.sent true), .wake 0 (.sent true)]).get (by decide)

end Closing

end AgentGrove.Terminal
