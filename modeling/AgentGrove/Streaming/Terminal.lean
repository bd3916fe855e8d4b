import AgentGrove.Coop.Machine
import AgentGrove.Model.Terminal

namespace AgentGrove.Terminal

open Coop

def Frame.bytes : Frame → Bytes
  | .binary bytes => bytes
  | .text _ => []

/-- The bytes that the client has received. -/
def Socket.delivered (t : Socket) : Bytes := t.out.flatMap Frame.bytes

/-- A chunk that is in the history and not yet broadcast. -/
def Session.hand (s : Session) : Bytes :=
  match s.reader with
  | .send chunk => chunk
  | _ => []

/-- All that still comes to a receiver of what has been read. -/
def Session.due (s : Session) (rx : Receiver) : Bytes :=
  (s.output.sent.drop rx.next).flatten ++ s.hand

/-- A connection, with the bytes it is to deliver: the history it copied when it
attached and every chunk read since, until it decides to end. -/
structure Attached where
  socket : Socket
  expected : Bytes

def Site.follows : Site → Bool
  | .replay _ | .select | .forward _ | .resnapshot | .resync _ => true
  | _ => false

def Site.replays : Site → Bool
  | .replay _ => true
  | _ => false

def Site.ending : Site → Bool
  | .farewell _ | .closed => true
  | _ => false

def Attached.grow (chunk : Bytes) (a : Attached) : Attached :=
  { a with expected := if a.socket.site.follows then a.expected ++ chunk else a.expected }

/-- A PTY and the connections to it. -/
structure Console where
  session : Session
  clients : List Attached

inductive ConsoleEvent where
  | read (chunk : Bytes)
  | broadcast
  | readerEnds
  | childEnds
  | kill
  | attach
  | wake (j : Nat) (w : Wake)

namespace Console

def start : Console := ⟨.spawn, []⟩

def attached (s : Session) (a : Attached) (t : Socket) : Attached where
  socket := t
  expected := if a.socket.site = .snapshot then s.history else a.expected

def step (σ : Console) : ConsoleEvent → Option Console
  | .read chunk =>
    (σ.session.append chunk).map (fun s => ⟨s, σ.clients.map (Attached.grow chunk)⟩)
  | .broadcast => σ.session.broadcast.map (fun s => { σ with session := s })
  | .readerEnds => σ.session.readerEnds.map (fun s => { σ with session := s })
  | .childEnds => some { σ with session := σ.session.childEnds }
  | .kill => σ.session.kill.map (fun s => { σ with session := s })
  | .attach => some { σ with clients := σ.clients ++ [⟨.attach σ.session, []⟩] }
  | .wake j w => do
    let a ← σ.clients[j]?
    let t ← a.socket.wake σ.session w
    return { σ with clients := σ.clients.set j (attached σ.session a t) }

def machine : Machine Console ConsoleEvent := ⟨step⟩

/-- What a client is promised: never a byte out of place, all of them once it has caught
up with a reader at rest, and all of them if it is told that the shell has exited. -/
structure Delivers (s : Session) (a : Attached) : Prop where
  ordered : a.socket.delivered <+: a.expected
  whole : a.socket.site = .select → s.due a.socket.rx = [] → a.socket.delivered = a.expected
  ended : .text .exited ∈ a.socket.out → a.socket.delivered = a.expected

/-- The history is copied when nothing that is in it is still to come by the receiver,
and after a lag only if it is just what the client lacks; a lag is only noticed while the
session is there, and an exit when all that is left is one queued chunk at most. -/
def Timely (s : Session) (a : Attached) : Wake → Prop
  | .copied =>
    s.due a.socket.rx = [] ∧
      (a.socket.site = .resnapshot → a.socket.delivered ++ s.history = a.expected)
  | .sent _ => a.socket.site.replays = true → s.isExited = true → s.due a.socket.rx = []
  | .recv => a.socket.rx.next + s.output.capacity < s.output.sent.length → s.listed = true
  | .tick => s.isExited = true → (s.output.sent.drop a.socket.rx.next).length ≤ 1 ∧ s.hand = []
  | .client _ => True

instance (s : Session) (a : Attached) : (w : Wake) → Decidable (Timely s a w)
  | .copied => inferInstanceAs (Decidable (_ ∧ _))
  | .sent _ => inferInstanceAs (Decidable (_ → _))
  | .recv => inferInstanceAs (Decidable (_ → _))
  | .tick => inferInstanceAs (Decidable (_ → _))
  | .client _ => .isTrue trivial

def Careful (σ : Console) : ConsoleEvent → Prop
  | .wake j w => ∀ a ∈ σ.clients[j]?, Timely σ.session a w
  | _ => True

instance (σ : Console) : (e : ConsoleEvent) → Decidable (Careful σ e)
  | .wake j w => inferInstanceAs (Decidable (∀ a ∈ σ.clients[j]?, Timely σ.session a w))
  | .read _ | .broadcast | .readerEnds | .childEnds | .kill | .attach => .isTrue trivial

/-- How a connection stands to what it is to deliver, where it is. -/
def Stands (s : Session) (a : Attached) : Prop :=
  match a.socket.site with
  | .snapshot => a.socket.delivered = [] ∧ a.socket.rx.next ≤ s.output.sent.length
  | .replay b | .forward b | .resync b =>
    a.socket.delivered ++ b ++ s.due a.socket.rx = a.expected ∧
      a.socket.rx.next ≤ s.output.sent.length
  | .select =>
    a.socket.delivered ++ s.due a.socket.rx = a.expected ∧
      a.socket.rx.next ≤ s.output.sent.length
  | .resnapshot => a.socket.rx.next ≤ s.output.sent.length
  | .tail b => a.socket.delivered ++ b = a.expected
  | .farewell _ => a.socket.broken = false → a.socket.delivered = a.expected
  | .closed => .text .exited ∈ a.socket.out → a.socket.delivered = a.expected

/-- The invariant of a connection. -/
structure Sure (s : Session) (a : Attached) : Prop where
  stands : Stands s a
  ordered : a.socket.delivered <+: a.expected
  /-- The client is told of an exit at the very end. -/
  told : .text .exited ∈ a.socket.out → a.socket.site = .closed
  broken : a.socket.broken = true → a.socket.site.ending = true

section Steps

variable {s s' : Session} {a : Attached} {t t' : Socket} {b chunk : Bytes} {rx : Receiver}

theorem write_ok (hb : t.broken = false) (f : Frame) :
    t.write true f = { t with out := t.out ++ [f] } := by
  simp [Socket.write, hb]

theorem write_fails {ok : Bool} (hok : ok = false ∨ t.broken = true) (f : Frame) :
    t.write ok f = { t with broken := true } := by
  rcases hok with rfl | hb
  · rfl
  · simp [Socket.write, hb]

theorem delivered_concat (t : Socket) (f : Frame) :
    ({ t with out := t.out ++ [f] } : Socket).delivered = t.delivered ++ f.bytes := by
  simp [Socket.delivered]

theorem stands_select (hsite : a.socket.site = .select) : Stands s a ↔
    a.socket.delivered ++ s.due a.socket.rx = a.expected ∧
      a.socket.rx.next ≤ s.output.sent.length := by
  simp only [Stands, hsite]

theorem stands_holding (hsite : a.socket.site = .replay b ∨ a.socket.site = .forward b ∨
    a.socket.site = .resync b) : Stands s a ↔
    a.socket.delivered ++ b ++ s.due a.socket.rx = a.expected ∧
      a.socket.rx.next ≤ s.output.sent.length := by
  rcases hsite with hsite | hsite | hsite <;> simp only [Stands, hsite]

theorem stands_farewell {n : Notice} (hsite : a.socket.site = .farewell n) : Stands s a ↔
    (a.socket.broken = false → a.socket.delivered = a.expected) := by
  simp only [Stands, hsite]

/-- Broadcasting hands a chunk from the reader to the receivers. -/
theorem due_broadcast (h : s.broadcast = some s') (hrx : rx.next ≤ s.output.sent.length) :
    s'.due rx = s.due rx ∧ rx.next ≤ s'.output.sent.length := by
  unfold Session.broadcast at h
  split at h
  · rename_i chunk hr
    cases h
    refine ⟨?_, ?_⟩
    · simp [Session.due, Session.hand, hr, List.drop_append_of_le_length hrx]
    · simpa using Nat.le_succ_of_le hrx
  · cases h

theorem due_append (h : s.append chunk = some s') (rx : Receiver) : s'.due rx = s.due rx ++ chunk ∧ s'.output = s.output := by
  unfold Session.append at h
  split at h
  · rename_i hr
    cases h
    refine ⟨?_, rfl⟩
    simp [Session.due, Session.hand, hr.1]
  · cases h

/-- The session went on as far as its receivers are concerned. -/
theorem Sure.session (h : Sure s a) (hdue : a.socket.rx.next ≤ s.output.sent.length →
    s'.due a.socket.rx = s.due a.socket.rx ∧ a.socket.rx.next ≤ s'.output.sent.length) :
    Sure s' a := by
  refine ⟨?_, h.ordered, h.told, h.broken⟩
  have hs := h.stands
  unfold Stands at hs ⊢
  split at hs
  · exact ⟨hs.1, (hdue hs.2).2⟩
  · exact ⟨(hdue hs.2).1 ▸ hs.1, (hdue hs.2).2⟩
  · exact ⟨(hdue hs.2).1 ▸ hs.1, (hdue hs.2).2⟩
  · exact ⟨(hdue hs.2).1 ▸ hs.1, (hdue hs.2).2⟩
  · exact ⟨(hdue hs.2).1 ▸ hs.1, (hdue hs.2).2⟩
  · exact (hdue hs).2
  · exact hs
  · exact hs
  · exact hs

/-- A chunk is read: those who still follow are to deliver it too. -/
theorem Sure.read (h : Sure s a) (happ : s.append chunk = some s') : Sure s' (a.grow chunk) := by
  obtain ⟨hdue, hout⟩ := due_append happ a.socket.rx
  have hgrown : a.expected <+: (a.grow chunk).expected := by
    unfold Attached.grow
    dsimp only
    split
    · exact List.prefix_append _ _
    · exact List.prefix_rfl
  refine ⟨?_, h.ordered.trans hgrown, h.told, h.broken⟩
  have hs := h.stands
  unfold Stands at hs
  unfold Stands Attached.grow
  split at hs
  all_goals rename_i hsite
  · simpa only [hsite, hout] using hs
  · simp only [hsite, Site.follows, if_true, hdue, hout, ← hs.1, List.append_assoc]
    exact ⟨trivial, hs.2⟩
  · simp only [hsite, Site.follows, if_true, hdue, hout, ← hs.1, List.append_assoc]
    exact ⟨trivial, hs.2⟩
  · simp only [hsite, Site.follows, if_true, hdue, hout, ← hs.1, List.append_assoc]
    exact ⟨trivial, hs.2⟩
  · simp only [hsite, Site.follows, if_true, hdue, hout, ← hs.1, List.append_assoc]
    exact ⟨trivial, hs.2⟩
  · simpa only [hsite, hout] using hs
  · simpa [hsite, Site.follows] using hs
  · simpa [hsite, Site.follows] using hs
  · simpa [hsite, Site.follows] using hs

theorem Sure.unbroken (h : Sure s a) (hsite : a.socket.site.ending = false) :
    a.socket.broken = false := by
  rw [Bool.eq_false_iff]
  intro hb
  rw [h.broken hb] at hsite
  cases hsite

theorem Sure.untold (h : Sure s a) (hsite : a.socket.site ≠ .closed) : .text .exited ∉ a.socket.out :=
  fun hm => hsite (h.told hm)

/-- From the replay into the loop, or past it: nothing is left to come if the shell has exited. -/
theorem Sure.enter {expected : Bytes} (hall : t.delivered ++ s.due t.rx = expected)
    (hrx : t.rx.next ≤ s.output.sent.length) (hdue : s.isExited = true → s.due t.rx = [])
    (hout : .text .exited ∉ t.out) (hb : t.broken = false) : Sure s ⟨t.enter s, expected⟩ := by
  have hpre : t.delivered <+: expected := ⟨_, hall⟩
  cases hexit : s.isExited with
  | true =>
    have hsite : (t.enter s).site = .farewell .exited := by simp [Socket.enter, hexit]
    refine ⟨(stands_farewell hsite).mpr fun _ => ?_, hpre, fun hm => absurd hm hout, fun hb' => ?_⟩
    · rw [hdue hexit, List.append_nil] at hall
      exact hall
    · rw [hsite]
      rfl
  | false =>
    have hsite : (t.enter s).site = .select := by simp [Socket.enter, hexit]
    exact ⟨(stands_select hsite).mpr ⟨hall, hrx⟩, hpre, fun hm => absurd hm hout,
      fun hb' => absurd (hb.symm.trans hb') (by simp)⟩

/-- The first copy of the history, taken when nothing of it is still to come. -/
theorem Sure.copied (h : Sure s a) (hsite : a.socket.site = .snapshot)
    (hdue : s.due a.socket.rx = []) : Sure s ⟨a.socket.replay s, s.history⟩ := by
  have hs := h.stands
  unfold Stands at hs
  simp only [hsite] at hs
  have hb := h.unbroken (by rw [hsite]; rfl)
  have hout := h.untold (by simp [hsite])
  unfold Socket.replay
  split
  · rename_i hempty
    refine .enter ?_ hs.2 (fun _ => hdue) hout hb
    rw [hs.1, hdue, List.isEmpty_iff.mp hempty]
    rfl
  · refine ⟨?_, ⟨s.history, ?_⟩, fun hm => absurd hm hout, fun hb' => absurd (hb.symm.trans hb') (by simp)⟩
    · refine ⟨?_, hs.2⟩
      show a.socket.delivered ++ s.history ++ s.due a.socket.rx = s.history
      rw [hs.1, hdue]
      simp
    · show a.socket.delivered ++ s.history = s.history
      rw [hs.1]
      rfl

/-- The copy after a lag, of just what the client lacks. -/
theorem Sure.recopied (h : Sure s a) (hsite : a.socket.site = .resnapshot)
    (hdue : s.due a.socket.rx = []) (hlack : a.socket.delivered ++ s.history = a.expected) :
    Sure s ⟨a.socket.resync s, a.expected⟩ := by
  have hs := h.stands
  unfold Stands at hs
  simp only [hsite] at hs
  have hb := h.unbroken (by rw [hsite]; rfl)
  refine ⟨?_, h.ordered, fun hm => absurd hm (h.untold (by simp [hsite])),
    fun hb' => absurd (hb.symm.trans hb') (by simp)⟩
  by_cases hempty : s.history.isEmpty = true
  · have hsite' : (a.socket.resync s).site = .select := by simp [Socket.resync, hempty]
    refine (stands_select hsite').mpr ⟨?_, hs⟩
    rw [List.isEmpty_iff.mp hempty] at hlack
    show a.socket.delivered ++ s.due a.socket.rx = a.expected
    rw [hdue]
    exact hlack
  · have hsite' : (a.socket.resync s).site = .resync s.history := by simp [Socket.resync, hempty]
    refine (stands_holding (.inr (.inr hsite'))).mpr ⟨?_, hs⟩
    show a.socket.delivered ++ s.history ++ s.due a.socket.rx = a.expected
    rw [hdue, List.append_nil]
    exact hlack

theorem stands_closed (hsite : a.socket.site = .closed) : Stands s a ↔
    (.text .exited ∈ a.socket.out → a.socket.delivered = a.expected) := by
  simp only [Stands, hsite]

/-- A connection that ends before its client is told of an exit. -/
theorem Sure.closes (h : Sure s a) (hout : t.out = a.socket.out) (hsite : t.site = .closed)
    (hopen : a.socket.site ≠ .closed) : Sure s ⟨t, a.expected⟩ := by
  have hd : t.delivered = a.socket.delivered := by rw [Socket.delivered, hout]; rfl
  refine ⟨(stands_closed hsite).mpr fun hm => ?_, ?_, fun _ => hsite, fun _ => ?_⟩
  · exact absurd (hout ▸ hm) (h.untold hopen)
  · show t.delivered <+: a.expected
    rw [hd]
    exact h.ordered
  · rw [hsite]
    rfl

/-- A frame reached the client while the loop goes on. -/
theorem Sure.forwards (h : Sure s a) (hsite : a.socket.site = .forward b ∨ a.socket.site = .resync b) :
    Sure s ⟨{ a.socket with out := a.socket.out ++ [.binary b], site := .select }, a.expected⟩ := by
  have hs := (stands_holding (.inr hsite)).mp h.stands
  have hending : a.socket.site.ending = false := by rcases hsite with hsite | hsite <;> rw [hsite] <;> rfl
  have hopen : a.socket.site ≠ .closed := by rcases hsite with hsite | hsite <;> simp [hsite]
  have hd : ({ a.socket with out := a.socket.out ++ [.binary b], site := .select } : Socket).delivered =
      a.socket.delivered ++ b := delivered_concat a.socket (.binary b)
  refine ⟨(stands_select rfl).mpr ⟨?_, hs.2⟩, ⟨s.due a.socket.rx, ?_⟩, fun hm => ?_, fun hb => ?_⟩
  · rw [hd]
    exact hs.1
  · rw [hd]
    exact hs.1
  · exact absurd (by simpa using hm) (h.untold hopen)
  · exact absurd ((h.unbroken hending).symm.trans hb) (by simp)

theorem Sure.sent {ok : Bool} (h : Sure s a) (ht : a.socket.sent s ok = some t)
    (hreplay : a.socket.site.replays = true → s.isExited = true → s.due a.socket.rx = []) :
    Sure s ⟨t, a.expected⟩ := by
  have hs := h.stands
  unfold Socket.sent at ht
  split at ht
  · rename_i b hsite
    have hb := h.unbroken (by rw [hsite]; rfl)
    have hout := h.untold (by simp [hsite])
    have hw := (stands_holding (.inl hsite)).mp hs
    cases ok with
    | true =>
      cases ht
      rw [if_pos rfl, write_ok hb]
      refine .enter ?_ hw.2 (hreplay (by rw [hsite]; rfl)) (by simpa using hout) hb
      rw [delivered_concat]
      exact hw.1
    | false =>
      cases ht
      exact h.closes (by rfl) rfl (by simp [hsite])
  · rename_i b hsite
    have hb := h.unbroken (by rw [hsite]; rfl)
    cases ok with
    | true =>
      cases ht
      rw [write_ok hb]
      exact h.forwards (.inl hsite)
    | false =>
      cases ht
      exact h.closes rfl rfl (by simp [hsite])
  · rename_i b hsite
    have hb := h.unbroken (by rw [hsite]; rfl)
    cases ok with
    | true =>
      cases ht
      rw [write_ok hb]
      exact h.forwards (.inr hsite)
    | false =>
      cases ht
      exact h.closes rfl rfl (by simp [hsite])
  · rename_i b hsite
    have hb := h.unbroken (by rw [hsite]; rfl)
    have hout := h.untold (by simp [hsite])
    have hw : a.socket.delivered ++ b = a.expected := by simpa only [Stands, hsite] using hs
    cases ok with
    | true =>
      cases ht
      rw [write_ok hb]
      have hd : ({ a.socket with out := a.socket.out ++ [.binary b], site := .farewell .exited } : Socket).delivered =
          a.expected := (delivered_concat a.socket (.binary b)).trans hw
      refine ⟨(stands_farewell rfl).mpr fun _ => hd, ⟨[], ?_⟩, fun hm => ?_, fun _ => rfl⟩
      · rw [List.append_nil]
        exact hd
      · exact absurd (by simpa using hm) hout
    | false =>
      cases ht
      exact ⟨(stands_farewell rfl).mpr fun hb' => absurd hb' (by simp [Socket.write]), h.ordered,
        fun hm => absurd hm hout, fun _ => rfl⟩
  · rename_i n hsite
    have hw := (stands_farewell hsite).mp hs
    cases ht
    by_cases hok : ok = true ∧ a.socket.broken = false
    · obtain ⟨rfl, hb⟩ := hok
      rw [write_ok hb]
      have hd : ({ a.socket with out := a.socket.out ++ [.text n], site := .closed } : Socket).delivered =
          a.expected :=
        (delivered_concat a.socket (.text n)).trans ((List.append_nil _).trans (hw hb))
      refine ⟨(stands_closed rfl).mpr fun _ => hd, ⟨[], ?_⟩, fun _ => rfl, fun _ => rfl⟩
      rw [List.append_nil]
      exact hd
    · have hfail : ok = false ∨ a.socket.broken = true := by
        cases ok <;> cases hbr : a.socket.broken <;> simp_all
      rw [write_fails hfail]
      exact h.closes rfl rfl (by simp [hsite])
  · cases ht

theorem due_recv {out : Except RecvError Bytes × Receiver} (h : s.recv rx = some out) :
    (∃ b rx', out = (.ok b, rx') ∧ s.due rx = b ++ s.due rx' ∧
        s.output.sent.drop rx.next = b :: s.output.sent.drop rx'.next ∧
        rx'.next ≤ s.output.sent.length) ∨
      (∃ n rx', out = (.error (.lagged n), rx') ∧
        rx.next + s.output.capacity < s.output.sent.length) ∨
      out = (.error .closed, rx) ∧ s.due rx = [] := by
  unfold Session.recv at h
  split at h
  · rename_i got hgot
    cases h
    obtain ⟨result, rx'⟩ := out
    cases result with
    | ok b =>
      obtain ⟨hdrop, hnext⟩ := Channel.recv_ok hgot
      refine .inl ⟨b, rx', rfl, ?_, hdrop, hnext⟩
      simp [Session.due, hdrop]
    | error e =>
      cases e with
      | lagged n => exact .inr (.inl ⟨n, rx', rfl, Channel.recv_lagged hgot⟩)
      | closed => exact absurd hgot Channel.recv_not_closed
  · rename_i hnone
    split at h
    · rename_i hgone
      cases h
      have hended : s.reader = .ended := by
        simp only [Session.gone, Bool.and_eq_true, beq_iff_eq] at hgone
        exact hgone.2
      exact .inr (.inr ⟨rfl, by simp [Session.due, Session.hand, hended, Channel.recv_none hnone]⟩)
    · cases h

theorem due_recv_none (h : s.recv rx = none) : s.output.sent.drop rx.next = [] := by
  unfold Session.recv at h
  split at h
  · cases h
  · rename_i hnone
    exact Channel.recv_none hnone

theorem Sure.received {out : Except RecvError Bytes × Receiver} (h : Sure s a)
    (hsite : a.socket.site = .select) (hout : s.recv a.socket.rx = some out)
    (hlisted : a.socket.rx.next + s.output.capacity < s.output.sent.length → s.listed = true) :
    Sure s ⟨a.socket.received s out, a.expected⟩ := by
  have hs := (stands_select hsite).mp h.stands
  have hb := h.unbroken (by rw [hsite]; rfl)
  have hnot := h.untold (by simp [hsite])
  rcases due_recv hout with ⟨b, rx', rfl, hdue, -, hrx⟩ | ⟨n, rx', rfl, hlag⟩ | ⟨rfl, hdue⟩
  · refine ⟨(stands_holding (.inr (.inl rfl))).mpr ⟨?_, hrx⟩, h.ordered, fun hm => absurd hm hnot,
      fun hb' => absurd (hb.symm.trans hb') (by simp)⟩
    rw [List.append_assoc]
    exact (congrArg _ hdue.symm).trans hs.1
  · have hl := hlisted hlag
    have he : a.socket.received s (.error (.lagged n), rx') =
        { a.socket with rx := s.output.subscribe, site := .resnapshot } := by
      simp [Socket.received, hl]
    rw [he]
    exact ⟨Nat.le_refl _, h.ordered, fun hm => absurd hm hnot,
      fun hb' => absurd (hb.symm.trans hb') (by simp)⟩
  · rw [hdue, List.append_nil] at hs
    exact ⟨(stands_farewell rfl).mpr fun _ => hs.1, h.ordered, fun hm => absurd hm hnot, fun _ => rfl⟩

theorem Sure.tick (h : Sure s a) (hsite : a.socket.site = .select) (hcap : 0 < s.output.capacity)
    (hlast : s.isExited = true → (s.output.sent.drop a.socket.rx.next).length ≤ 1 ∧ s.hand = []) :
    Sure s ⟨a.socket.tick s, a.expected⟩ := by
  have hs := (stands_select hsite).mp h.stands
  have hb := h.unbroken (by rw [hsite]; rfl)
  have hnot := h.untold (by simp [hsite])
  unfold Socket.tick
  split
  · rename_i hexit
    obtain ⟨hone, hhand⟩ := hlast hexit
    have hbye : s.due a.socket.rx = [] →
        Sure s ⟨{ a.socket with site := .farewell .exited }, a.expected⟩ := by
      intro hdue
      rw [hdue, List.append_nil] at hs
      exact ⟨(stands_farewell rfl).mpr fun _ => hs.1, h.ordered, fun hm => absurd hm hnot, fun _ => rfl⟩
    cases hrecv : s.recv a.socket.rx with
    | none => exact hbye (by simp [Session.due, hhand, due_recv_none hrecv])
    | some out =>
      rcases due_recv hrecv with ⟨b, rx', rfl, hdue, hdrop, hrx⟩ | ⟨n, rx', rfl, hlag⟩ | ⟨rfl, hdue⟩
      · rw [hdrop, List.length_cons] at hone
        have hnil : s.output.sent.drop rx'.next = [] := List.eq_nil_of_length_eq_zero (by omega)
        have hdue' : s.due rx' = [] := by simp [Session.due, hnil, hhand]
        rw [hdue, hdue', List.append_nil] at hs
        exact ⟨hs.1, h.ordered, fun hm => absurd hm hnot, fun hb' => absurd (hb.symm.trans hb') (by simp)⟩
      · rw [List.length_drop] at hone
        omega
      · exact hbye hdue
  · exact h

/-- A step of the connection itself. -/
theorem Sure.wake {w : Wake} (h : Sure s a) (hcap : 0 < s.output.capacity) (hc : Timely s a w)
    (hw : a.socket.wake s w = some t) : Sure s (attached s a t) := by
  have hlater : a.socket.site ≠ .snapshot → attached s a t = ⟨t, a.expected⟩ := by
    intro hne
    simp [attached, hne]
  unfold Socket.wake at hw
  split at hw
  · rename_i hsite
    cases hw
    have hnow : attached s a (a.socket.replay s) = ⟨a.socket.replay s, s.history⟩ := by
      simp [attached, hsite]
    rw [hnow]
    exact h.copied hsite hc.1
  · rename_i hsite
    cases hw
    rw [hlater (by simp [hsite])]
    exact h.recopied hsite hc.1 (hc.2 hsite)
  · have hne : a.socket.site ≠ .snapshot := by
      intro hsite
      simp [Socket.sent, hsite] at hw
    rw [hlater hne]
    exact h.sent hw hc
  · rename_i hsite
    obtain ⟨out, hout, rfl⟩ := Option.map_eq_some_iff.mp hw
    rw [hlater (by simp [hsite])]
    exact h.received hsite hout hc
  · rename_i hsite
    cases hw
    rw [hlater (by simp [hsite])]
    exact h.tick hsite hcap hc
  · rename_i leaves hsite
    cases hw
    rw [hlater (by simp [hsite])]
    split
    · exact h.closes rfl rfl (by simp [hsite])
    · exact h
  · cases hw

theorem Sure.delivers (h : Sure s a) : Delivers s a := by
  refine ⟨h.ordered, fun hsite hdue => ?_, fun hm => ?_⟩
  · have hs := ((stands_select hsite).mp h.stands).1
    rwa [hdue, List.append_nil] at hs
  · exact (stands_closed (h.told hm)).mp h.stands hm

theorem Sure.attach (s : Session) : Sure s ⟨.attach s, []⟩ := by
  unfold Socket.attach
  split
  · exact ⟨⟨rfl, Nat.le_refl _⟩, List.prefix_rfl, fun hm => (nomatch hm), fun hb => (nomatch hb)⟩
  · exact ⟨fun _ => rfl, List.prefix_rfl, fun hm => (nomatch hm), fun hb => (nomatch hb)⟩

end Steps

/-- The invariant of a console. -/
structure Steady (σ : Console) : Prop where
  capacity : 0 < σ.session.output.capacity
  clients : ∀ a ∈ σ.clients, Sure σ.session a

theorem Steady.session {σ : Console} {s' : Session} (h : Steady σ)
    (hcap : s'.output.capacity = σ.session.output.capacity)
    (hdue : ∀ rx : Receiver, rx.next ≤ σ.session.output.sent.length →
      s'.due rx = σ.session.due rx ∧ rx.next ≤ s'.output.sent.length) :
    Steady { σ with session := s' } :=
  ⟨hcap ▸ h.capacity, fun a ha => (h.clients a ha).session (hdue a.socket.rx)⟩

theorem Steady.step {σ σ' : Console} {e : ConsoleEvent} (h : Steady σ) (hc : Careful σ e)
    (hs : σ.step e = some σ') : Steady σ' := by
  cases e with
  | read chunk =>
    obtain ⟨s', happ, rfl⟩ := Option.map_eq_some_iff.mp hs
    refine ⟨?_, fun a ha => ?_⟩
    · rw [(due_append happ ⟨0⟩).2]
      exact h.capacity
    · obtain ⟨b, hb, rfl⟩ := List.mem_map.mp ha
      exact (h.clients b hb).read happ
  | broadcast =>
    obtain ⟨s', hsend, rfl⟩ := Option.map_eq_some_iff.mp hs
    refine h.session ?_ fun rx hrx => due_broadcast hsend hrx
    unfold Session.broadcast at hsend
    split at hsend
    · cases hsend
      rfl
    · cases hsend
  | readerEnds =>
    obtain ⟨s', hend, rfl⟩ := Option.map_eq_some_iff.mp hs
    unfold Session.readerEnds at hend
    split at hend
    · rename_i hread
      cases hend
      exact h.session rfl fun rx hrx => ⟨by simp [Session.due, Session.hand, hread], hrx⟩
    · cases hend
  | childEnds =>
    cases hs
    exact h.session rfl fun rx hrx => ⟨rfl, hrx⟩
  | kill =>
    obtain ⟨s', hkill, rfl⟩ := Option.map_eq_some_iff.mp hs
    unfold Session.kill at hkill
    split at hkill
    · cases hkill
      exact h.session rfl fun rx hrx => ⟨rfl, hrx⟩
    · cases hkill
  | attach =>
    cases hs
    refine ⟨h.capacity, fun a ha => ?_⟩
    rcases List.mem_append.mp ha with ha | ha
    · exact h.clients a ha
    · rw [List.mem_singleton.mp ha]
      exact .attach σ.session
  | wake j w =>
    simp only [Console.step, Option.bind_eq_bind, Option.bind_eq_some_iff] at hs
    obtain ⟨a, ha, t, ht, he⟩ := hs
    cases he
    refine ⟨h.capacity, fun b hb => ?_⟩
    rcases List.mem_or_eq_of_mem_set hb with hb | rfl
    · exact h.clients b hb
    · exact (h.clients a (List.mem_of_getElem? ha)).wake h.capacity (hc a ha) ht

/-- Over any interleaving of the reader, the waiter and the connections in which copies of
the history are so timed, every client gets the history it attached to and each later
chunk once and in order. -/
theorem terminal_delivers_once {σ : Console} (h : machine.Reaches Careful start σ) :
    ∀ a ∈ σ.clients, Delivers σ.session a := by
  have hsteady : Steady σ := by
    apply h.keeps
    · exact ⟨by decide, fun a ha => nomatch ha⟩
    · exact fun s e s' hv hc hs => hv.step hc hs
  exact fun a ha => (hsteady.clients a ha).delivers

def twoScreens : Console :=
  (machine.play Careful start [.attach, .wake 0 .copied, .read [1], .broadcast, .attach, .wake 1 .copied,
    .wake 0 .recv, .wake 0 (.sent true), .wake 1 (.sent true), .read [2], .broadcast, .wake 1 .recv,
    .wake 1 (.sent true)]).get (by decide)

/-- One client from before and one from between two chunks. -/
theorem terminal_delivers_once_to_two : ∃ σ, machine.Reaches Careful start σ ∧
    σ.clients.map (fun a => a.socket.delivered) = [[1], [1, 2]] ∧
    ∀ a ∈ σ.clients, Delivers σ.session a := by
  have hr : machine.Reaches Careful start twoScreens := Machine.play_reaches (Option.some_get _).symm
  exact ⟨twoScreens, hr, by decide, terminal_delivers_once hr⟩

def doubledChunk : Console :=
  (machine.play Machine.anyEvent start [.read [1], .attach, .wake 0 .copied, .broadcast,
    .wake 0 (.sent true), .wake 0 .recv, .wake 0 (.sent true)]).get (by decide)

/-- A chunk that is in the history and not yet broadcast comes with both. -/
theorem terminal_doubles_chunk : ¬ ∀ σ, machine.Reaches Machine.anyEvent start σ →
    ∀ a ∈ σ.clients, Delivers σ.session a := by
  intro hall
  have hr : machine.Reaches Machine.anyEvent start doubledChunk :=
    Machine.play_reaches (Option.some_get _).symm
  have hclient : ∃ a ∈ doubledChunk.clients, ¬ a.socket.delivered <+: a.expected := by decide
  obtain ⟨a, ha, hnot⟩ := hclient
  exact hnot (hall doubledChunk hr a ha).ordered

end Console

end AgentGrove.Terminal
