import AgentGrove.Model.Socket
import AgentGrove.Streaming.Feed

namespace AgentGrove

open Coop

/-- A step of the publishers. -/
inductive FeedEvent where
  | append (topic data : String)
  | send (topic : String) (i : Nat)

def Feed.step (f : Feed) : FeedEvent → Option Feed
  | .append topic data => some (f.append topic data)
  | .send topic i => f.send topic i

def Feed.machine : Machine Feed FeedEvent := ⟨Feed.step⟩

theorem Feed.Ordered.step {f f' : Feed} {e : FeedEvent} (h : f.Ordered) (hs : f.step e = some f') :
    f'.Ordered := by
  cases e with
  | append t data =>
    cases hs
    exact h.append t data
  | send t i => exact h.send hs

/-- The publishers and one connection. -/
structure Line where
  feed : Feed
  socket : Socket Stamped
  /-- For every lag what of the ring had not been sent when it was noticed. -/
  owed : List (List Stamped)

inductive LineEvent where
  | feed (e : FeedEvent)
  | wake (w : Wake)

namespace Line

def opened (f : Feed) (topic : String) : Line where
  feed := f.subscribe topic
  socket := (Socket.handleSocket f.bus topic).2
  owed := []

/-- The receiver is about to report that it lagged. -/
def lags (σ : Line) : Wake → Bool
  | .recv =>
    match (σ.feed.channel σ.socket.topic).recv σ.socket.rx with
    | some (.error (.lagged _), _) => true
    | _ => false
  | _ => false

def missing (σ : Line) : List Stamped :=
  (σ.feed.ring σ.socket.topic).filter (fun m => m ∉ σ.socket.texts)

def step (σ : Line) : LineEvent → Option Line
  | .feed e => (σ.feed.step e).map (fun f => { σ with feed := f })
  | .wake w => (σ.socket.wake σ.feed.bus w).map (fun out =>
      { feed := { σ.feed with bus := out.1 }
        socket := out.2
        owed := if σ.lags w then σ.owed ++ [σ.missing] else σ.owed })

def machine : Machine Line LineEvent := ⟨step⟩

/-- Entries of a replay that are still to be sent. -/
def todo : SocketSite Stamped → List Stamped
  | .resync m rest _ => m :: rest
  | _ => []

/-- Messages in hand that no replay after a lag put there. -/
def other : SocketSite Stamped → List Stamped
  | .hello history => history
  | .replay m rest => m :: rest
  | .forward m => [m]
  | _ => []

def isOpen : SocketSite Stamped → Bool
  | .closed => false
  | _ => true

/-- What a replay after a lag owed reaches the peer in order and once, and all
of it unless the connection ends before the replay does. -/
structure Recovered (σ : Line) : Prop where
  inOrder : ∀ owed ∈ σ.owed, σ.socket.texts.filter (fun m => m ∈ owed) <+: owed
  complete : isOpen σ.socket.site = true → todo σ.socket.site = [] →
    ∀ owed ∈ σ.owed, σ.socket.texts.filter (fun m => m ∈ owed) = owed

/-- A lag is noticed only before the first message is sent on the connection,
and while no message of the ring waits for its broadcast. -/
def Unsent (σ : Line) : LineEvent → Prop
  | .wake w => σ.lags w = true → σ.socket.texts = [] ∧
      ∀ m ∈ σ.feed.unsent σ.socket.topic, m ∉ σ.feed.ring σ.socket.topic
  | .feed _ => True

end Line

namespace Socket

variable (s : Socket Stamped)

@[simp] theorem texts_write_text (m : Stamped) : (s.write (.text m)).texts = s.texts ++ [m] := by
  simp [texts, write]

@[simp] theorem texts_write_subscribed (t : String) :
    (s.write (.subscribed t)).texts = s.texts := by
  simp [texts, write]

@[simp] theorem texts_write_ping : (s.write .ping).texts = s.texts := by
  simp [texts, write]

@[simp] theorem texts_close : s.close.texts = s.texts := rfl

@[simp] theorem texts_replay (l : List Stamped) : (s.replay l).texts = s.texts := by
  cases l <;> rfl

@[simp] theorem texts_resync (n : Nat) (l : List Stamped) : (s.resync n l).texts = s.texts := by
  cases l <;> rfl

@[simp] theorem other_replay (l : List Stamped) : Line.other (s.replay l).site = l := by
  cases l <;> rfl

@[simp] theorem other_resync (n : Nat) (l : List Stamped) :
    Line.other (s.resync n l).site = [] := by
  cases l <;> rfl

@[simp] theorem todo_replay (l : List Stamped) : Line.todo (s.replay l).site = [] := by
  cases l <;> rfl

@[simp] theorem todo_resync (n : Nat) (l : List Stamped) : Line.todo (s.resync n l).site = l := by
  cases l <;> rfl

@[simp] theorem resync_topic (n : Nat) (l : List Stamped) : (s.resync n l).topic = s.topic := by
  cases l <;> rfl

@[simp] theorem resync_rx (n : Nat) (l : List Stamped) : (s.resync n l).rx = s.rx := by
  cases l <;> rfl

/-- A send moves neither the receiver nor the topic. -/
theorem sent_keeps {s s' : Socket Stamped} {ok : Bool} (h : s.sent ok = some s') :
    s'.rx = s.rx ∧ s'.topic = s.topic := by
  obtain ⟨topic, rx, n, site, out⟩ := s
  cases site with
  | hello history => cases ok <;> cases history <;> cases h <;> exact ⟨rfl, rfl⟩
  | replay m rest => cases ok <;> cases rest <;> cases h <;> exact ⟨rfl, rfl⟩
  | resync m rest len => cases ok <;> cases rest <;> cases h <;> exact ⟨rfl, rfl⟩
  | forward m => cases ok <;> cases h <;> exact ⟨rfl, rfl⟩
  | heartbeat => cases ok <;> cases h <;> exact ⟨rfl, rfl⟩
  | select => cases h
  | closed => cases h

theorem wake_recv {bus : LogBus Stamped} {out : LogBus Stamped × Socket Stamped}
    (h : s.wake bus .recv = some out) : s.site = .select ∧
      ∃ r, (bus.topicMut s.topic).tx.recv s.rx = some r ∧ s.received bus r = out := by
  unfold wake at h
  split at h
  · cases ‹Wake.recv = _›
  · obtain ⟨r, hr, he⟩ := Option.map_eq_some_iff.mp h
    exact ⟨‹_›, r, hr, he⟩
  · cases ‹Wake.recv = _›
  · cases ‹Wake.recv = _›
  · cases h

/-- The branches of the `select!` without a message. -/
theorem wake_other {bus : LogBus Stamped} {out : LogBus Stamped × Socket Stamped} {w : Wake}
    (h : s.wake bus w = some out) (hw : w ≠ .recv) (hsent : ∀ ok, w ≠ .sent ok) :
    s.site = .select ∧ (out = (bus, s) ∨ out = (bus, s.close) ∨
      out = (bus, { s with site := .heartbeat })) := by
  unfold wake at h
  split at h
  · exact absurd rfl (hsent _)
  · exact absurd rfl hw
  · rename_i leaves hsite
    refine ⟨hsite, ?_⟩
    cases leaves <;> cases h
    · exact .inl rfl
    · exact .inr (.inl rfl)
  · cases h
    exact ⟨‹_›, .inr (.inr rfl)⟩
  · cases h

end Socket

namespace Line

/-- Where a connection stands with one replay's debt. -/
structure Due (owed : List Stamped) (s : Socket Stamped) : Prop where
  paid : s.texts.filter (fun m => m ∈ owed) <+: owed
  whole : isOpen s.site = true → s.texts.filter (fun m => m ∈ owed) ++
    (todo s.site).filter (fun m => m ∈ owed) = owed
  other : ∀ m ∈ owed, m ∉ other s.site

theorem Due.of_whole {owed : List Stamped} {s : Socket Stamped}
    (hw : s.texts.filter (fun m => m ∈ owed) ++ (todo s.site).filter (fun m => m ∈ owed) = owed)
    (ho : ∀ m ∈ owed, m ∉ Line.other s.site) : Due owed s :=
  ⟨⟨_, hw⟩, fun _ => hw, ho⟩

theorem Due.close {owed : List Stamped} {s : Socket Stamped} (h : Due owed s) : Due owed s.close :=
  ⟨h.paid, fun ho => (nomatch ho), fun _ _ hm => (nomatch hm)⟩

/-- Sending messages that are not owed leaves the debt as it is. -/
theorem Due.besides {owed : List Stamped} {s s' : Socket Stamped} {added : List Stamped}
    (h : Due owed s) (hopen : isOpen s.site = true) (ht : todo s.site = [])
    (hadd : added ⊆ Line.other s.site) (htexts : s'.texts = s.texts ++ added)
    (ht' : todo s'.site = []) (ho : Line.other s'.site ⊆ Line.other s.site) : Due owed s' := by
  have hw := h.whole hopen
  have hnone : added.filter (fun m => m ∈ owed) = [] := by
    apply List.filter_eq_nil_iff.mpr
    intro m hm
    simpa using fun hmem => h.other m hmem (hadd hm)
  apply Due.of_whole
  · rw [htexts, ht', List.filter_append, hnone, List.append_nil, ← ht]
    exact hw
  · exact fun m hm hr => h.other m hm (ho hr)

/-- A send of what is owed pays, a send of anything else changes nothing. -/
theorem Due.sent {owed : List Stamped} {s s' : Socket Stamped} {ok : Bool} (h : Due owed s)
    (hs : s.sent ok = some s') : Due owed s' := by
  obtain ⟨topic, rx, n, site, out⟩ := s
  cases site with
  | select => cases hs
  | closed => cases hs
  | hello history =>
    have hsame : ∀ l : List Stamped, l = l ++ [] := fun l => (List.append_nil l).symm
    have hkeep : ∀ s : Socket Stamped, Line.other (s.replay history).site ⊆ history := by
      intro s
      rw [Socket.other_replay]
      exact List.Subset.refl _
    cases hs
    cases ok with
    | false =>
      exact h.besides rfl rfl (List.nil_subset _) ((Socket.texts_replay _ _).trans (hsame _))
        (Socket.todo_replay _ _) (hkeep _)
    | true =>
      exact h.besides rfl rfl (List.nil_subset _)
        ((Socket.texts_replay _ _).trans ((Socket.texts_write_subscribed _ _).trans (hsame _)))
        (Socket.todo_replay _ _) (hkeep _)
  | replay m rest =>
    cases ok with
    | false =>
      cases hs
      exact h.close
    | true =>
      cases hs
      have hadd : [m] ⊆ m :: rest := List.cons_subset.mpr ⟨List.mem_cons_self, List.nil_subset _⟩
      refine h.besides rfl rfl hadd
        ((Socket.texts_replay _ rest).trans (Socket.texts_write_text _ m)) (Socket.todo_replay _ _) ?_
      rw [if_pos rfl, Socket.other_replay]
      exact List.subset_cons_self _ _
  | forward m =>
    cases ok with
    | false =>
      cases hs
      exact h.close
    | true =>
      cases hs
      exact h.besides rfl rfl (List.Subset.refl _)
        (Socket.texts_write_text _ m) rfl (List.nil_subset _)
  | heartbeat =>
    cases ok with
    | false =>
      cases hs
      exact h.close
    | true =>
      cases hs
      exact h.besides rfl rfl (List.nil_subset _)
        ((Socket.texts_write_ping _).trans (List.append_nil _).symm) rfl (List.nil_subset _)
  | resync m rest len =>
    have hw := h.whole rfl
    cases ok with
    | false =>
      cases hs
      exact h.close
    | true =>
      cases hs
      apply Due.of_whole
      · rw [if_pos rfl, Socket.texts_resync, Socket.texts_write_text, Socket.todo_resync,
          List.filter_append, List.append_assoc, ← List.filter_append]
        exact hw
      · intro m' _
        rw [if_pos rfl, Socket.other_resync]
        exact List.not_mem_nil

/-- Nothing owed is still to come from the channel. -/
structure Past (f : Feed) (s : Socket Stamped) (owed : List Stamped) : Prop where
  known : owed ⊆ f.published s.topic
  unsent : ∀ m ∈ owed, m ∉ f.unsent s.topic
  channel : ∀ m ∈ owed, m ∉ (f.channel s.topic).sent.drop s.rx.next

/-- The counter is nought as long as nothing was sent. -/
def Counted (s : Socket Stamped) : Prop :=
  match s.site with
  | .hello history => s.sentHistory = history.length
  | .replay _ _ => True
  | .resync _ _ _ => True
  | .closed => True
  | _ => s.texts = [] → s.sentHistory = 0

/-- The invariant of runs that keep to `Unsent`. -/
structure Sound (σ : Line) : Prop where
  feed : σ.feed.Ordered
  counted : Counted σ.socket
  due : ∀ owed ∈ σ.owed, Due owed σ.socket
  past : ∀ owed ∈ σ.owed, Past σ.feed σ.socket owed

theorem Past.feed {f f' : Feed} {s : Socket Stamped} {owed : List Stamped} {e : FeedEvent}
    (h : Past f s owed) (hf : f.Ordered) (hs : f.step e = some f') : Past f' s owed := by
  cases e with
  | append t data =>
    cases hs
    refine ⟨?_, fun m hm => ?_, fun m hm => ?_⟩
    · rw [Feed.append_published]
      exact List.subset_append_of_subset_left _ h.known
    · rw [Feed.append_unsent]
      intro hmem
      rcases List.mem_append.mp hmem with ho | hn
      · exact h.unsent m hm ho
      · split at hn
        · rename_i ht
          have he := List.mem_singleton.mp hn
          have hp := hf.place (h.known hm)
          have hlt := (List.getElem?_eq_some_iff.mp hp).1
          rw [he, ht] at hlt
          exact Nat.lt_irrefl _ hlt
        · cases hn
    · rw [Feed.append_channel]
      exact h.channel m hm
  | send t i =>
    obtain ⟨sent, hsent⟩ := Feed.send_sent hs
    refine ⟨?_, fun m hm => ?_, fun m hm => ?_⟩
    · rw [hsent.published]
      exact h.known
    · rw [hsent.unsent, Function.update_apply]
      split
      · rename_i ht
        exact fun hmem => h.unsent m hm (ht ▸ List.mem_of_mem_eraseIdx hmem)
      · exact h.unsent m hm
    · rw [hsent.channel]
      intro hmem
      rw [List.drop_append] at hmem
      rcases List.mem_append.mp hmem with ho | hn
      · exact h.channel m hm ho
      · split at hn
        · rename_i ht
          have he := List.mem_singleton.mp (List.mem_of_mem_drop hn)
          exact h.unsent m hm (ht ▸ he ▸ List.mem_of_getElem? hsent.mine)
        · exact absurd (List.mem_of_mem_drop hn) List.not_mem_nil

theorem Counted.sent {s s' : Socket Stamped} {ok : Bool} (h : Counted s)
    (hs : s.sent ok = some s') : Counted s' := by
  obtain ⟨topic, rx, n, site, out⟩ := s
  have hne : ∀ (s : Socket Stamped) m, (s.write (.text m)).texts ≠ [] := by
    intro s m
    rw [Socket.texts_write_text]
    simp
  cases site with
  | select => cases hs
  | closed => cases hs
  | hello history =>
    cases hs
    cases history with
    | nil => cases ok <;> exact fun _ => h
    | cons m rest => cases ok <;> trivial
  | replay m rest =>
    cases ok with
    | false =>
      cases hs
      trivial
    | true =>
      cases hs
      cases rest with
      | nil => exact fun he => absurd he (hne _ m)
      | cons m' rest => trivial
  | resync m rest len =>
    cases ok with
    | false =>
      cases hs
      trivial
    | true =>
      cases hs
      cases rest with
      | nil => exact fun he => absurd he (hne _ m)
      | cons m' rest => trivial
  | forward m =>
    cases ok with
    | false =>
      cases hs
      trivial
    | true =>
      cases hs
      exact fun he => absurd he (hne _ m)
  | heartbeat =>
    cases ok with
    | false =>
      cases hs
      trivial
    | true =>
      cases hs
      intro he
      exact h (he ▸ (Socket.texts_write_ping _).symm)

/-- A receiver that has a message passes over it. -/
theorem Past.taken {f : Feed} {s : Socket Stamped} {owed : List Stamped} {m : Stamped} {rx : Receiver}
    {site : SocketSite Stamped} (h : Past f s owed)
    (hr : (f.channel s.topic).recv s.rx = some (.ok m, rx)) :
    Past f { s with rx := rx, site := site } owed ∧ m ∉ owed := by
  obtain ⟨hd, _⟩ := Channel.recv_ok hr
  have hmem : ∀ m' ∈ owed, m' ∉ m :: (f.channel s.topic).sent.drop rx.next := by
    intro m' hm'
    rw [← hd]
    exact h.channel m' hm'
  refine ⟨⟨h.known, h.unsent, fun m' hm' hin => ?_⟩, fun hm => ?_⟩
  · exact hmem m' hm' (List.mem_cons_of_mem _ hin)
  · exact hmem m hm List.mem_cons_self

/-- Before the first message every debt is empty: what was owed has been sent. -/
theorem Due.empty {owed : List Stamped} {s : Socket Stamped} (h : Due owed s)
    (hsite : s.site = .select) (ht : s.texts = []) : owed = [] := by
  have hw := h.whole (by rw [hsite]; rfl)
  rw [hsite, ht] at hw
  exact hw.symm

theorem Due.nil (s : Socket Stamped) : Due [] s := by
  have hnone : ∀ l : List Stamped, l.filter (fun m => m ∈ ([] : List Stamped)) = [] := by
    intro l
    simp
  apply Due.of_whole
  · rw [hnone, hnone]
    rfl
  · exact fun _ hm => (nomatch hm)

theorem Past.nil (f : Feed) (s : Socket Stamped) : Past f s [] :=
  ⟨List.nil_subset _, fun _ hm => (nomatch hm), fun _ hm => (nomatch hm)⟩

/-- A replay of the whole ring, started before anything was sent, pays for the
whole ring. -/
theorem Due.whole_ring {s : Socket Stamped} {ring : List Stamped} {n : Nat} (ht : s.texts = []) :
    Due (ring.filter (fun m => m ∉ s.texts)) (s.resync n ring) := by
  have hall : ring.filter (fun m => m ∉ s.texts) = ring := by
    apply List.filter_eq_self.mpr
    intro m _
    simp [ht]
  rw [hall]
  apply Due.of_whole
  · rw [Socket.texts_resync, ht, Socket.todo_resync]
    simp
  · intro m _
    rw [Socket.other_resync]
    exact List.not_mem_nil

theorem Counted.resync {s : Socket Stamped} {ring : List Stamped} :
    Counted (s.resync ring.length ring) := by
  cases ring with
  | nil => exact fun _ => rfl
  | cons m rest => trivial

/-- Noticing a lag before the first message puts the whole ring up for replay. -/
theorem Sound.lagged {σ : Line} (h : Sound σ) (hsite : σ.socket.site = .select)
    (ht : σ.socket.texts = [])
    (hring : ∀ m ∈ σ.feed.unsent σ.socket.topic, m ∉ σ.feed.ring σ.socket.topic) :
    Sound {
      feed := σ.feed.subscribe σ.socket.topic
      socket := { σ.socket with rx := (σ.feed.channel σ.socket.topic).subscribe }.resync
        (σ.feed.ring σ.socket.topic).length
        ((σ.feed.ring σ.socket.topic).drop
          (min σ.socket.sentHistory (σ.feed.ring σ.socket.topic).length))
      owed := σ.owed ++ [σ.missing] } := by
  have hn : σ.socket.sentHistory = 0 := by
    have hc := h.counted
    unfold Counted at hc
    rw [hsite] at hc
    exact hc ht
  rw [hn, Nat.zero_min, List.drop_zero]
  have hnone : ∀ owed ∈ σ.owed, owed = [] := fun owed hm => (h.due owed hm).empty hsite ht
  refine ⟨h.feed.subscribe _, Counted.resync, fun owed hm => ?_, fun owed hm => ?_⟩
  · rcases List.mem_append.mp hm with ho | hnew
    · rw [hnone owed ho]
      exact Due.nil _
    · rw [List.mem_singleton.mp hnew]
      have ht' : ({ σ.socket with rx := (σ.feed.channel σ.socket.topic).subscribe } :
          Socket Stamped).texts = [] := ht
      exact Due.whole_ring ht'
  · rcases List.mem_append.mp hm with ho | hnew
    · rw [hnone owed ho]
      exact Past.nil _ _
    · rw [List.mem_singleton.mp hnew]
      have hin : ∀ m ∈ σ.missing, m ∈ σ.feed.ring σ.socket.topic :=
        fun m hm => List.mem_of_mem_filter hm
      refine ⟨fun m hm => ?_, fun m hm hu => ?_, fun m hm => ?_⟩
      · rw [Socket.resync_topic]
        exact (h.feed.suffix _).subset (hin m hm)
      · rw [Socket.resync_topic] at hu
        exact hring m hu (hin m hm)
      · rw [Socket.resync_topic, Socket.resync_rx, Feed.subscribe_channel, Channel.subscribe_next,
          List.drop_length]
        exact List.not_mem_nil

/-- A turn of the loop without a message. -/
theorem Sound.idle {σ : Line} (h : Sound σ) {bus : LogBus Stamped} {s' : Socket Stamped}
    (hw : σ.socket.site = .select ∧ ((bus, s') = (σ.feed.bus, σ.socket) ∨
      (bus, s') = (σ.feed.bus, σ.socket.close) ∨
      (bus, s') = (σ.feed.bus, { σ.socket with site := .heartbeat }))) :
    Sound { feed := { σ.feed with bus := bus }, socket := s', owed := σ.owed } := by
  obtain ⟨hsite, he | he | he⟩ := hw
  · cases he
    exact h
  · cases he
    refine ⟨h.feed, trivial, fun owed hm => (h.due owed hm).close, fun owed hm => ?_⟩
    exact ⟨(h.past owed hm).known, (h.past owed hm).unsent, (h.past owed hm).channel⟩
  · cases he
    refine ⟨h.feed, ?_, fun owed hm => ?_, fun owed hm => ?_⟩
    · have hc := h.counted
      unfold Counted at hc
      rw [hsite] at hc
      exact hc
    · have hw := (h.due owed hm).whole (by rw [hsite]; rfl)
      rw [hsite] at hw
      exact Due.of_whole hw (fun _ _ hin => (nomatch hin))
    · exact ⟨(h.past owed hm).known, (h.past owed hm).unsent, (h.past owed hm).channel⟩

theorem Sound.step {σ σ' : Line} {e : LineEvent} (h : Sound σ) (hu : Unsent σ e)
    (hs : σ.step e = some σ') : Sound σ' := by
  cases e with
  | feed e =>
    obtain ⟨f', hf, rfl⟩ := Option.map_eq_some_iff.mp hs
    exact ⟨h.feed.step hf, h.counted, h.due, fun owed hm => (h.past owed hm).feed h.feed hf⟩
  | wake w =>
    obtain ⟨⟨bus, s'⟩, hw, rfl⟩ := Option.map_eq_some_iff.mp hs
    cases w with
    | sent ok =>
      obtain ⟨s'', hsent, he⟩ := Option.map_eq_some_iff.mp hw
      cases he
      obtain ⟨hrx, htopic⟩ := Socket.sent_keeps hsent
      refine ⟨h.feed, h.counted.sent hsent, fun owed hm => (h.due owed hm).sent hsent,
        fun owed hm => ?_⟩
      have hp := h.past owed hm
      exact ⟨htopic ▸ hp.known, htopic ▸ hp.unsent, htopic ▸ hrx ▸ hp.channel⟩
    | recv =>
      obtain ⟨hsite, r, hr, hout⟩ := Socket.wake_recv _ hw
      obtain ⟨res, rx⟩ := r
      cases res with
      | ok m =>
        have hl : σ.lags .recv = false := by
          unfold lags
          rw [show (σ.feed.channel σ.socket.topic).recv σ.socket.rx = some (.ok m, rx) from hr]
        cases hout
        rw [hl]
        have htaken : ∀ owed ∈ σ.owed,
            Past σ.feed { σ.socket with rx := rx, site := .forward m } owed ∧ m ∉ owed :=
          fun owed hm => (h.past owed hm).taken hr
        refine ⟨h.feed, ?_, fun owed hm => ?_, fun owed hm => (htaken owed hm).1⟩
        · have hc := h.counted
          unfold Counted at hc
          rw [hsite] at hc
          exact hc
        · have hd := h.due owed hm
          have hw := hd.whole (by rw [hsite]; rfl)
          rw [hsite] at hw
          apply Due.of_whole hw
          intro m' hm' hin
          rw [List.mem_singleton.mp hin] at hm'
          exact (htaken owed hm).2 hm'
      | error err =>
        cases err with
        | closed => exact absurd hr Channel.recv_not_closed
        | lagged n =>
          have hl : σ.lags .recv = true := by
            unfold lags
            rw [show (σ.feed.channel σ.socket.topic).recv σ.socket.rx =
              some (.error (.lagged n), rx) from hr]
          cases hout
          rw [hl, if_pos rfl]
          exact h.lagged hsite (hu hl).1 (hu hl).2
    | client leaves =>
      exact h.idle (Socket.wake_other _ hw (by nofun) (by nofun))
    | tick =>
      exact h.idle (Socket.wake_other _ hw (by nofun) (by nofun))

theorem Sound.opened {f : Feed} (h : f.Ordered) (topic : String) : Sound (opened f topic) :=
  ⟨h.subscribe topic, rfl, fun _ hm => (nomatch hm), fun _ hm => (nomatch hm)⟩

theorem Sound.recovered {σ : Line} (h : Sound σ) : σ.Recovered := by
  refine ⟨fun owed hm => (h.due owed hm).paid, fun hopen htodo owed hm => ?_⟩
  have hw := (h.due owed hm).whole hopen
  rw [htodo] at hw
  simpa using hw

/-- A connection on which lags are noticed only so gets all that the ring held. -/
theorem lag_recovery {f : Feed} {topic : String} {σ : Line}
    (hf : Feed.machine.Reaches Machine.anyEvent Feed.start f)
    (h : machine.Reaches Unsent (opened f topic) σ) : σ.Recovered := by
  have hord : f.Ordered := by
    apply hf.keeps Feed.Ordered.start
    exact fun f e f' hv _ hs => hv.step hs
  apply Sound.recovered
  apply h.keeps (Sound.opened hord topic)
  exact fun σ e σ' hv hu hs => hv.step hu hs

/-- A topic on which `n` messages were published, each call over before the next. -/
structure Flooded (f : Feed) (topic : String) (n : Nat) : Prop where
  ordered : f.Ordered
  unsent : f.unsent topic = []
  count : (f.published topic).length = n
  sent : (f.channel topic).sent.length = n
  ring : (f.ring topic).length = min n 512
  capacity : (f.channel topic).capacity = 1024
  historyCapacity : f.bus.historyCapacity = 512

/-- The ring has only the newest messages. -/
theorem Flooded.late {f : Feed} {topic : String} {n : Nat} (h : Flooded f topic n) {m : Stamped}
    (hm : m ∈ f.ring topic) : n - min n 512 ≤ m.no := by
  have hd := suffix_eq_drop (h.ordered.suffix topic)
  rw [h.count, h.ring] at hd
  rw [hd] at hm
  exact (h.ordered.mem_drop (List.mem_of_mem_drop hm)).mp hm

theorem Flooded.two {f : Feed} {topic : String} {n : Nat} (h : Flooded f topic n) (hn : 1 < n) :
    ∃ r₀ r₁ rest, f.ring topic = r₀ :: r₁ :: rest := by
  have hl := h.ring
  match hc : f.ring topic with
  | [] =>
    rw [hc, List.length_nil] at hl
    omega
  | [_] =>
    rw [hc, List.length_singleton] at hl
    omega
  | r₀ :: r₁ :: rest => exact ⟨r₀, r₁, rest, rfl⟩

/-- One more call of `publish`, undisturbed. -/
theorem Flooded.publish {f : Feed} {topic : String} {n : Nat} (h : Flooded f topic n) (data : String) :
    ∃ f', (f.append topic data).send topic 0 = some f' ∧ Flooded f' topic (n + 1) := by
  have hu : (f.append topic data).unsent topic = [f.next topic data] := by
    rw [Feed.append_unsent, h.unsent, if_pos rfl, List.nil_append]
  obtain ⟨f', hf⟩ : ∃ f', (f.append topic data).send topic 0 = some f' := by
    unfold Feed.send
    rw [hu]
    exact ⟨_, rfl⟩
  obtain ⟨m, hm⟩ := Feed.send_sent hf
  refine ⟨f', hf, (h.ordered.append topic data).send hf, ?_, ?_, ?_, ?_, ?_, ?_⟩
  · rw [hm.unsent, Function.update_self, hu]
    rfl
  · rw [hm.published, Feed.append_published, if_pos rfl, List.length_append, h.count]
    rfl
  · rw [hm.channel, if_pos rfl, Feed.append_channel, List.length_append, h.sent]
    rfl
  · rw [hm.ring, Feed.append_ring, if_pos rfl, h.historyCapacity]
    unfold pushBounded
    split
    · rw [List.length_append, List.length_tail, List.length_singleton, h.ring]
      have := h.ring
      omega
    · rw [List.length_append, List.length_singleton, h.ring]
      have := h.ring
      omega
  · rw [hm.capacity, Feed.append_channel, h.capacity]
  · obtain ⟨m', _, rfl⟩ := Option.map_eq_some_iff.mp hf
    exact h.historyCapacity

/-- Any number of further calls while the connection does nothing. -/
theorem Flooded.more (good : Line → LineEvent → Prop) (hg : ∀ σ e, good σ (.feed e)) {σ : Line}
    {topic : String} {n : Nat} (h : Flooded σ.feed topic n) (k : Nat) :
    ∃ f, machine.Reaches good σ { σ with feed := f } ∧ Flooded f topic (n + k) := by
  induction k with
  | zero => exact ⟨σ.feed, .refl, h⟩
  | succ k ih =>
    obtain ⟨f, hr, hf⟩ := ih
    obtain ⟨f', hs, hf'⟩ := hf.publish ""
    have happend : machine.Moves good { σ with feed := f } { σ with feed := f.append topic "" } :=
      ⟨.feed (.append topic ""), hg _ _, rfl⟩
    have hsend : machine.Moves good { σ with feed := f.append topic "" } { σ with feed := f' } := by
      refine ⟨.feed (.send topic 0), hg _ _, ?_⟩
      simp only [machine, step, Feed.step, hs, Option.map_some]
    exact ⟨f', (hr.tail happend).tail hsend, hf'⟩

/-- A connection too far behind gets its answer. -/
theorem Flooded.lag (σ : Line) {n : Nat} (h : Flooded σ.feed σ.socket.topic n)
    (hsite : σ.socket.site = .select) (hn : σ.socket.rx.next + 1024 < n) :
    σ.lags .recv = true ∧ σ.step (.wake .recv) = some {
      feed := σ.feed.subscribe σ.socket.topic
      socket := { σ.socket with rx := (σ.feed.channel σ.socket.topic).subscribe }.resync
        (σ.feed.ring σ.socket.topic).length
        ((σ.feed.ring σ.socket.topic).drop
          (min σ.socket.sentHistory (σ.feed.ring σ.socket.topic).length))
      owed := σ.owed ++ [σ.missing] } := by
  have hlt : σ.socket.rx.next + (σ.feed.channel σ.socket.topic).capacity <
      (σ.feed.channel σ.socket.topic).sent.length := by
    rw [h.capacity, h.sent]
    exact hn
  have hr : (σ.feed.channel σ.socket.topic).recv σ.socket.rx = some (.error (.lagged _), ⟨_⟩) :=
    if_pos hlt
  have hl : σ.lags .recv = true := by
    unfold lags
    rw [hr]
  refine ⟨hl, ?_⟩
  have hw : σ.socket.wake σ.feed.bus .recv =
      ((σ.feed.channel σ.socket.topic).recv σ.socket.rx).map (σ.socket.received σ.feed.bus) := by
    unfold Socket.wake
    rw [hsite]
    rfl
  simp only [step, hw, hr, Option.map_some, hl, if_true]
  rfl

/-- The next entry of a replay reaches the peer. -/
theorem replays {σ : Line} {m : Stamped} {rest : List Stamped} {len : Nat}
    (h : σ.socket.site = .resync m rest len) : σ.step (.wake (.sent true)) =
      some { σ with socket := (σ.socket.write (.text m)).resync len rest } := by
  have hs : σ.socket.sent true = some ((σ.socket.write (.text m)).resync len rest) := by
    unfold Socket.sent
    rw [h]
    rfl
  have hl : σ.lags (.sent true) = false := rfl
  simp only [step, Socket.wake, hs, Option.map_some, hl, Bool.false_eq_true, if_false]

instance (σ : Line) : (e : LineEvent) → Decidable (Unsent σ e)
  | .wake w => inferInstanceAs (Decidable (σ.lags w = true → σ.socket.texts = [] ∧
      ∀ m ∈ σ.feed.unsent σ.socket.topic, m ∉ σ.feed.ring σ.socket.topic))
  | .feed _ => .isTrue trivial

/-- A connection past its greeting, on a topic that had no messages. -/
def greeted : Line :=
  (machine.play Unsent (opened Feed.start "t") [.wake (.sent true)]).get (by decide)

/-- A lag right after the greeting is made good. -/
theorem lag_recovery_at_first : ∃ σ, machine.Reaches Unsent (opened Feed.start "t") σ ∧
    σ.owed.map List.length = [512] ∧ σ.Recovered := by
  have hr : machine.Reaches Unsent (opened Feed.start "t") greeted :=
    Machine.play_reaches (Option.some_get _).symm
  have h0 : Flooded greeted.feed "t" 0 :=
    ⟨(Feed.Ordered.start).subscribe "t", rfl, rfl, rfl, rfl, rfl, rfl⟩
  obtain ⟨f, hf, hn⟩ := h0.more Unsent (fun _ _ => trivial) 1025
  have hlag := Flooded.lag { greeted with feed := f } hn rfl (show 0 + 1024 < 0 + 1025 by omega)
  have hgood : Unsent { greeted with feed := f } (.wake .recv) := by
    refine fun _ => ⟨rfl, ?_⟩
    rw [show f.unsent greeted.socket.topic = [] from hn.unsent]
    exact fun m hm => (nomatch hm)
  have hall := (hr.trans hf).tail ⟨.wake .recv, hgood, hlag.2⟩
  refine ⟨_, hall, ?_, lag_recovery .refl hall⟩
  have hmissing : missing { greeted with feed := f } = f.ring "t" :=
    List.filter_eq_self.mpr (fun m _ => rfl)
  simp only [hmissing, List.map_cons, List.map_append, List.map_nil, hn.ring]
  rfl

/-- A connection that forwarded one message. -/
def forwarded : Line :=
  (machine.play Machine.anyEvent (opened Feed.start "t") [.wake (.sent true),
    .feed (.append "t" "a"), .feed (.send "t" 0), .wake .recv, .wake (.sent true)]).get (by decide)

/-- After one message the replay skips the first entry of a ring that holds none
of the messages sent. -/
theorem lag_recovery_skips : ¬ ∀ f topic σ, Feed.machine.Reaches Machine.anyEvent Feed.start f →
    machine.Reaches Machine.anyEvent (opened f topic) σ → σ.Recovered := by
  intro hall
  have hr : machine.Reaches Machine.anyEvent (opened Feed.start "t") forwarded :=
    Machine.play_reaches (Option.some_get _).symm
  have hord : forwarded.feed.Ordered := by
    obtain ⟨f', hs⟩ : ∃ f', ((Feed.start.subscribe "t").append "t" "a").send "t" 0 = some f' :=
      ⟨_, rfl⟩
    have ho := ((Feed.Ordered.start.subscribe "t").append "t" "a").send hs
    cases hs
    exact ho
  have h1 : Flooded forwarded.feed "t" 1 := ⟨hord, rfl, rfl, rfl, rfl, rfl, rfl⟩
  obtain ⟨f, hf, hn⟩ := h1.more Machine.anyEvent (fun _ _ => trivial) 1025
  have hlag := Flooded.lag { forwarded with feed := f } hn rfl (show 1 + 1024 < 1 + 1025 by omega)
  have hlate : ∀ m ∈ f.ring "t", m ∉ [(⟨0, "a"⟩ : Stamped)] := by
    intro m hm he
    have hno := hn.late hm
    rw [List.mem_singleton.mp he] at hno
    exact absurd hno (by decide)
  have hmissing : missing { forwarded with feed := f } = f.ring "t" :=
    List.filter_eq_self.mpr (fun m hm => decide_eq_true (hlate m hm))
  have hnodup : (f.ring "t").Nodup :=
    (hn.ordered.nodup "t").sublist (hn.ordered.suffix "t").sublist
  obtain ⟨r₀, r₁, rest, hring⟩ := hn.two (by omega)
  have htail : (f.ring "t").drop (min 1 (f.ring "t").length) = r₁ :: rest := by
    rw [hring]
    rfl
  obtain ⟨σ, hσ, howed, hsite, htexts⟩ : ∃ σ, machine.Reaches Machine.anyEvent forwarded σ ∧
      f.ring "t" ∈ σ.owed ∧ σ.socket.site = .resync r₁ rest (f.ring "t").length ∧
      σ.socket.texts = [⟨0, "a"⟩] := by
    refine ⟨_, hf.tail ⟨.wake .recv, trivial, hlag.2⟩, ?_, ?_, ?_⟩
    · exact hmissing ▸ List.mem_append_right _ List.mem_cons_self
    · exact congrArg (fun l => (Socket.resync _ _ l).site) htail
    · exact Socket.texts_resync _ _ _
  have hnext : machine.Moves Machine.anyEvent σ
      { σ with socket := (σ.socket.write (.text r₁)).resync (f.ring "t").length rest } :=
    ⟨.wake (.sent true), trivial, replays hsite⟩
  have hrec := hall _ _ _ .refl ((hr.trans hσ).tail hnext)
  have hpre := hrec.inOrder _ howed
  rw [Socket.texts_resync, Socket.texts_write_text, htexts, hring] at hpre
  have h0 : (⟨0, "a"⟩ : Stamped) ∉ r₀ :: r₁ :: rest := by
    rw [← hring]
    exact fun hm => hlate _ hm List.mem_cons_self
  have hfilter : ([(⟨0, "a"⟩ : Stamped)] ++ [r₁]).filter (fun m => m ∈ r₀ :: r₁ :: rest) = [r₁] := by
    rw [List.filter_append, List.filter_eq_nil_iff.mpr, List.filter_eq_self.mpr]
    · rfl
    · simp
    · intro m hm
      rw [List.mem_singleton.mp hm]
      simpa using h0
  rw [hfilter] at hpre
  have he : r₁ = r₀ := (List.cons_prefix_cons.mp hpre).1
  rw [hring, he] at hnodup
  exact (List.nodup_cons.mp hnodup).1 List.mem_cons_self

end Line

end AgentGrove
