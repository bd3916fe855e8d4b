import AgentGrove.Streaming.Feed

namespace AgentGrove

open Coop

/-- A caller of `subscribe`: it writes the history out, then what it receives. -/
structure Subscriber where
  topic : String
  rx : Receiver
  history : List Stamped
  received : List Stamped
  /-- The stamp of the ring's oldest entry, or of the next message. -/
  base : Nat
  lagged : Bool
  attached : Bool

def Subscriber.seen (s : Subscriber) : List Stamped := s.history ++ s.received

/-- A bus, the publishers and the subscribers. -/
structure Traffic where
  feed : Feed
  subs : List Subscriber

inductive BusEvent where
  | append (topic data : String)
  | send (topic : String) (i : Nat)
  | subscribe (topic : String)
  | recv (j : Nat)
  | leave (j : Nat)

namespace Traffic

def start : Traffic := ⟨Feed.start, []⟩

/-- The receiver and the history that `subscribe` returns. -/
def subscriber (f : Feed) (topic : String) : Subscriber where
  topic := topic
  rx := (f.bus.subscribe topic).2.1
  history := (f.bus.subscribe topic).2.2
  received := []
  base := (f.published topic).length - (f.ring topic).length
  lagged := false
  attached := true

def take (s : Subscriber) : Except RecvError Stamped × Receiver → Subscriber
  | (.ok m, rx) => { s with rx := rx, received := s.received ++ [m] }
  | (.error _, rx) => { s with rx := rx, lagged := true }

/-- `recv` on the subscriber's channel. -/
def recv (f : Feed) (s : Subscriber) : Option Subscriber :=
  if s.attached then ((f.channel s.topic).recv s.rx).map (take s) else none

def step (σ : Traffic) : BusEvent → Option Traffic
  | .append topic data => some { σ with feed := σ.feed.append topic data }
  | .send topic i => (σ.feed.send topic i).map (fun f => { σ with feed := f })
  | .subscribe topic =>
    some ⟨σ.feed.subscribe topic, σ.subs ++ [subscriber σ.feed topic]⟩
  | .recv j => do
    let s ← σ.subs[j]?
    let s' ← recv σ.feed s
    return { σ with subs := σ.subs.set j s' }
  | .leave j => σ.subs[j]?.map (fun s => { σ with subs := σ.subs.set j { s with attached := false } })

def machine : Machine Traffic BusEvent := ⟨step⟩

/-- Every call of `publish` on the topic is over and the subscriber has read
all there is. -/
def Settled (f : Feed) (s : Subscriber) : Prop :=
  f.unsent s.topic = [] ∧ s.rx.next = (f.channel s.topic).sent.length

instance (f : Feed) (s : Subscriber) : Decidable (Settled f s) := inferInstanceAs (Decidable (_ ∧ _))

/-- What subscribers that never lagged are promised. -/
structure Delivered (σ : Traffic) : Prop where
  once : ∀ s ∈ σ.subs, s.lagged = false → ∀ m, s.seen.count m ≤ 1
  all : ∀ s ∈ σ.subs, s.lagged = false → s.attached = true → Settled σ.feed s →
    ∀ m ∈ σ.feed.published s.topic, m ∈ s.seen ↔ s.base ≤ m.no
  ordered : ∀ s ∈ σ.subs, s.lagged = false → s.seen.Sublist (σ.feed.published s.topic)
  agree : ∀ s ∈ σ.subs, ∀ s' ∈ σ.subs, s.lagged = false → s'.lagged = false → s.topic = s'.topic →
    s.seen.filter (fun m => m ∈ s'.seen) = s'.seen.filter (fun m => m ∈ s.seen)

/-- Someone still listens on the topic and has not lagged. -/
def Listened (σ : Traffic) (topic : String) : Prop :=
  ∃ s ∈ σ.subs, s.topic = topic ∧ s.attached = true ∧ s.lagged = false

instance (σ : Traffic) (topic : String) : Decidable (σ.Listened topic) :=
  inferInstanceAs (Decidable (∃ s ∈ σ.subs, _))

/-- No `subscribe` falls between the two steps of a `publish` on its topic, and
while someone listens calls send in the order in which they had the mutex. -/
def Paired (σ : Traffic) : BusEvent → Prop
  | .subscribe topic => σ.feed.unsent topic = []
  | .send topic i => σ.Listened topic → i = 0
  | _ => True

instance (σ : Traffic) : (e : BusEvent) → Decidable (Paired σ e)
  | .subscribe topic => inferInstanceAs (Decidable (σ.feed.unsent topic = []))
  | .send topic i => inferInstanceAs (Decidable (σ.Listened topic → i = 0))
  | .append _ _ => .isTrue trivial
  | .recv _ => .isTrue trivial
  | .leave _ => .isTrue trivial

/-- How a subscriber stands to the ring's order: what it has seen, what its
channel still has for it and what is not sent yet follow without a gap. -/
structure Level (f : Feed) (s : Subscriber) : Prop where
  seen : s.lagged = false → s.seen <+: (f.published s.topic).drop s.base
  base : s.base ≤ (f.published s.topic).length
  next : s.lagged = false → s.attached = true → s.rx.next ≤ (f.channel s.topic).sent.length
  whole : s.lagged = false → s.attached = true →
    s.seen ++ ((f.channel s.topic).sent.drop s.rx.next ++ f.unsent s.topic) =
      (f.published s.topic).drop s.base

theorem Level.append {f : Feed} {s : Subscriber} (h : Level f s) (t data : String) :
    Level (f.append t data) s where
  seen hl := by
    rw [Feed.append_published, List.drop_append_of_le_length h.base]
    exact (h.seen hl).trans (List.prefix_append _ _)
  base := by
    rw [Feed.append_published, List.length_append]
    exact Nat.le_add_right_of_le h.base
  next hl ha := by
    rw [Feed.append_channel]
    exact h.next hl ha
  whole hl ha := by
    rw [Feed.append_channel, Feed.append_unsent, Feed.append_published,
      List.drop_append_of_le_length h.base, ← h.whole hl ha]
    simp only [List.append_assoc]

theorem Level.send {f f' : Feed} {s : Subscriber} {t : String} {i : Nat} {m : Stamped}
    (h : Level f s) (hs : f.Sent t i m f')
    (hi : s.topic = t → s.attached = true → s.lagged = false → i = 0) : Level f' s where
  seen hl := by
    rw [hs.published]
    exact h.seen hl
  base := by
    rw [hs.published]
    exact h.base
  next hl ha := by
    rw [hs.channel, List.length_append]
    exact Nat.le_add_right_of_le (h.next hl ha)
  whole hl ha := by
    rw [hs.published, ← h.whole hl ha, hs.channel, hs.unsent, Function.update_apply,
      List.drop_append_of_le_length (h.next hl ha)]
    split
    · rename_i ht
      have hm := hs.mine
      rw [hi ht ha hl] at hm ⊢
      rw [ht]
      cases hu : f.unsent t with
      | nil =>
        rw [hu] at hm
        cases hm
      | cons a rest =>
        rw [hu] at hm
        cases hm
        simp
    · rw [List.append_nil]

theorem Level.subscribe {f : Feed} {s : Subscriber} (h : Level f s) (t : String) :
    Level (f.subscribe t) s where
  seen := h.seen
  base := h.base
  next hl ha := by
    rw [Feed.subscribe_channel]
    exact h.next hl ha
  whole hl ha := by
    rw [Feed.subscribe_channel]
    exact h.whole hl ha

/-- A new subscriber has the whole ring, and all that follows is still to come. -/
theorem Level.fresh {f : Feed} (h : f.Ordered) {t : String} (hu : f.unsent t = []) :
    Level f (subscriber f t) := by
  have hr : f.ring t = (f.published t).drop ((f.published t).length - (f.ring t).length) :=
    suffix_eq_drop (h.suffix t)
  have hw : (subscriber f t).seen = (f.published t).drop (subscriber f t).base := by
    rw [Subscriber.seen, subscriber, List.append_nil]
    exact hr
  refine ⟨fun _ => ?_, Nat.sub_le _ _, fun _ _ => Nat.le_refl _, fun _ _ => ?_⟩
  · rw [hw]
    exact List.prefix_rfl
  · have hd : (f.channel t).sent.drop (f.channel t).sent.length = [] := List.drop_length
    have hn : (subscriber f t).rx.next = (f.channel t).sent.length := rfl
    rw [hw, hn]
    simp only [subscriber, hd, hu, List.append_nil]

theorem Level.recv {f : Feed} {s s' : Subscriber} (h : Level f s) (hs : Traffic.recv f s = some s') :
    Level f s' := by
  unfold Traffic.recv at hs
  split at hs
  · rename_i ha
    obtain ⟨⟨out, rx⟩, hc, rfl⟩ := Option.map_eq_some_iff.mp hs
    cases out with
    | error e =>
      exact ⟨fun hl => (nomatch hl), h.base, fun hl => (nomatch hl), fun hl => (nomatch hl)⟩
    | ok m =>
      obtain ⟨hd, hn⟩ := Channel.recv_ok hc
      have hwhole : s.lagged = false → (s.seen ++ [m]) ++ ((f.channel s.topic).sent.drop rx.next ++
          f.unsent s.topic) = (f.published s.topic).drop s.base := by
        intro hl
        rw [← h.whole hl ha, hd]
        simp only [List.append_assoc, List.cons_append, List.nil_append]
      have hseen : (take s (.ok m, rx)).seen = s.seen ++ [m] := by
        simp only [Subscriber.seen, take, List.append_assoc]
      refine ⟨fun hl => ?_, h.base, fun _ _ => hn, fun hl _ => ?_⟩
      · rw [hseen]
        exact ⟨_, hwhole hl⟩
      · rw [hseen]
        exact hwhole hl
  · cases hs

theorem Level.leave {f : Feed} {s : Subscriber} (h : Level f s) :
    Level f { s with attached := false } :=
  ⟨h.seen, h.base, fun _ ha => (nomatch ha), fun _ ha => (nomatch ha)⟩

/-- The invariant of runs that keep to `Paired`. -/
structure Even (σ : Traffic) : Prop where
  feed : σ.feed.Ordered
  subs : ∀ s ∈ σ.subs, Level σ.feed s

theorem Even.set {σ : Traffic} {s : Subscriber} (h : Even σ) (j : Nat) (hs : Level σ.feed s) :
    Even { σ with subs := σ.subs.set j s } := by
  refine ⟨h.feed, fun s' hs' => ?_⟩
  rcases List.mem_or_eq_of_mem_set hs' with hm | he
  · exact h.subs s' hm
  · exact he ▸ hs

theorem Even.step {σ σ' : Traffic} {e : BusEvent} (h : Even σ) (hp : Paired σ e)
    (hs : σ.step e = some σ') : Even σ' := by
  cases e with
  | append t data =>
    cases hs
    exact ⟨h.feed.append t data, fun s hm => (h.subs s hm).append t data⟩
  | send t i =>
    obtain ⟨f', hf, rfl⟩ := Option.map_eq_some_iff.mp hs
    obtain ⟨m, hm⟩ := Feed.send_sent hf
    refine ⟨h.feed.send hf, fun s hmem => (h.subs s hmem).send hm ?_⟩
    intro ht ha hl
    exact hp ⟨s, hmem, ht, ha, hl⟩
  | subscribe t =>
    cases hs
    refine ⟨h.feed.subscribe t, fun s hm => ?_⟩
    rcases List.mem_append.mp hm with ho | hn
    · exact (h.subs s ho).subscribe t
    · rw [List.mem_singleton.mp hn]
      exact (Level.fresh h.feed hp).subscribe t
  | recv j =>
    simp only [Traffic.step, Option.bind_eq_bind, Option.bind_eq_some_iff] at hs
    obtain ⟨s, hj, s', hr, he⟩ := hs
    cases he
    exact h.set j ((h.subs s (List.mem_of_getElem? hj)).recv hr)
  | leave j =>
    obtain ⟨s, hj, rfl⟩ := Option.map_eq_some_iff.mp hs
    exact h.set j (h.subs s (List.mem_of_getElem? hj)).leave

theorem Even.delivered {σ : Traffic} (h : Even σ) : σ.Delivered := by
  have hsub : ∀ s ∈ σ.subs, s.lagged = false → s.seen.Sublist (σ.feed.published s.topic) :=
    fun s hs hl => ((h.subs s hs).seen hl).sublist.trans (List.drop_sublist _ _)
  refine ⟨fun s hs hl m => ?_, fun s hs hl ha hset m hm => ?_, hsub, fun s hs s' hs' hl hl' ht => ?_⟩
  · exact List.nodup_iff_count_le_one.mp ((h.feed.nodup s.topic).sublist (hsub s hs hl)) m
  · have hw := (h.subs s hs).whole hl ha
    rw [hset.1, hset.2, List.drop_length, List.append_nil, List.append_nil] at hw
    rw [hw]
    exact h.feed.mem_drop hm
  · exact common_order (h.feed.nodup s.topic) (hsub s hs hl) (ht ▸ hsub s' hs' hl')

/-- Over any interleaving in which `subscribe` and the sends keep clear of each
other so, every subscriber that keeps up gets each message once and in order. -/
theorem log_bus_delivers {σ : Traffic} (h : machine.Reaches Paired start σ) : σ.Delivered := by
  apply Even.delivered
  apply h.keeps
  · exact ⟨Feed.Ordered.start, fun s hs => nomatch hs⟩
  · exact fun s e s' hv hp hs => hv.step hp hs

def twoListeners : Traffic :=
  (machine.play Paired start [.subscribe "t", .append "t" "a", .send "t" 0, .subscribe "t",
    .append "t" "b", .send "t" 0, .recv 0, .recv 0, .recv 1]).get (by decide)

/-- A listener from before and one from between two messages. -/
theorem log_bus_delivers_to_two : ∃ σ, machine.Reaches Paired start σ ∧
    σ.subs.map Subscriber.seen = [[⟨0, "a"⟩, ⟨1, "b"⟩], [⟨0, "a"⟩, ⟨1, "b"⟩]] ∧ σ.Delivered := by
  have hr : machine.Reaches Paired start twoListeners := Machine.play_reaches (Option.some_get _).symm
  exact ⟨twoListeners, hr, rfl, log_bus_delivers hr⟩

def doubled : Traffic :=
  (machine.play Machine.anyEvent start
    [.append "t" "a", .subscribe "t", .send "t" 0, .recv 0]).get (by decide)

/-- A message already in the ring but not yet sent comes to a new subscriber
with the history and again with the channel. -/
theorem log_bus_doubles : ¬ ∀ σ, machine.Reaches Machine.anyEvent start σ → σ.Delivered := by
  intro hall
  have hr : machine.Reaches Machine.anyEvent start doubled := Machine.play_reaches (Option.some_get _).symm
  have hd := (hall doubled hr).once _ (List.mem_singleton.mpr rfl) rfl ⟨0, "a"⟩
  exact absurd hd (by decide)

end Traffic

end AgentGrove
