import AgentGrove.Streaming.Bubble
import AgentGrove.Model.Socket
import AgentGrove.Coop.Machine

namespace AgentGrove.Web

open Coop

/-- A chat's topic and one client of it. -/
structure Link where
  bus : LogBus Message
  session : ChatSession
  /-- What the open socket has sent and the client not yet seen. -/
  wire : Option (List Message)
  published : List Message
  /-- The frames the client has handled, each time it did. -/
  heard : List WsFrame

inductive LinkEvent where
  | publish (m : Message)
  | connect
  | drop
  | message
  | flush
  | poll
  | answer (view : ChatView)

namespace Link

def topic : String := "chat"

def start (store : ChatStore) : Link where
  bus := LogBus.default
  session := { store := store, pending := [], reconciling := 0 }
  wire := none
  published := []
  heard := []

def history (l : Link) : List Message := (l.bus.topicMut topic).history

def frameOf : Message → List WsFrame
  | .frame f => [f]
  | _ => []

/-- The frames among messages. -/
def frames (ms : List Message) : List WsFrame := ms.flatMap frameOf

def step (l : Link) : LinkEvent → Option Link
  | .publish m => some { l with
      bus := (l.bus.publishAppend topic m).publishSend topic m
      wire := l.wire.map (fun w => w ++ [m])
      published := l.published ++ [m] }
  -- the server greets and replays what it retained
  | .connect =>
    match l.wire with
    | none =>
      let (bus, _, history) := l.bus.subscribe topic
      some { l with bus := bus, wire := some (.subscribed :: history) }
    | some _ => none
  | .drop => some { l with wire := none }
  | .message =>
    match l.wire with
    | some (m :: rest) => some { l with
        session := onMessage l.session m, wire := some rest, heard := l.heard ++ frameOf m }
    | _ => none
  | .flush => some { l with session := Web.flush l.session }
  | .poll => some { l with session := askReconcile l.session }
  | .answer view =>
    if l.session.reconciling = 0 then none
    else some { l with session := { l.session with
      store := reconcileStore l.session.store view
      reconciling := l.session.reconciling - 1 } }

def machine : Machine Link LinkEvent := ⟨step⟩

/-- Once all frames have been applied the prompt shows what an uninterrupted
session shows after every frame once. -/
def Same (id : Text) (store : ChatStore) (l : Link) : Prop :=
  l.wire = some [] → l.session.pending = [] →
    l.session.store.shown id = ((frames l.published).foldl applyWsFrame store).shown id

def hasRetry (events : List StreamEvent) : Bool :=
  events.any (fun
    | .retry _ => true
    | .agent _ => false)

/-- A new connection replays of the prompt what the client has not had, or its
last new start; a reconcile answers with nothing new for the prompt. -/
def Gentle (id : Text) (l : Link) : LinkEvent → Prop
  | .connect => own id l.heard ++ own id (frames l.history) = own id (frames l.published) ∨
      hasRetry (own id (frames l.history)) = true
  | .answer view => Agrees id l.session.store view
  | _ => True

/-- Two streams that are equal, or at least from their last new start. -/
def Matches (l l' : List StreamEvent) : Prop :=
  l = l' ∨ ∃ before before' message after,
    l = before ++ .retry message :: after ∧ l' = before' ++ .retry message :: after

theorem Matches.append {l l' : List StreamEvent} (h : Matches l l') (added : List StreamEvent) :
    Matches (l ++ added) (l' ++ added) := by
  obtain he | ⟨before, before', message, after, he, he'⟩ := h
  · exact .inl (by rw [he])
  · exact .inr ⟨before, before', message, after ++ added, by simp [he], by simp [he']⟩

theorem Matches.fold {l l' : List StreamEvent} (h : Matches l l') {b : Bubble} (hb : b.1.isSome) :
    b.fold l = b.fold l' := by
  obtain he | ⟨before, before', message, after, he, he'⟩ := h
  · rw [he]
  · rw [he, he', Bubble.fold_retry b hb, Bubble.fold_retry b hb]

/-- A stream's end with a new start in it matches the whole stream after anything. -/
theorem Matches.of_suffix {l tail : List StreamEvent} (h : tail <:+ l) (hr : hasRetry tail = true)
    (before : List StreamEvent) : Matches (before ++ tail) l := by
  obtain ⟨ev, hmem, hev⟩ := List.any_eq_true.mp hr
  cases ev with
  | agent ev => cases hev
  | retry message =>
    obtain ⟨front, after, ht⟩ := List.append_of_mem hmem
    obtain ⟨older, hl⟩ := h
    exact .inr ⟨before ++ front, older ++ front, message, after, by simp [ht], by simp [← hl, ht]⟩

/-- The invariant of gentle runs, for one prompt. -/
structure Faithful (id : Text) (store : ChatStore) (l : Link) : Prop where
  bubble : (flushStore l.session.store l.session.pending).bubble id =
    (store.bubble id).fold (own id l.heard)
  retained : l.history <:+ l.published
  wire : ∀ w, l.wire = some w →
    Matches (own id l.heard ++ own id (frames w)) (own id (frames l.published))

theorem frames_append (ms ms' : List Message) : frames (ms ++ ms') = frames ms ++ frames ms' :=
  List.flatMap_append

theorem own_suffix (id : Text) {ms ms' : List Message} (h : ms <:+ ms') :
    own id (frames ms) <:+ own id (frames ms') := by
  obtain ⟨front, rfl⟩ := h
  exact ⟨own id (frames front), by rw [frames_append, own_append]⟩

/-- A handled frame is heard, at once or with the next flush. -/
theorem enqueue_bubble (c : ChatSession) (f : WsFrame) (id : Text) :
    (flushStore (enqueue c f).store (enqueue c f).pending).bubble id =
      ((flushStore c.store c.pending).bubble id).hear id f := by
  unfold enqueue
  cases h : f.delta with
  | true => exact flushStore_concat c.store c.pending f id h
  | false =>
    simp only [Bool.false_eq_true, if_false]
    rw [show (Web.flush c).pending = [] from rfl, flushStore_nil, applyWsFrame_bubble]
    rfl

theorem onMessage_bubble (c : ChatSession) (m : Message) (id : Text) :
    (flushStore (onMessage c m).store (onMessage c m).pending).bubble id =
      ((flushStore c.store c.pending).bubble id).fold (own id (frameOf m)) := by
  rw [own_fold]
  cases m with
  | frame f => exact enqueue_bubble c f id
  | _ => rfl

theorem publish_history (l : Link) (m : Message) :
    (((l.bus.publishAppend topic m).publishSend topic m).topicMut topic).history =
      pushBounded l.bus.historyCapacity l.history m := by
  simp [history]

theorem Faithful.step {id : Text} {store : ChatStore} {l l' : Link} {e : LinkEvent}
    (h : Faithful id store l) (hg : Gentle id l e) (hs : l.step e = some l') :
    Faithful id store l' := by
  cases e with
  | publish m =>
    cases hs
    refine ⟨h.bubble, ?_, fun w hw => ?_⟩
    · rw [Link.history, publish_history]
      exact pushBounded_suffix h.retained m
    · obtain ⟨w', hw', rfl⟩ := Option.map_eq_some_iff.mp hw
      have hm := (h.wire w' hw').append (own id (frames [m]))
      dsimp only
      rw [frames_append, frames_append, own_append, own_append, ← List.append_assoc]
      exact hm
  | connect =>
    cases hw : l.wire with
    | some w => simp [Link.step, hw] at hs
    | none =>
      simp only [Link.step, hw, LogBus.subscribe_receiver, Option.some.injEq] at hs
      subst hs
      refine ⟨h.bubble, ?_, fun w hw' => ?_⟩
      · rw [Link.history, LogBus.subscribe_topicMut]
        exact h.retained
      · cases hw'
        have hframes : frames (.subscribed :: (l.bus.topicMut topic).history) = frames l.history := rfl
        rw [hframes]
        obtain he | hr := hg
        · exact .inl he
        · exact Matches.of_suffix (own_suffix id h.retained) hr _
  | drop =>
    cases hs
    exact ⟨h.bubble, h.retained, fun w hw => nomatch hw⟩
  | message =>
    match hw : l.wire with
    | none => simp [Link.step, hw] at hs
    | some [] => simp [Link.step, hw] at hs
    | some (m :: rest) =>
      simp only [Link.step, hw, Option.some.injEq] at hs
      subst hs
      refine ⟨?_, h.retained, fun w hw' => ?_⟩
      · rw [onMessage_bubble, h.bubble, own_append]
        simp only [Bubble.fold, List.foldl_append]
      · cases hw'
        have hm := h.wire (m :: rest) hw
        rwa [show frames (m :: rest) = frameOf m ++ frames rest from rfl, own_append,
          ← List.append_assoc, ← own_append] at hm
  | flush =>
    cases hs
    exact ⟨h.bubble, h.retained, h.wire⟩
  | poll =>
    cases hs
    exact ⟨h.bubble, h.retained, h.wire⟩
  | answer view =>
    simp only [Link.step] at hs
    split at hs
    · cases hs
    · cases hs
      refine ⟨?_, h.retained, h.wire⟩
      rw [← h.bubble]
      exact flushStore_congr (reconcileStore_bubble hg) l.session.pending

theorem Faithful.start (id : Text) (store : ChatStore) : Faithful id store (start store) :=
  ⟨rfl, List.suffix_rfl, fun _ hw => nomatch hw⟩

/-- Folding all frames of a stream leaves the fold of the prompt's own. -/
theorem foldl_bubble (id : Text) (store : ChatStore) (fs : List WsFrame) :
    (fs.foldl applyWsFrame store).bubble id = (store.bubble id).fold (own id fs) := by
  rw [own_fold]
  induction fs generalizing store with
  | nil => rfl
  | cons f fs ih =>
    rw [List.foldl_cons, List.foldl_cons, ih, applyWsFrame_bubble]

theorem Faithful.same {id : Text} {store : ChatStore} {l : Link} (h : Faithful id store l)
    (hs : (store.bubble id).1.isSome) : Same id store l := by
  intro hw hp
  have hb := h.bubble
  rw [hp, flushStore_nil] at hb
  have hm := h.wire [] hw
  rw [show frames [] = [] from rfl, show own id [] = [] from rfl, List.append_nil] at hm
  rw [shown_bubble, shown_bubble, foldl_bubble, hb, hm.fold hs]

/-- Whatever the cuts and the order of the answers, a prompt that is on display
comes out as in an uninterrupted session. -/
theorem reconnect_idempotent {id : Text} {store : ChatStore} {l : Link}
    (hs : (store.prompt id).isSome) (h : machine.Reaches (Gentle id) (start store) l) :
    Same id store l := by
  have hf : Faithful id store l := by
    apply h.keeps (Faithful.start id store)
    exact fun l e l' hv hg hs => hv.step hg hs
  apply hf.same
  unfold ChatStore.bubble
  rw [Option.isSome_map]
  exact hs

instance (id : Text) (s : ChatStore) (view : ChatView) : Decidable (Agrees id s view) :=
  decidable_of_iff ((view.prompts.find? (fun p => p.id = id)).map Prompt.events = (s.bubble id).1 ∧
      (view.prompts.find? (fun p => p.id = id)).isSome ∧
      (∀ p ∈ view.prompts, p.id = id → finished p = true → s.liveTokens id = none) ∧
      view.prompts.length + (newerLocal s view).length ≤ maxPromptsInView)
    ⟨fun h => ⟨h.1, h.2.1, h.2.2.1, h.2.2.2⟩, fun h => ⟨h.events, h.listed, h.live, h.fits⟩⟩

instance (id : Text) (l : Link) : (e : LinkEvent) → Decidable (Gentle id l e)
  | .connect => inferInstanceAs (Decidable (_ ∨ _))
  | .answer view => inferInstanceAs (Decidable (Agrees id l.session.store view))
  | .publish _ => .isTrue trivial
  | .drop => .isTrue trivial
  | .message => .isTrue trivial
  | .flush => .isTrue trivial
  | .poll => .isTrue trivial

def asked : Prompt := { id := "p".toList, seq := 1, content := "hi".toList, events := [] }

/-- A timeline with one prompt that waits for its reply. -/
def waiting : ChatStore where
  view := none
  prompts := [asked]
  liveTokens _ := none
  liveThinking _ := none
  atStart := true

def token (t : String) : Message := .frame ⟨asked.id, .agent (.token t.toList)⟩

def again : Message := .frame ⟨asked.id, .retry "stale".toList⟩

/-- A first connection with its reconcile, a cut, and a turn that was started
anew before the client is back. -/
def resumed : Link :=
  (machine.play (Gentle asked.id) (start waiting)
    [.connect, .message, .answer ⟨[asked], 1⟩, .publish (token "a"), .message, .flush, .drop,
      .publish again, .publish (token "b"), .connect, .message, .message, .message, .message,
      .flush]).get (by decide)

theorem reconnect_idempotent_resumed : resumed.wire = some [] ∧ resumed.session.pending = [] ∧
    resumed.session.store.shown asked.id = some ("b".toList, [.retry "stale".toList]) ∧
    Same asked.id waiting resumed := by
  have hr : machine.Reaches (Gentle asked.id) (start waiting) resumed :=
    Machine.play_reaches (Option.some_get _).symm
  exact ⟨rfl, rfl, rfl, reconnect_idempotent rfl hr⟩

/-- One token, a cut and the replay on the next connection. -/
def stuttering : Link :=
  (machine.play Machine.anyEvent (start waiting)
    [.connect, .message, .answer ⟨[asked], 1⟩, .publish (token "a"), .message, .flush, .drop,
      .connect, .message, .message, .flush]).get (by decide)

/-- Replayed tokens are appended to the live text once more. -/
theorem reconnect_stutters : ¬ ∀ id store l, (store.prompt id).isSome →
    machine.Reaches Machine.anyEvent (start store) l → Same id store l := by
  intro hall
  have hr : machine.Reaches Machine.anyEvent (start waiting) stuttering :=
    Machine.play_reaches (Option.some_get _).symm
  have hsame := hall asked.id waiting stuttering rfl hr rfl rfl
  exact absurd hsame (by decide)

end Link

end AgentGrove.Web
