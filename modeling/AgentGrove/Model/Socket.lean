import AgentGrove.Coop.Broadcast
import Mathlib.Logic.Function.Basic

namespace AgentGrove

open Coop

variable {α : Type}

/-- Per-topic state held by the bus. The bus never looks inside a message. -/
structure TopicState (α : Type) where
  tx : Channel α
  history : List α

structure LogBus (α : Type) where
  inner : String → Option (TopicState α)
  capacity : Nat
  historyCapacity : Nat

namespace LogBus

def default : LogBus α where
  inner _ := none
  capacity := 1024
  historyCapacity := 512

/-- The topic's entry, as `entry().or_insert_with` leaves it. -/
def topicMut (bus : LogBus α) (topic : String) : TopicState α :=
  (bus.inner topic).getD { tx := { capacity := bus.capacity }, history := [] }

def put (bus : LogBus α) (topic : String) (state : TopicState α) : LogBus α :=
  { bus with inner := Function.update bus.inner topic (some state) }

/-- Takes a receiver and a copy of the history, both under the mutex. -/
def subscribe (bus : LogBus α) (topic : String) : LogBus α × Receiver × List α :=
  let state := bus.topicMut topic
  (bus.put topic state, state.tx.subscribe, state.history)

/-- The part of `publish` under the mutex. -/
def publishAppend (bus : LogBus α) (topic : String) (data : α) : LogBus α :=
  let state := bus.topicMut topic
  bus.put topic { state with history := pushBounded bus.historyCapacity state.history data }

/-- The rest of `publish`: the mutex is free again when the message is sent. -/
def publishSend (bus : LogBus α) (topic : String) (data : α) : LogBus α :=
  let state := bus.topicMut topic
  bus.put topic { state with tx := state.tx.send data }

@[simp] theorem put_topicMut (bus : LogBus α) (t t' : String) (state : TopicState α) :
    (bus.put t state).topicMut t' = if t' = t then state else bus.topicMut t' := by
  simp only [topicMut, put, Function.update_apply]
  split <;> rfl

@[simp] theorem subscribe_topicMut (bus : LogBus α) (t t' : String) :
    (bus.subscribe t).1.topicMut t' = bus.topicMut t' := by
  simp only [subscribe, put_topicMut]
  split
  · rename_i h
    rw [h]
  · rfl

@[simp] theorem subscribe_receiver (bus : LogBus α) (t : String) :
    (bus.subscribe t).2 = ((bus.topicMut t).tx.subscribe, (bus.topicMut t).history) := rfl

@[simp] theorem publishAppend_topicMut (bus : LogBus α) (t t' : String) (a : α) :
    (bus.publishAppend t a).topicMut t' =
      if t' = t then { bus.topicMut t with
        history := pushBounded bus.historyCapacity (bus.topicMut t).history a }
      else bus.topicMut t' :=
  put_topicMut bus t t' _

@[simp] theorem publishSend_topicMut (bus : LogBus α) (t t' : String) (a : α) :
    (bus.publishSend t a).topicMut t' =
      if t' = t then { bus.topicMut t with tx := (bus.topicMut t).tx.send a }
      else bus.topicMut t' :=
  put_topicMut bus t t' _

end LogBus

end AgentGrove

namespace AgentGrove

open Coop

variable {α : Type}

/-- What `handle_socket` writes to the peer. -/
inductive WsMessage (α : Type) where
  | subscribed (topic : String)
  | text (m : α)
  | ping
deriving DecidableEq

/-- Where `handle_socket` waits: in a send with what it still holds, or in the
`select!`. -/
inductive SocketSite (α : Type) where
  | hello (history : List α)
  | replay (m : α) (rest : List α)
  | select
  | forward (m : α)
  | resync (m : α) (rest : List α) (len : Nat)
  | heartbeat
  | closed

structure Socket (α : Type) where
  topic : String
  rx : Receiver
  sentHistory : Nat
  site : SocketSite α
  /-- All that reached the peer. -/
  out : List (WsMessage α)

/-- What the task is woken with: the result of its send, or the branch of the
`select!` that is ready. -/
inductive Wake where
  | sent (ok : Bool)
  | recv
  | client (leaves : Bool)
  | tick

namespace Socket

/-- The text frames that reached the peer. -/
def texts (s : Socket α) : List α :=
  s.out.filterMap (fun
    | .text m => some m
    | _ => none)

/-- `handle_socket` up to its first send. -/
def handleSocket (bus : LogBus α) (topic : String) : LogBus α × Socket α :=
  let (bus, rx, history) := bus.subscribe topic
  (bus, { topic := topic, rx := rx, sentHistory := history.length, site := .hello history, out := [] })

/-- Replay of the first history, entry by entry. -/
def replay (s : Socket α) : List α → Socket α
  | [] => { s with site := .select }
  | m :: rest => { s with site := .replay m rest }

/-- Replay of the tail after a lag; at its end the counter is set anew. -/
def resync (s : Socket α) (len : Nat) : List α → Socket α
  | [] => { s with site := .select, sentHistory := len }
  | m :: rest => { s with site := .resync m rest len }

def write (s : Socket α) (m : WsMessage α) : Socket α := { s with out := s.out ++ [m] }

def close (s : Socket α) : Socket α := { s with site := .closed }

/-- A send came back. Only the result of the first is ignored. -/
def sent (s : Socket α) (ok : Bool) : Option (Socket α) :=
  match s.site with
  | .hello history => some ((if ok then s.write (.subscribed s.topic) else s).replay history)
  | .replay m rest => some (if ok then (s.write (.text m)).replay rest else s.close)
  | .forward m =>
    some (if ok then { s.write (.text m) with site := .select, sentHistory := s.sentHistory + 1 }
      else s.close)
  | .resync m rest len => some (if ok then (s.write (.text m)).resync len rest else s.close)
  | .heartbeat => some (if ok then { s.write .ping with site := .select } else s.close)
  | .select => none
  | .closed => none

/-- `rx.recv()` is ready. A receiver that lagged is replaced by a new one, and
the history after the entries counted as sent is replayed. -/
def received (bus : LogBus α) (s : Socket α) :
    Except RecvError α × Receiver → LogBus α × Socket α
  | (.ok text, rx) => (bus, { s with rx := rx, site := .forward text })
  | (.error (.lagged _), _) =>
    let (bus, rx, hist) := bus.subscribe s.topic
    (bus, { s with rx := rx }.resync hist.length (hist.drop (min s.sentHistory hist.length)))
  | (.error .closed, rx) => (bus, { s with rx := rx }.close)

def wake (bus : LogBus α) (s : Socket α) (w : Wake) : Option (LogBus α × Socket α) :=
  match w, s.site with
  | .sent ok, _ => (s.sent ok).map (fun s' => (bus, s'))
  | .recv, .select => ((bus.topicMut s.topic).tx.recv s.rx).map (received bus s)
  | .client leaves, .select => some (bus, if leaves then s.close else s)
  | .tick, .select => some (bus, { s with site := .heartbeat })
  | _, _ => none

end Socket

end AgentGrove
