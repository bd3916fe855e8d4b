import AgentGrove.Coop.Broadcast

namespace AgentGrove.Terminal

open Coop

abbrev Bytes := List UInt8

/-- The answer to a poll, its bytes as they are before they are decoded. -/
structure HistoryDelta where
  bytes : Bytes
  total : Nat
  exited : Bool
deriving DecidableEq

/-- Where the PTY reader thread is: in `read`, or with a chunk that is in the history
and not yet broadcast. -/
inductive ReaderSite where
  | read
  | send (chunk : Bytes)
  | ended
deriving DecidableEq

/-- One PTY. It stays alive without its entry in the manager's map for as long as
its two threads run. -/
structure Session where
  history : Bytes
  output : Channel Bytes
  exited : Bool
  reader : ReaderSite
  /-- The child-waiter thread has returned. -/
  waited : Bool
  /-- The session is in the manager's map. -/
  listed : Bool

namespace Session

def bufferSize : Nat := 4096

def historyLimit : Nat := 200000

def spawn : Session where
  history := []
  output := { capacity := 1024 }
  exited := false
  reader := .read
  waited := false
  listed := true

/-- A read came back: the chunk goes to the ring, which drops its oldest bytes. -/
def append (s : Session) (chunk : Bytes) : Option Session :=
  if s.reader = .read ∧ chunk ≠ [] ∧ chunk.length ≤ bufferSize then
    let h := s.history ++ chunk
    some { s with
      history := if historyLimit < h.length then h.drop (h.length - historyLimit) else h
      reader := .send chunk }
  else none

/-- The ring is free again when the chunk is broadcast. -/
def broadcast (s : Session) : Option Session :=
  match s.reader with
  | .send chunk => some { s with output := s.output.send chunk, reader := .read }
  | _ => none

/-- The read saw the end of the file, or failed. -/
def readerEnds (s : Session) : Option Session :=
  if s.reader = .read then some { s with reader := .ended, exited := true } else none

/-- The waiter saw that the child is gone. -/
def childEnds (s : Session) : Session := { s with waited := true, exited := true }

def kill (s : Session) : Option Session :=
  if s.listed then some { s with listed := false, exited := true } else none

/-- The ring from the offset `since` on. A caller that is ahead of it gets nothing. -/
def historySince (s : Session) (since : Nat) : Option HistoryDelta :=
  if s.listed then
    some {
      bytes := if since ≥ s.history.length then [] else s.history.drop since
      total := s.history.length
      exited := s.exited }
  else none

/-- `is_exited(id).unwrap_or(true)`. -/
def isExited (s : Session) : Bool := !s.listed || s.exited

/-- Nobody holds the sender any more. -/
def gone (s : Session) : Bool := !s.listed && s.waited && s.reader == .ended

/-- `rx.recv()`: a receiver with nothing left learns that the sender is gone. -/
def recv (s : Session) (rx : Receiver) : Option (Except RecvError Bytes × Receiver) :=
  match s.output.recv rx with
  | some out => some out
  | none => if s.gone then some (.error .closed, rx) else none

end Session

/-- The texts with which `terminal_socket` ends. -/
inductive Notice where
  | exited
  | noSuchTerminal
deriving DecidableEq

/-- What `terminal_socket` sends. -/
inductive Frame where
  | binary (bytes : Bytes)
  | text (notice : Notice)
deriving DecidableEq

/-- Where `terminal_socket` is: between its receiver and the copy of the history, at
first or after a lag, in a send with what it holds, or in the `select!`. -/
inductive Site where
  | snapshot
  | replay (history : Bytes)
  | select
  | forward (bytes : Bytes)
  | resnapshot
  | resync (history : Bytes)
  | tail (bytes : Bytes)
  | farewell (notice : Notice)
  | closed
deriving DecidableEq

structure Socket where
  rx : Receiver
  site : Site
  /-- All that reached the client. -/
  out : List Frame
  /-- A send has failed, and nothing more reaches the client. -/
  broken : Bool

inductive Wake where
  | copied
  | sent (ok : Bool)
  | recv
  | tick
  | client (leaves : Bool)
deriving DecidableEq

namespace Socket

/-- A send that came back with this result. -/
def write (t : Socket) (ok : Bool) (frame : Frame) : Socket :=
  if ok && !t.broken then { t with out := t.out ++ [frame] } else { t with broken := true }

/-- `terminal_socket` up to its copy of the history. -/
def attach (s : Session) : Socket :=
  if s.listed then { rx := s.output.subscribe, site := .snapshot, out := [], broken := false }
  else { rx := ⟨0⟩, site := .farewell .noSuchTerminal, out := [], broken := false }

/-- After the replay: a shell that has exited gets no loop. -/
def enter (s : Session) (t : Socket) : Socket :=
  { t with site := if s.isExited then .farewell .exited else .select }

def replay (s : Session) (t : Socket) : Socket :=
  if s.history.isEmpty then t.enter s else { t with site := .replay s.history }

/-- The ring in whole, after a lag. -/
def resync (s : Session) (t : Socket) : Socket :=
  { t with site := if s.history.isEmpty then .select else .resync s.history }

/-- A send came back. The results of the last two are ignored. -/
def sent (s : Session) (t : Socket) (ok : Bool) : Option Socket :=
  match t.site with
  | .replay h =>
    some (if ok then (t.write ok (.binary h)).enter s else { t.write ok (.binary h) with site := .closed })
  | .forward b | .resync b =>
    some { t.write ok (.binary b) with site := if ok then .select else .closed }
  | .tail b => some { t.write ok (.binary b) with site := .farewell .exited }
  | .farewell n => some { t.write ok (.text n) with site := .closed }
  | _ => none

/-- `rx.recv()` is ready. After a lag a new receiver takes the old one's place, if
the session is still there. -/
def received (s : Session) (t : Socket) : Except RecvError Bytes × Receiver → Socket
  | (.ok bytes, rx) => { t with rx := rx, site := .forward bytes }
  | (.error (.lagged _), rx) =>
    if s.listed then { t with rx := s.output.subscribe, site := .resnapshot }
    else { t with rx := rx }
  | (.error .closed, rx) => { t with rx := rx, site := .farewell .exited }

/-- The exit poll. One chunk that is still queued goes out before the end. -/
def tick (s : Session) (t : Socket) : Socket :=
  if s.isExited then
    match s.recv t.rx with
    | some (.ok bytes, rx) => { t with rx := rx, site := .tail bytes }
    | _ => { t with site := .farewell .exited }
  else t

def wake (s : Session) (t : Socket) (w : Wake) : Option Socket :=
  match w, t.site with
  | .copied, .snapshot => some (t.replay s)
  | .copied, .resnapshot => some (t.resync s)
  | .sent ok, _ => t.sent s ok
  | .recv, .select => (s.recv t.rx).map (t.received s)
  | .tick, .select => some (t.tick s)
  | .client leaves, .select => some (if leaves then { t with site := .closed } else t)
  | _, _ => none

end Socket

end AgentGrove.Terminal
