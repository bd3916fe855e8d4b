import AgentGrove.Coop.Pool
import AgentGrove.Model.Records
import Mathlib.Data.List.Sort

namespace AgentGrove.Schedules

open Coop

/-- A persisted schedule. Timestamps are unix milliseconds. -/
structure ScheduleRow where
  id : Uuid
  chatId : Uuid
  body : Text
  /-- Seconds between sends; `none` for a schedule that fires once. -/
  intervalSecs : Option Int
  nextRunAt : Int
  lastRunAt : Option Int
  enabled : Bool
  createdAt : Int
  updatedAt : Int
deriving DecidableEq

abbrev Failure := StatusCode × Text

structure CreateBody where
  body : Text
  intervalSecs : Option Int
  nextRunAt : Option Int

structure UpdateBody where
  body : Option Text := none
  /-- `some none` makes the schedule a one-time one. -/
  intervalSecs : Option (Option Int) := none
  nextRunAt : Option Int := none
  enabled : Option Bool := none

namespace ScheduleRepo

def create (id chatId : Uuid) (body : Text) (intervalSecs : Option Int) (nextRunAt now : Int) :
    ScheduleRow where
  id := id
  chatId := chatId
  body := body
  intervalSecs := intervalSecs
  nextRunAt := nextRunAt
  lastRunAt := none
  enabled := true
  createdAt := now
  updatedAt := now

def get (rows : List ScheduleRow) (id : Uuid) : Option ScheduleRow := rows.find? (fun r => r.id = id)

/-- The enabled schedules whose time has come, in the order of their times. -/
def due (now : Int) (rows : List ScheduleRow) : List ScheduleRow :=
  (rows.filter (fun r => r.enabled && decide (r.nextRunAt ≤ now))).insertionSort
    (fun r r' => r.nextRunAt ≤ r'.nextRunAt)

/-- The next run stays on the cadence, unless its slot has passed too. -/
def marked (now : Int) (r : ScheduleRow) : ScheduleRow :=
  match r.intervalSecs with
  | none => { r with lastRunAt := some now, updatedAt := now, enabled := false }
  | some i => { r with
      lastRunAt := some now
      updatedAt := now
      nextRunAt := if now < r.nextRunAt + i * 1000 then r.nextRunAt + i * 1000 else now + i * 1000 }

def setRow (id : Uuid) (f : ScheduleRow → ScheduleRow) (rows : List ScheduleRow) : List ScheduleRow :=
  rows.map (fun r => if r.id = id then f r else r)

def markRan (id : Uuid) (now : Int) : List ScheduleRow → List ScheduleRow := setRow id (marked now)

def disable (id : Uuid) (now : Int) : List ScheduleRow → List ScheduleRow :=
  setRow id (fun r => { r with enabled := false, updatedAt := now })

/-- The row that `update` decides to write. A new time or a schedule switched on again
starts its countdown anew. -/
def patched (now : Int) (cur : ScheduleRow) (b : UpdateBody) : ScheduleRow :=
  let interval := b.intervalSecs.getD cur.intervalSecs
  let next := b.nextRunAt.getD cur.nextRunAt
  let enabledNow := b.enabled.getD cur.enabled
  let restart := interval ≠ cur.intervalSecs || next ≠ cur.nextRunAt || (enabledNow && !cur.enabled)
  { cur with
    body := (b.body.map trim).getD cur.body
    intervalSecs := interval
    enabled := enabledNow
    nextRunAt :=
      match restart, interval with
      | true, some i => now + i * 1000
      | true, none => b.nextRunAt.getD (now + 60000)
      | false, _ => next
    updatedAt := now }

/-- The `UPDATE` of `update`, whose values come from the row it has read. -/
def write (id : Uuid) (new : ScheduleRow) : List ScheduleRow → List ScheduleRow :=
  setRow id (fun r => { r with
    body := new.body
    intervalSecs := new.intervalSecs
    enabled := new.enabled
    nextRunAt := new.nextRunAt
    updatedAt := new.updatedAt })

def delete (chatId id : Uuid) (rows : List ScheduleRow) : List ScheduleRow :=
  rows.filter (fun r => !(r.id = id && r.chatId = chatId))

end ScheduleRepo

def minIntervalSecs : Int := 10

def validate (now : Int) (body : Option Text) (interval : Option (Option Int)) (nextRun : Option Int) :
    Except Failure Unit :=
  if body.any (fun b => (trim b).isEmpty) then .error (.badRequest, "message is empty".toList)
  else
    match interval, nextRun with
    | some (some i), next =>
      if i < minIntervalSecs then .error (.badRequest, "interval must be at least 10s".toList)
      else if next.isSome then
        .error (.badRequest, "set either interval_secs or next_run_at, not both".toList)
      else .ok ()
    | some none, none => .error (.badRequest, "a one-time schedule needs next_run_at".toList)
    | _, some t =>
      if t ≤ now then .error (.badRequest, "next_run_at must be in the future".toList) else .ok ()
    | none, none => .ok ()

/-- A row that a pass has read as due, with the edits that had gone into it by then: those
that wrote to it at all, and those that changed its message, switched it off or removed it. -/
structure Held where
  row : ScheduleRow
  plan : Nat
  voice : Nat

inductive Note where
  | schedulesChanged
  | scheduleFired (id : Uuid)
deriving DecidableEq

/-- A message that a pass has sent, with the edits that the pass knew of and those that had
been answered. -/
structure Sent where
  held : Held
  owed : Nat

/-- A row that a pass has written to, with the edits that had gone into the row. -/
structure Overwritten where
  held : Held
  plan : Nat

/-- The shared state. The last five fields record what happened to a schedule: how many
edits wrote to it, how many changed what may be sent, the latest of those that was
answered, and what the passes sent and wrote. -/
structure Planner where
  schedules : List ScheduleRow
  chats : List Uuid
  nextId : Uuid
  bus : List (Uuid × Note)
  planAt : Uuid → Nat
  voiceAt : Uuid → Nat
  answered : Uuid → Nat
  sent : List Sent
  overwritten : List Overwritten

/-- The suspension points. Those of a pass tell where it is in its list. -/
inductive Site where
  | chat
  | insert
  | get
  | read
  | write (id : Uuid) (new : ScheduleRow)
  | reread (id : Uuid) (voice : Nat)
  | erase (chatId id : Uuid)
  | due
  | mark (h : Held) (rest : List Held)
  | queue (h : Held) (rest : List Held)
  | send (h : Held) (rest : List Held)
  | pause (h : Held) (rest : List Held)

/-- What the world decides at one await: whether a store call fails, the time, the queue of
a chat and how a message was received. -/
structure Choice where
  fail : Bool := false
  error : Text := []
  now : Int := 0
  items : List (QueueStatus × Text) := []
  sent : Except StatusCode Unit := .ok ()

inductive Request where
  | create (chatId : Uuid) (now : Int) (b : CreateBody)
  | update (chatId id : Uuid) (now : Int) (b : UpdateBody)
  | delete (chatId id : Uuid)
  | fireDue (now : Int)

abbrev PlanProg (α : Type) := Prog Site Unit Choice Planner α

def call {β : Type} (site : Site) (act : Choice → Planner → Planner × β) : PlanProg β :=
  .await site (fun w s => some (act w s)) .ret

def atOnce {β : Type} (act : Planner → Planner × β) : PlanProg β := .sync act .ret

def dbErr (w : Choice) : Failure := (.internalServerError, "db: ".toList ++ w.error)

def notFound (id : Uuid) : Failure :=
  (.notFound, "schedule ".toList ++ showNat id ++ " not found".toList)

/-- A store call, which may fail and then has changed nothing. -/
def storeCall {β : Type} (site : Site) (act : Choice → Planner → Planner × Except Failure β) :
    PlanProg (Except Failure β) :=
  call site (fun w s => if w.fail then (s, .error (dbErr w)) else act w s)

def publish (chatId : Uuid) (note : Note) : PlanProg Unit :=
  atOnce (fun s => ({ s with bus := s.bus ++ [(chatId, note)] }, ()))

def create (chatId : Uuid) (now : Int) (b : CreateBody) : PlanProg (Except Failure ScheduleRow) := do
  match validate now (some b.body) (some b.intervalSecs) b.nextRunAt with
  | .error e => return .error e
  | .ok () =>
    let known ← call .chat (fun _ s => (s, decide (chatId ∈ s.chats)))
    if known then
      match ← storeCall .insert (fun w s =>
        let row := ScheduleRepo.create s.nextId chatId (trim b.body) b.intervalSecs
          (b.nextRunAt.getD (w.now + b.intervalSecs.getD 0 * 1000)) w.now
        ({ s with schedules := s.schedules ++ [row], nextId := s.nextId + 1 }, .ok row)) with
      | .error e => return .error e
      | .ok row =>
        match ← storeCall .get (fun w s => (s,
          match ScheduleRepo.get s.schedules row.id with
          | some row => .ok row
          | none => .error (dbErr w))) with
        | .error e => return .error e
        | .ok row =>
          publish chatId .schedulesChanged
          return .ok row
    else return .error (.notFound, "chat ".toList ++ showNat chatId ++ " not found".toList)

/-- A row with this id. -/
def Planner.has (s : Planner) (id : Uuid) : Bool := s.schedules.any (fun r => r.id = id)

/-- Writing this row over the stored one changes its message, or leaves it switched off. -/
def Planner.silences (s : Planner) (id : Uuid) (new : ScheduleRow) : Bool :=
  s.schedules.any (fun r => r.id = id && (r.body ≠ new.body || !new.enabled))

def bump (f : Uuid → Nat) (id : Uuid) (edited : Bool) : Uuid → Nat :=
  if edited then Function.update f id (f id + 1) else f

def Planner.write (s : Planner) (id : Uuid) (new : ScheduleRow) : Planner :=
  { s with
    schedules := ScheduleRepo.write id new s.schedules
    planAt := bump s.planAt id (s.has id)
    voiceAt := bump s.voiceAt id (s.silences id new) }

/-- A row of this chat with this id. -/
def Planner.owns (s : Planner) (chatId id : Uuid) : Bool :=
  s.schedules.any (fun r => r.id = id && r.chatId = chatId)

def Planner.erase (s : Planner) (chatId id : Uuid) : Planner :=
  { s with
    schedules := ScheduleRepo.delete chatId id s.schedules
    planAt := bump s.planAt id (s.owns chatId id)
    voiceAt := bump s.voiceAt id (s.owns chatId id) }

/-- `ScheduleRepo::update`, with the edits that the row's message has seen after it. -/
def updateRow (chatId id : Uuid) (b : UpdateBody) : PlanProg (Except Failure (Option (ScheduleRow × Nat))) := do
  match ← storeCall .read (fun w s => (s, .ok (((ScheduleRepo.get s.schedules id).filter
    (fun r => r.chatId = chatId)).map (fun cur => ScheduleRepo.patched w.now cur b)))) with
  | .error e => return .error e
  | .ok none => return .ok none
  | .ok (some new) =>
    match ← storeCall (.write id new) (fun _ s => (s.write id new, .ok ((s.write id new).voiceAt id))) with
    | .error e => return .error e
    | .ok voice =>
      storeCall (.reread id voice) (fun _ s =>
        (s, .ok ((ScheduleRepo.get s.schedules id).map (fun row => (row, voice)))))

/-- An edit has its answer. -/
def settle (id : Uuid) (voice : Nat) : PlanProg Unit :=
  atOnce (fun s =>
    ({ s with answered := Function.update s.answered id (max (s.answered id) voice) }, ()))

def update (chatId id : Uuid) (now : Int) (b : UpdateBody) : PlanProg (Except Failure ScheduleRow) := do
  match validate now b.body b.intervalSecs b.nextRunAt with
  | .error e => return .error e
  | .ok () =>
    match ← updateRow chatId id b with
    | .error e => return .error e
    | .ok none => return .error (notFound id)
    | .ok (some (row, voice)) =>
      publish chatId .schedulesChanged
      settle id voice
      return .ok row

def delete (chatId id : Uuid) : PlanProg (Except Failure Unit) := do
  match ← storeCall (.erase chatId id) (fun _ s =>
    (s.erase chatId id, .ok (s.owns chatId id, (s.erase chatId id).voiceAt id))) with
  | .error e => return .error e
  | .ok (false, _) => return .error (notFound id)
  | .ok (true, voice) =>
    publish chatId .schedulesChanged
    settle id voice
    return .ok ()

/-- What a pass that reads these rows now holds of them. -/
def Planner.hold (s : Planner) (rows : List ScheduleRow) : List Held :=
  rows.map (fun r => { row := r, plan := s.planAt r.id, voice := s.voiceAt r.id })

/-- A pass writes to the row of a schedule, if there is one. -/
def Planner.overwrite (s : Planner) (h : Held) (rows : List ScheduleRow) : Planner :=
  { s with
    schedules := rows
    overwritten := if s.has h.row.id then s.overwritten ++ [⟨h, s.planAt h.row.id⟩] else s.overwritten }

def markRan (now : Int) (h : Held) (rest : List Held) : PlanProg Bool :=
  call (.mark h rest) (fun w s =>
    if w.fail then (s, false)
    else (s.overwrite h (ScheduleRepo.markRan h.row.id now s.schedules), true))

def alreadyQueued (h : Held) (rest : List Held) : PlanProg Bool :=
  call (.queue h rest) (fun w s =>
    (s, w.items.any (fun i => i.1 = .pending && i.2 = h.row.body)))

/-- `send_message`. The message goes in before it returns without an error. -/
def sendMessage (h : Held) (rest : List Held) : PlanProg (Except StatusCode Unit) :=
  call (.send h rest) (fun w s =>
    match w.sent with
    | .ok () => ({ s with sent := s.sent ++ [⟨h, s.answered h.row.id⟩] }, .ok ())
    | .error code => (s, .error code))

/-- The chat was deleted, and its schedule is paused. An error is ignored. -/
def disable (h : Held) (rest : List Held) : PlanProg Unit :=
  call (.pause h rest) (fun w s =>
    if w.fail then (s, ())
    else (s.overwrite h (ScheduleRepo.disable h.row.id w.now s.schedules), ()))

def received (h : Held) (rest : List Held) : Except StatusCode Unit → PlanProg Unit
  | .error .notFound => disable h rest
  | _ => return ()

/-- The rest of a pass. -/
def fireEach (now : Int) : List Held → PlanProg Unit
  | [] => return ()
  | h :: rest => do
    if ← markRan now h rest then
      if ← alreadyQueued h rest then fireEach now rest
      else
        let res ← sendMessage h rest
        received h rest res
        publish h.row.chatId (.scheduleFired h.row.id)
        fireEach now rest
    else fireEach now rest

def fireDue (now : Int) : PlanProg Unit := do
  match ← storeCall .due (fun _ s => (s, .ok (s.hold (ScheduleRepo.due now s.schedules)))) with
  | .error _ => return ()
  | .ok due => fireEach now due

def handle : Request → PlanProg Unit
  | .create chatId now b => do let _ ← create chatId now b
  | .update chatId id now b => do let _ ← update chatId id now b
  | .delete chatId id => do let _ ← delete chatId id
  | .fireDue now => fireDue now

def entry (request : Request) : Thread Site Unit Choice Planner := ⟨(), handle request⟩

/-- A server that has just started. -/
def boot (schedules : List ScheduleRow) (chats : List Uuid) (nextId : Uuid) : Planner where
  schedules := schedules
  chats := chats
  nextId := nextId
  bus := []
  planAt := fun _ => 0
  voiceAt := fun _ => 0
  answered := fun _ => 0
  sent := []
  overwritten := []

end AgentGrove.Schedules
