import AgentGrove.Proofs.Aside

namespace AgentGrove

open Coop

/-- Who takes a message out of the queue: a dispatch or drain task, or the
handler of `run_next` or `dispatch_item`. -/
inductive Carrier where
  | task
  | handler
deriving DecidableEq

/-- What a task has to account for of the messages on their way through the server. -/
inductive Hand where
  | empty
  /-- A handler that has given its answer. -/
  | ended
  /-- A request to take in a message, before the message is stored and after. -/
  | sender (c : Uuid) (body : Text)
  | stored (c : Uuid) (body : Text)
  /-- A send about to answer with an error, its prompt stored or not. -/
  | refused (c : Uuid) (body : Text)
  /-- A handler about to pop. -/
  | fetching (c : Uuid)
  /-- Popped a row: before its prompt is stored (the handler's seq picked or not)
  and after. -/
  | carrying (k : Carrier) (row : QueueItemRow)
  | numbered (row : QueueItemRow) (seq : Nat)
  | copied (k : Carrier) (row : QueueItemRow)
  /-- A handler that has handed its row on, or has left it where it was. -/
  | handed (c : Uuid)
  | dropped (c : Uuid)
  /-- A handler with messages of its own or none: it edits the tables. -/
  | editor
deriving DecidableEq

/-- The row a task has popped and is still responsible for. -/
def Hand.row : Hand → Option QueueItemRow
  | carrying _ row | numbered row _ | copied _ row => some row
  | _ => none

@[simp] theorem Hand.row_empty : Hand.empty.row = none := rfl

/-- Whether a message is in the tables once more than answers have been given for it. -/
def Hand.owes (c : Uuid) (body : Text) : Hand → Bool
  | stored d b => d = c && b = body
  | copied _ row => row.chatId = c && row.body = body
  | _ => false

/-- What becomes of a task once its row is done. -/
def Carrier.after (c : Uuid) : Carrier → Hand
  | task => .empty
  | handler => .handed c

def Fn.carrier : Fn → Option Carrier
  | .dispatchTask | .drainTask => some .task
  | .runNext | .dispatchItem => some .handler
  | _ => none

/-- The awaits from a pop to the end of what is done with its row. -/
def Call.handles : Call → Bool
  | .isStillAuto | .cloneChat | .getRow | .maxSeq | .insertPrompt | .touchChat | .ingestPrompt
  | .markDone | .resetToPending => true
  | _ => false

/-- Those after the insert of the row's prompt. -/
def Call.between : Call → Bool
  | .touchChat | .ingestPrompt | .markDone => true
  | _ => false

/-- Suspension points with a popped row in hand. -/
def Site.carries (x : Site) : Bool := x.fn.carrier.isSome && x.call.handles

/-- Suspension points at which a message is in the queue and in the timeline. -/
def Site.between (x : Site) : Bool := x.fn.carrier.isSome && x.call.between

/-- Suspension points at which `send_message` has stored its message and not answered. -/
def Site.waits (x : Site) : Bool :=
  x.fn = .sendMessage && (x.call = .touchChat || x.call = .ingestPrompt || x.call = .isAuto)

/-- The message a request asks the server to take in. -/
def Request.message : Request → Option (Uuid × Text)
  | .sendMessage c body | .enqueue c body => some (c, body)
  | _ => none

def Response.ok : Response → Bool
  | .failed _ _ => false
  | _ => true

/-- The answers a handler may give. -/
def Hand.answers (request : Request) (response : Response) : Hand → Prop
  | empty | editor => request.message = none
  | sender c body | refused c body => request.message = some (c, body) ∧ response.ok = false
  | stored c body => request.message = some (c, body) ∧ response.ok = true
  | fetching _ | dropped _ => request.message = none ∧ response.ok = false
  | handed _ => request.message = none ∧ response.ok = true
  | _ => False

/-- No message came, moved or was answered for. -/
structure Still (s s' : AppState) : Prop where
  items : s'.store.items = s.store.items
  keys : s'.store.prompts.map PromptRow.key = s.store.prompts.map PromptRow.key
  nextId : s'.nextId = s.nextId
  answers : s'.answers = s.answers

theorem Still.refl (s : AppState) : Still s s := ⟨rfl, rfl, rfl, rfl⟩

theorem Quiet.still {s s' : AppState} (h : Quiet s s') : Still s s' :=
  ⟨h.items, h.keys, h.nextId, h.answers⟩

def running (now : Nat) (i : QueueItemRow) : QueueItemRow :=
  { i with status := .running, updatedAt := now }

def withPrompt (row : PromptRow) (s : AppState) : AppState :=
  { s with store := { s.store with prompts := s.store.prompts ++ [row] }
           nextId := s.nextId + 1 }

/-- Why a prompt that is in the store is not handed on. -/
def Breaks (s : AppState) (w : Choice) (c : Uuid) (call : Call) : Prop :=
  call = .touchChat ∧ w.fail = true ∨ call = .ingestPrompt ∧ ¬ Cached s c

/-- Why `run_next` and `dispatch_item` give up a row they have popped before its
prompt is in the store. -/
def GivesUp (s : AppState) (w : Choice) (c : Uuid) (call : Call) (h : Hand) : Prop :=
  call = .cloneChat ∧ ¬ Cached s c ∨ call = .getRow ∧ (w.fail = true ∨ ¬ Stored s c) ∨
    call = .maxSeq ∧ w.fail = true ∨
    call = .insertPrompt ∧ (w.fail = true ∨ ¬ Stored s c ∨ ∃ row n, h = .numbered row n ∧
      ∃ q ∈ s.store.prompts, q.id = s.nextId ∨ q.chatId = row.chatId ∧ q.seq = n)

/-- One action of a task, by what it does to its hand and to the tables. -/
inductive Passes : Option (Site × Choice) → Hand → AppState → Hand → AppState → Prop where
  | still {e : Option (Site × Choice)} {h : Hand} {s s' : AppState} (hs : Still s s') :
      Passes e h s h s'
  | answer {h : Hand} {s : AppState} {request : Request} {response : Response}
      (ha : h.answers request response) :
      Passes none h s .ended { s with answers := s.answers ++ [(request, response)] }
  | queue {fn : Fn} {w : Choice} {c : Uuid} {body : Text} {s : AppState} {row : QueueItemRow}
      (hw : w.fail = false) (hid : row.id = s.nextId) (hc : row.chatId = c)
      (hb : row.body = body) (hp : row.status = .pending) :
      Passes (some (⟨fn, c, .insertItem⟩, w)) (.sender c body) s (.stored c body)
        { setItems (s.store.items ++ [row]) s with nextId := s.nextId + 1 }
  | send {w : Choice} {c : Uuid} {body : Text} {s : AppState} {q : PromptRow}
      (hw : w.fail = false) (hid : q.id = s.nextId) (hc : q.chatId = c) (hb : q.content = body) :
      Passes (some (⟨.sendMessage, c, .insertPrompt⟩, w)) (.sender c body) s (.stored c body)
        (withPrompt q s)
  | refuse {w : Choice} {c : Uuid} {body : Text} {call : Call} {s : AppState} :
      Passes (some (⟨.sendMessage, c, call⟩, w)) (.sender c body) s (.refused c body) s
  | spoil {w : Choice} {c : Uuid} {body : Text} {call : Call} {s s' : AppState}
      (hwhy : Breaks s w c call) (hs : Still s s') :
      Passes (some (⟨.sendMessage, c, call⟩, w)) (.stored c body) s (.refused c body) s'
  | pop {fn : Fn} {w : Choice} {h : Hand} {k : Carrier} {s : AppState} {i : QueueItemRow}
      (hh : k = .task ∧ h = .empty ∨ k = .handler ∧ h = .fetching i.chatId)
      (hi : i ∈ s.store.items) (hp : QueueRepo.isPending i = true) :
      Passes (some (⟨fn, i.chatId, .popItem⟩, w)) h s (.carrying k (running w.now i))
        (setItems (QueueRepo.setStatus (fun _ => true) .running w.now i.id s.store.items) s)
  | number {fn : Fn} {w : Choice} {row : QueueItemRow} {n : Nat} {s : AppState}
      (hn : ∀ q ∈ s.store.prompts, q.chatId = row.chatId → q.seq ≠ n) :
      Passes (some (⟨fn, row.chatId, .maxSeq⟩, w)) (.carrying .handler row) s (.numbered row n) s
  | copy {fn : Fn} {w : Choice} {h : Hand} {k : Carrier} {row : QueueItemRow} {s : AppState}
      {q : PromptRow}
      (hh : k = .task ∧ h = .carrying .task row ∨ k = .handler ∧ ∃ n, h = .numbered row n)
      (hw : w.fail = false) (hid : q.id = s.nextId) (hc : q.chatId = row.chatId)
      (hb : q.content = row.body) :
      Passes (some (⟨fn, row.chatId, .insertPrompt⟩, w)) h s (.copied k row) (withPrompt q s)
  | botch {fn : Fn} {w : Choice} {row : QueueItemRow} {call : Call} {s s' : AppState}
      (hfn : fn.carrier = some .task) (hwhy : Breaks s w row.chatId call) (hs : Still s s') :
      Passes (some (⟨fn, row.chatId, call⟩, w)) (.copied .task row) s (.carrying .task row) s'
  | giveBack {fn : Fn} {w : Choice} {row : QueueItemRow} {s : AppState} :
      Passes (some (⟨fn, row.chatId, .resetToPending⟩, w)) (.carrying .task row) s .empty
        (setItems (QueueRepo.resetToPending w.now row.id s.store.items) s)
  | lose {fn : Fn} {w : Choice} {row : QueueItemRow} {s : AppState} (hw : w.fail = true) :
      Passes (some (⟨fn, row.chatId, .resetToPending⟩, w)) (.carrying .task row) s .empty s
  | finish {fn : Fn} {w : Choice} {k : Carrier} {row : QueueItemRow} {s : AppState} :
      Passes (some (⟨fn, row.chatId, .markDone⟩, w)) (.copied k row) s (k.after row.chatId)
        (setItems (QueueRepo.markDone row.id s.store.items) s)
  | forget {fn : Fn} {w : Choice} {k : Carrier} {row : QueueItemRow} {s : AppState}
      (hw : w.fail = true) :
      Passes (some (⟨fn, row.chatId, .markDone⟩, w)) (.copied k row) s (k.after row.chatId) s
  | edit {x : Site} {w : Choice} {s s' : AppState} (h : Edits x w s s') :
      Passes (some (x, w)) .editor s .editor s'
  | abandon {fn : Fn} {w : Choice} {h : Hand} {row : QueueItemRow} {call : Call}
      {s s' : AppState} (hfn : fn.carrier = some .handler)
      (hh : h = .carrying .handler row ∨ ∃ n, h = .numbered row n)
      (hwhy : GivesUp s w row.chatId call h) (hs : Still s s') :
      Passes (some (⟨fn, row.chatId, call⟩, w)) h s (.dropped row.chatId) s'
  | strand {fn : Fn} {w : Choice} {row : QueueItemRow} {call : Call} {s s' : AppState}
      (hfn : fn.carrier = some .handler) (hwhy : Breaks s w row.chatId call) (hs : Still s s') :
      Passes (some (⟨fn, row.chatId, call⟩, w)) (.copied .handler row) s (.dropped row.chatId) s'

/-- A spawned task starts empty-handed. -/
inductive Splits : Hand → Tag → Hand → Hand → Prop where
  | spawn {h : Hand} {tag : Tag} : Splits h tag .empty h

/-- The tasks that work for a chat as carriers of one kind. -/
def Carrier.tagged (c : Uuid) : Carrier → Tag → Prop
  | task, t => t = .dispatch c ∨ t = .drain c
  | handler, t => t = .handler c

/-- The hands of a task that rests at a suspension point. -/
def HoldsAt (t : Tag) (x : Site) : Hand → Prop
  | .empty => x.fn.carrier ≠ some .handler ∧ x.carries = false ∧ x.waits = false
  | .editor => x.fn.carrier = none ∧ x.waits = false
  | .sender c _ => t = .handler c ∧ x.chat = c ∧ x.fn.carrier = none ∧ x.waits = false
  | .stored c _ => t = .handler c ∧ x.chat = c ∧ x.waits = true
  | .fetching c => t = .handler c ∧ x.chat = c ∧ x.fn.carrier = some .handler ∧ x.carries = false
  | .carrying k row => k.tagged row.chatId t ∧ x.chat = row.chatId ∧ x.fn.carrier = some k ∧
      x.call.handles = true ∧ x.call.between = false
  | .numbered row _ => t = .handler row.chatId ∧ x.chat = row.chatId ∧
      x.fn.carrier = some .handler ∧ x.call = .insertPrompt
  | .copied k row => k.tagged row.chatId t ∧ x.chat = row.chatId ∧ x.fn.carrier = some k ∧
      x.call.between = true
  | _ => False

theorem HoldsAt.rowless {t : Tag} {x : Site} {h : Hand} (hr : HoldsAt t x h) (hn : h.row = none) :
    x.carries = false := by
  cases h with
  | empty => exact hr.2.1
  | editor => simp [Site.carries, hr.1]
  | sender c body => simp [Site.carries, hr.2.2.1]
  | fetching c => exact hr.2.2.2
  | stored c body =>
    obtain ⟨fn, d, call⟩ := x
    have hw : Site.waits ⟨fn, d, call⟩ = true := hr.2.2
    have hfn : fn = .sendMessage := by
      simp only [Site.waits, Bool.and_eq_true, decide_eq_true_eq] at hw
      exact hw.1
    rw [hfn]
    rfl
  | carrying k row => cases hn
  | numbered row n => cases hn
  | copied k row => cases hn
  | _ => exact hr.elim

theorem HoldsAt.carries {t : Tag} {x : Site} {h : Hand} (hr : HoldsAt t x h) (hn : h.row ≠ none) :
    x.carries = true := by
  cases h with
  | carrying k row => simp [Site.carries, hr.2.2.1, hr.2.2.2.1]
  | numbered row seq => simp [Site.carries, hr.2.2.1, hr.2.2.2, Call.handles]
  | copied k row =>
    have hb : x.call.between = true := hr.2.2.2
    have hh : x.call.handles = true := by
      cases hx : x.call <;> rw [hx] at hb <;> first | rfl | cases hb
    simp [Site.carries, hr.2.2.1, hh]
  | _ => exact absurd rfl hn

def Holds (t : Tag) : Option Site → Hand → Prop
  | none, h => h = .empty ∨ h = .ended
  | some x, h => HoldsAt t x h

/-- The account of messages that the message handlers and the drains keep to. -/
def transfer : Protocol Site Tag Choice AppState Hand where
  rest := Holds
  sees _ _ := True
  move := Passes
  fork := Splits

end AgentGrove
