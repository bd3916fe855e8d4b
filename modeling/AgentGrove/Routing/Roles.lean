import AgentGrove.Proofs.TurnFrame

namespace AgentGrove

open Coop

/-- How a task stands to the routing lock, the flag and the backlog of its chat. -/
inductive Role where
  /-- A handler that takes no part in routing. -/
  | other
  | idle (c : Uuid)
  /-- About to see to the backlog: before the lock, before the flag, flag clear. -/
  | kicking (c : Uuid)
  | kickHeld (c : Uuid)
  | kickClear (c : Uuid)
  /-- Has the lock and knows nothing. -/
  | holding (c : Uuid)
  /-- `send_message` found the chat, then its flag set or clear; in the latter
  case its message may have joined the queue. -/
  | admitted (c : Uuid)
  | busy (c : Uuid)
  | clear (c : Uuid)
  | backlog (c : Uuid)
  /-- `send_message` took the flag and has yet to store its prompt, whose seq it
  may have picked; or it has failed to. -/
  | claiming (c : Uuid)
  | numbered (c : Uuid) (seq : Nat)
  | leaking (c : Uuid)
  /-- Saw the flag clear. -/
  | checked (c : Uuid)
  /-- `add_prompt` does not look: before the lock and with it. -/
  | eager (c : Uuid)
  | forcing (c : Uuid)
  /-- Took the flag for a task, with the lock and without. -/
  | claimed (c : Uuid)
  | promised (c : Uuid)
  /-- A dispatch or drain task, with a popped item in hand, under the lock, and
  about to give the flag back. -/
  | task (c : Uuid)
  | carrying (c itemId : Uuid)
  | clearing (c : Uuid)
  | leaving (c : Uuid)
  /-- Under the lock, to remove a flag that is not its own, and after any removal. -/
  | removing (c : Uuid)
  | freed (c : Uuid)
deriving DecidableEq

namespace Role

/-- Has the routing lock. -/
def holds : Role → Bool
  | other | idle _ | kicking _ | eager _ | promised _ | task _ | carrying _ _ => false
  | _ => true

/-- The chat whose flag this role answers for. -/
def owns : Role → Option Uuid
  | claiming c | numbered c _ | claimed c | promised c | task c | carrying c _ | clearing c
  | leaving c => some c
  | _ => none

/-- The chat whose backlog this role will see to. -/
def minds : Role → Option Uuid
  | kicking c | kickHeld c | kickClear c | backlog c | claiming c | numbered c _ | claimed c
  | promised c | task c | carrying c _ | clearing c => some c
  | _ => none

/-- The chat whose flag this role has seen clear under the lock. -/
def sawClear : Role → Option Uuid
  | kickClear c | clear c | backlog c | checked c => some c
  | _ => none

def chat : Role → Option Uuid
  | other => none
  | idle c | kicking c | kickHeld c | kickClear c | holding c | admitted c | busy c | clear c
  | backlog c | claiming c | numbered c _ | leaking c | checked c | eager c | forcing c
  | claimed c | promised c | task c | carrying c _ | clearing c | leaving c | removing c
  | freed c => some c

end Role

/-- Functions that take the routing lock. -/
def Fn.routes : Fn → Bool
  | .sendMessage | .addPrompt | .runNext | .dispatchItem | .retryChat | .setMode | .stopTurn
  | .dispatchTask | .drainTask | .guard => true
  | _ => false

/-- The awaits of `send_message` between taking the flag and spawning its task. -/
def Call.afterClaim : Call → Bool
  | .cloneChat | .getRow | .maxSeq | .insertPrompt | .touchChat | .ingestPrompt => true
  | _ => false

/-- Those of them that are store calls. -/
def Call.stores : Call → Bool
  | .getRow | .maxSeq | .insertPrompt | .touchChat => true
  | _ => false

/-- Suspension points at which a handler has taken the flag for a task to come. -/
def Site.claims (x : Site) : Bool :=
  (x.call.afterClaim && x.fn = .sendMessage) ||
    (x.call = .markDone && (x.fn = .runNext || x.fn = .dispatchItem))

def HasPending (s : AppState) (c : Uuid) : Prop :=
  ∃ i ∈ s.store.items, i.chatId = c ∧ QueueRepo.isPending i = true

def IsAuto (s : AppState) (c : Uuid) : Prop := QueueRepo.getMode s.store.modes c = .auto

def locked (s : AppState) : AppState := { s with routingLock := true }

def unlocked (s : AppState) : AppState := { s with routingLock := false }

def flagged (c : Uuid) (s : AppState) : AppState := { s with dispatching := insert c s.dispatching }

def unflagged (c : Uuid) (s : AppState) : AppState :=
  { s with dispatching := s.dispatching.erase c }

/-- Who may take the lock where. -/
inductive Locks : Site → Role → Role → Prop where
  | handler {fn : Fn} {c : Uuid} : Locks ⟨fn, c, .lock⟩ (.idle c) (.holding c)
  | kick {fn : Fn} {c : Uuid} : Locks ⟨fn, c, .lock⟩ (.kicking c) (.kickHeld c)
  | force {c : Uuid} : Locks ⟨.addPrompt, c, .lock⟩ (.eager c) (.forcing c)
  | task {fn : Fn} {c : Uuid} : Locks ⟨fn, c, .lock⟩ (.task c) (.clearing c)
  | guard {c : Uuid} : Locks ⟨.guard, c, .lock⟩ (.idle c) (.removing c)
  | stop {c : Uuid} : Locks ⟨.stopTurn, c, .forceLock⟩ (.idle c) (.removing c)

inductive Unlocks : Role → Role → Prop where
  | holding {c : Uuid} : Unlocks (.holding c) (.idle c)
  | freed {c : Uuid} : Unlocks (.freed c) (.idle c)
  | busy {c : Uuid} : Unlocks (.busy c) (.idle c)
  | clear {c : Uuid} : Unlocks (.clear c) (.idle c)
  | checked {c : Uuid} : Unlocks (.checked c) (.idle c)
  | forcing {c : Uuid} : Unlocks (.forcing c) (.idle c)
  | leaking {c : Uuid} : Unlocks (.leaking c) (.idle c)
  | claimed {c : Uuid} : Unlocks (.claimed c) (.promised c)
  | clearing {c : Uuid} : Unlocks (.clearing c) (.task c)

/-- Looking at the flag of `c` while it is set or clear. -/
inductive Looks (c : Uuid) : Bool → Role → Role → Prop where
  | admittedBusy : Looks c true (.admitted c) (.busy c)
  | admittedClear : Looks c false (.admitted c) (.clear c)
  | holdingBusy : Looks c true (.holding c) (.holding c)
  | holdingClear : Looks c false (.holding c) (.checked c)
  | kickBusy : Looks c true (.kickHeld c) (.holding c)
  | kickClear : Looks c false (.kickHeld c) (.kickClear c)

/-- Taking the flag. -/
inductive Takes (c : Uuid) : Role → Role → Prop where
  | send : Takes c (.clear c) (.claiming c)
  | backlog : Takes c (.backlog c) (.claimed c)
  | kick : Takes c (.kickClear c) (.claimed c)
  | checked : Takes c (.checked c) (.claimed c)
  | force : Takes c (.forcing c) (.claimed c)

/-- Giving the flag back, or taking away another's. -/
inductive Frees (c : Uuid) : Role → Prop where
  | leaving : Frees c (.leaving c)
  | removing : Frees c (.removing c)

/-- No longer seeing to a backlog that was found empty or not to be drained. -/
inductive Drops (c : Uuid) : Role → Role → Prop where
  | kick : Drops c (.kickClear c) (.holding c)
  | backlog : Drops c (.backlog c) (.clear c)
  | task : Drops c (.clearing c) (.leaving c)

/-- Storing a prompt of the chat. -/
inductive Stores (c : Uuid) : Role → Role → Prop where
  | checked : Stores c (.checked c) (.checked c)
  | forcing : Stores c (.forcing c) (.forcing c)
  | carrying {itemId : Uuid} : Stores c (.carrying c itemId) (.carrying c itemId)
  | numbered {seq : Nat} : Stores c (.numbered c seq) (.claiming c)

/-- Popping, finishing and giving back queue items. -/
inductive Handles (c : Uuid) (items : List QueueItemRow) : Role → Role → Prop where
  | checked : Handles c items (.checked c) (.checked c)
  | promised : Handles c items (.promised c) (.promised c)
  | task : Handles c items (.task c) (.task c)
  | take {itemId : Uuid} (h : ∃ i ∈ items, i.id = itemId ∧ i.chatId = c) :
      Handles c items (.task c) (.carrying c itemId)
  | give {itemId : Uuid} : Handles c items (.carrying c itemId) (.task c)
  | keep {itemId : Uuid} : Handles c items (.carrying c itemId) (.carrying c itemId)

/-- Why storing the prompt of a claimed chat fails. -/
def Refuses (s : AppState) (c : Uuid) (call : Call) : Role → Prop
  | .claiming _ => (call = .cloneChat ∨ call = .ingestPrompt) ∧ ¬ Cached s c ∨
      call = .getRow ∧ ¬ Stored s c
  | .numbered _ seq => call = .insertPrompt ∧ (¬ Stored s c ∨
      ∃ r ∈ s.store.prompts, r.id = s.nextId ∨ r.chatId = c ∧ r.seq = seq)
  | _ => False

/-- What handlers outside routing may do: neither lock nor flag is theirs. -/
structure Apart (x : Option Site) (s s' : AppState) : Prop where
  dispatching : s'.dispatching = s.dispatching
  routingLock : s'.routingLock = s.routingLock
  nextId : s.nextId ≤ s'.nextId
  keys : ∀ r' ∈ s'.store.prompts, (∃ r ∈ s.store.prompts, r.key = r'.key) ∨
    x = some ⟨.forkChat, r'.chatId, .insertPrompt⟩ ∧ s.nextId ≤ r'.id ∧ r'.id < s'.nextId

/-- One action of a task, by what it does to its role and to the state. -/
inductive Moves : Option (Site × Choice) → Role → AppState → Role → AppState → Prop where
  | quiet {e : Option (Site × Choice)} {r : Role} {s s' : AppState} (h : Quiet s s') :
      Moves e r s r s'
  | answered {r : Role} {s : AppState} (answers : List (Request × Response)) :
      Moves none r s r { s with answers := answers }
  | apart {e : Option (Site × Choice)} {s s' : AppState} (h : Apart (e.map Prod.fst) s s') :
      Moves e .other s .other s'
  | lock {x : Site} {w : Choice} {r r' : Role} {s : AppState} (hfree : s.routingLock = false)
      (h : Locks x r r') : Moves (some (x, w)) r s r' (locked s)
  | unlock {r r' : Role} {s : AppState} (h : Unlocks r r') : Moves none r s r' (unlocked s)
  | look {c : Uuid} {r r' : Role} {s : AppState} (h : Looks c (decide (c ∈ s.dispatching)) r r') :
      Moves none r s r' s
  | enter {x : Site} {w : Choice} {c : Uuid} {s : AppState} (h : Cached s c) :
      Moves (some (x, w)) (.holding c) s (.admitted c) s
  | take {c : Uuid} {r r' : Role} {s : AppState} (h : Takes c r r') :
      Moves none r s r' (flagged c s)
  | free {c : Uuid} {r : Role} {s : AppState} (h : Frees c r) :
      Moves none r s (.freed c) (unflagged c s)
  | drop {x : Site} {w : Choice} {c : Uuid} {r r' : Role} {s : AppState} (h : Drops c r r')
      (hwhy : w.fail = true ∨ ¬ HasPending s c ∨ ¬ IsAuto s c) : Moves (some (x, w)) r s r' s
  | number {w : Choice} {c : Uuid} {seq : Nat} {s : AppState}
      (h : ∀ r ∈ s.store.prompts, r.chatId = c → r.seq ≠ seq) :
      Moves (some (⟨.sendMessage, c, .maxSeq⟩, w)) (.claiming c) s (.numbered c seq) s
  | store {fn : Fn} {w : Choice} {c : Uuid} {r r' : Role} {s : AppState} {row : PromptRow}
      (h : Stores c r r') (hid : row.id = s.nextId) (hc : row.chatId = c) :
      Moves (some (⟨fn, c, .insertPrompt⟩, w)) r s r'
        { s with store := { s.store with prompts := s.store.prompts ++ [row] }
                 nextId := s.nextId + 1 }
  | claimed {x : Site} {w : Choice} {c : Uuid} {s s' : AppState} (h : Quiet s s') :
      Moves (some (x, w)) (.claiming c) s (.claimed c) s'
  | leak {w : Choice} {c : Uuid} {call : Call} {r : Role} {s s' : AppState}
      (hr : r = .claiming c ∨ ∃ seq, r = .numbered c seq) (hcall : call.afterClaim = true)
      (hwhy : w.fail = true ∧ call.stores = true ∨ Refuses s c call r) (h : Quiet s s') :
      Moves (some (⟨.sendMessage, c, call⟩, w)) r s (.leaking c) s'
  | enqueue {fn : Fn} {w : Choice} {c : Uuid} {r r' : Role} {s : AppState} {row : QueueItemRow}
      (h : r = .busy c ∧ r' = .busy c ∨ r = .clear c ∧ r' = .backlog c) (hid : row.id = s.nextId)
      (hc : row.chatId = c) :
      Moves (some (⟨fn, c, .insertItem⟩, w)) r s r'
        { setItems (s.store.items ++ [row]) s with nextId := s.nextId + 1 }
  | items {x : Site} {w : Choice} {c : Uuid} {r r' : Role} {s : AppState}
      {items : List QueueItemRow} (h : Handles c s.store.items r r')
      (hfrom : ∀ i' ∈ items, ∃ i ∈ s.store.items, i.id = i'.id ∧ i.chatId = i'.chatId ∧
        (QueueRepo.isPending i' = true → QueueRepo.isPending i = true ∨ r = .carrying c i'.id)) :
      Moves (some (x, w)) r s r' (setItems items s)
  | mode {x : Site} {w : Choice} {c : Uuid} {r : Role} {s : AppState} {mode : QueueMode}
      (h : mode = .auto ∧ r = .kicking c ∨ mode = .manual ∧ r = .idle c) :
      Moves (some (x, w)) (.idle c) s r { s with store := { s.store with
        modes := Function.update s.store.modes c (some mode) } }
  | mind {e : Option (Site × Choice)} {c : Uuid} {s s' : AppState} (h : Quiet s s') :
      Moves e (.idle c) s (.kicking c) s'

/-- The roles that a spawn leaves to the new task and to its parent. -/
inductive Forks : Role → Tag → Role → Role → Prop where
  | dispatch {c : Uuid} : Forks (.promised c) (.dispatch c) (.task c) (.idle c)
  | drain {c : Uuid} : Forks (.promised c) (.drain c) (.task c) (.idle c)
  | guard {c : Uuid} : Forks (.idle c) (.guard c) (.idle c) (.idle c)

/-- Roles of a handler that rests at a suspension point. -/
def RestsHandler (c : Uuid) (x : Site) : Role → Prop
  | .other => x.fn.routes = false
  | .numbered d _ => d = c ∧ x = ⟨.sendMessage, c, .insertPrompt⟩
  | .task _ | .carrying _ _ | .clearing _ | .leaving _ | .removing _ | .freed _ => False
  | r => r.chat = some c ∧ x.chat = c ∧ r.owns.isSome = x.claims

/-- Roles of a dispatch or drain task that rests at a suspension point. -/
def RestsTask (c : Uuid) (x : Site) : Role → Prop
  | .task d | .carrying d _ | .clearing d => d = c ∧ x.chat = c
  | _ => False

def Rests : Tag → Option Site → Role → Prop
  | .handler c, none, r => r = .idle c ∨ r = .other
  | .handler c, some x, r => RestsHandler c x r
  | .dispatch c, none, r | .drain c, none, r | .guard c, none, r => r = .idle c
  | .dispatch c, some x, r | .drain c, some x, r => RestsTask c x r
  | .guard c, some x, r => r = .idle c ∧ x = ⟨.guard, c, .lock⟩

/-- The account of routing that every handler and every background task keeps to. -/
def routing : Protocol Site Tag Choice AppState Role where
  rest := Rests
  sees _ _ := True
  move := Moves
  fork := Forks

end AgentGrove
