import AgentGrove.Coop.Budget
import AgentGrove.Draining.Pending

namespace AgentGrove

open Coop

/-- What a drain knows at its place: nothing; under the lock, that the queue was
not empty; after it, that the chat was in auto mode as well. -/
inductive Phase where
  | fresh
  | seen
  | owed
deriving DecidableEq

/-- How far the drains of one chat have come. A drain is due so many awaits
before its phase must change. -/
inductive Pace where
  | other
  | due (phase : Phase) (k : Nat)
  | freed
deriving DecidableEq

/-- More than the awaits from a pop to the next one. -/
def width : Nat := 30

/-- What a drain may spend once if the mode it has seen does not hold. -/
def slack : Nat := 7

/-- A bound on the steps a drain of `c` can still take. -/
def Pace.load (c : Uuid) (s : AppState) : Pace → Nat
  | due .fresh k => width * pendingIn c s + k
  | due .seen k => width * max 1 (pendingIn c s) + k
  | due .owed k => width * max 1 (pendingIn c s) + k +
      if QueueRepo.getMode s.store.modes c = .auto then 0 else slack
  | _ => 0

/-- An await of a drain that puts no item back and reads mode and queue. -/
def Proceeds (x : Site) (w : Choice) : Prop :=
  x.call ≠ .resetToPending ∧ (x.call = .isAuto ∨ x.call = .popItem → w.fail = false)

instance (x : Site) (w : Choice) : Decidable (Proceeds x w) := inferInstanceAs (Decidable (_ ∧ _))

/-- Queue and modes are as they were. -/
structure Steady (s s' : AppState) : Prop where
  items : s'.store.items = s.store.items
  modes : s'.store.modes = s.store.modes

/-- What an await costs a drain; those inside the event loop of a turn are free. -/
def Call.cost (call : Call) : Nat := if call.streams then 0 else 1

/-- One action of a task, by what it does to the bound. -/
inductive Paces (c : Uuid) : Option (Site × Choice) → Pace → AppState → Pace → AppState → Prop where
  | other {e : Option (Site × Choice)} {s s' : AppState} : Paces c e .other s .other s'
  | spend {x : Site} {w : Choice} {ph ph' : Phase} {k k' : Nat} {s s' : AppState}
      (h : Proceeds x w →
        (Pace.due ph' k').load c s' + x.call.cost ≤ (Pace.due ph k).load c s) :
      Paces c (some (x, w)) (.due ph k) s (.due ph' k') s'
  | steady {ph : Phase} {k : Nat} {s s' : AppState} (h : Steady s s') :
      Paces c none (.due ph k) s (.due ph k) s'
  | free {ph : Phase} {k : Nat} {s : AppState} :
      Paces c none (.due ph k) s .freed (unflagged c s)
  | freed {s s' : AppState} (h : s'.dispatching = s.dispatching) : Paces c none .freed s .freed s'

/-- Where a drain starts. -/
def Pace.start : Pace := .due .fresh 43

/-- The account that the drains of one chat keep of their progress. -/
def pace (c : Uuid) : Protocol Site Tag Choice AppState Pace where
  rest t x
    | .other => ¬ Carrier.task.tagged c t
    | .due _ _ => Carrier.task.tagged c t ∧ ∃ y, x = some y ∧ y.chat = c
    | .freed => Carrier.task.tagged c t ∧ x = none
  sees _ _ := True
  move := Paces c
  fork r tag rc r' := r' = r ∧ (Carrier.task.tagged c tag ∧ rc = .start ∨
    ¬ Carrier.task.tagged c tag ∧ rc = .other)

section Load

variable {c : Uuid} {s s' : AppState} {ph : Phase} {k : Nat}

theorem Steady.refl (s : AppState) : Steady s s := ⟨rfl, rfl⟩

theorem Quiet.steady (h : Quiet s s') : Steady s s' := ⟨h.items, h.modes⟩

theorem Steady.load (h : Steady s s') (r : Pace) : r.load c s' = r.load c s := by
  have hp : pendingIn c s' = pendingIn c s := pendingIn_congr h.items
  unfold Pace.load
  rw [hp, h.modes]

theorem load_add (j : Nat) :
    (Pace.due ph (k + j)).load c s = (Pace.due ph k).load c s + j := by
  cases ph <;> simp only [Pace.load] <;> omega

/-- The bound falls with the queue while the mode stays. -/
theorem load_mono (r : Pace) (hp : pendingIn c s' ≤ pendingIn c s)
    (hm : QueueRepo.getMode s'.store.modes c = QueueRepo.getMode s.store.modes c) :
    r.load c s' ≤ r.load c s := by
  cases r with
  | other => exact Nat.le_refl _
  | freed => exact Nat.le_refl _
  | due ph k =>
    have hmax : max 1 (pendingIn c s') ≤ max 1 (pendingIn c s) := by omega
    have hmul := Nat.mul_le_mul_left width hp
    have hmul' := Nat.mul_le_mul_left width hmax
    cases ph <;> simp only [Pace.load, hm] <;> omega

theorem cost_le (call : Call) : call.cost ≤ 1 := by
  unfold Call.cost
  split <;> omega

end Load

section Roomy

variable {c : Uuid}

/-- The same place with some awaits to spare. -/
def Pace.le (r r' : Pace) : Prop := r = r' ∨ ∃ ph k j, r = .due ph k ∧ r' = .due ph (k + j)

theorem Pace.le.refl (r : Pace) : r.le r := .inl rfl

theorem Pace.le.trans {r r' r'' : Pace} (h : r.le r') (h' : r'.le r'') : r.le r'' := by
  rcases h with rfl | ⟨ph, k, j, rfl, rfl⟩
  · exact h'
  · rcases h' with rfl | ⟨ph', k', j', he, rfl⟩
    · exact .inr ⟨ph, k, j, rfl, rfl⟩
    · cases he
      exact .inr ⟨ph, k, j + j', rfl, by rw [Nat.add_assoc]⟩

theorem pace_roomy : (pace c).Roomy Pace.le where
  refl := .refl
  trans _ _ _ := .trans
  rest := by
    rintro t x _ _ (rfl | ⟨ph, k, j, rfl, rfl⟩) h
    · exact h
    · exact h
  sees _ _ _ _ _ := trivial
  move := by
    rintro e _ s q s' _ (rfl | ⟨ph, k, j, rfl, rfl⟩) h
    · exact ⟨q, .refl q, h⟩
    · cases h with
      | spend h =>
        refine ⟨_, .refl _, .spend fun hp => ?_⟩
        have := h hp
        rw [load_add]
        omega
      | steady h => exact ⟨_, .inr ⟨ph, k, j, rfl, rfl⟩, .steady h⟩
      | free => exact ⟨_, .refl _, .free⟩
  fork := by
    rintro _ tag rc q _ hle ⟨rfl, h⟩
    exact ⟨_, hle, rfl, h⟩

end Roomy

section Short

variable {α β ε : Type} {c : Uuid} {fn : Fn} {call : Call} {n m k : Nat}

/-- Code for the chat of at most so many awaits, not counting the event loop of
a turn, that leaves queue and modes alone. -/
abbrev Short (c : Uuid) (n : Nat) (p : Async α) : Prop :=
  p.Brief (fun x => x.chat = c) (fun x => x.chat = c ∧ x.call.streams = true) Steady n

theorem short_then {p : Async α} {f : α → Async β} (hp : Short c n p)
    (hf : ∀ a, Short c m (f a)) (hk : n + m ≤ k) : Short c k (p.bind f) :=
  (hp.bind hf).mono hk

theorem access_short {act : Choice → AppState → AppState × β}
    (ha : ∀ w s, Steady s (act w s).1) : Short c 1 (access fn c call act) := by
  refine ⟨Nat.one_pos, rfl, fun w s s' b h => ?_, fun _ => trivial⟩
  have he : act w s = (s', b) := Option.some.inj h
  have hw := ha w s
  rwa [he] at hw

theorem read_short {act : Choice → AppState → β} :
    Short c 1 (access fn c call (fun w s => (s, act w s))) :=
  access_short fun _ s => .refl s

theorem storeCall_short {err : ε} {act : Choice → AppState → AppState × Except ε β}
    (ha : ∀ w s, Steady s (act w s).1) : Short c 1 (storeCall fn c call err act) := by
  apply access_short
  intro w s
  split
  · exact .refl s
  · exact ha w s

theorem storeRead_short {err : ε} {act : Choice → AppState → Except ε β} :
    Short c 1 (storeCall fn c call err (fun w s => (s, act w s))) :=
  storeCall_short fun _ s => .refl s

theorem atOnce_short {act : AppState → AppState × β} (ha : ∀ s, Steady s (act s).1) :
    Short c 0 (atOnce act) :=
  ⟨ha, fun _ => trivial⟩

theorem publish_short (frame : Frame) : Short c 0 (publish c frame) :=
  atOnce_short fun _ => ⟨rfl, rfl⟩

theorem emit_short (t : TurnCall) (promptId : Uuid) (ev : AgentEvent) :
    Short c 1 (emit fn c t promptId ev) :=
  short_then (publish_short _) (fun _ => access_short fun _ _ => ⟨rfl, rfl⟩) (by decide)

theorem flushToken_short (promptId : Uuid) (pending : Text) :
    Short c 1 (flushToken fn c promptId pending) := by
  unfold flushToken
  split
  · trivial
  · exact emit_short _ _ _

theorem flushThinking_short (promptId : Uuid) (pending : Text) :
    Short c 1 (flushThinking fn c promptId pending) := by
  unfold flushThinking
  split
  · trivial
  · exact emit_short _ _ _

theorem persistPromptEvents_short (promptId : Uuid) (read write : Call) :
    Short c 2 (persistPromptEvents fn c promptId read write) := by
  apply short_then (m := 1) read_short _ (by decide)
  intro found
  cases found with
  | none => trivial
  | some p => exact short_then (storeCall_short fun _ _ => ⟨rfl, rfl⟩) (m := 0) (fun _ => trivial) (by decide)

theorem persistChatUpdate_short (patch : ChatRepo.Patch) :
    Short c 4 (persistChatUpdate fn c id patch) := by
  have hchanges : Short c 1 (changesModel fn c id patch) := by
    unfold changesModel
    split
    · trivial
    · exact read_short
  have hwrite : ∀ patch, Short c 1 (updateChatRow fn c id patch) := by
    intro patch
    unfold updateChatRow
    split
    · trivial
    · exact storeCall_short fun _ _ => ⟨rfl, rfl⟩
  apply short_then (m := 3) hchanges _ (by decide)
  intro changes
  apply short_then (m := 2) (hwrite _) _ (by decide)
  intro written
  cases written with
  | error e => trivial
  | ok _ =>
    apply short_then (m := 1) storeRead_short _ (by decide)
    intro row
    cases row with
    | error e => trivial
    | ok _ => exact access_short fun _ _ => ⟨rfl, rfl⟩

theorem clearProviderSession_short : Short c 4 (clearProviderSession fn c) :=
  short_then (m := 0) (persistChatUpdate_short _) (fun _ => trivial) (by decide)

/-- Ending a turn takes few awaits once its event loop is left. -/
theorem dispatchViaProvider_short (prompt : PromptRecord) (provider userText model : Text)
    (resume effort : Option Text) (cwd : Text) :
    Short c 9 (dispatchViaProvider fn c prompt provider userText model resume effort cwd) := by
  have hloop : Short c 0 (Prog.loop ⟨fn, c, .turn .stream⟩ Stream.start
      (streamRound fn c prompt.id provider) .ret) := by
    refine ⟨⟨⟨rfl, rfl⟩, .refl⟩, fun st => ?_, fun _ => trivial⟩
    exact streamRound_within (fun _ _ => ⟨rfl, rfl⟩) (fun _ _ _ _ => ⟨rfl, rfl⟩) (fun _ s => .refl s)
      (fun _ _ _ _ => ⟨rfl, rfl⟩) (fun _ _ _ _ => ⟨rfl, rfl⟩) (fun _ hc => ⟨rfl, hc⟩) provider st
  apply short_then (m := 8) read_short _ (by decide)
  intro approve
  apply short_then (m := 7) (access_short fun _ _ => ⟨rfl, rfl⟩) _ (by decide)
  intro token
  apply short_then (m := 7) (atOnce_short fun _ => ⟨rfl, rfl⟩) _ (by decide)
  intro _
  apply short_then (m := 7) hloop _ (by decide)
  intro st
  apply short_then (m := 6) (flushToken_short _ _) _ (by decide)
  intro _
  apply short_then (m := 5) (flushThinking_short _ _) _ (by decide)
  intro _
  apply short_then (m := 5) (atOnce_short fun s => .refl s) _ (by decide)
  intro wasCancelled
  apply short_then (n := 1) (m := 4) _ _ (by decide)
  · refine ⟨Nat.one_pos, rfl, fun w s s' b h => ?_, fun _ => trivial⟩
    dsimp only at h
    split at h
    · cases h
    · cases h
      exact .refl s
  intro joined
  apply short_then (n := 1) (m := 3) _ _ (by decide)
  · cases concluding wasCancelled st.sawTerminal joined with
    | none => trivial
    | some ev => exact emit_short _ _ _
  intro _
  apply short_then (m := 2) (access_short fun _ _ => ⟨rfl, rfl⟩) _ (by decide)
  intro _
  exact short_then (m := 0) (persistPromptEvents_short _ _ _) (fun _ => trivial) (by decide)

theorem dispatchEcho_short (prompt : PromptRecord) (userText : Text) :
    Short c 4 (dispatchEcho fn c prompt userText) := by
  apply short_then (m := 3) (emit_short _ _ _) _ (by decide)
  intro _
  exact short_then (emit_short _ _ _) (fun _ => persistPromptEvents_short _ _ _) (by decide)

theorem resolveCwd_short (record : ChatRecord) : Short c 2 (resolveCwd fn c record) := by
  have hworktree : Short c 1 (worktreePath fn c record) := by
    unfold worktreePath
    split
    · trivial
    · exact read_short
  apply short_then (m := 1) hworktree _ (by decide)
  intro worktree
  cases worktree with
  | some path => trivial
  | none => exact read_short

theorem retryStale_short (record : ChatRecord) (prompt : PromptRecord)
    (provider body cwd : Text) : Short c 16 (retryStale fn c record prompt provider body cwd) := by
  apply short_then (m := 12) clearProviderSession_short _ (by decide)
  intro _
  apply short_then (m := 12) (publish_short _) _ (by decide)
  intro _
  apply short_then (n := 1) (m := 11) _ _ (by decide)
  · apply access_short
    intro w s
    split
    · exact ⟨rfl, rfl⟩
    · exact .refl s
  intro found
  cases found with
  | none => trivial
  | some p =>
    apply short_then (m := 9) (persistPromptEvents_short _ _ _) _ (by decide)
    intro _
    exact short_then (m := 0) (dispatchViaProvider_short _ _ _ _ _ _ _) (fun _ => trivial) (by decide)

theorem firstTurn_short (record : ChatRecord) (prompt : PromptRecord) (body cwd : Text)
    (provider : Option Text) : Short c 25 (firstTurn fn c record prompt body cwd provider) := by
  cases provider with
  | none => exact (dispatchEcho_short _ _).mono (by decide)
  | some p =>
    apply short_then (m := 16) (dispatchViaProvider_short _ _ _ _ _ _ _) _ (by decide)
    intro stale
    unfold retryIfStale
    split
    · exact retryStale_short _ _ _ _ _
    · trivial

theorem endCompaction_short (compacting : Bool) :
    Short c 4 (endCompaction fn c compacting) := by
  unfold endCompaction
  split
  · exact clearProviderSession_short
  · trivial

theorem storeAddPrompt_short (content : Text) : Short c 4 (storeAddPrompt fn c content) := by
  apply short_then (m := 3) storeRead_short _ (by decide)
  intro row
  cases row with
  | error e => trivial
  | ok row =>
  apply short_then (m := 2) storeRead_short _ (by decide)
  intro seq
  cases seq with
  | error e => trivial
  | ok seq =>
  apply short_then (n := 1) (m := 1) _ _ (by decide)
  · apply storeCall_short
    intro w s
    dsimp only
    split
    · exact ⟨rfl, rfl⟩
    · exact .refl s
  intro stored
  cases stored with
  | error e => trivial
  | ok stored =>
    apply short_then (m := 0) (storeCall_short fun _ _ => ⟨rfl, rfl⟩) _ (by decide)
    intro touched
    cases touched <;> trivial

theorem persistAddPrompt_short (content : Text) :
    Short c 5 (persistAddPrompt fn c content) := by
  apply short_then (m := 1) (storeAddPrompt_short _) _ (by decide)
  intro stored
  cases stored with
  | error e => trivial
  | ok row =>
    exact short_then (m := 0) (access_short fun _ _ => ⟨rfl, rfl⟩) (fun _ => trivial) (by decide)

end Short

end AgentGrove
