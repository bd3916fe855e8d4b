import AgentGrove.Coop.Serial
import AgentGrove.Proofs.TurnFrame

namespace AgentGrove

open Coop

/-- What `spawn_dispatch_task` runs for a message before it drains the queue. -/
def directTurn (chatId : Uuid) (chat : ChatRecord) (prompt : PromptRecord) (body : Text) :
    Async Unit := do
  let cwd ← resolveCwd .dispatchTask chatId chat
  let provider ← resolveProvider chat.provider
  let compacting := isCompactCommand body && provider.isSome
  firstTurn .dispatchTask chatId chat prompt (effectiveBody chat compacting body) cwd provider
  endCompaction .dispatchTask chatId compacting

/-- What a pass of `drain_loop` runs for the message it has popped and stored. -/
def queuedTurn (fn : Fn) (chatId : Uuid) (chat : ChatRecord) (prompt : PromptRecord) (body : Text) :
    Async Unit := do
  let cwd ← resolveCwd fn chatId chat
  match ← resolveProvider chat.provider with
  | some p =>
    let _ ← dispatchViaProvider fn chatId prompt p body chat.model chat.sessionId chat.effort cwd
  | none => dispatchEcho fn chatId prompt body

theorem dispatchTask_eq (chatId : Uuid) (chat : ChatRecord) (prompt : PromptRecord) (body : Text) :
    dispatchTask chatId chat prompt body = (directTurn chatId chat prompt body).bind (fun _ =>
      (drainUntilIdle .dispatchTask chatId).bind (fun _ => dropGuard chatId)) := by
  simp only [dispatchTask, directTurn, Prog.bind_eq, Prog.bind_assoc]

theorem drainRound_eq (fn : Fn) (chatId : Uuid) : drainRound fn chatId = do
    if !(← isAuto fn chatId .isAuto) then
      return .inr ()
    else
    match ← popNextPending fn chatId with
    | .error _ => return .inr ()
    | .ok none => return .inr ()
    | .ok (some item) =>
    if !(← isAuto fn chatId .isStillAuto) then
      let _ ← resetToPending fn chatId item.id
      return .inr ()
    else
    match ← getChat fn chatId .cloneChat with
    | none =>
      let _ ← resetToPending fn chatId item.id
      return .inr ()
    | some drainChat =>
    match ← persistAddPrompt fn chatId item.body with
    | .ok (some drainPrompt) =>
      let _ ← markDone fn chatId item.id
      publish chatId (.queueDispatched item.id)
      queuedTurn fn chatId drainChat drainPrompt item.body
      return .inl ()
    | _ =>
      let _ ← resetToPending fn chatId item.id
      return .inr () := by
  have htail : ∀ (chat : ChatRecord) (prompt : PromptRecord) (body : Text),
      ((queuedTurn fn chatId chat prompt body).bind (fun _ => .ret (.inl ())) : Async (Unit ⊕ Unit)) =
        (resolveCwd fn chatId chat).bind (fun cwd => (resolveProvider chat.provider).bind (fun
          | some p => (dispatchViaProvider fn chatId prompt p body chat.model chat.sessionId
              chat.effort cwd).bind (fun _ => .ret (.inl ()))
          | none => (dispatchEcho fn chatId prompt body).bind (fun _ => .ret (.inl ())))) := by
    intro chat prompt body
    simp only [queuedTurn, Prog.bind_eq, Prog.bind_assoc]
    congr 1
    funext cwd
    congr 1
    funext provider
    cases provider with
    | none => rfl
    | some p => exact Prog.bind_assoc _ _ _
  simp only [drainRound, Prog.bind_eq, Prog.pure_eq, htail]
  all_goals rfl

section Schedules

variable {fn : Fn} {c : Uuid} {chat : ChatRecord} {prompt : PromptRecord} {body : Text}
  {s s' : AppState} {answers : List Choice} {p : Server} {i : Nat}

/-- A dispatch task that nobody interrupts comes to its drain as the direct turn says. -/
theorem directTurn_reaches (h : (directTurn c chat prompt body).RunsTo s answers () s')
    (hp : Prog.RestsIn p i (dispatchTask c chat prompt body) s) :
    ∃ p', p.Reaches entry (fun _ e => ∃ w, e = .run i w) p' ∧ Prog.RestsIn p' i
      ((drainUntilIdle .dispatchTask c).bind (fun _ => dropGuard c)) s' := by
  obtain ⟨kids, h⟩ := h
  rw [dispatchTask_eq] at hp
  obtain ⟨p', hr, hrest, -⟩ := h.reaches entry _ hp
  exact ⟨p', hr, hrest⟩

/-- And so does a draining task to whatever it does after the queued turn. -/
theorem queuedTurn_reaches (h : (queuedTurn fn c chat prompt body).RunsTo s answers () s')
    {next : Unit → Async Unit}
    (hp : Prog.RestsIn p i ((queuedTurn fn c chat prompt body).bind next) s) :
    ∃ p', p.Reaches entry (fun _ e => ∃ w, e = .run i w) p' ∧ Prog.RestsIn p' i (next ()) s' := by
  obtain ⟨kids, h⟩ := h
  obtain ⟨p', hr, hrest, -⟩ := h.reaches entry next hp
  exact ⟨p', hr, hrest⟩

end Schedules

section Names

/-- The same suspension point in another function. -/
def inFn (fn : Fn) (x : Site) : Site := { x with fn := fn }

variable (f fn : Fn) (c : Uuid)

theorem emit_named (call : TurnCall) (promptId : Uuid) (ev : AgentEvent) :
    (emit f c call promptId ev).relabel (inFn fn) = emit fn c call promptId ev := rfl

theorem flushToken_named (promptId : Uuid) (pending : Text) :
    (flushToken f c promptId pending).relabel (inFn fn) = flushToken fn c promptId pending := by
  unfold flushToken
  split <;> rfl

theorem flushThinking_named (promptId : Uuid) (pending : Text) :
    (flushThinking f c promptId pending).relabel (inFn fn) = flushThinking fn c promptId pending := by
  unfold flushThinking
  split <;> rfl

theorem updateChatRow_named (label : Call → Call) (patch : ChatRepo.Patch) :
    (updateChatRow f c label patch).relabel (inFn fn) = updateChatRow fn c label patch := by
  unfold updateChatRow
  split <;> rfl

theorem persistChatUpdate_named (label : Call → Call) (patch : ChatRepo.Patch) :
    (persistChatUpdate f c label patch).relabel (inFn fn) = persistChatUpdate fn c label patch := by
  unfold persistChatUpdate changesModel
  simp only [Prog.bind_eq, Prog.relabel_bind, updateChatRow_named]
  congr 1
  · cases patch.model <;> rfl
  funext changes
  congr 1
  funext updated
  cases updated with
  | error e => rfl
  | ok _ =>
    simp only [Prog.relabel_bind]
    congr 1
    funext row
    cases row <;> rfl

theorem captureSession_named (ev : AgentEvent) :
    (captureSession f c ev).relabel (inFn fn) = captureSession fn c ev := by
  cases ev with
  | sessionStart sid =>
    simp only [captureSession, Prog.bind_eq, Prog.relabel_bind, persistChatUpdate_named]
    rfl
  | _ => rfl

theorem streamRound_named (promptId : Uuid) (provider : Text) (st : Stream) :
    (streamRound f c promptId provider st).relabel (inFn fn) =
      streamRound fn c promptId provider st := by
  have hother : ∀ ev, (otherEvent f c promptId provider st ev).relabel (inFn fn) =
      otherEvent fn c promptId provider st ev := by
    intro ev
    simp only [otherEvent, Prog.bind_eq, Prog.relabel_bind, flushToken_named, flushThinking_named,
      captureSession_named, emit_named]
    rfl
  unfold streamRound
  simp only [Prog.bind_eq, Prog.relabel_bind]
  congr 1
  funext received
  cases received with
  | timeout =>
    simp only [Prog.relabel_bind, flushToken_named, flushThinking_named]
    rfl
  | closed => rfl
  | event ev =>
    cases ev with
    | token text =>
      simp only [Prog.relabel_bind, flushThinking_named]
      congr 1
      funext _
      split
      · simp only [Prog.relabel_bind, flushToken_named]
        rfl
      · rfl
    | thinking text =>
      simp only [Prog.relabel_bind, flushToken_named]
      congr 1
      funext _
      split
      · simp only [Prog.relabel_bind, flushThinking_named]
        rfl
      · rfl
    | _ =>
      simp only [Prog.relabel_bind, hother]
      rfl

theorem persistPromptEvents_named (promptId : Uuid) (read write : Call) :
    (persistPromptEvents f c promptId read write).relabel (inFn fn) =
      persistPromptEvents fn c promptId read write := by
  unfold persistPromptEvents
  simp only [Prog.bind_eq, Prog.relabel_bind]
  congr 1
  funext found
  cases found <;> rfl

theorem dispatchViaProvider_named (prompt : PromptRecord) (provider userText model : Text)
    (session effort : Option Text) (cwd : Text) :
    (dispatchViaProvider f c prompt provider userText model session effort cwd).relabel (inFn fn) =
      dispatchViaProvider fn c prompt provider userText model session effort cwd := by
  have hstream : ∀ promptId, (Prog.loop ⟨f, c, .turn .stream⟩ Stream.start
      (streamRound f c promptId provider) .ret : Async Stream).relabel (inFn fn) =
        Prog.loop ⟨fn, c, .turn .stream⟩ Stream.start (streamRound fn c promptId provider) .ret := by
    intro promptId
    simp only [Prog.relabel, streamRound_named]
    rfl
  have hconclude : ∀ promptId ev, (conclude f c promptId ev).relabel (inFn fn) =
      conclude fn c promptId ev := by
    intro promptId ev
    cases ev <;> rfl
  unfold dispatchViaProvider
  simp only [Prog.bind_eq, Prog.relabel_bind, flushToken_named, flushThinking_named, hstream,
    hconclude, persistPromptEvents_named]
  rfl

theorem dispatchEcho_named (prompt : PromptRecord) (userText : Text) :
    (dispatchEcho f c prompt userText).relabel (inFn fn) = dispatchEcho fn c prompt userText := by
  simp only [dispatchEcho, Prog.bind_eq, Prog.relabel_bind, emit_named, persistPromptEvents_named]

theorem resolveCwd_named (chat : ChatRecord) :
    (resolveCwd f c chat).relabel (inFn fn) = resolveCwd fn c chat := by
  unfold resolveCwd worktreePath
  simp only [Prog.bind_eq, Prog.relabel_bind]
  congr 1
  · cases chat.worktreeId <;> rfl
  funext path
  cases path <;> rfl

end Names

end AgentGrove
