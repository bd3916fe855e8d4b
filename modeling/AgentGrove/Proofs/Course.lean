import AgentGrove.Proofs.TurnFrame
import AgentGrove.Proofs.Steps

namespace AgentGrove

open Coop

/-- Nothing about chats, prompts and turns changed: what routing and the queue do. -/
structure Routes (s s' : AppState) : Prop where
  chats : s'.chats = s.chats
  rows : s'.store.chats = s.store.chats
  prompts : s'.store.prompts = s.store.prompts
  calls : s'.calls = s.calls
  nextId : s.nextId ≤ s'.nextId

theorem Routes.refl (s : AppState) : Routes s s := ⟨rfl, rfl, rfl, rfl, Nat.le_refl _⟩

/-- The awaits of routing and of the queue, and the reads that change nothing else. -/
def Call.routes : Call → Bool
  | .lock | .forceLock | .getChat | .cloneChat | .reloadChat | .getMode | .listItems | .isAuto
  | .isStillAuto | .clearAuto | .maxPosition | .insertItem | .popItem | .markDone | .resetToPending
  | .cancelItem | .updateBody | .reorder | .setMode | .getRow | .getToken | .worktreePath
  | .projectRoot | .drainUntilIdle | .drainLoop => true
  | _ => false

/-- Code of one function for one chat that only routes. -/
abbrev Minor {α : Type} (fn : Fn) (c : Uuid) (p : Async α) : Prop :=
  p.Within (fun x => x.fn = fn ∧ x.chat = c ∧ x.call.routes = true) (fun _ => Routes)

section Minor

variable {α β ε : Type} {fn : Fn} {c : Uuid} {call : Call}

theorem accessMinor {act : Choice → AppState → AppState × β} (hc : call.routes = true)
    (ha : ∀ w s, Routes s (act w s).1) : Minor fn c (access fn c call act) :=
  access_within ⟨rfl, rfl, hc⟩ ha

theorem readMinor {act : Choice → AppState → β} (hc : call.routes = true) :
    Minor fn c (access fn c call (fun w s => (s, act w s))) :=
  accessMinor hc fun _ s => .refl s

theorem storeMinor {err : ε} {act : Choice → AppState → AppState × Except ε β}
    (hc : call.routes = true) (ha : ∀ w s, Routes s (act w s).1) :
    Minor fn c (storeCall fn c call err act) :=
  storeCall_within ⟨rfl, rfl, hc⟩ (fun _ s => .refl s) ha

theorem storeReadMinor {err : ε} {act : Choice → AppState → Except ε β} (hc : call.routes = true) :
    Minor fn c (storeCall fn c call err (fun w s => (s, act w s))) :=
  storeMinor hc fun _ s => .refl s

theorem publishOn_minor (topic : Topic) (frame : Frame) : Minor fn c (publishOn topic frame) :=
  atOnce_within fun _ => ⟨rfl, rfl, rfl, rfl, Nat.le_refl _⟩

theorem answer_minor (request : Request) (response : Response) :
    Minor fn c (answer request response) :=
  atOnce_within fun _ => ⟨rfl, rfl, rfl, rfl, Nat.le_refl _⟩

theorem unlockRouting_minor : Minor fn c unlockRouting :=
  atOnce_within fun _ => ⟨rfl, rfl, rfl, rfl, Nat.le_refl _⟩

theorem insertDispatching_minor (d : Uuid) : Minor fn c (insertDispatching d) :=
  atOnce_within fun _ => ⟨rfl, rfl, rfl, rfl, Nat.le_refl _⟩

theorem removeDispatching_minor (d : Uuid) : Minor fn c (removeDispatching d) :=
  atOnce_within fun _ => ⟨rfl, rfl, rfl, rfl, Nat.le_refl _⟩

theorem isDispatching_minor (d : Uuid) : Minor fn c (isDispatching d) :=
  atOnce_within fun s => .refl s

theorem resolveProvider_minor (provider : Text) : Minor fn c (resolveProvider provider) :=
  atOnce_within fun s => .refl s

theorem lockRouting_minor (hc : call.routes = true) : Minor fn c (lockRouting fn c call) := by
  refine ⟨⟨rfl, rfl, hc⟩, ?_, fun _ => trivial⟩
  intro w s s' b ha
  dsimp only at ha
  split at ha
  · cases ha
  · cases ha
    exact ⟨rfl, rfl, rfl, rfl, Nat.le_refl _⟩

theorem isAuto_minor (hc : call.routes = true) : Minor fn c (isAuto fn c call) := by
  apply (storeReadMinor hc).bind
  intro mode
  split <;> trivial

theorem readState_minor : Minor fn c (readState fn c) := by
  apply (storeReadMinor rfl).bind
  intro mode
  apply (storeReadMinor rfl).bind
  intro rows
  trivial

theorem mustContinue_minor (queue : QueueState) : Minor fn c (mustContinue fn c queue) := by
  unfold mustContinue
  split
  · exact isAuto_minor rfl
  · trivial

theorem needKick_minor (isBusy : Bool) : Minor .sendMessage c (needKick c isBusy) := by
  unfold needKick
  split
  · trivial
  · exact isAuto_minor rfl

theorem clearDispatching_minor : Minor fn c (clearDispatching fn c) := by
  apply (lockRouting_minor rfl).bind
  intro _
  apply readState_minor.bind
  intro queue
  apply (mustContinue_minor queue).bind
  intro again
  split
  · apply unlockRouting_minor.bind
    intro _
    trivial
  · apply (removeDispatching_minor c).bind
    intro _
    apply unlockRouting_minor.bind
    intro _
    apply (publishOn_minor _ _).bind
    intro _
    trivial

theorem setItems_routes (s : AppState) (items : List QueueItemRow) : Routes s (setItems items s) :=
  ⟨rfl, rfl, rfl, rfl, Nat.le_refl _⟩

theorem enqueueItem_minor (body : Text) : Minor fn c (enqueueItem fn c body) := by
  apply (storeReadMinor rfl).bind
  intro position
  cases position with
  | error e => trivial
  | ok position =>
    apply storeMinor rfl
    intro w s
    exact ⟨rfl, rfl, rfl, rfl, Nat.le_succ _⟩

theorem popItem_minor (pop : Nat → List QueueItemRow → Option QueueItemRow × List QueueItemRow) :
    Minor fn c (popItem fn c pop) :=
  storeMinor rfl fun _ s => setItems_routes s _

theorem changeItem_minor (hc : call.routes = true) (itemId : Uuid) (guard : QueueItemRow → Bool)
    (act : Nat → List QueueItemRow → List QueueItemRow) :
    Minor fn c (changeItem fn c call itemId guard act) :=
  storeMinor hc fun _ s => setItems_routes s _

theorem resolveCwd_minor (chat : ChatRecord) : Minor fn c (resolveCwd fn c chat) := by
  apply Prog.Within.bind
  · unfold worktreePath
    split
    · trivial
    · exact readMinor rfl
  · intro path
    cases path with
    | some path => trivial
    | none => exact readMinor rfl

theorem guardTask_minor : Minor .guard c (guardTask c) := by
  apply (lockRouting_minor rfl).bind
  intro _
  apply (removeDispatching_minor c).bind
  intro _
  apply unlockRouting_minor.bind
  intro _
  exact publishOn_minor _ _

theorem enqueue_minor (body : Text) : Minor .enqueue c (enqueue c body) := by
  apply (enqueueItem_minor body).bind
  intro item
  cases item <;> trivial

theorem reorder_minor (ids : List Uuid) : Minor .reorder c (reorder c ids) := by
  apply Prog.Within.bind (storeMinor rfl fun _ s => setItems_routes s _)
  intro done
  cases done with
  | error e => trivial
  | ok _ =>
    apply (publishOn_minor _ _).bind
    intro _
    exact readState_minor.bind fun _ => trivial

theorem cancel_minor (itemId : Uuid) : Minor .cancel c (cancel c itemId) := by
  apply (changeItem_minor rfl _ _ _).bind
  intro found
  split <;> trivial

theorem updateItem_minor (itemId : Uuid) (body : Text) :
    Minor .updateItem c (updateItem c itemId body) := by
  unfold updateItem
  split
  · trivial
  · apply (changeItem_minor rfl _ _ _).bind
    intro found
    split <;> trivial

end Minor

/-- What a protocol has to say about the pieces of code that handlers and tasks are
put together from. Between two pieces a task works for its chat with a role that is at
ease. It may run the turn of the prompts that the role minds, and have it resume the
sessions that the role knows to be a model's. -/
structure Course {ρ : Type} (P : Protocol Site Tag Choice AppState ρ) where
  ease : Uuid → ρ → Prop
  minds : Uuid → ρ → Prop
  knows : Text → Text → ρ → Prop
  start : Uuid → ρ
  started : ∀ c, ease c (start c)
  rest : ∀ {t c r} {x : Site}, ease c r → x.fn ≠ .forkChat → x.chat = c → x.call.routes = true →
    P.rest t (some x) r
  finish : ∀ {t c r}, ease c r → P.rest t none r
  route : ∀ {c r} {x : Site} {w s s'}, ease c r → x.fn ≠ .forkChat → x.chat = c →
    x.call.routes = true → P.sees r s → Routes s s' → P.move (some (x, w)) r s r s'
  now : ∀ {c r s s'}, ease c r → P.sees r s → Routes s s' → P.move none r s r s'
  spawn : ∀ {c r} (tag : Tag), ease c r → ∃ rc, P.fork r tag rc r ∧ ease c rc ∧
    (∀ id, minds id r → minds id rc) ∧ ∀ model sid, knows model sid r → knows model sid rc
  clone : ∀ {t c r} (fn : Fn) (call : Call), ease c r → fn ≠ .forkChat → call.routes = true →
    P.Follows t (getChat fn c call) r (fun found x => ease c x ∧ (∀ id, minds id r → minds id x) ∧
      ∀ chat, found = some chat → ∀ sid, chat.sessionId = some sid → knows chat.model sid x)
  add : ∀ {t c r} (fn : Fn) (content : Text), ease c r → fn ≠ .forkChat →
    P.Follows t (persistAddPrompt fn c content) r
      (fun a x => ease c x ∧ (∀ p, a = .ok (some p) → minds p.id x) ∧
        ∀ model sid, knows model sid r → knows model sid x)
  turn : ∀ {t c r} {prompt : PromptRecord} (fn : Fn) (provider text model : Text)
    (session effort : Option Text) (cwd : Text), ease c r → fn ≠ .forkChat → minds prompt.id r →
    (∀ sid, session = some sid → knows model sid r) → P.Follows t (dispatchViaProvider fn c prompt provider text model session effort cwd) r
      (fun _ x => ease c x)
  echo : ∀ {t c r} {prompt : PromptRecord} (fn : Fn) (text : Text), ease c r → fn ≠ .forkChat →
    minds prompt.id r → P.Follows t (dispatchEcho fn c prompt text) r (fun _ x => ease c x)
  forget : ∀ {t c r} (fn : Fn), ease c r → fn ≠ .forkChat →
    P.Follows t (clearProviderSession fn c) r (fun _ x => ease c x)
  retry : ∀ {t c r} (fn : Fn), ease c r → fn ≠ .forkChat →
    P.Follows t (access fn c .retryPrompt (fun _ s =>
      match s.chats.retryPrompt c with
      | some (p, reg) => ({ s with chats := reg }, some p)
      | none => (s, none))) r (fun found x => ease c x ∧ ∀ p, found = some p → minds p.id x)
  save : ∀ {t c r id} (fn : Fn), ease c r → fn ≠ .forkChat → minds id r →
    P.Follows t (persistPromptEvents fn c id .readEvents .writeEvents) r
      (fun _ x => ease c x ∧ minds id x)
  paths : ∀ {t c r id}, ease c r → minds id r →
    P.Follows t (storeCall .retryChat c .writeTouchedPaths ChatError.db (fun _ s =>
      ({ s with store := { s.store with
          prompts := ChatRepo.updatePrompt id (fun p => { p with touchedPaths := [] })
            s.store.prompts } }, .ok ()))) r (fun _ x => ease c x ∧ minds id x)
  tail : ∀ {t c r}, ease c r →
    P.Follows t (storeCall .stopTurn c .listPrompts ChatError.db (fun _ s =>
      (s, .ok (ChatRepo.listPrompts s.store.prompts c)))) r
      (fun rows x => ease c x ∧ ∀ tail, stuckTail rows = some tail → minds tail.id x)
  mend : ∀ {t c r id} (events : List AgentEvent), ease c r → minds id r →
    P.Follows t (storeCall .stopTurn c .writeEvents ChatError.db (fun _ s =>
      ({ s with store := { s.store with
          prompts := ChatRepo.updatePrompt id (fun p => { p with events := events })
            s.store.prompts } }, .ok ()))) r (fun _ x => ease c x)
  tell : ∀ {t c r} (id : Uuid) (ev : AgentEvent), ease c r →
    P.Follows t (access .stopTurn c .appendEvent (fun _ s =>
      ({ s with chats := s.chats.appendEvent c id ev }, ()))) r (fun _ x => ease c x)
  patch : ∀ {t c r} (change : ChatRepo.Patch), change.sessionId = none → ease c r →
    P.Follows t (persistChatUpdate .patch c (fun call => call) change) r (fun _ x => ease c x)
  create : ∀ {t c r} (worktreeId : Option Uuid) (title provider model : Text)
    (effort : Option Text), ease c r →
    P.Follows t (persistCreateChat c worktreeId title provider model effort) r
      (fun _ x => ease c x)
  delete : ∀ {t c r}, ease c r → P.Follows t (deleteChat c) r (fun _ x => ease c x)
  restore : ∀ {t c r}, ease c r → P.Follows t (restoreChat c) r (fun _ x => ease c x)
  fork : ∀ {t} (c : Uuid) (seq : Nat), P.Follows t (forkChat c seq) (start c)
    (fun _ x => P.rest t none x ∧ ∀ s s', P.sees x s → Routes s s' → P.move none x s x s')
  truncate : ∀ {t c r} (seq : Nat), ease c r →
    P.Follows t (truncateChat c seq) r (fun _ x => ease c x)
  revert : ∀ {t c r} (promptId : Uuid), ease c r →
    P.Follows t (revertPrompt c promptId) r (fun _ x => ease c x)

namespace Course

variable {ρ α β : Type} {P : Protocol Site Tag Choice AppState ρ} (C : Course P) {t : Tag} {r : ρ}
  {fn : Fn} {c : Uuid}

/-- Code after which the task is at ease. -/
abbrev Eases (t : Tag) (c : Uuid) (r : ρ) (p : Async α) : Prop :=
  P.Follows t p r (fun _ x => C.ease c x)

section Pieces

variable (hr : C.ease c r) (hf : fn ≠ .forkChat)
include hr

theorem minor {p : Async α} (hf : fn ≠ .forkChat) (hp : Minor fn c p) :
    P.Follows t p r (fun _ x => x = r) := by
  apply Protocol.follows_within hp
  · rintro x ⟨rfl, hc, hx⟩
    exact C.rest hr hf hc hx
  · rintro x w s s' ⟨rfl, hc, hx⟩ hs h
    exact C.route hr hf hc hx hs h
  · exact fun _ _ => C.now hr
  · exact fun _ => rfl

/-- Code without an await. -/
theorem atNow {p : Async α} (hp : Minor .guard c p) : P.Follows t p r (fun _ x => x = r) :=
  C.minor hr (by simp) hp

theorem loop {site : Site} {b : α} {body : α → Async (α ⊕ β)} (hx : site.call.routes = true)
    (hc : site.chat = c) (hf : site.fn ≠ .forkChat)
    (hb : ∀ b r, C.ease c r → C.Eases t c r (body b)) :
    C.Eases t c r (.loop site b body .ret) := by
  refine ⟨fun _ x => C.ease c x, hr, fun b r hr => ⟨C.rest hr hf hc hx, fun w s hs => ?_⟩⟩
  refine ⟨r, C.route hr hf hc hx hs (.refl s), Protocol.follows_mono (hb b r hr) ?_⟩
  intro next x hx
  cases next <;> exact hx

include hf

theorem resetToPending (itemId : Uuid) (a : α) :
    C.Eases t c r ((AgentGrove.resetToPending fn c itemId).bind fun _ => (.ret a : Async α)) :=
  Protocol.follows_to (C.minor hr hf (changeItem_minor rfl _ _ _)) fun _ => hr

theorem drainRound : C.Eases t c r (drainRound fn c) := by
  apply Protocol.follows_to (C.minor hr hf (isAuto_minor rfl))
  intro auto
  split
  · exact hr
  apply Protocol.follows_to (C.minor hr hf (popItem_minor _))
  intro popped
  cases popped with
  | error e => exact hr
  | ok found =>
  cases found with
  | none => exact hr
  | some item =>
  apply Protocol.follows_to (C.minor hr hf (isAuto_minor rfl))
  intro auto
  split
  · exact C.resetToPending hr hf item.id _
  apply Protocol.follows_then (C.clone fn .cloneChat hr hf rfl)
  rintro found y ⟨hy, -, hknows⟩
  cases found with
  | none => exact C.resetToPending hy hf item.id _
  | some chat =>
  apply Protocol.follows_then (C.add fn item.body hy hf)
  rintro stored x ⟨hx, hminds, hkeep⟩
  have hknows := fun sid hs => hkeep _ _ (hknows chat rfl sid hs)
  split
  swap
  · exact C.resetToPending hx hf item.id _
  rename_i prompt
  have hminds := hminds prompt rfl
  apply Protocol.follows_to (C.minor hx hf (changeItem_minor rfl _ _ _))
  intro _
  apply Protocol.follows_to (C.atNow hx (publishOn_minor _ _))
  intro _
  apply Protocol.follows_to (C.minor hx hf (resolveCwd_minor chat))
  intro cwd
  apply Protocol.follows_to (C.atNow hx (resolveProvider_minor _))
  intro provider
  cases provider with
  | some p => exact Protocol.follows_then (C.turn fn _ _ _ _ _ _ hx hf hminds hknows) fun _ _ hy => hy
  | none => exact Protocol.follows_then (C.echo fn _ hx hf hminds) fun _ _ hy => hy

theorem drainUntilIdle : C.Eases t c r (drainUntilIdle fn c) := by
  apply C.loop hr rfl rfl hf
  intro _ r hr
  have hloop : C.Eases t c r (drainLoop fn c) :=
    C.loop hr rfl rfl hf fun _ r hr => C.drainRound hr hf
  apply Protocol.follows_then hloop
  intro _ x hx
  apply Protocol.follows_to (C.minor hx hf clearDispatching_minor)
  intro freed
  cases freed <;> exact hx

omit hf

theorem spawns {tag : Tag} {child : Async Unit} (hrest : child.Resting)
    (hc : ∀ r, C.ease c r → C.Eases tag c r child) :
    P.Follows t (.spawn tag child (.ret ())) r (fun _ x => x = r) := by
  obtain ⟨rc, hfork, hrc, -, -⟩ := C.spawn tag hr
  apply spawn_follows hfork hrest
  · exact Protocol.follows_mono (hc rc hrc) fun _ _ => C.finish
  · rfl

theorem dropGuard : P.Follows t (dropGuard c) r (fun _ x => x = r) := by
  apply C.spawns hr (by trivial)
  intro r hr
  exact Protocol.follows_mono (C.minor hr (by simp) guardTask_minor) fun _ _ hx => hx ▸ hr

theorem drainTask : C.Eases t c r (drainTask c) := by
  apply Protocol.follows_then (C.drainUntilIdle hr (by simp))
  intro _ x hx
  exact Protocol.follows_mono (C.dropGuard hx) fun _ _ hy => hy ▸ hx

theorem spawnDrainTask : P.Follows t (spawnDrainTask c) r (fun _ x => x = r) :=
  C.spawns hr trivial fun _ hr => C.drainTask hr

include hf

/-- A stale turn: the retry runs whatever prompt it finds at the chat's tail. -/
theorem retryStale (chat : ChatRecord) (prompt : PromptRecord) (provider body cwd : Text) :
    C.Eases t c r (retryStale fn c chat prompt provider body cwd) := by
  apply Protocol.follows_then (C.forget fn hr hf)
  intro _ x hx
  apply Protocol.follows_to (C.atNow hx (publishOn_minor _ _))
  intro _
  apply Protocol.follows_then (C.retry fn hx hf)
  rintro found y ⟨hy, hminds⟩
  cases found with
  | none => exact hy
  | some p =>
  apply Protocol.follows_then (C.save fn hy hf (hminds p rfl))
  rintro _ z ⟨hz, hminds⟩
  exact Protocol.follows_then (C.turn fn _ _ _ _ _ _ hz hf hminds (by simp)) fun _ _ h => h

theorem firstTurn {prompt : PromptRecord} {chat : ChatRecord} (hm : C.minds prompt.id r)
    (hk : ∀ sid, chat.sessionId = some sid → C.knows chat.model sid r) (body cwd : Text)
    (provider : Option Text) :
    C.Eases t c r (firstTurn fn c chat prompt body cwd provider) := by
  cases provider with
  | none => exact C.echo fn _ hr hf hm
  | some p =>
  apply Protocol.follows_then (C.turn fn _ _ _ _ _ _ hr hf hm hk)
  intro stale x hx
  unfold retryIfStale
  split
  · exact C.retryStale hx hf _ _ _ _ _
  · exact hx

omit hf

theorem dispatchTask {prompt : PromptRecord} {chat : ChatRecord} (hm : C.minds prompt.id r)
    (hk : ∀ sid, chat.sessionId = some sid → C.knows chat.model sid r) (body : Text) : C.Eases t c r (dispatchTask c chat prompt body) := by
  have hf : Fn.dispatchTask ≠ .forkChat := by simp
  apply Protocol.follows_to (C.minor hr hf (resolveCwd_minor chat))
  intro cwd
  apply Protocol.follows_to (C.atNow hr (resolveProvider_minor _))
  intro provider
  apply Protocol.follows_then (C.firstTurn hr hf hm hk _ _ _)
  intro _ x hx
  have hend : C.Eases t c x (endCompaction .dispatchTask c
      (isCompactCommand body && provider.isSome)) := by
    unfold endCompaction
    split
    · exact C.forget .dispatchTask hx hf
    · exact hx
  apply Protocol.follows_then hend
  intro _ y hy
  apply Protocol.follows_then (C.drainUntilIdle hy hf)
  intro _ z hz
  exact Protocol.follows_mono (C.dropGuard hz) fun _ _ h => h ▸ hz

theorem spawnDispatchTask {prompt : PromptRecord} {chat : ChatRecord} (hm : C.minds prompt.id r)
    (hk : ∀ sid, chat.sessionId = some sid → C.knows chat.model sid r) (body : Text) : P.Follows t (spawnDispatchTask c chat prompt body) r (fun _ x => x = r) := by
  obtain ⟨rc, hfork, hrc, hminds, hknows⟩ := C.spawn (.dispatch c) hr
  apply spawn_follows hfork (dispatchTask_resting chat prompt body)
  · have hk := fun sid hs => hknows _ _ (hk sid hs)
    exact Protocol.follows_mono (C.dispatchTask hrc (hminds _ hm) hk body) fun _ _ => C.finish
  · rfl

end Pieces

section Handlers

variable (hr : C.ease c r) (hf : fn ≠ .forkChat)
include hr

theorem refuses (a : α) : C.Eases t c r (unlockRouting.bind fun _ => (.ret a : Async α)) :=
  Protocol.follows_to (C.atNow hr unlockRouting_minor) fun _ => hr

theorem sendMessage (content : Text) : C.Eases t c r (sendMessage c content) := by
  have hf : Fn.sendMessage ≠ .forkChat := by simp
  apply Protocol.follows_to (C.minor hr hf (lockRouting_minor rfl))
  intro _
  apply Protocol.follows_to (C.minor hr hf (readMinor rfl))
  intro found
  cases found with
  | none => exact C.refuses hr _
  | some chat =>
  apply Protocol.follows_to (C.atNow hr (isDispatching_minor c))
  intro isBusy
  apply Protocol.follows_to (C.minor hr hf readState_minor)
  intro queue
  split
  · apply Protocol.follows_to (C.minor hr hf (enqueueItem_minor content))
    intro item
    cases item with
    | error e => exact C.refuses hr _
    | ok item =>
    apply Protocol.follows_to (C.minor hr hf (needKick_minor isBusy))
    intro kick
    split
    · apply Protocol.follows_to (C.atNow hr (insertDispatching_minor c))
      intro _
      apply Protocol.follows_to (C.atNow hr unlockRouting_minor)
      intro _
      exact Protocol.follows_to (C.spawnDrainTask hr) fun _ => hr
    · exact C.refuses hr _
  apply Protocol.follows_to (C.atNow hr (insertDispatching_minor c))
  intro _
  apply Protocol.follows_then (C.clone .sendMessage .cloneChat hr hf rfl)
  rintro found y ⟨hy, -, hknows⟩
  cases found with
  | none => exact C.refuses hy _
  | some chat =>
  apply Protocol.follows_then (C.add .sendMessage content hy hf)
  rintro stored x ⟨hx, hminds, hkeep⟩
  have hknows := fun sid hs => hkeep _ _ (hknows chat rfl sid hs)
  cases stored with
  | error e => exact C.refuses hx _
  | ok found =>
  cases found with
  | none => exact C.refuses hx _
  | some prompt =>
  apply Protocol.follows_to (C.atNow hx unlockRouting_minor)
  intro _
  exact Protocol.follows_to (C.spawnDispatchTask hx (hminds prompt rfl) hknows _) fun _ => hx

theorem addPrompt (content : Text) : C.Eases t c r (addPrompt c content) := by
  have hf : Fn.addPrompt ≠ .forkChat := by simp
  apply Protocol.follows_to (C.minor hr hf (lockRouting_minor rfl))
  intro _
  apply Protocol.follows_then (C.clone .addPrompt .cloneChat hr hf rfl)
  rintro found y ⟨hy, -, hknows⟩
  cases found with
  | none => exact C.refuses hy _
  | some chat =>
  apply Protocol.follows_then (C.add .addPrompt content hy hf)
  rintro stored x ⟨hx, hminds, hkeep⟩
  have hknows := fun sid hs => hkeep _ _ (hknows chat rfl sid hs)
  cases stored with
  | error e => exact C.refuses hx _
  | ok found =>
  cases found with
  | none => exact C.refuses hx _
  | some prompt =>
  apply Protocol.follows_to (C.atNow hx (insertDispatching_minor c))
  intro _
  apply Protocol.follows_to (C.atNow hx unlockRouting_minor)
  intro _
  exact Protocol.follows_to (C.spawnDispatchTask hx (hminds prompt rfl) hknows _) fun _ => hx

include hf in
theorem dispatchPopped (item : QueueItem) : C.Eases t c r (dispatchPopped fn c item) := by
  apply Protocol.follows_then (C.clone fn .cloneChat hr hf rfl)
  rintro found y ⟨hy, -, hknows⟩
  cases found with
  | none => exact C.refuses hy _
  | some chat =>
  apply Protocol.follows_then (C.add fn item.body hy hf)
  rintro stored x ⟨hx, hminds, hkeep⟩
  have hknows := fun sid hs => hkeep _ _ (hknows chat rfl sid hs)
  split
  swap
  · exact C.refuses hx _
  rename_i prompt
  apply Protocol.follows_to (C.atNow hx (insertDispatching_minor c))
  intro _
  apply Protocol.follows_to (C.atNow hx unlockRouting_minor)
  intro _
  apply Protocol.follows_to (C.minor hx hf (changeItem_minor rfl _ _ _))
  intro _
  apply Protocol.follows_to (C.atNow hx (publishOn_minor _ _))
  intro _
  exact Protocol.follows_to (C.spawnDispatchTask hx (hminds prompt rfl) hknows _) fun _ => hx

include hf in
theorem popAndDispatch
    (pop : Nat → List QueueItemRow → Option QueueItemRow × List QueueItemRow) :
    C.Eases t c r (popAndDispatch fn c (popItem fn c pop)) := by
  apply Protocol.follows_to (C.minor hr hf (lockRouting_minor rfl))
  intro _
  apply Protocol.follows_to (C.atNow hr (isDispatching_minor c))
  intro busy
  split
  · exact C.refuses hr _
  apply Protocol.follows_to (C.minor hr hf (popItem_minor pop))
  intro popped
  cases popped with
  | error e => exact C.refuses hr _
  | ok found =>
  cases found with
  | none => exact C.refuses hr _
  | some item => exact C.dispatchPopped hr hf item

theorem retryChat : C.Eases t c r (retryChat c) := by
  have hf : Fn.retryChat ≠ .forkChat := by simp
  apply Protocol.follows_to (C.minor hr hf (lockRouting_minor rfl))
  intro _
  apply Protocol.follows_to (C.minor hr hf (readMinor rfl))
  intro found
  cases found with
  | none => exact C.refuses hr _
  | some chat =>
  dsimp only
  split
  · exact C.refuses hr _
  apply Protocol.follows_to (C.atNow hr (isDispatching_minor c))
  intro busy
  split
  · exact C.refuses hr _
  apply Protocol.follows_then (C.retry .retryChat hr hf)
  rintro found x ⟨hx, hminds⟩
  cases found with
  | none => exact C.refuses hx _
  | some prompt =>
  apply Protocol.follows_then (C.save .retryChat hx hf (hminds prompt rfl))
  rintro _ y ⟨hy, hminds⟩
  apply Protocol.follows_then (C.paths hy hminds)
  rintro _ z ⟨hz, hminds⟩
  apply Protocol.follows_then (C.clone .retryChat .reloadChat hz hf rfl)
  rintro found v ⟨hv, hkeep, hknows⟩
  cases found with
  | none => exact C.refuses hv _
  | some chat =>
  apply Protocol.follows_to (C.atNow hv (insertDispatching_minor c))
  intro _
  apply Protocol.follows_to (C.atNow hv unlockRouting_minor)
  intro _
  exact Protocol.follows_to (C.spawnDispatchTask hv (hkeep _ hminds) (hknows chat rfl) _) fun _ => hv

include hf in
theorem kickDrainIfIdle : C.Eases t c r (kickDrainIfIdle fn c) := by
  have hgives : C.Eases t c r unlockRouting :=
    Protocol.follows_mono (C.atNow hr unlockRouting_minor) fun _ _ hx => hx ▸ hr
  apply Protocol.follows_to (C.minor hr hf (lockRouting_minor rfl))
  intro _
  apply Protocol.follows_to (C.atNow hr (isDispatching_minor c))
  intro busy
  split
  · exact hgives
  apply Protocol.follows_to (C.minor hr hf (isAuto_minor rfl))
  intro auto
  split
  · exact hgives
  apply Protocol.follows_to (C.minor hr hf readState_minor)
  intro queue
  split
  · exact hgives
  apply Protocol.follows_to (C.atNow hr (insertDispatching_minor c))
  intro _
  apply Protocol.follows_to (C.atNow hr unlockRouting_minor)
  intro _
  exact Protocol.follows_mono (C.spawnDrainTask hr) fun _ _ hx => hx ▸ hr

theorem setMode (mode : QueueMode) : C.Eases t c r (setMode c mode) := by
  have hf : Fn.setMode ≠ .forkChat := by simp
  have hwrite : Minor .setMode c (storeCall .setMode c .setMode QueueError.db (fun _ s =>
      ({ s with store := { s.store with
        modes := Function.update s.store.modes c (some mode) } }, .ok ()))) :=
    storeMinor rfl fun _ _ => ⟨rfl, rfl, rfl, rfl, Nat.le_refl _⟩
  apply Protocol.follows_to (C.minor hr hf hwrite)
  intro written
  cases written with
  | error e => exact hr
  | ok _ =>
    have hkick : C.Eases t c r (kickIfAuto .setMode c mode) := by
      unfold kickIfAuto
      split
      · exact C.kickDrainIfIdle hr hf
      · exact hr
    exact Protocol.follows_then hkick fun _ _ hx => hx

theorem stopTurn : C.Eases t c r (stopTurn c) := by
  have hf : Fn.stopTurn ≠ .forkChat := by simp
  apply Protocol.follows_to (C.minor hr hf (readMinor rfl))
  intro token
  cases token with
  | some token =>
    have htrip : Minor .guard c (atOnce (fun s =>
        ({ s with cancelled := insert token s.cancelled }, ()))) :=
      atOnce_within fun _ => ⟨rfl, rfl, rfl, rfl, Nat.le_refl _⟩
    apply Protocol.follows_to (C.atNow hr htrip)
    intro _
    exact Protocol.follows_then (C.kickDrainIfIdle hr hf) fun _ _ hx => hx
  | none =>
  apply Protocol.follows_then (C.tail hr)
  rintro prompts x ⟨hx, hminds⟩
  dsimp only
  split
  · rename_i tail htail
    apply Protocol.follows_then (C.mend _ hx (hminds tail htail))
    intro _ y hy
    apply Protocol.follows_then (C.tell _ _ hy)
    intro _ z hz
    exact Protocol.follows_to (C.atNow hz (publishOn_minor _ _)) fun _ => hz
  · apply Protocol.follows_to (C.minor hx hf (lockRouting_minor rfl))
    intro _
    apply Protocol.follows_to (C.atNow hx (removeDispatching_minor c))
    intro _
    apply Protocol.follows_to (C.atNow hx unlockRouting_minor)
    intro _
    apply Protocol.follows_to (C.atNow hx (publishOn_minor _ _))
    intro _
    exact Protocol.follows_then (C.kickDrainIfIdle hx hf) fun _ _ hy => hy

theorem createChat (worktreeId : Option Uuid) (title provider model : Text)
    (effort : Option Text) : C.Eases t c r (createChat c worktreeId title provider model effort) := by
  have hf : Fn.createChat ≠ .forkChat := by simp
  apply Protocol.follows_to (C.minor hr hf (readMinor rfl))
  intro known
  split
  · exact hr
  cases worktreeId with
  | none => exact C.create _ _ _ _ _ hr
  | some wt =>
    apply Protocol.follows_to (C.minor hr hf (readMinor rfl))
    intro owner
    cases owner with
    | none => exact hr
    | some owner =>
      dsimp only
      split
      · exact C.create _ _ _ _ _ hr
      · exact hr

theorem patchChat (title model : Option Text) (effort : Option (Option Text)) :
    C.Eases t c r (AgentGrove.patch c title model effort) := by
  have hf : Fn.patch ≠ .forkChat := by simp
  apply Protocol.follows_to (C.minor hr hf (readMinor rfl))
  intro found
  cases found with
  | none => exact hr
  | some chat =>
  cases nonBlank "title cannot be empty".toList title with
  | error e => exact hr
  | ok title =>
  cases nonBlank "model cannot be empty".toList model with
  | error e => exact hr
  | ok model =>
  apply Protocol.follows_then (C.patch _ rfl hr)
  intro updated x hx
  cases updated with
  | error e => exact hx
  | ok _ =>
    apply Protocol.follows_to (C.minor hx hf (readMinor rfl))
    intro found
    cases found with
    | none => exact hx
    | some record => exact Protocol.follows_to (C.atNow hx (publishOn_minor _ _)) fun _ => hx

end Handlers

/-- Answering is all that is left to do once a handler has returned. -/
theorem responds {request : Request} {render : α → Response} {p : Async (Except Failure α)}
    (h : C.Eases t c r p) :
    P.Follows t (respond request render p) r (fun _ x => P.rest t none x) := by
  apply Protocol.follows_then h
  intro out x hx
  have hanswer : ∀ response, P.Follows t (answer request response) x
      (fun _ y => P.rest t none y) := by
    intro response
    refine Protocol.follows_mono (C.atNow hx (answer_minor _ _)) ?_
    rintro _ _ rfl
    exact C.finish hx
  cases out <;> exact hanswer _

theorem handles (request : Request) :
    P.Follows (entry request).tag (entry request).prog (C.start request.chat)
      (fun _ x => P.rest (entry request).tag none x) := by
  have hr := C.started request.chat
  cases request with
  | sendMessage c content => exact C.responds (C.sendMessage hr content)
  | addPrompt c content => exact C.responds (C.addPrompt hr content)
  | runNext c => exact C.responds (C.popAndDispatch hr (by simp) _)
  | dispatchItem c item => exact C.responds (C.popAndDispatch hr (by simp) _)
  | retryChat c => exact C.responds (C.retryChat hr)
  | setMode c mode => exact C.responds (C.setMode hr mode)
  | stopTurn c => exact C.responds (C.stopTurn hr)
  | enqueue c body =>
    exact C.responds (Protocol.follows_mono (C.minor hr (by simp) (enqueue_minor body))
      fun _ _ hx => hx ▸ hr)
  | reorder c ids =>
    exact C.responds (Protocol.follows_mono (C.minor hr (by simp) (reorder_minor ids))
      fun _ _ hx => hx ▸ hr)
  | cancel c item =>
    exact C.responds (Protocol.follows_mono (C.minor hr (by simp) (cancel_minor item))
      fun _ _ hx => hx ▸ hr)
  | updateItem c item body =>
    exact C.responds (Protocol.follows_mono (C.minor hr (by simp) (updateItem_minor item body))
      fun _ _ hx => hx ▸ hr)
  | createChat project worktree title provider model effort =>
    exact C.responds (C.createChat hr _ _ _ _ _)
  | deleteChat c => exact C.responds (C.delete hr)
  | restoreChat c => exact C.responds (C.restore hr)
  | patch c title model effort => exact C.responds (C.patchChat hr _ _ _)
  | forkChat c seq =>
    apply Protocol.follows_then (C.fork c seq)
    rintro out x ⟨hfin, hnow⟩
    have hanswer : ∀ response, P.Follows (.handler c) (answer (.forkChat c seq) response) x
        (fun _ y => P.rest (.handler c) none y) := by
      intro response s hs
      exact ⟨x, hnow _ _ hs ⟨rfl, rfl, rfl, rfl, Nat.le_refl _⟩, hfin⟩
    cases out <;> exact hanswer _
  | truncateChat c seq => exact C.responds (C.truncate seq hr)
  | revertPrompt c prompt => exact C.responds (C.revert prompt hr)

end Course

end AgentGrove
