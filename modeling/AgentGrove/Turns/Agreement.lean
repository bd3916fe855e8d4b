import AgentGrove.Turns.Paths

namespace AgentGrove

open Coop

/-- What shows of a turn: the provider calls and frames, the log of its prompt and
the chat's session, cached and stored. -/
structure TurnOutcome where
  calls : List ProviderCall
  bus : List (Topic × Frame)
  events : Option (List AgentEvent)
  storedEvents : Option (List AgentEvent)
  session : Option (Option Text)
  storedSession : Option (Option Text)

def turnOutcome (c promptId : Uuid) (s : AppState) : TurnOutcome where
  calls := s.calls
  bus := s.bus
  events := ((s.chats.get c).bind (fun chat => chat.prompts.find? (fun p => p.id = promptId))).map
    PromptRecord.events
  storedEvents := (s.store.prompts.find? (fun p => p.id = promptId)).map PromptRow.events
  session := (s.chats.get c).map ChatRecord.sessionId
  storedSession := (ChatRepo.get s.store.chats c).map ChatRow.sessionId

/-- The direct and the queued turn for a message come to the same, whatever the
provider, the store and the file system answer. -/
def TurnsAgree (fn : Fn) (s : AppState) (c : Uuid) (chat : ChatRecord) (prompt : PromptRecord)
    (body : Text) : Prop :=
  ∀ (answers : List Choice) (out : TurnOutcome),
    (∃ s', (directTurn c chat prompt body).RunsTo s answers () s' ∧
      turnOutcome c prompt.id s' = out) ↔
    (∃ s', (queuedTurn fn c chat prompt body).RunsTo s answers () s' ∧
      turnOutcome c prompt.id s' = out)

/-- A turn for which the direct path does nothing of its own. -/
def PlainTurn (s : AppState) (chat : ChatRecord) (body : Text) : Prop :=
  if chat.provider ∈ s.builtins then
    isCompactCommand body = false ∧ chat.sessionId = none ∧ chat.prompts = []
  else chat.sessionId ≠ none ∨ chat.prompts = []

instance (s : AppState) (chat : ChatRecord) (body : Text) : Decidable (PlainTurn s chat body) :=
  inferInstanceAs (Decidable (ite _ _ _))

/-- Calls and frames are only ever added. -/
def Grows (s s' : AppState) : Prop := s.calls <+: s'.calls ∧ s.bus <+: s'.bus

theorem Grows.refl (s : AppState) : Grows s s := ⟨List.prefix_rfl, List.prefix_rfl⟩

theorem Grows.trans {s s' s'' : AppState} (h : Grows s s') (h' : Grows s' s'') : Grows s s'' :=
  ⟨h.1.trans h'.1, h.2.trans h'.2⟩

/-- Code that takes back no call and no frame. -/
abbrev Growing {α : Type} (p : Async α) : Prop := p.Within (fun _ => True) (fun _ => Grows)

section Growing

variable {fn : Fn} {c : Uuid} {call : Call} {α β ε : Type}

theorem Growing.runsTo {p : Async α} (hp : Growing p) {s s' : AppState} {ws : List Choice} {a : α}
    (h : p.RunsTo s ws a s') : Grows s s' := by
  obtain ⟨kids, h⟩ := h
  exact hp.runs Grows.refl (fun _ _ _ => Grows.trans) (fun _ _ _ h => h) h

theorem Grows.kept {s s' : AppState} (hc : s'.calls = s.calls) (hb : s'.bus = s.bus) : Grows s s' :=
  ⟨hc ▸ List.prefix_rfl, hb ▸ List.prefix_rfl⟩

theorem growingFrame (fn : Fn) (c : Uuid) :
    TurnFrame (fun _ => True) (fun _ => Grows) (fun _ => True) (fun _ => True) fn c where
  sites _ _ := trivial
  same _ := Grows.refl
  publish _ _ := ⟨List.prefix_rfl, List.prefix_append _ _⟩
  tokens _ _ _ _ _ := .kept rfl rfl
  append _ _ _ _ _ _ := .kept rfl rfl
  events _ _ _ _ _ _ := .kept rfl rfl
  call _ _ := ⟨List.prefix_append _ _, List.prefix_rfl⟩
  row _ _ _ _ := .kept rfl rfl
  cache _ _ _ _ := .kept rfl rfl

/-- A turn from the provider's call on. -/
def afterCall (fn : Fn) (c : Uuid) (prompt : PromptRecord) (provider : Text) (token : Nat) :
    Async Bool := do
  let st ← Prog.loop ⟨fn, c, .turn .stream⟩ Stream.start (streamRound fn c prompt.id provider) .ret
  flushToken fn c prompt.id st.pendingToken
  flushThinking fn c prompt.id st.pendingThinking
  let wasCancelled ← atOnce (fun s => (s, decide (token ∈ s.cancelled)))
  let joined ← Prog.await ⟨fn, c, .turn .join⟩ (fun w s =>
    if w.joined = .dropped ∧ token ∉ s.cancelled then none else some (s, w.joined)) .ret
  conclude fn c prompt.id (concluding wasCancelled st.sawTerminal joined)
  access fn c (.turn .removeToken) (fun _ s =>
    ({ s with cancelTokens := Function.update s.cancelTokens c none }, ()))
  persistPromptEvents fn c prompt.id (.turn .readEvents) (.turn .writeEvents)
  return st.staleSession

theorem afterCall_growing (prompt : PromptRecord) (provider : Text) (token : Nat) :
    Growing (afterCall fn c prompt provider token) := by
  have F := growingFrame fn c
  apply (F.session.stream trivial provider).bind
  intro st
  apply (F.flushToken trivial _).bind
  intro _
  apply (F.flushThinking trivial _).bind
  intro _
  apply Prog.Within.bind (atOnce_within fun s => Grows.refl s)
  intro wasCancelled
  apply (F.join token).bind
  intro joined
  apply (F.conclude trivial _).bind
  intro _
  apply Prog.Within.bind (access_within trivial fun w s => F.tokens ⟨fn, c, .turn .removeToken⟩ w s _ _)
  intro _
  exact (F.persistPromptEvents trivial rfl rfl).bind fun _ => trivial

theorem retryIfStale_growing (chat : ChatRecord) (prompt : PromptRecord) (provider body cwd : Text)
    (stale : Bool) : Growing (retryIfStale fn c chat prompt provider body cwd stale) := by
  have F := growingFrame fn c
  unfold retryIfStale
  split
  · apply F.session.clearProviderSession.bind
    intro _
    apply Prog.Within.bind (atOnce_within fun s => F.publish s _)
    intro _
    apply Prog.Within.bind
    · apply access_within trivial
      intro w s
      split <;> exact .kept rfl rfl
    intro reset
    cases reset with
    | none => trivial
    | some p =>
      apply (F.persistPromptEvents trivial rfl rfl).bind
      intro _
      exact (F.dispatchViaProvider trivial trivial _ _ _ _ _ _).bind fun _ => trivial
  · trivial

/-- Reads leave the state as it is. -/
theorem read_runsTo {act : Choice → AppState → β} {s s' : AppState} {ws : List Choice} {b : β}
    (h : (access fn c call (fun w s => (s, act w s))).RunsTo s ws b s') : s' = s := by
  have hw : (access fn c call (fun w s => (s, act w s))).Within (fun _ => True) (fun _ s s' => s' = s) :=
    access_within trivial fun _ _ => rfl
  obtain ⟨kids, h⟩ := h
  exact hw.runs (R := fun s s' => s' = s) (fun _ => rfl) (fun _ _ _ h h' => h'.trans h)
    (fun _ _ _ h => h) h

theorem resolveCwd_runsTo {chat : ChatRecord} {s s' : AppState} {ws : List Choice} {cwd : Text}
    (h : (resolveCwd fn c chat).RunsTo s ws cwd s') : s' = s := by
  obtain ⟨ws₁, ws₂, path, s₁, -, hp, hrest⟩ := Prog.runsTo_bind.mp h
  have hs : s₁ = s := by
    unfold worktreePath at hp
    cases hw : chat.worktreeId with
    | none =>
      rw [hw] at hp
      exact (Prog.runsTo_ret.mp hp).2.2
    | some wt =>
      rw [hw] at hp
      exact read_runsTo hp
  cases path with
  | some path => exact (Prog.runsTo_ret.mp hrest).2.2.trans hs
  | none => exact (read_runsTo hrest).trans hs

/-- The provider is handed the text that the turn was given. -/
theorem dispatchViaProvider_call {prompt : PromptRecord} {provider userText model : Text}
    {session effort : Option Text} {cwd : Text} {s s' : AppState} {ws : List Choice} {stale : Bool}
    (h : (dispatchViaProvider fn c prompt provider userText model session effort cwd).RunsTo s ws
      stale s') : ∃ auto : Bool,
      s.calls ++ [⟨c, prompt.id, provider, userText, model, session, effort, cwd, auto⟩] <+: s'.calls := by
  obtain ⟨_, _, auto, s₁, -, h₁, h⟩ := Prog.runsTo_bind.mp h
  obtain ⟨_, _, token, s₂, -, h₂, h⟩ := Prog.runsTo_bind.mp h
  obtain ⟨_, _, _, s₃, -, h₃, h⟩ := Prog.runsTo_bind.mp h
  have hrest : (afterCall fn c prompt provider token).RunsTo s₃ _ stale s' := h
  have hgrow := ((afterCall_growing _ _ _).runsTo hrest).1
  obtain rfl := read_runsTo h₁
  have htoken : s₂.calls = s₁.calls := by
    obtain ⟨_, w, _, _, _, -, ha, -, -, rfl, -⟩ := h₂
    cases ha
    rfl
  obtain ⟨_, -, -, rfl, -⟩ := h₃
  refine ⟨auto, ?_⟩
  rw [← htoken]
  exact hgrow

/-- A stand-in turn publishes the text that it was given. -/
theorem dispatchEcho_frame {prompt : PromptRecord} {userText : Text} {s s' : AppState}
    {ws : List Choice} (h : (dispatchEcho fn c prompt userText).RunsTo s ws () s') :
    s.bus ++ [(.chat c, .event prompt.id (.token ("echo: ".toList ++ userText)))] <+: s'.bus := by
  obtain ⟨_, _, _, s₁, -, h₁, h⟩ := Prog.runsTo_bind.mp h
  have hrest : Growing ((emit fn c .append prompt.id (.done (some ("echo: ".toList ++ userText)) none)).bind
      (fun _ => persistPromptEvents fn c prompt.id (.turn .readEvents) (.turn .writeEvents))) :=
    ((growingFrame fn c).emit trivial _ _).bind fun _ => (growingFrame fn c).persistPromptEvents trivial rfl rfl
  have hgrow := (hrest.runsTo h).2
  obtain ⟨_, _, _, s₂, -, h₂, h₁⟩ := Prog.runsTo_bind.mp h₁
  obtain ⟨_, -, -, rfl, -⟩ := h₂
  have hacc : Growing (access fn c (.turn .append) (fun _ s => ({ s with
      chats := s.chats.appendEvent c prompt.id (.token ("echo: ".toList ++ userText)) }, ()))) :=
    access_within trivial fun _ _ => .kept rfl rfl
  exact (hacc.runsTo h₁).2.trans hgrow

end Growing

section Ends

variable {fn : Fn} {c : Uuid} {call : Call} {β ε : Type}

theorem access_ends (act : Choice → AppState → AppState × β) : (access fn c call act).CanEnd :=
  .await (fun _ => ⟨{}, _, _, rfl⟩) fun b => .ret b

theorem emit_ends (turn : TurnCall) (promptId : Uuid) (ev : AgentEvent) :
    (emit fn c turn promptId ev).CanEnd :=
  .sync fun _ => access_ends _

theorem flushToken_ends (promptId : Uuid) (pending : Text) :
    (flushToken fn c promptId pending).CanEnd := by
  unfold flushToken
  split
  · exact .ret _
  · exact emit_ends _ _ _

theorem flushThinking_ends (promptId : Uuid) (pending : Text) :
    (flushThinking fn c promptId pending).CanEnd := by
  unfold flushThinking
  split
  · exact .ret _
  · exact emit_ends _ _ _

theorem persistPromptEvents_ends (promptId : Uuid) (read write : Call) :
    (persistPromptEvents fn c promptId read write).CanEnd := by
  apply Prog.CanEnd.bind (access_ends _)
  intro found
  cases found with
  | none => exact .ret _
  | some p => exact (access_ends _).bind fun _ => .ret _

theorem resolveCwd_ends (chat : ChatRecord) : (resolveCwd fn c chat).CanEnd := by
  apply Prog.CanEnd.bind
  · unfold worktreePath
    cases chat.worktreeId with
    | none => exact .ret _
    | some wt => exact access_ends _
  · intro path
    cases path with
    | some path => exact .ret _
    | none => exact access_ends _

theorem dispatchEcho_ends (prompt : PromptRecord) (userText : Text) :
    (dispatchEcho fn c prompt userText).CanEnd :=
  (emit_ends _ _ _).bind fun _ => (emit_ends _ _ _).bind fun _ => persistPromptEvents_ends _ _ _

def unknownSession : Text := "session not found".toList

theorem unknownSession_stale (provider : Text) :
    isRecoverableSessionError provider unknownSession = true := by
  have hfound : containsText (toAsciiLowercase unknownSession) "session not found".toList = true := by
    decide
  simp only [isRecoverableSessionError, hfound, Bool.true_or]

/-- The provider may say nothing at all, or that it does not know the session. -/
theorem stream_gives (promptId : Uuid) (provider : Text) (stale : Bool) :
    ∃ st : Stream, st.staleSession = stale ∧
      (Prog.loop ⟨fn, c, .turn .stream⟩ Stream.start (streamRound fn c promptId provider) .ret :
        Async Stream).CanGive st := by
  have hclosed : ∀ st s, (streamRound fn c promptId provider st).Runs s [{ recv := .closed }]
      (.inr st) s [] := fun st s => ⟨_, [], s, .closed, rfl, rfl, rfl, rfl, rfl, rfl⟩
  cases stale with
  | false =>
    refine ⟨Stream.start, rfl, fun s => ⟨[{}, { recv := .closed }], s, [], ?_⟩⟩
    exact ⟨_, [], _, s, [], [], rfl, rfl, .last (hclosed _ s), rfl, rfl, rfl, rfl⟩
  | true =>
    have hstale : ∀ s, ∃ s', (streamRound fn c promptId provider Stream.start).Runs s
        [{ recv := .event (.error unknownSession) }, {}]
        (.inl ⟨[], [], isRecoverableSessionError provider unknownSession, true⟩) s' [] :=
      fun s => ⟨_, _, _, s, _, rfl, rfl, _, [], _, _, rfl, rfl, rfl, rfl, rfl, rfl⟩
    refine ⟨⟨[], [], isRecoverableSessionError provider unknownSession, true⟩,
      unknownSession_stale provider, fun s => ?_⟩
    obtain ⟨s', h⟩ := hstale s
    have hrounds := Rounds.more (R := fun st => (streamRound fn c promptId provider st).Runs) (w := {})
      h (.last (w := {}) (hclosed _ s'))
    exact ⟨_, s', _, _, [], _, s', _, [], (List.append_nil _).symm, (List.append_nil _).symm,
      hrounds, rfl, rfl, rfl, rfl⟩

/-- A turn can end with either answer. -/
theorem dispatchViaProvider_gives (prompt : PromptRecord) (provider userText model : Text)
    (session effort : Option Text) (cwd : Text) (stale : Bool) :
    (dispatchViaProvider fn c prompt provider userText model session effort cwd).CanGive stale := by
  obtain ⟨st, rfl, hst⟩ := @stream_gives fn c prompt.id provider stale
  have hjoin : ∀ token : Nat, (Prog.await ⟨fn, c, .turn .join⟩ (fun w s =>
      if w.joined = .dropped ∧ token ∉ s.cancelled then none else some (s, w.joined)) .ret :
        Async Joined).CanEnd := fun token => .await (fun s => ⟨{}, s, .completed, rfl⟩) fun b => .ret b
  apply (access_ends _).give
  intro auto
  apply (access_ends _).give
  intro token
  apply Prog.CanEnd.give (.sync fun _ => .ret _)
  intro _
  apply hst.bind
  apply (flushToken_ends _ _).give
  intro _
  apply (flushThinking_ends _ _).give
  intro _
  apply Prog.CanEnd.give (.sync fun _ => .ret _)
  intro cancelled
  apply (hjoin token).give
  intro joined
  apply Prog.CanEnd.give (p := conclude fn c prompt.id (concluding cancelled st.sawTerminal joined))
  · cases concluding cancelled st.sawTerminal joined with
    | none => exact .ret _
    | some ev => exact emit_ends _ _ _
  intro _
  apply (access_ends _).give
  intro _
  apply (persistPromptEvents_ends _ _ _).give
  intro _
  exact .ret _

theorem queuedTurn_ends (chat : ChatRecord) (prompt : PromptRecord) (body : Text) :
    (queuedTurn fn c chat prompt body).CanEnd := by
  apply (resolveCwd_ends chat).bind
  intro cwd
  apply Prog.CanEnd.bind (.sync fun _ => .ret _)
  intro provider
  cases provider with
  | none => exact dispatchEcho_ends _ _
  | some p => exact (dispatchViaProvider_gives _ _ _ _ _ _ _ false).canEnd.bind fun _ => .ret _

end Ends

section Slash

theorem isCompactCommand_of_head {x : Char} {t : Text} (ht : t.head? = some x)
    (hx : isWhitespace x = false) (hc : x.toLower ≠ '/') : isCompactCommand t = false := by
  obtain ⟨rest, rfl⟩ := List.head?_eq_some_iff.mp ht
  have hdrop : (x :: rest).dropWhile isWhitespace = x :: rest := by
    rw [List.dropWhile_cons, hx]
    rfl
  unfold isCompactCommand eqIgnoreAsciiCase trim
  rw [hdrop]
  -- What is left after trimming is empty or starts with the same character.
  obtain ⟨tail, htail⟩ := List.rdropWhile_prefix isWhitespace (l := x :: rest)
  cases htrim : (x :: rest).rdropWhile isWhitespace with
  | nil => decide
  | cons y u =>
    rw [htrim] at htail
    obtain rfl : y = x := (List.cons.inj htail).1
    have hslash : (toAsciiLowercase "/compact".toList).head? = some '/' := by decide
    have hne : toAsciiLowercase (y :: u) ≠ toAsciiLowercase "/compact".toList := by
      intro he
      rw [← he] at hslash
      exact hc (Option.some.inj hslash)
    simpa using hne

theorem head_append {t u : Text} {x : Char} (h : t.head? = some x) : (t ++ u).head? = some x := by
  rw [List.head?_append, h]
  rfl

theorem prior_head : "Prior conversation context (last ".toList.head? = some 'P' := by
  simp

theorem withContext_split (prompts : List PromptRecord) (context body : Text) :
    ∃ pre : Text, pre.head? = some 'P' ∧ withContext prompts context body = pre ++ body :=
  ⟨_, head_append (head_append (head_append (head_append prior_head))), rfl⟩

theorem user_head : "User: ".toList.head? = some 'U' := by simp

theorem joinLines_head {sep t : Text} {ts : List Text} {x : Char} (h : t.head? = some x) :
    (joinLines sep (t :: ts)).head? = some x := by
  unfold joinLines
  cases ts with
  | nil => rwa [List.intercalate_singleton]
  | cons u ts =>
    rw [List.intercalate_cons_cons]
    exact head_append (head_append h)

theorem formatPromptFull_head (p : PromptRecord) : (formatPromptFull p).head? = some 'U' :=
  joinLines_head (head_append user_head)

theorem buildResumeContext_head {prompts : List PromptRecord} {n : Nat} (hp : prompts ≠ [])
    (hn : 0 < n) : (buildResumeContext prompts n).head? = some 'U' := by
  unfold buildResumeContext
  cases hd : prompts.drop (prompts.length - n) with
  | nil =>
    have hl := List.length_pos_of_ne_nil hp
    have := List.drop_eq_nil_iff.mp hd
    omega
  | cons p ps => exact joinLines_head (formatPromptFull_head p)

theorem withContext_ne (prompts : List PromptRecord) (context body : Text) :
    withContext prompts context body ≠ body := by
  obtain ⟨pre, hhead, he⟩ := withContext_split prompts context body
  intro h
  rw [he] at h
  have hlen := congrArg List.length h
  rw [List.length_append] at hlen
  have hnil : pre = [] := List.eq_nil_of_length_eq_zero (by omega)
  rw [hnil] at hhead
  cases hhead

/-- What is put in place of a slash command, or before any text, is no slash command. -/
theorem effectiveBody_ne {chat : ChatRecord} {body : Text} {compacting : Bool}
    (hc : compacting = true → isCompactCommand body = true)
    (h : compacting = true ∨ chat.sessionId = none ∧ chat.prompts ≠ []) :
    effectiveBody chat compacting body ≠ body := by
  have hsummarize : compactPrompt.head? = some 'S' := by
    unfold compactPrompt
    rw [String.toList_ofList]
    rfl
  have hcompact : isCompactCommand compactPrompt = false :=
    isCompactCommand_of_head hsummarize (by decide) (by decide)
  have hprior : ∀ prompts context text, isCompactCommand (withContext prompts context text) = false := by
    intro prompts context text
    obtain ⟨pre, hhead, he⟩ := withContext_split prompts context text
    rw [he]
    exact isCompactCommand_of_head (head_append hhead) (by decide) (by decide)
  by_cases hfresh : chat.sessionId = none ∧ chat.prompts ≠ []
  · obtain ⟨hs, hp⟩ := hfresh
    have hcontext : (buildResumeContext chat.prompts contextPromptCount).isEmpty = false := by
      have hhead := buildResumeContext_head hp (show 0 < contextPromptCount by decide)
      cases hc : buildResumeContext chat.prompts contextPromptCount with
      | nil =>
        rw [hc] at hhead
        cases hhead
      | cons x t => rfl
    have heq : effectiveBody chat compacting body = withContext chat.prompts
        (buildResumeContext chat.prompts contextPromptCount)
        (if compacting then compactPrompt else body) := by
      simp [effectiveBody, hs, hp, hcontext]
    rw [heq]
    cases compacting with
    | false => exact withContext_ne _ _ _
    | true =>
      intro he
      have hbody := hc rfl
      rw [← he, hprior] at hbody
      cases hbody
  · obtain rfl | h := h
    · have hno : (chat.sessionId.isNone && !chat.prompts.isEmpty) = false := by
        simpa using hfresh
      have heq : effectiveBody chat true body = compactPrompt := by
        simp [effectiveBody, hno]
      rw [heq]
      intro he
      have hbody := hc rfl
      rw [← he, hcompact] at hbody
      cases hbody
    · exact absurd h hfresh

theorem effectiveBody_same {chat : ChatRecord} (h : chat.sessionId ≠ none ∨ chat.prompts = [])
    (body : Text) : effectiveBody chat false body = body := by
  have hno : (chat.sessionId.isNone && !chat.prompts.isEmpty) = false := by
    simpa [imp_iff_not_or] using h
  simp [effectiveBody, hno]

end Slash

section Agreement

variable {fn : Fn} {c : Uuid} {s s' : AppState} {chat : ChatRecord} {prompt : PromptRecord}
  {body : Text} {answers : List Choice}

/-- The part of a turn that follows the lookups, on either path. -/
def directRest (c : Uuid) (chat : ChatRecord) (prompt : PromptRecord) (body cwd : Text)
    (provider : Option Text) : Async Unit := do
  firstTurn .dispatchTask c chat prompt
    (effectiveBody chat (isCompactCommand body && provider.isSome) body) cwd provider
  endCompaction .dispatchTask c (isCompactCommand body && provider.isSome)

def queuedRest (fn : Fn) (c : Uuid) (chat : ChatRecord) (prompt : PromptRecord) (body cwd : Text) :
    Option Text → Async Unit
  | some p => do
    let _ ← dispatchViaProvider fn c prompt p body chat.model chat.sessionId chat.effort cwd
  | none => dispatchEcho fn c prompt body

/-- The provider under which a chat runs, if it is registered. -/
def registered (s : AppState) (chat : ChatRecord) : Option Text :=
  if chat.provider ∈ s.builtins then some chat.provider else none

theorem directTurn_runsTo : (directTurn c chat prompt body).RunsTo s answers () s' ↔
    ∃ ws₁ ws₂ cwd, answers = ws₁ ++ ws₂ ∧ (resolveCwd fn c chat).RunsTo s ws₁ cwd s ∧
      (directRest c chat prompt body cwd (registered s chat)).RunsTo s ws₂ () s' := by
  have hnames : ∀ ws cwd s', (resolveCwd .dispatchTask c chat).RunsTo s ws cwd s' ↔
      (resolveCwd fn c chat).RunsTo s ws cwd s' := by
    intro ws cwd s'
    rw [← resolveCwd_named .dispatchTask fn c chat, Prog.runsTo_relabel]
  constructor
  · intro h
    obtain ⟨ws₁, ws₂, cwd, s₁, rfl, hcwd, hrest⟩ := Prog.runsTo_bind.mp h
    obtain rfl := resolveCwd_runsTo hcwd
    exact ⟨ws₁, ws₂, cwd, rfl, (hnames _ _ _).mp hcwd, hrest⟩
  · rintro ⟨ws₁, ws₂, cwd, rfl, hcwd, hrest⟩
    exact Prog.RunsTo.bind ((hnames _ _ _).mpr hcwd) hrest

theorem queuedTurn_runsTo : (queuedTurn fn c chat prompt body).RunsTo s answers () s' ↔
    ∃ ws₁ ws₂ cwd, answers = ws₁ ++ ws₂ ∧ (resolveCwd fn c chat).RunsTo s ws₁ cwd s ∧
      (queuedRest fn c chat prompt body cwd (registered s chat)).RunsTo s ws₂ () s' := by
  constructor
  · intro h
    obtain ⟨ws₁, ws₂, cwd, s₁, rfl, hcwd, hrest⟩ := Prog.runsTo_bind.mp h
    obtain rfl := resolveCwd_runsTo hcwd
    exact ⟨ws₁, ws₂, cwd, rfl, hcwd, hrest⟩
  · rintro ⟨ws₁, ws₂, cwd, rfl, hcwd, hrest⟩
    exact Prog.RunsTo.bind hcwd hrest

/-- Where the direct path does nothing of its own, both paths run the same turn. -/
theorem rest_agrees (h : PlainTurn s chat body) (cwd : Text) :
    (directRest c chat prompt body cwd (registered s chat)).RunsTo s answers () s' ↔
      (queuedRest fn c chat prompt body cwd (registered s chat)).RunsTo s answers () s' := by
  unfold PlainTurn at h
  unfold registered
  split at h
  · rename_i hp
    obtain ⟨hcompact, hsession, hprompts⟩ := h
    have hdirect : directRest c chat prompt body cwd (some chat.provider) =
        (dispatchViaProvider .dispatchTask c prompt chat.provider body chat.model chat.sessionId
          chat.effort cwd).bind (fun _ => .ret ()) := by
      unfold directRest firstTurn endCompaction retryIfStale
      simp only [hcompact, Bool.false_and, effectiveBody_same (.inr hprompts), hsession,
        Option.isSome_none, Bool.and_false, Bool.false_eq_true, if_false, Prog.bind_eq,
        Prog.bind_assoc]
      rfl
    rw [if_pos hp, hdirect, queuedRest]
    show _ ↔ ((dispatchViaProvider fn c prompt chat.provider body chat.model chat.sessionId
      chat.effort cwd).bind (fun _ => .ret ())).RunsTo s answers () s'
    rw [← dispatchViaProvider_named .dispatchTask fn, Prog.runsTo_bind, Prog.runsTo_bind]
    simp only [Prog.runsTo_relabel]
  · rename_i hp
    have hdirect : directRest c chat prompt body cwd none = dispatchEcho .dispatchTask c prompt body := by
      unfold directRest firstTurn endCompaction
      simp only [Option.isSome_none, Bool.and_false, effectiveBody_same h, Bool.false_eq_true,
        if_false, Prog.bind_eq, Prog.pure_eq]
      exact Prog.bind_ret _
    rw [if_neg hp, hdirect, queuedRest, ← dispatchEcho_named .dispatchTask fn, Prog.runsTo_relabel]

theorem turns_agree (h : PlainTurn s chat body) : TurnsAgree fn s c chat prompt body := by
  intro answers out
  have hiff : ∀ s', (directTurn c chat prompt body).RunsTo s answers () s' ↔
      (queuedTurn fn c chat prompt body).RunsTo s answers () s' := by
    intro s'
    rw [@directTurn_runsTo fn, queuedTurn_runsTo]
    simp only [@rest_agrees fn c _ _ _ _ _ _ h]
  simp only [hiff]

theorem same_next {α : Type} {l m : List α} {a b : α} (ha : l ++ [a] <+: m) (hb : l ++ [b] <+: m) :
    a = b := by
  have heq : l ++ [a] = l ++ [b] :=
    (List.prefix_of_prefix_length_le ha hb (by simp)).eq_of_length (by simp)
  simpa using heq

/-- A changed text shows in the provider's call or in the frames. -/
theorem text_shows (h : TurnsAgree fn s c chat prompt body) :
    effectiveBody chat (isCompactCommand body && (registered s chat).isSome) body = body := by
  obtain ⟨ws, _, s₁, hqueued⟩ := @queuedTurn_ends fn c chat prompt body s
  obtain ⟨s₂, hdirect, hout⟩ := (h ws _).mpr ⟨s₁, hqueued, rfl⟩
  have hcalls : s₂.calls = s₁.calls := congrArg TurnOutcome.calls hout
  have hbus : s₂.bus = s₁.bus := congrArg TurnOutcome.bus hout
  obtain ⟨_, _, _, -, -, hdirect⟩ := (@directTurn_runsTo fn _ _ _ _ _ _ _).mp hdirect
  obtain ⟨_, _, _, -, -, hqueued⟩ := queuedTurn_runsTo.mp hqueued
  obtain ⟨_, _, _, s₃, -, hfirst, hend⟩ := Prog.runsTo_bind.mp hdirect
  have hgrow := Growing.runsTo ((growingFrame _ c).session.endCompaction _) hend
  cases hp : registered s chat with
  | some p =>
    rw [hp] at hfirst hqueued
    obtain ⟨_, _, _, s₄, -, hturn, hretry⟩ := Prog.runsTo_bind.mp hfirst
    obtain ⟨_, _, _, s₅, -, hturn', hdone⟩ := Prog.runsTo_bind.mp hqueued
    obtain ⟨-, -, rfl⟩ := Prog.runsTo_ret.mp hdone
    obtain ⟨auto, hcall⟩ := dispatchViaProvider_call hturn
    obtain ⟨auto', hcall'⟩ := dispatchViaProvider_call hturn'
    have hcall := (hcall.trans ((retryIfStale_growing _ _ _ _ _ _).runsTo hretry).1).trans hgrow.1
    rw [hcalls] at hcall
    exact congrArg ProviderCall.text (same_next hcall hcall')
  | none =>
    rw [hp] at hfirst hqueued
    have hframe := (dispatchEcho_frame hfirst).trans hgrow.2
    rw [hbus] at hframe
    have hsame := same_next hframe (dispatchEcho_frame hqueued)
    simpa using hsame

/-- A retry takes at least one more answer. -/
theorem retryStale_waits {provider cwd : Text} :
    ¬ (retryStale fn c chat prompt provider body cwd).RunsTo s [] () s' := by
  intro h
  obtain ⟨ws₁, ws₂, _, _, hw, hclear, -⟩ := Prog.runsTo_bind.mp h
  obtain ⟨rfl, rfl⟩ := List.append_eq_nil_iff.mp hw.symm
  obtain ⟨ws₁, ws₂, _, _, hw, hupdate, -⟩ := Prog.runsTo_bind.mp hclear
  obtain ⟨rfl, rfl⟩ := List.append_eq_nil_iff.mp hw.symm
  obtain ⟨ws₁, ws₂, _, _, hw, hchanges, hupdate⟩ := Prog.runsTo_bind.mp hupdate
  obtain ⟨rfl, rfl⟩ := List.append_eq_nil_iff.mp hw.symm
  obtain ⟨-, rfl, -⟩ := Prog.runsTo_ret.mp hchanges
  obtain ⟨ws₁, ws₂, _, _, hw, hrow, -⟩ := Prog.runsTo_bind.mp hupdate
  obtain ⟨rfl, rfl⟩ := List.append_eq_nil_iff.mp hw.symm
  obtain ⟨_, _, _, _, _, hcons, -⟩ := hrow
  cases hcons

/-- A stale session shows in the retry. -/
theorem no_session (h : TurnsAgree fn s c chat prompt body) (hp : (registered s chat).isSome = true) :
    chat.sessionId = none := by
  by_contra hsession
  obtain ⟨p, hp⟩ := Option.isSome_iff_exists.mp hp
  obtain ⟨ws₁, cwd, s₁, hcwd⟩ := @resolveCwd_ends fn c chat s
  obtain rfl := resolveCwd_runsTo hcwd
  have htext := text_shows h
  obtain ⟨ws₂, s₂, hturn⟩ := @dispatchViaProvider_gives fn c prompt p body chat.model
    chat.sessionId chat.effort cwd true s₁
  have hqueued : (queuedTurn fn c chat prompt body).RunsTo s₁ (ws₁ ++ (ws₂ ++ [])) () s₂ := by
    refine queuedTurn_runsTo.mpr ⟨ws₁, _, cwd, rfl, hcwd, ?_⟩
    rw [hp]
    exact Prog.RunsTo.bind hturn (Prog.runsTo_ret.mpr ⟨rfl, rfl, rfl⟩)
  obtain ⟨s₃, hdirect, -⟩ := (h _ _).mpr ⟨s₂, hqueued, rfl⟩
  obtain ⟨ws₁', ws₂', cwd', hw, hcwd', hrest⟩ := (@directTurn_runsTo fn _ _ _ _ _ _ _).mp hdirect
  obtain ⟨rfl, rfl, -⟩ := hcwd.unique hcwd' hw
  rw [hp] at hrest htext
  obtain ⟨ws₃, ws₄, _, s₄, hw', hfirst, -⟩ := Prog.runsTo_bind.mp hrest
  obtain ⟨ws₅, ws₆, stale, s₅, rfl, hturn', hretry⟩ := Prog.runsTo_bind.mp hfirst
  rw [htext, ← dispatchViaProvider_named fn .dispatchTask, Prog.runsTo_relabel] at hturn'
  have hw := List.append_cancel_left hw
  rw [hw', List.append_assoc] at hw
  obtain ⟨rfl, rfl, -⟩ := hturn.unique hturn' hw
  have hnil : ws₆ = [] := (List.append_eq_nil_iff.mp (List.append_cancel_left hw).symm).1
  subst hnil
  have hsome : (true && chat.sessionId.isSome) = true := by
    simpa [Option.isSome_iff_ne_none] using hsession
  rw [retryIfStale, if_pos hsome] at hretry
  exact retryStale_waits hretry

/-- Otherwise some answers tell the two apart. -/
theorem plain_of_agree (h : TurnsAgree fn s c chat prompt body) : PlainTurn s chat body := by
  have htext := text_shows h
  have hcompact : (isCompactCommand body && (registered s chat).isSome) = true →
      isCompactCommand body = true := by
    intro hc
    exact ((Bool.and_eq_true _ _).mp hc).1
  have hnot : ¬ ((isCompactCommand body && (registered s chat).isSome) = true ∨
      chat.sessionId = none ∧ chat.prompts ≠ []) := fun hor => effectiveBody_ne hcompact hor htext
  push Not at hnot
  unfold PlainTurn
  split
  · rename_i hp
    have hsome : (registered s chat).isSome = true := by simp [registered, hp]
    have hsession := no_session h hsome
    refine ⟨?_, hsession, hnot.2 hsession⟩
    simpa [hsome] using hnot.1
  · by_cases hs : chat.sessionId = none
    · exact .inr (hnot.2 hs)
    · exact .inl hs

/-- The two paths agree just where the direct one does nothing of its own. -/
theorem direct_and_queued_agree (fn : Fn) (s : AppState) (c : Uuid) (chat : ChatRecord)
    (prompt : PromptRecord) (body : Text) :
    TurnsAgree fn s c chat prompt body ↔ PlainTurn s chat body :=
  ⟨plain_of_agree, turns_agree⟩

/-- A chat whose first message was answered by a turn that announced no session. -/
def metBefore : ChatRecord :=
  recordOfRow freshChat [⟨2, 1, ['a'], [.done none none], [], 0⟩]

theorem queued_turn_forgets :
    ¬ ∀ (fn : Fn) (s : AppState) (c : Uuid) (chat : ChatRecord) (prompt : PromptRecord) (body : Text),
      TurnsAgree fn s c chat prompt body := by
  intro hall
  have hplain := plain_of_agree (hall .drainTask (serve freshStore 10 [['p']]) 1 metBefore
    ⟨3, 2, ['b'], [], [], 0⟩ ['b'])
  revert hplain
  decide

end Agreement

end AgentGrove
