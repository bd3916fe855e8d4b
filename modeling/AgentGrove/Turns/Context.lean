import AgentGrove.Coop.Handover
import AgentGrove.Turns.Agreement
import AgentGrove.Turns.Calls

namespace AgentGrove

open Coop

/-- The last 20 prompts of a history. -/
def recent (history : List PromptRecord) : List PromptRecord :=
  history.drop (history.length - contextPromptCount)

/-- A message told with a history: the last 20 prompts of it in order, their number announced,
and then the message, once. -/
def told (history : List PromptRecord) (body : Text) : Text :=
  match recent history with
  | [] => body
  | injected => "Prior conversation context (last ".toList ++ showNat injected.length ++
      " messages):\n\n".toList ++ joinLines ['\n', '\n'] (injected.map formatPromptFull) ++
      "\n\n---\n\nCurrent user message:\n".toList ++ body

/-- Every call of the message's turn that resumes a session is told the message, every other
one the message and what the chat holds before it. -/
def TellsPast (c : Uuid) (chat : ChatRecord) (prompt : PromptRecord) (body : Text)
    (past : List Uuid) : Prop :=
  ∀ E s as q s', (directTurn c chat prompt body).Traces E s as q s' → ∀ call ∈ made as,
    (call.resumeSessionId.isSome = true → call.text = body) ∧
    (call.resumeSessionId = none → call.text = told chat.prompts body ∧
      chat.prompts.map PromptRecord.id = past)

section Texts

variable {history : List PromptRecord} {chat : ChatRecord} {body : Text}

theorem recent_length (history : List PromptRecord) :
    (recent history).length = min history.length contextPromptCount := by
  rw [recent, List.length_drop]
  omega

/-- What the server puts before a message is the announced history. -/
theorem told_eq (h : history ≠ []) : told history body =
    withContext history (buildResumeContext history contextPromptCount) body := by
  have hne : recent history ≠ [] := by
    intro hnil
    have hlength := recent_length history
    rw [hnil, List.length_nil] at hlength
    have hpos := List.length_pos_of_ne_nil h
    unfold contextPromptCount at hlength
    omega
  unfold told withContext
  rw [← recent_length]
  cases hrecent : recent history with
  | nil => exact absurd hrecent hne
  | cons p ps =>
    have hcontext : buildResumeContext history contextPromptCount =
        joinLines ['\n', '\n'] ((p :: ps).map formatPromptFull) := by
      rw [← hrecent]
      rfl
    rw [hcontext]

theorem context_isEmpty (history : List PromptRecord) :
    (buildResumeContext history contextPromptCount).isEmpty = history.isEmpty := by
  cases history with
  | nil => rfl
  | cons p ps =>
    have hhead := buildResumeContext_head (List.cons_ne_nil p ps) (show 0 < contextPromptCount by decide)
    cases hc : buildResumeContext (p :: ps) contextPromptCount with
    | nil =>
      rw [hc] at hhead
      cases hhead
    | cons x t => rfl

theorem retryBody_told (chat : ChatRecord) (body : Text) :
    retryBody chat body = told chat.prompts body := by
  unfold retryBody
  dsimp only
  rw [context_isEmpty]
  cases hp : chat.prompts with
  | nil => rfl
  | cons p ps =>
    rw [told_eq (List.cons_ne_nil p ps)]
    rfl

/-- Without a session the first call is told what a retry is. -/
theorem effectiveBody_told (h : chat.sessionId = none) (body : Text) :
    effectiveBody chat false body = told chat.prompts body := by
  rw [← retryBody_told]
  unfold effectiveBody retryBody
  dsimp only
  rw [context_isEmpty, h]
  cases chat.prompts with
  | nil => rfl
  | cons p ps => rfl

/-- The calls of the turn of a message other than `/compact`. -/
theorem directTurn_calls {c : Uuid} {prompt : PromptRecord} (hcompact : isCompactCommand body = false) :
    CallsOnly (fun call => (call.resumeSessionId.isSome = true → call.text = body) ∧
      (call.resumeSessionId = none → call.text = told chat.prompts body))
      (directTurn c chat prompt body) := by
  have F := callsFrame .dispatchTask c
  refine CallsOnly.bind (.uncalling (F.resolveCwd chat)) fun cwd => ?_
  refine CallsOnly.bind (.uncalling (F.resolveProvider _)) fun provider => ?_
  rw [hcompact, Bool.false_and]
  refine CallsOnly.bind (firstTurn_calls ?_ ?_) fun _ => .uncalling (F.endCompaction _)
  · intro provider auto
    refine ⟨fun hsome => ?_, fun hnone => effectiveBody_told hnone body⟩
    exact effectiveBody_same (.inl (Option.isSome_iff_ne_none.mp hsome)) body
  · intro provider id auto hsome
    rw [effectiveBody_same (.inl (Option.isSome_iff_ne_none.mp hsome)) body, retryBody_told]
    exact ⟨fun h => absurd h Bool.false_ne_true, fun _ => rfl⟩

end Texts

/-- From this state the program may come to a call without a session. -/
def MayCallFrom (s : AppState) {α : Type} (p : Async α) : Prop :=
  ∃ as q s', p.Traces (fun _ _ => True) s as q s' ∧ ∃ call ∈ made as, call.resumeSessionId = none

/-- From every state. -/
def MayCall {α : Type} (p : Async α) : Prop := ∀ s, MayCallFrom s p

section Luck

variable {fn : Fn} {c promptId : Uuid} {call : Call} {α β ε : Type} {p : Async α} {f : α → Async β}
  {P : α → Prop}

theorem MayCall.behind (hp : p.May P) (hf : ∀ a, P a → MayCall (f a)) : MayCall (p.bind f) := by
  intro s
  obtain ⟨as, a, s₁, h, ha⟩ := hp s
  obtain ⟨as', q, s', ht, call, hcall, hnone⟩ := h.onward
    (Ψ := fun as _ => ∃ call ∈ made as, call.resumeSessionId = none) fun s => hf a ha s
  refine ⟨_, q, s', ht, call, ?_, hnone⟩
  rw [made_append]
  exact List.mem_append_right _ hcall

theorem MayCall.bind (hp : MayCall p) (f : α → Async β) : MayCall (p.bind f) := by
  intro s
  obtain ⟨as, q, s', ht, hcall⟩ := hp s
  obtain ⟨s₁, ht⟩ := ht.bind_left f
  exact ⟨as, _, s₁, ht, hcall⟩

theorem access_may {act : Choice → AppState → AppState × β} (w : Choice) (s : AppState) :
    (access fn c call act).May (· = (act w s).2) :=
  .await (w := w) (s := s) rfl (.ret rfl)

theorem atOnce_may {act : AppState → AppState × β} : (atOnce act).May (fun _ => True) :=
  .sync fun _ => .ret trivial

/-- Some state to go through. -/
def anywhere : AppState := serve freshStore 0 []

theorem emit_may (turn : TurnCall) (ev : AgentEvent) :
    (emit fn c turn promptId ev).May (fun _ => True) :=
  atOnce_may.bind fun _ _ => (access_may {} anywhere).mono fun _ _ => trivial

theorem flushToken_may (pending : Text) : (flushToken fn c promptId pending).May (fun _ => True) := by
  unfold flushToken
  split
  · exact .ret trivial
  · exact emit_may _ _

theorem flushThinking_may (pending : Text) :
    (flushThinking fn c promptId pending).May (fun _ => True) := by
  unfold flushThinking
  split
  · exact .ret trivial
  · exact emit_may _ _

theorem persistPromptEvents_may (read write : Call) :
    (persistPromptEvents fn c promptId read write).May (fun _ => True) := by
  apply Prog.May.bind (access_may {} anywhere)
  rintro found rfl
  split
  · exact .ret trivial
  · exact (access_may {} anywhere).bind fun _ _ => .ret trivial

theorem clearProviderSession_may : (clearProviderSession fn c).May (fun _ => True) := by
  have hfail : (storeCall fn c .updateChat ChatError.db (fun w s =>
      ({ s with store := { s.store with chats := ChatRepo.updateRow c (ChatRepo.patchRow
        { title := none, model := none, effort := none, sessionId := some none } w.now) s.store.chats } },
        if (ChatRepo.get s.store.chats c).isSome then .ok () else .error (.notFound c)))).May
          (· = .error ChatError.db) :=
    access_may { fail := true } anywhere
  have hupdate : (persistChatUpdate fn c id
      { title := none, model := none, effort := none, sessionId := some none }).May (fun _ => True) := by
    apply Prog.May.bind hfail
    rintro _ rfl
    exact .ret trivial
  exact hupdate.bind fun _ _ => .ret trivial

/-- A provider may report that the session is gone, and then nothing more. -/
theorem stream_may {provider : Text} : (Prog.loop ⟨fn, c, .turn .stream⟩ Stream.start
    (streamRound fn c promptId provider) .ret : Async Stream).May (·.staleSession = true) := by
  have hgone : isRecoverableSessionError provider "session not found".toList = true := by
    have htext : containsText (toAsciiLowercase "session not found".toList)
        "session not found".toList = true := by decide
    unfold isRecoverableSessionError
    dsimp only
    rw [htext, Bool.true_or]
  have hother : (otherEvent fn c promptId provider Stream.start
      (.error "session not found".toList)).May (·.staleSession = true) := by
    apply (flushToken_may _).bind
    intro _ _
    apply (flushThinking_may _).bind
    intro _ _
    apply Prog.May.bind (P := fun _ => True) (.ret trivial)
    intro _ _
    exact (emit_may _ _).bind fun _ _ => .ret hgone
  have herror : (streamRound fn c promptId provider Stream.start).May
      (fun x => ∃ st, x = .inl st ∧ st.staleSession = true) := by
    apply Prog.May.bind (access_may { recv := .event (.error "session not found".toList) } anywhere)
    intro received hreceived
    subst hreceived
    exact hother.bind fun st hst => .ret ⟨st, rfl, hst⟩
  have hclosed : ∀ st, (streamRound fn c promptId provider st).May (· = .inr st) := by
    intro st
    apply Prog.May.bind (access_may { recv := .closed } anywhere)
    intro received hreceived
    subst hreceived
    exact .ret rfl
  refine .loop {} (herror.bind fun x hx => ?_)
  obtain ⟨st, rfl, hst⟩ := hx
  refine .loop {} ((hclosed st).bind fun x hx => ?_)
  subst hx
  exact .ret hst

theorem dispatchViaProvider_may {prompt : PromptRecord} {provider text model : Text}
    {session effort : Option Text} {cwd : Text} :
    (dispatchViaProvider fn c prompt provider text model session effort cwd).May (· = true) := by
  have hconclude : ∀ ev, (conclude fn c prompt.id ev).May (fun _ => True) := by
    intro ev
    cases ev with
    | none => exact .ret trivial
    | some ev => exact emit_may _ _
  apply Prog.May.bind (access_may {} anywhere)
  intro auto _
  apply Prog.May.bind (access_may {} anywhere)
  intro token _
  apply atOnce_may.bind
  intro _ _
  apply stream_may.bind
  intro st hst
  apply (flushToken_may _).bind
  intro _ _
  apply (flushThinking_may _).bind
  intro _ _
  apply atOnce_may.bind
  intro wasCancelled _
  apply Prog.May.bind (P := fun _ => True) (.await (w := { joined := .completed }) (s := anywhere)
    rfl (.ret trivial))
  intro joined _
  apply (hconclude _).bind
  intro _ _
  apply Prog.May.bind (access_may {} anywhere)
  intro _ _
  apply (persistPromptEvents_may _ _).bind
  intro _ _
  exact .ret hst

/-- Its first call. -/
theorem dispatchViaProvider_mayCall {prompt : PromptRecord} {provider text model : Text}
    {effort : Option Text} {cwd : Text} :
    MayCall (dispatchViaProvider fn c prompt provider text model none effort cwd) := by
  refine .behind (access_may {} anywhere) fun auto _ => ?_
  refine .behind (access_may {} anywhere) fun token _ => ?_
  intro s
  refine ⟨_, _, _, .sync (.rest _ _), ?_⟩
  simp [made]


/-- A chat that still has its message when the retry looks for it. -/
def stillThere (c : Uuid) (chat : ChatRecord) (prompt : PromptRecord) : AppState :=
  { anywhere with chats := ChatRegistry.empty.ingestChat { chat with id := c, prompts := [prompt] } }

theorem firstTurn_mayCall {chat : ChatRecord} {prompt : PromptRecord} {body cwd provider : Text} :
    MayCall (firstTurn fn c chat prompt body cwd (some provider)) := by
  cases hs : chat.sessionId with
  | none =>
    unfold firstTurn
    rw [hs]
    exact dispatchViaProvider_mayCall.bind _
  | some sid =>
    have hlast : (stillThere c chat prompt).chats.retryPrompt c ≠ none := by
      simp [stillThere, ChatRegistry.retryPrompt]
    have hretry : MayCall (retryStale fn c chat prompt provider body cwd) := by
      refine .behind clearProviderSession_may fun _ _ => ?_
      refine .behind atOnce_may fun _ _ => ?_
      refine .behind (access_may {} (stillThere c chat prompt)) fun found hfound => ?_
      have hne : found ≠ none := by
        rw [hfound]
        cases hp : (stillThere c chat prompt).chats.retryPrompt c with
        | none => exact absurd hp hlast
        | some out => exact Option.some_ne_none _
      cases found with
      | none => exact absurd rfl hne
      | some p =>
        refine .behind (persistPromptEvents_may _ _) fun _ _ => ?_
        exact dispatchViaProvider_mayCall.bind _
    refine .behind dispatchViaProvider_may fun stale hstale => ?_
    unfold retryIfStale
    rw [hstale, hs]
    exact hretry

/-- A server with this provider. -/
def ready (provider : Text) : AppState := { anywhere with builtins := [provider] }

theorem resolveProvider_mayCall {provider : Text} {g : Option Text → Async β}
    (hg : MayCall (g (some provider))) :
    MayCallFrom (ready provider) ((resolveProvider provider).bind g) := by
  have hprovider : (if provider ∈ (ready provider).builtins then some provider else none) =
      some provider := if_pos (List.mem_singleton_self _)
  obtain ⟨as, q, s', ht, call, hcall, hnone⟩ := hg (ready provider)
  rw [← hprovider] at ht
  refine ⟨_, q, s', .sync ht, call, ?_, hnone⟩
  rw [made, List.flatMap_cons]
  exact List.mem_append_right _ hcall

/-- A read, before which the world has come to another state. -/
theorem MayCallFrom.read {act : Choice → AppState → β} {g : β → Async α} {w : Choice} {s : AppState}
    (h : MayCallFrom s (g (act w s))) :
    MayCall ((access fn c call (fun w s => (s, act w s))).bind g) := by
  intro s₀
  obtain ⟨as, q, s', ht, asked, hcall, hnone⟩ := h
  have hread : ((access fn c call (fun w s => (s, act w s))).bind g).Traces (fun _ _ => True) s₀
      (⟨some (⟨fn, c, call⟩, w), s, s⟩ :: as) q s' := .others trivial trivial (.await rfl ht)
  refine ⟨_, q, s', hread, asked, ?_, hnone⟩
  rw [made, List.flatMap_cons]
  exact List.mem_append_right _ hcall

theorem resolveCwd_mayCall {chat : ChatRecord} {g : Text → Async β} {s : AppState}
    (hg : ∀ cwd, MayCallFrom s (g cwd)) : MayCall ((resolveCwd fn c chat).bind g) := by
  unfold resolveCwd worktreePath
  cases chat.worktreeId with
  | none => exact MayCallFrom.read (w := {}) (hg _)
  | some wt =>
    have hroot : MayCall ((access fn c .projectRoot (fun w s =>
        (s, if w.fail || chat.projectId ∉ s.projects then "/tmp".toList else w.text))).bind g) :=
      MayCallFrom.read (w := {}) (hg _)
    rw [Prog.bind_eq, Prog.bind_assoc]
    exact MayCallFrom.read (w := { fail := true }) (hroot s)

end Luck

/-- However a message is handed over, a turn of it may come to a call without a session. -/
theorem directTurn_mayCall {c : Uuid} {chat : ChatRecord} {prompt : PromptRecord} {body : Text} :
    MayCall (directTurn c chat prompt body) :=
  resolveCwd_mayCall fun _ => resolveProvider_mayCall (firstTurn_mayCall.bind _)

theorem tellsPast_iff {c : Uuid} {chat : ChatRecord} {prompt : PromptRecord} {body : Text}
    {past : List Uuid} (hcompact : isCompactCommand body = false) :
    TellsPast c chat prompt body past ↔ chat.prompts.map PromptRecord.id = past := by
  constructor
  · intro hall
    obtain ⟨as, q, s', ht, call, hcall, hnone⟩ :=
      @directTurn_mayCall c chat prompt body anywhere
    exact ((hall _ _ as q s' ht call hcall).2 hnone).2
  · intro hpast E s as q s' ht call hcall
    obtain ⟨hresumed, hfresh⟩ := directTurn_calls hcompact E s as q s' ht call hcall
    exact ⟨hresumed, fun hnone => ⟨hfresh hnone, hpast⟩⟩

end AgentGrove
