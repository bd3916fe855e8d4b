import AgentGrove.Turns.Calls
import Mathlib.Data.List.Chain

namespace AgentGrove

open Coop

/-- A chat's cached prompts but for the one with this id in the chat `c`. -/
def othersOf (c promptId : Uuid) (s : AppState) (d : Uuid) : Option (List PromptRecord) :=
  (s.chats.get d).map (fun chat => chat.prompts.filter (fun p => ¬(d = c ∧ p.id = promptId)))

/-- Every other prompt of every chat is as it was, cached and stored. -/
structure OthersKept (c promptId : Uuid) (s s' : AppState) : Prop where
  cached : ∀ d, othersOf c promptId s' d = othersOf c promptId s d
  stored : s'.store.prompts.filter (fun r => r.id ≠ promptId) =
    s.store.prompts.filter (fun r => r.id ≠ promptId)

/-- If an action writes prompts to the store, then the log that the turn's own prompt
had in the cache at the action before, and under its id. -/
def WritesOwn (c promptId : Uuid) (r a : TurnAction) : Prop :=
  a.after.store.prompts ≠ a.before.store.prompts → ∃ log, promptLog c promptId r.before = some log ∧
    ∀ row ∈ a.after.store.prompts, row.id = promptId → row.events = log

/-- What a turn did touched no prompt but its own. -/
structure OwnOnly (c promptId : Uuid) (as : List TurnAction) : Prop where
  others : ∀ a ∈ as, OthersKept c promptId a.before a.after
  writes : as.IsChain (WritesOwn c promptId)
  start : ∀ a ∈ as.head?, a.after.store.prompts = a.before.store.prompts

/-- The two looks by which a turn finds its prompt anew hit it: the last prompt of the
chat when it tries again, and the log found by the id alone when it is written. -/
def aimed (c promptId : Uuid) (a : TurnAction) : Bool :=
  match a.label with
  | some (⟨_, _, .retryPrompt⟩, _) =>
    ((a.before.chats.get c).bind (fun chat => chat.prompts.getLast?)).all (fun p => p.id = promptId)
  | some (⟨_, _, .readEvents⟩, w) | some (⟨_, _, .turn .readEvents⟩, w) =>
    (a.before.chats.findPrompt w.pick promptId).all
      (fun p => promptLog c promptId a.before = some p.events)
  | _ => true

/-- In every trace whose looks hit the prompt, a program touches it alone. -/
def Minds (c promptId : Uuid) {α : Type} (p : Async α) : Prop :=
  ∀ E s as q s', p.Traces E s as q s' → (∀ a ∈ as, aimed c promptId a = true) → OwnOnly c promptId as

/-- Code that leaves every other prompt alone and writes none to the store. -/
abbrev Spares (c promptId : Uuid) {α : Type} (p : Async α) : Prop :=
  p.Within (fun _ => True) (fun _ s s' =>
    OthersKept c promptId s s' ∧ s'.store.prompts = s.store.prompts)

section Own

variable {c promptId : Uuid} {s s' : AppState} {as as' : List TurnAction} {α β ε : Type}
  {fn : Fn} {call : Call} {p : Async α} {f : α → Async β}

theorem OwnOnly.nil : OwnOnly c promptId [] := ⟨by simp, .nil, by simp⟩

theorem OwnOnly.append (h : OwnOnly c promptId as) (h' : OwnOnly c promptId as') :
    OwnOnly c promptId (as ++ as') := by
  refine ⟨fun a ha => ?_, ?_, fun a ha => ?_⟩
  · rcases List.mem_append.mp ha with ha | ha
    · exact h.others a ha
    · exact h'.others a ha
  · rw [List.isChain_append]
    exact ⟨h.writes, h'.writes, fun r _ a ha hne => absurd (h'.start a ha) hne⟩
  · cases as with
    | nil => exact h'.start a ha
    | cons b as => exact h.start a ha

theorem OthersKept.refl (s : AppState) : OthersKept c promptId s s := ⟨fun _ => rfl, rfl⟩

theorem OthersKept.still (hchats : s'.chats = s.chats) (hprompts : s'.store.prompts = s.store.prompts) :
    OthersKept c promptId s s' :=
  ⟨fun _ => by rw [othersOf, othersOf, hchats], by rw [hprompts]⟩

/-- Changing a cached chat but for the prompts other than the turn's. -/
theorem OthersKept.chatMut (s : AppState) (f : ChatRecord → ChatRecord)
    (hf : ∀ chat, s.chats.get c = some chat → (f chat).prompts.filter (fun p => p.id ≠ promptId) =
      chat.prompts.filter (fun p => p.id ≠ promptId)) :
    OthersKept c promptId s { s with chats := s.chats.chatMut c f } := by
  refine ⟨fun d => ?_, rfl⟩
  simp only [othersOf, ChatRegistry.get_chatMut]
  split
  · subst_vars
    cases hchat : s.chats.get d with
    | none => rfl
    | some chat => simpa using hf chat hchat
  · rfl

theorem filter_updatePrompt (prompts : List PromptRecord) (promptId : Uuid)
    (f : PromptRecord → PromptRecord) (hf : ∀ p, (f p).id = p.id) :
    (ChatRegistry.updatePrompt prompts promptId f).filter (fun p => p.id ≠ promptId) =
      prompts.filter (fun p => p.id ≠ promptId) := by
  induction prompts with
  | nil => rfl
  | cons p ps ih =>
    simp only [ChatRegistry.updatePrompt]
    by_cases h : p.id = promptId
    · simp [h, hf]
    · simp only [h, if_false, List.filter_cons, ih]

theorem OthersKept.appendEvent (s : AppState) (ev : AgentEvent) :
    OthersKept c promptId s { s with chats := s.chats.appendEvent c promptId ev } :=
  .chatMut s _ fun _ _ => filter_updatePrompt _ _ _ fun _ => rfl

theorem OthersKept.updatePrompt (s : AppState) (events : List AgentEvent) :
    OthersKept c promptId s { s with store := { s.store with
      prompts := ChatRepo.updatePrompt promptId (fun r => { r with events := events })
        s.store.prompts } } := by
  refine ⟨fun _ => rfl, ?_⟩
  simp only [ChatRepo.updatePrompt]
  induction s.store.prompts with
  | nil => rfl
  | cons r rows ih =>
    by_cases h : r.id = promptId
    · simpa [h] using ih
    · simpa [h] using ih

theorem Minds.bind (hp : Minds c promptId p) (hf : ∀ a, (∃ E s as s', p.Traces E s as (.ret a) s' ∧
    ∀ x ∈ as, aimed c promptId x = true) → Minds c promptId (f a)) : Minds c promptId (p.bind f) := by
  intro E s as q s' h haim
  rcases h.of_bind with ⟨p', h, -⟩ | ⟨a, as₁, as₂, s₁, rfl, h₁, h₂⟩
  · exact hp E s as p' s' h haim
  · obtain ⟨haim₁, haim₂⟩ := List.forall_mem_append.mp haim
    exact (hp _ _ _ _ _ h₁ haim₁).append (hf a ⟨E, s, as₁, s₁, h₁, haim₁⟩ _ _ _ _ _ h₂ haim₂)

theorem Minds.ret (a : α) : Minds c promptId (.ret a : Async α) := by
  intro E s as q s' h _
  obtain ⟨rfl, -⟩ := h.of_ret
  exact .nil

theorem Minds.then (hp : Minds c promptId p) (hf : ∀ a, Minds c promptId (f a)) :
    Minds c promptId (p.bind f) :=
  hp.bind fun a _ => hf a

theorem Minds.within (hp : Spares c promptId p) : Minds c promptId p := by
  intro E s as q s' h _
  have hkept := fun a ha => (h.within hp a ha).2
  refine ⟨fun a ha => (hkept a ha).1, ?_, fun a ha => (hkept a (List.mem_of_mem_head? ha)).2⟩
  rw [List.isChain_iff_forall_rel_of_append_cons_cons]
  rintro r a l₁ l₂ rfl hne
  exact absurd (hkept a (by simp)).2 hne

theorem OwnOnly.one {a : TurnAction} (h : OthersKept c promptId a.before a.after)
    (hp : a.after.store.prompts = a.before.store.prompts) : OwnOnly c promptId [a] :=
  ⟨by simpa using h, .singleton a, by simpa using hp⟩

theorem aimed_found {read : Call} {w : Choice} {s₁ s₂ : AppState} {p : PromptRecord}
    (hr : read = .readEvents ∨ read = .turn .readEvents)
    (haim : aimed c promptId ⟨some (⟨fn, c, read⟩, w), s₁, s₂⟩ = true)
    (hp : s₁.chats.findPrompt w.pick promptId = some p) : promptLog c promptId s₁ = some p.events := by
  rcases hr with rfl | rfl
  · simpa [aimed, hp] using haim
  · simpa [aimed, hp] using haim

/-- The write follows the look at once, and what it writes is what the look found. -/
theorem persistPromptEvents_minds {read write : Call} (hr : read = .readEvents ∨ read = .turn .readEvents) :
    Minds c promptId (persistPromptEvents fn c promptId read write) := by
  intro E s as q s' h haim
  have hlook : ∀ (w : Choice) (s₁ : AppState),
      OwnOnly c promptId [(⟨some (⟨fn, c, read⟩, w), s₁, s₁⟩ : TurnAction)] :=
    fun w s₁ => .one (.refl s₁) rfl
  rcases h.of_bind with ⟨p', h, -⟩ | ⟨found, as₁, as₂, s₂, rfl, h₁, h₂⟩
  · rcases access_traces h with ⟨rfl, -⟩ | ⟨w, s₁, rfl, -⟩
    · exact .nil
    · exact hlook w s₁
  obtain ⟨w, s₁, rfl, rfl⟩ := access_returns h₁
  have haimed : aimed c promptId ⟨some (⟨fn, c, read⟩, w), s₁, s₁⟩ = true := haim _ (by simp)
  cases hfound : s₁.chats.findPrompt w.pick promptId with
  | none =>
    dsimp only at h₂
    rw [hfound] at h₂
    obtain ⟨rfl, -⟩ := h₂.of_ret
    exact hlook w s₁
  | some p =>
    have hlog := aimed_found hr haimed hfound
    have hpair : ∀ w₂ s₂, OwnOnly c promptId [⟨some (⟨fn, c, read⟩, w), s₁, s₁⟩,
        (⟨some (⟨fn, c, write⟩, w₂), s₂, { s₂ with store := { s₂.store with
          prompts := ChatRepo.updatePrompt promptId (fun r => { r with events := p.events })
            s₂.store.prompts } }⟩ : TurnAction)] := by
      intro w₂ s₂
      refine ⟨?_, ?_, ?_⟩
      · rw [List.forall_mem_cons, List.forall_mem_singleton]
        exact ⟨.refl s₁, .updatePrompt s₂ p.events⟩
      · rw [List.isChain_pair]
        refine fun _ => ⟨p.events, hlog, fun row hrow hid => ?_⟩
        obtain ⟨old, -, rfl⟩ := List.mem_map.mp hrow
        split at hid
        · rw [if_pos ‹_›]
        · exact absurd hid ‹_›
      · simp
    have hrest : as₂ = [] ∨ ∃ w₂ s₂, as₂ = [⟨some (⟨fn, c, write⟩, w₂), s₂, s₂⟩] ∨
        as₂ = [⟨some (⟨fn, c, write⟩, w₂), s₂, { s₂ with store := { s₂.store with
          prompts := ChatRepo.updatePrompt promptId (fun r => { r with events := p.events })
            s₂.store.prompts } }⟩] := by
      dsimp only at h₂
      rw [hfound] at h₂
      rcases h₂.of_bind with ⟨p', h₂, -⟩ | ⟨_, as₃, as₄, s₃, rfl, h₃, h₄⟩
      · rcases access_traces h₂ with ⟨rfl, -⟩ | ⟨w₂, s₂, rfl, -⟩
        · exact .inl rfl
        · refine .inr ⟨w₂, s₂, ?_⟩
          split
          · exact .inl rfl
          · exact .inr rfl
      · obtain ⟨w₂, s₂, rfl, -⟩ := access_returns h₃
        obtain ⟨rfl, -⟩ := h₄.of_ret
        refine .inr ⟨w₂, s₂, ?_⟩
        split
        · exact .inl rfl
        · exact .inr rfl
    rcases hrest with rfl | ⟨w₂, s₂, rfl | rfl⟩
    · rw [List.append_nil]
      exact hlook w s₁
    · exact (hlook w s₁).append (.one (.refl s₂) rfl)
    · exact hpair w₂ s₂

/-- A turn's pieces leave every other prompt alone. -/
theorem ownFrame (fn : Fn) (c promptId : Uuid) : TurnFrame (fun _ => True) (fun _ s s' =>
    OthersKept c promptId s s' ∧ s'.store.prompts = s.store.prompts) (· = promptId) (fun _ => False)
    fn c where
  sites _ _ := trivial
  same _ s := ⟨.refl s, rfl⟩
  publish _ _ := ⟨.still rfl rfl, rfl⟩
  tokens _ _ _ _ _ := ⟨.still rfl rfl, rfl⟩
  append _ _ s _ ev hv := by
    subst hv
    exact ⟨.appendEvent s ev, rfl⟩
  events _ _ _ _ _ hw := hw.elim
  call _ _ := ⟨.still rfl rfl, rfl⟩
  row _ _ _ _ := ⟨.still rfl rfl, rfl⟩
  cache _ _ s patch := ⟨.chatMut s _ fun _ _ => by rw [prompts_applyPatch], rfl⟩

theorem dispatchViaProvider_minds {prompt : PromptRecord} (hid : prompt.id = promptId)
    (provider text model : Text) (session effort : Option Text) (cwd : Text) :
    Minds c promptId (dispatchViaProvider fn c prompt provider text model session effort cwd) := by
  subst hid
  have F := ownFrame fn c prompt.id
  apply Minds.then (.within (F.read rfl))
  intro auto
  apply Minds.then (.within (access_within trivial fun _ _ => ⟨.still rfl rfl, rfl⟩))
  intro token
  apply Minds.then (.within (atOnce_within fun s => F.call s _))
  intro _
  apply Minds.then (.within (F.session.stream rfl provider))
  intro st
  apply Minds.then (.within (F.flushToken rfl _))
  intro _
  apply Minds.then (.within (F.flushThinking rfl _))
  intro _
  apply Minds.then (.within (atOnce_within fun s => F.same none s))
  intro wasCancelled
  apply Minds.then (.within (F.join token))
  intro joined
  apply Minds.then (.within (F.conclude rfl _))
  intro _
  apply Minds.then (.within (access_within trivial fun _ _ => ⟨.still rfl rfl, rfl⟩))
  intro _
  exact (persistPromptEvents_minds (.inr rfl)).then fun _ => .ret _

theorem dispatchEcho_minds {prompt : PromptRecord} (hid : prompt.id = promptId) (text : Text) :
    Minds c promptId (dispatchEcho fn c prompt text) := by
  subst hid
  have F := ownFrame fn c prompt.id
  apply Minds.then (.within (F.emit rfl _ _))
  intro _
  apply Minds.then (.within (F.emit rfl _ _))
  intro _
  exact persistPromptEvents_minds (.inr rfl)

theorem OthersKept.retryPrompt {p : PromptRecord} {reg : ChatRegistry}
    (hretry : s.chats.retryPrompt c = some (p, reg)) (hid : p.id = promptId) :
    OthersKept c promptId s { s with chats := reg } := by
  unfold ChatRegistry.retryPrompt at hretry
  split at hretry
  · cases hretry
  rename_i chat hchat
  split at hretry
  · cases hretry
  rename_i last hlast
  cases hretry
  apply OthersKept.chatMut
  intro chat' hchat'
  rw [hchat] at hchat'
  cases hchat'
  obtain ⟨prompts, hprompts⟩ := List.getLast?_eq_some_iff.mp hlast
  have hlastId : last.id = promptId := hid
  simp [hprompts, hid, hlastId]

theorem aimed_retried {w : Choice} {s₁ s₂ : AppState} {p : PromptRecord} {reg : ChatRegistry}
    (haim : aimed c promptId ⟨some (⟨fn, c, .retryPrompt⟩, w), s₁, s₂⟩ = true)
    (h : s₁.chats.retryPrompt c = some (p, reg)) : p.id = promptId := by
  unfold ChatRegistry.retryPrompt at h
  split at h
  · cases h
  rename_i chat hchat
  split at h
  · cases h
  rename_i last hlast
  cases h
  show last.id = promptId
  simpa [aimed, hchat, hlast] using haim

/-- A second try clears the chat's last prompt and goes on with it. -/
theorem retryStale_minds {prompt : PromptRecord} (chat : ChatRecord) (provider body cwd : Text) :
    Minds c promptId (retryStale fn c chat prompt provider body cwd) := by
  have F := ownFrame fn c promptId
  apply Minds.then (.within F.session.clearProviderSession)
  intro _
  apply Minds.then (.within (atOnce_within fun s => F.publish s _))
  intro _
  apply Minds.bind
  · intro E s as q s' h haim
    rcases access_traces h with ⟨rfl, -⟩ | ⟨w, s₁, rfl, -⟩
    · exact .nil
    · have haimed := haim _ (List.mem_singleton_self _)
      cases hretry : s₁.chats.retryPrompt c with
      | none => exact .one (.refl s₁) rfl
      | some out =>
        have hid := aimed_retried haimed hretry
        exact .one (.retryPrompt hretry hid) rfl
  · rintro retried ⟨E, s, as, s', h, haim⟩
    obtain ⟨w, s₁, rfl, rfl⟩ := access_returns h
    have haimed := haim _ (List.mem_singleton_self _)
    cases hretry : s₁.chats.retryPrompt c with
    | none => exact .ret ()
    | some out =>
      have hid := aimed_retried haimed hretry
      subst hid
      apply (persistPromptEvents_minds (.inl rfl)).then
      intro _
      exact (dispatchViaProvider_minds rfl _ _ _ _ _ _).then fun _ => .ret ()

theorem directTurn_minds {prompt : PromptRecord} (hid : prompt.id = promptId) (chat : ChatRecord)
    (body : Text) : Minds c promptId (directTurn c chat prompt body) := by
  have F := ownFrame .dispatchTask c promptId
  apply Minds.then (.within (F.resolveCwd chat))
  intro cwd
  apply Minds.then (.within (F.resolveProvider _))
  intro provider
  refine Minds.then ?_ fun _ => .within (F.session.endCompaction _)
  cases provider with
  | none => exact dispatchEcho_minds hid _
  | some p =>
    apply (dispatchViaProvider_minds hid _ _ _ _ _ _).then
    intro stale
    unfold retryIfStale
    split
    · exact retryStale_minds chat _ _ _
    · exact .ret ()

theorem queuedTurn_minds {prompt : PromptRecord} (hid : prompt.id = promptId) (chat : ChatRecord)
    (body : Text) : Minds c promptId (queuedTurn fn c chat prompt body) := by
  have F := ownFrame fn c promptId
  apply Minds.then (.within (F.resolveCwd chat))
  intro cwd
  apply Minds.then (.within (F.resolveProvider _))
  intro provider
  cases provider with
  | none => exact dispatchEcho_minds hid _
  | some p => exact (dispatchViaProvider_minds hid _ _ _ _ _ _).then fun _ => .ret _

end Own

/-- Whatever the other tasks do meanwhile, a turn whose looks hit its prompt clears,
appends to and writes that prompt only, and what it writes is that prompt's own log. -/
theorem turn_touches_own_prompt {c : Uuid} {chat : ChatRecord} {prompt : PromptRecord}
    {body : Text} {p q : Async Unit} {s s' : AppState} {as : List TurnAction}
    (hp : p = directTurn c chat prompt body ∨ ∃ fn, p = queuedTurn fn c chat prompt body)
    (h : p.Traces (fun _ _ => True) s as q s') (haim : ∀ a ∈ as, aimed c prompt.id a = true) :
    OwnOnly c prompt.id as := by
  rcases hp with rfl | ⟨fn, rfl⟩
  · exact directTurn_minds rfl chat body _ _ _ _ _ h haim
  · exact queuedTurn_minds rfl chat body _ _ _ _ _ h haim

/-- Chat 1 with a session to resume. -/
def sessionChat : ChatRecord :=
  { recordOfRow freshChat [promptOfRow (ChatRepo.newPrompt 2 0 1 1 ['a'])] with sessionId := some ['s'] }

/-- The turn of its message. -/
def turnWithSession : Async Unit :=
  directTurn 1 sessionChat (promptOfRow (ChatRepo.newPrompt 2 0 1 1 ['a'])) ['a']

/-- The provider has forgotten the session. -/
def forgotten : List Choice :=
  [{}, {}, {}, {}, { recv := .event (.error "session not found".toList) }, {}, {},
    { recv := .closed }, {}, {}, {}, {}]

/-- The second try answers with a token. -/
def secondTry : List Choice :=
  [{}, {}, {}, {}, {}, {}, {}, {}, {}, { recv := .event (.token ['x']) }, {}, { recv := .closed },
    {}, {}, {}, {}, {}, {}]

theorem turn_touches_own_prompt_twice : ∃ as s',
    turnWithSession.Traces (fun _ _ => True) (serve oneMessage 10 [['p']]) as (.ret ()) s' ∧
      OwnOnly 1 2 as := by
  have hrun : (turnWithSession.alone (forgotten ++ secondTry) (serve oneMessage 10 [['p']])).map
      (fun out => (out.1.all (aimed 1 2), out.2.1.returned)) = some (true, some ()) := by decide
  obtain ⟨⟨as, q, s'⟩, hout, he⟩ := Option.map_eq_some_iff.mp hrun
  simp only [Prod.mk.injEq, List.all_eq_true] at he
  have ht := Prog.traces_alone (fun _ _ => True) hout
  have hq := Prog.eq_ret_of_returned he.2
  dsimp only at ht hq
  rw [hq] at ht
  exact ⟨as, s', ht, turn_touches_own_prompt (.inl rfl) ht he.1⟩

/-- The others revert the chat's message while the turn waits. -/
def Reverting (s s' : AppState) : Prop :=
  ∃ out, (revertPrompt 1 2).alone [{}] s = some out ∧ s' = out.2.2

/-- The second try answers under the prompt of the revert. -/
theorem retry_hits_reverting_prompt : ¬ ∀ as q s',
    turnWithSession.Traces Reverting (serve oneMessage 10 [['p']]) as q s' → OwnOnly 1 2 as := by
  intro hclaim
  have hrun : ((turnWithSession.alone forgotten (serve oneMessage 10 [['p']])).bind fun first =>
      ((revertPrompt 1 2).alone [{}] first.2.2).bind fun revert =>
        (first.2.1.alone secondTry revert.2.2).map fun second =>
          second.1.all (fun a => othersOf 1 2 a.after 1 = othersOf 1 2 a.before 1)) = some false := by
    decide
  obtain ⟨first, hfirst, hrun⟩ := Option.bind_eq_some_iff.mp hrun
  obtain ⟨revert, hrevert, hrun⟩ := Option.bind_eq_some_iff.mp hrun
  obtain ⟨second, hsecond, hall⟩ := Option.map_eq_some_iff.mp hrun
  have hrest := Prog.alone_resting (show turnWithSession.Resting from trivial) hfirst
  have ht := (Prog.traces_alone Reverting hfirst).trans
    (.others hrest ⟨revert, hrevert, rfl⟩ (Prog.traces_alone Reverting hsecond))
  have hown := hclaim _ _ _ ht
  have hsame : second.1.all (fun a => othersOf 1 2 a.after 1 = othersOf 1 2 a.before 1) = true := by
    rw [List.all_eq_true]
    intro a ha
    simpa using (hown.others a (List.mem_append_right _ ha)).cached 1
  rw [hsame] at hall
  cases hall

end AgentGrove
