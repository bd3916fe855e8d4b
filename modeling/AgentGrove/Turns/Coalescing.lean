import AgentGrove.Turns.Deltas

namespace AgentGrove

open Coop

/-- The stale flag that a stream's events leave. -/
def staleAfter (provider : Text) (events : List AgentEvent) : Bool :=
  events.foldl (fun stale ev =>
    match ev with
    | .error message => isRecoverableSessionError provider message
    | _ => stale) false

/-- What the loop carries, in terms of what it has taken from the channel: the
buffers hold what is still to be sent, and one of them is empty. -/
structure Buffered (E : AppState → AppState → Prop) (s₀ : AppState) (c promptId : Uuid)
    (provider : Text) (st : Stream) (as : List TurnAction) (events : List AgentEvent) : Prop where
  sent : Spoken E s₀ c promptId as events []
  text : merge (events ++ [.token st.pendingToken, .thinking st.pendingThinking]) = merge (heard as)
  one : st.pendingToken = [] ∨ st.pendingThinking = []
  terminal : st.sawTerminal = (heard as).any AgentEvent.terminal
  stale : st.staleSession = staleAfter provider (heard as)

/-- The stream of a turn that has ended: all of it was sent. -/
structure Streamed (E : AppState → AppState → Prop) (s₀ : AppState) (c promptId : Uuid)
    (as : List TurnAction) (events closing : List AgentEvent) : Prop where
  sent : Spoken E s₀ c promptId as events closing
  text : merge events = merge (heard as)

section Walk

variable {E : AppState → AppState → Prop} {s₀ : AppState} {R : List TurnAction → Site → Prop}
  {t : Tag} {fn : Fn} {c promptId : Uuid} {as : List TurnAction} {events closing : List AgentEvent}
  {α : Type} {p : Async α}

/-- Code without traces. -/
theorem silent_follows (hR : ∀ as x, x.call ≠ .turn .join → R as x)
    (hp : p.Within (fun x => x.call.traced = false) (fun _ => Silent c promptId))
    (h : Spoken E s₀ c promptId as events closing) :
    (Protocol.recorder E s₀ R).Follows t p as (fun _ as' =>
      Spoken E s₀ c promptId as' events closing ∧ SameCourse as as') := by
  apply Protocol.recorder_within (I := fun as' => Spoken E s₀ c promptId as' events closing ∧
    SameCourse as as') hp ⟨h, .refl as⟩
  · intro as' x _ hx
    apply hR
    intro hc
    rw [hc] at hx
    cases hx
  · intro as' e s s' hI hE hl ha
    exact ⟨hI.1.silent hE hl ha, hI.2.trans (.untraced as' hl)⟩

/-- Publishing an event and appending it. -/
theorem emit_follows (hR : ∀ as x, x.call ≠ .turn .join → R as x) {call : TurnCall}
    (hc : call ≠ .join) (ev : AgentEvent) {Q : Unit → List TurnAction → Prop}
    (h : ∀ w s s₁, E (leftBy s₀ as) s →
      E { s with bus := s.bus ++ [(.chat c, .event promptId ev)] } s₁ →
      Q () (as ++ emission ⟨fn, c, .turn call⟩ w c promptId ev s s₁)) :
    (Protocol.recorder E s₀ R).Follows t (emit fn c call promptId ev) as Q := by
  apply Protocol.recorder_sync
  intro s hs
  apply Protocol.recorder_await (hR _ _ (by simpa using hc))
  rintro w s₁ _ _ hs₁ ⟨⟩
  rw [leftBy_concat] at hs₁
  have hq := h w s s₁ hs hs₁
  unfold emission at hq
  rw [List.append_cons] at hq
  exact hq

theorem emit_sends (hR : ∀ as x, x.call ≠ .turn .join → R as x) {ev : AgentEvent}
    (hev : glue ev [] = [ev]) (h : Spoken E s₀ c promptId as events []) :
    (Protocol.recorder E s₀ R).Follows t (emit fn c .append promptId ev) as (fun _ as' =>
      Spoken E s₀ c promptId as' (events ++ [ev]) [] ∧ SameCourse as as') :=
  emit_follows hR (by simp) ev fun w _ _ hs hs₁ =>
    ⟨h.emit hev hs hs₁, emission_course as w ev _ _ (by simp)⟩

theorem glue_token_self {pending : Text} (h : ¬ pending.isEmpty = true) :
    glue (.token pending) [] = [.token pending] := by
  cases pending with
  | nil => exact absurd rfl h
  | cons => rfl

theorem glue_thinking_self {pending : Text} (h : ¬ pending.isEmpty = true) :
    glue (.thinking pending) [] = [.thinking pending] := by
  cases pending with
  | nil => exact absurd rfl h
  | cons => rfl

/-- Flushing a buffer sends its text, if it has any. -/
theorem flushToken_sends (hR : ∀ as x, x.call ≠ .turn .join → R as x) (pending : Text)
    (h : Spoken E s₀ c promptId as events []) :
    (Protocol.recorder E s₀ R).Follows t (flushToken fn c promptId pending) as (fun _ as' =>
      SameCourse as as' ∧ ∃ events', Spoken E s₀ c promptId as' events' [] ∧
        ∀ tail, merge (events' ++ tail) = merge (events ++ .token pending :: tail)) := by
  unfold flushToken
  split
  · rename_i he
    rw [List.isEmpty_iff] at he
    subst he
    exact ⟨.refl as, events, h, fun tail => (merge_no_token events tail).symm⟩
  · rename_i he
    apply Protocol.follows_mono (emit_sends hR (glue_token_self he) h)
    intro _ as' ⟨hs, hc⟩
    exact ⟨hc, _, hs, fun tail => by rw [List.append_assoc]; rfl⟩

theorem flushThinking_sends (hR : ∀ as x, x.call ≠ .turn .join → R as x) (pending : Text)
    (h : Spoken E s₀ c promptId as events []) :
    (Protocol.recorder E s₀ R).Follows t (flushThinking fn c promptId pending) as (fun _ as' =>
      SameCourse as as' ∧ ∃ events', Spoken E s₀ c promptId as' events' [] ∧
        ∀ tail, merge (events' ++ tail) = merge (events ++ .thinking pending :: tail)) := by
  unfold flushThinking
  split
  · rename_i he
    rw [List.isEmpty_iff] at he
    subst he
    exact ⟨.refl as, events, h, fun tail => (merge_no_thinking events tail).symm⟩
  · rename_i he
    apply Protocol.follows_mono (emit_sends hR (glue_thinking_self he) h)
    intro _ as' ⟨hs, hc⟩
    exact ⟨hc, _, hs, fun tail => by rw [List.append_assoc]; rfl⟩

/-- Flushing both buffers, answer text first. -/
theorem flushBoth_sends (hR : ∀ as x, x.call ≠ .turn .join → R as x) (token thinking : Text)
    (h : Spoken E s₀ c promptId as events []) :
    (Protocol.recorder E s₀ R).Follows t ((flushToken fn c promptId token).bind fun _ =>
        flushThinking fn c promptId thinking) as (fun _ as' =>
      SameCourse as as' ∧ ∃ events', Spoken E s₀ c promptId as' events' [] ∧
        ∀ tail, merge (events' ++ tail) =
          merge (events ++ [.token token, .thinking thinking] ++ tail)) := by
  apply Protocol.follows_then (flushToken_sends hR token h)
  intro _ as₁ ⟨hc₁, events₁, hs₁, hm₁⟩
  apply Protocol.follows_mono (flushThinking_sends hR thinking hs₁)
  intro _ as₂ ⟨hc₂, events₂, hs₂, hm₂⟩
  refine ⟨hc₁.trans hc₂, events₂, hs₂, fun tail => ?_⟩
  rw [hm₂, hm₁, List.append_assoc]
  rfl

theorem captureSession_silent (ev : AgentEvent) :
    (captureSession fn c ev).Within (fun x => x.call.traced = false)
      (fun _ => Silent c promptId) := by
  cases ev with
  | sessionStart sid =>
    apply Prog.Within.bind
    · apply persistChatUpdate_within (fun _ _ => (rfl : (Call.turn .session).traced = false))
      · exact fun _ s => .refl s
      · exact fun _ _ s _ => .still rfl rfl
      · exact fun _ _ s patch => .chatMut s c _ (prompts_applyPatch patch)
    · exact fun _ => trivial
  | _ => trivial

variable {provider : Text} {st : Stream}

theorem heard_concat (as : List TurnAction) (w : Choice) (s s' : AppState) {x : Site}
    (hx : x.call = .turn .recv) : heard (as ++ [⟨some (x, w), s, s'⟩]) =
      heard as ++ (match w.recv with
        | .event ev => [ev]
        | _ => []) := by
  obtain ⟨fn, chat, call⟩ := x
  subst hx
  simp only [heard, List.filterMap_append, List.filterMap_cons, List.filterMap_nil, heardBy]
  cases w.recv <;> rfl

/-- Any event but a delta goes out behind the deltas before it. -/
theorem otherEvent_sends (hR : ∀ as x, x.call ≠ .turn .join → R as x) {ev : AgentEvent}
    (hev : glue ev [] = [ev]) {before : List AgentEvent} (h : Spoken E s₀ c promptId as events [])
    (htext : merge (events ++ [.token st.pendingToken, .thinking st.pendingThinking]) = merge before)
    (hheard : heard as = before ++ [ev]) (hterm : st.sawTerminal = before.any AgentEvent.terminal)
    (hstale : st.staleSession = staleAfter provider before) :
    (Protocol.recorder E s₀ R).Follows t (otherEvent fn c promptId provider st ev) as (fun st' as' =>
      SameCourse as as' ∧ ∃ events', Buffered E s₀ c promptId provider st' as' events') := by
  unfold otherEvent
  simp only [Prog.bind_eq]
  rw [← Prog.bind_assoc]
  apply Protocol.follows_then (flushBoth_sends hR _ _ h)
  intro _ as₁ ⟨hc₁, events₁, hs₁, hm₁⟩
  apply Protocol.follows_then (silent_follows hR (captureSession_silent ev) hs₁)
  intro _ as₂ ⟨hs₂, hc₂⟩
  apply Protocol.follows_then (emit_sends hR hev hs₂)
  intro _ as₃ ⟨hs₃, hc₃⟩
  have hc := (hc₁.trans hc₂).trans hc₃
  refine ⟨hc, _, hs₃, ?_, .inl rfl, ?_, ?_⟩
  · rw [hc.heard, hheard, merge_empties, hm₁]
    exact merge_congr htext [ev]
  · simp [hc.heard, hheard, hterm]
  · rw [hc.heard, hheard]
    cases ev <;> simp [staleAfter, hstale]

/-- What a round of the loop leaves is as the loop's state says, and no more of the
provider than one event was taken. -/
def RoundEnds (E : AppState → AppState → Prop) (s₀ : AppState) (c promptId : Uuid) (provider : Text)
    (as : List TurnAction) (st : Stream) (as' : List TurnAction) : Prop :=
  as'.filterMap joinedBy = as.filterMap joinedBy ∧
    as'.filterMap installedBy = as.filterMap installedBy ∧
    ∃ events, Buffered E s₀ c promptId provider st as' events

theorem RoundEnds.after {as₀ as' : List TurnAction} (hj : as₀.filterMap joinedBy = as.filterMap joinedBy)
    (hi : as₀.filterMap installedBy = as.filterMap installedBy) (hc : SameCourse as₀ as')
    (hb : Buffered E s₀ c promptId provider st as' events) :
    RoundEnds E s₀ c promptId provider as st as' :=
  ⟨hc.joined.trans hj, hc.installed.trans hi, events, hb⟩

/-- A token comes behind the thinking before it. -/
theorem token_sends (hR : ∀ as x, x.call ≠ .turn .join → R as x) {text : Text} {as₀ : List TurnAction}
    (h : Buffered E s₀ c promptId provider st as events) (hs₀ : Spoken E s₀ c promptId as₀ events [])
    (hheard : heard as₀ = heard as ++ [.token text]) :
    (Protocol.recorder E s₀ R).Follows t (flushThinking fn c promptId st.pendingThinking) as₀
      (fun _ as' => SameCourse as₀ as' ∧ ∃ events', Buffered E s₀ c promptId provider
        { st with pendingToken := st.pendingToken ++ text, pendingThinking := [] } as' events') := by
  apply Protocol.follows_mono (flushThinking_sends hR _ hs₀)
  intro _ as' ⟨hc, events', hs, hm⟩
  refine ⟨hc, events', hs, ?_, .inr rfl, ?_, ?_⟩
  · have htext := merge_congr h.text [.token text]
    rw [hc.heard, hheard, ← htext, hm]
    simp only [merge_append, List.append_assoc]
    congr 1
    rcases h.one with he | he
    · rw [he]
      rfl
    · rw [he]
      exact (glue_token_token _ text []).symm
  · simp [hc.heard, hheard, h.terminal, AgentEvent.terminal]
  · simp [hc.heard, hheard, h.stale, staleAfter]

/-- And thinking behind the tokens before it. -/
theorem thinking_sends (hR : ∀ as x, x.call ≠ .turn .join → R as x) {text : Text}
    {as₀ : List TurnAction} (h : Buffered E s₀ c promptId provider st as events)
    (hs₀ : Spoken E s₀ c promptId as₀ events []) (hheard : heard as₀ = heard as ++ [.thinking text]) :
    (Protocol.recorder E s₀ R).Follows t (flushToken fn c promptId st.pendingToken) as₀
      (fun _ as' => SameCourse as₀ as' ∧ ∃ events', Buffered E s₀ c promptId provider
        { st with pendingToken := [], pendingThinking := st.pendingThinking ++ text } as' events') := by
  apply Protocol.follows_mono (flushToken_sends hR _ hs₀)
  intro _ as' ⟨hc, events', hs, hm⟩
  refine ⟨hc, events', hs, ?_, .inl rfl, ?_, ?_⟩
  · have htext := merge_congr h.text [.thinking text]
    rw [hc.heard, hheard, ← htext, hm]
    simp only [merge_append, List.append_assoc]
    congr 1
    have hjoin : glue (.thinking st.pendingThinking) (glue (.thinking text) []) =
        glue (.thinking (st.pendingThinking ++ text)) [] := glue_thinking_thinking _ text []
    show glue _ (glue _ (glue _ [])) = glue _ (glue _ (glue _ []))
    rw [hjoin]
    rfl
  · simp [hc.heard, hheard, h.terminal, AgentEvent.terminal]
  · simp [hc.heard, hheard, h.stale, staleAfter]

/-- A full buffer is flushed while the other one is empty. -/
theorem fullToken_sends (hR : ∀ as x, x.call ≠ .turn .join → R as x)
    (h : Buffered E s₀ c promptId provider st as events) (he : st.pendingThinking = []) :
    (Protocol.recorder E s₀ R).Follows t (flushToken fn c promptId st.pendingToken) as
      (fun _ as' => SameCourse as as' ∧ ∃ events', Buffered E s₀ c promptId provider
        { st with pendingToken := [], pendingThinking := [] } as' events') := by
  apply Protocol.follows_mono (flushToken_sends hR _ h.sent)
  intro _ as' ⟨hc, events', hs, hm⟩
  refine ⟨hc, events', hs, ?_, .inl rfl, ?_, ?_⟩
  · have htext := h.text
    rw [he, ← hm] at htext
    rw [hc.heard, ← htext, merge_empties]
    exact (merge_no_thinking events' []).trans (by rw [List.append_nil]) |>.symm
  · rw [hc.heard]
    exact h.terminal
  · rw [hc.heard]
    exact h.stale

theorem fullThinking_sends (hR : ∀ as x, x.call ≠ .turn .join → R as x)
    (h : Buffered E s₀ c promptId provider st as events) (he : st.pendingToken = []) :
    (Protocol.recorder E s₀ R).Follows t (flushThinking fn c promptId st.pendingThinking) as
      (fun _ as' => SameCourse as as' ∧ ∃ events', Buffered E s₀ c promptId provider
        { st with pendingToken := [], pendingThinking := [] } as' events') := by
  apply Protocol.follows_mono (flushThinking_sends hR _ h.sent)
  intro _ as' ⟨hc, events', hs, hm⟩
  refine ⟨hc, events', hs, ?_, .inl rfl, ?_, ?_⟩
  · have htext := h.text
    have hm' := hm []
    rw [he, merge_no_token, ← hm', List.append_nil] at htext
    rw [hc.heard, ← htext, merge_empties]
  · rw [hc.heard]
    exact h.terminal
  · rw [hc.heard]
    exact h.stale

/-- One round of the event loop. -/
theorem streamRound_sends (hR : ∀ as x, x.call ≠ .turn .join → R as x)
    (h : Buffered E s₀ c promptId provider st as events) :
    (Protocol.recorder E s₀ R).Follows t (streamRound fn c promptId provider st) as (fun next as' =>
      RoundEnds E s₀ c promptId provider as (next.elim id id) as') := by
  apply Protocol.follows_then (M := fun received as₀ => Spoken E s₀ c promptId as₀ events [] ∧
    heard as₀ = heard as ++ (match received with
      | .event ev => [ev]
      | _ => []) ∧
    as₀.filterMap joinedBy = as.filterMap joinedBy ∧
    as₀.filterMap installedBy = as.filterMap installedBy)
  · apply Protocol.recorder_await (hR _ _ (by simp))
    rintro w s _ _ hs ⟨⟩
    refine ⟨h.sent.other hs (by rintro _ _ ⟨⟩; simp) (.refl s), heard_concat as w s s rfl, ?_, ?_⟩
    · simp [joinedBy]
    · simp [installedBy]
  intro received as₀ ⟨hs₀, hheard, hj, hi⟩
  have hother : ∀ ev, glue ev [] = [ev] → received = .event ev → (Protocol.recorder E s₀ R).Follows t
      ((otherEvent fn c promptId provider st ev).bind fun st' => .ret (.inl st')) as₀
      (fun (next : Stream ⊕ Stream) as' =>
        RoundEnds E s₀ c promptId provider as (next.elim id id) as') := by
    rintro ev hev rfl
    apply Protocol.follows_then (otherEvent_sends hR hev hs₀ h.text hheard h.terminal h.stale)
    intro st' as' ⟨hc, events', hb⟩
    exact .after hj hi hc hb
  cases received with
  | timeout =>
    rw [List.append_nil] at hheard
    dsimp only
    rw [Prog.bind_eq, Prog.bind_eq, ← Prog.bind_assoc]
    apply Protocol.follows_then (flushBoth_sends hR _ _ hs₀)
    intro _ as₁ ⟨hc₁, events₁, hs₁, hm₁⟩
    refine ⟨hc₁.joined.trans hj, hc₁.installed.trans hi, events₁, hs₁, ?_, .inl rfl, ?_, ?_⟩
    · have hm := hm₁ []
      rw [List.append_nil, List.append_nil, h.text] at hm
      rw [hc₁.heard, hheard, ← hm]
      exact merge_empties events₁
    · rw [hc₁.heard, hheard]
      exact h.terminal
    · rw [hc₁.heard, hheard]
      exact h.stale
  | closed =>
    rw [List.append_nil] at hheard
    refine ⟨hj, hi, events, hs₀, ?_, h.one, ?_, ?_⟩
    · rw [hheard]
      exact h.text
    · rw [hheard]
      exact h.terminal
    · rw [hheard]
      exact h.stale
  | event ev =>
    cases ev with
    | token text =>
      apply Protocol.follows_then (token_sends hR h hs₀ hheard)
      intro _ as₁ ⟨hc₁, events₁, hb₁⟩
      dsimp only
      split
      · apply Protocol.follows_then (fullToken_sends hR hb₁ rfl)
        intro _ as₂ ⟨hc₂, events₂, hb₂⟩
        exact .after hj hi (hc₁.trans hc₂) hb₂
      · exact .after hj hi hc₁ hb₁
    | thinking text =>
      apply Protocol.follows_then (thinking_sends hR h hs₀ hheard)
      intro _ as₁ ⟨hc₁, events₁, hb₁⟩
      dsimp only
      split
      · apply Protocol.follows_then (fullThinking_sends hR hb₁ rfl)
        intro _ as₂ ⟨hc₂, events₂, hb₂⟩
        exact .after hj hi (hc₁.trans hc₂) hb₂
      · exact .after hj hi hc₁ hb₁
    | _ => exact hother _ rfl rfl

theorem tripped_mono {as' : List TurnAction} {j : Joined} {token : Nat}
    (hj : as.filterMap joinedBy = [j]) (hi : as.filterMap installedBy = [token])
    (h : SameCourse as as') : tripped as' = tripped as := by
  obtain ⟨rest, rfl⟩ := h.grown
  have hstop : (as ++ rest).takeWhile (fun a => (joinedBy a).isNone) =
      as.takeWhile (fun a => (joinedBy a).isNone) := by
    obtain ⟨a, ha, hja⟩ := List.mem_filterMap.mp (hj ▸ List.mem_singleton_self j)
    rw [List.takeWhile_append, if_neg]
    intro hall
    have hsame := (List.takeWhile_prefix (fun a => (joinedBy a).isNone)).eq_of_length hall
    rw [← hsame] at ha
    have hnone := List.mem_takeWhile_imp ha
    rw [hja] at hnone
    cases hnone
  unfold tripped
  rw [h.installed, hi, hstop]

/-- The event, if any, that ends the log. -/
theorem conclude_sends (hR : ∀ as x, x.call ≠ .turn .join → R as x) (ev : Option AgentEvent)
    (h : Spoken E s₀ c promptId as events []) :
    (Protocol.recorder E s₀ R).Follows t (conclude fn c promptId ev) as (fun _ as' =>
      Spoken E s₀ c promptId as' events ev.toList ∧ SameCourse as as') := by
  cases ev with
  | none => exact ⟨h, .refl as⟩
  | some ev =>
    exact emit_follows hR (by simp) ev fun w s s₁ hs hs₁ =>
      ⟨h.conclude hs hs₁, emission_course as w ev s s₁ (by simp)⟩

/-- The chat's own prompt is the one found by its id. -/
theorem findPrompt_only {s : AppState} (h : OnlyIn c promptId s) {log : List AgentEvent}
    (hlog : promptLog c promptId s = some log) (pick : Nat) :
    ∃ p, s.chats.findPrompt pick promptId = some p ∧ p.events = log := by
  obtain ⟨own, hown, rfl⟩ := Option.map_eq_some_iff.mp hlog
  obtain ⟨chat, hchat, hfind⟩ := Option.bind_eq_some_iff.mp hown
  obtain ⟨p, hp⟩ := Option.isSome_iff_exists.mp (ChatRegistry.findPrompt_isSome hchat hfind pick)
  obtain ⟨d, chat', hd, hp'⟩ := ChatRegistry.findPrompt_some hp
  refine ⟨p, hp, ?_⟩
  by_cases hne : d = c
  · subst hne
    rw [hchat] at hd
    cases hd
    rw [hfind] at hp'
    cases hp'
    rfl
  · have hid : p.id = promptId := by simpa using List.find?_some hp'
    exact absurd hid (h d chat' hd hne p (List.mem_of_find?_eq_some hp'))

/-- The stored rows of the prompt have its cached log. -/
def LogFiled (c promptId : Uuid) (s : AppState) : Prop :=
  ∀ row ∈ s.store.prompts, row.id = promptId → promptLog c promptId s = some row.events

theorem logFiled_update {s : AppState} {log : List AgentEvent} (hlog : promptLog c promptId s = some log) :
    LogFiled c promptId { s with store := { s.store with
      prompts := ChatRepo.updatePrompt promptId (fun r => { r with events := log })
        s.store.prompts } } := by
  intro row hrow hid
  obtain ⟨old, -, rfl⟩ := List.mem_map.mp hrow
  split at hid
  · rw [if_pos ‹_›]
    exact hlog
  · exact absurd hid ‹_›

/-- The log is written under the prompt's id, and it is the log of the turn's own chat
if no other has a prompt of that id. -/
theorem persistPromptEvents_files (hR : ∀ as x, x.call ≠ .turn .join → R as x)
    (h : Spoken E s₀ c promptId as events closing) :
    (Protocol.recorder E s₀ R).Follows t
      (persistPromptEvents fn c promptId (.turn .readEvents) (.turn .writeEvents)) as (fun _ as' =>
        Spoken E s₀ c promptId as' events closing ∧ SameCourse as as' ∧
          ((∀ s s', E s s' → LogKept c promptId s s' ∧ (OnlyIn c promptId s → OnlyIn c promptId s')) →
            OnlyIn c promptId s₀ → promptLog c promptId s₀ ≠ none → writeFailed as' = false →
            LogFiled c promptId (leftBy s₀ as'))) := by
  apply Protocol.follows_then (M := fun found as₁ => Spoken E s₀ c promptId as₁ events closing ∧
    SameCourse as as₁ ∧
      ((∀ s s', E s s' → LogKept c promptId s s' ∧ (OnlyIn c promptId s → OnlyIn c promptId s')) →
        OnlyIn c promptId s₀ → promptLog c promptId s₀ ≠ none →
        ∃ p, found = some p ∧ promptLog c promptId (leftBy s₀ as₁) = some p.events))
  · apply Protocol.recorder_await (hR _ _ (by simp))
    rintro w s _ _ hs ⟨⟩
    refine ⟨h.silent hs (by rintro _ _ ⟨⟩; rfl) (.refl s), .untraced as (by rintro _ _ ⟨⟩; rfl), ?_⟩
    intro hE honly hsome
    have hnow : OnlyIn c promptId s := (hE _ _ hs).2 (h.only (fun s s' he => (hE s s' he).2) honly)
    have hlog : promptLog c promptId s = promptLog c promptId (leftBy s₀ as) := (hE _ _ hs).1
    rw [h.log fun s s' he => (hE s s' he).1] at hlog
    obtain ⟨log, hstart⟩ := Option.ne_none_iff_exists'.mp hsome
    rw [hstart] at hlog
    obtain ⟨p, hp, he⟩ := findPrompt_only hnow hlog w.pick
    exact ⟨p, hp, by rw [leftBy_concat, he]; exact hlog⟩
  intro found as₁ ⟨hs₁, hc₁, hfound⟩
  cases found with
  | none =>
    refine ⟨hs₁, hc₁, fun hE honly hsome => ?_⟩
    obtain ⟨p, hp, -⟩ := hfound hE honly hsome
    cases hp
  | some p =>
    apply Protocol.follows_then (M := fun _ as₂ => Spoken E s₀ c promptId as₂ events closing ∧
      SameCourse as as₂ ∧
        ((∀ s s', E s s' → LogKept c promptId s s' ∧ (OnlyIn c promptId s → OnlyIn c promptId s')) →
          OnlyIn c promptId s₀ → promptLog c promptId s₀ ≠ none → writeFailed as₂ = false →
          LogFiled c promptId (leftBy s₀ as₂)))
    · apply Protocol.recorder_await (hR _ _ (by simp))
      intro w s s' _ hs ha
      have hsilent : Silent c promptId s s' := by
        dsimp only at ha
        split at ha
        · cases ha
          exact .refl s
        · cases ha
          exact .still rfl rfl
      refine ⟨hs₁.silent hs (by rintro _ _ ⟨⟩; rfl) hsilent,
        hc₁.trans (.untraced as₁ (by rintro _ _ ⟨⟩; rfl)), ?_⟩
      intro hE honly hsome hsaved
      obtain ⟨_, ⟨⟩, hlog⟩ := hfound hE honly hsome
      have hkept : promptLog c promptId s = promptLog c promptId (leftBy s₀ as₁) := (hE _ _ hs).1
      rw [hlog] at hkept
      have hw : w.fail = false := by
        simp only [writeFailed, actionsAt_concat, List.any_append, Bool.or_eq_false_iff] at hsaved
        simpa using hsaved.2
      rw [leftBy_concat]
      simp only [hw, Bool.false_eq_true, if_false, Option.some.injEq] at ha
      cases ha
      exact logFiled_update hkept
    · intro _ as₂ h₂
      exact h₂

theorem tripped_join {token : Nat} {s s' : AppState} {x : Site} {w : Choice} (hx : x.call = .turn .join)
    (hj : as.filterMap joinedBy = []) (hi : as.filterMap installedBy = [token]) :
    tripped (as ++ [⟨none, s, s⟩] ++ [(⟨some (x, w), s', s'⟩ : TurnAction)]) =
      decide (token ∈ s.cancelled) := by
  obtain ⟨fn, chat, call⟩ := x
  subst hx
  have hnone : ∀ a ∈ as ++ [(⟨none, s, s⟩ : TurnAction)], (joinedBy a).isNone = true := by
    intro a ha
    rcases List.mem_append.mp ha with ha | ha
    · rw [Option.isNone_iff_eq_none]
      exact List.filterMap_eq_nil_iff.mp hj a ha
    · rw [List.mem_singleton.mp ha]
      rfl
  have htake : (as ++ [(⟨none, s, s⟩ : TurnAction)] ++
      [(⟨some (⟨fn, chat, .turn .join⟩, w), s', s'⟩ : TurnAction)]).takeWhile
      (fun a => (joinedBy a).isNone) = as ++ [(⟨none, s, s⟩ : TurnAction)] := by
    rw [List.takeWhile_append_of_pos hnone]
    simp [joinedBy]
  unfold tripped
  rw [htake]
  simp [hi, installedBy]

/-- What a whole turn leaves: what was sent is what was heard, then what the way the
provider's task ended called for, and the answer tells whether the last error was stale. -/
structure Ends (E : AppState → AppState → Prop) (s₀ : AppState) (c promptId : Uuid) (provider : Text)
    (stale : Bool) (as : List TurnAction) (events : List AgentEvent) (joined : Joined) : Prop where
  sent : Spoken E s₀ c promptId as events
    (concluding (tripped as) ((heard as).any AgentEvent.terminal) joined).toList
  text : merge events = merge (heard as)
  joined : as.filterMap joinedBy = [joined]
  stale : stale = staleAfter provider (heard as)
  saved : (∀ s s', E s s' → LogKept c promptId s s' ∧ (OnlyIn c promptId s → OnlyIn c promptId s')) →
    OnlyIn c promptId s₀ → promptLog c promptId s₀ ≠ none → writeFailed as = false →
    LogFiled c promptId (leftBy s₀ as)

theorem dispatchViaProvider_sends {prompt : PromptRecord}
    (hR : ∀ as x, (x.call = .turn .join → ∃ events, Streamed E s₀ c prompt.id as events []) → R as x)
    (provider text model : Text) (session effort : Option Text) (cwd : Text) :
    (Protocol.recorder E s₀ R).Follows t
      (dispatchViaProvider fn c prompt provider text model session effort cwd) [] (fun stale as =>
        ∃ events joined, Ends E s₀ c prompt.id provider stale as events joined) := by
  have hR' : ∀ as x, x.call ≠ .turn .join → R as x := fun as x hx => hR as x fun h => absurd h hx
  have hread : ∀ {β : Type} {call : Call} {act : Choice → AppState → β}, call.traced = false →
      (access fn c call (fun w s => (s, act w s))).Within (fun x => x.call.traced = false)
        (fun _ => Silent c prompt.id) := by
    intro β call act hc
    exact access_within hc fun _ s => .refl s
  apply Protocol.follows_then (silent_follows hR' (hread rfl) (.start E s₀ c prompt.id))
  rintro auto as₁ ⟨hs₁, hc₁⟩
  apply Protocol.follows_then (M := fun token as => Spoken E s₀ c prompt.id as [] [] ∧ heard as = [] ∧
    as.filterMap joinedBy = [] ∧ as.filterMap installedBy = [token])
  · apply Protocol.recorder_await (hR' _ _ (by simp))
    rintro w s _ _ hs ⟨⟩
    refine ⟨hs₁.other hs (by rintro _ _ ⟨⟩; simp) (.still rfl rfl), ?_, ?_, ?_⟩
    · simpa [heard, heardBy] using hc₁.heard
    · simpa [joinedBy] using hc₁.joined
    · simpa [installedBy] using hc₁.installed
  rintro token as₂ ⟨hs₂, hh₂, hj₂, hi₂⟩
  apply Protocol.follows_then (silent_follows hR' (atOnce_within fun s => .still rfl rfl) hs₂)
  rintro _ as₃ ⟨hs₃, hc₃⟩
  apply Protocol.follows_then (M := fun st as => as.filterMap joinedBy = [] ∧
    as.filterMap installedBy = [token] ∧ ∃ events, Buffered E s₀ c prompt.id provider st as events)
  · apply Protocol.recorder_loop (fun st as => as.filterMap joinedBy = [] ∧
      as.filterMap installedBy = [token] ∧
        ∃ events, Buffered E s₀ c prompt.id provider st as events)
    · refine ⟨hc₃.joined.trans hj₂, hc₃.installed.trans hi₂, [], hs₃, ?_, .inl rfl, ?_, ?_⟩
      · rw [hc₃.heard, hh₂]
        rfl
      · rw [hc₃.heard, hh₂]
        rfl
      · rw [hc₃.heard, hh₂]
        rfl
    · exact fun st as _ => hR' _ _ (by simp)
    · rintro st as w s ⟨hj, hi, events, hb⟩ hs
      have hstep : SameCourse as (as ++ [⟨some (⟨fn, c, .turn .stream⟩, w), s, s⟩]) :=
        .untraced as (by rintro _ _ ⟨⟩; rfl)
      have hb' : Buffered E s₀ c prompt.id provider st
          (as ++ [⟨some (⟨fn, c, .turn .stream⟩, w), s, s⟩]) events := by
        refine ⟨hb.sent.silent hs (by rintro _ _ ⟨⟩; rfl) (.refl s), ?_, hb.one, ?_, ?_⟩
        · rw [hstep.heard]
          exact hb.text
        · rw [hstep.heard]
          exact hb.terminal
        · rw [hstep.heard]
          exact hb.stale
      apply Protocol.follows_mono (streamRound_sends hR' hb')
      rintro next as' ⟨hj', hi', events', hb''⟩
      have hj'' := hj'.trans (hstep.joined.trans hj)
      have hi'' := hi'.trans (hstep.installed.trans hi)
      cases next with
      | inl st' => exact ⟨hj'', hi'', events', hb''⟩
      | inr st' => exact ⟨hj'', hi'', events', hb''⟩
  rintro st as₄ ⟨hj₄, hi₄, events₄, hb₄⟩
  simp only [Prog.bind_eq]
  rw [← Prog.bind_assoc]
  apply Protocol.follows_then (flushBoth_sends hR' _ _ hb₄.sent)
  rintro _ as₅ ⟨hc₅, events, hs₅, hm₅⟩
  have htext : merge events = merge (heard as₅) := by
    have hm := hm₅ []
    rw [List.append_nil, List.append_nil, hb₄.text] at hm
    rw [hc₅.heard]
    exact hm
  -- The look at the token and the wait for the provider's task.
  apply Protocol.recorder_sync
  intro s hs
  have hlook : SameCourse as₅ (as₅ ++ [⟨none, s, s⟩]) := .untraced as₅ (by simp)
  have hs₆ : Spoken E s₀ c prompt.id (as₅ ++ [⟨none, s, s⟩]) events [] :=
    hs₅.silent hs (by simp) (.refl s)
  apply Protocol.recorder_await
  · apply hR
    intro _
    refine ⟨events, hs₆, ?_⟩
    rw [hlook.heard]
    exact htext
  intro w s' s'' joined hs' ha
  have hjoin : s'' = s' ∧ joined = w.joined := by
    split at ha
    · cases ha
    · cases ha
      exact ⟨rfl, rfl⟩
  obtain ⟨rfl, rfl⟩ := hjoin
  set as₇ := as₅ ++ [⟨none, s, s⟩] ++ [⟨some (⟨fn, c, .turn .join⟩, w), s'', s''⟩] with has₇
  have hs₇ : Spoken E s₀ c prompt.id as₇ events [] :=
    hs₆.other hs' (by rintro _ _ ⟨⟩; simp) (.refl s'')
  have hh₇ : heard as₇ = heard as₄ := by
    have hsame : heard as₇ = heard as₅ := by
      simp [has₇, heard, heardBy]
    exact hsame.trans hc₅.heard
  have hj₇ : as₇.filterMap joinedBy = [w.joined] := by
    rw [has₇, List.append_assoc, List.filterMap_append, hc₅.joined.trans hj₄]
    rfl
  have hi₇ : as₇.filterMap installedBy = [token] := by
    rw [has₇, List.append_assoc, List.filterMap_append, hc₅.installed.trans hi₄]
    rfl
  have htrip : tripped as₇ = decide (token ∈ s.cancelled) :=
    tripped_join rfl (hc₅.joined.trans hj₄) (hc₅.installed.trans hi₄)
  apply Protocol.follows_then (conclude_sends hR' _ hs₇)
  rintro _ as₈ ⟨hs₈, hc₈⟩
  apply Protocol.follows_then (silent_follows hR' (access_within rfl fun _ s => .still rfl rfl) hs₈)
  rintro _ as₉ ⟨hs₉, hc₉⟩
  apply Protocol.follows_then (persistPromptEvents_files hR' hs₉)
  rintro _ as₁₀ ⟨hs₁₀, hc₁₀, hsaved⟩
  have hc := (hc₈.trans hc₉).trans hc₁₀
  have hheard := hc.heard.trans hh₇
  refine ⟨events, w.joined, ?_, ?_, hc.joined.trans hj₇, ?_, hsaved⟩
  · rw [tripped_mono hj₇ hi₇ hc, htrip, hheard, ← hb₄.terminal]
    exact hs₁₀
  · rw [hheard, ← hc₅.heard]
    exact htext
  · rw [hheard]
    exact hb₄.stale

end Walk

/-- Whatever the provider emits, however the flush timer falls and whatever else the
server does meanwhile: once the turn has come to await the end of the provider's task,
and so too when it returns, the events it has appended from the stream merge to those of
the provider, and every append is of the event of its frame. -/
theorem coalescer_preserves_stream {fn : Fn} {c : Uuid} {prompt : PromptRecord}
    {provider text model : Text} {session effort : Option Text} {cwd : Text} {s s' : AppState}
    {as : List TurnAction} {q : Async Bool}
    (h : (dispatchViaProvider fn c prompt provider text model session effort cwd).Traces
      (fun _ _ => True) s as q s')
    (hq : q.site = some ⟨fn, c, .turn .join⟩ ∨ ∃ stale, q = .ret stale) :
    ∃ events closing, Relayed c prompt.id as events closing ∧ merge events = merge (heard as) := by
  have hf : (Protocol.recorder (fun _ _ => True) s (fun as x => x.call = .turn .join →
      ∃ events, Streamed (fun _ _ => True) s c prompt.id as events [])).Follows (.dispatch c)
      (dispatchViaProvider fn c prompt provider text model session effort cwd) [] (fun stale as =>
        ∃ events joined, Ends (fun _ _ => True) s c prompt.id provider stale as events joined) :=
    dispatchViaProvider_sends (fun _ _ h => h) provider text model session effort cwd
  rcases hq with hq | ⟨stale, rfl⟩
  · obtain ⟨events, hs⟩ := Protocol.Follows.rested (fun _ _ _ _ _ => trivial) (fun _ => trivial) hf h
      hq rfl
    exact ⟨events, [], hs.sent.toRelayed, hs.text⟩
  · obtain ⟨events, joined, he⟩ := Protocol.Follows.returned (fun _ _ _ _ _ => trivial)
      (fun _ => trivial) hf h
    exact ⟨events, _, he.sent.toRelayed, he.text⟩

/-- A turn of the message in chat 1, without a session. -/
def turnOfOne : Async Bool :=
  dispatchViaProvider .dispatchTask 1 (promptOfRow (ChatRepo.newPrompt 2 0 1 1 ['a'])) ['p'] ['a'] ['m']
    none none []

/-- The provider sends two tokens with a timeout between them and ends. -/
def twoTokens : List Choice :=
  [{}, {}, {}, { recv := .event (.token ['x']) }, {}, { recv := .timeout }, {}, {},
    { recv := .event (.token ['y']) }, {}, { recv := .closed }, {}, {}, {}, {}, {}, {}]

theorem coalescer_preserves_two_tokens : ∃ as s',
    turnOfOne.Traces (fun _ _ => True) (serve oneMessage 10 [['p']]) as (.ret false) s' ∧
      heard as = [.token ['x'], .token ['y']] ∧
      ∃ events closing, Relayed 1 2 as events closing ∧ merge events = merge (heard as) := by
  have hrun : (turnOfOne.alone twoTokens (serve oneMessage 10 [['p']])).map
      (fun out => (heard out.1, out.2.1.returned)) =
        some ([.token ['x'], .token ['y']], some false) := by decide
  obtain ⟨⟨as, q, s'⟩, hout, he⟩ := Option.map_eq_some_iff.mp hrun
  simp only [Prod.mk.injEq] at he
  have ht := Prog.traces_alone (fun _ _ => True) hout
  have hq := Prog.eq_ret_of_returned he.2
  dsimp only at ht hq
  rw [hq] at ht
  exact ⟨as, s', ht, he.1, coalescer_preserves_stream ht (.inr ⟨false, rfl⟩)⟩

end AgentGrove
