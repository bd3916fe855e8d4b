import AgentGrove.Model.ChatStream
import AgentGrove.Prompts.Errands
import AgentGrove.Turns.Coalescing

namespace AgentGrove

open Coop

/-- The last event of a log ends its turn. -/
def lastTerminal (events : List AgentEvent) : Bool := events.getLast?.any AgentEvent.terminal

section Last

variable {ev : AgentEvent} {events : List AgentEvent}

theorem lastTerminal_cons (ev : AgentEvent) (h : events ≠ []) :
    lastTerminal (ev :: events) = lastTerminal events := by
  unfold lastTerminal
  rw [List.getLast?_cons_of_ne_nil h]

theorem lastTerminal_delta (hev : ev.terminal = false) (events : List AgentEvent) :
    lastTerminal (ev :: events) = lastTerminal events := by
  cases events with
  | nil => simpa [lastTerminal] using hev
  | cons next events => exact lastTerminal_cons ev (by simp)

theorem glue_ne_nil (ev : AgentEvent) (h : events ≠ []) : glue ev events ≠ [] := by
  unfold glue
  split <;> simp_all

/-- Joining a delta to what comes behind it does not change how the list ends. -/
theorem lastTerminal_glue (ev : AgentEvent) (h : events ≠ []) :
    lastTerminal (glue ev events) = lastTerminal events := by
  unfold glue
  split
  · rfl
  · rfl
  · rw [lastTerminal_delta rfl, lastTerminal_delta rfl]
  · rw [lastTerminal_delta rfl, lastTerminal_delta rfl]
  · exact lastTerminal_cons ev h

theorem lastTerminal_foldr_glue (xs : List AgentEvent) (h : events ≠ []) :
    xs.foldr glue events ≠ [] ∧ lastTerminal (xs.foldr glue events) = lastTerminal events := by
  induction xs with
  | nil => exact ⟨h, rfl⟩
  | cons ev xs ih => exact ⟨glue_ne_nil ev ih.1, (lastTerminal_glue ev ih.1).trans ih.2⟩

/-- Merging events of which none is empty keeps how they end. -/
theorem lastTerminal_merge (h : ∀ ev ∈ events, glue ev [] = [ev]) :
    lastTerminal (merge events) = lastTerminal events := by
  rcases List.eq_nil_or_concat' events with rfl | ⟨xs, ev, rfl⟩
  · rfl
  · have hev : merge [ev] = [ev] := h ev (by simp)
    rw [merge_append, hev, (lastTerminal_foldr_glue xs (by simp)).2]
    simp [lastTerminal]

/-- A terminal event is not lost in merging. -/
theorem merge_ne_nil (h : events.any AgentEvent.terminal = true) : merge events ≠ [] := by
  obtain ⟨ev, hev, hterm⟩ := List.any_eq_true.mp h
  obtain ⟨xs, ys, rfl⟩ := List.append_of_mem hev
  have hglue : ∀ rest, glue ev rest ≠ [] := by
    intro rest
    cases ev with
    | token | thinking => cases hterm
    | _ => simp [glue]
  rw [merge_append]
  exact (lastTerminal_foldr_glue xs (hglue (merge ys))).1

theorem getLast_pushEvent (log : List AgentEvent) (ev : AgentEvent) :
    (ChatRegistry.pushEvent log ev).getLast? = some ev := by
  unfold ChatRegistry.pushEvent
  split
  · split <;> exact List.getLast?_concat
  · split <;> exact List.getLast?_concat
  · rfl

/-- However much of a log its bound has dropped, it ends with what was pushed last. -/
theorem lastTerminal_pushes (log : List AgentEvent) (h : events ≠ []) :
    lastTerminal (events.foldl ChatRegistry.pushEvent log) = lastTerminal events := by
  rcases List.eq_nil_or_concat' events with rfl | ⟨xs, ev, rfl⟩
  · exact absurd rfl h
  · simp [lastTerminal, getLast_pushEvent]

end Last

/-- The others neither write the prompt's cached log or its stored one nor copy the
prompt into another chat. -/
structure Bystanders (c promptId : Uuid) (s s' : AppState) : Prop where
  log : LogKept c promptId s s'
  only : OnlyIn c promptId s → OnlyIn c promptId s'
  filed : ∀ row' ∈ s'.store.prompts, row'.id = promptId →
    ∃ row ∈ s.store.prompts, row.id = promptId ∧ row.events = row'.events

/-- The provider's task ended well, nobody had stopped the turn, and the provider
had gone on after a terminal event. -/
def wentOn (as : List TurnAction) : Joined → Bool
  | .completed | .dropped =>
    !tripped as && (heard as).any AgentEvent.terminal && !lastTerminal (merge (heard as))
  | _ => false

section Endings

variable {c promptId : Uuid} {s s' s'' : AppState} {as : List TurnAction} {events : List AgentEvent}

theorem Bystanders.refl (s : AppState) : Bystanders c promptId s s :=
  ⟨rfl, id, fun row hrow hid => ⟨row, hrow, hid, rfl⟩⟩

theorem Bystanders.trans (h : Bystanders c promptId s s') (h' : Bystanders c promptId s' s'') :
    Bystanders c promptId s s'' := by
  refine ⟨h'.log.trans h.log, h'.only ∘ h.only, fun row'' hrow'' hid'' => ?_⟩
  obtain ⟨row', hrow', hid', he'⟩ := h'.filed row'' hrow'' hid''
  obtain ⟨row, hrow, hid, he⟩ := h.filed row' hrow' hid'
  exact ⟨row, hrow, hid, he.trans he'⟩

theorem Bystanders.keeps_filed (h : Bystanders c promptId s s') (hf : LogFiled c promptId s) :
    LogFiled c promptId s' := by
  intro row' hrow' hid'
  obtain ⟨row, hrow, hid, he⟩ := h.filed row' hrow' hid'
  rw [h.log, ← he]
  exact hf row hrow hid

/-- What is sent before and at the end of a turn ends with a terminal event, unless
the provider went on. -/
theorem sent_lastTerminal (joined : Joined) (hsolid : ∀ ev ∈ events, glue ev [] = [ev])
    (htext : merge events = merge (heard as)) :
    let closing := (concluding (tripped as) ((heard as).any AgentEvent.terminal) joined).toList
    events ++ closing ≠ [] ∧ lastTerminal (events ++ closing) = !wentOn as joined := by
  have hclosed : ∀ ev : AgentEvent, ev.terminal = true →
      events ++ [ev] ≠ [] ∧ lastTerminal (events ++ [ev]) = true := by
    intro ev hterm
    exact ⟨by simp, by simpa [lastTerminal] using hterm⟩
  have hwell : joined = .completed ∨ joined = .dropped →
      events ++ (concluding (tripped as) ((heard as).any AgentEvent.terminal) joined).toList ≠ [] ∧
      lastTerminal (events ++ (concluding (tripped as) ((heard as).any AgentEvent.terminal)
        joined).toList) =
        !(!tripped as && (heard as).any AgentEvent.terminal && !lastTerminal (merge (heard as))) := by
    intro hj
    have hconcl : concluding (tripped as) ((heard as).any AgentEvent.terminal) joined =
        if tripped as then some (.error cancelledByUser)
        else if (heard as).any AgentEvent.terminal then none
        else some (.done none none) := by
      rcases hj with rfl | rfl <;> rfl
    rw [hconcl]
    cases htrip : tripped as with
    | true => simpa using hclosed _ rfl
    | false =>
      cases hterm : (heard as).any AgentEvent.terminal with
      | false => simpa using hclosed _ rfl
      | true =>
        -- Nothing is added, so the log ends as the provider's events do.
        have hne : events ≠ [] := by
          rintro rfl
          exact merge_ne_nil hterm htext.symm
        rw [← htext, lastTerminal_merge hsolid]
        simpa using hne
  cases joined with
  | completed => exact hwell (.inl rfl)
  | dropped => exact hwell (.inr rfl)
  | failed message => exact hclosed _ rfl
  | panicked message => exact hclosed _ rfl

theorem isPromptPending_log (p : Web.Prompt) (hp : p.events = events.map .agent) :
    Web.isPromptPending p (fun _ => none) (fun _ => none) true = !lastTerminal events := by
  simp only [Web.isPromptPending, hp, lastTerminal, List.getLast?_map]
  cases events.getLast? <;> rfl

theorem promptLog_restart (hf : LogFiled c promptId s) {log : List AgentEvent}
    (hlog : promptLog c promptId s = some log) {now : Nat} {d : Uuid} {chat : ChatRecord}
    {p : PromptRecord} (hd : (startup now s).chats.get d = some chat) (hp : p ∈ chat.prompts)
    (hid : p.id = promptId) : p.events = log := by
  rw [hydrate_prompts hd] at hp
  obtain ⟨row, hrow, rfl⟩ := List.mem_map.mp hp
  simp only [ChatRepo.listPrompts, List.mem_insertionSort, List.mem_filter,
    decide_eq_true_eq] at hrow
  have hrowlog := hf row hrow.1 hid
  rw [hlog] at hrowlog
  exact (Option.some.inj hrowlog).symm

end Endings

/-- A turn that runs among others which leave its prompt alone ends the prompt's log with
a terminal event, in the cache and, if the log could be written, after a restart:
exactly unless the provider went on after a terminal event and ended well. -/
theorem turn_ends_visibly {fn : Fn} {c : Uuid} {prompt : PromptRecord}
    {provider text model : Text} {session effort : Option Text} {cwd : Text} {s s' : AppState}
    {as : List TurnAction} {stale : Bool}
    (h : (dispatchViaProvider fn c prompt provider text model session effort cwd).Traces
      (Bystanders c prompt.id) s as (.ret stale) s')
    (honly : OnlyIn c prompt.id s) (hcached : promptLog c prompt.id s ≠ none) :
    ∃ joined log, as.filterMap joinedBy = [joined] ∧ promptLog c prompt.id s' = some log ∧
      (lastTerminal log = true ↔ wentOn as joined = false) ∧
      (∀ p : Web.Prompt, p.events = log.map .agent →
        (Web.isPromptPending p (fun _ => none) (fun _ => none) true = false ↔
          wentOn as joined = false)) ∧
      (writeFailed as = false → ∀ now d chat p, (startup now s').chats.get d = some chat →
        p ∈ chat.prompts → p.id = prompt.id → p.events = log) := by
  have hf : (Protocol.recorder (Bystanders c prompt.id) s (fun _ _ => True)).Follows (.dispatch c)
      (dispatchViaProvider fn c prompt provider text model session effort cwd) [] (fun stale as =>
        ∃ events joined, Ends (Bystanders c prompt.id) s c prompt.id provider stale as events joined) :=
    dispatchViaProvider_sends (fun _ _ _ => trivial) provider text model session effort cwd
  obtain ⟨events, joined, he⟩ := Protocol.Follows.returned (fun _ _ _ h h' => h.trans h')
    Bystanders.refl hf h
  have hleft : Bystanders c prompt.id (leftBy s as) s' :=
    h.left (fun _ _ _ h h' => h.trans h') Bystanders.refl
  obtain ⟨log₀, hlog₀⟩ := Option.ne_none_iff_exists'.mp hcached
  obtain ⟨hne, hlast⟩ := sent_lastTerminal joined he.sent.solid he.text
  have hlog := he.sent.log fun _ _ hE => hE.log
  rw [hlog₀, Option.map_some, ← hleft.log] at hlog
  have hend := (lastTerminal_pushes log₀ hne).trans hlast
  refine ⟨joined, _, he.joined, hlog, ?_, fun p hp => ?_, fun hsaved now d chat p hd hp hid => ?_⟩
  · rw [hend, Bool.not_eq_true']
  · rw [isPromptPending_log p hp, hend, Bool.not_not]
  · have hfiled := he.saved (fun _ _ hE => ⟨hE.log, hE.only⟩) honly hcached hsaved
    exact promptLog_restart (hleft.keeps_filed hfiled) hlog hd hp hid

theorem onlyIn_oneMessage : OnlyIn 1 2 (serve oneMessage 10 [['p']]) := by
  intro d chat hd hne
  obtain ⟨row, hrow, rfl, -⟩ := hydrate_row hd
  have hfresh : row = freshChat := by simpa [oneMessage, freshStore, startup] using hrow
  exact absurd (congrArg ChatRow.id hfresh) hne

theorem turn_ends_visibly_two_tokens : ∃ as s',
    turnOfOne.Traces (Bystanders 1 2) (serve oneMessage 10 [['p']]) as (.ret false) s' ∧
      ∃ joined log, as.filterMap joinedBy = [joined] ∧ promptLog 1 2 s' = some log ∧
        (lastTerminal log = true ↔ wentOn as joined = false) ∧
        (∀ p : Web.Prompt, p.events = log.map .agent →
          (Web.isPromptPending p (fun _ => none) (fun _ => none) true = false ↔
            wentOn as joined = false)) ∧
        (writeFailed as = false → ∀ now d chat p, (startup now s').chats.get d = some chat →
          p ∈ chat.prompts → p.id = 2 → p.events = log) := by
  have hrun : (turnOfOne.alone twoTokens (serve oneMessage 10 [['p']])).map
      (fun out => out.2.1.returned) = some (some false) := by decide
  obtain ⟨⟨as, q, s'⟩, hout, he⟩ := Option.map_eq_some_iff.mp hrun
  have ht := Prog.traces_alone (Bystanders 1 2) hout
  have hq := Prog.eq_ret_of_returned he
  dsimp only at ht hq
  rw [hq] at ht
  have hcached : promptLog 1 2 (serve oneMessage 10 [['p']]) ≠ none := by decide
  have hends := @turn_ends_visibly _ 1 (promptOfRow (ChatRepo.newPrompt 2 0 1 1 ['a'])) _ _ _ _ _ _ _
    _ _ _ ht onlyIn_oneMessage hcached
  exact ⟨as, s', ht, hends⟩

/-- The provider reports an error, goes on with a token and ends well. -/
def errorThenToken : List Choice :=
  [{}, {}, {}, { recv := .event (.error ['e']) }, {}, {}, { recv := .event (.token ['x']) }, {},
    { recv := .closed }, {}, {}, {}, {}, {}]

/-- The prompt of such a turn is pending for good. -/
theorem error_then_token_stays_pending :
    ¬ ∀ as stale s', turnOfOne.Traces (Bystanders 1 2) (serve oneMessage 10 [['p']]) as (.ret stale) s' →
      ∃ log, promptLog 1 2 s' = some log ∧ lastTerminal log = true ∧
        ∀ p : Web.Prompt, p.events = log.map .agent →
          Web.isPromptPending p (fun _ => none) (fun _ => none) true = false := by
  intro hclaim
  have hrun : (turnOfOne.alone errorThenToken (serve oneMessage 10 [['p']])).map
      (fun out => (out.2.1.returned, promptLog 1 2 out.2.2)) =
        some (some false, some [.error ['e'], .token ['x']]) := by decide
  obtain ⟨⟨as, q, s'⟩, hout, he⟩ := Option.map_eq_some_iff.mp hrun
  simp only [Prod.mk.injEq] at he
  have ht := Prog.traces_alone (Bystanders 1 2) hout
  have hq := Prog.eq_ret_of_returned he.1
  dsimp only at ht hq
  rw [hq] at ht
  obtain ⟨log, hlog, hlast, -⟩ := hclaim as false s' ht
  rw [he.2] at hlog
  cases hlog
  exact absurd hlast (by decide)

end AgentGrove
