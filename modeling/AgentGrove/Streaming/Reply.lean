import AgentGrove.Logs.Client
import AgentGrove.Streaming.Bubble

namespace AgentGrove.Web

open Coop

/-- The reply so far: token texts add to it, and a second try begins it anew. -/
def repliedAfter (text : Text) : StreamEvent → Text
  | .agent (.token t) => text ++ t
  | .agent _ => text
  | .retry _ => []

def replied (frames : List StreamEvent) : Text := frames.foldl repliedAfter []

/-- The server's log of the events that these frames tell of. -/
def serverLog (frames : List StreamEvent) : List AgentEvent :=
  frames.foldl (fun log ev =>
    match ev with
    | .agent ev => ChatRegistry.pushEvent log ev
    | .retry _ => []) []

/-- The view lists the prompt with the server's windowed copy of these events. -/
structure CopyOf (id : Text) (frames : List StreamEvent) (view : ChatView) : Prop where
  listed : ∃ p ∈ view.prompts, p.id = id
  events : ∀ p ∈ view.prompts, p.id = id →
    p.events = (latest defaultEventsPerPrompt (serverLog frames)).map .agent

/-- A client's store after these frames of a prompt, among frames of others, and with
reconciles that answer at any point and leave the prompt in the timeline. -/
inductive Viewing (id : Text) (start : ChatStore) : List StreamEvent → ChatStore → Prop
  | start : Viewing id start [] start
  | frame {frames : List StreamEvent} {s : ChatStore} (h : Viewing id start frames s)
      (ev : StreamEvent) : Viewing id start (frames ++ [ev]) (applyWsFrame s ⟨id, ev⟩)
  | other {frames : List StreamEvent} {s : ChatStore} (h : Viewing id start frames s) (f : WsFrame)
      (hf : f.promptId ≠ id) : Viewing id start frames (applyWsFrame s f)
  | reconcile {frames : List StreamEvent} {s : ChatStore} (h : Viewing id start frames s)
      {view : ChatView} (hcopy : CopyOf id frames view)
      (hkept : ((reconcileStore s view).prompt id).isSome) :
      Viewing id start frames (reconcileStore s view)

/-- Whenever a done or error frame comes, no text has come since the last retry. -/
def EndsWordless (frames : List StreamEvent) : Prop :=
  ∀ front ev, front ++ [ev] <+: frames → ev.terminal = true → replied front = []

/-- No text among these events. -/
def Wordless (events : List StreamEvent) : Prop := ∀ ev ∈ events, tokenText ev = []

section

variable {events frames : List StreamEvent} {ev : StreamEvent} {id : Text} {s : ChatStore}
  {b : Bubble}

theorem replied_concat (frames : List StreamEvent) (ev : StreamEvent) :
    replied (frames ++ [ev]) = repliedAfter (replied frames) ev := by
  rw [replied, List.foldl_concat]
  rfl

theorem serverLog_concat (frames : List StreamEvent) (ev : StreamEvent) :
    serverLog (frames ++ [ev]) =
      match ev with
      | .agent ev => ChatRegistry.pushEvent (serverLog frames) ev
      | .retry _ => [] := by
  rw [serverLog, List.foldl_concat]
  rfl

/-- Only a token adds text. -/
theorem repliedAfter_agent {ev : AgentEvent} (h : tokenText (.agent ev) = []) (text : Text) :
    repliedAfter text (.agent ev) = text := by
  cases ev with
  | token t =>
    have ht : t = [] := h
    rw [repliedAfter, ht, List.append_nil]
  | _ => rfl

theorem delta_wordless {ev : AgentEvent} (h : isDelta ev = false) : tokenText (.agent ev) = [] := by
  cases ev with
  | token => cases h
  | _ => rfl

theorem terminal_delta {ev : AgentEvent} (h : ev.terminal = true) : isDelta ev = false := by
  cases ev with
  | token | thinking => cases h
  | _ => rfl

theorem repliedAfter_nil {text : Text} {ev : AgentEvent} (h : repliedAfter text (.agent ev) = []) :
    text = [] ∧ tokenText (.agent ev) = [] := by
  cases ev with
  | token t => exact List.append_eq_nil_iff.mp h
  | _ => exact ⟨h, rfl⟩

theorem Wordless.text (h : Wordless events) : (events.map tokenText).flatten = [] := by
  rw [List.flatten_eq_nil_iff]
  intro t ht
  obtain ⟨ev, hev, rfl⟩ := List.mem_map.mp ht
  exact h ev hev

theorem mem_appendEventBounded {max : Nat} {e : StreamEvent}
    (h : e ∈ appendEventBounded events ev max) : e ∈ events ∨ e = ev ∨ e.dropped.isSome := by
  unfold appendEventBounded at h
  split at h
  · rcases List.mem_append.mp h with h | h
    · exact .inl h
    · exact .inr (.inl (List.mem_singleton.mp h))
  · split at h
    all_goals
      rw [List.cons_append, List.mem_cons, List.mem_append, List.mem_singleton] at h
      rcases h with rfl | h | h
    · exact .inr (.inr rfl)
    · exact .inl (List.mem_cons_of_mem _ (List.mem_of_mem_tail h))
    · exact .inr (.inl h)
    · exact .inr (.inr rfl)
    · exact .inl (List.mem_of_mem_tail (List.mem_of_mem_tail h))
    · exact .inr (.inl h)

theorem mem_pushEvent {log : List AgentEvent} {ev e : AgentEvent}
    (h : e ∈ ChatRegistry.pushEvent log ev) : e ∈ log ∨ e = ev ∨ e.dropped.isSome := by
  unfold ChatRegistry.pushEvent at h
  split at h
  · split at h
    · rw [List.cons_append, List.mem_cons, List.mem_append, List.mem_singleton] at h
      rcases h with rfl | h | h
      · exact .inr (.inr rfl)
      · exact .inl (List.mem_cons_of_mem _ (List.mem_of_mem_tail h))
      · exact .inr (.inl h)
    · rcases List.mem_append.mp h with h | h
      · exact .inl h
      · exact .inr (.inl (List.mem_singleton.mp h))
  · split at h
    · rw [List.cons_append, List.mem_cons, List.mem_append, List.mem_singleton] at h
      rcases h with rfl | h | h
      · exact .inr (.inr rfl)
      · exact .inl (List.mem_cons_of_mem _ h)
      · exact .inr (.inl h)
    · rcases List.mem_append.mp h with h | h
      · exact .inl h
      · exact .inr (.inl (List.mem_singleton.mp h))
  · exact .inr (.inl (List.mem_singleton.mp h))

theorem dropped_wordless {ev : StreamEvent} (h : ev.dropped.isSome) : tokenText ev = [] := by
  cases ev with
  | retry message => rfl
  | agent ev =>
    cases ev with
    | token => cases h
    | _ => rfl

theorem Wordless.append (h : Wordless events) (hev : tokenText ev = []) (max : Nat) :
    Wordless (appendEventBounded events ev max) := by
  intro e he
  rcases mem_appendEventBounded he with he | rfl | he
  · exact h e he
  · exact hev
  · exact dropped_wordless he

/-- Where no text has come, the server has logged none. -/
theorem serverLog_wordless (h : replied frames = []) :
    ∀ ev ∈ serverLog frames, tokenText (.agent ev) = [] := by
  induction frames using List.reverseRecOn with
  | nil => exact fun _ hev => (nomatch hev)
  | append_singleton frames ev ih =>
    rw [replied_concat] at h
    intro e he
    rw [serverLog_concat] at he
    cases ev with
    | retry message => cases he
    | agent ev =>
      obtain ⟨hnone, hev⟩ := repliedAfter_nil h
      rcases mem_pushEvent he with he | rfl | he
      · exact ih hnone e he
      · exact hev
      · exact @dropped_wordless (.agent e) he

/-- The log ends with the frame that came last. -/
theorem serverLog_last {e : AgentEvent} (h : (serverLog frames).getLast? = some e) :
    ∃ front, frames = front ++ [.agent e] := by
  rcases List.eq_nil_or_concat' frames with rfl | ⟨front, ev, rfl⟩
  · cases h
  · rw [serverLog_concat] at h
    cases ev with
    | retry message => cases h
    | agent ev =>
      rw [getLast_pushEvent] at h
      cases h
      exact ⟨front, rfl⟩

/-- What the store has of the prompt: the text so far as live text, or no text has come; and
where none has come there is none among the events. -/
structure Tells (frames : List StreamEvent) (b : Bubble) : Prop where
  listed : b.1.isSome
  live : ∀ text, b.2 = some text → text = replied frames
  silent : b.2 = none → replied frames = []
  events : replied frames = [] → ∀ events ∈ b.1, Wordless events

/-- What is shown is the reply so far. -/
theorem Tells.shown (h : Tells frames b) : b.shown.map Prod.fst = some (replied frames) := by
  obtain ⟨events, live⟩ := b
  cases events with
  | none => cases h.listed
  | some events =>
    cases live with
    | none =>
      have hnone := h.silent rfl
      have htext := (h.events hnone events rfl).text
      rw [hnone, Bubble.shown, Option.map_some, Option.map_some, Option.getD_none, htext]
    | some text =>
      rw [← h.live text rfl]
      rfl

/-- A frame that is no end of a turn, or comes before there is any text. -/
theorem Tells.frame (h : Tells frames b) (hend : ev.terminal = true → replied frames = []) :
    Tells (frames ++ [ev]) (b.apply ev) := by
  obtain ⟨events, live⟩ := b
  cases events with
  | none => cases h.listed
  | some events =>
    cases ev with
    | retry message =>
      have hnone : replied (frames ++ [.retry message]) = [] := replied_concat _ _
      refine ⟨rfl, fun _ ht => (nomatch ht), fun _ => hnone, ?_⟩
      rintro - _ ⟨⟩ ev hev
      rw [List.mem_singleton.mp hev]
      rfl
    | agent ev =>
      by_cases hd : isDelta ev = true
      · cases ev with
        | token t =>
          have hreply : replied (frames ++ [.agent (.token t)]) = replied frames ++ t := replied_concat _ _
          have hlive : live.getD [] = replied frames := by
            cases live with
            | none => exact (h.silent rfl).symm
            | some text => exact h.live text rfl
          refine ⟨rfl, ?_, fun hn => (nomatch hn), fun hnone => ?_⟩
          · rintro _ ⟨⟩
            rw [hreply, hlive]
          · rw [hreply] at hnone
            exact h.events (List.append_eq_nil_iff.mp hnone).1
        | thinking t =>
          have hreply : replied (frames ++ [.agent (.thinking t)]) = replied frames := replied_concat _ _
          exact ⟨rfl, hreply ▸ h.live, hreply ▸ h.silent, hreply ▸ h.events⟩
        | _ => cases hd
      · have hdelta : isDelta ev = false := by simpa using hd
        have hword := delta_wordless hdelta
        have hreply : replied (frames ++ [.agent ev]) = replied frames := by
          rw [replied_concat, repliedAfter_agent hword]
        rw [Bubble.apply_agent _ hdelta]
        refine ⟨rfl, ?_, ?_, ?_⟩
        · intro text ht
          rw [hreply]
          split at ht
          · cases ht
          · exact h.live text ht
        · intro hn
          rw [hreply]
          split at hn
          · rename_i hterm
            have hends : ev.terminal = true := by simpa using hterm
            exact hend hends
          · exact h.silent hn
        · rintro hnone _ ⟨⟩
          rw [hreply] at hnone
          exact (h.events hnone events rfl).append hword _

theorem dropLive_prompts (s : ChatStore) (ps : List Prompt) :
    (ps.foldl (fun s p => s.dropLive p.id) s).prompts = s.prompts := by
  induction ps generalizing s with
  | nil => rfl
  | cons p ps ih => exact ih (s.dropLive p.id)

theorem localOnly_id {view : ChatView} {p : Prompt} (h : p ∈ localOnly s view) :
    p.id ∉ view.prompts.map Prompt.id := by
  have hl := (List.mem_filter.mp h).2
  simp only [Bool.and_eq_true, Bool.not_eq_true', List.contains_eq_mem, decide_eq_false_iff_not] at hl
  exact hl.1

theorem mem_keepTail {ps : List Prompt} {p : Prompt} (h : p ∈ keepTail ps) : p ∈ ps := by
  unfold keepTail at h
  split at h
  · exact List.mem_of_mem_drop h
  · exact h

theorem getLast_latest {n : Nat} {log : List AgentEvent} {e : AgentEvent}
    (h : (latest n log).getLast? = some e) : log.getLast? = some e := by
  obtain ⟨front, hfront⟩ := latest_suffix n log
  rw [← hfront, List.getLast?_append, h]
  rfl

/-- What a reconcile makes of a prompt that it lists and that stays. -/
theorem reconcileStore_copy {view : ChatView} (hcopy : CopyOf id frames view)
    (hkept : ((reconcileStore s view).prompt id).isSome) :
    ((reconcileStore s view).bubble id).1 =
        some ((latest defaultEventsPerPrompt (serverLog frames)).map .agent) ∧
      (((reconcileStore s view).bubble id).2 = s.liveTokens id ∨
        ((reconcileStore s view).bubble id).2 = none ∧
          ∃ e, (serverLog frames).getLast? = some e ∧ e.terminal = true) := by
  constructor
  · obtain ⟨p, hp⟩ := Option.isSome_iff_exists.mp hkept
    have hid : p.id = id := by simpa using List.find?_some hp
    have hmem : p ∈ (reconcileStore s view).prompts := List.mem_of_find?_eq_some hp
    rw [reconcileStore, dropLive_prompts] at hmem
    have hlisted : p.id ∈ view.prompts.map Prompt.id := by
      obtain ⟨q, hq, hqid⟩ := hcopy.listed
      rw [hid, ← hqid]
      exact List.mem_map_of_mem hq
    have hview : p ∈ view.prompts := by
      rcases List.mem_append.mp (mem_keepTail hmem) with hmem | hmem
      · rcases List.mem_append.mp hmem with hmem | hmem
        · exact absurd hlisted (localOnly_id (List.mem_of_mem_filter hmem))
        · exact hmem
      · exact absurd hlisted (localOnly_id (List.mem_of_mem_filter hmem))
    rw [bubble_present hp, hcopy.events p hview hid]
  · unfold reconcileStore
    rw [dropLive_fold]
    dsimp only
    split
    · rename_i hex
      obtain ⟨p, hp, hid⟩ := hex
      obtain ⟨hview, hfin⟩ := List.mem_filter.mp hp
      rw [finished, hcopy.events p hview hid, List.getLast?_map, Option.any_map] at hfin
      obtain ⟨e, he, hterm⟩ := (Option.any_eq_true _ _).mp hfin
      exact .inr ⟨rfl, e, getLast_latest he, hterm⟩
    · exact .inl rfl

/-- A reconcile shows the same text, if turns end without any. -/
theorem Tells.reconcile (h : Tells frames (s.bubble id)) (hends : EndsWordless frames)
    {view : ChatView} (hcopy : CopyOf id frames view)
    (hkept : ((reconcileStore s view).prompt id).isSome) :
    Tells frames ((reconcileStore s view).bubble id) := by
  obtain ⟨hevents, hlive⟩ := reconcileStore_copy hcopy hkept
  have hsame : s.liveTokens id = (s.bubble id).2 := rfl
  have hnone : replied frames = [] ∨ ((reconcileStore s view).bubble id).2 = (s.bubble id).2 := by
    rcases hlive with hlive | ⟨-, e, hlast, hterm⟩
    · exact .inr hlive
    · obtain ⟨front, rfl⟩ := serverLog_last hlast
      rw [replied_concat, repliedAfter_agent (delta_wordless (terminal_delta hterm))]
      exact .inl (hends front _ (List.prefix_refl _) hterm)
  refine ⟨by rw [hevents]; rfl, fun text ht => ?_, fun hn => ?_, fun hno events he => ?_⟩
  · rcases hlive with hlive | ⟨hlive, -⟩
    · exact h.live text (hlive.symm.trans ht)
    · rw [hlive] at ht
      cases ht
  · rcases hnone with hnone | hkeep
    · exact hnone
    · exact h.silent (hkeep.symm.trans hn)
  · rw [hevents] at he
    have hcopied := Option.some.inj (Option.mem_def.mp he)
    intro ev hev
    rw [← hcopied] at hev
    obtain ⟨e, he, rfl⟩ := List.mem_map.mp hev
    exact serverLog_wordless hno e ((latest_suffix _ _).subset he)

theorem EndsWordless.before {frames' : List StreamEvent} (h : EndsWordless frames')
    (hp : frames <+: frames') : EndsWordless frames :=
  fun front ev hf => h front ev (hf.trans hp)

theorem Viewing.tells {start : ChatStore} (hstart : start.bubble id = (some [], none))
    (h : Viewing id start frames s) (hends : EndsWordless frames) : Tells frames (s.bubble id) := by
  induction h with
  | start =>
    rw [hstart]
    exact ⟨rfl, fun _ ht => (nomatch ht), fun _ => rfl, fun _ _ he => by cases he; exact fun _ hev => (nomatch hev)⟩
  | @frame frames s h ev ih =>
    rw [applyWsFrame_bubble, Bubble.hear, if_pos rfl]
    exact (ih (hends.before (List.prefix_append _ _))).frame (hends frames ev (List.prefix_refl _))
  | other h f hf ih =>
    rw [applyWsFrame_bubble, Bubble.hear, if_neg hf]
    exact ih hends
  | reconcile h hcopy hkept ih => exact (ih hends).reconcile hends hcopy hkept

/-- Frames alone put no text among the events. -/
theorem apply_wordless (ev : StreamEvent) (hb : ∃ events, b.1 = some events ∧ Wordless events) :
    ∃ events, (b.apply ev).1 = some events ∧ Wordless events := by
  obtain ⟨events, he, hw⟩ := hb
  cases ev with
  | retry message =>
    refine ⟨[.retry message], by simp [Bubble.apply, he], fun ev hev => ?_⟩
    rw [List.mem_singleton.mp hev]
    rfl
  | agent ev =>
    cases hd : isDelta ev with
    | true =>
      cases ev with
      | token | thinking => exact ⟨events, he, hw⟩
      | _ => cases hd
    | false =>
      rw [Bubble.apply_agent _ hd, he]
      exact ⟨_, rfl, hw.append (delta_wordless hd) _⟩

/-- Without a reconcile. -/
theorem viewing_frames {start : ChatStore} (hstart : start.bubble id = (some [], none))
    (frames : List StreamEvent) : ∃ s, Viewing id start frames s ∧
      ∃ events, (s.bubble id).1 = some events ∧ Wordless events := by
  induction frames using List.reverseRecOn with
  | nil =>
    refine ⟨start, .start, [], ?_, fun _ hev => (nomatch hev)⟩
    rw [hstart]
  | append_singleton frames ev ih =>
    obtain ⟨s, hs, hw⟩ := ih
    refine ⟨_, hs.frame ev, ?_⟩
    rw [applyWsFrame_bubble, Bubble.hear, if_pos rfl]
    exact apply_wordless ev hw

theorem shown_text (s : ChatStore) (id text : Text) : (s.bubble id).shown.map Prod.fst = some text ↔
    ∃ p, s.prompt id = some p ∧ assistantText p s.liveTokens = text := by
  rw [← shown_bubble, ChatStore.shown, Option.map_map]
  exact Option.map_eq_some_iff

end

/-- Whatever frames of a prompt come, and wherever reconciles come in between, the text shown is the
concatenation of the tokens since the last retry: exactly if no turn of it ends after text. -/
theorem reply_stays {id : Text} {start : ChatStore} {p : Prompt} (hp : start.prompt id = some p)
    (hevents : p.events = []) (hlive : start.liveTokens id = none) (frames : List StreamEvent) :
    (∀ received s, received <+: frames → Viewing id start received s →
      ∃ p, s.prompt id = some p ∧ assistantText p s.liveTokens = replied received) ↔
      EndsWordless frames := by
  have hstart : start.bubble id = (some [], none) := by
    refine Prod.ext ?_ hlive
    rw [bubble_present hp, hevents]
  constructor
  · intro hall front ev hfront hterm
    obtain ⟨s, hs, hw⟩ := viewing_frames hstart front
    have hshown := (shown_text _ id _).mpr (hall _ _ hfront (hs.frame ev))
    obtain ⟨events, he, hword⟩ := apply_wordless ev hw
    rw [applyWsFrame_bubble, Bubble.hear, if_pos rfl, Bubble.shown, he] at hshown
    -- The end drops the live text, and the events have none.
    cases ev with
    | retry message => cases hterm
    | agent ev =>
      have hends : ev.terminal = true := hterm
      have hdelta := terminal_delta hends
      obtain ⟨old, hold, -⟩ := hw
      rw [Bubble.apply_agent _ hdelta, hold, hends, replied_concat,
        repliedAfter_agent (delta_wordless hdelta)] at hshown
      simp only [Option.map_some, Option.isSome_some, Bool.and_self, if_true, Option.getD_none,
        hword.text, Option.some.injEq] at hshown
      exact hshown.symm
  · intro hends received s hreceived hs
    exact (shown_text s id _).mp (hs.tells hstart (hends.before hreceived)).shown

/-- A store with one prompt that nothing has come for. -/
def quietStore : ChatStore :=
  { freshChatStore with prompts := [{ id := ['p'], seq := 1, content := ['a'], events := [] }] }

/-- An error, and a token after it. -/
def lateToken : List StreamEvent := [.agent (.error ['e']), .agent (.token ['a'])]

theorem reply_stays_late_token : ∃ p,
    (lateToken.foldl (fun s ev => applyWsFrame s ⟨['p'], ev⟩) quietStore).prompt ['p'] = some p ∧
      replied lateToken = ['a'] := by
  have hends : EndsWordless lateToken := by
    intro front ev hfront hterm
    match front with
    | [] => rfl
    | [x] =>
      have hev : [x, ev] = lateToken := hfront.eq_of_length rfl
      cases hev
      cases hterm
    | x :: y :: front =>
      have hlen := hfront.length_le
      simp [lateToken] at hlen
  have hview : Viewing ['p'] quietStore lateToken
      (lateToken.foldl (fun s ev => applyWsFrame s ⟨['p'], ev⟩) quietStore) :=
    (Viewing.start.frame _).frame _
  obtain ⟨p, hp, -⟩ := (@reply_stays ['p'] quietStore _ rfl rfl rfl lateToken).mpr hends _ _
    (List.prefix_refl _) hview
  exact ⟨p, hp, rfl⟩

/-- After a token and the end of the turn the text is gone. -/
theorem reply_disappears : ¬ ∀ (id : Text) (start : ChatStore) (p : Prompt),
    start.prompt id = some p → p.events = [] → start.liveTokens id = none →
    ∀ frames s, Viewing id start frames s →
      ∃ p, s.prompt id = some p ∧ assistantText p s.liveTokens = replied frames := by
  intro hclaim
  have hview : Viewing ['p'] quietStore [.agent (.token ['a']), .agent (.done none none)]
      (applyWsFrame (applyWsFrame quietStore ⟨['p'], .agent (.token ['a'])⟩)
        ⟨['p'], .agent (.done none none)⟩) :=
    (Viewing.start.frame _).frame _
  obtain ⟨p, hp, htext⟩ := hclaim ['p'] quietStore _ rfl rfl rfl _ _ hview
  cases hp
  cases htext

end AgentGrove.Web
