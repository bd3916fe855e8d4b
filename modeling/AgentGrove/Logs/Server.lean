import AgentGrove.Coop.Digest
import AgentGrove.Model.ChatVerbs
import AgentGrove.Turns.Endings

namespace AgentGrove

open Coop

/-- The count a truncation marker carries. -/
def AgentEvent.dropped : AgentEvent → Option Nat
  | .truncated dropped => some dropped
  | _ => none

/-- How many of its events a list of events speaks for. -/
abbrev accounted (events : List AgentEvent) : Nat := account AgentEvent.dropped events

/-- The log that these events make of an empty one. -/
def logOf (events : List AgentEvent) : List AgentEvent := events.foldl ChatRegistry.pushEvent []

section Pushes

open ChatRegistry

variable {ev : AgentEvent} {events : List AgentEvent}

theorem pushEvent_real (h : ∀ e ∈ events, e.dropped = none) (hl : events.length < maxEventsPerPrompt) :
    pushEvent events ev = events ++ [ev] := by
  cases events with
  | nil => rfl
  | cons e rest =>
    have he := h e List.mem_cons_self
    cases e with
    | truncated dropped => cases he
    | _ =>
      simp only [pushEvent]
      exact if_neg (Nat.not_le.mpr hl)

theorem pushEvent_full (h : ∀ e ∈ events, e.dropped = none) (hl : maxEventsPerPrompt ≤ events.length) :
    pushEvent events ev = .truncated 1 :: events.tail ++ [ev] := by
  cases events with
  | nil => cases hl
  | cons e rest =>
    have he := h e List.mem_cons_self
    cases e with
    | truncated dropped => cases he
    | _ =>
      simp only [pushEvent]
      exact if_pos hl

theorem pushEvent_marked (dropped : Nat) (hl : maxEventsPerPrompt ≤ events.length) :
    pushEvent (.truncated dropped :: events) ev = .truncated (dropped + 1) :: events.tail ++ [ev] := by
  simp only [pushEvent]
  exact if_pos (Nat.succ_le_succ hl)

/-- One more event, on either side of the bound and at it. -/
theorem pushEvent_digest (h : ∀ e ∈ events, e.dropped = none) :
    pushEvent (digest .truncated maxEventsPerPrompt maxEventsPerPrompt events) ev =
      digest .truncated maxEventsPerPrompt maxEventsPerPrompt (events ++ [ev]) := by
  have hpos : 0 < maxEventsPerPrompt := by decide
  rcases Nat.lt_trichotomy events.length maxEventsPerPrompt with hl | hl | hl
  · rw [digest_concat_short hl, digest_short (Nat.le_of_lt hl), pushEvent_real h hl]
  · rw [digest_concat_full hpos (Nat.le_refl _) hl, digest_short (Nat.le_of_eq hl),
      latest_short (Nat.le_of_eq hl), pushEvent_full h (Nat.le_of_eq hl.symm)]
  · have hkept : maxEventsPerPrompt ≤ (latest maxEventsPerPrompt events).length := by
      rw [length_latest]
      omega
    rw [digest_concat_long hpos (Nat.le_refl _) hl, digest_long hl, pushEvent_marked _ hkept]

/-- The log is the events' digest. -/
theorem logOf_digest (h : ∀ e ∈ events, e.dropped = none) :
    logOf events = digest .truncated maxEventsPerPrompt maxEventsPerPrompt events := by
  induction events using List.reverseRecOn with
  | nil => rfl
  | append_singleton events ev ih =>
    have hevents : ∀ e ∈ events, e.dropped = none := fun e he => h e (List.mem_append_left _ he)
    rw [logOf, List.foldl_concat]
    exact (congrArg (fun log => pushEvent log ev) (ih hevents)).trans (pushEvent_digest hevents)

/-- The log speaks for every event. -/
theorem accounted_logOf (h : ∀ e ∈ events, e.dropped = none) :
    accounted (logOf events) = events.length := by
  have hmark : ∀ k, (AgentEvent.truncated k).dropped = some k := fun _ => rfl
  rw [logOf_digest h, accounted, account_digest hmark (Nat.le_refl _) h]
  split
  · rfl
  · omega

end Pushes

/-- Write these events to the rows of a prompt. -/
def fileEvents (promptId : Uuid) (events : List AgentEvent) (s : AppState) : AppState :=
  { s with store := { s.store with
      prompts := ChatRepo.updatePrompt promptId (fun r => { r with events := events })
        s.store.prompts } }

/-- `persist_prompt_events` when nothing comes in between and the write succeeds. -/
def flushEvents (pick : Nat) (promptId : Uuid) (s : AppState) : AppState :=
  match s.chats.findPrompt pick promptId with
  | none => s
  | some p => fileEvents promptId p.events s

/-- What befalls a prompt's log: an event is appended, or the log is flushed and the
server restarted. -/
inductive LogStep where
  | append (ev : AgentEvent)
  | restart (pick now : Nat)

def LogStep.apply (c promptId : Uuid) (s : AppState) : LogStep → AppState
  | .append ev => { s with chats := s.chats.appendEvent c promptId ev }
  | .restart pick now => startup now (flushEvents pick promptId s)

def LogStep.event : LogStep → Option AgentEvent
  | .append ev => some ev
  | .restart _ _ => none

/-- The prompt is cached in its chat only, and so are its rows stored. -/
structure Rooted (c promptId : Uuid) (s : AppState) : Prop where
  only : OnlyIn c promptId s
  live : ∃ row ∈ s.store.chats, row.id = c ∧ row.deletedAt = none
  stored : ∃ row ∈ s.store.prompts, row.id = promptId ∧ row.chatId = c
  owned : ∀ row ∈ s.store.prompts, row.id = promptId → row.chatId = c

section Restarts

variable {c promptId : Uuid} {s : AppState} {log : List AgentEvent}

/-- A restart caches every chat that is not deleted. -/
theorem hydrate_isSome {store : Store} {row : ChatRow} (hrow : row ∈ store.chats)
    (hlive : row.deletedAt = none) : ((hydrateFromStore store).get row.id).isSome := by
  have hmem : row ∈ ChatRepo.listAll store.chats := by
    simp [ChatRepo.listAll, hrow, hlive]
  suffices hfold : ∀ (rows : List ChatRow) (reg : ChatRegistry),
      row ∈ rows ∨ (reg.get row.id).isSome →
      ((rows.foldl (fun reg row => reg.ingestChat (recordOfRow row
        ((ChatRepo.listPrompts store.prompts row.id).map promptOfRow))) reg).get row.id).isSome by
    exact hfold _ ChatRegistry.empty (.inl hmem)
  intro rows
  induction rows with
  | nil => simp
  | cons r rows ih =>
    intro reg h
    apply ih
    rw [ChatRegistry.get_ingestChat]
    by_cases he : row.id = r.id
    · simp [recordOfRow, he]
    · rcases h with h | h
      · rcases List.mem_cons.mp h with rfl | h
        · exact absurd rfl he
        · exact .inl h
      · right
        simpa [recordOfRow, he] using h

/-- A restart brings back the log that the prompt's rows have. -/
theorem Rooted.startup (h : Rooted c promptId s)
    (hfiled : ∀ row ∈ s.store.prompts, row.id = promptId → row.events = log) (now : Nat) :
    promptLog c promptId (startup now s) = some log ∧ Rooted c promptId (startup now s) := by
  have hread : ∀ d chat, (AgentGrove.startup now s).chats.get d = some chat → ∀ p ∈ chat.prompts,
      p.id = promptId → d = c ∧ p.events = log := by
    intro d chat hd p hp hid
    rw [hydrate_prompts hd] at hp
    obtain ⟨row, hrow, rfl⟩ := List.mem_map.mp hp
    simp only [ChatRepo.listPrompts, List.mem_insertionSort, List.mem_filter,
      decide_eq_true_eq] at hrow
    exact ⟨hrow.2.symm.trans (h.owned row hrow.1 hid), hfiled row hrow.1 hid⟩
  constructor
  · obtain ⟨chatRow, hchatRow, rfl, hlive⟩ := h.live
    obtain ⟨chat, hget⟩ := Option.isSome_iff_exists.mp
      (@hydrate_isSome (AgentGrove.startup now s).store _ hchatRow hlive)
    obtain ⟨row, hrow, hid, hchat⟩ := h.stored
    have hlisted : promptOfRow row ∈ chat.prompts := by
      rw [hydrate_prompts hget]
      apply List.mem_map_of_mem
      simpa [ChatRepo.listPrompts] using ⟨hrow, hchat⟩
    have hfound : (chat.prompts.find? (fun p => p.id = promptId)).isSome :=
      List.find?_isSome.mpr ⟨promptOfRow row, hlisted, decide_eq_true hid⟩
    obtain ⟨p, hp⟩ := Option.isSome_iff_exists.mp hfound
    have hlog := (hread _ chat hget p (List.mem_of_find?_eq_some hp) (by simpa using List.find?_some hp)).2
    have hcached : (AgentGrove.startup now s).chats.get chatRow.id = some chat := hget
    simp only [promptLog, hcached, Option.bind_some, hp, Option.map_some, hlog]
  · exact ⟨fun d chat hd hne p hp hid => hne (hread d chat hd p hp hid).1, h.live, h.stored, h.owned⟩

/-- After a flush the prompt's rows have its log, and nothing else has changed. -/
theorem Rooted.flush (h : Rooted c promptId s) (hlog : promptLog c promptId s = some log) (pick : Nat) :
    Rooted c promptId (flushEvents pick promptId s) ∧
      ∀ row ∈ (flushEvents pick promptId s).store.prompts, row.id = promptId → row.events = log := by
  obtain ⟨p, hp, rfl⟩ := findPrompt_only h.only hlog pick
  have hflush : flushEvents pick promptId s = fileEvents promptId p.events s := by
    simp only [flushEvents, hp]
  have hrows : ∀ row ∈ (fileEvents promptId p.events s).store.prompts, row.id = promptId →
      row.chatId = c ∧ row.events = p.events := by
    intro row hrow hid
    obtain ⟨old, hold, rfl⟩ := List.mem_map.mp hrow
    split at hid
    · rename_i he
      rw [if_pos he]
      exact ⟨h.owned old hold he, rfl⟩
    · exact absurd hid ‹_›
  rw [hflush]
  refine ⟨⟨h.only, h.live, ?_, fun row hrow hid => (hrows row hrow hid).1⟩,
    fun row hrow hid => (hrows row hrow hid).2⟩
  obtain ⟨old, hold, hid, hchat⟩ := h.stored
  exact ⟨{ old with events := p.events }, List.mem_map.mpr ⟨old, hold, if_pos hid⟩, hid, hchat⟩

/-- Appends and restarts change the log as the appends alone do. -/
theorem promptLog_steps (h : Rooted c promptId s) (hlog : promptLog c promptId s = some log)
    (steps : List LogStep) :
    promptLog c promptId (steps.foldl (LogStep.apply c promptId) s) =
      some ((steps.filterMap LogStep.event).foldl ChatRegistry.pushEvent log) := by
  induction steps generalizing s log with
  | nil => exact hlog
  | cons step steps ih =>
    cases step with
    | append ev =>
      have hnext := promptLog_appendEvent s c promptId ev
      rw [hlog, Option.map_some] at hnext
      exact ih ⟨h.only.appendEvent c promptId ev, h.live, h.stored, h.owned⟩ hnext
    | restart pick now =>
      obtain ⟨hroot, hfiled⟩ := h.flush hlog pick
      obtain ⟨hnext, hroot⟩ := hroot.startup hfiled now
      exact ih hroot hnext

end Restarts

/-- A prompt's log, appended to and flushed and hydrated at any point, is the sequence of its
events or, of one longer than the cap, a marker with the exact count of those dropped and
the last events in order. -/
theorem log_bounded {c promptId : Uuid} {s : AppState} (h : Rooted c promptId s)
    (hempty : promptLog c promptId s = some []) (steps : List LogStep)
    (hreal : ∀ ev ∈ steps.filterMap LogStep.event, ev.dropped = none) :
    let events := steps.filterMap LogStep.event
    ∃ log, promptLog c promptId (steps.foldl (LogStep.apply c promptId) s) = some log ∧
      (events.length ≤ 4096 → log = events) ∧
      (4096 < events.length →
        log = .truncated (events.length - 4096) :: events.drop (events.length - 4096)) ∧
      accounted log = events.length := by
  intro events
  have hlog := logOf_digest hreal
  refine ⟨_, promptLog_steps h hempty steps, fun hl => ?_, fun hl => ?_, ?_⟩
  · exact hlog.trans (digest_short hl)
  · exact hlog.trans (digest_long hl)
  · exact accounted_logOf hreal

theorem rooted_oneMessage : Rooted 1 2 (serve oneMessage 3 []) := by
  refine ⟨?_, ⟨freshChat, by simp [serve, startup, oneMessage, freshStore], rfl, rfl⟩,
    ⟨_, List.mem_singleton_self _, rfl, rfl⟩, fun row hrow _ => ?_⟩
  · intro d chat hd hne
    obtain ⟨row, hrow, rfl, -⟩ := hydrate_row hd
    have hfresh : row = freshChat := by simpa [oneMessage, freshStore, startup] using hrow
    exact absurd (congrArg ChatRow.id hfresh) hne
  · rw [List.mem_singleton.mp hrow]
    rfl

theorem log_bounded_restarted :
    ∃ log, promptLog 1 2 ([LogStep.append (.token ['a']), .restart 0 1, .append (.done none none)].foldl
        (LogStep.apply 1 2) (serve oneMessage 3 [])) = some log ∧ accounted log = 2 := by
  obtain ⟨log, hlog, -, -, hcount⟩ := log_bounded rooted_oneMessage (by decide)
    [.append (.token ['a']), .restart 0 1, .append (.done none none)] (by decide)
  exact ⟨log, hlog, hcount⟩

/-- A prompt as `get_one` or `list_prompts` answers it. -/
def Viewed (chat : ChatRecord) (p : PromptRecord) : Prop :=
  p ∈ (windowChat chat).chat.prompts ∨ ∃ before limit, p ∈ (Web.listPrompts chat before limit).1

theorem Viewed.window {chat : ChatRecord} {p : PromptRecord} (h : Viewed chat p) :
    ∃ q ∈ chat.prompts, p = Web.windowEvents q := by
  rcases h with h | ⟨before, limit, h⟩
  · obtain ⟨q, hq, rfl⟩ := List.mem_map.mp h
    exact ⟨q, List.mem_of_mem_drop hq, rfl⟩
  · obtain ⟨q, hq, rfl⟩ := List.mem_map.mp h
    exact ⟨q, List.mem_of_mem_filter (List.mem_of_mem_drop hq), rfl⟩

/-- A view shows the last events of a log, whatever the log has dropped. -/
theorem window_latest {p : PromptRecord} {events : List AgentEvent} (hlog : p.events = logOf events)
    (hreal : ∀ ev ∈ events, ev.dropped = none) :
    (Web.windowEvents p).events = latest defaultEventsPerPrompt events := by
  have hle : defaultEventsPerPrompt ≤ ChatRegistry.maxEventsPerPrompt := by
    unfold defaultEventsPerPrompt ChatRegistry.maxEventsPerPrompt
    omega
  have hshown : (Web.windowEvents p).events = latest defaultEventsPerPrompt p.events := by
    simp only [Web.windowEvents, latest]
  rw [hshown, hlog, logOf_digest hreal, latest_digest hle (Nat.le_refl _)]

/-- A view shows the last of a prompt's events, at most as many as it says. It speaks for
all of them exactly if it shows them all, and one with fewer than its bound does. -/
theorem views_account {chat : ChatRecord} {history : Uuid → List AgentEvent}
    (hlogs : ∀ p ∈ chat.prompts, p.events = logOf (history p.id))
    (hreal : ∀ id, ∀ ev ∈ history id, ev.dropped = none) {p : PromptRecord} (hp : Viewed chat p) :
    let bound := (windowChat chat).eventsPerPrompt
    bound = 200 ∧ p.events = (history p.id).drop ((history p.id).length - bound) ∧
      (accounted p.events = (history p.id).length ↔ (history p.id).length ≤ bound) ∧
      (p.events.length < bound → p.events = history p.id) := by
  intro bound
  obtain ⟨q, hq, rfl⟩ := hp.window
  have hid : (Web.windowEvents q).id = q.id := by simp only [Web.windowEvents]
  have hshown := window_latest (hlogs q hq) (hreal q.id)
  have hbound : bound = defaultEventsPerPrompt := by simp only [bound, windowChat]
  refine ⟨hbound, ?_, ?_, fun hl => ?_⟩
  · rw [hshown, hid, hbound, latest]
  · rw [hshown, accounted, account_latest (hreal q.id), hid, hbound]
    omega
  · rw [hshown, length_latest, hbound] at hl
    rw [hshown, hid]
    apply latest_short
    omega

/-- A prompt that has had these events. -/
def promptWith (events : List AgentEvent) : PromptRecord :=
  { id := 2, seq := 1, content := ['a'], events := logOf events, touchedPaths := [], createdAt := 0 }

/-- Chat 1 with this prompt. -/
def chatWith (events : List AgentEvent) : ChatRecord := recordOfRow freshChat [promptWith events]

theorem views_account_one_token :
    (Web.windowEvents (promptWith [.token ['a']])).events = [.token ['a']] := by
  obtain ⟨hbound, hshown, -, -⟩ := @views_account (chatWith [.token ['a']]) (fun _ => [.token ['a']])
    (by simp [chatWith, promptWith, recordOfRow]) (by simp [AgentEvent.dropped]) _
    (.inl List.mem_cons_self)
  simp only [hbound] at hshown
  exact hshown

/-- A view of 201 tokens shows 200 and does not say that one is missing. -/
theorem view_omits_event : ¬ ∀ (chat : ChatRecord) (history : Uuid → List AgentEvent),
    (∀ p ∈ chat.prompts, p.events = logOf (history p.id)) →
    (∀ id, ∀ ev ∈ history id, ev.dropped = none) →
    ∀ p, Viewed chat p → accounted p.events = (history p.id).length := by
  intro hclaim
  have hreal : ∀ ev ∈ List.replicate 201 (AgentEvent.token ['a']), ev.dropped = none := by
    intro ev hev
    rw [List.eq_of_mem_replicate hev]
    rfl
  have hlogs : ∀ p ∈ (chatWith (List.replicate 201 (.token ['a']))).prompts,
      p.events = logOf (List.replicate 201 (.token ['a'])) := by
    intro p hp
    rw [List.mem_singleton.mp hp, promptWith]
  obtain ⟨p, hp⟩ : ∃ p, p ∈ (chatWith (List.replicate 201 (.token ['a']))).prompts :=
    ⟨_, List.mem_cons_self⟩
  have hview : Viewed (chatWith (List.replicate 201 (.token ['a']))) (Web.windowEvents p) :=
    .inl (List.mem_map_of_mem hp)
  have hall := hclaim _ _ hlogs (fun _ => hreal) _ hview
  rw [window_latest (hlogs p hp) hreal, accounted, account_latest hreal, List.length_replicate] at hall
  exact absurd hall (by decide)

end AgentGrove
