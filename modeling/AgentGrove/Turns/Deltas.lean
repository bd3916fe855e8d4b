import AgentGrove.Coop.Trace
import AgentGrove.Proofs.Steps

namespace AgentGrove

open Coop

/-- An event before a merged list: an empty text delta is dropped, and one beside a
delta of its own kind joins it. -/
def glue : AgentEvent → List AgentEvent → List AgentEvent
  | .token [], rest => rest
  | .thinking [], rest => rest
  | .token a, .token b :: rest => .token (a ++ b) :: rest
  | .thinking a, .thinking b :: rest => .thinking (a ++ b) :: rest
  | ev, rest => ev :: rest

/-- Adjacent text deltas of one kind joined, empty ones dropped. -/
def merge (events : List AgentEvent) : List AgentEvent := events.foldr glue []

section Merge

variable {a b : Text} {rest rest' : List AgentEvent} {ev : AgentEvent}

theorem merge_append (xs ys : List AgentEvent) : merge (xs ++ ys) = xs.foldr glue (merge ys) := by
  simp [merge]

/-- Two tokens in a row are as good as one. -/
theorem glue_token_token (a b : Text) (rest : List AgentEvent) :
    glue (.token a) (glue (.token b) rest) = glue (.token (a ++ b)) rest := by
  cases a with
  | nil => rfl
  | cons c a =>
  cases b with
  | nil => simp [glue]
  | cons d b =>
  cases rest with
  | nil => rfl
  | cons ev rest => cases ev <;> simp [glue]

theorem glue_thinking_thinking (a b : Text) (rest : List AgentEvent) :
    glue (.thinking a) (glue (.thinking b) rest) = glue (.thinking (a ++ b)) rest := by
  cases a with
  | nil => rfl
  | cons c a =>
  cases b with
  | nil => simp [glue]
  | cons d b =>
  cases rest with
  | nil => rfl
  | cons ev rest => cases ev <;> simp [glue]

/-- Gluing an event onto a list and going on is gluing it once the rest is there. -/
theorem foldr_glue (ev : AgentEvent) (events tail : List AgentEvent) :
    (glue ev events).foldr glue tail = glue ev (events.foldr glue tail) := by
  cases ev with
  | token a =>
    cases a with
    | nil => rfl
    | cons c a =>
    cases events with
    | nil => rfl
    | cons next events =>
      cases next with
      | token b => exact (glue_token_token _ _ _).symm
      | _ => rfl
  | thinking a =>
    cases a with
    | nil => rfl
    | cons c a =>
    cases events with
    | nil => rfl
    | cons next events =>
      cases next with
      | thinking b => exact (glue_thinking_thinking _ _ _).symm
      | _ => rfl
  | _ => rfl

theorem foldr_merge (events tail : List AgentEvent) :
    (merge events).foldr glue tail = events.foldr glue tail := by
  induction events with
  | nil => rfl
  | cons ev events ih =>
    have hcons : merge (ev :: events) = glue ev (merge events) := rfl
    rw [hcons, foldr_glue, ih]
    rfl

/-- What comes after may be added to either of two lists that merge to the same. -/
theorem merge_congr {xs ys : List AgentEvent} (h : merge xs = merge ys) (tail : List AgentEvent) :
    merge (xs ++ tail) = merge (ys ++ tail) := by
  rw [merge_append, merge_append, ← foldr_merge xs, ← foldr_merge ys, h]

theorem merge_no_token (xs tail : List AgentEvent) :
    merge (xs ++ .token [] :: tail) = merge (xs ++ tail) := by
  simp only [merge_append]
  rfl

theorem merge_no_thinking (xs tail : List AgentEvent) :
    merge (xs ++ .thinking [] :: tail) = merge (xs ++ tail) := by
  simp only [merge_append]
  rfl

theorem merge_empties (xs : List AgentEvent) : merge (xs ++ [.token [], .thinking []]) = merge xs := by
  rw [merge_no_token, merge_no_thinking, List.append_nil]

end Merge

/-- One action of a task of this server. -/
abbrev TurnAction := Action Site Choice AppState

/-- The event that an action takes from the provider's channel. -/
def heardBy (a : TurnAction) : Option AgentEvent :=
  match a.label with
  | some (⟨_, _, .turn .recv⟩, w) =>
    match w.recv with
    | .event ev => some ev
    | _ => none
  | _ => none

/-- The events of the provider, in the order the turn took them. -/
def heard (as : List TurnAction) : List AgentEvent := as.filterMap heardBy

/-- The events of a prompt among these frames. -/
def eventsIn (c promptId : Uuid) (frames : List (Topic × Frame)) : List AgentEvent :=
  frames.filterMap (fun x =>
    match x with
    | (.chat d, .event id ev) => if d = c ∧ id = promptId then some ev else none
    | _ => none)

/-- The event frames of a prompt that these actions publish. -/
def published (c promptId : Uuid) (as : List TurnAction) : List AgentEvent :=
  as.flatMap (fun a => eventsIn c promptId (a.after.bus.drop a.before.bus.length))

/-- The actions taken at one await of a turn. -/
def actionsAt (call : TurnCall) (as : List TurnAction) : List TurnAction :=
  as.filter (fun a => a.label.any (fun l => l.1.call == .turn call))

/-- The action appends an event to the prompt's cached log. -/
def Appends (c promptId : Uuid) (a : TurnAction) (ev : AgentEvent) : Prop :=
  a.after = { a.before with chats := a.before.chats.appendEvent c promptId ev }

/-- How an action found that the provider's task had ended. -/
def joinedBy (a : TurnAction) : Option Joined :=
  match a.label with
  | some (⟨_, _, .turn .join⟩, w) => some w.joined
  | _ => none

/-- The cancel token that an action installs. -/
def installedBy (a : TurnAction) : Option Nat :=
  match a.label with
  | some (⟨_, _, .turn .installToken⟩, _) => some a.before.nextToken
  | _ => none

/-- Whether the turn's token had been tripped when it looked, before it awaited the end
of the provider's task. -/
def tripped (as : List TurnAction) : Bool :=
  match as.filterMap installedBy with
  | [] => false
  | token :: _ => ((as.takeWhile (fun a => (joinedBy a).isNone)).getLast?).any
      (fun a => decide (token ∈ a.after.cancelled))

/-- A prompt's cached log. -/
def promptLog (c promptId : Uuid) (s : AppState) : Option (List AgentEvent) :=
  ((s.chats.get c).bind (fun chat => chat.prompts.find? (fun p => p.id = promptId))).map
    PromptRecord.events

/-- Whether the write of the log that ends a turn failed. -/
def writeFailed (as : List TurnAction) : Bool :=
  (actionsAt .writeEvents as).any (fun a => a.label.any (fun l => l.2.fail))

/-- The awaits that a turn's course is read off. -/
def Call.traced : Call → Bool
  | .turn .recv | .turn .append | .turn .conclude | .turn .join | .turn .installToken => true
  | _ => false

/-- The others may do anything that leaves the prompt's cached log alone. -/
def LogKept (c promptId : Uuid) (s s' : AppState) : Prop :=
  promptLog c promptId s' = promptLog c promptId s

/-- No other chat has a prompt with this id in the cache. -/
def OnlyIn (c promptId : Uuid) (s : AppState) : Prop :=
  ∀ d chat, s.chats.get d = some chat → d ≠ c → ∀ p ∈ chat.prompts, p.id ≠ promptId

/-- The prompt was sent `events` from the provider's stream and then `closing`: these
are the frames published and these the events appended, each as its frame said. -/
structure Relayed (c promptId : Uuid) (as : List TurnAction) (events closing : List AgentEvent) :
    Prop where
  frames : published c promptId as = events ++ closing
  appended : List.Forall₂ (Appends c promptId) (actionsAt .append as) events
  concluded : List.Forall₂ (Appends c promptId) (actionsAt .conclude as) closing

/-- The same with what it comes to in the cache, if nobody else writes to the log. -/
structure Spoken (E : AppState → AppState → Prop) (s₀ : AppState) (c promptId : Uuid)
    (as : List TurnAction) (events closing : List AgentEvent) : Prop
    extends Relayed c promptId as events closing where
  solid : ∀ ev ∈ events, glue ev [] = [ev]
  log : (∀ s s', E s s' → LogKept c promptId s s') → promptLog c promptId (leftBy s₀ as) =
    (promptLog c promptId s₀).map (fun log => (events ++ closing).foldl ChatRegistry.pushEvent log)
  only : (∀ s s', E s s' → OnlyIn c promptId s → OnlyIn c promptId s') → OnlyIn c promptId s₀ →
    OnlyIn c promptId (leftBy s₀ as)

/-- Nothing was published, the log was left alone and no other chat got the prompt. -/
structure Silent (c promptId : Uuid) (s s' : AppState) : Prop where
  bus : s'.bus = s.bus
  log : LogKept c promptId s s'
  only : OnlyIn c promptId s → OnlyIn c promptId s'

/-- More actions that show no more of the provider and the token. -/
structure SameCourse (as as' : List TurnAction) : Prop where
  grown : as <+: as'
  heard : heard as' = heard as
  joined : as'.filterMap joinedBy = as.filterMap joinedBy
  installed : as'.filterMap installedBy = as.filterMap installedBy

section Actions

variable {E : AppState → AppState → Prop} {s₀ s s' : AppState} {c promptId : Uuid}
  {as as' as'' : List TurnAction} {a : TurnAction} {events closing : List AgentEvent}
  {ev : AgentEvent} {e : Option (Site × Choice)}

theorem SameCourse.refl (as : List TurnAction) : SameCourse as as :=
  ⟨List.prefix_rfl, rfl, rfl, rfl⟩

theorem SameCourse.trans (h : SameCourse as as') (h' : SameCourse as' as'') : SameCourse as as'' :=
  ⟨h.grown.trans h'.grown, h'.heard.trans h.heard, h'.joined.trans h.joined,
    h'.installed.trans h.installed⟩

/-- An action at none of the provider's awaits. -/
theorem SameCourse.concat (as : List TurnAction)
    (hl : ∀ x w, e = some (x, w) → x.call ≠ .turn .recv ∧ x.call ≠ .turn .join ∧
      x.call ≠ .turn .installToken) : SameCourse as (as ++ [⟨e, s, s'⟩]) := by
  have hheard : heardBy ⟨e, s, s'⟩ = none := by
    unfold heardBy
    split
    · exact absurd rfl (hl _ _ ‹_›).1
    · rfl
  have hjoined : joinedBy ⟨e, s, s'⟩ = none := by
    unfold joinedBy
    split
    · exact absurd rfl (hl _ _ ‹_›).2.1
    · rfl
  have hinstalled : installedBy ⟨e, s, s'⟩ = none := by
    unfold installedBy
    split
    · exact absurd rfl (hl _ _ ‹_›).2.2
    · rfl
  exact ⟨List.prefix_append as _, by simp [AgentGrove.heard, hheard], by simp [hjoined],
    by simp [hinstalled]⟩

theorem SameCourse.untraced (as : List TurnAction) (hl : ∀ x w, e = some (x, w) → x.call.traced = false) :
    SameCourse as (as ++ [⟨e, s, s'⟩]) := by
  refine .concat as fun x w he => ?_
  have hx := hl x w he
  refine ⟨?_, ?_, ?_⟩ <;> intro hc <;> rw [hc] at hx <;> cases hx

theorem published_concat : published c promptId (as ++ [a]) =
    published c promptId as ++ eventsIn c promptId (a.after.bus.drop a.before.bus.length) := by
  simp [published]

theorem published_same (hb : a.after.bus = a.before.bus) :
    published c promptId (as ++ [a]) = published c promptId as := by
  simp [published_concat, hb, eventsIn]

theorem actionsAt_concat (call : TurnCall) : actionsAt call (as ++ [⟨e, s, s'⟩]) =
    actionsAt call as ++
      if e.any (fun l => l.1.call == .turn call) then [⟨e, s, s'⟩] else [] := by
  simp only [actionsAt, List.filter_append, List.filter_cons, List.filter_nil]

theorem actionsAt_other {call : TurnCall} (hl : ∀ x w, e = some (x, w) → x.call ≠ .turn call) :
    actionsAt call (as ++ [⟨e, s, s'⟩]) = actionsAt call as := by
  rw [actionsAt_concat, if_neg, List.append_nil]
  cases e with
  | none => simp
  | some l => simpa using hl l.1 l.2 rfl

theorem Spoken.start (E : AppState → AppState → Prop) (s₀ : AppState) (c promptId : Uuid) :
    Spoken E s₀ c promptId [] [] [] := by
  refine ⟨⟨rfl, .nil, .nil⟩, by simp, fun _ => ?_, fun _ h => h⟩
  simp

/-- An action at neither append, which publishes nothing and keeps the log. -/
theorem Spoken.other (h : Spoken E s₀ c promptId as events closing) (hE : E (leftBy s₀ as) s)
    (hl : ∀ x w, e = some (x, w) → x.call ≠ .turn .append ∧ x.call ≠ .turn .conclude)
    (ha : Silent c promptId s s') : Spoken E s₀ c promptId (as ++ [⟨e, s, s'⟩]) events closing := by
  refine ⟨⟨?_, ?_, ?_⟩, h.solid, fun hkept => ?_, fun honly hstart => ?_⟩
  · exact (published_same ha.bus).trans h.frames
  · rw [actionsAt_other fun x w he => (hl x w he).1]
    exact h.appended
  · rw [actionsAt_other fun x w he => (hl x w he).2]
    exact h.concluded
  · rw [leftBy_concat, ha.log, hkept _ _ hE]
    exact h.log hkept
  · rw [leftBy_concat]
    exact ha.only (honly _ _ hE (h.only honly hstart))

theorem Spoken.silent (h : Spoken E s₀ c promptId as events closing) (hE : E (leftBy s₀ as) s)
    (hl : ∀ x w, e = some (x, w) → x.call.traced = false) (ha : Silent c promptId s s') :
    Spoken E s₀ c promptId (as ++ [⟨e, s, s'⟩]) events closing := by
  refine h.other hE (fun x w he => ?_) ha
  have hx := hl x w he
  constructor <;> intro hc <;> rw [hc] at hx <;> cases hx

theorem Silent.refl (s : AppState) : Silent c promptId s s := ⟨rfl, rfl, id⟩

theorem Silent.still (hb : s'.bus = s.bus) (hchats : s'.chats = s.chats) : Silent c promptId s s' :=
  ⟨hb, by simp [LogKept, promptLog, hchats], fun h d chat hd => h d chat (hchats ▸ hd)⟩

/-- Changing a cached chat without giving a prompt a new id. -/
theorem OnlyIn.chatMut (h : OnlyIn c promptId s) (d : Uuid) (f : ChatRecord → ChatRecord)
    (hf : ∀ chat, (f chat).prompts.map PromptRecord.id = chat.prompts.map PromptRecord.id) :
    OnlyIn c promptId { s with chats := s.chats.chatMut d f } := by
  intro e chat he hne p hp
  rw [ChatRegistry.get_chatMut] at he
  split at he
  · subst_vars
    obtain ⟨old, hold, rfl⟩ := Option.map_eq_some_iff.mp he
    have hid : p.id ∈ old.prompts.map PromptRecord.id := by
      rw [← hf]
      exact List.mem_map_of_mem hp
    obtain ⟨q, hq, hqid⟩ := List.mem_map.mp hid
    rw [← hqid]
    exact h _ old hold hne q hq
  · exact h e chat he hne p hp

/-- Changing a cached chat's columns. -/
theorem Silent.chatMut (s : AppState) (d : Uuid) (f : ChatRecord → ChatRecord)
    (hf : ∀ chat, (f chat).prompts = chat.prompts) :
    Silent c promptId s { s with chats := s.chats.chatMut d f } := by
  refine ⟨rfl, ?_, fun h => h.chatMut d f fun chat => by rw [hf]⟩
  simp only [LogKept, promptLog, ChatRegistry.get_chatMut]
  split
  · subst_vars
    cases s.chats.get d with
    | none => rfl
    | some chat => simp [hf]
  · rfl

theorem find_updatePrompt (prompts : List PromptRecord) (promptId : Uuid)
    (f : PromptRecord → PromptRecord) (hf : ∀ p, (f p).id = p.id) :
    (ChatRegistry.updatePrompt prompts promptId f).find? (fun p => p.id = promptId) =
      (prompts.find? (fun p => p.id = promptId)).map f := by
  induction prompts with
  | nil => rfl
  | cons p ps ih =>
    simp only [ChatRegistry.updatePrompt]
    by_cases h : p.id = promptId
    · simp [h, hf]
    · simp [h, ih]

theorem promptLog_appendEvent (s : AppState) (c promptId : Uuid) (ev : AgentEvent) :
    promptLog c promptId { s with chats := s.chats.appendEvent c promptId ev } =
      (promptLog c promptId s).map (fun log => ChatRegistry.pushEvent log ev) := by
  simp only [promptLog, ChatRegistry.appendEvent, ChatRegistry.get_chatMut]
  cases s.chats.get c with
  | none => rfl
  | some chat =>
    simp only [↓reduceIte, Option.map_some, Option.bind_some]
    rw [find_updatePrompt]
    · simp [Function.comp_def]
    · exact fun _ => rfl

theorem ids_updatePrompt (prompts : List PromptRecord) (promptId : Uuid)
    (f : PromptRecord → PromptRecord) (hf : ∀ p, (f p).id = p.id) :
    (ChatRegistry.updatePrompt prompts promptId f).map PromptRecord.id =
      prompts.map PromptRecord.id := by
  induction prompts with
  | nil => rfl
  | cons p ps ih =>
    simp only [ChatRegistry.updatePrompt]
    split
    · simp only [List.map_cons, hf]
    · simp only [List.map_cons, ih]

theorem OnlyIn.appendEvent (h : OnlyIn c promptId s) (d id : Uuid) (ev : AgentEvent) :
    OnlyIn c promptId { s with chats := s.chats.appendEvent d id ev } :=
  h.chatMut d _ fun _ => ids_updatePrompt _ _ _ fun _ => rfl

/-- The two actions of `emit`: a frame is published and its event appended. -/
def emission (x : Site) (w : Choice) (c promptId : Uuid) (ev : AgentEvent) (s s₁ : AppState) :
    List TurnAction :=
  [⟨none, s, { s with bus := s.bus ++ [(.chat c, .event promptId ev)] }⟩,
    ⟨some (x, w), s₁, { s₁ with chats := s₁.chats.appendEvent c promptId ev }⟩]

theorem published_emission (as : List TurnAction) (x : Site) (w : Choice) (ev : AgentEvent) (s s₁ : AppState) :
    published c promptId (as ++ emission x w c promptId ev s s₁) = published c promptId as ++ [ev] := by
  simp [published, emission, eventsIn]

theorem leftBy_emission (as : List TurnAction) (x : Site) (w : Choice) (ev : AgentEvent) (s s₁ : AppState) :
    leftBy s₀ (as ++ emission x w c promptId ev s s₁) =
      { s₁ with chats := s₁.chats.appendEvent c promptId ev } := by
  simp [leftBy, emission]

theorem log_emission (hE : ∀ s s', E s s' → LogKept c promptId s s') (x : Site) (w : Choice) {s₁ : AppState}
    (hs : E (leftBy s₀ as) s) (hs₁ : E { s with bus := s.bus ++ [(.chat c, .event promptId ev)] } s₁) :
    promptLog c promptId (leftBy s₀ (as ++ emission x w c promptId ev s s₁)) =
      (promptLog c promptId (leftBy s₀ as)).map (fun log => ChatRegistry.pushEvent log ev) := by
  rw [leftBy_emission, promptLog_appendEvent, hE _ _ hs₁, ← hE _ _ hs]
  rfl

theorem only_emission (h : Spoken E s₀ c promptId as events closing) (x : Site) (w : Choice)
    {s₁ : AppState} (hs : E (leftBy s₀ as) s)
    (hs₁ : E { s with bus := s.bus ++ [(.chat c, .event promptId ev)] } s₁)
    (honly : ∀ s s', E s s' → OnlyIn c promptId s → OnlyIn c promptId s')
    (hstart : OnlyIn c promptId s₀) :
    OnlyIn c promptId (leftBy s₀ (as ++ emission x w c promptId ev s s₁)) := by
  rw [leftBy_emission]
  have hnow : OnlyIn c promptId s := honly _ _ hs (h.only honly hstart)
  exact (honly _ _ hs₁ hnow).appendEvent c promptId ev

theorem Spoken.emit (h : Spoken E s₀ c promptId as events []) {fn : Fn} {w : Choice} {s₁ : AppState}
    (hev : glue ev [] = [ev])
    (hs : E (leftBy s₀ as) s) (hs₁ : E { s with bus := s.bus ++ [(.chat c, .event promptId ev)] } s₁) :
    Spoken E s₀ c promptId (as ++ emission ⟨fn, c, .turn .append⟩ w c promptId ev s s₁)
      (events ++ [ev]) [] := by
  refine ⟨⟨?_, ?_, ?_⟩, fun ev' hev' => ?_, fun hkept => ?_, only_emission h _ w hs hs₁⟩
  · rw [published_emission, h.frames]
    simp
  · have hat : actionsAt .append (as ++ emission ⟨fn, c, .turn .append⟩ w c promptId ev s s₁) =
        actionsAt .append as ++ (emission ⟨fn, c, .turn .append⟩ w c promptId ev s s₁).tail := by
      simp [actionsAt, emission]
    rw [hat]
    exact List.rel_append h.appended (by simp [emission, Appends])
  · have hat : actionsAt .conclude (as ++ emission ⟨fn, c, .turn .append⟩ w c promptId ev s s₁) =
        actionsAt .conclude as := by
      simp [actionsAt, emission]
    rw [hat]
    exact h.concluded
  · rcases List.mem_append.mp hev' with hev' | hev'
    · exact h.solid ev' hev'
    · rw [List.mem_singleton.mp hev']
      exact hev
  · rw [log_emission hkept _ _ hs hs₁, h.log hkept]
    simp [Function.comp_def]

theorem Spoken.conclude (h : Spoken E s₀ c promptId as events closing) {fn : Fn} {w : Choice} {s₁ : AppState}
    (hs : E (leftBy s₀ as) s) (hs₁ : E { s with bus := s.bus ++ [(.chat c, .event promptId ev)] } s₁) :
    Spoken E s₀ c promptId (as ++ emission ⟨fn, c, .turn .conclude⟩ w c promptId ev s s₁)
      events (closing ++ [ev]) := by
  refine ⟨⟨?_, ?_, ?_⟩, h.solid, fun hkept => ?_, only_emission h _ w hs hs₁⟩
  · rw [published_emission, h.frames]
    simp
  · have hat : actionsAt .append (as ++ emission ⟨fn, c, .turn .conclude⟩ w c promptId ev s s₁) =
        actionsAt .append as := by
      simp [actionsAt, emission]
    rw [hat]
    exact h.appended
  · have hat : actionsAt .conclude (as ++ emission ⟨fn, c, .turn .conclude⟩ w c promptId ev s s₁) =
        actionsAt .conclude as ++ (emission ⟨fn, c, .turn .conclude⟩ w c promptId ev s s₁).tail := by
      simp [actionsAt, emission]
    rw [hat]
    exact List.rel_append h.concluded (by simp [emission, Appends])
  · rw [log_emission hkept _ _ hs hs₁, h.log hkept]
    simp [Function.comp_def]

theorem emission_course (as : List TurnAction) {x : Site} (w : Choice) (ev : AgentEvent) (s s₁ : AppState)
    (hx : x.call ≠ .turn .recv ∧ x.call ≠ .turn .join ∧ x.call ≠ .turn .installToken) :
    SameCourse as (as ++ emission x w c promptId ev s s₁) := by
  have hpub : SameCourse as (as ++ [⟨none, s, { s with bus := s.bus ++ [(.chat c, .event promptId ev)] }⟩]) :=
    .concat as (by simp)
  have happ : SameCourse (as ++ [⟨none, s, { s with bus := s.bus ++ [(.chat c, .event promptId ev)] }⟩])
      (as ++ [⟨none, s, { s with bus := s.bus ++ [(.chat c, .event promptId ev)] }⟩] ++
        [⟨some (x, w), s₁, { s₁ with chats := s₁.chats.appendEvent c promptId ev }⟩]) :=
    .concat _ (by rintro _ _ ⟨⟩; exact hx)
  rw [List.append_assoc] at happ
  exact hpub.trans happ

end Actions

end AgentGrove
