import AgentGrove.Turns.Endings
import AgentGrove.Turns.OwnPrompt
import Mathlib.Data.List.Induction

namespace AgentGrove

open Coop

def AgentEvent.isError : AgentEvent → Bool
  | .error _ => true
  | _ => false

/-- An error that says that the session is gone. -/
def asksFresh (provider : Text) : AgentEvent → Bool
  | .error message => isRecoverableSessionError provider message
  | _ => false

/-- The error that the end of the provider's task adds if nobody stopped it. -/
def lastWords (joined : Joined) : Option AgentEvent := concluding false true joined

/-- If an error of the turn asks for a fresh session, so does the last one of the stream. -/
def LastAsks (provider : Text) (events : List AgentEvent) (joined : Joined) : Prop :=
  (events ++ (lastWords joined).toList).any (asksFresh provider) = true →
    (events.filter AgentEvent.isError).getLast?.any (asksFresh provider) = true

/-- These actions stop at this await. -/
def visits (call : Call) (as : List TurnAction) : Bool := as.any (stopsAt call)

/-- The retry found no prompt of the chat any more. -/
def foundNone (c : Uuid) (as : List TurnAction) : Prop :=
  ∃ a ∈ as, stopsAt .retryPrompt a = true ∧
    (a.before.chats.get c).bind (fun chat => chat.prompts.getLast?) = none

/-- A turn with a session and what `spawn_dispatch_task` did behind it: an error that asked for
a fresh session was reported, the session cleared, and the message sent once more with the
history; and nothing of it was done for a turn without such an error. -/
structure Recovered (c : Uuid) (chat : ChatRecord) (promptId : Uuid) (provider body : Text)
    (stale : Bool) (turn retry : List TurnAction) : Prop where
  reported : stale = true ↔ (published c promptId turn).any (asksFresh provider) = true
  cleared : visits .updateChat retry = true ↔
    (published c promptId turn).any (asksFresh provider) = true
  retried : (published c promptId turn).any (asksFresh provider) = true →
    (made retry).map ProviderCall.text = [retryBody chat body] ∨ foundNone c retry
  spared : (published c promptId turn).any (asksFresh provider) = false → made retry = []

section Stale

variable {provider : Text} {events events' : List AgentEvent} {ev : AgentEvent} {joined : Joined}

theorem staleAfter_concat : staleAfter provider (events ++ [ev]) =
    if ev.isError then asksFresh provider ev else staleAfter provider events := by
  unfold staleAfter
  rw [List.foldl_concat]
  cases ev <;> rfl

/-- The flag is what the last error of the stream asked for. -/
theorem staleAfter_last (events : List AgentEvent) : staleAfter provider events =
    (events.filter AgentEvent.isError).getLast?.any (asksFresh provider) := by
  induction events using List.reverseRecOn with
  | nil => rfl
  | append_singleton events ev ih =>
    rw [staleAfter_concat, List.filter_append]
    cases hev : ev.isError with
    | true => simp [hev]
    | false => simpa [hev] using ih

theorem any_of_last (h : (events.filter AgentEvent.isError).getLast?.any (asksFresh provider) = true) :
    events.any (asksFresh provider) = true := by
  rw [Option.any_eq_true] at h
  obtain ⟨ev, hev, hasks⟩ := h
  exact List.any_eq_true.mpr ⟨ev, (List.mem_filter.mp (List.mem_of_getLast? hev)).1, hasks⟩

theorem any_glue (ev : AgentEvent) (events : List AgentEvent) :
    (glue ev events).any (asksFresh provider) = (ev :: events).any (asksFresh provider) := by
  unfold glue
  split <;> simp [asksFresh]

/-- Joining deltas loses no error. -/
theorem any_merge (events : List AgentEvent) :
    (merge events).any (asksFresh provider) = events.any (asksFresh provider) := by
  induction events with
  | nil => rfl
  | cons ev events ih =>
    have hmerge : merge (ev :: events) = glue ev (merge events) := rfl
    rw [hmerge, any_glue, List.any_cons, ih, List.any_cons]

/-- Being stopped by the user asks for nothing. -/
theorem asksFresh_cancelled : asksFresh provider (.error cancelledByUser) = false := by
  have hgone : containsText (toAsciiLowercase cancelledByUser) "session not found".toList = false := by
    decide
  have hodd : containsText (toAsciiLowercase cancelledByUser) "unexpected error".toList = false := by
    decide
  show isRecoverableSessionError provider cancelledByUser = false
  unfold isRecoverableSessionError
  dsimp only
  rw [hgone, hodd, Bool.and_false, Bool.false_or]

theorem any_concluding (wasCancelled sawTerminal : Bool) (joined : Joined) :
    (concluding wasCancelled sawTerminal joined).toList.any (asksFresh provider) =
      (lastWords joined).toList.any (asksFresh provider) := by
  cases joined with
  | failed | panicked => rfl
  | completed | dropped =>
    cases wasCancelled with
    | true => simp [concluding, lastWords, asksFresh_cancelled]
    | false => cases sawTerminal <;> rfl

end Stale

section Retry

variable {E : AppState → AppState → Prop} {s s' : AppState} {as as' turn retry : List TurnAction}
  {fn : Fn} {c : Uuid} {chat : ChatRecord} {prompt : PromptRecord} {provider body cwd : Text}

theorem visits_append (call : Call) (as as' : List TurnAction) :
    visits call (as ++ as') = (visits call as || visits call as') :=
  List.any_append

/-- Clearing the session takes the update of its row. -/
theorem clearProviderSession_visits (h : (clearProviderSession fn c).Traces E s as (.ret ()) s') :
    visits .updateChat as = true := by
  obtain ⟨updated, as₁, as₂, s₁, rfl, h, -⟩ := h.of_bind_ret
  obtain ⟨changes, as₃, as₄, s₂, rfl, h₃, h⟩ := h.of_bind_ret
  have hupdate : visits .updateChat as₄ = true := by
    have hunchanged : changes = false := by
      obtain ⟨-, he⟩ := h₃.of_ret
      cases he
      rfl
    subst hunchanged
    obtain ⟨row, as₅, as₆, s₃, rfl, h₅, -⟩ := h.of_bind_ret
    obtain ⟨w, s₄, rfl, -⟩ := access_returns h₅
    rfl
  rw [visits_append, visits_append, hupdate]
  simp

theorem retryPrompt_none (h : s.chats.retryPrompt c = none) :
    (s.chats.get c).bind (fun chat => chat.prompts.getLast?) = none := by
  unfold ChatRegistry.retryPrompt at h
  split at h
  · next hget => rw [hget, Option.bind_none]
  · next chat hget =>
    split at h
    · next hlast => rw [hget, Option.bind_some, hlast]
    · cases h

/-- A retry clears the session and sends the message again, if the chat still has one. -/
theorem retryStale_does
    (h : (retryStale fn c chat prompt provider body cwd).Traces E s as (.ret ()) s') :
    visits .updateChat as = true ∧
      ((made as).map ProviderCall.text = [retryBody chat body] ∨ foundNone c as) := by
  have F := callsFrame fn c
  obtain ⟨_, as₁, as₂, s₁, rfl, hclear, h⟩ := h.of_bind_ret
  have hcleared : visits .updateChat (as₁ ++ as₂) = true := by
    rw [visits_append, clearProviderSession_visits hclear, Bool.true_or]
  refine ⟨hcleared, ?_⟩
  rw [made_append, Uncalling.nothing F.clearProviderSession hclear, List.nil_append]
  obtain ⟨_, as₃, as₄, s₂, rfl, hpub, h⟩ := h.of_bind_ret
  rw [made_append, Uncalling.nothing (atOnce_within fun s => F.publish s _) hpub, List.nil_append]
  obtain ⟨found, as₅, as₆, s₃, rfl, hfind, h⟩ := h.of_bind_ret
  rw [made_append, Uncalling.nothing retryPrompt_uncalling hfind, List.nil_append]
  obtain ⟨w, s₄, rfl, rfl⟩ := access_returns hfind
  cases hlast : s₄.chats.retryPrompt c with
  | none =>
    have hlook := List.mem_append_left as₆ (List.mem_singleton_self
      (⟨some (⟨fn, c, .retryPrompt⟩, w), s₄, s₄⟩ : TurnAction))
    exact .inr ⟨_, List.mem_append_right _ (List.mem_append_right _ hlook), rfl, retryPrompt_none hlast⟩
  | some out =>
    simp only [hlast] at h
    obtain ⟨_, as₇, as₈, s₅, rfl, hpersist, h⟩ := h.of_bind_ret
    rw [made_append, Uncalling.nothing (F.persistPromptEvents trivial rfl rfl) hpersist,
      List.nil_append]
    obtain ⟨stale, as₉, as₁₀, s₆, rfl, hturn, h⟩ := h.of_bind_ret
    obtain ⟨rfl, -⟩ := h.of_ret
    rcases dispatchViaProvider_made hturn with ⟨-, hret⟩ | ⟨auto, hmade⟩
    · cases hret
    · exact .inl (by rw [List.append_nil, hmade]; rfl)

/-- What a turn sends asks for a fresh session if the stream or the end of the task does. -/
theorem any_published {stale : Bool} {events : List AgentEvent} {joined : Joined}
    (h : Ends E s c prompt.id provider stale as events joined) :
    (published c prompt.id as).any (asksFresh provider) =
      (heard as ++ (lastWords joined).toList).any (asksFresh provider) := by
  rw [h.sent.frames, List.any_append, List.any_append, any_concluding, ← any_merge events, h.text,
    any_merge]

/-- Behind the turn everything goes by the flag. -/
theorem recovered_iff {stale : Bool} (hsession : chat.sessionId.isSome = true)
    (h : (retryIfStale fn c chat prompt provider body cwd stale).Traces E s retry (.ret ()) s') :
    Recovered c chat prompt.id provider body stale turn retry ↔
      (stale = true ↔ (published c prompt.id turn).any (asksFresh provider) = true) := by
  refine ⟨fun hr => hr.reported, fun hstale => ?_⟩
  unfold retryIfStale at h
  rw [hsession, Bool.and_true] at h
  cases stale with
  | true =>
    obtain ⟨hvisits, hmade⟩ := retryStale_does h
    have hany := hstale.mp rfl
    exact ⟨by simp [hany], by simp [hvisits, hany], fun _ => hmade, by simp [hany]⟩
  | false =>
    obtain ⟨rfl, -⟩ := h.of_ret
    have hany : ¬ (published c prompt.id turn).any (asksFresh provider) = true := by
      intro hany
      exact absurd (hstale.mpr hany) Bool.false_ne_true
    exact ⟨by simp [hany], by simp [hany, visits], fun h => absurd h hany, fun _ => rfl⟩

end Retry

/-- A turn with a session is tried again exactly if an error of it asked for a fresh session:
in just those turns in which the last error of the stream asks for one if any error does. -/
theorem stale_turn_recovers {fn : Fn} {c : Uuid} {chat : ChatRecord} {prompt : PromptRecord}
    {provider body cwd : Text} {s s' : AppState} {as : List TurnAction}
    (hsession : chat.sessionId.isSome = true)
    (h : (firstTurn fn c chat prompt body cwd (some provider)).Traces (fun _ _ => True) s as
      (.ret ()) s') :
    ∃ stale turn retry s₁ joined, as = turn ++ retry ∧
      (dispatchViaProvider fn c prompt provider body chat.model chat.sessionId chat.effort cwd).Traces
        (fun _ _ => True) s turn (.ret stale) s₁ ∧
      turn.filterMap joinedBy = [joined] ∧
      (Recovered c chat prompt.id provider body stale turn retry ↔
        LastAsks provider (heard turn) joined) := by
  obtain ⟨stale, turn, retry, s₁, rfl, hturn, hretry⟩ := h.of_bind_ret
  have hf : (Protocol.recorder (fun _ _ => True) s (fun _ _ => True)).Follows (.dispatch c)
      (dispatchViaProvider fn c prompt provider body chat.model chat.sessionId chat.effort cwd) []
      (fun stale as => ∃ events joined,
        Ends (fun _ _ => True) s c prompt.id provider stale as events joined) :=
    dispatchViaProvider_sends (fun _ _ _ => trivial) provider body _ _ _ cwd
  obtain ⟨events, joined, he⟩ := Protocol.Follows.returned (fun _ _ _ _ _ => trivial)
    (fun _ => trivial) hf hturn
  refine ⟨stale, turn, retry, s₁, joined, rfl, hturn, he.joined, ?_⟩
  rw [recovered_iff hsession hretry, any_published he, he.stale, staleAfter_last]
  refine ⟨fun hiff => hiff.mpr, fun hlast => ⟨fun hstale => ?_, hlast⟩⟩
  rw [List.any_append, any_of_last hstale, Bool.true_or]

/-- The message of `sessionChat` on its way to a provider that goes by its session. -/
def firstOfSession : Async Unit :=
  firstTurn .dispatchTask 1 sessionChat (promptOfRow (ChatRepo.newPrompt 2 0 1 1 ['a'])) ['a'] ['/']
    (some ['p'])

theorem stale_turn_recovers_once : ∃ as stale turn retry joined, as = turn ++ retry ∧
    (made as).map ProviderCall.resumeSessionId = [some ['s'], none] ∧
    turn.filterMap joinedBy = [joined] ∧
    (Recovered 1 sessionChat 2 ['p'] ['a'] stale turn retry ↔ LastAsks ['p'] (heard turn) joined) := by
  have hrun : (firstOfSession.alone (forgotten.tail ++ secondTry) (serve oneMessage 10 [['p']])).map
      (fun out => ((made out.1).map ProviderCall.resumeSessionId, out.2.1.returned)) =
        some ([some ['s'], none], some ()) := by decide
  obtain ⟨⟨as, q, s'⟩, hout, he⟩ := Option.map_eq_some_iff.mp hrun
  simp only [Prod.mk.injEq] at he
  have ht := Prog.traces_alone (fun _ _ => True) hout
  have hq := Prog.eq_ret_of_returned he.2
  dsimp only at ht hq
  rw [hq] at ht
  obtain ⟨stale, turn, retry, s₁, joined, has, -, hjoined, hiff⟩ := stale_turn_recovers rfl ht
  exact ⟨as, stale, turn, retry, joined, has, he.1, hjoined, hiff⟩

/-- The provider has forgotten the session and says so, and then with what status it exits. -/
def forgottenExit : List Choice :=
  [{}, {}, {}, { recv := .event (.error "session not found".toList) }, {}, {},
    { recv := .event (.error "exited with status 1".toList) }, {}, {}, { recv := .closed },
    {}, {}, {}, {}]

/-- The second error hides the first. -/
theorem exit_error_hides_stale_session : ¬ ∀ as stale s',
    (dispatchViaProvider .dispatchTask 1 (promptOfRow (ChatRepo.newPrompt 2 0 1 1 ['a'])) ['p'] ['a']
        ['m'] (some ['s']) none ['/']).Traces (fun _ _ => True) (serve oneMessage 10 [['p']]) as
          (.ret stale) s' →
      (stale = true ↔ (published 1 2 as).any (asksFresh ['p']) = true) := by
  intro hclaim
  have hrun : ((dispatchViaProvider .dispatchTask 1 (promptOfRow (ChatRepo.newPrompt 2 0 1 1 ['a']))
      ['p'] ['a'] ['m'] (some ['s']) none ['/']).alone forgottenExit (serve oneMessage 10 [['p']])).map
      (fun out => (out.2.1.returned, (published 1 2 out.1).any (asksFresh ['p']))) =
        some (some false, true) := by decide
  obtain ⟨⟨as, q, s'⟩, hout, he⟩ := Option.map_eq_some_iff.mp hrun
  simp only [Prod.mk.injEq] at he
  have ht := Prog.traces_alone (fun _ _ => True) hout
  have hq := Prog.eq_ret_of_returned he.1
  dsimp only at ht hq
  rw [hq] at ht
  exact absurd ((hclaim as false s' ht).mpr he.2) Bool.false_ne_true

end AgentGrove
