import AgentGrove.Proofs.TurnFrame
import AgentGrove.Turns.Deltas
import AgentGrove.Turns.Paths

namespace AgentGrove

open Coop

/-- The provider calls that these actions record. -/
def made (as : List TurnAction) : List ProviderCall :=
  as.flatMap (fun a => a.after.calls.drop a.before.calls.length)

/-- The action is taken at this await. -/
def stopsAt (call : Call) (a : TurnAction) : Bool := a.label.any (fun l => l.1.call == call)

/-- Code that calls no provider. -/
abbrev Uncalling {α : Type} (p : Async α) : Prop :=
  p.Within (fun _ => True) (fun _ s s' => s'.calls = s.calls)

/-- Every call on the way meets `P`. -/
def CallsOnly (P : ProviderCall → Prop) {α : Type} (p : Async α) : Prop :=
  ∀ E s as q s', p.Traces E s as q s' → ∀ call ∈ made as, P call

section Access

variable {E : AppState → AppState → Prop} {s s' : AppState} {as : List TurnAction} {fn : Fn}
  {c : Uuid} {call : Call} {β : Type}

theorem access_traces {act : Choice → AppState → AppState × β} {q : Async β}
    (h : (access fn c call act).Traces E s as q s') :
    (as = [] ∧ q = access fn c call act) ∨
      ∃ w s₁, as = [⟨some (⟨fn, c, call⟩, w), s₁, (act w s₁).1⟩] ∧ q = .ret (act w s₁).2 := by
  rcases h.of_await with ⟨rfl, rfl⟩ | ⟨w, s₁, s₂, a, ha, rfl, rfl⟩
  · exact .inl ⟨rfl, rfl⟩
  · have he : act w s₁ = (s₂, a) := Option.some.inj ha
    exact .inr ⟨w, s₁, by rw [he], by rw [he]⟩

theorem access_returns {act : Choice → AppState → AppState × β} {b : β}
    (h : (access fn c call act).Traces E s as (.ret b) s') :
    ∃ w s₁, as = [⟨some (⟨fn, c, call⟩, w), s₁, (act w s₁).1⟩] ∧ b = (act w s₁).2 := by
  rcases access_traces h with ⟨-, hq⟩ | ⟨w, s₁, has, hq⟩
  · cases hq
  · cases hq
    exact ⟨w, s₁, has, rfl⟩

end Access

section Calls

variable {E : AppState → AppState → Prop} {P : ProviderCall → Prop} {s s' : AppState}
  {as as' : List TurnAction} {fn : Fn} {c : Uuid} {α β : Type} {p q : Async α} {f : α → Async β}

@[simp] theorem made_nil : made [] = [] := rfl

@[simp] theorem made_append (as as' : List TurnAction) : made (as ++ as') = made as ++ made as' :=
  List.flatMap_append

theorem Uncalling.nothing (hp : Uncalling p) (h : p.Traces E s as q s') : made as = [] := by
  rw [made, List.flatMap_eq_nil_iff]
  intro a ha
  rw [(h.within hp a ha).2, List.drop_length]

/-- A turn's pieces but for the call itself. -/
theorem callsFrame (fn : Fn) (c : Uuid) : SessionFrame (fun _ => True)
    (fun _ s s' => s'.calls = s.calls) (fun _ => True) (fun _ => True) fn c where
  sites _ _ := trivial
  same _ _ := rfl
  publish _ _ := rfl
  tokens _ _ _ _ _ := rfl
  append _ _ _ _ _ _ := rfl
  events _ _ _ _ _ _ := rfl
  row _ _ _ _ := rfl
  cache _ _ _ _ := rfl

theorem CallsOnly.ret (a : α) : CallsOnly P (.ret a : Async α) := by
  intro E s as q s' h
  obtain ⟨rfl, -⟩ := h.of_ret
  simp

theorem CallsOnly.uncalling (hp : Uncalling p) : CallsOnly P p := by
  intro E s as q s' h
  rw [hp.nothing h]
  simp

theorem CallsOnly.bind (hp : CallsOnly P p) (hf : ∀ a, CallsOnly P (f a)) : CallsOnly P (p.bind f) := by
  intro E s as q s' h
  rcases h.of_bind with ⟨p', h, -⟩ | ⟨a, as₁, as₂, s₁, rfl, h₁, h₂⟩
  · exact hp E s as p' s' h
  · rw [made_append, List.forall_mem_append]
    exact ⟨hp _ _ _ _ _ h₁, hf a _ _ _ _ _ h₂⟩

/-- Behind code that calls nobody: not there yet, or the calls are those of the rest. -/
theorem Uncalling.leads (hp : Uncalling p) {q : Async β} (h : (p.bind f).Traces E s as q s') :
    made as = [] ∧ q.returned = none ∨ ∃ a as₁ as₂ s₁, as = as₁ ++ as₂ ∧ made as = made as₂ ∧
      p.Traces E s as₁ (.ret a) s₁ ∧ (f a).Traces E s₁ as₂ q s' := by
  rcases h.of_bind_left with ⟨p', h, -, hq⟩ | ⟨a, as₁, as₂, s₁, rfl, h₁, h₂⟩
  · exact .inl ⟨hp.nothing h, hq⟩
  · exact .inr ⟨a, as₁, as₂, s₁, rfl, by rw [made_append, hp.nothing h₁, List.nil_append], h₁, h₂⟩

/-- A turn calls its provider once. -/
theorem dispatchViaProvider_made {prompt : PromptRecord} {provider text model : Text}
    {session effort : Option Text} {cwd : Text} {q : Async Bool}
    (h : (dispatchViaProvider fn c prompt provider text model session effort cwd).Traces E s as q s') :
    made as = [] ∧ q.returned = none ∨
      ∃ auto, made as = [⟨c, prompt.id, provider, text, model, session, effort, cwd, auto⟩] := by
  have F := callsFrame fn c
  rcases Uncalling.leads (F.read rfl) h with hnone | ⟨auto, as₁, as₂, s₁, rfl, hmade, -, h⟩
  · exact .inl hnone
  rw [hmade]
  rcases Uncalling.leads (access_within trivial fun _ _ => rfl) h with
    hnone | ⟨token, as₃, as₄, s₂, rfl, hmade, -, h⟩
  · exact .inl hnone
  rw [hmade]
  rcases h.of_bind_left with ⟨p', h, -, hq⟩ | ⟨_, as₅, as₆, s₃, rfl, h₅, h₆⟩
  · rcases h.of_sync with ⟨rfl, -⟩ | ⟨rfl, -⟩
    · exact .inl ⟨rfl, hq⟩
    · exact .inr ⟨auto, by simp [made]⟩
  · rcases h₅.of_sync with ⟨-, hret⟩ | ⟨rfl, -⟩
    · cases hret
    have hrest : made as₆ = [] := by
      refine Uncalling.nothing ?_ h₆
      apply (F.stream trivial provider).bind
      intro st
      apply (F.flushToken trivial _).bind
      intro _
      apply (F.flushThinking trivial _).bind
      intro _
      apply Prog.Within.bind (atOnce_within fun s => rfl)
      intro wasCancelled
      apply (F.join token).bind
      intro joined
      apply (F.conclude trivial _).bind
      intro _
      apply Prog.Within.bind (access_within trivial fun _ _ => rfl)
      intro _
      exact (F.persistPromptEvents trivial rfl rfl).bind fun _ => trivial
    refine .inr ⟨auto, ?_⟩
    rw [made_append, hrest]
    simp [made]

theorem dispatchViaProvider_calls {prompt : PromptRecord} {provider text model : Text}
    {session effort : Option Text} {cwd : Text}
    (hP : ∀ auto, P ⟨c, prompt.id, provider, text, model, session, effort, cwd, auto⟩) :
    CallsOnly P (dispatchViaProvider fn c prompt provider text model session effort cwd) := by
  intro E s as q s' h
  rcases dispatchViaProvider_made h with ⟨hmade, -⟩ | ⟨auto, hmade⟩
  · simp [hmade]
  · simpa [hmade] using hP auto

theorem retryPrompt_uncalling : Uncalling (access fn c .retryPrompt (fun _ s =>
    match s.chats.retryPrompt c with
    | some (p, reg) => ({ s with chats := reg }, some p)
    | none => (s, none))) := by
  apply access_within trivial
  intro w s
  split <;> rfl

/-- A retry calls the provider without a session, and with the history. -/
theorem retryStale_calls {chat : ChatRecord} {prompt : PromptRecord} {provider body cwd : Text}
    (hP : ∀ id auto, P ⟨c, id, provider, retryBody chat body, chat.model, none, chat.effort, cwd, auto⟩) :
    CallsOnly P (retryStale fn c chat prompt provider body cwd) := by
  have F := callsFrame fn c
  refine CallsOnly.bind (.uncalling F.clearProviderSession) fun _ => ?_
  refine CallsOnly.bind (.uncalling (atOnce_within fun s => F.publish s _)) fun _ => ?_
  refine CallsOnly.bind (.uncalling retryPrompt_uncalling) fun found => ?_
  cases found with
  | none => exact .ret _
  | some p =>
    refine CallsOnly.bind (.uncalling (F.persistPromptEvents trivial rfl rfl)) fun _ => ?_
    exact (dispatchViaProvider_calls fun auto => hP _ auto).bind fun _ => .ret _

/-- The calls of a message's own turn: the first one, and that of a retry. -/
theorem firstTurn_calls {chat : ChatRecord} {prompt : PromptRecord} {body cwd : Text}
    {provider : Option Text}
    (hfirst : ∀ provider auto, P ⟨c, prompt.id, provider, body, chat.model, chat.sessionId,
      chat.effort, cwd, auto⟩)
    (hretry : ∀ provider id auto, chat.sessionId.isSome = true →
      P ⟨c, id, provider, retryBody chat body, chat.model, none, chat.effort, cwd, auto⟩) :
    CallsOnly P (firstTurn fn c chat prompt body cwd provider) := by
  cases provider with
  | none => exact .uncalling ((callsFrame fn c).dispatchEcho trivial trivial _)
  | some provider =>
    refine (dispatchViaProvider_calls fun auto => hfirst _ auto).bind fun stale => ?_
    unfold retryIfStale
    split
    · next h => exact retryStale_calls fun id auto => hretry _ id auto (Bool.and_eq_true_iff.mp h).2
    · exact .ret _

end Calls

end AgentGrove
