import AgentGrove.Sessions.Walk
import AgentGrove.Coop.Machine

namespace AgentGrove

open Coop

/-- A server beside a record of what its providers announced: the model of the turn
each task ran last, and every model with a session announced in a turn with it. -/
structure Announcing where
  server : Server
  models : Nat → Option Text
  announced : List (Text × Text)

/-- The task that an event runs. -/
def actor (p : Server) : ServerEvent → Nat
  | .arrive _ => p.threads.length
  | .run i _ => i

/-- The model of the last call past the first `n`, if there is one. -/
def lastModel (n : Nat) (s : AppState) (before : Option Text) : Option Text :=
  ((s.calls.drop n).getLast?.map ProviderCall.model).or before

/-- The sessions a step hears of: a `SessionStart` that its turn's channel yields. -/
def hears (a : Announcing) : ServerEvent → List (Text × Text)
  | .arrive _ => []
  | .run i w =>
    match (a.server.restsAt i).map Site.call, w.recv, a.models i with
    | some (.turn .recv), .event (.sessionStart sid), some model => [(model, sid)]
    | _, _, _ => []

def announcing : Machine Announcing ServerEvent where
  step a e := (a.server.fire entry e).map (fun p => {
    server := p
    models := Function.update a.models (actor a.server e)
      (lastModel a.server.shared.calls.length p.shared (a.models (actor a.server e)))
    announced := a.announced ++ hears a e })

/-- A capture that changes the chat finds it with the model of the turn. -/
def CapturesOwn (model : Option Text) (c : Uuid) (s s' : AppState) : Prop :=
  (s'.chats.get c ≠ s.chats.get c → ∀ chat ∈ s.chats.get c, model = some chat.model) ∧
    (s'.store.chats ≠ s.store.chats → ∀ row ∈ s.store.chats, row.id = c → model = some row.model)

/-- No row has a session beside a model that it was not beside before. -/
def LeavesNone (s s' : AppState) : Prop :=
  ∀ row' ∈ s'.store.chats, row'.sessionId = none ∨
    ∃ row ∈ s.store.chats, row.model = row'.model ∧ row.sessionId = row'.sessionId

/-- A session is captured beside the model of the turn that heard of it, and the
`UPDATE` of a patch that changes the model of a row clears its session. -/
def SameModel (a : Announcing) : ServerEvent → Prop
  | .arrive _ => True
  | .run i w => ∀ x ∈ a.server.restsAt i, ∀ s' ∈ a.server.acts i w,
      (x.call = .turn .session → CapturesOwn (a.models i) x.chat a.server.shared s') ∧
      (x.fn = .patch ∧ x.call = .updateChat → LeavesNone a.server.shared s')

instance (model : Option Text) (c : Uuid) (s s' : AppState) : Decidable (CapturesOwn model c s s') :=
  inferInstanceAs (Decidable (_ ∧ _))

instance (s s' : AppState) : Decidable (LeavesNone s s') :=
  inferInstanceAs (Decidable (∀ row' ∈ s'.store.chats, _))

instance (a : Announcing) (e : ServerEvent) : Decidable (SameModel a e) :=
  match e with
  | .arrive _ => .isTrue trivial
  | .run i w => inferInstanceAs (Decidable (∀ x ∈ a.server.restsAt i, ∀ s' ∈ a.server.acts i w, _))

/-- Every session stands beside a model in a turn of which it was announced, and is
resumed only with that model. -/
structure SessionsOwned (a : Announcing) : Prop where
  cached : ∀ c chat sid, a.server.shared.chats.get c = some chat → chat.sessionId = some sid →
    (chat.model, sid) ∈ a.announced
  stored : ∀ row ∈ a.server.shared.store.chats, ∀ sid, row.sessionId = some sid →
    (row.model, sid) ∈ a.announced
  resumed : ∀ call ∈ a.server.shared.calls, ∀ sid, call.resumeSessionId = some sid →
    (call.model, sid) ∈ a.announced

/-- What holds while the task `i` runs on from a state with `n` provider calls. -/
structure Vouched (models : Nat → Option Text) (i n : Nat) (log : List (Text × Text)) (s : AppState)
    (roles : List Voice) : Prop where
  has : ∀ model sid, Has s model sid → (model, sid) ∈ log
  resumed : ∀ call ∈ s.calls, ∀ sid, call.resumeSessionId = some sid → (call.model, sid) ∈ log
  length : n ≤ s.calls.length
  models : ∀ j, roles[j]?.bind Voice.model =
    if j = i then lastModel n s (models i) else models j
  known : ∀ r ∈ roles, ∀ pair ∈ r.known, pair ∈ log

section Vouched

variable {models : Nat → Option Text} {i n : Nat} {log log' : List (Text × Text)} {s s' : AppState}
  {roles : List Voice} {r r' : Voice}

theorem lastModel_same (hc : s'.calls = s.calls) (before : Option Text) :
    lastModel n s' before = lastModel n s before := by
  unfold lastModel
  rw [hc]

theorem lastModel_none (s : AppState) (before : Option Text) :
    lastModel s.calls.length s before = before := by
  simp [lastModel]

theorem lastModel_call {call : ProviderCall} (hn : n ≤ s.calls.length) (hc : s'.calls = s.calls ++ [call])
    (before : Option Text) : lastModel n s' before = some call.model := by
  unfold lastModel
  rw [hc, List.drop_append_of_le_length hn, List.getLast?_concat]
  rfl

theorem Vouched.weaken (h : Vouched models i n log s roles) (hl : ∀ pair ∈ log, pair ∈ log') :
    Vouched models i n log' s roles :=
  ⟨fun model sid hh => hl _ (h.has model sid hh), fun call hc sid hs => hl _ (h.resumed call hc sid hs),
    h.length, h.models, fun r hr pair hp => hl _ (h.known r hr pair hp)⟩

/-- Setting a role whose model is the same. -/
theorem bind_model_set (hi : roles[i]? = some r) (hm : r'.model = r.model) (j : Nat) :
    (roles.set i r')[j]?.bind Voice.model = roles[j]?.bind Voice.model := by
  rw [List.getElem?_set]
  by_cases hj : i = j
  · subst hj
    obtain ⟨hl, he⟩ := List.getElem?_eq_some_iff.mp hi
    simp [hl, hm, he]
  · rw [if_neg hj]

theorem known_set (h : ∀ r ∈ roles, ∀ pair ∈ r.known, pair ∈ log)
    (hk : ∀ pair ∈ r'.known, pair ∈ log) : ∀ r ∈ roles.set i r', ∀ pair ∈ r.known, pair ∈ log := by
  intro x hx
  rcases List.mem_or_eq_of_mem_set hx with hx | rfl
  · exact h x hx
  · exact hk

/-- An action that starts no turn, given what comes to stand beside a model. -/
theorem Vouched.acts (h : Vouched models i n log s roles) (hi : roles[i]? = some r)
    (hc : s'.calls = s.calls) (hhas : ∀ model sid, Has s' model sid → (model, sid) ∈ log)
    (hm : r'.model = r.model) (hk : ∀ pair ∈ r'.known, pair ∈ log) :
    Vouched models i n log s' (roles.set i r') := by
  refine ⟨hhas, hc ▸ h.resumed, hc ▸ h.length, fun j => ?_, known_set h.known hk⟩
  rw [bind_model_set hi hm, h.models, lastModel_same hc]

theorem Vouched.still (h : Vouched models i n log s roles) (hi : roles[i]? = some r) (hm : Mute s s') :
    Vouched models i n log s' (roles.set i r) :=
  h.acts hi hm.calls (fun model sid hh => h.has model sid (hm.has model sid hh)) rfl
    (h.known r (List.mem_of_getElem? hi))

theorem Vouched.calls (h : Vouched models i n log s roles) (hi : roles[i]? = some r)
    {call : ProviderCall}
    (hk : ∀ sid, call.resumeSessionId = some sid → (call.model, sid) ∈ r.known) :
    Vouched models i n log { s with calls := s.calls ++ [call] }
      (roles.set i { r with model := some call.model }) := by
  have hr := h.known r (List.mem_of_getElem? hi)
  refine ⟨fun model sid hh => h.has model sid ?_, fun called hc sid hs => ?_, ?_, fun j => ?_,
    known_set h.known hr⟩
  · cases hh with
    | cached hc hm hs => exact .cached hc hm hs
    | stored hr hm hs => exact .stored hr hm hs
  · rcases List.mem_append.mp hc with hc | hc
    · exact h.resumed called hc sid hs
    · rw [List.mem_singleton.mp hc] at hs ⊢
      exact hr _ (hk sid hs)
  · exact Nat.le_trans h.length (by simp)
  · by_cases hj : j = i
    · subst hj
      have hl := (List.getElem?_eq_some_iff.mp hi).1
      rw [if_pos rfl, lastModel_call (s := s) h.length rfl]
      simp [hl]
    · rw [if_neg hj, List.getElem?_set_ne (Ne.symm hj), h.models, if_neg hj]

theorem vouched_kept (models : Nat → Option Text) (i n : Nat) (log : List (Text × Text)) :
    voices.KeptBy i (Vouched models i n log) where
  sees _ _ _ _ _ := trivial
  sync s roles r r' s' h hi hm := by
    cases hm with
    | mute hm => exact h.still hi hm
    | call hk => exact h.calls hi hk
  fork s roles r tag rc r' h hi hf := by
    obtain ⟨rfl, rfl⟩ := hf
    have hr := h.known r' (List.mem_of_getElem? hi)
    refine ⟨h.has, h.resumed, h.length, fun j => ?_, fun x hx => ?_⟩
    · rw [← h.models j]
      rcases Nat.lt_trichotomy j roles.length with hj | rfl | hj
      · rw [List.getElem?_append_left (by simpa using hj), bind_model_set hi rfl]
      · simp
      · rw [List.getElem?_eq_none (by simp; omega), List.getElem?_eq_none (by omega)]
    · rcases List.mem_append.mp hx with hx | hx
      · exact known_set h.known hr x hx
      · rw [List.mem_singleton.mp hx]
        exact hr

end Vouched

section Steps

variable {a a' : Announcing} {roles : List Voice} {i : Nat} {w : Choice} {x : Site} {r r' : Voice}
  {s' : AppState}

/-- Between two steps the last turn of every task is known. -/
def Sworn (a : Announcing) (roles : List Voice) : Prop :=
  voices.Coupled a.server roles ∧
    ∀ i, Vouched a.models i a.server.shared.calls.length a.announced a.server.shared roles

theorem Sworn.model (h : Sworn a roles) (hi : roles[i]? = some r) : a.models i = r.model := by
  have hm := (h.2 i).models i
  rw [hi, if_pos rfl, lastModel_none] at hm
  exact hm.symm

theorem Sworn.chat (h : Sworn a roles) (hat : a.server.At i x) (hi : roles[i]? = some r)
    (hf : x.fn ≠ .forkChat) : x.chat = r.chat := by
  obtain ⟨th, hth, hrest⟩ := h.1.thread hi
  have hsite : a.server.threads[i]?.bind Thread.site = some x := hat
  rw [hth] at hsite
  rcases hrest x hsite with hfork | hchat
  · exact absurd hfork hf
  · exact hchat

/-- A captured row is the old one, or has the session beside its own model. -/
theorem has_rowPatched {c : Uuid} {sid : Text} {now : Nat} {s : AppState} {model found : Text}
    (h : Has (rowPatched c (sessionPatch (some sid)) now s) model found) :
    Has s model found ∨ found = sid ∧ ∃ row ∈ s.store.chats, row.id = c ∧ row.model = model := by
  cases h with
  | cached hc hm hs => exact .inl (.cached hc hm hs)
  | stored hr hm hs =>
    obtain ⟨row, hrow, rfl⟩ := List.mem_map.mp hr
    split at hs
    · rename_i hid
      rw [if_pos hid] at hm
      exact .inr ⟨(Option.some.inj hs).symm, row, hrow, hid, hm⟩
    · rename_i hid
      rw [if_neg hid] at hm
      exact .inl (.stored hrow hm hs)

theorem has_cachePatched {c : Uuid} {sid : Text} {s : AppState} {model found : Text}
    (h : Has (cachePatched c (sessionPatch (some sid)) s) model found) :
    Has s model found ∨ found = sid ∧ ∃ chat ∈ s.chats.get c, chat.model = model := by
  cases h with
  | @cached d chat hc hm hs =>
    simp only [cachePatched, ChatRegistry.get_chatMut] at hc
    split at hc
    · obtain ⟨old, hold, rfl⟩ := Option.map_eq_some_iff.mp hc
      exact .inr ⟨(Option.some.inj hs).symm, old, hold, hm⟩
    · exact .inl (.cached hc hm hs)
  | stored hr hm hs => exact .inl (.stored hr hm hs)

theorem get_cachePatched {c : Uuid} {patch : ChatRepo.Patch} {s : AppState} (d : Uuid) :
    (cachePatched c patch s).chats.get d =
      if d = c then (s.chats.get c).map (applyPatch patch) else s.chats.get d := by
  simp only [cachePatched, ChatRegistry.get_chatMut]

/-- What the awaited action of a step leaves. -/
theorem Sworn.acts (h : Sworn a roles) (hg : SameModel a (.run i w)) (hat : a.server.At i x)
    (hacts : a.server.acts i w = some s') (hi : roles[i]? = some r)
    (hm : Says (some (x, w)) r a.server.shared r' s') :
    Vouched a.models i a.server.shared.calls.length (a.announced ++ hears a (.run i w)) s'
      (roles.set i r') := by
  obtain ⟨hcap, hupd⟩ := hg x hat s' hacts
  have hv : Vouched a.models i a.server.shared.calls.length (a.announced ++ hears a (.run i w))
      a.server.shared roles := (h.2 i).weaken fun pair hp => List.mem_append_left _ hp
  have hr := hv.known r (List.mem_of_getElem? hi)
  have hmodel := h.model hi
  cases hm with
  | mute hm => exact hv.still hi hm
  | learn hp =>
    refine hv.acts hi rfl hv.has rfl fun pair hpair => ?_
    rcases List.mem_append.mp hpair with hpair | hpair
    · exact hv.has _ _ (hp pair hpair)
    · exact hr pair hpair
  | @hear _ _ _ _ model sid hx hw hm =>
    refine hv.acts hi rfl hv.has rfl fun pair hpair => ?_
    rcases List.mem_cons.mp hpair with rfl | hpair
    · refine List.mem_append_right _ ?_
      have hsite : a.server.restsAt i = some x := hat
      simp [hears, hsite, hx, hw, hmodel, hm]
    · exact hr pair hpair
  | @captureRow _ _ _ _ model sid now hx hf hm hk =>
    refine hv.acts hi rfl (fun model' found hhas => ?_) rfl hr
    by_cases hsame : (rowPatched r.chat (sessionPatch (some sid)) now a.server.shared).store.chats =
        a.server.shared.store.chats
    · cases hhas with
      | cached hc hm hs => exact hv.has _ _ (.cached hc hm hs)
      | stored hrow hm hs => exact hv.has _ _ (.stored (hsame ▸ hrow) hm hs)
    · rcases has_rowPatched hhas with hold | ⟨rfl, row, hrow, hid, rfl⟩
      · exact hv.has _ _ hold
      · have hown := (hcap hx).2 hsame row hrow (hid.trans (h.chat hat hi hf).symm)
        rw [hmodel, hm, Option.some.injEq] at hown
        exact hown ▸ hr _ hk
  | @captureCache _ _ _ _ model sid hx hf hm hk =>
    refine hv.acts hi rfl (fun model' found hhas => ?_) rfl hr
    have hc := h.chat hat hi hf
    by_cases hsame : (cachePatched r.chat (sessionPatch (some sid)) a.server.shared).chats.get x.chat =
        a.server.shared.chats.get x.chat
    · cases hhas with
      | @cached d chat hd hm hs =>
        rw [get_cachePatched] at hd
        split at hd
        · rename_i he
          rw [hc, get_cachePatched, if_pos rfl] at hsame
          exact hv.has _ _ (.cached (hsame ▸ hd) hm hs)
        · exact hv.has _ _ (.cached hd hm hs)
      | stored hrow hm hs => exact hv.has _ _ (.stored hrow hm hs)
    · rcases has_cachePatched hhas with hold | ⟨rfl, chat, hchat, rfl⟩
      · exact hv.has _ _ hold
      · have hown := (hcap hx).1 hsame chat (hc ▸ hchat)
        rw [hmodel, hm, Option.some.injEq] at hown
        exact hown ▸ hr _ hk
  | update hf hx =>
    refine hv.acts hi rfl (fun model sid hhas => ?_) rfl hr
    cases hhas with
    | cached hc hm hs => exact hv.has _ _ (.cached hc hm hs)
    | stored hrow hm hs =>
      rcases hupd ⟨hf, hx⟩ _ hrow with hnone | ⟨row, hold, hmodel, hsid⟩
      · rw [hnone] at hs
        cases hs
      · exact hv.has _ _ (.stored hold (hmodel.trans hm) (hsid.trans hs))
  | restore hhas hcalls =>
    refine hv.acts hi hcalls (fun model sid hh => ?_) rfl hr
    rcases hhas model sid hh with hh | hh
    · exact hv.has _ _ hh
    · exact hr _ hh

theorem Vouched.rest {models : Nat → Option Text} {n : Nat} {log : List (Text × Text)}
    {s : AppState} (h : Vouched models i n log s roles) (j : Nat) :
    Vouched (Function.update models i (lastModel n s (models i))) j s.calls.length log s roles := by
  refine ⟨h.has, h.resumed, Nat.le_refl _, fun k => ?_, h.known⟩
  rw [h.models, lastModel_none]
  by_cases hk : k = i
  · subst hk
    by_cases hj : k = j
    · subst hj
      simp
    · simp [hj]
  · by_cases hj : k = j
    · subst hj
      simp [hk]
    · simp [hk, hj]

/-- One step of the server. -/
theorem Sworn.step {e : ServerEvent} (h : Sworn a roles) (hg : SameModel a e)
    (he : announcing.step a e = some a') : ∃ roles', Sworn a' roles' := by
  obtain ⟨p', hfire, rfl⟩ := Option.map_eq_some_iff.mp he
  cases e with
  | arrive request =>
    have hv := h.2 a.server.threads.length
    have hlast : roles[roles.length]? = none := List.getElem?_eq_none (Nat.le_refl _)
    have harrive : Vouched a.models roles.length a.server.shared.calls.length a.announced
        a.server.shared (roles ++ [voiceCourse.start request.chat]) := by
      refine ⟨hv.has, hv.resumed, hv.length, fun j => ?_, fun r hr => ?_⟩
      · rw [← h.1.1, ← hv.models j]
        rcases Nat.lt_trichotomy j roles.length with hj | rfl | hj
        · rw [List.getElem?_append_left hj]
        · rw [List.getElem?_concat_length, hlast]
          rfl
        · rw [List.getElem?_eq_none (by simp; omega), List.getElem?_eq_none (by omega)]
      · rcases List.mem_append.mp hr with hr | hr
        · exact hv.known r hr
        · rw [List.mem_singleton.mp hr]
          simp [voiceCourse]
    obtain ⟨roles', hc, hv'⟩ := (vouched_kept a.models roles.length a.server.shared.calls.length
      a.announced).arrive h.1 (voiceCourse.handles request) harrive hfire
    refine ⟨roles', hc, fun j => ?_⟩
    simp only [hears, List.append_nil, actor, h.1.1]
    exact hv'.rest j
  | run i w =>
    obtain ⟨roles', hc, hv'⟩ := (vouched_kept a.models i a.server.shared.calls.length
      (a.announced ++ hears a (.run i w))).fire_acting h.1 (fun _ _ => trivial)
      (fun x r r' s' hat hacts hi hm => h.acts hg hat hacts hi hm) hfire
    exact ⟨roles', hc, fun j => hv'.rest j⟩

theorem Sworn.owned (h : Sworn a roles) : SessionsOwned a :=
  ⟨fun _ _ sid hc hs => (h.2 0).has _ sid (.cached hc rfl hs),
    fun _ hr sid hs => (h.2 0).has _ sid (.stored hr rfl hs), (h.2 0).resumed⟩

end Steps

/-- A server freshly started, with what its stored sessions were announced in. -/
def awake (store : Store) (nextId : Uuid) (builtins : List Text) (log : List (Text × Text)) :
    Announcing :=
  ⟨⟨serve store nextId builtins, []⟩, fun _ => none, log⟩

theorem Sworn.start {store : Store} {log : List (Text × Text)} (nextId : Uuid) (builtins : List Text)
    (h : ∀ row ∈ store.chats, ∀ sid, row.sessionId = some sid → (row.model, sid) ∈ log) :
    Sworn (awake store nextId builtins log) [] := by
  refine ⟨⟨rfl, by simp [awake]⟩, fun i => ⟨fun model sid hhas => ?_, ?_, Nat.le_refl _, fun j => ?_, by simp⟩⟩
  · cases hhas with
    | cached hc hm hs =>
      obtain ⟨row, hrow, -, rfl⟩ := hydrate_row hc
      exact hm ▸ h row hrow sid hs
    | stored hrow hm hs => exact hm ▸ h _ hrow sid hs
  · simp [awake, serve, startup]
  · simp [awake, lastModel_none]

/-- Every session in the registry and in the store was announced in a turn with the
model beside it, and is resumed with that model only, as long as no turn captures its
session in a chat whose model has changed. -/
theorem sessions_belong_to_models {store : Store} {nextId : Uuid} {builtins : List Text}
    {log : List (Text × Text)} {a : Announcing}
    (hstore : ∀ row ∈ store.chats, ∀ sid, row.sessionId = some sid → (row.model, sid) ∈ log)
    (h : announcing.Reaches SameModel (awake store nextId builtins log) a) : SessionsOwned a := by
  have hsworn : ∃ roles, Sworn a roles := by
    apply h.keeps ⟨[], Sworn.start nextId builtins hstore⟩
    intro a e a' ⟨roles, hs⟩ hg he
    exact hs.step hg he
  obtain ⟨roles, hs⟩ := hsworn
  exact hs.owned

/-- A turn of chat 1 up to its next event. -/
def turnUnderWay : List ServerEvent := .arrive (.sendMessage 1 ['a']) :: rounds 0 10 ++ rounds 1 4

/-- Its provider announces a session, which the chat keeps. -/
def announceSession : List ServerEvent :=
  .run 1 { recv := .event (.sessionStart ['s']) } :: rounds 1 3

/-- A second message resumes the session of the first. -/
theorem sessions_belong_to_models_resumed : ∃ a,
    announcing.Reaches SameModel (awake freshStore 10 [['p']] []) a ∧ SessionsOwned a ∧
      a.announced = [(['m'], ['s'])] ∧
      a.server.shared.calls.map (fun call => (call.model, call.resumeSessionId)) =
        [(['m'], none), (['m'], some ['s'])] := by
  have hrun : (announcing.play SameModel (awake freshStore 10 [['p']] [])
      (turnUnderWay ++ announceSession ++ rounds 1 14 ++ rounds 2 1 ++
        [.arrive (.sendMessage 1 ['b'])] ++ rounds 3 10 ++ rounds 4 3)).map (fun a =>
          (a.announced, a.server.shared.calls.map (fun call => (call.model, call.resumeSessionId)))) =
      some ([(['m'], ['s'])], [(['m'], none), (['m'], some ['s'])]) := by decide
  obtain ⟨a, ha, he⟩ := Option.map_eq_some_iff.mp hrun
  simp only [Prod.mk.injEq] at he
  have hreach := Machine.play_reaches ha
  exact ⟨a, hreach, sessions_belong_to_models (by decide) hreach, he.1, he.2⟩

/-- A turn with the old model writes its session after the model was changed. -/
theorem late_session_outlives_model :
    ¬ ∀ (store : Store) (nextId : Uuid) (builtins : List Text) (log : List (Text × Text))
      (a : Announcing),
      (∀ row ∈ store.chats, ∀ sid, row.sessionId = some sid → (row.model, sid) ∈ log) →
      announcing.Reaches Machine.anyEvent (awake store nextId builtins log) a →
      ∀ c chat sid, a.server.shared.chats.get c = some chat → chat.sessionId = some sid →
        (chat.model, sid) ∈ a.announced := by
  intro hall
  have hrun : (announcing.play Machine.anyEvent (awake freshStore 10 [['p']] [])
      (turnUnderWay ++ .arrive (.patch 1 none (some ['n']) none) :: rounds 2 6 ++
        announceSession)).map (fun a => (a.announced,
          (a.server.shared.chats.get 1).map (fun chat => (chat.model, chat.sessionId)))) =
      some ([(['m'], ['s'])], some (['n'], some ['s'])) := by decide
  obtain ⟨a, ha, he⟩ := Option.map_eq_some_iff.mp hrun
  simp only [Prod.mk.injEq, Option.map_eq_some_iff] at he
  obtain ⟨hlog, chat, hget, hmodel, hsid⟩ := he
  have hmem := hall freshStore 10 [['p']] [] a (by decide) (Machine.play_reaches ha) 1 chat _ hget hsid
  rw [hlog, hmodel] at hmem
  simp at hmem

end AgentGrove
