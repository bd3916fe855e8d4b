import AgentGrove.Prompts.Walk

namespace AgentGrove

open Coop

/-- No other chat has a row with this id. -/
def Owns (s : AppState) (c id : Uuid) : Prop := ∀ row ∈ s.store.prompts, row.id = id → row.chatId = c

instance (s : AppState) (c id : Uuid) : Decidable (Owns s c id) :=
  inferInstanceAs (Decidable (∀ row ∈ s.store.prompts, _))

/-- A retry takes up, and a truncate cuts, no cached prompt whose id is the id of
another chat's row. A fork keeps such prompts in its cache. -/
def TakesOwn (p : Server) : ServerEvent → Prop
  | .arrive _ => True
  | .run i w => ∀ x ∈ p.restsAt i,
      (x.call = .retryPrompt → ∀ q ∈ (timeline p.shared x.chat).getLast?, Owns p.shared x.chat q.id) ∧
      (x.call = .truncateCache → ∀ s' ∈ p.acts i w, ∀ q ∈ timeline p.shared x.chat,
        q ∉ timeline s' x.chat → Owns p.shared x.chat q.id)

instance (p : Server) (e : ServerEvent) : Decidable (TakesOwn p e) :=
  match e with
  | .arrive _ => .isTrue trivial
  | .run i _ => inferInstanceAs (Decidable (∀ x ∈ p.restsAt i, _))

/-- The step belongs to no operation on this chat, and makes no new chat. -/
def Elsewhere (a : Uuid) (p : Server) : ServerEvent → Prop
  | .arrive _ => True
  | .run i _ => ∀ x ∈ p.restsAt i, x.chat ≠ a ∧ x.fn ≠ .createChat ∧ x.fn ≠ .forkChat

instance (a : Uuid) (p : Server) (e : ServerEvent) : Decidable (Elsewhere a p e) :=
  match e with
  | .arrive _ => .isTrue trivial
  | .run i _ => inferInstanceAs (Decidable (∀ x ∈ p.restsAt i, _))

/-- Every id in the hand of a task belongs to the chat the task works for. -/
structure Custody (s : AppState) (roles : List Errand) : Prop extends Keyed s where
  held : ∀ r ∈ roles, ∀ c id, r.Holds c id → id < s.nextId ∧ Owns s c id

section Owns

variable {e : Option (Site × Choice)} {r r' : Errand} {s s' : AppState} {c id : Uuid}
  {roles : List Errand}

theorem Rewrites.owns (h : Rewrites s s') (hid : id < s.nextId) (ho : Owns s c id) :
    Owns s' c id := by
  intro row hrow he
  rcases h.row hrow with ⟨old, hold, hkey⟩ | ⟨hnew, -⟩
  · rw [← chatId_of_key hkey]
    exact ho old hold ((id_of_key hkey).trans he)
  · rw [← he, hnew] at hid
    exact absurd hid (Nat.lt_irrefl _)

/-- The row of an id belongs to one chat only. -/
theorem Keyed.owns (hs : Keyed s) {row : PromptRow} (hr : row ∈ s.store.prompts) :
    Owns s row.chatId row.id := by
  intro other hother he
  rw [List.inj_on_of_nodup_map hs.rows hother hr he]

/-- A prompt that has just been stored is its chat's. -/
theorem owns_appended (hs : Keyed s) {row : PromptRow} (hid : row.id = s.nextId) (n : Uuid) :
    Owns { s with store := { s.store with prompts := s.store.prompts ++ [row] }, nextId := n }
      row.chatId s.nextId := by
  intro other hother he
  simp only [List.mem_append, List.mem_singleton] at hother
  rcases hother with hother | rfl
  · have hlt := hs.stored other hother
    rw [he] at hlt
    exact absurd hlt (Nat.lt_irrefl _)
  · rfl

theorem mem_truncated {seq : Nat} {gone : List Uuid} {reg : ChatRegistry}
    (h : s.chats.truncateFromSeq c seq = some (gone, reg)) (hid : id ∈ gone) :
    ∃ q ∈ timeline s c, q.id = id ∧ q ∉ timeline { s with chats := reg } c := by
  unfold ChatRegistry.truncateFromSeq at h
  split at h
  · cases h
  rename_i chat hget
  cases h
  obtain ⟨q, hq, rfl⟩ := List.mem_map.mp hid
  obtain ⟨hq, hseq⟩ := List.mem_filter.mp hq
  refine ⟨q, by simpa [timeline, cachedPrompts, hget] using hq, rfl, ?_⟩
  simp only [timeline, cachedPrompts, ChatRegistry.get_chatMut, ↓reduceIte, hget, Option.map_some,
    Option.getD_some, List.mem_filter, decide_eq_true_eq, not_and]
  intro _ hlt
  simp only [decide_eq_true_eq] at hseq
  omega

/-- What an action puts into the hand of its task is the chat's own. -/
theorem Custody.holds (hs : Custody s roles) (hr : r ∈ roles) (h : Does e r s r' s')
    (htake : ∀ x w, e = some (x, w) → x.call = .retryPrompt → r.RestsAt x →
      ∀ q ∈ (timeline s x.chat).getLast?, Owns s x.chat q.id)
    (hcut : ∀ x w, e = some (x, w) → x.call = .truncateCache → r.RestsAt x →
      ∀ q ∈ timeline s x.chat, q ∉ timeline s' x.chat → Owns s x.chat q.id)
    (hx : ∀ x w, e = some (x, w) → r.RestsAt x) (hid : r'.Holds c id) :
    id < s'.nextId ∧ Owns s' c id := by
  have hn := h.rewrites.nextId
  suffices hold : (id < s.nextId ∧ Owns s c id) ∨ (id < s'.nextId ∧ Owns s' c id) by
    rcases hold with hold | hnew
    · exact ⟨Nat.lt_of_lt_of_le hold.1 hn, h.rewrites.owns hold.1 hold.2⟩
    · exact hnew
  cases h with
  | number | refuse | lose | fork | copy => simp [Errand.Holds] at hid
  | insert hrow hc _ _ =>
    obtain ⟨rfl, rfl⟩ := hid
    refine .inr ⟨Nat.lt_succ_self _, ?_⟩
    rw [← hc]
    exact owns_appended hs.toKeyed hrow _
  | ingest hpid hpn =>
    obtain ⟨rfl, hid⟩ := hid
    simp only [List.mem_singleton] at hid
    exact .inl (hs.held _ hr _ _ ⟨rfl, hid.symm⟩)
  | @take x w d ids _ _ p hcall hp _ =>
    obtain ⟨rfl, hid⟩ := hid
    simp only [List.mem_singleton] at hid
    obtain ⟨hchat, -⟩ := hx x w rfl
    rw [hid]
    refine .inl ⟨hs.cached d p (List.mem_of_getLast? hp), ?_⟩
    exact hchat ▸ htake x w rfl hcall (hx x w rfl) p (hchat ▸ hp)
  | @cut x w d ids gone seq _ reg hcall h =>
    obtain ⟨rfl, hid⟩ := hid
    obtain ⟨hchat, -⟩ := hx x w rfl
    obtain ⟨q, hq, rfl, hnot⟩ := mem_truncated h hid
    refine .inl ⟨hs.cached d q hq, ?_⟩
    exact hchat ▸ hcut x w rfl hcall (hx x w rfl) q (hchat ▸ hq) (hchat ▸ hnot)
  | tail hrow hc =>
    obtain ⟨rfl, hid⟩ := hid
    simp only [List.mem_singleton] at hid
    rw [hid, ← hc]
    exact .inl ⟨hs.stored _ hrow, hs.toKeyed.owns hrow⟩
  | _ => exact .inl (hs.held _ hr c id hid)

theorem Custody.does (hs : Custody s roles) {i : Nat} (hr : roles[i]? = some r)
    (h : Does e r s r' s')
    (hr' : ∀ c id, r'.Holds c id → id < s'.nextId ∧ Owns s' c id) :
    Custody s' (roles.set i r') := by
  have hmem := List.mem_of_getElem? hr
  refine ⟨hs.toKeyed.does h fun c id hid => (hs.held r hmem c id hid).1, fun r₁ hr₁ => ?_⟩
  rcases List.mem_or_eq_of_mem_set hr₁ with hold | rfl
  · intro c id hid
    obtain ⟨hlt, ho⟩ := hs.held r₁ hold c id hid
    exact ⟨Nat.lt_of_lt_of_le hlt h.rewrites.nextId, h.rewrites.owns hlt ho⟩
  · exact hr'

end Owns

/-- The prompts of a chat, in the cache and in the store. -/
def promptsOf (s : AppState) (a : Uuid) : Option (List PromptRecord) × List PromptRow :=
  (cachedPrompts s a, storedPrompts s a)

section Elsewhere

variable {e : Option (Site × Choice)} {r r' : Errand} {s s' : AppState} {a c : Uuid} {ids : List Uuid}

theorem Untouched.promptsOf (h : Untouched s s') (a : Uuid) : promptsOf s' a = promptsOf s a := by
  simp only [AgentGrove.promptsOf, cachedPrompts, storedPrompts, h.chats, h.prompts]

theorem storedPrompts_map {f : PromptRow → PromptRow} (hf : s'.store.prompts = s.store.prompts.map f)
    (hkey : ∀ r, (f r).key = r.key) (hsame : ∀ r ∈ s.store.prompts, r.chatId = a → f r = r) :
    storedPrompts s' a = storedPrompts s a := by
  unfold storedPrompts
  rw [hf, List.filter_map]
  have hfilter : s.store.prompts.filter ((fun r => decide (r.chatId = a)) ∘ f) =
      s.store.prompts.filter (fun r => r.chatId = a) := by
    apply List.filter_congr
    intro r _
    simp only [Function.comp, chatId_of_key (hkey r)]
  rw [hfilter]
  conv_rhs => rw [← List.map_id (s.store.prompts.filter _)]
  apply List.map_congr_left
  intro r hr
  obtain ⟨hr, hc⟩ := List.mem_filter.mp hr
  exact hsame r hr (by simpa using hc)

theorem Tends.promptsOf (h : Tends c ids s s') (hne : c ≠ a)
    (hown : ∀ id ∈ ids, Owns s c id) : promptsOf s' a = promptsOf s a := by
  obtain ⟨f, hf, hkey⟩ := h.rows
  unfold AgentGrove.promptsOf
  rw [h.others a hne.symm, storedPrompts_map hf fun r => (hkey r).1]
  intro r hr hc
  refine (hkey r).2 fun hid => hne ?_
  rw [← hown r.id hid r hr rfl, hc]

/-- An action of an operation on another chat leaves the chat's prompts alone. -/
theorem Does.promptsOf {x : Site} {w : Choice} (h : Does (some (x, w)) r s r' s')
    (hx : r.RestsAt x) (hne : x.chat ≠ a) (hcreate : x.fn ≠ .createChat) (hfork : x.fn ≠ .forkChat)
    (hown : ∀ c id, r.Holds c id → Owns s c id) : promptsOf s' a = promptsOf s a := by
  have hmut : ∀ (c : Uuid) (f : ChatRecord → ChatRecord) (n : Uuid), c ≠ a →
      AgentGrove.promptsOf { s with chats := s.chats.chatMut c f, nextId := n } a =
        AgentGrove.promptsOf s a := by
    intro c f n hc
    simp only [AgentGrove.promptsOf, cachedPrompts, storedPrompts, ChatRegistry.get_chatMut,
      hc.symm, ↓reduceIte]
  cases h with
  | tend h =>
    obtain ⟨rfl, -⟩ := hx
    exact h.promptsOf hne fun id hid => hown _ id ⟨rfl, hid⟩
  | take _ _ h =>
    obtain ⟨rfl, -⟩ := hx
    exact h.promptsOf hne (by simp)
  | touch h => exact h.promptsOf a
  | number | refuse | lose | tail => rfl
  | @insert _ _ c n _ row _ hc _ _ =>
    obtain ⟨rfl, -⟩ := hx
    simp [AgentGrove.promptsOf, cachedPrompts, storedPrompts, hc, hne]
  | ingest _ _ =>
    obtain ⟨rfl, -⟩ := hx
    exact hmut _ _ _ hne
  | cut _ h =>
    obtain ⟨rfl, -⟩ := hx
    unfold ChatRegistry.truncateFromSeq at h
    split at h
    · cases h
    cases h
    exact hmut _ _ _ hne
  | revert _ h =>
    obtain ⟨rfl, -⟩ := hx
    unfold ChatRegistry.addPrompt at h
    split at h
    · cases h
    cases h
    exact hmut _ _ _ hne
  | @remove _ _ c id ids _ hid =>
    obtain ⟨rfl, -⟩ := hx
    simp only [AgentGrove.promptsOf, cachedPrompts, storedPrompts, ChatRepo.deletePrompt,
      Prod.mk.injEq, true_and, List.filter_filter]
    apply List.filter_congr
    intro r hr
    by_cases hc : r.chatId = a
    · have hr : r.id ≠ id := by
        rintro rfl
        exact hne ((hown _ _ ⟨rfl, hid⟩ r hr rfl).symm.trans hc)
      simp [hc, hr]
    · simp [hc]
  | blank hd hrows hothers _ _ =>
    obtain ⟨rfl, -⟩ := hx
    rcases hd with rfl | hf
    · simp only [AgentGrove.promptsOf, storedPrompts, hothers a hne.symm, hrows]
    · exact absurd hf hcreate
  | fork hf _ _ => exact absurd hf hfork
  | copy _ => exact absurd hx hfork

end Elsewhere

theorem set_same {α : Type} {l : List α} {i : Nat} {a : α} (h : l[i]? = some a) : l.set i a = l := by
  obtain ⟨hi, rfl⟩ := List.getElem?_eq_some_iff.mp h
  simp

theorem Custody.unset {s s' : AppState} {roles : List Errand} {i : Nat} {r r' : Errand}
    (hs : Custody s roles) (hr : roles[i]? = some r) (h : Does none r s r' s') :
    Custody s' (roles.set i r') := by
  cases h with
  | now h =>
    apply hs.does hr (.now h)
    intro c id hid
    obtain ⟨hlt, ho⟩ := hs.held r (List.mem_of_getElem? hr) c id hid
    exact ⟨Nat.lt_of_lt_of_le hlt h.nextId, h.rewrites.owns hlt ho⟩

theorem Custody.forked {s : AppState} {roles : List Errand} {i : Nat} {r : Errand}
    (hs : Custody s roles) (hr : roles[i]? = some r) : Custody s (roles.set i r ++ [r]) := by
  rw [set_same hr]
  refine ⟨hs.toKeyed, fun r₁ hr₁ => ?_⟩
  rw [List.mem_append, List.mem_singleton] at hr₁
  rcases hr₁ with hr₁ | rfl
  · exact hs.held r₁ hr₁
  · exact hs.held r₁ (List.mem_of_getElem? hr)

theorem Custody.arrive {s : AppState} {roles : List Errand} (hs : Custody s roles) (c : Uuid) :
    Custody s (roles ++ [.tending c []]) := by
  refine ⟨hs.toKeyed, fun r hr => ?_⟩
  rw [List.mem_append, List.mem_singleton] at hr
  rcases hr with hr | rfl
  · exact hs.held r hr
  · simp [Errand.Holds]

/-- One action of an operation that meets the condition. -/
theorem Custody.run {p : Server} {roles : List Errand} {i : Nat} {w : Choice} {x : Site}
    {r r' : Errand} {s' : AppState} (hs : Custody p.shared roles) (hc : errands.Coupled p roles)
    (hg : TakesOwn p (.run i w)) (hat : p.At i x) (hacts : p.acts i w = some s')
    (hr : roles[i]? = some r) (h : Does (some (x, w)) r p.shared r' s') :
    r.RestsAt x ∧ Custody s' (roles.set i r') := by
  obtain ⟨th, hth, hrest⟩ := hc.thread hr
  have hsite : th.site = some x := by
    have hat' : p.threads[i]?.bind Thread.site = some x := hat
    rwa [hth] at hat'
  rw [hsite] at hrest
  have hown := hg x hat
  refine ⟨hrest, hs.does hr h fun c id hid => ?_⟩
  apply hs.holds (List.mem_of_getElem? hr) h _ _ _ hid
  · rintro _ _ ⟨⟩ hcall _ q hq
    exact hown.1 hcall q hq
  · rintro _ _ ⟨⟩ hcall _ q hq hnot
    exact hown.2 hcall s' hacts q hq hnot
  · rintro _ _ ⟨⟩
    exact hrest

theorem custody_kept : errands.Kept Custody where
  sees _ _ _ _ _ _ := trivial
  sync _ _ _ _ _ _ hv hi hm := hv.unset hi hm
  fork s roles i r tag rc r' hv hi hf := by
    obtain ⟨rfl, rfl, -⟩ := hf
    exact hv.forked hi

theorem custody_run {store : Store} {nextId : Uuid} {builtins : List Text}
    (hrows : (store.prompts.map PromptRow.id).Nodup) (hids : ∀ row ∈ store.prompts, row.id < nextId)
    {p : Server} (h : Pool.Reaches entry TakesOwn ⟨serve store nextId builtins, []⟩ p) :
    ∃ roles, errands.Coupled p roles ∧ Custody p.shared roles := by
  have hc : errands.Coupled ⟨serve store nextId builtins, []⟩ [] := ⟨rfl, by simp⟩
  have hv : Custody (serve store nextId builtins) [] := ⟨Keyed.startup 0 hrows hids, by simp⟩
  apply custody_kept.reaches_acting _ _ h hc hv
  · intro p roles request _ hv _
    exact ⟨_, promptCourse.handles request, hv.arrive _⟩
  · intro p roles i w x r r' s' hc hv hg hat hacts hr hm
    exact (hv.run hc hg hat hacts hr hm).2

/-- What an operation does to prompts stays in its chat, as long as no retry or
truncate takes up a prompt that a fork shares with its source. -/
theorem prompts_isolated {store : Store} {nextId : Uuid} {builtins : List Text}
    (hrows : (store.prompts.map PromptRow.id).Nodup) (hids : ∀ row ∈ store.prompts, row.id < nextId)
    {p p' : Server} {a : Uuid}
    (hp : Pool.Reaches entry TakesOwn ⟨serve store nextId builtins, []⟩ p)
    (hlater : p.Reaches entry (fun q e => TakesOwn q e ∧ Elsewhere a q e) p') :
    promptsOf p'.shared a = promptsOf p.shared a := by
  obtain ⟨roles, hc, hv⟩ := custody_run hrows hids hp
  have hkept : errands.Kept (fun s roles =>
      Custody s roles ∧ promptsOf s a = promptsOf p.shared a) := by
    apply custody_kept.and
    refine ⟨fun _ _ _ _ _ _ => trivial, ?_, fun _ _ _ _ _ _ _ hv _ _ => hv⟩
    intro s roles i r r' s' hv hi hm
    cases hm with
    | now h => rw [h.promptsOf, hv]
  obtain ⟨-, -, -, hsame⟩ := hkept.reaches_acting
    (fun q roles request _ hv _ => ⟨_, promptCourse.handles request, hv.1.arrive _, hv.2⟩)
    (fun q roles i w x r r' s' hc hv hg hat hacts hr hm => by
      obtain ⟨hrest, hv'⟩ := hv.1.run hc hg.1 hat hacts hr hm
      obtain ⟨hne, hcreate, hfork⟩ := hg.2 x hat
      refine ⟨hv', ?_⟩
      rw [← hv.2]
      apply Does.promptsOf hm hrest hne hcreate hfork
      exact fun c id hid => (hv.1.held r (List.mem_of_getElem? hr) c id hid).2)
    hlater hc ⟨hv, rfl⟩
  exact hsame

/-- Chat 1 is forked to chat 11. -/
def forkFirst : List ServerEvent := .arrive (.forkChat 1 1) :: rounds 0 8

/-- The fork gets a message of its own, which is cut off again. -/
def ownMessage : List ServerEvent :=
  [.arrive (.sendMessage 11 ['b'])] ++ rounds 1 10 ++ [.arrive (.truncateChat 11 2)] ++ rounds 3 2

theorem prompts_isolated_own : ∃ p p' : Server,
    Pool.Reaches entry TakesOwn ⟨serve oneMessage 10 [], []⟩ p ∧
      p.Reaches entry (fun q e => TakesOwn q e ∧ Elsewhere 1 q e) p' ∧
      promptsOf p'.shared 1 = promptsOf p.shared 1 := by
  have hrun : ((Pool.play entry TakesOwn ⟨serve oneMessage 10 [], []⟩ forkFirst).bind
      (fun p => p.play entry (fun q e => TakesOwn q e ∧ Elsewhere 1 q e) ownMessage)).isSome =
        true := by decide
  obtain ⟨p', hrun⟩ := Option.isSome_iff_exists.mp hrun
  obtain ⟨p, hp, hlater⟩ := Option.bind_eq_some_iff.mp hrun
  exact ⟨p, p', Pool.play_reaches hp, Pool.play_reaches hlater,
    prompts_isolated (by decide) (by decide) (Pool.play_reaches hp) (Pool.play_reaches hlater)⟩

/-- The step belongs to an operation on this chat, and makes no new chat. -/
def Addressed (b : Uuid) (p : Server) : ServerEvent → Prop
  | .arrive request => request.chat = b
  | .run i _ => ∀ x ∈ p.restsAt i, x.chat = b ∧ x.fn ≠ .createChat ∧ x.fn ≠ .forkChat

instance (b : Uuid) (p : Server) (e : ServerEvent) : Decidable (Addressed b p e) :=
  match e with
  | .arrive request => inferInstanceAs (Decidable (request.chat = b))
  | .run i _ => inferInstanceAs (Decidable (∀ x ∈ p.restsAt i, _))

/-- Truncating a fork deletes rows of the chat it was forked from. -/
theorem truncate_of_fork_reaches_source :
    ¬ ∀ (store : Store) (nextId : Uuid) (builtins : List Text) (p p' : Server) (a b seq n : Nat)
      (record : ChatRecord), (store.prompts.map PromptRow.id).Nodup →
      (∀ row ∈ store.prompts, row.id < nextId) →
      Pool.Reaches entry Pool.anyStep ⟨serve store nextId builtins, []⟩ p →
      (.forkChat a seq, .forked b n record) ∈ p.shared.answers → p.Reaches entry (Addressed b) p' →
      promptsOf p'.shared a = promptsOf p.shared a := by
  intro hall
  have hrun : ((Pool.play entry Pool.anyStep ⟨serve oneMessage 10 [], []⟩ forkFirst).bind
      (fun p => (p.play entry (Addressed 11) (.arrive (.truncateChat 11 1) :: rounds 1 2)).map
        (fun p' => (p.shared.answers.map (fun a => (a.1, match a.2 with
          | .forked b n _ => some (b, n)
          | _ => none)), storedPrompts p.shared 1, storedPrompts p'.shared 1)))) =
      some ([(.forkChat 1 1, some (11, 1))], [ChatRepo.newPrompt 2 0 1 1 ['a']], []) := by decide
  obtain ⟨p, hp, hlater⟩ := Option.bind_eq_some_iff.mp hrun
  obtain ⟨p', hp', he⟩ := Option.map_eq_some_iff.mp hlater
  simp only [Prod.mk.injEq] at he
  obtain ⟨hanswers, hbefore, hafter⟩ := he
  obtain ⟨⟨request, response⟩, hanswer, hreq⟩ := List.map_eq_singleton_iff.mp hanswers
  cases response with
  | forked b n record =>
    simp only [Prod.mk.injEq, Option.some.injEq] at hreq
    obtain ⟨rfl, rfl, rfl⟩ := hreq
    have hsame := hall oneMessage 10 [] p p' 1 11 1 1 record (by decide) (by decide)
      (Pool.play_reaches hp) (by simp [hanswer]) (Pool.play_reaches hp')
    have hrows := congrArg Prod.snd hsame
    simp only [promptsOf, hbefore, hafter] at hrows
    cases hrows
  | _ => simp at hreq

end AgentGrove
