import AgentGrove.Coop.Census
import AgentGrove.Model.ChatVerbs
import Mathlib.Data.List.Nodup

namespace AgentGrove.Web

open Coop

section Ids

theorem promptId_digits {n : Nat} {c : Char} (h : c ∈ promptId n) : c.isDigit = true := by
  simp only [promptId, showNat, Nat.toList_repr] at h
  exact Nat.isDigit_of_mem_toDigits (by decide) (by decide) h

theorem showNat_inj {m n : Nat} (h : showNat m = showNat n) : m = n := by
  simp only [showNat, Nat.toList_repr] at h
  rw [← Nat.ofDigitChars_ten_toDigits (n := m), h, Nat.ofDigitChars_ten_toDigits]

theorem promptId_inj {m n : Nat} (h : promptId m = promptId n) : m = n := showNat_inj h

theorem pendingId_inj {m n : Nat} (h : pendingId m = pendingId n) : m = n :=
  showNat_inj (List.append_cancel_left h)

/-- The test of `startsWith`. -/
def pendingText (id : Text) : Bool := "pending-".toList.isPrefixOf id

theorem pendingText_pendingId (n : Nat) : pendingText (pendingId n) = true :=
  List.isPrefixOf_iff_prefix.mpr (List.prefix_append _ _)

theorem pendingText_promptId (n : Nat) : pendingText (promptId n) = false := by
  cases h : pendingText (promptId n) with
  | false => rfl
  | true =>
    have hmem : 'p' ∈ promptId n := (List.isPrefixOf_iff_prefix.mp h).subset (by decide)
    exact absurd (promptId_digits hmem) (by decide)

theorem promptId_ne_pendingId (m n : Nat) : promptId m ≠ pendingId n := by
  intro heq
  have hp := pendingText_promptId m
  rw [heq, pendingText_pendingId] at hp
  cases hp

end Ids

/-- Records of a chat as the server holds them or answers with them. -/
structure Listed (known : Text → Option (Uuid × Text)) (id : Uuid) (ps : List Prompt) : Prop where
  sorted : ps.Pairwise (fun p q => p.seq < q.seq)
  known : ∀ p ∈ ps, known p.id = some (id, p.content)
  numbered : ∀ p ∈ ps, 0 ≤ p.seq
  real : ∀ p ∈ ps, isPlaceholder p = false
  distinct : (ps.map Prompt.id).Nodup

/-- A prompt of the store is one of some chat or one of its placeholders. -/
structure Held (known : Text → Option (Uuid × Text)) (p : Prompt) : Prop where
  known : ∃ id, known p.id = some (id, p.content)
  numbered : isPlaceholder p = true ↔ p.seq < 0

/-- What an answer says is so. -/
def Truthful (known : Text → Option (Uuid × Text)) (stands : List (Text × Text)) (f : Flight) :
    Answer → Prop
  | .view view => Listed known f.chatId view.prompts
  | .page prompts _ => Listed known f.chatId prompts
  | .dispatched p => Listed known f.chatId [p] ∧ ∃ tempId body, f.verb = .send tempId body ∧
      (tempId, p.id) ∈ stands
  | _ => True

/-- A message that is under way or queued has a placeholder's id. -/
def Sent (known : Text → Option (Uuid × Text)) (tempId : Text) (id : Uuid) (body : Text) : Prop :=
  known tempId = some (id, body) ∧ pendingText tempId = true

structure Sound (s : Session) : Prop where
  chats : ∀ id c, s.chats id = some c → Listed s.known id (c.prompts.map promptJson)
  nextId : ∀ n, s.nextId ≤ n → s.known (promptId n) = none
  nextTemp : ∀ n, s.nextTemp ≤ n → s.known (pendingId n) = none
  answers : ∀ f ∈ s.flights, ∀ a, f.answer = some a → Truthful s.known s.stands f a
  sends : ∀ f ∈ s.flights, ∀ tempId body, f.verb = .send tempId body → Sent s.known tempId f.chatId body
  queue : ∀ x ∈ s.queue, Sent s.known x.tempId x.chatId x.body
  held : ∀ p ∈ s.store.prompts, Held s.known p
  stands : ∀ x ∈ s.stands, pendingText x.1 = true ∧ pendingText x.2 = false ∧
    ∃ y, s.known x.1 = some y ∧ s.known x.2 = some y
  single : (s.stands.map Prod.snd).Nodup

/-- More is known. -/
def Extends (known known' : Text → Option (Uuid × Text)) : Prop :=
  ∀ id x, known id = some x → known' id = some x

section Growth

variable {known known' : Text → Option (Uuid × Text)} {id : Uuid} {ps qs : List Prompt} {p : Prompt}

theorem Extends.refl (known : Text → Option (Uuid × Text)) : Extends known known := fun _ _ h => h

theorem extends_update {new : Text} (h : known new = none) (x : Uuid × Text) :
    Extends known (Function.update known new (some x)) := by
  intro id y hy
  have hne : id ≠ new := by
    intro he
    rw [he, h] at hy
    cases hy
  rw [Function.update_of_ne hne]
  exact hy

/-- What is recorded of one id is not recorded of another. -/
theorem unknown_update {new id : Text} (hne : id ≠ new) (h : known id = none) (x : Uuid × Text) :
    Function.update known new (some x) id = none := by
  rw [Function.update_of_ne hne]
  exact h

theorem Listed.mono (h : Listed known id ps) (he : Extends known known') : Listed known' id ps :=
  ⟨h.sorted, fun p hp => he _ _ (h.known p hp), h.numbered, h.real, h.distinct⟩

theorem Listed.sublist (h : Listed known id ps) (hs : qs.Sublist ps) : Listed known id qs :=
  ⟨h.sorted.sublist hs, fun p hp => h.known p (hs.subset hp), fun p hp => h.numbered p (hs.subset hp),
    fun p hp => h.real p (hs.subset hp), h.distinct.sublist (hs.map _)⟩

/-- Nothing is said about events. -/
def Prompt.face (p : Prompt) : Prompt := { p with events := [] }

theorem face_fields {p q : Prompt} (h : p.face = q.face) :
    p.id = q.id ∧ p.seq = q.seq ∧ p.content = q.content := by
  obtain ⟨id, seq, content, _⟩ := p
  obtain ⟨id', seq', content', _⟩ := q
  simpa [Prompt.face] using h

theorem Listed.congr (h : Listed known id ps) (hf : ps.map Prompt.face = qs.map Prompt.face) :
    Listed known id qs := by
  have hmem : ∀ q ∈ qs, ∃ p ∈ ps, p.face = q.face := by
    intro q hq
    have hq' : q.face ∈ ps.map Prompt.face := hf ▸ List.mem_map_of_mem hq
    exact List.mem_map.mp hq'
  refine ⟨?_, fun q hq => ?_, fun q hq => ?_, fun q hq => ?_, ?_⟩
  · have hs : (ps.map Prompt.face).Pairwise (fun p q => p.seq < q.seq) :=
      (List.pairwise_map (f := Prompt.face)).mpr h.sorted
    rw [hf] at hs
    exact (List.pairwise_map (f := Prompt.face)).mp hs
  · obtain ⟨p, hp, he⟩ := hmem q hq
    obtain ⟨hid, -, hcontent⟩ := face_fields he
    rw [← hid, ← hcontent]
    exact h.known p hp
  · obtain ⟨p, hp, he⟩ := hmem q hq
    rw [← (face_fields he).2.1]
    exact h.numbered p hp
  · obtain ⟨p, hp, he⟩ := hmem q hq
    have hreal := h.real p hp
    unfold isPlaceholder at hreal ⊢
    rw [← (face_fields he).1]
    exact hreal
  · have hids : ps.map Prompt.id = qs.map Prompt.id := by
      have := congrArg (List.map Prompt.id) hf
      simpa [Prompt.face, Function.comp_def] using this
    exact hids ▸ h.distinct

theorem Held.mono (h : Held known p) (he : Extends known known') : Held known' p :=
  ⟨h.known.imp fun _ hk => he _ _ hk, h.numbered⟩

theorem Held.congr {q : Prompt} (h : Held known p) (hf : p.face = q.face) : Held known q := by
  obtain ⟨hid, hseq, hcontent⟩ := face_fields hf
  refine ⟨?_, ?_⟩
  · rw [← hid, ← hcontent]
    exact h.known
  · have hn := h.numbered
    unfold isPlaceholder at hn ⊢
    rw [← hid, ← hseq]
    exact hn

/-- What the server lists can be held. -/
theorem Listed.held (h : Listed known id ps) (hp : p ∈ ps) : Held known p := by
  refine ⟨⟨id, h.known p hp⟩, ?_⟩
  rw [h.real p hp]
  have := h.numbered p hp
  constructor
  · intro hx
    cases hx
  · intro hx
    omega

theorem Truthful.mono {stands stands' : List (Text × Text)} {f : Flight} {a : Answer}
    (h : Truthful known stands f a) (he : Extends known known') (hs : stands ⊆ stands') :
    Truthful known' stands' f a := by
  cases a with
  | view view => exact Listed.mono h he
  | page prompts atStart => exact Listed.mono h he
  | dispatched p =>
    obtain ⟨hl, tempId, body, hv, hm⟩ := h
    exact ⟨hl.mono he, tempId, body, hv, hs hm⟩
  | queued => trivial
  | stopped => trivial
  | error message => trivial

theorem Sent.mono {tempId body : Text} (h : Sent known tempId id body) (he : Extends known known') :
    Sent known' tempId id body :=
  ⟨he _ _ h.1, h.2⟩

end Growth

section Server

variable {s s' : Session} {id : Uuid} {c : ChatRecord} {known : Text → Option (Uuid × Text)}

theorem windowEvents_face (ps : List PromptRecord) :
    ((ps.map windowEvents).map promptJson).map Prompt.face = (ps.map promptJson).map Prompt.face := by
  simp [Function.comp_def, windowEvents, promptJson, Prompt.face]

/-- A window of a chat is listed when the chat is. -/
theorem Listed.window {ps qs : List PromptRecord} (h : Listed known id (ps.map promptJson))
    (hs : qs.Sublist ps) : Listed known id ((qs.map windowEvents).map promptJson) :=
  (h.sublist (hs.map promptJson)).congr (windowEvents_face qs).symm

theorem viewJson_windowChat (c : ChatRecord) : (viewJson (windowChat c)).prompts =
    ((c.prompts.drop (c.prompts.length - defaultPromptsWindow)).map windowEvents).map promptJson := by
  unfold viewJson windowChat
  dsimp only
  rfl

theorem Listed.view (h : Listed known id (c.prompts.map promptJson)) :
    Listed known id (viewJson (windowChat c)).prompts := by
  rw [viewJson_windowChat]
  exact h.window (List.drop_sublist _ _)

theorem Listed.page (h : Listed known id (c.prompts.map promptJson)) (before limit : Nat) :
    Listed known id ((listPrompts c before limit).1.map promptJson) :=
  h.window ((List.drop_sublist _ _).trans List.filter_sublist)

theorem le_foldl_max {n : Nat} {l : List Nat} (h : n ∈ l) : n ≤ l.foldl max 0 :=
  (List.max?_eq_some_iff.mp (List.max?_cons' (x := 0))).2 n (List.mem_cons_of_mem _ h)

theorem newPrompt_id (s : Session) (c : ChatRecord) (content : Text) (w : Stamp) :
    (promptJson (s.newPrompt c content w)).id = promptId s.nextId := by
  simp only [promptJson, Session.newPrompt]

theorem Listed.append (h : Listed known id (c.prompts.map promptJson))
    (hfresh : known (promptId s.nextId) = none) (content : Text) (w : Stamp) :
    Listed (Function.update known (promptId s.nextId) (some (id, content))) id
      ((c.prompts ++ [s.newPrompt c content w]).map promptJson) := by
  have hold := h.mono (extends_update hfresh (id, content))
  rw [List.map_append]
  refine ⟨?_, fun p hp => ?_, fun p hp => ?_, fun p hp => ?_, ?_⟩
  · rw [List.pairwise_append]
    refine ⟨hold.sorted, List.pairwise_singleton _ _, fun p hp q hq => ?_⟩
    obtain ⟨r, hr, rfl⟩ := List.mem_map.mp hp
    rw [List.map_singleton, List.mem_singleton] at hq
    have hle := le_foldl_max (List.mem_map_of_mem (f := PromptRecord.seq) hr)
    rw [hq]
    simp only [promptJson, Session.newPrompt]
    omega
  · rcases List.mem_append.mp hp with hp | hp
    · exact hold.known p hp
    · rw [List.map_singleton, List.mem_singleton] at hp
      rw [hp, newPrompt_id]
      exact Function.update_self ..
  · rcases List.mem_append.mp hp with hp | hp
    · exact hold.numbered p hp
    · rw [List.map_singleton, List.mem_singleton] at hp
      rw [hp]
      exact Int.natCast_nonneg _
  · rcases List.mem_append.mp hp with hp | hp
    · exact hold.real p hp
    · rw [List.map_singleton, List.mem_singleton] at hp
      rw [hp, isPlaceholder, newPrompt_id]
      exact pendingText_promptId _
  · rw [List.map_append, List.nodup_append]
    refine ⟨hold.distinct, List.nodup_singleton _, fun a ha b hb => ?_⟩
    obtain ⟨p, hp, rfl⟩ := List.mem_map.mp ha
    rw [List.map_singleton, List.map_singleton, List.mem_singleton] at hb
    intro he
    have hp' := h.known p hp
    rw [he, hb] at hp'
    rw [newPrompt_id, hfresh] at hp'
    cases hp'

end Server

section Lists

variable {ps qs : List Prompt} {p q : Prompt}

theorem setEvents_face (id : Text) (f : List StreamEvent → List StreamEvent) (ps : List Prompt) :
    (setEvents id f ps).map Prompt.face = ps.map Prompt.face := by
  induction ps with
  | nil => rfl
  | cons p ps ih =>
    unfold setEvents
    split
    · rfl
    · rw [List.map_cons, List.map_cons, ih]

theorem applyWsFrame_face (s : ChatStore) (f : WsFrame) :
    (applyWsFrame s f).prompts.map Prompt.face = s.prompts.map Prompt.face := by
  unfold applyWsFrame
  cases hev : f.event with
  | retry message =>
    cases s.prompt f.promptId with
    | none => rfl
    | some p =>
      simp only [StreamEvent.terminal, ChatStore.dropLive]
      exact (setEvents_face _ _ _).trans (setEvents_face _ _ _)
  | agent ev =>
    cases ev with
    | token text => rfl
    | thinking text => rfl
    | _ =>
      cases s.prompt f.promptId with
      | none => rfl
      | some p =>
        simp only [StreamEvent.terminal, AgentEvent.terminal, ChatStore.dropLive]
        exact setEvents_face _ _ _

theorem applyWsFrame_view (s : ChatStore) (f : WsFrame) : (applyWsFrame s f).view = s.view := by
  unfold applyWsFrame
  cases hev : f.event with
  | retry message =>
    cases s.prompt f.promptId with
    | none => rfl
    | some p => rfl
  | agent ev =>
    cases ev with
    | token text => rfl
    | thinking text => rfl
    | _ =>
      cases s.prompt f.promptId with
      | none => rfl
      | some p => rfl

theorem enqueue_face (c : ChatSession) (f : WsFrame) :
    (enqueue c f).store.prompts.map Prompt.face = c.store.prompts.map Prompt.face := by
  unfold enqueue
  split
  · rfl
  · exact applyWsFrame_face _ f

theorem enqueue_view (c : ChatSession) (f : WsFrame) : (enqueue c f).store.view = c.store.view := by
  unfold enqueue
  split
  · rfl
  · exact applyWsFrame_view _ f

theorem unstick_face (ps : List Prompt) : (unstick ps).map Prompt.face = ps.map Prompt.face := by
  induction ps using unstick.induct with
  | case1 => rfl
  | case2 tail =>
    unfold unstick
    split <;> rfl
  | case3 p ps hne ih =>
    obtain ⟨q, qs, rfl⟩ : ∃ q qs, ps = q :: qs := by
      cases ps with
      | nil => exact absurd rfl hne
      | cons q qs => exact ⟨q, qs, rfl⟩
    rw [unstick, List.map_cons, List.map_cons, ih]
    exact hne

theorem keepTail_sublist (ps : List Prompt) : (keepTail ps).Sublist ps := by
  unfold keepTail
  split
  · exact List.drop_sublist _ _
  · exact List.Sublist.refl _

theorem keepHead_sublist (ps : List Prompt) : (keepHead ps).Sublist ps := by
  unfold keepHead
  split
  · exact List.take_sublist _ _
  · exact List.Sublist.refl _

theorem pushPlaceholder_sublist (ps : List Prompt) (p : Prompt) :
    (pushPlaceholder ps p).Sublist (ps ++ [p]) := by
  unfold pushPlaceholder
  dsimp only
  split
  · exact List.tail_sublist _
  · exact List.Sublist.refl _

theorem dropPlaceholder_sublist (tempId : Text) (ps : List Prompt) :
    (dropPlaceholder tempId ps).Sublist ps :=
  List.eraseP_sublist

theorem mem_swapIn {tempId : Text} (h : q ∈ swapIn tempId p ps) : q = p ∨ q ∈ ps := by
  induction ps with
  | nil => exact .inl (List.mem_singleton.mp h)
  | cons r ps ih =>
    unfold swapIn at h
    split at h
    · exact (List.mem_cons.mp h).imp_right (List.mem_cons_of_mem _)
    · rcases List.mem_cons.mp h with rfl | h
      · exact .inr (List.mem_cons_self ..)
      · exact (ih h).imp_right (List.mem_cons_of_mem _)

theorem foldl_dropLive_prompts (s : ChatStore) (ps : List Prompt) :
    (ps.foldl (fun s p => s.dropLive p.id) s).prompts = s.prompts := by
  induction ps generalizing s with
  | nil => rfl
  | cons p ps ih =>
    rw [List.foldl_cons, ih]
    rfl

theorem foldl_dropLive_view (s : ChatStore) (ps : List Prompt) :
    (ps.foldl (fun s p => s.dropLive p.id) s).view = s.view := by
  induction ps generalizing s with
  | nil => rfl
  | cons p ps ih =>
    rw [List.foldl_cons, ih]
    rfl

theorem reconcileStore_prompts (s : ChatStore) (view : ChatView) : (reconcileStore s view).prompts =
    keepTail (olderLocal s view ++ view.prompts ++ newerLocal s view) :=
  foldl_dropLive_prompts _ _

theorem reconcileStore_view (s : ChatStore) (view : ChatView) :
    (reconcileStore s view).view = some view :=
  foldl_dropLive_view _ _

theorem olderLocal_sublist (s : ChatStore) (view : ChatView) : (olderLocal s view).Sublist s.prompts :=
  List.filter_sublist.trans List.filter_sublist

theorem newerLocal_sublist (s : ChatStore) (view : ChatView) : (newerLocal s view).Sublist s.prompts :=
  List.filter_sublist.trans List.filter_sublist

/-- What a reconcile leaves in the store was there or is in the answer. -/
theorem mem_reconcileStore {s : ChatStore} {view : ChatView} (h : p ∈ (reconcileStore s view).prompts) :
    p ∈ view.prompts ∨ p ∈ s.prompts := by
  rw [reconcileStore_prompts] at h
  have hmem := (keepTail_sublist _).subset h
  rw [List.append_assoc] at hmem
  rcases List.mem_append.mp hmem with hp | hp
  · exact .inr ((olderLocal_sublist s view).subset hp)
  · rcases List.mem_append.mp hp with hp | hp
    · exact .inl hp
    · exact .inr ((newerLocal_sublist s view).subset hp)

end Lists

/-- A step that neither changes which prompts are shown nor what is recorded of them. -/
structure Still (s s' : Session) : Prop where
  faces : s'.store.prompts.map Prompt.face = s.store.prompts.map Prompt.face
  view : s'.store.view = s.store.view
  chatId : s'.chatId = s.chatId
  viewOf : s'.viewOf = s.viewOf
  synthesised : s'.synthesised = s.synthesised
  reconciled : s'.reconciled = s.reconciled

/-- A step of the client's, which may ask for something but sends no message. -/
structure Local (s s' : Session) : Prop where
  chats : s'.chats = s.chats
  queue : s'.queue = s.queue
  nextId : s'.nextId = s.nextId
  nextTemp : s'.nextTemp = s.nextTemp
  known : s'.known = s.known
  stands : s'.stands = s.stands
  flights : ∀ f ∈ s'.flights, f ∈ s.flights ∨ f.answer = none ∧ ∀ tempId body, f.verb ≠ .send tempId body

section Kinds

variable {s s' s'' : Session}

theorem Still.refl (s : Session) : Still s s := ⟨rfl, rfl, rfl, rfl, rfl, rfl⟩

theorem Still.trans (h : Still s s') (h' : Still s' s'') : Still s s'' :=
  ⟨h'.faces.trans h.faces, h'.view.trans h.view, h'.chatId.trans h.chatId, h'.viewOf.trans h.viewOf,
    h'.synthesised.trans h.synthesised, h'.reconciled.trans h.reconciled⟩

theorem Local.refl (s : Session) : Local s s := ⟨rfl, rfl, rfl, rfl, rfl, rfl, fun _ hf => .inl hf⟩

theorem Local.extends (h : Local s s') : Extends s.known s'.known := by
  rw [h.known]
  exact .refl _

theorem Local.trans (h : Local s s') (h' : Local s' s'') : Local s s'' := by
  refine ⟨h'.chats.trans h.chats, h'.queue.trans h.queue, h'.nextId.trans h.nextId,
    h'.nextTemp.trans h.nextTemp, h'.known.trans h.known, h'.stands.trans h.stands, fun f hf => ?_⟩
  rcases h'.flights f hf with hf | hf
  · exact h.flights f hf
  · exact .inr hf

end Kinds

namespace Session

variable {s s' : Session}

theorem still_ask (s : Session) (verb : Verb) (id : Uuid) : Still s (s.ask verb id) :=
  ⟨rfl, rfl, rfl, rfl, rfl, rfl⟩

theorem local_ask (s : Session) {verb : Verb} (hv : ∀ tempId body, verb ≠ .send tempId body) (id : Uuid) :
    Local s (s.ask verb id) := by
  refine ⟨rfl, rfl, rfl, rfl, rfl, rfl, fun f hf => ?_⟩
  rcases List.mem_append.mp hf with hf | hf
  · exact .inl hf
  · rw [List.mem_singleton.mp hf]
    exact .inr ⟨rfl, hv⟩

theorem local_reload (s : Session) : Local s s.reload := by
  have hblank : Local s { s with
      store := freshChatStore, loadingOlder := false, viewOf := none, reconciled := false } :=
    ⟨rfl, rfl, rfl, rfl, rfl, rfl, fun _ hf => .inl hf⟩
  unfold reload
  dsimp only
  split
  · exact hblank
  · exact hblank.trans (local_ask _ (by simp) _)

theorem still_reconcile (s : Session) : Still s s.reconcile := by
  unfold reconcile
  split
  · exact .refl s
  · exact still_ask s _ _

theorem local_reconcile (s : Session) : Local s s.reconcile := by
  unfold reconcile
  split
  · exact .refl s
  · exact local_ask s (by simp) _

theorem still_loadOlder (s : Session) : Still s s.loadOlder := by
  unfold loadOlder
  split
  · split
    · exact .refl s
    · exact ⟨rfl, rfl, rfl, rfl, rfl, rfl⟩
  · exact .refl s

theorem local_loadOlder (s : Session) : Local s s.loadOlder := by
  have hloading : Local s { s with loadingOlder := true } :=
    ⟨rfl, rfl, rfl, rfl, rfl, rfl, fun _ hf => .inl hf⟩
  unfold loadOlder
  split
  · split
    · exact .refl s
    · exact hloading.trans (local_ask _ (by simp) _)
  · exact .refl s

theorem still_stop (s : Session) : Still s s.stop := by
  unfold stop
  split
  · exact .refl s
  · exact still_ask s _ _

theorem local_stop (s : Session) : Local s s.stop := by
  unfold stop
  split
  · exact .refl s
  · exact local_ask s (by simp) _

theorem still_flush (s : Session) : Still s s.flush := ⟨rfl, rfl, rfl, rfl, rfl, rfl⟩

theorem local_flush (s : Session) : Local s s.flush :=
  ⟨rfl, rfl, rfl, rfl, rfl, rfl, fun _ hf => .inl hf⟩

theorem still_message (s : Session) (m : Message) : Still s (s.message m) := by
  cases m with
  | frame f => exact ⟨enqueue_face _ f, enqueue_view _ f, rfl, rfl, rfl, rfl⟩
  | subscribed => exact still_reconcile s
  | queueDispatched => exact still_reconcile s
  | chatIdle => exact still_reconcile s
  | other => exact .refl s

theorem local_message (s : Session) (m : Message) : Local s (s.message m) := by
  cases m with
  | frame f => exact ⟨rfl, rfl, rfl, rfl, rfl, rfl, fun _ hf => .inl hf⟩
  | subscribed => exact local_reconcile s
  | queueDispatched => exact local_reconcile s
  | chatIdle => exact local_reconcile s
  | other => exact .refl s

theorem local_select (s : Session) (id : Option Uuid) : Local s (s.select id) := by
  unfold select
  split
  · exact .refl s
  · have hid : Local s { s with chatId := id } := ⟨rfl, rfl, rfl, rfl, rfl, rfl, fun _ hf => .inl hf⟩
    exact (hid.trans (local_reload _)).trans (local_flush _)

theorem served_still (s : Session) (f : Flight) (busy : Bool) (w : Stamp) : Still s (s.served f busy w).1 := by
  unfold served
  split
  · split <;> exact .refl s
  · split <;> exact .refl s
  · split
    · exact .refl s
    · split <;> exact .refl s
  · split
    · exact .refl s
    · split <;> exact ⟨rfl, rfl, rfl, rfl, rfl, rfl⟩
  · exact .refl s

theorem local_resume (s : Session) (f : Flight) (a : Answer) : Local s (s.resume f a) := by
  have hsame : ∀ {s' : Session}, s'.chats = s.chats → s'.queue = s.queue → s'.nextId = s.nextId →
      s'.nextTemp = s.nextTemp → s'.known = s.known → s'.stands = s.stands → s'.flights = s.flights →
      Local s s' :=
    fun hc hq hi ht hk hs hf => ⟨hc, hq, hi, ht, hk, hs, fun f hm => .inl (hf ▸ hm)⟩
  unfold resume
  split
  · unfold reloaded
    split
    · split
      · exact .refl s
      · exact hsame rfl rfl rfl rfl rfl rfl rfl
    · exact hsame rfl rfl rfl rfl rfl rfl rfl
    · exact .refl s
  · unfold reconciledWith
    split
    · split
      · exact .refl s
      · exact hsame rfl rfl rfl rfl rfl rfl rfl
    · exact hsame rfl rfl rfl rfl rfl rfl rfl
    · exact .refl s
  · unfold olderLoaded
    split <;> exact hsame rfl rfl rfl rfl rfl rfl rfl
  · unfold sendAnswered
    split <;> exact hsame rfl rfl rfl rfl rfl rfl rfl
  · unfold stopAnswered
    split
    · split
      · exact hsame rfl rfl rfl rfl rfl rfl rfl
      · have hmark : Local s (s.unstickTail f.chatId) := hsame rfl rfl rfl rfl rfl rfl rfl
        exact hmark.trans (local_reconcile _)
    · exact .refl s

end Session

namespace Sound

variable {s s' : Session}

theorem after_local (h : Sound s) (hl : Local s s') (hheld : ∀ p ∈ s'.store.prompts, Held s.known p) :
    Sound s' := by
  refine ⟨?_, ?_, ?_, fun f hf a ha => ?_, fun f hf tempId body hv => ?_, ?_, ?_, ?_, ?_⟩
  · rw [hl.chats, hl.known]
    exact h.chats
  · rw [hl.nextId, hl.known]
    exact h.nextId
  · rw [hl.nextTemp, hl.known]
    exact h.nextTemp
  · rw [hl.known, hl.stands]
    rcases hl.flights f hf with hf | hf
    · exact h.answers f hf a ha
    · rw [hf.1] at ha
      cases ha
  · rw [hl.known]
    rcases hl.flights f hf with hf | hf
    · exact h.sends f hf tempId body hv
    · exact absurd hv (hf.2 tempId body)
  · rw [hl.queue, hl.known]
    exact h.queue
  · rw [hl.known]
    exact hheld
  · rw [hl.stands, hl.known]
    exact h.stands
  · rw [hl.stands]
    exact h.single

/-- Prompts with the faces of held ones are held. -/
theorem held_of_faces (h : Sound s) {ps : List Prompt}
    (hf : ps.map Prompt.face = s.store.prompts.map Prompt.face) : ∀ p ∈ ps, Held s.known p := by
  intro p hp
  have hp' : p.face ∈ s.store.prompts.map Prompt.face := hf ▸ List.mem_map_of_mem hp
  obtain ⟨q, hq, he⟩ := List.mem_map.mp hp'
  exact (h.held q hq).congr he

theorem after_still (h : Sound s) (hl : Local s s') (hs : Still s s') : Sound s' :=
  h.after_local hl (h.held_of_faces hs.faces)

theorem landed (h : Sound s) (i : Nat) : Sound { s with flights := s.flights.eraseIdx i } :=
  h.after_local ⟨rfl, rfl, rfl, rfl, rfl, rfl, fun _ hf => .inl (List.mem_of_mem_eraseIdx hf)⟩ h.held

theorem resume (h : Sound s) {f : Flight} {a : Answer} (ht : Truthful s.known s.stands f a) :
    Sound (s.resume f a) := by
  refine h.after_local (s.local_resume f a) ?_
  unfold Session.resume
  split
  · unfold Session.reloaded
    split
    · split
      · exact h.held
      · exact fun p hp => Listed.held ht hp
    · exact h.held
    · exact h.held
  · unfold Session.reconciledWith
    split
    · split
      · exact h.held
      · intro p hp
        rcases mem_reconcileStore hp with hp | hp
        · exact Listed.held ht hp
        · exact h.held p hp
    · exact h.held
    · exact h.held
  · unfold Session.olderLoaded
    split
    · intro p hp
      rcases List.mem_append.mp ((keepHead_sublist _).subset hp) with hp | hp
      · exact Listed.held ht hp
      · exact h.held p hp
    · exact h.held
    · exact h.held
  · unfold Session.sendAnswered
    split
    · intro p hp
      rcases mem_swapIn hp with rfl | hp
      · exact ht.1.held (List.mem_singleton.mpr rfl)
      · exact h.held p hp
    · exact fun p hp => h.held p ((dropPlaceholder_sublist _ _).subset hp)
    · exact fun p hp => h.held p ((dropPlaceholder_sublist _ _).subset hp)
  · unfold Session.stopAnswered
    split
    · split
      · exact h.held
      · exact h.held_of_faces ((Session.still_reconcile _).faces.trans (unstick_face _))
    · exact h.held

theorem dispatchBody (h : Sound s) (id : Uuid) (body : Text) : Sound (s.dispatchBody id body) := by
  have hnone : s.known (pendingId s.nextTemp) = none := h.nextTemp _ (Nat.le_refl _)
  have he : Extends s.known (Function.update s.known (pendingId s.nextTemp) (some (id, body))) :=
    extends_update hnone (id, body)
  have hself : Function.update s.known (pendingId s.nextTemp) (some (id, body)) (pendingId s.nextTemp) =
      some (id, body) := Function.update_self ..
  have hknown : (s.dispatchBody id body).known =
      Function.update s.known (pendingId s.nextTemp) (some (id, body)) := rfl
  refine ⟨fun id' c hc => (h.chats id' c hc).mono he, fun n hn => ?_, fun n hn => ?_, fun f hf a ha => ?_,
    fun f hf tempId body' hv => ?_, fun x hx => (h.queue x hx).mono he, fun p hp => ?_, fun x hx => ?_,
    h.single⟩
  · rw [hknown]
    exact unknown_update (promptId_ne_pendingId _ _) (h.nextId n hn) _
  · have hlt : s.nextTemp < n := hn
    have hne : pendingId n ≠ pendingId s.nextTemp := fun heq => Nat.ne_of_gt hlt (pendingId_inj heq)
    rw [hknown]
    exact unknown_update hne (h.nextTemp n (Nat.le_of_lt hlt)) _
  · rcases List.mem_append.mp hf with hf | hf
    · exact (h.answers f hf a ha).mono he (List.Subset.refl _)
    · rw [List.mem_singleton.mp hf] at ha
      cases ha
  · rcases List.mem_append.mp hf with hf | hf
    · exact (h.sends f hf tempId body' hv).mono he
    · rw [List.mem_singleton.mp hf] at hv ⊢
      cases hv
      rw [hknown]
      exact ⟨hself, pendingText_pendingId _⟩
  · rcases List.mem_append.mp ((pushPlaceholder_sublist _ _).subset hp) with hp | hp
    · exact (h.held p hp).mono he
    · rw [List.mem_singleton.mp hp, hknown]
      exact ⟨⟨id, hself⟩, iff_of_true (pendingText_pendingId _) (by simp)⟩
  · obtain ⟨hx1, hx2, y, hy1, hy2⟩ := h.stands x hx
    exact ⟨hx1, hx2, y, he _ _ hy1, he _ _ hy2⟩

theorem send (h : Sound s) (body : Text) : Sound (s.send body) := by
  unfold Session.send
  split
  · exact h
  · split
    · exact h
    · exact h.dispatchBody _ body

/-- A chat of the server whose list of prompts has become another. -/
theorem listed_update {known : Text → Option (Uuid × Text)} {chats : Uuid → Option ChatRecord} {id : Uuid}
    {new : Option ChatRecord} (h : ∀ id c, chats id = some c → Listed known id (c.prompts.map promptJson))
    (hnew : ∀ c, new = some c → Listed known id (c.prompts.map promptJson)) (id' : Uuid) (c : ChatRecord)
    (hc : Function.update chats id new id' = some c) : Listed known id' (c.prompts.map promptJson) := by
  by_cases he : id' = id
  · subst he
    rw [Function.update_self] at hc
    exact hnew c hc
  · rw [Function.update_of_ne he] at hc
    exact h id' c hc

theorem setChat (h : Sound s) (id : Uuid) {f : List PromptRecord → List PromptRecord}
    (hf : ∀ ps, Listed s.known id (ps.map promptJson) → Listed s.known id ((f ps).map promptJson)) :
    Sound (s.setChat id f) := by
  refine ⟨listed_update h.chats fun c hc => ?_, h.nextId, h.nextTemp, h.answers, h.sends, h.queue, h.held,
    h.stands, h.single⟩
  obtain ⟨c', hc', rfl⟩ := Option.map_eq_some_iff.mp hc
  exact hf _ (h.chats id c' hc')

theorem addPrompt_known (s : Session) (id : Uuid) (c : ChatRecord) (content : Text) (w : Stamp) :
    (s.addPrompt id c content w).known =
      Function.update s.known (promptId s.nextId) (some (id, content)) := rfl

theorem addPrompt (h : Sound s) {id : Uuid} {c : ChatRecord} (hc : s.chats id = some c) (content : Text)
    (w : Stamp) : Sound (s.addPrompt id c content w) := by
  have hnone : s.known (promptId s.nextId) = none := h.nextId _ (Nat.le_refl _)
  have he : Extends s.known (Function.update s.known (promptId s.nextId) (some (id, content))) :=
    extends_update hnone (id, content)
  refine ⟨listed_update (fun id' c' hc' => (h.chats id' c' hc').mono he) fun c' hc' => ?_, fun n hn => ?_,
    fun n hn => ?_, fun f hf a ha => (h.answers f hf a ha).mono he (List.Subset.refl _),
    fun f hf tempId body hv => (h.sends f hf tempId body hv).mono he, fun x hx => (h.queue x hx).mono he,
    fun p hp => (h.held p hp).mono he, fun x hx => ?_, h.single⟩
  · cases hc'
    exact (h.chats id c hc).append hnone content w
  · have hlt : s.nextId < n := hn
    have hne : promptId n ≠ promptId s.nextId := fun heq => Nat.ne_of_gt hlt (promptId_inj heq)
    rw [addPrompt_known]
    exact unknown_update hne (h.nextId n (Nat.le_of_lt hlt)) _
  · rw [addPrompt_known]
    exact unknown_update (promptId_ne_pendingId _ _).symm (h.nextTemp n hn) _
  · obtain ⟨hx1, hx2, y, hy1, hy2⟩ := h.stands x hx
    exact ⟨hx1, hx2, y, he _ _ hy1, he _ _ hy2⟩

theorem dispatch_known (s : Session) (id : Uuid) (c : ChatRecord) (tempId body : Text) (w : Stamp) :
    (s.dispatch id c tempId body w).known = Function.update s.known (promptId s.nextId) (some (id, body)) :=
  rfl

theorem dispatch (h : Sound s) {id : Uuid} {c : ChatRecord} (hc : s.chats id = some c) {tempId body : Text}
    (hsent : Sent s.known tempId id body) (w : Stamp) : Sound (s.dispatch id c tempId body w) := by
  have hnone : s.known (promptId s.nextId) = none := h.nextId _ (Nat.le_refl _)
  have he : Extends s.known (Function.update s.known (promptId s.nextId) (some (id, body))) :=
    extends_update hnone (id, body)
  have hadd := h.addPrompt hc body w
  refine ⟨hadd.chats, hadd.nextId, hadd.nextTemp,
    fun f hf a ha => (hadd.answers f hf a ha).mono (.refl _) (List.subset_append_left _ _), hadd.sends,
    hadd.queue, hadd.held, fun x hx => ?_, ?_⟩
  · rcases List.mem_append.mp hx with hx | hx
    · exact hadd.stands x hx
    · rw [List.mem_singleton.mp hx, dispatch_known]
      dsimp only
      exact ⟨hsent.2, pendingText_promptId _, (id, body), he _ _ hsent.1, Function.update_self ..⟩
  · change ((s.stands ++ [(tempId, promptId s.nextId)]).map Prod.snd).Nodup
    rw [List.map_append, List.nodup_append]
    refine ⟨h.single, List.nodup_singleton _, fun a ha b hb => ?_⟩
    obtain ⟨x, hx, rfl⟩ := List.mem_map.mp ha
    rw [List.map_singleton, List.mem_singleton] at hb
    intro heq
    obtain ⟨-, -, y, -, hy⟩ := h.stands x hx
    rw [heq, hb] at hy
    rw [show s.known (promptId s.nextId) = none from hnone] at hy
    cases hy

/-- What the server has answered is so. -/
theorem answered (h : Sound s) {i : Nat} {f : Flight} {a : Answer} (hi : s.flights[i]? = some f)
    (ht : Truthful s.known s.stands f a) : Sound (s.setAnswer i f a) := by
  refine ⟨h.chats, h.nextId, h.nextTemp, fun g hg b hb => ?_, fun g hg tempId body hv => ?_, h.queue, h.held,
    h.stands, h.single⟩
  · rcases mem_set hg with rfl | hg
    · cases hb
      cases a with
      | dispatched p => exact ht
      | view view => exact ht
      | page prompts atStart => exact ht
      | _ => trivial
    · exact h.answers g hg b hb
  · rcases mem_set hg with rfl | hg
    · exact h.sends f (List.mem_of_getElem? hi) tempId body hv
    · exact h.sends g hg tempId body hv

/-- The server answers truthfully. -/
theorem served (h : Sound s) {f : Flight} (hf : f ∈ s.flights) (busy : Bool) (w : Stamp) :
    Sound (s.served f busy w).1 ∧
      Truthful (s.served f busy w).1.known (s.served f busy w).1.stands f (s.served f busy w).2 ∧
      (s.served f busy w).1.flights = s.flights := by
  unfold Session.served
  cases hv : f.verb with
  | reload =>
    cases hc : s.chats f.chatId with
    | none => exact ⟨h, trivial, rfl⟩
    | some c => exact ⟨h, (h.chats _ c hc).view, rfl⟩
  | reconcile =>
    cases hc : s.chats f.chatId with
    | none => exact ⟨h, trivial, rfl⟩
    | some c => exact ⟨h, (h.chats _ c hc).view, rfl⟩
  | loadOlder before =>
    dsimp only
    split
    · exact ⟨h, trivial, rfl⟩
    · cases hc : s.chats f.chatId with
      | none => exact ⟨h, trivial, rfl⟩
      | some c => exact ⟨h, (h.chats _ c hc).page _ _, rfl⟩
  | send tempId body =>
    have hsent := h.sends f hf tempId body hv
    cases hc : s.chats f.chatId with
    | none => exact ⟨h, trivial, rfl⟩
    | some c =>
      cases busy with
      | true =>
        refine ⟨⟨h.chats, h.nextId, h.nextTemp, h.answers, h.sends, fun x hx => ?_, h.held, h.stands,
          h.single⟩, trivial, rfl⟩
        rcases List.mem_append.mp hx with hx | hx
        · exact h.queue x hx
        · rw [List.mem_singleton.mp hx]
          exact hsent
      | false =>
        have hd := h.dispatch hc hsent w
        refine ⟨hd, ⟨?_, tempId, body, hv, List.mem_append_right _ (List.mem_singleton.mpr rfl)⟩, rfl⟩
        refine (hd.chats f.chatId _ (Function.update_self ..)).sublist ?_
        rw [List.map_append]
        exact List.sublist_append_right _ _
  | stop => exact ⟨h, trivial, rfl⟩

theorem served_extends (h : Sound s) (f : Flight) (busy : Bool) (w : Stamp) :
    Extends s.known (s.served f busy w).1.known := by
  unfold Session.served
  split
  · split <;> exact .refl _
  · split <;> exact .refl _
  · split
    · exact .refl _
    · split <;> exact .refl _
  · split
    · exact .refl _
    · split
      · exact .refl _
      · exact extends_update (h.nextId _ (Nat.le_refl _)) _
  · exact .refl _

theorem step (h : Sound s) {e : SessionEvent} (he : s.step e = some s') : Sound s' := by
  cases e with
  | select id =>
    cases he
    refine h.after_local (s.local_select id) ?_
    unfold Session.select
    split
    · exact h.held
    · intro p hp
      unfold Session.reload at hp
      dsimp only at hp
      split at hp <;> cases hp
  | reload =>
    cases he
    refine h.after_local s.local_reload ?_
    intro p hp
    unfold Session.reload at hp
    dsimp only at hp
    split at hp <;> cases hp
  | reconcile =>
    cases he
    exact h.after_still s.local_reconcile s.still_reconcile
  | loadOlder =>
    cases he
    exact h.after_still s.local_loadOlder s.still_loadOlder
  | send body =>
    cases he
    exact h.send body
  | stop =>
    cases he
    exact h.after_still s.local_stop s.still_stop
  | message m =>
    cases he
    exact h.after_still (s.local_message m) (s.still_message m)
  | flush =>
    cases he
    exact h.after_still s.local_flush s.still_flush
  | serve i busy w =>
    simp only [Session.step] at he
    split at he
    · rename_i verb id hi
      cases he
      obtain ⟨hs, ht, hflights⟩ := h.served (List.mem_of_getElem? hi) busy w
      exact hs.answered (hflights ▸ hi) ht
    · cases he
  | lose i message =>
    obtain ⟨f, hi, rfl⟩ := Option.map_eq_some_iff.mp he
    exact h.answered hi trivial
  | answer i =>
    simp only [Session.step] at he
    split at he
    · rename_i verb id a hi
      cases he
      exact (h.landed i).resume (h.answers _ (List.mem_of_getElem? hi) a rfl)
    · cases he
  | grow id content w =>
    obtain ⟨c, hc, rfl⟩ := Option.map_eq_some_iff.mp he
    exact h.addPrompt hc content w
  | drain i w =>
    obtain ⟨item, hi, he⟩ := Option.bind_eq_some_iff.mp he
    obtain ⟨c, hc, rfl⟩ := Option.map_eq_some_iff.mp he
    have hd := h.dispatch hc (h.queue item (List.mem_of_getElem? hi)) w
    exact ⟨hd.chats, hd.nextId, hd.nextTemp, hd.answers, hd.sends,
      fun x hx => hd.queue x (List.mem_of_mem_eraseIdx hx), hd.held, hd.stands, hd.single⟩
  | truncate id fromSeq =>
    cases he
    exact h.setChat id fun ps hps => hps.sublist (List.filter_sublist.map _)
  | record id target events =>
    cases he
    refine h.setChat id fun ps hps => hps.congr ?_
    simp only [List.map_map]
    apply List.map_congr_left
    intro p _
    by_cases hp : p.id = target
    · simp [hp, promptJson, Prompt.face]
    · simp [hp]

theorem start (chats : Uuid → Option ChatRecord) : Sound (Session.start chats) := by
  refine ⟨fun id c hc => ?_, fun _ _ => rfl, fun _ _ => rfl, fun _ hf => (nomatch hf), fun _ hf => (nomatch hf),
    fun _ hx => (nomatch hx), fun _ hp => (nomatch hp), fun _ hx => (nomatch hx), .nil⟩
  obtain ⟨c', -, rfl⟩ := Option.map_eq_some_iff.mp hc
  exact ⟨.nil, fun _ hp => (nomatch hp), fun _ hp => (nomatch hp), fun _ hp => (nomatch hp), .nil⟩

end Sound

end AgentGrove.Web
