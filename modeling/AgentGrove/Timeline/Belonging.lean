import AgentGrove.Timeline.Distinct

namespace AgentGrove.Web

open Coop

/-- The chat that an id was made for. -/
def Session.ownerOf (s : Session) (id : Text) : Option Uuid := (s.known id).map Prod.fst

/-- All that the store holds is of the selected chat. -/
structure Belongs (s : Session) : Prop where
  prompts : ∀ p ∈ s.store.prompts, s.chatId.isSome = true ∧ s.ownerOf p.id = s.chatId
  view : s.store.view.isSome = true → s.chatId.isSome = true ∧ s.viewOf = s.chatId
  synthesised : ∀ x ∈ s.synthesised, x.2 ∈ s.shown → s.chatId = some x.1

/-- An answer arrives in the chat it was asked for in, if it has anything for the store that
the session does not check by itself. -/
def AtHome (s : Session) (f : Flight) : Verb → Answer → Prop
  | .loadOlder _, .page prompts _ => prompts ≠ [] → s.chatId = some f.chatId
  | .send _ _, .dispatched _ => s.chatId = some f.chatId
  | .stop, .error message =>
    containsText message "404".toList = true → s.stuck.isSome = true → s.chatId = some f.chatId
  | _, _ => True

def Settled (s : Session) : SessionEvent → Prop
  | .answer i => ∀ f ∈ s.flights[i]?, ∀ a ∈ f.answer, AtHome s f f.verb a
  | _ => True

/-- The invariant: a synthesised event is also of its prompt's chat while it is not shown. -/
structure Owned (s : Session) : Prop where
  prompts : ∀ p ∈ s.store.prompts, s.chatId.isSome = true ∧ s.ownerOf p.id = s.chatId
  view : s.store.view.isSome = true → s.chatId.isSome = true ∧ s.viewOf = s.chatId
  marks : ∀ x ∈ s.synthesised, s.ownerOf x.2 = some x.1

namespace Owned

variable {s s' : Session}

theorem belongs (h : Owned s) : Belongs s := by
  refine ⟨h.prompts, h.view, fun x hx hs => ?_⟩
  obtain ⟨p, hp, hid⟩ := List.mem_map.mp hs
  rw [← (h.prompts p hp).2, hid]
  exact h.marks x hx

theorem ownerOf_extends (he : Extends s.known s'.known) {id : Text} {c : Uuid}
    (h : s.ownerOf id = some c) : s'.ownerOf id = some c := by
  obtain ⟨x, hx, rfl⟩ := Option.map_eq_some_iff.mp h
  simp [Session.ownerOf, he _ _ hx]

/-- What is left of the store keeps its chat. -/
theorem less (h : Owned s) (he : Extends s.known s'.known) (hchat : s'.chatId = s.chatId)
    (hless : ∀ p ∈ s'.store.prompts, p.id ∈ s.shown) (hview : s'.store.view = s.store.view)
    (hviewOf : s'.viewOf = s.viewOf) (hmarks : s'.synthesised = s.synthesised) : Owned s' := by
  refine ⟨fun p hp => ?_, fun hv => ?_, fun x hx => ?_⟩
  · obtain ⟨q, hq, hid⟩ := List.mem_map.mp (hless p hp)
    obtain ⟨hsome, howner⟩ := h.prompts q hq
    rw [hchat]
    obtain ⟨c, hc⟩ := Option.isSome_iff_exists.mp hsome
    refine ⟨hsome, ?_⟩
    rw [← hid, hc]
    exact ownerOf_extends he (howner.trans hc)
  · rw [hview] at hv
    rw [hchat, hviewOf]
    exact h.view hv
  · rw [hmarks] at hx
    exact ownerOf_extends he (h.marks x hx)

theorem shown_of_faces {ps : List Prompt} (hf : ps.map Prompt.face = s.store.prompts.map Prompt.face) :
    ∀ p ∈ ps, p.id ∈ s.shown := by
  intro p hp
  have hp' : p.face ∈ s.store.prompts.map Prompt.face := hf ▸ List.mem_map_of_mem hp
  obtain ⟨q, hq, he⟩ := List.mem_map.mp hp'
  exact List.mem_map.mpr ⟨q, hq, (face_fields he).1⟩

theorem after_still (h : Owned s) (he : Extends s.known s'.known) (hs : Still s s') : Owned s' :=
  h.less he hs.chatId (shown_of_faces hs.faces) hs.view hs.viewOf hs.synthesised

/-- An emptied store. -/
theorem blank (h : Owned s) (hk : s'.known = s.known) (hp : s'.store.prompts = [])
    (hv : s'.store.view = none) (hm : s'.synthesised = s.synthesised) : Owned s' := by
  refine ⟨fun p hp' => ?_, fun hv' => ?_, fun x hx => ?_⟩
  · rw [hp] at hp'
    cases hp'
  · rw [hv] at hv'
    cases hv'
  · rw [hm] at hx
    rw [Session.ownerOf, hk]
    exact h.marks x hx

theorem reload (h : Owned s) : Owned s.reload := by
  unfold Session.reload
  dsimp only
  split
  · exact h.blank rfl rfl rfl rfl
  · exact h.blank rfl rfl rfl rfl

theorem owner_of_listed {known : Text → Option (Uuid × Text)} {id : Uuid} {ps : List Prompt} {p : Prompt}
    (h : Listed known id ps) (hp : p ∈ ps) : (known p.id).map Prod.fst = some id := by
  rw [h.known p hp]
  rfl

theorem dispatchBody (h : Owned s) (hs : Sound s) {id : Uuid} (hc : s.chatId = some id) (body : Text) :
    Owned (s.dispatchBody id body) := by
  have he : Extends s.known (Function.update s.known (pendingId s.nextTemp) (some (id, body))) :=
    extends_update (hs.nextTemp _ (Nat.le_refl _)) (id, body)
  have hall : ∀ p ∈ s.store.prompts, (s.dispatchBody id body).ownerOf p.id = s.chatId := by
    intro p hp
    obtain ⟨-, howner⟩ := h.prompts p hp
    rw [hc] at howner ⊢
    exact ownerOf_extends he howner
  refine ⟨fun p hp => ⟨Option.isSome_of_eq_some hc, ?_⟩, h.view, fun x hx => ownerOf_extends he (h.marks x hx)⟩
  rcases List.mem_append.mp ((pushPlaceholder_sublist _ _).subset hp) with hp | hp
  · exact hall p hp
  · rw [List.mem_singleton.mp hp]
    refine Eq.trans ?_ hc.symm
    simp [Session.ownerOf, Session.dispatchBody, Session.ask, Session.setPrompts]

theorem send (h : Owned s) (hs : Sound s) (body : Text) : Owned (s.send body) := by
  unfold Session.send
  split
  · exact h
  · rename_i id hc
    split
    · exact h
    · exact h.dispatchBody hs hc body

/-- Prompts of the selected chat come to those of the store. -/
theorem more (h : Owned s) {id : Uuid} (hc : s.chatId = some id) {ps qs : List Prompt}
    (hl : Listed s.known id ps) (hqs : ∀ p ∈ qs, p ∈ ps ∨ p ∈ s.store.prompts) :
    ∀ p ∈ qs, s.chatId.isSome = true ∧ s.ownerOf p.id = s.chatId := by
  intro p hp
  rcases hqs p hp with hp | hp
  · rw [hc]
    exact ⟨rfl, owner_of_listed hl hp⟩
  · exact h.prompts p hp

theorem resume (h : Owned s) {f : Flight} {a : Answer} (ha : Truthful s.known s.stands f a)
    (ht : AtHome s f f.verb a) : Owned (s.resume f a) := by
  have hsame : ∀ {s' : Session}, s'.known = s.known → s'.chatId = s.chatId → s'.store = s.store →
      s'.viewOf = s.viewOf → s'.synthesised = s.synthesised → Owned s' := by
    intro s' hk hchat hstore hviewOf hmarks
    refine h.less (hk ▸ Extends.refl _) hchat (fun p hp => ?_) (by rw [hstore]) hviewOf hmarks
    rw [hstore] at hp
    exact List.mem_map_of_mem hp
  unfold Session.resume
  cases hv : f.verb with
  | reload =>
    cases a with
    | view view =>
      unfold Session.reloaded
      dsimp only
      split
      · exact h
      · rename_i hc
        have hc : s.chatId = some f.chatId := not_not.mp hc
        exact ⟨h.more hc ha fun p hp => .inl hp, fun _ => ⟨Option.isSome_of_eq_some hc, hc.symm⟩, h.marks⟩
    | _ => exact hsame rfl rfl rfl rfl rfl
  | reconcile =>
    cases a with
    | view view =>
      unfold Session.reconciledWith
      dsimp only
      split
      · exact h
      · rename_i hc
        have hc : s.chatId = some f.chatId := not_not.mp hc
        exact ⟨h.more hc ha fun p hp => mem_reconcileStore hp, fun _ => ⟨Option.isSome_of_eq_some hc, hc.symm⟩, h.marks⟩
    | _ => exact hsame rfl rfl rfl rfl rfl
  | loadOlder before =>
    cases a with
    | page prompts atStart =>
      rw [hv] at ht
      refine ⟨fun p hp => ?_, h.view, h.marks⟩
      rcases List.mem_append.mp ((keepHead_sublist _).subset hp) with hp | hp
      · have hc : s.chatId = some f.chatId := ht (List.ne_nil_of_mem hp)
        exact h.more hc ha (fun p hp => .inl hp) p hp
      · exact h.prompts p hp
    | _ => exact hsame rfl rfl rfl rfl rfl
  | send tempId body =>
    have hdrop : ∀ {s' : Session}, s'.known = s.known → s'.chatId = s.chatId →
        s'.store = (s.setPrompts (dropPlaceholder tempId s.store.prompts)).store →
        s'.viewOf = s.viewOf → s'.synthesised = s.synthesised → Owned s' := by
      intro s' hk hchat hstore hviewOf hmarks
      refine h.less (hk ▸ Extends.refl _) hchat (fun p hp => ?_) (by rw [hstore]; rfl) hviewOf hmarks
      rw [hstore] at hp
      exact List.mem_map_of_mem ((dropPlaceholder_sublist _ _).subset hp)
    cases a with
    | dispatched p =>
      rw [hv] at ht
      refine ⟨h.more ht ha.1 fun q hq => ?_, h.view, h.marks⟩
      exact (mem_swapIn hq).imp_left List.mem_singleton.mpr
    | _ => exact hdrop rfl rfl rfl rfl rfl
  | stop =>
    cases a with
    | error message =>
      unfold Session.stopAnswered
      dsimp only
      split
      · exact hsame rfl rfl rfl rfl rfl
      · rename_i hm
        rw [hv] at ht
        have hmarked : Owned (s.unstickTail f.chatId) := by
          refine ⟨fun p hp => ?_, h.view, fun x hx => ?_⟩
          · obtain ⟨q, hq, hid⟩ := List.mem_map.mp (shown_of_faces (unstick_face _) p hp)
            have hown := h.prompts q hq
            rw [hid] at hown
            exact hown
          · rcases List.mem_append.mp hx with hx | hx
            · exact h.marks x hx
            · obtain ⟨id, hid, rfl⟩ := Option.map_eq_some_iff.mp (Option.mem_toList.mp hx)
              obtain ⟨p, hp, rfl⟩ := Option.map_eq_some_iff.mp hid
              have hc : s.chatId = some f.chatId :=
                ht (by simpa using hm) (by rw [show s.stuck = some p.id from hid]; rfl)
              have hmem := List.mem_of_getLast? (Option.filter_eq_some_iff.mp hp).1
              exact (h.prompts p hmem).2.trans hc
        exact hmarked.after_still (Session.local_reconcile _).extends (Session.still_reconcile _)
    | _ => exact hsame rfl rfl rfl rfl rfl

theorem step (h : Owned s) (hs : Sound s) {e : SessionEvent} (ht : Settled s e) (he : s.step e = some s') :
    Owned s' := by
  -- A step of the server's adds to what is known and leaves the session as it is.
  have hserver : ∀ {s' : Session}, Extends s.known s'.known → s'.chatId = s.chatId → s'.store = s.store →
      s'.viewOf = s.viewOf → s'.synthesised = s.synthesised → Owned s' := by
    intro s' hk hchat hstore hviewOf hmarks
    refine h.less hk hchat (fun p hp => ?_) (by rw [hstore]) hviewOf hmarks
    rw [hstore] at hp
    exact List.mem_map_of_mem hp
  have hnew : ∀ id (content : Text), Extends s.known
      (Function.update s.known (promptId s.nextId) (some (id, content))) :=
    fun id content => extends_update (hs.nextId _ (Nat.le_refl _)) (id, content)
  cases e with
  | select id =>
    cases he
    unfold Session.select
    split
    · exact h
    · have hreload : Owned ({ s with chatId := id }.reload) := by
        unfold Session.reload
        dsimp only
        split
        · exact h.blank rfl rfl rfl rfl
        · exact h.blank rfl rfl rfl rfl
      exact hreload.after_still (Session.local_flush _).extends (Session.still_flush _)
  | reload =>
    cases he
    exact h.reload
  | reconcile =>
    cases he
    exact h.after_still s.local_reconcile.extends s.still_reconcile
  | loadOlder =>
    cases he
    exact h.after_still s.local_loadOlder.extends s.still_loadOlder
  | send body =>
    cases he
    exact h.send hs body
  | stop =>
    cases he
    exact h.after_still s.local_stop.extends s.still_stop
  | message m =>
    cases he
    exact h.after_still (s.local_message m).extends (s.still_message m)
  | flush =>
    cases he
    exact h.after_still s.local_flush.extends s.still_flush
  | serve i busy w =>
    simp only [Session.step] at he
    split at he
    · rename_i verb id hi
      cases he
      have hk := hs.served_extends ⟨verb, id, none⟩ busy w
      have hsame := s.served_still ⟨verb, id, none⟩ busy w
      exact h.less hk hsame.chatId (shown_of_faces hsame.faces) hsame.view hsame.viewOf hsame.synthesised
    · cases he
  | lose i message =>
    obtain ⟨f, hi, rfl⟩ := Option.map_eq_some_iff.mp he
    exact hserver (.refl _) rfl rfl rfl rfl
  | answer i =>
    simp only [Session.step] at he
    split at he
    · rename_i verb id a hi
      cases he
      have htruth := hs.answers _ (List.mem_of_getElem? hi) a rfl
      have hd : Owned { s with flights := s.flights.eraseIdx i } := ⟨h.prompts, h.view, h.marks⟩
      refine hd.resume htruth ?_
      have hin := ht _ hi a rfl
      cases verb <;> cases a <;> exact hin
    · cases he
  | grow id content w =>
    obtain ⟨c, hc, rfl⟩ := Option.map_eq_some_iff.mp he
    exact hserver (hnew id content) rfl rfl rfl rfl
  | drain i w =>
    obtain ⟨item, hi, he⟩ := Option.bind_eq_some_iff.mp he
    obtain ⟨c, hc, rfl⟩ := Option.map_eq_some_iff.mp he
    exact hserver (hnew item.chatId item.body) rfl rfl rfl rfl
  | truncate id fromSeq =>
    cases he
    exact hserver (.refl _) rfl rfl rfl rfl
  | record id target events =>
    cases he
    exact hserver (.refl _) rfl rfl rfl rfl

end Owned

/-- While answers arrive at home, the store holds nothing of another chat. -/
theorem store_belongs (chats : Uuid → Option ChatRecord) {s : Session}
    (h : Session.machine.Reaches Settled (Session.start chats) s) : Belongs s := by
  have hstart : Owned (Session.start chats) :=
    ⟨fun _ hp => (nomatch hp), fun hv => (nomatch hv), fun _ hx => (nomatch hx)⟩
  have hboth : Sound s ∧ Owned s := by
    apply h.keeps ⟨.start chats, hstart⟩
    intro s e s' hv ht he
    exact ⟨hv.1.step he, hv.2.step hv.1 ht he⟩
  exact hboth.2.belongs

instance (s : Session) (f : Flight) : (verb : Verb) → (a : Answer) → Decidable (AtHome s f verb a)
  | .loadOlder _, .page prompts _ => inferInstanceAs (Decidable (prompts ≠ [] → _))
  | .send _ _, .dispatched _ => inferInstanceAs (Decidable (s.chatId = some f.chatId))
  | .stop, .error _ => inferInstanceAs (Decidable (_ → _ → _))
  | .reload, _ | .reconcile, _ => .isTrue trivial
  | .loadOlder _, .view _ | .loadOlder _, .dispatched _ | .loadOlder _, .queued | .loadOlder _, .stopped
  | .loadOlder _, .error _ => .isTrue trivial
  | .send _ _, .view _ | .send _ _, .page _ _ | .send _ _, .queued | .send _ _, .stopped
  | .send _ _, .error _ => .isTrue trivial
  | .stop, .view _ | .stop, .page _ _ | .stop, .dispatched _ | .stop, .queued | .stop, .stopped => .isTrue trivial

instance (s : Session) : (e : SessionEvent) → Decidable (Settled s e)
  | .answer i => inferInstanceAs (Decidable (∀ f ∈ s.flights[i]?, ∀ a ∈ f.answer, AtHome s f f.verb a))
  | .select _ | .reload | .reconcile | .loadOlder | .send _ | .stop | .message _ | .flush | .serve _ _ _
  | .lose _ _ | .grow _ _ _ | .drain _ _ | .truncate _ _ | .record _ _ _ => .isTrue trivial

/-- A message is answered before the other chat is opened, and a view of the first chat after that. -/
def leftBehind : List SessionEvent :=
  [.select (some 1), .send ['a'], .serve 1 false {}, .answer 1, .serve 0 false {}, .select (some 2), .answer 0,
    .stop, .lose 1 "404".toList, .serve 0 false {}, .answer 0, .answer 0]

theorem store_belongs_left_behind :
    ∃ s : Session, (Session.machine.Reaches Settled (Session.start someChat) s ∧
        s.chatId = some 2 ∧ s.shown = []) ∧ Belongs s := by
  have hrun : ((Session.machine.play Settled (Session.start someChat) leftBehind).map
      (fun s => (s.chatId, s.shown))) = some (some 2, []) := by decide
  obtain ⟨s, hs, hfinal⟩ := Option.map_eq_some_iff.mp hrun
  simp only [Prod.mk.injEq] at hfinal
  have hreach := Machine.play_reaches hs
  exact ⟨s, ⟨hreach, hfinal⟩, store_belongs someChat hreach⟩

/-- The answer of a message comes after the switch. -/
def carriedOver : List SessionEvent :=
  [.select (some 1), .send ['a'], .serve 1 false {}, .select (some 2), .answer 1]

theorem prompt_of_other_chat :
    ¬ ∀ (chats : Uuid → Option ChatRecord) (s : Session),
      Session.machine.Reaches Machine.anyEvent (Session.start chats) s → Belongs s := by
  intro hall
  have hrun : ((Session.machine.play Machine.anyEvent (Session.start someChat) carriedOver).map
      (fun s => (s.chatId, s.shown.map s.ownerOf))) = some (some 2, [some 1]) := by decide
  obtain ⟨s, hs, hfinal⟩ := Option.map_eq_some_iff.mp hrun
  simp only [Prod.mk.injEq] at hfinal
  have hb := (hall someChat s (Machine.play_reaches hs)).prompts
  have howner : ∀ o ∈ s.shown.map s.ownerOf, o = s.chatId := by
    intro o ho
    obtain ⟨id, hid, rfl⟩ := List.mem_map.mp ho
    obtain ⟨p, hp, rfl⟩ := List.mem_map.mp hid
    exact (hb p hp).2
  rw [hfinal.1, hfinal.2] at howner
  exact absurd (howner (some 1) (List.mem_singleton.mpr rfl)) (by decide)

end AgentGrove.Web
