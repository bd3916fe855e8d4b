import AgentGrove.Timeline.Sound

namespace AgentGrove.Web

open Coop

/-- The ids of the prompts on screen. -/
def Session.shown (s : Session) : List Text := s.store.prompts.map Prompt.id

/-- No prompt is on screen twice, nor beside the placeholder it replaces. -/
structure Distinct (s : Session) : Prop where
  nodup : s.shown.Nodup
  replaced : ∀ x ∈ s.stands, x.1 ∈ s.shown → x.2 ∉ s.shown

/-- An answer comes in time: an empty view while no prompt of the server's is on screen, a
page while none of its prompts is, nor its placeholder, as far as the cap leaves room, and
the prompt of a message while it is not on screen. -/
def InTime (s : Session) (f : Flight) : Verb → Answer → Prop
  | .reconcile, .view view =>
    s.chatId = some f.chatId → view.prompts = [] → ∀ p ∈ s.store.prompts, p.seq < 0
  | .loadOlder _, .page prompts _ => ∀ p ∈ prompts,
      ∀ q ∈ s.store.prompts.take (maxPromptsInView - prompts.length), q.id ≠ p.id ∧ (q.id, p.id) ∉ s.stands
  | .send _ _, .dispatched p => p.id ∉ s.shown
  | _, _ => True

def Timely (s : Session) : SessionEvent → Prop
  | .answer i => ∀ f ∈ s.flights[i]?, ∀ a ∈ f.answer, InTime s f f.verb a
  | _ => True

section Lists

variable {ps qs : List Prompt} {p : Prompt} {tempId : Text}

theorem nodup_swapIn (h : (ps.map Prompt.id).Nodup) (hp : p.id ∉ ps.map Prompt.id) :
    ((swapIn tempId p ps).map Prompt.id).Nodup := by
  induction ps with
  | nil => exact List.nodup_singleton _
  | cons q ps ih =>
    rw [List.map_cons, List.nodup_cons] at h
    rw [List.map_cons, List.mem_cons, not_or] at hp
    unfold swapIn
    split
    · exact List.nodup_cons.mpr ⟨hp.2, h.2⟩
    · refine List.nodup_cons.mpr ⟨fun hm => ?_, ih h.2 hp.2⟩
      obtain ⟨r, hr, he⟩ := List.mem_map.mp hm
      rcases mem_swapIn hr with rfl | hr
      · exact hp.1 he
      · exact h.1 (he ▸ List.mem_map_of_mem hr)

/-- The placeholder is gone. -/
theorem swapIn_replaces (h : (ps.map Prompt.id).Nodup) (hp : p.id ≠ tempId) :
    tempId ∉ (swapIn tempId p ps).map Prompt.id := by
  induction ps with
  | nil => simpa [swapIn] using hp.symm
  | cons q ps ih =>
    rw [List.map_cons, List.nodup_cons] at h
    unfold swapIn
    split
    · rename_i hq
      rw [List.map_cons, List.mem_cons, not_or]
      exact ⟨hp.symm, hq ▸ h.1⟩
    · rename_i hq
      rw [List.map_cons, List.mem_cons, not_or]
      exact ⟨Ne.symm hq, ih h.2⟩

theorem keepHead_eq (ps : List Prompt) : keepHead ps = ps.take maxPromptsInView := by
  unfold keepHead
  split
  · rfl
  · exact (List.take_of_length_le (by omega)).symm

theorem head_le_last {a b : Prompt} (h : ps.Pairwise (fun p q => p.seq < q.seq)) (ha : ps.head? = some a)
    (hb : ps.getLast? = some b) : a.seq ≤ b.seq := by
  cases ps with
  | nil => cases ha
  | cons q ps =>
    cases ha
    rcases List.mem_cons.mp (List.mem_of_getLast? hb) with rfl | hm
    · exact Int.le_refl _
    · exact Int.le_of_lt (List.rel_of_pairwise_cons h hm)

end Lists

section Merge

variable {s : ChatStore} {view : ChatView} {known : Text → Option (Uuid × Text)} {id : Uuid} {p q : Prompt}

theorem localOnly_prompts (h : p ∈ localOnly s view) : p ∈ s.prompts ∧ p.id ∉ view.prompts.map Prompt.id ∧
    (isPlaceholder p = true → p.content ∉ view.prompts.map Prompt.content) := by
  obtain ⟨hm, hf⟩ := List.mem_filter.mp h
  simp only [Bool.and_eq_true, Bool.not_eq_true', List.contains_eq_mem, decide_eq_false_iff_not,
    Bool.and_eq_false_iff] at hf
  refine ⟨hm, hf.1, fun hp hc => ?_⟩
  rcases hf.2 with hf | hf
  · rw [hp] at hf
    cases hf
  · exact hf hc

theorem olderLocal_local (h : p ∈ olderLocal s view) : p ∈ localOnly s view :=
  (List.mem_filter.mp h).1

theorem newerLocal_local (h : p ∈ newerLocal s view) : p ∈ localOnly s view :=
  (List.mem_filter.mp h).1

/-- No local prompt is put on both sides of a view, unless the view is empty. -/
theorem older_newer_apart (hl : Listed known id view.prompts)
    (hempty : view.prompts = [] → ∀ p ∈ s.prompts, p.seq < 0) (ho : p ∈ olderLocal s view) :
    p ∉ newerLocal s view := by
  intro hn
  have hmem := (localOnly_prompts (olderLocal_local ho)).1
  obtain ⟨-, ho⟩ := List.mem_filter.mp ho
  obtain ⟨-, hn⟩ := List.mem_filter.mp hn
  simp only [Bool.and_eq_true, decide_eq_true_eq, Bool.or_eq_true] at ho hn
  cases hv : view.prompts with
  | nil =>
    have := hempty hv p hmem
    omega
  | cons a ps =>
    have hne : view.prompts ≠ [] := by
      rw [hv]
      exact List.cons_ne_nil a ps
    obtain ⟨b, hb⟩ : ∃ b, view.prompts.getLast? = some b := ⟨_, List.getLast?_eq_some_getLast hne⟩
    have ha : view.prompts.head? = some a := by rw [hv]; rfl
    have hle := head_le_last hl.sorted ha hb
    rw [ha] at ho
    rw [hb] at hn
    simp only [Option.all_some, decide_eq_true_eq] at ho hn
    omega

theorem merge_nodup (h : (s.prompts.map Prompt.id).Nodup) (hl : Listed known id view.prompts)
    (hempty : view.prompts = [] → ∀ p ∈ s.prompts, p.seq < 0) :
    ((olderLocal s view ++ view.prompts ++ newerLocal s view).map Prompt.id).Nodup := by
  have hlocal : ∀ {p q}, p ∈ localOnly s view → q ∈ view.prompts → p.id ≠ q.id := by
    intro p q hp hq he
    exact (localOnly_prompts hp).2.1 (he ▸ List.mem_map_of_mem hq)
  rw [List.append_assoc, List.map_append, List.map_append, List.nodup_append, List.nodup_append]
  refine ⟨h.sublist ((olderLocal_sublist s view).map _),
    ⟨hl.distinct, h.sublist ((newerLocal_sublist s view).map _), fun a ha b hb => ?_⟩, fun a ha b hb => ?_⟩
  · obtain ⟨q, hq, rfl⟩ := List.mem_map.mp ha
    obtain ⟨p, hp, rfl⟩ := List.mem_map.mp hb
    exact (hlocal (newerLocal_local hp) hq).symm
  · obtain ⟨p, hp, rfl⟩ := List.mem_map.mp ha
    rcases List.mem_append.mp hb with hb | hb
    · obtain ⟨q, hq, rfl⟩ := List.mem_map.mp hb
      exact hlocal (olderLocal_local hp) hq
    · obtain ⟨q, hq, rfl⟩ := List.mem_map.mp hb
      intro he
      have heq : p = q := List.inj_on_of_nodup_map h ((olderLocal_sublist s view).subset hp)
        ((newerLocal_sublist s view).subset hq) he
      exact older_newer_apart hl hempty hp (heq ▸ hq)

end Merge

namespace Distinct

variable {s s' : Session}

theorem less (h : Distinct s) (hs : s'.stands = s.stands) (hless : s'.shown.Sublist s.shown) :
    Distinct s' := by
  refine ⟨h.nodup.sublist hless, fun x hx h1 h2 => ?_⟩
  rw [hs] at hx
  exact h.replaced x hx (hless.subset h1) (hless.subset h2)

theorem of_faces (h : Distinct s) (hs : s'.stands = s.stands)
    (hf : s'.store.prompts.map Prompt.face = s.store.prompts.map Prompt.face) : Distinct s' := by
  refine h.less hs ?_
  have hids := congrArg (List.map Prompt.id) hf
  simp only [List.map_map] at hids
  exact (show s'.shown = s.shown from hids) ▸ List.Sublist.refl _

theorem after_still (h : Distinct s) (hs : s'.stands = s.stands) (hstill : Still s s') : Distinct s' :=
  h.of_faces hs hstill.faces

theorem reload (h : Distinct s) : Distinct s.reload := by
  refine h.less s.local_reload.stands ?_
  unfold Session.reload
  dsimp only
  split <;> exact List.nil_sublist _

theorem known_of_shown (hs : Sound s) {id : Text} (h : id ∈ s.shown) : s.known id ≠ none := by
  obtain ⟨p, hp, rfl⟩ := List.mem_map.mp h
  obtain ⟨c, hc⟩ := (hs.held p hp).known
  rw [hc]
  simp

theorem dispatchBody (h : Distinct s) (hs : Sound s) (id : Uuid) (body : Text) :
    Distinct (s.dispatchBody id body) := by
  have hnone : s.known (pendingId s.nextTemp) = none := hs.nextTemp _ (Nat.le_refl _)
  have hless : (s.dispatchBody id body).shown.Sublist (s.shown ++ [pendingId s.nextTemp]) := by
    have hsub := (pushPlaceholder_sublist s.store.prompts
      { id := pendingId s.nextTemp, seq := -1, content := body, events := [] }).map Prompt.id
    rwa [List.map_append] at hsub
  refine ⟨List.Nodup.sublist hless ?_, fun x hx h1 h2 => ?_⟩
  · rw [List.nodup_append]
    refine ⟨h.nodup, List.nodup_singleton _, fun a ha b hb he => ?_⟩
    rw [he, List.mem_singleton.mp hb] at ha
    exact known_of_shown hs ha hnone
  · obtain ⟨-, -, y, hy1, hy2⟩ := hs.stands x hx
    have hold : ∀ {a}, a ∈ (s.dispatchBody id body).shown → s.known a = some y → a ∈ s.shown := by
      intro a ha hy
      rcases List.mem_append.mp (hless.subset ha) with ha | ha
      · exact ha
      · rw [List.mem_singleton.mp ha, hnone] at hy
        cases hy
    exact h.replaced x hx (hold h1 hy1) (hold h2 hy2)

theorem send (h : Distinct s) (hs : Sound s) (body : Text) : Distinct (s.send body) := by
  unfold Session.send
  split
  · exact h
  · split
    · exact h
    · exact h.dispatchBody hs _ body

/-- A prompt that has just been made is not on screen. -/
theorem dispatch (h : Distinct s) (hs : Sound s) (id : Uuid) (c : ChatRecord) (tempId body : Text)
    (w : Stamp) : Distinct (s.dispatch id c tempId body w) := by
  refine ⟨h.nodup, fun x hx h1 h2 => ?_⟩
  rcases List.mem_append.mp hx with hx | hx
  · exact h.replaced x hx h1 h2
  · rw [List.mem_singleton.mp hx] at h2
    exact known_of_shown hs h2 (hs.nextId _ (Nat.le_refl _))

theorem served (h : Distinct s) (hs : Sound s) (f : Flight) (busy : Bool) (w : Stamp) :
    Distinct (s.served f busy w).1 := by
  unfold Session.served
  split
  · split <;> exact h
  · split <;> exact h
  · split
    · exact h
    · split <;> exact h
  · split
    · exact h
    · split
      · exact ⟨h.nodup, h.replaced⟩
      · exact h.dispatch hs _ _ _ _ w
  · exact h

theorem merge (h : Distinct s) (hs : Sound s) {id : Uuid} {view : ChatView}
    (hl : Listed s.known id view.prompts)
    (hempty : view.prompts = [] → ∀ p ∈ s.store.prompts, p.seq < 0) :
    Distinct { s with store := reconcileStore s.store view, viewOf := some id, reconciled := true } := by
  have hall := merge_nodup h.nodup hl hempty
  refine ⟨?_, fun x hx h1 h2 => ?_⟩
  · change ((reconcileStore s.store view).prompts.map Prompt.id).Nodup
    rw [reconcileStore_prompts]
    exact hall.sublist ((keepTail_sublist _).map _)
  · obtain ⟨p, hp, hp1⟩ := List.mem_map.mp h1
    obtain ⟨q, hq, hq2⟩ := List.mem_map.mp h2
    obtain ⟨hpending, -, y, hy1, hy2⟩ := hs.stands x hx
    have hplace : isPlaceholder p = true := (congrArg pendingText hp1).trans hpending
    -- The placeholder is a local prompt, and none of the view has its content.
    have hlocal : p ∈ localOnly s.store view := by
      change p ∈ (reconcileStore s.store view).prompts at hp
      rw [reconcileStore_prompts] at hp
      have hm := (keepTail_sublist _).subset hp
      rw [List.append_assoc] at hm
      rcases List.mem_append.mp hm with hm | hm
      · exact olderLocal_local hm
      · rcases List.mem_append.mp hm with hm | hm
        · rw [hl.real p hm] at hplace
          cases hplace
        · exact newerLocal_local hm
    obtain ⟨hmem, -, hcontent⟩ := localOnly_prompts hlocal
    rcases mem_reconcileStore hq with hq | hq
    · obtain ⟨c, hc⟩ := (hs.held p hmem).known
      have hknown := hl.known q hq
      rw [hq2, hy2] at hknown
      rw [hp1, hy1] at hc
      have hsame : p.content = q.content := by
        rw [Option.some.inj hknown] at hc
        exact (congrArg Prod.snd (Option.some.inj hc)).symm
      exact hcontent hplace (hsame ▸ List.mem_map_of_mem hq)
    · exact h.replaced x hx (hp1 ▸ List.mem_map_of_mem hmem) (hq2 ▸ List.mem_map_of_mem hq)

theorem prepend (h : Distinct s) (hs : Sound s) {f : Flight} {id : Uuid} {prompts : List Prompt} {atStart : Bool}
    (hl : Listed s.known id prompts) {before : Int} (ht : InTime s f (.loadOlder before) (.page prompts atStart)) :
    Distinct (s.olderLoaded (.page prompts atStart)) := by
  have hshown : (s.olderLoaded (.page prompts atStart)).store.prompts =
      prompts.take maxPromptsInView ++ s.store.prompts.take (maxPromptsInView - prompts.length) := by
    change keepHead (prompts ++ s.store.prompts) = _
    rw [keepHead_eq, List.take_append]
  have hrest : (s.store.prompts.take (maxPromptsInView - prompts.length)).Sublist s.store.prompts :=
    List.take_sublist _ _
  refine ⟨?_, fun x hx h1 h2 => ?_⟩
  · unfold Session.shown
    rw [hshown, List.map_append, List.nodup_append]
    refine ⟨hl.distinct.sublist ((List.take_sublist _ _).map _), h.nodup.sublist (hrest.map _),
      fun a ha b hb he => ?_⟩
    obtain ⟨p, hp, rfl⟩ := List.mem_map.mp ha
    obtain ⟨q, hq, rfl⟩ := List.mem_map.mp hb
    exact (ht p (List.mem_of_mem_take hp) q hq).1 he.symm
  · unfold Session.shown at h1 h2
    rw [hshown] at h1 h2
    obtain ⟨q, hq, hq1⟩ := List.mem_map.mp h1
    obtain ⟨p, hp, hp2⟩ := List.mem_map.mp h2
    obtain ⟨hpending, -, -⟩ := hs.stands x hx
    rcases List.mem_append.mp hq with hq | hq
    · have hreal := hl.real q (List.mem_of_mem_take hq)
      rw [show isPlaceholder q = pendingText q.id from rfl, hq1, hpending] at hreal
      cases hreal
    · rcases List.mem_append.mp hp with hp | hp
      · refine (ht p (List.mem_of_mem_take hp) q hq).2 ?_
        rw [hq1, hp2]
        exact hx
      · exact h.replaced x hx (hq1 ▸ List.mem_map_of_mem (hrest.subset hq))
          (hp2 ▸ List.mem_map_of_mem (hrest.subset hp))

theorem swap (h : Distinct s) (hs : Sound s) {id : Uuid} {tempId : Text} {p : Prompt}
    (hl : Listed s.known id [p]) (hm : (tempId, p.id) ∈ s.stands) (ht : p.id ∉ s.shown) :
    Distinct (s.sendAnswered tempId (.dispatched p)) := by
  have hreal : pendingText p.id = false := hl.real p (List.mem_singleton.mpr rfl)
  have hne : p.id ≠ tempId := by
    intro he
    obtain ⟨hpending, -, -⟩ := hs.stands _ hm
    rw [show (tempId, p.id).1 = p.id from he.symm, hreal] at hpending
    cases hpending
  refine ⟨nodup_swapIn h.nodup ht, fun x hx h1 h2 => ?_⟩
  obtain ⟨r, hr, hr1⟩ := List.mem_map.mp h1
  obtain ⟨q, hq, hq2⟩ := List.mem_map.mp h2
  obtain ⟨hpending, -, -⟩ := hs.stands x hx
  rcases mem_swapIn hr with rfl | hr'
  · rw [← hr1, hreal] at hpending
    cases hpending
  · rcases mem_swapIn hq with rfl | hq'
    · have hsame : x = (tempId, q.id) := List.inj_on_of_nodup_map hs.single hx hm hq2.symm
      rw [hsame] at h1
      exact swapIn_replaces h.nodup hne h1
    · exact h.replaced x hx (hr1 ▸ List.mem_map_of_mem hr') (hq2 ▸ List.mem_map_of_mem hq')

theorem resume (h : Distinct s) (hs : Sound s) {f : Flight} {a : Answer}
    (ha : Truthful s.known s.stands f a) (ht : InTime s f f.verb a) : Distinct (s.resume f a) := by
  have hsame : ∀ {s' : Session}, s'.stands = s.stands → s'.store = s.store → Distinct s' := by
    intro s' hst hstore
    refine h.less hst ?_
    unfold Session.shown
    rw [hstore]
  unfold Session.resume
  cases hv : f.verb with
  | reload =>
    cases a with
    | view view =>
      unfold Session.reloaded
      dsimp only
      split
      · exact h
      · refine ⟨Listed.distinct ha, fun x hx h1 _ => ?_⟩
        obtain ⟨p, hp, hp1⟩ := List.mem_map.mp h1
        have hreal := Listed.real ha p hp
        rw [show isPlaceholder p = pendingText p.id from rfl, hp1, (hs.stands x hx).1] at hreal
        cases hreal
    | _ => exact hsame rfl rfl
  | reconcile =>
    cases a with
    | view view =>
      rw [hv] at ht
      unfold Session.reconciledWith
      dsimp only
      split
      · exact h
      · rename_i hc
        exact h.merge hs ha (ht (not_not.mp hc))
    | _ => exact hsame rfl rfl
  | loadOlder before =>
    cases a with
    | page prompts atStart => exact h.prepend hs ha (hv ▸ ht)
    | _ => exact hsame rfl rfl
  | send tempId body =>
    have hdrop : ∀ {s' : Session}, s'.stands = s.stands →
        s'.store.prompts = dropPlaceholder tempId s.store.prompts → Distinct s' := by
      intro s' hst hstore
      refine h.less hst ?_
      unfold Session.shown
      rw [hstore]
      exact (dropPlaceholder_sublist _ _).map _
    cases a with
    | dispatched p =>
      obtain ⟨hl, tempId', body', hverb, hm⟩ := ha
      rw [hv] at hverb ht
      cases hverb
      exact h.swap hs hl hm ht
    | _ => exact hdrop rfl rfl
  | stop =>
    cases a with
    | error message =>
      unfold Session.stopAnswered
      dsimp only
      split
      · exact hsame rfl rfl
      · have hfaces := (Session.still_reconcile (s.unstickTail f.chatId)).faces.trans (unstick_face _)
        exact h.of_faces (Session.local_reconcile _).stands hfaces
    | _ => exact hsame rfl rfl

theorem step (h : Distinct s) (hs : Sound s) {e : SessionEvent} (ht : Timely s e) (he : s.step e = some s') :
    Distinct s' := by
  cases e with
  | select id =>
    cases he
    unfold Session.select
    split
    · exact h
    · have hreload : Distinct ({ s with chatId := id }.reload) := reload ⟨h.nodup, h.replaced⟩
      exact hreload.after_still rfl (Session.still_flush _)
  | reload =>
    cases he
    exact h.reload
  | reconcile =>
    cases he
    exact h.after_still s.local_reconcile.stands s.still_reconcile
  | loadOlder =>
    cases he
    exact h.after_still s.local_loadOlder.stands s.still_loadOlder
  | send body =>
    cases he
    exact h.send hs body
  | stop =>
    cases he
    exact h.after_still s.local_stop.stands s.still_stop
  | message m =>
    cases he
    exact h.after_still (s.local_message m).stands (s.still_message m)
  | flush =>
    cases he
    exact h.after_still rfl s.still_flush
  | serve i busy w =>
    simp only [Session.step] at he
    split at he
    · rename_i verb id hi
      cases he
      have hserved := h.served hs ⟨verb, id, none⟩ busy w
      exact ⟨hserved.nodup, hserved.replaced⟩
    · cases he
  | lose i message =>
    obtain ⟨f, hi, rfl⟩ := Option.map_eq_some_iff.mp he
    exact ⟨h.nodup, h.replaced⟩
  | answer i =>
    simp only [Session.step] at he
    split at he
    · rename_i verb id a hi
      cases he
      have htruth := hs.answers _ (List.mem_of_getElem? hi) a rfl
      have hd : Distinct { s with flights := s.flights.eraseIdx i } := ⟨h.nodup, h.replaced⟩
      refine hd.resume (hs.landed i) htruth ?_
      have hin := ht _ hi a rfl
      cases verb <;> cases a <;> exact hin
    · cases he
  | grow id content w =>
    obtain ⟨c, hc, rfl⟩ := Option.map_eq_some_iff.mp he
    exact ⟨h.nodup, h.replaced⟩
  | drain i w =>
    obtain ⟨item, hi, he⟩ := Option.bind_eq_some_iff.mp he
    obtain ⟨c, hc, rfl⟩ := Option.map_eq_some_iff.mp he
    have hd := h.dispatch hs item.chatId c item.tempId item.body w
    exact ⟨hd.nodup, hd.replaced⟩
  | truncate id fromSeq =>
    cases he
    exact ⟨h.nodup, h.replaced⟩
  | record id target events =>
    cases he
    exact ⟨h.nodup, h.replaced⟩

end Distinct

/-- While every answer comes in time, no prompt is shown twice and none beside its
placeholder. -/
theorem prompts_distinct (chats : Uuid → Option ChatRecord) {s : Session}
    (h : Session.machine.Reaches Timely (Session.start chats) s) : Distinct s := by
  have hstart : Distinct (Session.start chats) := ⟨.nil, fun _ hx => (nomatch hx)⟩
  have hboth : Sound s ∧ Distinct s := by
    apply h.keeps ⟨.start chats, hstart⟩
    intro s e s' hv ht he
    exact ⟨hv.1.step he, hv.2.step hv.1 ht he⟩
  exact hboth.2

instance (s : Session) (f : Flight) : (verb : Verb) → (a : Answer) → Decidable (InTime s f verb a)
  | .reconcile, .view view => inferInstanceAs (Decidable (_ → view.prompts = [] → _))
  | .loadOlder _, .page prompts _ => inferInstanceAs (Decidable (∀ p ∈ prompts, _))
  | .send _ _, .dispatched p => inferInstanceAs (Decidable (p.id ∉ s.shown))
  | .reload, _ | .stop, _ => .isTrue trivial
  | .reconcile, .page _ _ | .reconcile, .dispatched _ | .reconcile, .queued | .reconcile, .stopped
  | .reconcile, .error _ => .isTrue trivial
  | .loadOlder _, .view _ | .loadOlder _, .dispatched _ | .loadOlder _, .queued | .loadOlder _, .stopped
  | .loadOlder _, .error _ => .isTrue trivial
  | .send _ _, .view _ | .send _ _, .page _ _ | .send _ _, .queued | .send _ _, .stopped
  | .send _ _, .error _ => .isTrue trivial

instance (s : Session) : (e : SessionEvent) → Decidable (Timely s e)
  | .answer i => inferInstanceAs (Decidable (∀ f ∈ s.flights[i]?, ∀ a ∈ f.answer, InTime s f f.verb a))
  | .select _ | .reload | .reconcile | .loadOlder | .send _ | .stop | .message _ | .flush | .serve _ _ _
  | .lose _ _ | .grow _ _ _ | .drain _ _ | .truncate _ _ | .record _ _ _ => .isTrue trivial

/-- A server with a chat under every id. -/
def someChat (id : Uuid) : Option ChatRecord :=
  some { id := id, projectId := 0, worktreeId := none, title := [], provider := [], model := [], createdAt := 0
         prompts := [], sessionId := none, effort := none }

/-- A message whose answer comes before the next view does, and one whose answer is lost
while a view has its prompt. -/
def answeredInTurn : List SessionEvent :=
  [.select (some 1), .serve 0 false {}, .answer 0, .send ['a'], .serve 0 false {}, .answer 0,
    .send ['b'], .reconcile, .serve 0 false {}, .serve 1 false {}, .answer 1, .lose 0 [], .answer 0]

theorem prompts_distinct_in_turn :
    ∃ s : Session, (Session.machine.Reaches Timely (Session.start someChat) s ∧
        s.shown = [promptId 0, promptId 1]) ∧ Distinct s := by
  have hrun : ((Session.machine.play Timely (Session.start someChat) answeredInTurn).map Session.shown) =
      some [promptId 0, promptId 1] := by decide
  obtain ⟨s, hs, hshown⟩ := Option.map_eq_some_iff.mp hrun
  have hreach := Machine.play_reaches hs
  exact ⟨s, ⟨hreach, hshown⟩, prompts_distinct someChat hreach⟩

/-- A view that has the prompt arrives before the answer that does. -/
def overtakenByView : List SessionEvent :=
  [.select (some 1), .serve 0 false {}, .answer 0, .send ['a'], .reconcile, .serve 0 false {},
    .serve 1 false {}, .answer 1, .answer 0]

theorem prompt_shown_twice :
    ¬ ∀ (chats : Uuid → Option ChatRecord) (s : Session),
      Session.machine.Reaches Machine.anyEvent (Session.start chats) s → Distinct s := by
  intro hall
  have hrun : ((Session.machine.play Machine.anyEvent (Session.start someChat) overtakenByView).map
      Session.shown) = some [promptId 0, promptId 0] := by decide
  obtain ⟨s, hs, hshown⟩ := Option.map_eq_some_iff.mp hrun
  have hd := (hall someChat s (Machine.play_reaches hs)).nodup
  rw [hshown] at hd
  revert hd
  decide

end AgentGrove.Web
