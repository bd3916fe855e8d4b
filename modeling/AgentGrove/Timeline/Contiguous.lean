import AgentGrove.Coop.Segment
import AgentGrove.Timeline.Distinct
import Mathlib.Data.Int.Order.Basic

namespace AgentGrove.Web

open Coop

/-- A prompt by its place and its id. -/
abbrev Mark := Int × Text

def Prompt.mark (p : Prompt) : Mark := (p.seq, p.id)

def marks (ps : List Prompt) : List Mark := ps.map Prompt.mark

/-- The prompts of the server's among those of a store. -/
def numbered (ps : List Prompt) : List Mark := marks (ps.filter (fun p => !isPlaceholder p))

namespace Session

def timelineOf (s : Session) (id : Uuid) : List Mark :=
  match s.chats id with
  | none => []
  | some c => marks (c.prompts.map promptJson)

/-- The timeline of the selected chat. -/
def timeline (s : Session) : List Mark :=
  match s.chatId with
  | none => []
  | some id => s.timelineOf id

end Session

/-- The store has a stretch of the timeline, and at rest after a reconcile one that ends with
the newest prompt, if none has come since the server was asked. -/
structure Contiguous (s : Session) : Prop where
  segment : numbered s.store.prompts <:+: s.timeline
  newest : s.flights = [] → s.reconciled = true → ∀ view ∈ s.store.view,
    view.promptsTotal = s.timeline.length → (numbered s.store.prompts).getLast? = s.timeline.getLast?

/-- Requests that read, and timelines that only grow. -/
def Reading (_ : Session) : SessionEvent → Prop
  | .send _ | .stop | .drain _ _ | .truncate _ _ => False
  | _ => True

/-- What an answer brings adjoins what is loaded and takes its place in the order, and
placeholders leave room for a view. -/
def Fits (s : Session) (f : Flight) : Verb → Answer → Prop
  | .reconcile, .view view => s.chatId = some f.chatId →
      (view.prompts = [] → numbered s.store.prompts = []) ∧
      Adjoin Prod.fst s.timeline (numbered s.store.prompts) (marks view.prompts) ∧
      (s.store.prompts.filter isPlaceholder).length < maxPromptsInView
  | .loadOlder _, .page prompts _ => prompts ≠ [] → s.chatId = some f.chatId ∧
      (∀ a ∈ marks prompts, ∀ b ∈ numbered s.store.prompts, a.1 < b.1) ∧
      Adjoin Prod.fst s.timeline (marks prompts) (numbered s.store.prompts)
  | .send tempId _, .dispatched p => s.chatId = some f.chatId ∧
      (∀ a ∈ numbered (s.store.prompts.takeWhile (fun q => q.id ≠ tempId)), a.1 < p.seq) ∧
      (∀ b ∈ numbered (s.store.prompts.dropWhile (fun q => q.id ≠ tempId)), p.seq < b.1) ∧
      Adjoin Prod.fst s.timeline (numbered s.store.prompts) [p.mark]
  | _, _ => True

def Gapless (s : Session) : SessionEvent → Prop
  | .answer i => ∀ f ∈ s.flights[i]?, ∀ a ∈ f.answer, Fits s f f.verb a
  | .truncate _ _ => False
  | _ => True

/-- An answer is drawn from the timeline. -/
def Drawn (s : Session) (f : Flight) : Answer → Prop
  | .view view => marks view.prompts <:+ (s.timelineOf f.chatId).take view.promptsTotal ∧
      view.promptsTotal ≤ (s.timelineOf f.chatId).length ∧ (view.prompts = [] → view.promptsTotal = 0)
  | .page prompts _ => marks prompts <:+: s.timelineOf f.chatId
  | .dispatched p => p.mark ∈ s.timelineOf f.chatId
  | _ => True

/-- The invariant. -/
structure Loaded (s : Session) : Prop where
  flights : ∀ f ∈ s.flights, ∀ a, f.answer = some a → Drawn s f a
  segment : Segment Prod.fst s.timeline (numbered s.store.prompts)
  newest : s.reconciled = true → ∀ view ∈ s.store.view, view.promptsTotal ≤ s.timeline.length ∧
    (view.promptsTotal = s.timeline.length → (numbered s.store.prompts).getLast? = s.timeline.getLast?)

section Lists

variable {ps qs : List Prompt} {p : Prompt} {tempId : Text}

theorem numbered_append (ps qs : List Prompt) : numbered (ps ++ qs) = numbered ps ++ numbered qs := by
  simp [numbered, marks]

theorem numbered_of_faces (h : ps.map Prompt.face = qs.map Prompt.face) : numbered ps = numbered qs := by
  have hface : ∀ ps, numbered (ps.map Prompt.face) = numbered ps := by
    intro ps
    unfold numbered marks
    rw [List.filter_map, List.map_map]
    rfl
  rw [← hface ps, h, hface]

theorem numbered_real (h : ∀ p ∈ ps, isPlaceholder p = false) : numbered ps = marks ps := by
  unfold numbered
  rw [List.filter_eq_self.mpr fun p hp => by rw [h p hp]; rfl]

theorem numbered_placeholder (h : isPlaceholder p = true) : numbered [p] = [] := by
  simp [numbered, marks, h]

theorem mem_numbered {x : Mark} : x ∈ numbered ps ↔ ∃ p ∈ ps, isPlaceholder p = false ∧ p.mark = x := by
  simp [numbered, marks, and_assoc]

theorem numbered_suffix (h : ps <:+ qs) : numbered ps <:+ numbered qs := by
  obtain ⟨front, rfl⟩ := h
  rw [numbered_append]
  exact List.suffix_append _ _

theorem numbered_prefix_of (h : ps <+: qs) : numbered ps <+: numbered qs := by
  obtain ⟨back, rfl⟩ := h
  rw [numbered_append]
  exact List.prefix_append _ _

theorem keepTail_is_suffix (ps : List Prompt) : keepTail ps <:+ ps := by
  unfold keepTail
  split
  · exact List.drop_suffix _ _
  · exact List.suffix_refl _

theorem numbered_pushPlaceholder (h : isPlaceholder p = true) :
    numbered (pushPlaceholder ps p) <:+ numbered ps := by
  have hsuffix : pushPlaceholder ps p <:+ ps ++ [p] := by
    unfold pushPlaceholder
    dsimp only
    split
    · exact List.tail_suffix _
    · exact List.suffix_refl _
  have hnumbered := numbered_suffix hsuffix
  rwa [numbered_append, numbered_placeholder h, List.append_nil] at hnumbered

theorem numbered_cons (p : Prompt) (ps : List Prompt) : numbered (p :: ps) = numbered [p] ++ numbered ps :=
  numbered_append [p] ps

theorem isPlaceholder_of_id (ht : pendingText tempId = true) (h : p.id = tempId) : isPlaceholder p = true :=
  (congrArg pendingText h).trans ht

theorem numbered_dropPlaceholder (ht : pendingText tempId = true) :
    numbered (dropPlaceholder tempId ps) = numbered ps := by
  unfold dropPlaceholder
  induction ps with
  | nil => rfl
  | cons p ps ih =>
    by_cases hp : p.id = tempId
    · rw [List.eraseP_cons_of_pos (by simpa using hp), numbered_cons p,
        numbered_placeholder (isPlaceholder_of_id ht hp), List.nil_append]
    · rw [List.eraseP_cons_of_neg (by simpa using hp), numbered_cons, ih, ← numbered_cons]

/-- Where a prompt goes that replaces its placeholder. -/
theorem numbered_swapIn (ht : pendingText tempId = true) (hp : isPlaceholder p = false) :
    numbered (swapIn tempId p ps) = numbered (ps.takeWhile (fun q => q.id ≠ tempId)) ++
      p.mark :: numbered (ps.dropWhile (fun q => q.id ≠ tempId)) := by
  have hone : numbered [p] = [p.mark] := by simp [numbered, marks, hp]
  induction ps with
  | nil => simpa [swapIn, numbered, marks] using hone
  | cons q ps ih =>
    by_cases hq : q.id = tempId
    · have hskip : numbered (q :: ps) = numbered ps := by
        rw [numbered_cons, numbered_placeholder (isPlaceholder_of_id ht hq), List.nil_append]
      rw [swapIn, if_pos hq, List.takeWhile_cons_of_neg (by simpa using hq),
        List.dropWhile_cons_of_neg (by simpa using hq), hskip, numbered_cons p, hone]
      rfl
    · rw [swapIn, if_neg hq, List.takeWhile_cons_of_pos (by simpa using hq),
        List.dropWhile_cons_of_pos (by simpa using hq), numbered_cons q (swapIn tempId p ps), ih,
        numbered_cons q (ps.takeWhile _), List.append_assoc]

end Lists

section Merge

variable {s : ChatStore} {view : ChatView} {known : Text → Option (Uuid × Text)} {id : Uuid} {p q : Prompt}
  {t : List Mark}

theorem older_before_view (hl : Listed known id view.prompts) (hp : p ∈ olderLocal s view)
    (hq : q ∈ view.prompts) : p.seq < q.seq := by
  obtain ⟨-, ho⟩ := List.mem_filter.mp hp
  simp only [Bool.and_eq_true, decide_eq_true_eq] at ho
  have hsorted := hl.sorted
  cases hv : view.prompts with
  | nil =>
    rw [hv] at hq
    cases hq
  | cons a ps =>
    rw [hv] at ho hq hsorted
    simp only [List.head?_cons, Option.all_some, decide_eq_true_eq] at ho
    rcases List.mem_cons.mp hq with rfl | hq
    · exact ho.2
    · exact Int.lt_trans ho.2 (List.rel_of_pairwise_cons hsorted hq)

theorem view_before_newer (hl : Listed known id view.prompts) (hp : p ∈ newerLocal s view)
    (hn : ¬p.seq < 0) (hq : q ∈ view.prompts) : q.seq < p.seq := by
  obtain ⟨-, ho⟩ := List.mem_filter.mp hp
  simp only [Bool.or_eq_true, decide_eq_true_eq] at ho
  have hlast := ho.resolve_left hn
  have hne : view.prompts ≠ [] := List.ne_nil_of_mem hq
  rw [List.getLast?_eq_some_getLast hne, Option.all_some, decide_eq_true_eq] at hlast
  have hsplit := List.dropLast_concat_getLast hne
  have hsorted := hl.sorted
  rw [← hsplit] at hq hsorted
  rcases List.mem_append.mp hq with hq | hq
  · have hlt := (List.pairwise_append.mp hsorted).2.2 q hq _ (List.mem_singleton.mpr rfl)
    exact Int.lt_trans hlt hlast
  · rw [List.mem_singleton.mp hq]
    exact hlast

/-- What a merge shows is what was loaded and what has come. -/
theorem mem_merge (hids : (t.map Prod.snd).Nodup) (hheld : ∀ p ∈ s.prompts, Held known p)
    (hl : Listed known id view.prompts) (hlocal : Segment Prod.fst t (numbered s.prompts))
    (hview : Segment Prod.fst t (marks view.prompts))
    (hempty : view.prompts = [] → numbered s.prompts = []) (x : Mark) :
    x ∈ numbered (olderLocal s view ++ view.prompts ++ newerLocal s view) ↔
      x ∈ numbered s.prompts ∨ x ∈ marks view.prompts := by
  constructor
  · intro hx
    obtain ⟨p, hp, hreal, rfl⟩ := mem_numbered.mp hx
    rw [List.append_assoc] at hp
    rcases List.mem_append.mp hp with hp | hp
    · exact .inl (mem_numbered.mpr ⟨p, (olderLocal_sublist s view).subset hp, hreal, rfl⟩)
    · rcases List.mem_append.mp hp with hp | hp
      · exact .inr (List.mem_map_of_mem hp)
      · exact .inl (mem_numbered.mpr ⟨p, (newerLocal_sublist s view).subset hp, hreal, rfl⟩)
  · intro hx
    have hcome : ∀ {x}, x ∈ marks view.prompts →
        x ∈ numbered (olderLocal s view ++ view.prompts ++ newerLocal s view) := by
      intro x hx
      obtain ⟨p, hp, rfl⟩ := List.mem_map.mp hx
      refine mem_numbered.mpr ⟨p, ?_, hl.real p hp, rfl⟩
      exact List.mem_append_left _ (List.mem_append_right _ hp)
    rcases hx with hx | hx
    · by_cases hcomes : x ∈ marks view.prompts
      · exact hcome hcomes
      obtain ⟨p, hp, hreal, rfl⟩ := mem_numbered.mp hx
      have hn : ¬p.seq < 0 := fun hlt => by
        rw [(hheld p hp).numbered.mpr hlt] at hreal
        cases hreal
      -- The view has not even its id, since an id has one place in the timeline.
      have hfresh : p.id ∉ view.prompts.map Prompt.id := by
        intro hm
        obtain ⟨q, hq, hid⟩ := List.mem_map.mp hm
        have hqm : q.mark ∈ marks view.prompts := List.mem_map_of_mem hq
        have hsame : q.mark = p.mark :=
          List.inj_on_of_nodup_map hids (hview.subset hqm) (hlocal.subset hx) hid
        exact hcomes (hsame ▸ hqm)
      have hl' : p ∈ localOnly s view := by
        refine List.mem_filter.mpr ⟨hp, ?_⟩
        simp [hreal, List.contains_eq_mem, hfresh]
      refine mem_numbered.mpr ⟨p, ?_, hreal, rfl⟩
      rw [List.append_assoc]
      cases hv : view.prompts with
      | nil =>
        rw [hempty hv] at hx
        cases hx
      | cons a ps =>
        have hne : view.prompts ≠ [] := by
          rw [hv]
          exact List.cons_ne_nil a ps
        rw [← hv]
        by_cases holder : p.seq < a.seq
        · refine List.mem_append_left _ (List.mem_filter.mpr ⟨hl', ?_⟩)
          simp [hv, holder, Int.not_lt.mp hn]
        · by_cases hnewer : (view.prompts.getLast hne).seq < p.seq
          · refine List.mem_append_right _ (List.mem_append_right _ (List.mem_filter.mpr ⟨hl', ?_⟩))
            simp [List.getLast?_eq_some_getLast hne, hnewer]
          · refine absurd (hview.convex a.mark ?_ (view.prompts.getLast hne).mark ?_ p.mark (hlocal.subset hx) ?_ ?_) hcomes
            · rw [hv]
              exact List.mem_map_of_mem (List.mem_cons_self ..)
            · exact List.mem_map_of_mem (List.getLast_mem hne)
            · exact Int.not_lt.mp holder
            · exact Int.not_lt.mp hnewer
    · exact hcome hx

theorem merge_segment (hids : (t.map Prod.snd).Nodup) (hheld : ∀ p ∈ s.prompts, Held known p)
    (hl : Listed known id view.prompts) (hlocal : Segment Prod.fst t (numbered s.prompts))
    (hview : Segment Prod.fst t (marks view.prompts))
    (hempty : view.prompts = [] → numbered s.prompts = [])
    (hadj : Adjoin Prod.fst t (numbered s.prompts) (marks view.prompts)) :
    Segment Prod.fst t (numbered (olderLocal s view ++ view.prompts ++ newerLocal s view)) := by
  refine hlocal.union hview hadj ?_ (mem_merge hids hheld hl hlocal hview hempty)
  have hpositive : ∀ {p}, p ∈ s.prompts → isPlaceholder p = false → ¬p.seq < 0 := by
    intro p hp hreal hlt
    rw [(hheld p hp).numbered.mpr hlt] at hreal
    cases hreal
  have hsub : ∀ {ps : List Prompt}, ps.Sublist s.prompts →
      (numbered ps).Pairwise (fun a b : Mark => a.1 < b.1) := by
    intro ps hps
    exact hlocal.sorted.sublist ((hps.filter _).map _)
  rw [List.append_assoc, numbered_append, numbered_append, numbered_real hl.real]
  refine List.pairwise_append.mpr ⟨hsub (olderLocal_sublist s view), List.pairwise_append.mpr
    ⟨hview.sorted, hsub (newerLocal_sublist s view), fun a ha b hb => ?_⟩, fun a ha b hb => ?_⟩
  · obtain ⟨q, hq, rfl⟩ := List.mem_map.mp ha
    obtain ⟨p, hp, hreal, rfl⟩ := mem_numbered.mp hb
    exact view_before_newer hl hp (hpositive ((newerLocal_sublist s view).subset hp) hreal) hq
  · obtain ⟨p, hp, hreal, rfl⟩ := mem_numbered.mp ha
    rcases List.mem_append.mp hb with hb | hb
    · obtain ⟨q, hq, rfl⟩ := List.mem_map.mp hb
      exact older_before_view hl hp hq
    · obtain ⟨r, hr, hreal', rfl⟩ := mem_numbered.mp hb
      have hrmem := (newerLocal_sublist s view).subset hr
      cases hv : view.prompts with
      | nil =>
        have hr' : r.mark ∈ numbered s.prompts := mem_numbered.mpr ⟨r, hrmem, hreal', rfl⟩
        rw [hempty hv] at hr'
        cases hr'
      | cons q ps =>
        have hq : q ∈ view.prompts := by
          rw [hv]
          exact List.mem_cons_self ..
        exact Int.lt_trans (older_before_view hl hp hq)
          (view_before_newer hl hr (hpositive hrmem hreal') hq)

/-- Where there are fewer placeholders than the cap, it leaves a prompt of the server's. -/
theorem keepTail_numbered {ps : List Prompt} (h : (ps.filter isPlaceholder).length < maxPromptsInView)
    (hne : numbered ps ≠ []) : numbered (keepTail ps) ≠ [] := by
  unfold keepTail
  split
  · rename_i hlong
    intro hnone
    have hall : ∀ p ∈ ps.drop (ps.length - maxPromptsInView), isPlaceholder p = true := by
      intro p hp
      cases hreal : isPlaceholder p with
      | true => rfl
      | false =>
        have hm : p.mark ∈ numbered (ps.drop (ps.length - maxPromptsInView)) :=
          mem_numbered.mpr ⟨p, hp, hreal, rfl⟩
        rw [hnone] at hm
        cases hm
    have hless := ((List.drop_sublist (ps.length - maxPromptsInView) ps).filter isPlaceholder).length_le
    rw [List.filter_eq_self.mpr hall, List.length_drop] at hless
    omega
  · exact hne

/-- No placeholder comes from anywhere but the store. -/
theorem merge_placeholders (hheld : ∀ p ∈ s.prompts, Held known p) (hl : Listed known id view.prompts) :
    ((olderLocal s view ++ view.prompts ++ newerLocal s view).filter isPlaceholder).length ≤
      (s.prompts.filter isPlaceholder).length := by
  have hview : view.prompts.filter isPlaceholder = [] :=
    List.filter_eq_nil_iff.mpr fun p hp => by simp [hl.real p hp]
  have holder : (olderLocal s view).filter isPlaceholder = [] := by
    refine List.filter_eq_nil_iff.mpr fun p hp hplace => ?_
    have hlt := (hheld p ((olderLocal_sublist s view).subset hp)).numbered.mp hplace
    obtain ⟨-, ho⟩ := List.mem_filter.mp hp
    simp only [Bool.and_eq_true, decide_eq_true_eq] at ho
    omega
  rw [List.filter_append, List.filter_append, hview, holder, List.nil_append, List.nil_append]
  exact ((newerLocal_sublist s view).filter _).length_le

theorem merge_newest (ht : t.Pairwise (fun a b => a.1 < b.1)) (hheld : ∀ p ∈ s.prompts, Held known p)
    (hl : Listed known id view.prompts) (hne : view.prompts ≠ []) (htop : marks view.prompts <:+ t)
    (hroom : (s.prompts.filter isPlaceholder).length < maxPromptsInView)
    (hmerge : Segment Prod.fst t (numbered (olderLocal s view ++ view.prompts ++ newerLocal s view))) :
    (numbered (reconcileStore s view).prompts).getLast? = t.getLast? := by
  have hlast : t.getLast? = (marks view.prompts).getLast? := by
    obtain ⟨front, rfl⟩ := htop
    exact List.getLast?_append_of_ne_nil _ fun hnil => hne (List.map_eq_nil_iff.mp hnil)
  obtain ⟨b, hb⟩ : ∃ b, (marks view.prompts).getLast? = some b :=
    ⟨_, List.getLast?_eq_some_getLast fun hnil => hne (List.map_eq_nil_iff.mp hnil)⟩
  have hmem : b ∈ numbered (olderLocal s view ++ view.prompts ++ newerLocal s view) := by
    obtain ⟨p, hp, rfl⟩ := List.mem_map.mp (List.mem_of_getLast? hb)
    exact mem_numbered.mpr ⟨p, List.mem_append_left _ (List.mem_append_right _ hp), hl.real p hp, rfl⟩
  have hkeep : numbered (keepTail (olderLocal s view ++ view.prompts ++ newerLocal s view)) ≠ [] :=
    keepTail_numbered (Nat.lt_of_le_of_lt (merge_placeholders hheld hl) hroom) (List.ne_nil_of_mem hmem)
  obtain ⟨front, hfront⟩ := numbered_suffix
    (keepTail_is_suffix (olderLocal s view ++ view.prompts ++ newerLocal s view))
  rw [reconcileStore_prompts, hlast, hb, ← List.getLast?_append_of_ne_nil front hkeep, hfront]
  exact hmerge.last ht (hlast.trans hb) hmem

end Merge

section Growth

variable {s s' : Session} {f : Flight} {a : Answer}

theorem timelineOf_listed (hs : Sound s) (id : Uuid) :
    ∃ ps, s.timelineOf id = marks ps ∧ Listed s.known id ps := by
  unfold Session.timelineOf
  cases hc : s.chats id with
  | none => exact ⟨[], rfl, .nil, fun _ hp => (nomatch hp), fun _ hp => (nomatch hp), fun _ hp => (nomatch hp), .nil⟩
  | some c => exact ⟨_, rfl, hs.chats id c hc⟩

theorem timelineOf_sorted (hs : Sound s) (id : Uuid) :
    (s.timelineOf id).Pairwise (fun a b => a.1 < b.1) := by
  obtain ⟨ps, he, hl⟩ := timelineOf_listed hs id
  rw [he]
  exact (List.pairwise_map (f := Prompt.mark)).mpr hl.sorted

theorem timelineOf_ids (hs : Sound s) (id : Uuid) : ((s.timelineOf id).map Prod.snd).Nodup := by
  obtain ⟨ps, he, hl⟩ := timelineOf_listed hs id
  rw [he, marks, List.map_map]
  exact hl.distinct

theorem timeline_selected {id : Uuid} (h : s.chatId = some id) : s.timeline = s.timelineOf id := by
  simp only [Session.timeline, h]

theorem timeline_sorted (hs : Sound s) : s.timeline.Pairwise (fun a b => a.1 < b.1) := by
  unfold Session.timeline
  split
  · exact .nil
  · exact timelineOf_sorted hs _

theorem Drawn.grow (h : Drawn s f a) (hg : s.timelineOf f.chatId <+: s'.timelineOf f.chatId) :
    Drawn s' f a := by
  cases a with
  | view view =>
    obtain ⟨hm, hle, hne⟩ := h
    refine ⟨?_, Nat.le_trans hle hg.length_le, hne⟩
    obtain ⟨new, hnew⟩ := hg
    rw [← hnew, List.take_append_of_le_length hle]
    exact hm
  | page prompts atStart => exact List.IsInfix.trans h hg.isInfix
  | dispatched p => exact hg.subset h
  | queued => trivial
  | stopped => trivial
  | error message => trivial

theorem timelineOf_congr (h : s'.chats = s.chats) (id : Uuid) : s'.timelineOf id = s.timelineOf id := by
  unfold Session.timelineOf
  rw [h]

theorem addPrompt_timelineOf {id : Uuid} {c : ChatRecord} (hc : s.chats id = some c) (content : Text)
    (w : Stamp) (id' : Uuid) : s.timelineOf id' <+: (s.addPrompt id c content w).timelineOf id' := by
  by_cases he : id' = id
  · subst he
    have hnew : (s.addPrompt id' c content w).timelineOf id' =
        marks (c.prompts.map promptJson) ++ marks [promptJson (s.newPrompt c content w)] := by
      simp [Session.timelineOf, Session.addPrompt, marks]
    rw [hnew, Session.timelineOf, hc]
    exact List.prefix_append _ _
  · have hsame : (s.addPrompt id c content w).timelineOf id' = s.timelineOf id' := by
      simp [Session.timelineOf, Session.addPrompt, Function.update_of_ne he]
    rw [hsame]

theorem Session.served_store (s : Session) (f : Flight) (busy : Bool) (w : Stamp) :
    (s.served f busy w).1.store = s.store := by
  unfold Session.served
  split
  · split <;> rfl
  · split <;> rfl
  · split
    · rfl
    · split <;> rfl
  · split
    · rfl
    · split <;> rfl
  · rfl

theorem Session.served_timelineOf (s : Session) (f : Flight) (busy : Bool) (w : Stamp) (id : Uuid) :
    s.timelineOf id <+: (s.served f busy w).1.timelineOf id := by
  unfold Session.served
  split
  · split <;> exact List.prefix_refl _
  · split <;> exact List.prefix_refl _
  · split
    · exact List.prefix_refl _
    · split <;> exact List.prefix_refl _
  · split
    · exact List.prefix_refl _
    · rename_i c hc
      split
      · exact List.prefix_refl _
      · exact addPrompt_timelineOf hc _ w id
  · exact List.prefix_refl _

/-- Who writes events leaves the timeline as it is. -/
theorem record_timelineOf (s : Session) (id target : Uuid) (events : List AgentEvent) (id' : Uuid) :
    (s.setChat id (fun ps => ps.map (fun p =>
      if p.id = target then { p with events := events } else p))).timelineOf id' = s.timelineOf id' := by
  by_cases he : id' = id
  · subst he
    cases hc : s.chats id' with
    | none => simp [Session.timelineOf, Session.setChat, hc]
    | some c =>
      simp only [Session.timelineOf, Session.setChat, Function.update_self, hc, Option.map_some, marks,
        List.map_map]
      apply List.map_congr_left
      intro p _
      by_cases hp : p.id = target
      · simp [hp, promptJson, Prompt.mark]
      · simp [hp]
  · simp [Session.timelineOf, Session.setChat, Function.update_of_ne he]

theorem windowEvents_marks (ps : List PromptRecord) :
    marks ((ps.map windowEvents).map promptJson) = marks (ps.map promptJson) := by
  simp [marks, Function.comp_def, windowEvents, promptJson, Prompt.mark]

theorem marks_infix {ps qs : List PromptRecord} (h : ps <:+: qs) :
    marks (ps.map promptJson) <:+: marks (qs.map promptJson) := (h.map promptJson).map Prompt.mark

theorem view_drawn {id : Uuid} {c : ChatRecord} (hc : s.chats id = some c) (verb : Verb) :
    Drawn s ⟨verb, id, none⟩ (.view (viewJson (windowChat c))) := by
  have ht : s.timelineOf id = marks (c.prompts.map promptJson) := by simp [Session.timelineOf, hc]
  have hlen : (s.timelineOf id).length = c.prompts.length := by simp [ht, marks]
  have htotal : (viewJson (windowChat c)).promptsTotal = c.prompts.length := rfl
  refine ⟨?_, ?_, fun hnil => ?_⟩
  · rw [htotal, List.take_of_length_le (Nat.le_of_eq hlen), viewJson_windowChat, windowEvents_marks, ht]
    exact ((List.drop_suffix _ _).map promptJson).map Prompt.mark
  · exact Nat.le_of_eq (htotal.trans hlen.symm)
  · rw [viewJson_windowChat, List.map_eq_nil_iff, List.map_eq_nil_iff, List.drop_eq_nil_iff,
      defaultPromptsWindow] at hnil
    omega

/-- The prompts before some place are the first ones. -/
theorem before_first {ps : List PromptRecord} (h : ps.Pairwise (fun p q => p.seq < q.seq)) (n : Nat) :
    ps.filter (fun p => p.seq < n) <+: ps := by
  refine Segment.prefix_of_closed h (h.filter _) (List.filter_subset_self ps) fun p hp q hq hle => ?_
  have hlt : p.seq < n := by simpa using (List.mem_filter.mp hp).2
  exact List.mem_filter.mpr ⟨hq, by simpa using Nat.lt_of_le_of_lt hle hlt⟩

theorem page_drawn (hs : Sound s) {id : Uuid} {c : ChatRecord} (hc : s.chats id = some c) (verb : Verb)
    (before limit : Nat) : Drawn s ⟨verb, id, none⟩
      (.page ((listPrompts c before limit).1.map promptJson) (listPrompts c before limit).2) := by
  have hsorted : c.prompts.Pairwise (fun p q => p.seq < q.seq) := by
    refine ((List.pairwise_map (f := promptJson)).mp (hs.chats id c hc).sorted).imp fun hlt => ?_
    simpa [promptJson] using hlt
  have ht : s.timelineOf id = marks (c.prompts.map promptJson) := by simp [Session.timelineOf, hc]
  change marks _ <:+: s.timelineOf id
  rw [ht, listPrompts, windowEvents_marks]
  exact marks_infix ((List.drop_suffix _ _).isInfix.trans (before_first hsorted before).isInfix)

theorem served_drawn (hs : Sound s) (verb : Verb) (id : Uuid) (busy : Bool) (w : Stamp) :
    Drawn (s.served ⟨verb, id, none⟩ busy w).1 ⟨verb, id, none⟩ (s.served ⟨verb, id, none⟩ busy w).2 := by
  unfold Session.served
  cases verb with
  | reload =>
    cases hc : s.chats id with
    | none => exact trivial
    | some c => exact view_drawn hc .reload
  | reconcile =>
    cases hc : s.chats id with
    | none => exact trivial
    | some c => exact view_drawn hc .reconcile
  | loadOlder before =>
    dsimp only
    split
    · exact trivial
    · cases hc : s.chats id with
      | none => exact trivial
      | some c => exact page_drawn hs hc (.loadOlder before) _ _
  | send tempId body =>
    cases hc : s.chats id with
    | none => exact trivial
    | some c =>
      cases busy with
      | true => exact trivial
      | false =>
        change (promptJson (s.newPrompt c body w)).mark ∈ (s.dispatch id c tempId body w).timelineOf id
        simp [Session.timelineOf, Session.dispatch, Session.addPrompt, marks]
  | stop => exact trivial

end Growth

namespace Loaded

variable {s s' : Session}

theorem contiguous (h : Loaded s) (hs : Sound s) : Contiguous s :=
  ⟨h.segment.stretch (timeline_sorted hs), fun _ hr view hv => (h.newest hr view hv).2⟩

theorem after_client (h : Loaded s) (hchats : s'.chats = s.chats) (hid : s'.chatId = s.chatId)
    (hn : numbered s'.store.prompts = numbered s.store.prompts) (hv : s'.store.view = s.store.view)
    (hr : s'.reconciled = s.reconciled) (hf : ∀ f ∈ s'.flights, f ∈ s.flights ∨ f.answer = none) :
    Loaded s' := by
  have ht : s'.timeline = s.timeline := by
    unfold Session.timeline
    rw [hid]
    cases s.chatId with
    | none => rfl
    | some id => exact timelineOf_congr hchats id
  refine ⟨fun f hm a ha => ?_, ?_, ?_⟩
  · rcases hf f hm with hm | hnone
    · exact (h.flights f hm a ha).grow (timelineOf_congr hchats _ ▸ List.prefix_refl _)
    · rw [hnone] at ha
      cases ha
  · rw [ht, hn]
    exact h.segment
  · rw [ht, hn, hv, hr]
    exact h.newest

theorem after_still (h : Loaded s) (hl : Local s s') (hs : Still s s') : Loaded s' :=
  h.after_client hl.chats hs.chatId (numbered_of_faces hs.faces) hs.view hs.reconciled
    fun f hf => (hl.flights f hf).imp_right And.left

/-- An emptied store, whatever chat is selected next. -/
theorem blank (h : Loaded s) (hl : Local s s') (hp : s'.store.prompts = []) (hr : s'.reconciled = false) :
    Loaded s' := by
  refine ⟨fun f hm a ha => ?_, ?_, fun hr' => ?_⟩
  · rcases hl.flights f hm with hm | hnone
    · exact (h.flights f hm a ha).grow (timelineOf_congr hl.chats _ ▸ List.prefix_refl _)
    · rw [hnone.1] at ha
      cases ha
  · rw [hp]
    exact .nil _
  · rw [hr] at hr'
    cases hr'

theorem reload (h : Loaded s) (id : Option Uuid) : Loaded ({ s with chatId := id }.reload) := by
  have hid : Local s { s with chatId := id } := ⟨rfl, rfl, rfl, rfl, rfl, rfl, fun _ hf => .inl hf⟩
  refine h.blank (hid.trans (Session.local_reload _)) ?_ ?_
  · unfold Session.reload
    dsimp only
    split <;> rfl
  · unfold Session.reload
    dsimp only
    split <;> rfl

/-- A step of the server's lengthens timelines. -/
theorem after_server (h : Loaded s) (hs : Sound s') (hg : ∀ id, s.timelineOf id <+: s'.timelineOf id)
    (hid : s'.chatId = s.chatId) (hstore : s'.store = s.store) (hr : s'.reconciled = s.reconciled)
    (hf : ∀ f ∈ s'.flights, f ∈ s.flights ∨ ∀ a, f.answer = some a → Drawn s' f a) : Loaded s' := by
  have ht : s.timeline <+: s'.timeline := by
    unfold Session.timeline
    rw [hid]
    cases s.chatId with
    | none => exact List.prefix_refl _
    | some id => exact hg id
  refine ⟨fun f hm a ha => ?_, ?_, fun hrec view hv => ?_⟩
  · rcases hf f hm with hm | hdrawn
    · exact (h.flights f hm a ha).grow (hg _)
    · exact hdrawn a ha
  · rw [hstore]
    exact h.segment.grow (timeline_sorted hs) ht
  · rw [hstore] at hv ⊢
    obtain ⟨hle, hlast⟩ := h.newest (hr ▸ hrec) view hv
    refine ⟨Nat.le_trans hle ht.length_le, fun htotal => ?_⟩
    have hsame : s.timeline = s'.timeline := ht.eq_of_length (by have := ht.length_le; omega)
    rw [← hsame]
    exact hlast (hsame ▸ htotal)

theorem dispatchBody (h : Loaded s) (id : Uuid) (body : Text) : Loaded (s.dispatchBody id body) := by
  have hpush : numbered (pushPlaceholder s.store.prompts
      { id := pendingId s.nextTemp, seq := -1, content := body, events := [] }) <:+ numbered s.store.prompts :=
    numbered_pushPlaceholder (pendingText_pendingId _)
  refine ⟨fun f hm a ha => ?_, h.segment.part hpush.isInfix, fun hr => (nomatch hr)⟩
  rcases List.mem_append.mp hm with hm | hm
  · exact h.flights f hm a ha
  · rw [List.mem_singleton.mp hm] at ha
    cases ha

theorem send (h : Loaded s) (body : Text) : Loaded (s.send body) := by
  unfold Session.send
  split
  · exact h
  · split
    · exact h
    · exact h.dispatchBody _ body

theorem merge (h : Loaded s) (hs : Sound s) {f : Flight} {view : ChatView}
    (hl : Listed s.known f.chatId view.prompts) (hd : Drawn s f (.view view)) (hc : s.chatId = some f.chatId)
    (hfit : Fits s f .reconcile (.view view)) :
    Loaded { s with store := reconcileStore s.store view, viewOf := some f.chatId, reconciled := true } := by
  obtain ⟨hempty, hadj, hroom⟩ := hfit hc
  obtain ⟨htop, htotal, hnone⟩ := hd
  have ht := timeline_selected hc
  have hsorted := timeline_sorted hs
  rw [← ht] at htop htotal
  have hview : Segment Prod.fst s.timeline (marks view.prompts) :=
    .of_stretch hsorted (htop.isInfix.trans (List.take_prefix _ _).isInfix)
  have hids : (s.timeline.map Prod.snd).Nodup := by
    rw [ht]
    exact timelineOf_ids hs _
  have hmerge := merge_segment hids hs.held hl h.segment hview hempty hadj
  refine ⟨h.flights, ?_, fun _ v hv => ?_⟩
  · change Segment Prod.fst s.timeline (numbered (reconcileStore s.store view).prompts)
    rw [reconcileStore_prompts]
    exact hmerge.part (numbered_suffix (keepTail_is_suffix _)).isInfix
  · have hsame : v = view := Option.some.inj (hv.symm.trans (reconcileStore_view _ _))
    subst hsame
    refine ⟨htotal, fun hall => ?_⟩
    change (numbered (reconcileStore s.store v).prompts).getLast? = s.timeline.getLast?
    by_cases hne : v.prompts = []
    · -- Nothing is on the server, and so nothing is loaded.
      have hzero : s.timeline = [] := List.length_eq_zero_iff.mp (hall.symm.trans (hnone hne))
      have hnil : numbered (reconcileStore s.store v).prompts = [] := by
        rw [reconcileStore_prompts]
        have hsub := hmerge.subset
        rw [hzero] at hsub
        have hpart := numbered_suffix (keepTail_is_suffix (olderLocal s.store v ++ v.prompts ++ newerLocal s.store v))
        exact List.subset_nil.mp fun x hx => hsub (hpart.subset hx)
      rw [hzero, hnil]
    · rw [show v.promptsTotal = s.timeline.length from hall, List.take_length] at htop
      exact merge_newest hsorted hs.held hl hne htop hroom hmerge

theorem prepend (h : Loaded s) (hs : Sound s) {f : Flight} {prompts : List Prompt} {atStart : Bool}
    (hl : Listed s.known f.chatId prompts) (hd : Drawn s f (.page prompts atStart)) {before : Int}
    (hfit : Fits s f (.loadOlder before) (.page prompts atStart)) :
    Loaded (s.olderLoaded (.page prompts atStart)) := by
  refine ⟨h.flights, ?_, fun hr => (nomatch hr)⟩
  have hkeep : keepHead (prompts ++ s.store.prompts) <+: prompts ++ s.store.prompts := by
    rw [keepHead_eq]
    exact List.take_prefix _ _
  have hall : Segment Prod.fst s.timeline (numbered (prompts ++ s.store.prompts)) := by
    rw [numbered_append, numbered_real hl.real]
    by_cases hne : prompts = []
    · rw [hne]
      exact h.segment
    · obtain ⟨hc, hbefore, hadj⟩ := hfit hne
      have hpage : Segment Prod.fst s.timeline (marks prompts) := by
        refine .of_stretch (timeline_sorted hs) ?_
        rw [timeline_selected hc]
        exact hd
      refine hpage.union h.segment hadj ?_ fun x => List.mem_append
      exact List.pairwise_append.mpr ⟨hpage.sorted, h.segment.sorted, hbefore⟩
  exact hall.part (numbered_prefix_of hkeep).isInfix

theorem swap (h : Loaded s) (hs : Sound s) {f : Flight} {tempId body : Text} {p : Prompt}
    (hl : Listed s.known f.chatId [p]) (hd : Drawn s f (.dispatched p)) (ht : pendingText tempId = true)
    (hfit : Fits s f (.send tempId body) (.dispatched p)) :
    Loaded (s.sendAnswered tempId (.dispatched p)) := by
  obtain ⟨hc, hfront, hback, hadj⟩ := hfit
  refine ⟨h.flights, ?_, fun hr => (nomatch hr)⟩
  have hone : Segment Prod.fst s.timeline [p.mark] := by
    refine ⟨List.pairwise_singleton _ _, fun x hx => ?_, fun a ha b hb x hx hax hxb => ?_⟩
    · rw [List.mem_singleton.mp hx, timeline_selected hc]
      exact hd
    · rw [List.mem_singleton.mp ha] at hax
      rw [List.mem_singleton.mp hb] at hxb
      have hmem : p.mark ∈ s.timeline := by
        rw [timeline_selected hc]
        exact hd
      exact List.mem_singleton.mpr
        (Segment.eq_of_key (timeline_sorted hs) hx hmem (Int.le_antisymm hxb hax))
  have hsplit : numbered s.store.prompts = numbered (s.store.prompts.takeWhile (fun q => q.id ≠ tempId)) ++
      numbered (s.store.prompts.dropWhile (fun q => q.id ≠ tempId)) := by
    rw [← numbered_append, List.takeWhile_append_dropWhile]
  have hsorted := h.segment.sorted
  rw [hsplit] at hsorted
  obtain ⟨hsf, hsb, hcross⟩ := List.pairwise_append.mp hsorted
  change Segment Prod.fst s.timeline (numbered (swapIn tempId p s.store.prompts))
  rw [numbered_swapIn ht (hl.real p (List.mem_singleton.mpr rfl))]
  refine h.segment.union hone hadj ?_ fun x => ?_
  · refine List.pairwise_append.mpr ⟨hsf, List.pairwise_cons.mpr ⟨hback, hsb⟩, fun a ha b hb => ?_⟩
    rcases List.mem_cons.mp hb with rfl | hb
    · exact hfront a ha
    · exact hcross a ha b hb
  · rw [hsplit, List.mem_append, List.mem_cons, List.mem_append, List.mem_singleton, or_assoc]
    exact or_congr_right or_comm

theorem resume (h : Loaded s) (hs : Sound s) {f : Flight} {a : Answer}
    (hsend : ∀ tempId body, f.verb = .send tempId body → Sent s.known tempId f.chatId body)
    (ha : Truthful s.known s.stands f a) (hd : Drawn s f a) (hfit : Fits s f f.verb a) :
    Loaded (s.resume f a) := by
  have hsame : ∀ {s' : Session}, s'.chats = s.chats → s'.chatId = s.chatId → s'.store = s.store →
      s'.reconciled = s.reconciled → s'.flights = s.flights → Loaded s' := by
    intro s' hchats hid hstore hr hf
    exact h.after_client hchats hid (by rw [hstore]) (by rw [hstore]) hr fun f hm => .inl (hf ▸ hm)
  unfold Session.resume
  cases hv : f.verb with
  | reload =>
    cases a with
    | view view =>
      unfold Session.reloaded
      dsimp only
      split
      · exact h
      · rename_i hc
        have hc : s.chatId = some f.chatId := not_not.mp hc
        refine ⟨h.flights, ?_, fun hr => (nomatch hr)⟩
        change Segment Prod.fst s.timeline (numbered view.prompts)
        rw [numbered_real (Listed.real ha)]
        refine .of_stretch (timeline_sorted hs) ?_
        rw [timeline_selected hc]
        exact (show marks view.prompts <:+ _ from hd.1).isInfix.trans (List.take_prefix _ _).isInfix
    | _ => exact hsame rfl rfl rfl rfl rfl
  | reconcile =>
    cases a with
    | view view =>
      rw [hv] at hfit
      unfold Session.reconciledWith
      dsimp only
      split
      · exact h
      · rename_i hc
        exact h.merge hs ha hd (not_not.mp hc) hfit
    | _ => exact hsame rfl rfl rfl rfl rfl
  | loadOlder before =>
    cases a with
    | page prompts atStart => exact h.prepend hs ha hd (hv ▸ hfit)
    | _ => exact hsame rfl rfl rfl rfl rfl
  | send tempId body =>
    have ht := (hsend tempId body hv).2
    have hdrop : ∀ {s' : Session}, s'.chats = s.chats → s'.chatId = s.chatId →
        s'.store = (s.setPrompts (dropPlaceholder tempId s.store.prompts)).store →
        s'.reconciled = s.reconciled → s'.flights = s.flights → Loaded s' := by
      intro s' hchats hid hstore hr hf
      refine h.after_client hchats hid ?_ ?_ hr fun f hm => .inl (hf ▸ hm)
      · rw [hstore]
        exact numbered_dropPlaceholder ht
      · rw [hstore]
        rfl
    cases a with
    | dispatched p => exact h.swap hs ha.1 hd ht (hv ▸ hfit)
    | _ => exact hdrop rfl rfl rfl rfl rfl
  | stop =>
    cases a with
    | error message =>
      unfold Session.stopAnswered
      dsimp only
      split
      · exact hsame rfl rfl rfl rfl rfl
      · have hmark : Loaded (s.unstickTail f.chatId) :=
          h.after_client rfl rfl (numbered_of_faces (unstick_face _)) rfl rfl fun f hm => .inl hm
        exact hmark.after_still (Session.local_reconcile _) (Session.still_reconcile _)
    | _ => exact hsame rfl rfl rfl rfl rfl

theorem step (h : Loaded s) (hs : Sound s) {e : SessionEvent} (hg : Gapless s e) (he : s.step e = some s') :
    Loaded s' := by
  have hs' := hs.step he
  cases e with
  | select id =>
    cases he
    unfold Session.select
    split
    · exact h
    · exact (h.reload id).after_still (Session.local_flush _) (Session.still_flush _)
  | reload =>
    cases he
    exact h.reload s.chatId
  | reconcile =>
    cases he
    exact h.after_still s.local_reconcile s.still_reconcile
  | loadOlder =>
    cases he
    exact h.after_still s.local_loadOlder s.still_loadOlder
  | send body =>
    cases he
    exact h.send body
  | stop =>
    cases he
    exact h.after_still s.local_stop s.still_stop
  | message m =>
    cases he
    exact h.after_still (s.local_message m) (s.still_message m)
  | flush =>
    cases he
    exact h.after_still s.local_flush s.still_flush
  | serve i busy w =>
    simp only [Session.step] at he
    split at he
    · rename_i verb id hi
      cases he
      obtain ⟨-, -, hflights⟩ := hs.served (List.mem_of_getElem? hi) busy w
      have hsame := s.served_still ⟨verb, id, none⟩ busy w
      refine h.after_server hs' (s.served_timelineOf ⟨verb, id, none⟩ busy w) hsame.chatId ?_ hsame.reconciled
        fun f hm => ?_
      · exact s.served_store ⟨verb, id, none⟩ busy w
      · rcases mem_set hm with rfl | hm
        · refine .inr fun a ha => ?_
          cases ha
          have hdrawn := served_drawn hs verb id busy w
          revert hdrawn
          generalize (s.served ⟨verb, id, none⟩ busy w).2 = b
          cases b <;> exact fun hdrawn => hdrawn
        · exact .inl (hflights ▸ hm)
    · cases he
  | lose i message =>
    obtain ⟨f, hi, rfl⟩ := Option.map_eq_some_iff.mp he
    refine h.after_server hs' (fun _ => List.prefix_refl _) rfl rfl rfl fun g hm => ?_
    rcases mem_set hm with rfl | hm
    · refine .inr fun a ha => ?_
      cases ha
      exact trivial
    · exact .inl hm
  | answer i =>
    simp only [Session.step] at he
    split at he
    · rename_i verb id a hi
      cases he
      have hmem := List.mem_of_getElem? hi
      have hd : Loaded { s with flights := s.flights.eraseIdx i } :=
        h.after_client rfl rfl rfl rfl rfl fun f hm => .inl (List.mem_of_mem_eraseIdx hm)
      have hfit := hg _ hi a rfl
      have hdrawn := h.flights _ hmem a rfl
      refine hd.resume (hs.landed i) (hs.sends _ hmem) (hs.answers _ hmem a rfl) ?_ ?_
      · cases a <;> exact hdrawn
      · cases verb <;> cases a <;> exact hfit
    · cases he
  | grow id content w =>
    obtain ⟨c, hc, rfl⟩ := Option.map_eq_some_iff.mp he
    exact h.after_server hs' (addPrompt_timelineOf hc content w) rfl rfl rfl fun f hm => .inl hm
  | drain i w =>
    obtain ⟨item, hi, he⟩ := Option.bind_eq_some_iff.mp he
    obtain ⟨c, hc, rfl⟩ := Option.map_eq_some_iff.mp he
    exact h.after_server hs' (addPrompt_timelineOf hc item.body w) rfl rfl rfl fun f hm => .inl hm
  | truncate id fromSeq => exact hg.elim
  | record id target events =>
    cases he
    refine h.after_server hs' (fun id' => ?_) rfl rfl rfl fun f hm => .inl hm
    rw [record_timelineOf]

end Loaded

/-- While answers adjoin what is loaded, the store holds a stretch of the timeline. -/
theorem timeline_contiguous (chats : Uuid → Option ChatRecord) {s : Session}
    (h : Session.machine.Reaches Gapless (Session.start chats) s) : Contiguous s := by
  have hstart : Loaded (Session.start chats) :=
    ⟨fun _ hf => (nomatch hf), .nil _, fun hr => (nomatch hr)⟩
  have hboth : Sound s ∧ Loaded s := by
    apply h.keeps ⟨.start chats, hstart⟩
    intro s e s' hv hg he
    exact ⟨hv.1.step he, hv.2.step hv.1 hg he⟩
  exact hboth.2.contiguous hboth.1

instance (s : Session) (f : Flight) : (verb : Verb) → (a : Answer) → Decidable (Fits s f verb a)
  | .reconcile, .view _ => inferInstanceAs (Decidable (_ → _ ∧ _ ∧ _))
  | .loadOlder _, .page prompts _ => inferInstanceAs (Decidable (prompts ≠ [] → _ ∧ _ ∧ _))
  | .send _ _, .dispatched _ => inferInstanceAs (Decidable (_ ∧ _ ∧ _ ∧ _))
  | .reload, _ | .stop, _ => .isTrue trivial
  | .reconcile, .page _ _ | .reconcile, .dispatched _ | .reconcile, .queued | .reconcile, .stopped
  | .reconcile, .error _ => .isTrue trivial
  | .loadOlder _, .view _ | .loadOlder _, .dispatched _ | .loadOlder _, .queued | .loadOlder _, .stopped
  | .loadOlder _, .error _ => .isTrue trivial
  | .send _ _, .view _ | .send _ _, .page _ _ | .send _ _, .queued | .send _ _, .stopped
  | .send _ _, .error _ => .isTrue trivial

instance (s : Session) : (e : SessionEvent) → Decidable (Gapless s e)
  | .answer i => inferInstanceAs (Decidable (∀ f ∈ s.flights[i]?, ∀ a ∈ f.answer, Fits s f f.verb a))
  | .truncate _ _ => .isFalse id
  | .select _ | .reload | .reconcile | .loadOlder | .send _ | .stop | .message _ | .flush | .serve _ _ _
  | .lose _ _ | .grow _ _ _ | .drain _ _ | .record _ _ _ => .isTrue trivial

instance (s : Session) : (e : SessionEvent) → Decidable (Reading s e)
  | .send _ | .stop | .drain _ _ | .truncate _ _ => .isFalse id
  | .select _ | .reload | .reconcile | .loadOlder | .message _ | .flush | .serve _ _ _
  | .lose _ _ | .answer _ | .grow _ _ _ | .record _ _ _ => .isTrue trivial

/-- A prompt, the view of the chat, two more prompts with a gap between them and a reconcile. -/
def followed : List SessionEvent :=
  [.grow 1 ['a'] {}, .select (some 1), .serve 0 false {}, .answer 0, .grow 1 ['b'] {}, .grow 1 ['c'] { gap := 2 },
    .reconcile, .serve 0 false {}, .answer 0]

theorem timeline_contiguous_followed :
    ∃ s : Session, (Session.machine.Reaches Gapless (Session.start someChat) s ∧
        numbered s.store.prompts = [(1, promptId 0), (2, promptId 1), (5, promptId 2)]) ∧ Contiguous s := by
  have hrun : ((Session.machine.play Gapless (Session.start someChat) followed).map
      (fun s => numbered s.store.prompts)) = some [(1, promptId 0), (2, promptId 1), (5, promptId 2)] := by
    decide
  obtain ⟨s, hs, hnumbered⟩ := Option.map_eq_some_iff.mp hrun
  have hreach := Machine.play_reaches hs
  exact ⟨s, ⟨hreach, hnumbered⟩, timeline_contiguous someChat hreach⟩

/-- One more prompt than a window has comes between two merges. -/
def outrun : List SessionEvent :=
  [.grow 1 [] {}, .select (some 1), .serve 0 false {}, .answer 0] ++ List.replicate 51 (.grow 1 [] {}) ++
    [.reconcile, .serve 0 false {}, .answer 0]

theorem timeline_with_hole :
    ¬ ∀ (chats : Uuid → Option ChatRecord) (s : Session),
      Session.machine.Reaches Reading (Session.start chats) s → Contiguous s := by
  intro hall
  have hrun : ((Session.machine.play Reading (Session.start someChat) outrun).map (fun s =>
      decide (numbered s.store.prompts <:+: s.timeline))) = some false := by decide +kernel
  obtain ⟨s, hs, hhole⟩ := Option.map_eq_some_iff.mp hrun
  exact of_decide_eq_false hhole (hall someChat s (Machine.play_reaches hs)).segment

end AgentGrove.Web
