import AgentGrove.Coop.Census
import AgentGrove.Updates.Calls

namespace AgentGrove

open Coop

/-- Event of a server on which only updates of one chat are called. -/
abbrev UpdateEvent := Event Choice ChatRepo.Patch

/-- What the cache and the store have of a chat. -/
def cachedFields (s : AppState) (c : Uuid) : Option Fields := (s.chats.get c).map ChatRecord.fields

def storedFields (s : AppState) (c : Uuid) : Option Fields :=
  (ChatRepo.get s.store.chats c).map ChatRow.fields

/-- Once all calls have ended, cache and store agree on what some sequential order
of the patches gives. -/
def Linearized (c : Uuid) (start : Fields) (patches : List ChatRepo.Patch) (p : Server) : Prop :=
  (∀ t ∈ p.threads, t.finished = true) →
    ∃ order : List ChatRepo.Patch, order.Perm (patches.take p.threads.length) ∧
      cachedFields p.shared c = some (order.foldl (fun f patch => patch.apply f) start) ∧
      storedFields p.shared c = some (order.foldl (fun f patch => patch.apply f) start)

/-- The calls come with the given patches, and no store call fails. -/
def Offered (patches : List ChatRepo.Patch) (p : Server) : UpdateEvent → Prop
  | .arrive patch => patches[p.threads.length]? = some patch
  | .run _ w => w.fail = false

/-- The step a call is about to take gets in the way of no other call: it writes
no part that another one has written to the store and not yet to the cache, and
leaves the cached model alone while another one has compared its own with it. -/
def ClearOf (c : Uuid) (s : AppState) (mine : ChatRepo.Patch) (here : Option Site)
    (other : ChatRepo.Patch × Tag × Option Site) : Prop :=
  (here = some (updateSite c .updateChat) ∨ here = some (updateSite c .cacheChat) →
    other.2.2 = some (updateSite c .reloadRow) ∨ other.2.2 = some (updateSite c .cacheChat) →
    ∀ k ∈ [Part.title, .effort, .agent], ¬ (mine.touches k = true ∧ other.1.touches k = true)) ∧
  (here = some (updateSite c .cacheChat) → other.2.2 = some (updateSite c .updateChat) →
    other.1.model.isSome = true → ∀ f ∈ cachedFields s c, mine.changes f = false)

/-- No call gets in the way of another one. -/
def Separate (c : Uuid) (patches : List ChatRepo.Patch) (p : Server) : UpdateEvent → Prop
  | .arrive patch => patches[p.threads.length]? = some patch
  | .run i w => w.fail = false ∧ ∀ mine ∈ patches[i]?,
      ∀ other ∈ (patches.zip p.sites).eraseIdx i, ClearOf c p.shared mine (p.restsAt i) other

instance (patches : List ChatRepo.Patch) (p : Server) :
    (e : UpdateEvent) → Decidable (Offered patches p e)
  | .arrive _ => inferInstanceAs (Decidable (_ = _))
  | .run _ _ => inferInstanceAs (Decidable (_ = _))

instance (c : Uuid) (s : AppState) (mine : ChatRepo.Patch) (here : Option Site)
    (other : ChatRepo.Patch × Tag × Option Site) : Decidable (ClearOf c s mine here other) :=
  inferInstanceAs (Decidable (_ ∧ _))

instance (c : Uuid) (patches : List ChatRepo.Patch) (p : Server) :
    (e : UpdateEvent) → Decidable (Separate c patches p e)
  | .arrive _ => inferInstanceAs (Decidable (_ = _))
  | .run _ _ => inferInstanceAs (Decidable (_ ∧ _))

def Updater.counted (r : Updater) : List ChatRepo.Patch := if r.stage.past then [r.patch] else []

/-- The store is ahead of the cache by the calls that are midway, each of which is
alone on the parts it writes, and all decisions taken are right. -/
structure Ahead (start : Fields) (order : List ChatRepo.Patch) (row chat : Fields)
    (roles : List Updater) : Prop where
  perm : order.Perm (roles.flatMap Updater.counted)
  applied : row = order.foldl (fun f patch => patch.apply f) start
  sound : ∀ r ∈ roles, r.stage ≠ .broken
  quiet : ∀ k : Part, (∀ r ∈ roles, r.stage.midway ≠ none → r.patch.touches k = false) →
    k.Agrees row chat
  pending : ∀ (i : Nat) r (k : Part), roles[i]? = some r → r.stage.midway ≠ none →
    r.patch.touches k = true → k.Agrees row (r.patch.apply chat) ∧
      ∀ (j : Nat) r', roles[j]? = some r' → r'.stage.midway ≠ none → r'.patch.touches k = true →
        j = i
  decision : ∀ r ∈ roles, ∀ b, r.stage = .decided b ∨ r.stage.midway = some b →
    b = r.patch.changes chat

section Ahead

variable {start row chat : Fields} {order : List ChatRepo.Patch} {roles : List Updater} {i : Nat}
  {p : ChatRepo.Patch} {st st' : UpdateStage} {b : Bool}

/-- A call goes on without writing. -/
theorem Ahead.proceed (h : Ahead start order row chat roles) (hi : roles[i]? = some ⟨p, st⟩)
    (hmid : st'.midway = st.midway) (hpast : st'.past = st.past) (hs : st' ≠ .broken)
    (hd : ∀ b, st' = .decided b ∨ st'.midway = some b → b = p.changes chat) :
    Ahead start order row chat (roles.set i ⟨p, st'⟩) where
  perm := by
    have hset := flatMap_set_perm hi Updater.counted ⟨p, st'⟩
    simp only [Updater.counted, hpast] at hset
    exact h.perm.trans ((List.perm_append_right_iff _).mp hset).symm
  applied := h.applied
  sound r hr := by
    obtain rfl | hr := mem_set hr
    · exact hs
    · exact h.sound r hr
  quiet k hk := by
    apply h.quiet k
    intro r hr hm
    obtain ⟨j, hj⟩ := List.getElem?_of_mem hr
    by_cases he : i = j
    · subst he
      rw [hi] at hj
      cases hj
      have hnew := hk ⟨p, st'⟩ (mem_set_self hi _)
      exact hnew (hmid ▸ hm)
    · exact hk r (List.mem_of_getElem? ((List.getElem?_set_ne he).trans hj)) hm
  pending j r k hj hm ht := by
    have hold : ∀ (j : Nat) r, (roles.set i ⟨p, st'⟩)[j]? = some r → ∃ r₀, roles[j]? = some r₀ ∧
        r₀.patch = r.patch ∧ r₀.stage.midway = r.stage.midway := by
      intro j r hj
      by_cases he : i = j
      · subst he
        rw [get_set_self hi] at hj
        cases hj
        exact ⟨_, hi, rfl, hmid.symm⟩
      · rw [List.getElem?_set_ne he] at hj
        exact ⟨r, hj, rfl, rfl⟩
    obtain ⟨r₀, hj₀, hp, hm₀⟩ := hold j r hj
    obtain ⟨hagree, honly⟩ := h.pending j r₀ k hj₀ (hm₀ ▸ hm) (hp ▸ ht)
    refine ⟨hp ▸ hagree, fun j' r' hj' hm' ht' => ?_⟩
    obtain ⟨r₁, hj₁, hp₁, hm₁⟩ := hold j' r' hj'
    exact honly j' r₁ hj₁ (hm₁ ▸ hm') (hp₁ ▸ ht')
  decision r hr b hb := by
    obtain rfl | hr := mem_set hr
    · exact hd b hb
    · exact h.decision r hr b hb

/-- A call writes the row. -/
theorem Ahead.write (h : Ahead start order row chat roles) (hi : roles[i]? = some ⟨p, .decided b⟩)
    (hclear : ∀ (j : Nat) r (k : Part), j ≠ i → roles[j]? = some r → r.stage.midway ≠ none →
      p.touches k = true → r.patch.touches k = false) :
    Ahead start (order ++ [p]) ((p.decided b).put row) chat (roles.set i ⟨p, .written b⟩) := by
  have hb : b = p.changes chat := h.decision _ (List.mem_of_getElem? hi) b (.inl rfl)
  have hother : ∀ {j : Nat} {r : Updater}, j ≠ i → (roles.set i ⟨p, .written b⟩)[j]? = some r →
      roles[j]? = some r := fun he hj => (List.getElem?_set_ne he.symm).symm.trans hj
  -- Nobody else is midway on a part that the call writes.
  have hquiet : ∀ k : Part, p.touches k = true → k.Agrees row chat := by
    intro k hk
    apply h.quiet k
    intro r hr hm
    obtain ⟨j, hj⟩ := List.getElem?_of_mem hr
    by_cases he : j = i
    · subst he
      rw [hi] at hj
      cases hj
      exact absurd rfl hm
    · exact hclear j r k he hj hm hk
  have hright : b = p.changes row := by
    cases hm : p.model.isSome with
    | true =>
      rw [hb]
      exact ChatRepo.Patch.changes_congr (hquiet .agent (touches_of_model hm)).1.symm
    | false => rw [hb, changes_of_no_model hm, changes_of_no_model hm]
  rw [put_decided hright]
  refine ⟨?_, ?_, ?_, ?_, ?_, ?_⟩
  · have hset := flatMap_set_perm hi Updater.counted ⟨p, .written b⟩
    simp only [Updater.counted, UpdateStage.past, Bool.false_eq_true, if_false, if_true,
      List.append_nil] at hset
    exact (h.perm.append_right _).trans hset.symm
  · rw [List.foldl_append, ← h.applied]
    rfl
  · intro r hr
    obtain rfl | hr := mem_set hr
    · intro hs
      cases hs
    · exact h.sound r hr
  · intro k hk
    have hno : p.touches k = false := hk _ (mem_set_self hi _) (by simp [UpdateStage.midway])
    refine (apply_untouched hno row).trans (h.quiet k fun r hr hm => ?_)
    obtain ⟨j, hj⟩ := List.getElem?_of_mem hr
    by_cases he : i = j
    · subst he
      rw [hi] at hj
      cases hj
      exact hno
    · exact hk r (List.mem_of_getElem? ((List.getElem?_set_ne he).trans hj)) hm
  · intro j r k hj hm ht
    by_cases he : j = i
    · subst he
      rw [get_set_self hi] at hj
      cases hj
      refine ⟨(hquiet k ht).apply p, fun j' r' hj' hm' ht' => ?_⟩
      by_contra hne
      have hfalse := hclear j' r' k hne (hother hne hj') hm' ht
      rw [ht'] at hfalse
      cases hfalse
    · have hj₀ := hother he hj
      obtain ⟨hagree, honly⟩ := h.pending j r k hj₀ hm ht
      have hno : p.touches k = false := by
        by_contra hyes
        have hfalse := hclear j r k he hj₀ hm (by simpa using hyes)
        rw [ht] at hfalse
        cases hfalse
      refine ⟨(apply_untouched hno row).trans hagree, fun j' r' hj' hm' ht' => ?_⟩
      by_cases he' : j' = i
      · subst he'
        rw [get_set_self hi] at hj'
        cases hj'
        rw [hno] at ht'
        cases ht'
      · exact honly j' r' (hother he' hj') hm' ht'
  · intro r hr b' hb'
    obtain rfl | hr := mem_set hr
    · obtain hs | hs := hb'
      · cases hs
      · cases hs
        exact hb
    · exact h.decision r hr b' hb'

/-- A call writes the cache. -/
theorem Ahead.cache (h : Ahead start order row chat roles) (hi : roles[i]? = some ⟨p, .reloaded b⟩)
    (hclear : ∀ (j : Nat) r, j ≠ i → roles[j]? = some r → r.patch.model.isSome = true →
      (∃ b, r.stage = .decided b) → p.changes chat = false) :
    Ahead start order row (p.apply chat) (roles.set i ⟨p, .over⟩) := by
  have hmid : (Updater.mk p (.reloaded b)).stage.midway ≠ none := by simp [UpdateStage.midway]
  have hother : ∀ {j : Nat} {r : Updater}, j ≠ i → (roles.set i ⟨p, .over⟩)[j]? = some r →
      roles[j]? = some r := fun he hj => (List.getElem?_set_ne he.symm).symm.trans hj
  have hself : ∀ {j : Nat} {r : Updater}, (roles.set i ⟨p, .over⟩)[j]? = some r →
      r.stage.midway ≠ none → j ≠ i := by
    rintro j r hj hm rfl
    rw [get_set_self hi] at hj
    cases hj
    exact hm rfl
  -- The cached model is what the others have seen unless nobody looks.
  have hmodel : ∀ r ∈ roles.set i ⟨p, .over⟩, (∃ b, r.stage = .decided b ∨ r.stage.midway = some b) →
      r.patch.changes (p.apply chat) = r.patch.changes chat := by
    intro r hr hb
    cases hm : r.patch.model.isSome with
    | false => rw [changes_of_no_model hm, changes_of_no_model hm]
    | true =>
    apply ChatRepo.Patch.changes_congr
    obtain ⟨j, hj⟩ := List.getElem?_of_mem hr
    have hne : j ≠ i := by
      rintro rfl
      rw [get_set_self hi] at hj
      cases hj
      obtain ⟨_, hs | hs⟩ := hb <;> cases hs
    have hj₀ := hother hne hj
    obtain ⟨b', hs | hs⟩ := hb
    · have hsame := hclear j r hne hj₀ hm ⟨b', hs⟩
      cases hp : p.model with
      | none => simp [ChatRepo.Patch.apply, hp]
      | some m =>
        have he : chat.model = m := by simpa [ChatRepo.Patch.changes, hp] using hsame
        simp [ChatRepo.Patch.apply, hp, he]
    · have hno : p.touches .agent = false := by
        by_contra hyes
        have hyes : p.touches .agent = true := by simpa using hyes
        exact hne ((h.pending i _ .agent hi hmid hyes).2 j r hj₀ (by simp [hs])
          (touches_of_model hm))
      exact (apply_untouched hno chat).1
  refine ⟨?_, h.applied, ?_, ?_, ?_, ?_⟩
  · have hset := flatMap_set_perm hi Updater.counted ⟨p, .over⟩
    exact h.perm.trans ((List.perm_append_right_iff _).mp hset).symm
  · intro r hr
    obtain rfl | hr := mem_set hr
    · intro hs
      cases hs
    · exact h.sound r hr
  · intro k hk
    cases ht : p.touches k with
    | true => exact (h.pending i _ k hi hmid ht).1
    | false =>
      refine (h.quiet k fun r hr hm => ?_).trans (apply_untouched ht chat).symm
      obtain ⟨j, hj⟩ := List.getElem?_of_mem hr
      by_cases he : i = j
      · subst he
        rw [hi] at hj
        cases hj
        exact ht
      · exact hk r (List.mem_of_getElem? ((List.getElem?_set_ne he).trans hj)) hm
  · intro j r k hj hm ht
    have hne := hself hj hm
    have hj₀ := hother hne hj
    obtain ⟨hagree, honly⟩ := h.pending j r k hj₀ hm ht
    have hno : p.touches k = false := by
      by_contra hyes
      exact hne (honly i _ hi hmid (by simpa using hyes)).symm
    refine ⟨hagree.trans ((apply_untouched hno chat).symm.apply r.patch), fun j' r' hj' hm' ht' => ?_⟩
    exact honly j' r' (hother (hself hj' hm') hj') hm' ht'
  · intro r hr b' hb'
    rw [hmodel r hr ⟨b', hb'⟩]
    obtain rfl | hr := mem_set hr
    · obtain hs | hs := hb' <;> cases hs
    · exact h.decision r hr b' hb'

/-- A call is made. One without fields has nothing to write. -/
theorem Ahead.arrive (h : Ahead start order row chat roles) (p : ChatRepo.Patch) :
    ∃ order', Ahead start order' row chat (roles ++ [⟨p, firstStage p⟩]) := by
  have hstage : firstStage p = .comparing ∨ firstStage p = .decided false ∧ p.model.isSome = false ∨
      firstStage p = .written false ∧ p.isEmpty = true := by
    unfold firstStage afterDecision
    split
    · exact .inl rfl
    · rename_i hm
      cases he : p.isEmpty with
      | true => exact .inr (.inr ⟨if_pos he, rfl⟩)
      | false => exact .inr (.inl ⟨if_neg (by simpa [ChatRepo.Patch.decided] using he), by simpa using hm⟩)
  have hmidway : (firstStage p).midway ≠ none → p.isEmpty = true := by
    intro hm
    obtain hs | ⟨hs, _⟩ | ⟨_, he⟩ := hstage
    · exact absurd (by rw [hs]; rfl) hm
    · exact absurd (by rw [hs]; rfl) hm
    · exact he
  have hold : ∀ {j : Nat} {r : Updater} {k : Part}, (roles ++ [⟨p, firstStage p⟩])[j]? = some r →
      r.stage.midway ≠ none → r.patch.touches k = true → roles[j]? = some r := by
    intro j r k hj hm ht
    obtain ho | ⟨-, rfl⟩ := get_concat hj
    · exact ho
    · rw [touches_of_empty (hmidway hm)] at ht
      cases ht
  refine ⟨order ++ (Updater.mk p (firstStage p)).counted, ?_, ?_, ?_, ?_, ?_, ?_⟩
  · rw [List.flatMap_append, List.flatMap_singleton]
    exact h.perm.append_right _
  · rw [List.foldl_append, ← h.applied]
    obtain hs | ⟨hs, _⟩ | ⟨hs, he⟩ := hstage
    · rw [hs]
      rfl
    · rw [hs]
      rfl
    · rw [hs]
      exact (apply_empty he row).symm
  · intro r hr
    obtain hr | hr := List.mem_append.mp hr
    · exact h.sound r hr
    · rw [List.mem_singleton.mp hr]
      obtain hs | ⟨hs, _⟩ | ⟨hs, _⟩ := hstage <;> rw [hs] <;> simp
  · exact fun k hk => h.quiet k fun r hr => hk r (List.mem_append_left _ hr)
  · intro j r k hj hm ht
    obtain ⟨hagree, honly⟩ := h.pending j r k (hold hj hm ht) hm ht
    exact ⟨hagree, fun j' r' hj' hm' ht' => honly j' r' (hold hj' hm' ht') hm' ht'⟩
  · intro r hr b hb
    obtain hr | hr := List.mem_append.mp hr
    · exact h.decision r hr b hb
    · rw [List.mem_singleton.mp hr] at hb ⊢
      obtain hs | ⟨hs, hm⟩ | ⟨hs, he⟩ := hstage
      · rw [hs] at hb
        obtain hb | hb := hb <;> cases hb
      · rw [hs] at hb
        rw [changes_of_no_model hm]
        obtain hb | hb := hb
        · cases hb
          rfl
        · cases hb
      · rw [hs] at hb
        have hm : p.model.isSome = false := by simp [none_of_empty he]
        rw [changes_of_no_model hm]
        obtain hb | hb := hb
        · cases hb
        · cases hb
          rfl

end Ahead

section Runs

variable {c : Uuid} {start : Fields} {patches : List ChatRepo.Patch} {s : AppState}
  {roles : List Updater} {p : Server}

/-- What a run of updates keeps: cache and store are as far apart as the calls say. -/
structure Tracked (c : Uuid) (start : Fields) (patches : List ChatRepo.Patch) (s : AppState)
    (roles : List Updater) : Prop where
  patch : ∀ (i : Nat) r, roles[i]? = some r → patches[i]? = some r.patch
  ahead : ∃ order row chat, storedFields s c = some row ∧ cachedFields s c = some chat ∧
    Ahead start order row chat roles

theorem Tracked.set {r r' : Updater} {i : Nat} {s' : AppState} (h : Tracked c start patches s roles)
    (hi : roles[i]? = some r) (hp : r'.patch = r.patch)
    (ha : ∃ order row chat, storedFields s' c = some row ∧ cachedFields s' c = some chat ∧
      Ahead start order row chat (roles.set i r')) :
    Tracked c start patches s' (roles.set i r') := by
  refine ⟨fun j r₁ hj => ?_, ha⟩
  by_cases he : j = i
  · subst he
    rw [get_set_self hi] at hj
    cases hj
    rw [hp]
    exact h.patch j r hi
  · exact h.patch j r₁ ((List.getElem?_set_ne (Ne.symm he)).symm.trans hj)

/-- How the others stand, as the condition sees it. -/
theorem other_mem (hc : (updating c).Coupled p roles) (h : Tracked c start patches s roles) {i j : Nat}
    {r : Updater} (hj : roles[j]? = some r) (hne : j ≠ i) :
    ∃ tag, (r.patch, tag, r.stage.call.map (updateSite c)) ∈
      (patches.zip p.sites).eraseIdx i := by
  obtain ⟨t, ht, hsite⟩ := hc.thread hj
  refine ⟨t.tag, List.mem_eraseIdx_iff_getElem?.mpr ⟨j, hne, ?_⟩⟩
  have hs : p.sites[j]? = some (t.tag, t.site) := by simp only [Pool.sites, List.getElem?_map, ht, Option.map_some]
  rw [List.getElem?_zip_eq_some]
  have hsite : t.site = r.stage.call.map (updateSite c) := hsite
  exact ⟨h.patch j r hj, hs.trans (by rw [hsite])⟩

theorem tracked_kept : (updating c).Kept (Tracked c start patches) where
  sees _ _ _ _ _ _ := trivial
  sync _ _ _ _ _ _ _ _ hm := nomatch hm
  fork _ _ _ _ _ _ _ _ _ hf := hf.elim

theorem site_of_midway {st : UpdateStage} (h : st.midway ≠ none) :
    st.call.map (updateSite c) = some (updateSite c .reloadRow) ∨
      st.call.map (updateSite c) = some (updateSite c .cacheChat) := by
  cases st with
  | written b => exact .inl rfl
  | reloaded b => exact .inr rfl
  | _ => exact absurd rfl h

theorem Part.mem_all (k : Part) : k ∈ [Part.title, .effort, .agent] := by
  cases k <;> simp

/-- One step that gets in no call's way. -/
theorem tracked_await {i : Nat} {w : Choice} {x : Site} {r r' : Updater} {s' : AppState}
    (hc : (updating c).Coupled p roles) (h : Tracked c start patches p.shared roles)
    (hg : Separate c patches p (.run i w)) (hat : p.At i x) (hi : roles[i]? = some r)
    (hm : (updating c).move (some (x, w)) r p.shared r' s') :
    Tracked c start patches s' (roles.set i r') := by
  obtain ⟨hw, hclear⟩ := hg
  obtain ⟨order, row, chat, hrow, hchat, ha⟩ := h.ahead
  have hothers : ∀ (j : Nat) r₁, j ≠ i → roles[j]? = some r₁ → ∃ tag,
      ClearOf c p.shared r.patch (some x) (r₁.patch, tag, r₁.stage.call.map (updateSite c)) := by
    intro j r₁ hne hj
    obtain ⟨tag, hmem⟩ := other_mem hc h hj hne
    have hhere : p.restsAt i = some x := hat
    exact ⟨tag, hhere ▸ hclear r.patch (h.patch i r hi) _ hmem⟩
  -- Nobody else is midway on a part that this step writes.
  have hparts : x = updateSite c .updateChat ∨ x = updateSite c .cacheChat →
      ∀ (j : Nat) r₁ (k : Part), j ≠ i → roles[j]? = some r₁ → r₁.stage.midway ≠ none →
        r.patch.touches k = true → r₁.patch.touches k = false := by
    intro hx j r₁ k hne hj hmid ht
    obtain ⟨tag, hfirst, _⟩ := hothers j r₁ hne hj
    have hno := hfirst (hx.imp (congrArg some) (congrArg some)) (site_of_midway hmid) k k.mem_all
    simpa [ht] using hno
  cases hm with
  | compare hb hmodel =>
    refine h.set hi rfl ⟨order, row, chat, hrow, hchat, ha.proceed hi rfl rfl ?_ ?_⟩
    · intro hs
      cases hs
    · obtain ⟨record, hget, rfl⟩ := Option.map_eq_some_iff.mp hchat
      intro b' hb'
      obtain hs | hs := hb'
      · cases hs
        exact hb record hget
      · cases hs
  | write hfail =>
    refine h.set hi rfl ⟨_, _, chat, ?_, hchat, ha.write hi (hparts (.inl rfl))⟩
    obtain ⟨r₀, hget, rfl⟩ := Option.map_eq_some_iff.mp hrow
    simp only [storedFields, get_updateRow (f := ChatRepo.patchRow _ w.now) (fun _ => rfl), ↓reduceIte, hget,
      Option.map_some, patchRow_fields]
  | reload =>
    refine h.set hi rfl ⟨order, row, chat, hrow, hchat, ha.proceed hi rfl rfl ?_ ?_⟩
    · intro hs
      cases hs
    · intro b' hb'
      obtain hs | hs := hb'
      · cases hs
      · exact ha.decision _ (List.mem_of_getElem? hi) b' (.inr hs)
  | cache =>
    obtain ⟨record, hget, rfl⟩ := Option.map_eq_some_iff.mp hchat
    refine h.set hi rfl ⟨order, row, _, hrow, ?_, ha.cache hi ?_⟩
    · have hb := ha.decision _ (List.mem_of_getElem? hi) _ (.inr rfl)
      simp only [cachedFields, ChatRegistry.get_chatMut, if_true, hget, Option.map_some,
        applyPatch_decided hb]
    · intro j r₁ hne hj hmodel hstage
      obtain ⟨b', hstage⟩ := hstage
      obtain ⟨tag, _, hsecond⟩ := hothers j r₁ hne hj
      exact hsecond rfl (by rw [hstage]; rfl) hmodel _ hchat
  | fail hfail =>
    rw [hw] at hfail
    cases hfail
  | missing hn =>
    obtain ⟨r₀, hget, _⟩ := Option.map_eq_some_iff.mp hrow
    exact absurd (by simp [Stored, hget]) hn

/-- Updates that keep out of each other's way leave cache and store as some order of
them would. -/
theorem updates_linearized (hcached : cachedFields s c = some start)
    (hstored : storedFields s c = some start)
    (h : Pool.Reaches (updateEntry c) (Separate c patches) ⟨s, []⟩ p) :
    Linearized c start patches p := by
  have hstart : Tracked c start patches s [] :=
    ⟨fun _ _ hi => (nomatch hi), [], start, start, hstored, hcached,
      .refl _, rfl, fun _ hr => (nomatch hr), fun _ _ => .refl _ _, fun _ _ _ hi => (nomatch hi),
      fun _ hr => (nomatch hr)⟩
  have hc : (updating c).Coupled (⟨s, []⟩ : Server) [] := ⟨rfl, fun _ _ hi => nomatch hi⟩
  obtain ⟨roles, hc, ht⟩ := tracked_kept.reaches
    (fun p roles patch hc hv hg => by
      obtain ⟨order, row, chat, hrow, hchat, ha⟩ := hv.ahead
      obtain ⟨order', ha'⟩ := ha.arrive patch
      refine ⟨⟨patch, firstStage patch⟩, updateEntry_follows, ?_, order', row, chat, hrow, hchat, ha'⟩
      intro i r hi
      obtain ho | ⟨rfl, rfl⟩ := get_concat hi
      · exact hv.patch i r ho
      · exact hc.1 ▸ hg)
    (fun p roles i w x r r' s' hc hv hg hat hi hm => tracked_await hc hv hg hat hi hm) h hc hstart
  intro hall
  obtain ⟨order, row, chat, hrow, hchat, ha⟩ := ht.ahead
  have hover : ∀ r ∈ roles, r.stage = .over := by
    intro r hr
    obtain ⟨i, hi⟩ := List.getElem?_of_mem hr
    obtain ⟨t, ht, hsite⟩ := hc.thread hi
    have hnone : none = r.stage.call.map (updateSite c) :=
      (Thread.site_of_finished (hall t (List.mem_of_getElem? ht))).symm.trans hsite
    cases hs : r.stage with
    | «over» => rfl
    | broken => exact absurd hs (ha.sound r hr)
    | _ =>
      rw [hs] at hnone
      cases hnone
  have hequal : row = chat := by
    apply Fields.ext_parts
    intro k
    apply ha.quiet k
    intro r hr hm
    rw [hover r hr] at hm
    exact absurd rfl hm
  have hpatches : roles.flatMap Updater.counted = patches.take p.threads.length := by
    have hmap : roles.flatMap Updater.counted = roles.map Updater.patch := by
      rw [List.map_eq_flatMap]
      apply List.flatMap_congr
      intro r hr
      simp [Updater.counted, hover r hr, UpdateStage.past]
    rw [hmap]
    apply List.ext_getElem?
    intro i
    rw [List.getElem?_map, List.getElem?_take, hc.1]
    split
    · rename_i hl
      rw [ht.patch i _ (List.getElem?_eq_getElem hl), List.getElem?_eq_getElem hl]
      rfl
    · rename_i hl
      rw [List.getElem?_eq_none (by omega)]
      rfl
  refine ⟨order, hpatches ▸ ha.perm, ?_, ?_⟩
  · rw [hchat, ← hequal, ha.applied]
  · rw [hrow, ha.applied]

end Runs

def titled (t : Text) : ChatRepo.Patch :=
  { title := some t, model := none, effort := none, sessionId := none }

def updatedAs (m : Text) : ChatRepo.Patch :=
  { title := none, model := some m, effort := none, sessionId := none }

/-- Two titles that reach the store in one order and the cache in the other. -/
def crossing : List UpdateEvent :=
  [.arrive (titled ['a']), .arrive (titled ['b']), .run 0 {}, .run 1 {}, .run 1 {}, .run 1 {},
    .run 0 {}, .run 0 {}]

theorem updates_cross :
    ¬ ∀ (c : Uuid) (start : Fields) (patches : List ChatRepo.Patch) (s : AppState) (p : Server),
      cachedFields s c = some start → storedFields s c = some start →
      Pool.Reaches (updateEntry c) (Offered patches) ⟨s, []⟩ p → Linearized c start patches p := by
  intro hall
  have hrun : ((Pool.play (updateEntry 1) (Offered [titled ['a'], titled ['b']])
      ⟨serve freshStore 10 [], []⟩ crossing).map (fun p => (p.threads.map Thread.finished,
        cachedFields p.shared 1, storedFields p.shared 1))) =
      some ([true, true], some ⟨['a'], ['m'], none, none⟩, some ⟨['b'], ['m'], none, none⟩) := by
    decide
  obtain ⟨p, hp, hfinal⟩ := Option.map_eq_some_iff.mp hrun
  simp only [Prod.mk.injEq] at hfinal
  obtain ⟨hthreads, hcached, hstored⟩ := hfinal
  have hdone : ∀ t ∈ p.threads, t.finished = true := by
    intro t ht
    have hmem : t.finished ∈ p.threads.map Thread.finished := List.mem_map_of_mem ht
    rw [hthreads] at hmem
    simpa using hmem
  obtain ⟨order, -, hc, hs⟩ := hall 1 ⟨['t'], ['m'], none, none⟩ _ _ p (by decide) (by decide)
    (Pool.play_reaches hp) hdone
  rw [hcached] at hc
  rw [hstored, ← hc] at hs
  revert hs
  decide

/-- A new title beside a new model, the one's writes around the other's. -/
def passing : List UpdateEvent :=
  [.arrive (titled ['a']), .arrive (updatedAs ['n']), .run 0 {}, .run 1 {}, .run 1 {}, .run 1 {},
    .run 0 {}, .run 1 {}, .run 0 {}]

theorem updates_linearized_beside :
    ∃ p : Server, (Pool.Reaches (updateEntry 1) (Separate 1 [titled ['a'], updatedAs ['n']])
        ⟨serve freshStore 10 [], []⟩ p ∧ cachedFields p.shared 1 = some ⟨['a'], ['n'], none, none⟩) ∧
      Linearized 1 ⟨['t'], ['m'], none, none⟩ [titled ['a'], updatedAs ['n']] p := by
  have hrun : ((Pool.play (updateEntry 1) (Separate 1 [titled ['a'], updatedAs ['n']])
      ⟨serve freshStore 10 [], []⟩ passing).map (fun p => cachedFields p.shared 1)) =
      some (some ⟨['a'], ['n'], none, none⟩) := by decide
  obtain ⟨p, hp, hcached⟩ := Option.map_eq_some_iff.mp hrun
  have hreach := Pool.play_reaches hp
  exact ⟨p, ⟨hreach, hcached⟩, updates_linearized (by decide) (by decide) hreach⟩

end AgentGrove
