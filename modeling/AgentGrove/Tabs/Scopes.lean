import AgentGrove.Model.AppStore
import Mathlib.Data.List.Nodup

namespace AgentGrove.App

theorem truthy_of_ne {t : Text} (h : t ≠ []) : truthy (some t) = some t := by simp [truthy, h]

theorem truthy_eq_some {t : Option Text} {u : Text} : truthy t = some u ↔ t = some u ∧ u ≠ [] := by
  simp [truthy, Option.filter_eq_some_iff]

section ChangeFirst

variable {α β : Type} {p : α → Bool} {f : α → α} {g : α → β} {l : List α}

theorem map_changeFirst_eq (h : ∀ x, g (f x) = g x) : (changeFirst p f l).map g = l.map g := by
  induction l with
  | nil => rfl
  | cons x l ih =>
    rw [changeFirst]
    split
    · rw [List.map_cons, List.map_cons, h]
    · rw [List.map_cons, List.map_cons, ih]

end ChangeFirst

namespace UnifiedTab

@[simp] theorem id_setTitle (title : Text) (t : UnifiedTab) : (t.setTitle title).id = t.id := by cases t <;> rfl

@[simp] theorem isChat_setTitle (title : Text) (t : UnifiedTab) : (t.setTitle title).isChat = t.isChat := by
  cases t <;> rfl

@[simp] theorem id_setId (id : Text) (t : UnifiedTab) : (t.setId id).id = id := by cases t <;> rfl

end UnifiedTab

namespace Scope

variable {s : Scope}

def ids (s : Scope) : List Text := s.tabs.map UnifiedTab.id

/-- What the comments on a scope promise of it. -/
structure Valid (s : Scope) : Prop where
  distinct : s.ids.Nodup
  active : ∀ id, s.activeTab = some id → id ∈ s.ids

theorem mem_ids {id : Text} : id ∈ s.ids ↔ ∃ t ∈ s.tabs, t.id = id := List.mem_map

@[simp] theorem has_iff {id : Text} : s.has id = true ↔ id ∈ s.ids := by simp [has, mem_ids]

theorem valid_fresh : Valid {} := ⟨List.nodup_nil, fun _ h => by cases h⟩

theorem firstId_mem {id : Text} (h : s.firstId = some id) : id ∈ s.ids := by
  obtain ⟨t, ht, rfl⟩ := Option.map_eq_some_iff.mp h
  exact List.mem_map_of_mem (List.mem_of_mem_head? ht)

theorem strayed_iff : s.strayed = true ↔ ∃ id, s.activeTab = some id ∧ id ≠ [] ∧ id ∉ s.ids := by
  unfold strayed
  cases h : truthy s.activeTab with
  | none =>
    refine ⟨nofun, ?_⟩
    rintro ⟨id, hid, hne, -⟩
    rw [hid, truthy_of_ne hne] at h
    cases h
  | some id =>
    obtain ⟨hid, hne⟩ := truthy_eq_some.mp h
    have hany : (some id).any (fun id => !s.has id) = !s.has id := rfl
    have hnot : (!s.has id) = true ↔ id ∉ s.ids := by rw [Bool.not_eq_true', ← Bool.not_eq_true, has_iff]
    rw [hany, hnot]
    constructor
    · exact fun h => ⟨id, hid, hne, h⟩
    · rintro ⟨other, hother, -, h⟩
      cases hid.symm.trans hother
      exact h

/-- A stray active tab is put right, unless its id is the empty text. -/
theorem settle_valid_iff : Valid (if s.strayed then { s with activeTab := s.firstId } else s) ↔
    s.ids.Nodup ∧ (s.activeTab = some [] → [] ∈ s.ids) := by
  split
  · rename_i h
    obtain ⟨id, hid, hne, -⟩ := strayed_iff.mp h
    constructor
    · intro hs
      refine ⟨hs.distinct, fun he => ?_⟩
      cases hid.symm.trans he
      exact (hne rfl).elim
    · exact fun hs => ⟨hs.1, fun _ h => firstId_mem h⟩
  · rename_i h
    constructor
    · exact fun hs => ⟨hs.distinct, hs.active _⟩
    · intro hs
      refine ⟨hs.1, fun id hid => ?_⟩
      by_cases he : id = []
      · subst he
        exact hs.2 hid
      · by_contra hout
        exact h (strayed_iff.mpr ⟨id, hid, he, hout⟩)

theorem Valid.addTab (hs : s.Valid) (tab : UnifiedTab) : (s.addTab tab).Valid := by
  unfold Scope.addTab
  split
  · rename_i h
    refine ⟨hs.distinct, fun id hid => ?_⟩
    cases hid
    exact has_iff.mp h
  · rename_i h
    have hids : ids { s with tabs := s.tabs ++ [tab], activeTab := some tab.id } = s.ids.concat tab.id := by
      simp [ids]
    refine ⟨?_, fun id hid => ?_⟩
    · rw [hids]
      exact hs.distinct.concat fun hin => h (has_iff.mpr hin)
    · cases hid
      rw [hids]
      simp

theorem addTab_has (tab : UnifiedTab) : tab.id ∈ (s.addTab tab).ids := by
  unfold Scope.addTab
  split
  · rename_i h
    exact has_iff.mp h
  · simp [ids]

theorem Valid.closeTab (hs : s.Valid) (tabId : Text) : (s.closeTab tabId).Valid := by
  unfold Scope.closeTab
  cases hidx : s.tabs.findIdx? (fun t => t.id = tabId) with
  | none => exact hs
  | some idx =>
    obtain ⟨hlt, htab, -⟩ := List.findIdx?_eq_some_iff_getElem.mp hidx
    refine ⟨hs.distinct.sublist ((List.eraseIdx_sublist _ _).map _), fun id hid => ?_⟩
    dsimp only at hid
    split at hid
    · obtain ⟨t, ht, rfl⟩ := Option.map_eq_some_iff.mp hid
      exact List.mem_map_of_mem (List.mem_of_getElem? ht)
    · rename_i hne
      obtain ⟨t, ht, rfl⟩ := mem_ids.mp (hs.active id hid)
      refine mem_ids.mpr ⟨t, List.mem_eraseIdx_iff_getElem.mpr ?_, rfl⟩
      obtain ⟨i, hi, rfl⟩ := List.mem_iff_getElem.mp ht
      refine ⟨i, hi, fun he => hne ?_, rfl⟩
      subst he
      rw [hid, of_decide_eq_true htab]

theorem setActiveTab_valid_iff (hs : s.Valid) (tabId : Text) : (s.setActiveTab tabId).Valid ↔ tabId ∈ s.ids := by
  constructor
  · exact fun h => h.active _ rfl
  · intro h
    refine ⟨hs.distinct, fun id hid => ?_⟩
    cases hid
    exact h

end Scope

end AgentGrove.App
