import AgentGrove.Tabs.Scopes

namespace AgentGrove.App

namespace Scope

variable {s : Scope} {oldId newId id : Text}

def rename (oldId newId id : Text) : Text := if id = oldId then newId else id

theorem map_rename {l : List Text} (h : oldId ∉ l) : l.map (rename oldId newId) = l := by
  have hkeep : l.map (rename oldId newId) = l.map id := by
    refine List.map_congr_left fun id hid => if_neg ?_
    rintro rfl
    exact h hid
  rw [hkeep, List.map_id]

theorem ids_replaceId (hs : s.ids.Nodup) : (s.replaceId oldId newId).ids = s.ids.map (rename oldId newId) := by
  obtain ⟨tabs, activeTab, activePane, chatsHydrated⟩ := s
  unfold ids replaceId at *
  dsimp only at hs ⊢
  induction tabs with
  | nil => rfl
  | cons t tabs ih =>
    obtain ⟨hnew, hs⟩ := List.nodup_cons.mp hs
    rw [changeFirst]
    by_cases he : t.id = oldId
    · subst he
      simp only [decide_true, if_true, List.map_cons, UnifiedTab.id_setId]
      rw [map_rename hnew, rename, if_pos rfl]
    · simp [he, rename, ih hs]

theorem replaceId_valid_iff (hs : s.Valid) (h : oldId ∈ s.ids) :
    (s.replaceId oldId newId).Valid ↔ newId = oldId ∨ newId ∉ s.ids := by
  have hids := @ids_replaceId s oldId newId hs.distinct
  constructor
  · intro hv
    by_contra hc
    rw [not_or, not_not] at hc
    have hd := hv.distinct
    rw [hids] at hd
    exact hc.1 (List.inj_on_of_nodup_map hd hc.2 h (by simp [rename, hc.1]))
  · intro hnew
    refine ⟨?_, fun id hid => ?_⟩
    · rw [hids]
      refine hs.distinct.map_on fun x hx y hy he => ?_
      unfold rename at he
      split at he <;> split at he <;> grind
    · rw [hids]
      dsimp only [replaceId] at hid
      split at hid
      · cases hid
        exact List.mem_map.mpr ⟨oldId, h, if_pos rfl⟩
      · rename_i hne
        refine List.mem_map.mpr ⟨id, hs.active _ hid, if_neg ?_⟩
        rintro rfl
        exact hne hid

end Scope

namespace Blob

variable {b : Blob}

/-- The ids of a layout of the time before the tabs were one list. -/
def formerIds (b : Blob) : List Text :=
  b.chats.map ChatTab.id ++ b.terminals.map TerminalTab.id ++ (truthy b.activeEditor).toList.map fileId

def keptTabs (b : Blob) : List UnifiedTab := b.tabs.filter (fun t => !t.staleDb)

/-- A blob gives its tabs one id each, and points to a tab that it has. -/
def Coherent (b : Blob) : Prop :=
  if b.old then
    b.formerIds.Nodup ∧ ∀ id, (truthy b.activeChat).or (truthy b.activeTerminal) = some id → id ∈ b.formerIds
  else
    (b.keptTabs.map UnifiedTab.id).Nodup ∧
      ∀ id, b.activeTab = some id → id = [] ∨ b.keptTabs = b.tabs → id ∈ b.keptTabs.map UnifiedTab.id

theorem map_migrated : b.migrated.map UnifiedTab.id = b.formerIds := by
  simp [migrated, formerIds, Scope.chatOf, UnifiedTab.id, Function.comp_def]

theorem not_staleDb_of_migrated {t : UnifiedTab} (h : t ∈ b.migrated) : t.staleDb = false := by
  simp only [migrated, List.mem_append, List.mem_map] at h
  obtain (⟨c, -, rfl⟩ | ⟨t, -, rfl⟩) | ⟨path, -, rfl⟩ := h <;> rfl

theorem resolved_old (h : b.old = true) : b.resolved = b.unified := by
  have htabs : b.unified.tabs = b.migrated := by rw [unified, if_pos h]
  unfold resolved
  rw [if_neg]
  rw [htabs, Bool.not_eq_true, List.any_eq_false]
  exact fun t ht => by simp [not_staleDb_of_migrated ht]

theorem keptTabs_eq_iff : b.keptTabs = b.tabs ↔ b.tabs.any UnifiedTab.staleDb = false := by
  simp [keptTabs, List.filter_eq_self]

theorem resolved_valid_iff : b.resolved.Valid ↔ b.Coherent := by
  unfold Coherent
  cases hold : b.old with
  | true =>
    have hids : b.unified.ids = b.formerIds := by
      rw [unified, if_pos hold, ← map_migrated]
      rfl
    have hactive : b.unified.activeTab = (truthy b.activeChat).or ((truthy b.activeTerminal).or
        (((truthy b.activeEditor).map fileId).or (b.migrated.head?.map UnifiedTab.id))) := by rw [unified, if_pos hold]
    rw [resolved_old hold, if_pos rfl]
    constructor
    · intro h
      refine ⟨hids ▸ h.distinct, fun id hid => hids ▸ h.active id ?_⟩
      rw [hactive, ← Option.or_assoc, hid, Option.some_or]
    · rintro ⟨hd, ha⟩
      refine ⟨hids ▸ hd, fun id hid => ?_⟩
      rw [hids]
      rw [hactive, ← Option.or_assoc] at hid
      rcases Option.or_eq_some_iff.mp hid with h | ⟨-, h⟩
      · exact ha id h
      rcases Option.or_eq_some_iff.mp h with h | ⟨-, h⟩
      · obtain ⟨path, hp, rfl⟩ := Option.map_eq_some_iff.mp h
        simp [formerIds, hp]
      · obtain ⟨t, ht, rfl⟩ := Option.map_eq_some_iff.mp h
        rw [← map_migrated]
        exact List.mem_map_of_mem (List.mem_of_mem_head? ht)
  | false =>
    have hbase : b.unified = b.base := by rw [unified, hold, if_neg Bool.false_ne_true]
    rw [if_neg Bool.false_ne_true]
    unfold resolved
    rw [hbase]
    cases hstale : b.tabs.any UnifiedTab.staleDb with
    | true =>
      have hne : b.keptTabs ≠ b.tabs := by simp [keptTabs_eq_iff, hstale]
      have hs : b.base.tabs.any UnifiedTab.staleDb = true := hstale
      rw [if_pos hs]
      refine Scope.settle_valid_iff.trans (and_congr_right fun _ => ?_)
      constructor
      · rintro h id hid (rfl | he)
        · exact h hid
        · exact (hne he).elim
      · exact fun h hid => h [] hid (Or.inl rfl)
    | false =>
      have heq : b.keptTabs = b.tabs := keptTabs_eq_iff.mpr hstale
      have hs : ¬ b.base.tabs.any UnifiedTab.staleDb = true := by rw [Bool.not_eq_true]; exact hstale
      rw [if_neg hs, heq]
      constructor
      · exact fun h => ⟨h.distinct, fun id hid _ => h.active id hid⟩
      · exact fun h => ⟨h.1, fun id hid => h.2 id hid (Or.inr rfl)⟩

end Blob

end AgentGrove.App
