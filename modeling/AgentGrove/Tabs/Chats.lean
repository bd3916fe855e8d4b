import AgentGrove.Tabs.Scopes

namespace AgentGrove.App.Scope

variable {s : Scope} {addAll : Bool} {c : ChatTab} {chats : List ChatTab} {id : Text}

/-- No tab but a chat has an id. -/
def Free (s : Scope) (id : Text) : Prop := ∀ t ∈ s.tabs, t.id = id → t.isChat = true

/-- No chat tab is of a list of chats. -/
def Refills (s : Scope) (chats : List ChatTab) : Prop :=
  chats ≠ [] ∧ ∀ t ∈ s.tabs, t.isChat = true → ∀ c ∈ chats, c.id ≠ t.id

/-- The chats that get a tab have an id of their own, and the empty id is not left active alone. -/
structure Settles (s : Scope) (chats : List ChatTab) : Prop where
  free : ∀ c ∈ chats, s.Refills chats ∨ s.activeTab = some c.id → s.Free c.id
  named : s.activeTab = some [] → s.Refills chats ∨ (∃ c ∈ chats, c.id = []) ∨ ¬ s.Free []

section Merging

def marks (s : Scope) : List (Text × Bool) := s.tabs.map fun t => (t.id, t.isChat)

theorem map_marks : s.marks.map Prod.fst = s.ids := by simp [marks, ids]

theorem free_iff : s.Free id ↔ (id, false) ∉ s.marks := by simp [Free, marks]

theorem mem_ids_iff : id ∈ s.ids ↔ (id, true) ∈ s.marks ∨ (id, false) ∈ s.marks := by
  rw [← map_marks]
  simp [or_comm]

/-- A chat gets a tab. -/
def Pushed (addAll : Bool) (s : Scope) (c : ChatTab) : Prop :=
  (c.id, true) ∉ s.marks ∧ (addAll = true ∨ s.activeTab = some c.id)

open Classical in
theorem marks_mergeChat : (mergeChat addAll s c).marks =
    if Pushed addAll s c then s.marks ++ [(c.id, true)] else s.marks := by
  have hany : s.tabs.any (fun t => t.id = c.id && t.isChat) = true ↔ (c.id, true) ∈ s.marks := by simp [marks]
  unfold mergeChat
  split
  · rename_i h
    rw [if_neg fun hc => hc.1 (hany.mp h)]
    exact map_changeFirst_eq (by simp)
  · rename_i h
    have hnew : (c.id, true) ∉ s.marks := fun hin => h (hany.mpr hin)
    split
    · rename_i hadd
      rw [if_pos ⟨hnew, by simpa using hadd⟩]
      simp [marks, chatOf, UnifiedTab.id, UnifiedTab.isChat]
    · rename_i hadd
      rw [if_neg fun hc => hadd (by simpa using hc.2)]

@[simp] theorem mergeChat_activeTab : (mergeChat addAll s c).activeTab = s.activeTab := by
  unfold mergeChat
  split
  · rfl
  · split <;> rfl

@[simp] theorem merge_activeTab : (chats.foldl (mergeChat addAll) s).activeTab = s.activeTab := by
  induction chats generalizing s with
  | nil => rfl
  | cons c chats ih => rw [List.foldl_cons, ih, mergeChat_activeTab]

theorem free_mergeChat : (mergeChat addAll s c).Free id ↔ s.Free id := by
  rw [free_iff, free_iff, marks_mergeChat]
  split <;> simp

theorem sublist_mergeChat : s.ids.Sublist (mergeChat addAll s c).ids := by
  rw [← map_marks, ← map_marks, marks_mergeChat]
  split <;> simp

theorem sublist_merge : s.ids.Sublist (chats.foldl (mergeChat addAll) s).ids := by
  induction chats generalizing s with
  | nil => exact List.Sublist.refl _
  | cons c chats ih => exact sublist_mergeChat.trans ih

theorem mergeChat_distinct_iff (hs : s.ids.Nodup) :
    (mergeChat addAll s c).ids.Nodup ↔ (addAll = true ∨ s.activeTab = some c.id → s.Free c.id) := by
  rw [← map_marks, marks_mergeChat]
  by_cases hpush : Pushed addAll s c
  · have hin : c.id ∈ s.ids ↔ (c.id, false) ∈ s.marks := by simp [mem_ids_iff, hpush.1]
    rw [if_pos hpush, List.map_append, map_marks, List.map_singleton, ← List.concat_eq_append, List.nodup_concat, hin,
      free_iff]
    exact ⟨fun h _ => h.1, fun h => ⟨h hpush.2, hs⟩⟩
  · rw [if_neg hpush, map_marks]
    refine ⟨fun _ hwant => ?_, fun _ => hs⟩
    have hchat : (c.id, true) ∈ s.marks := by
      by_contra hnew
      exact hpush ⟨hnew, hwant⟩
    rw [free_iff]
    intro hother
    have he := List.inj_on_of_nodup_map (by rwa [map_marks]) hchat hother rfl
    cases he

/-- Chats get tabs of distinct ids exactly if no other tab has the id of one that gets a tab. -/
theorem merge_distinct_iff (hs : s.ids.Nodup) : (chats.foldl (mergeChat addAll) s).ids.Nodup ↔
    ∀ c ∈ chats, addAll = true ∨ s.activeTab = some c.id → s.Free c.id := by
  induction chats generalizing s with
  | nil => simp [hs]
  | cons c chats ih =>
    rw [List.foldl_cons, List.forall_mem_cons, ← mergeChat_distinct_iff hs]
    constructor
    · intro h
      have hc := h.sublist sublist_merge
      refine ⟨hc, ?_⟩
      simpa [free_mergeChat] using (ih hc).mp h
    · rintro ⟨hc, hrest⟩
      refine (ih hc).mpr ?_
      simpa [free_mergeChat] using hrest

theorem mem_ids_mergeChat :
    id ∈ (mergeChat addAll s c).ids ↔ id ∈ s.ids ∨ (c.id = id ∧ (addAll = true ∨ s.activeTab = some id)) := by
  rw [← map_marks, marks_mergeChat]
  split
  · rename_i h
    rw [List.map_append, map_marks, List.map_singleton, List.mem_append, List.mem_singleton]
    refine or_congr_right ⟨?_, fun hid => hid.1.symm⟩
    rintro rfl
    exact ⟨rfl, h.2⟩
  · rename_i h
    rw [map_marks]
    refine ⟨Or.inl, ?_⟩
    rintro (hin | ⟨rfl, hwant⟩)
    · exact hin
    · refine mem_ids_iff.mpr (Or.inl ?_)
      by_contra hnew
      exact h ⟨hnew, hwant⟩

theorem mem_ids_merge : id ∈ (chats.foldl (mergeChat addAll) s).ids ↔
    id ∈ s.ids ∨ ((∃ c ∈ chats, c.id = id) ∧ (addAll = true ∨ s.activeTab = some id)) := by
  induction chats generalizing s with
  | nil => simp
  | cons c chats ih =>
    rw [List.foldl_cons, ih, mem_ids_mergeChat, mergeChat_activeTab]
    simp only [List.mem_cons, exists_eq_or_imp]
    tauto

end Merging

section Setting

variable (s chats)

def kept : Scope := { s with tabs := s.tabs.filter (fun t => !t.isChat || chats.any (fun c => c.id = t.id)) }

def addsAll : Bool := !(s.kept chats).tabs.any UnifiedTab.isChat && !chats.isEmpty

def merged : Scope := chats.foldl (mergeChat (s.addsAll chats)) (s.kept chats)

/-- The scope before a stray active tab is put right. -/
def hydrated : Scope :=
  { (if s.addsAll chats && (truthy (s.merged chats).activeTab).isNone && !(s.merged chats).tabs.isEmpty then
      { s.merged chats with activeTab := (s.merged chats).firstId }
    else s.merged chats) with
      chatsHydrated := true }

theorem setChats_eq : s.setChats chats =
    if (s.hydrated chats).strayed then { s.hydrated chats with activeTab := (s.hydrated chats).firstId }
    else s.hydrated chats := rfl

variable {s chats}

theorem mem_kept {t : UnifiedTab} :
    t ∈ (s.kept chats).tabs ↔ t ∈ s.tabs ∧ (t.isChat = true → ∃ c ∈ chats, c.id = t.id) := by
  cases h : t.isChat <;> simp [kept, h]

theorem addsAll_iff : s.addsAll chats = true ↔ s.Refills chats := by
  have hnone : (s.kept chats).tabs.any UnifiedTab.isChat = false ↔
      ∀ t ∈ s.tabs, t.isChat = true → ∀ c ∈ chats, c.id ≠ t.id := by
    rw [List.any_eq_false]
    simp only [mem_kept]
    constructor
    · intro h t ht hchat c hc he
      exact h t ⟨ht, fun _ => ⟨c, hc, he⟩⟩ hchat
    · rintro h t ⟨ht, hc⟩ hchat
      obtain ⟨c, hc, he⟩ := hc hchat
      exact h t ht hchat c hc he
  rw [addsAll, Bool.and_eq_true, Bool.not_eq_true', hnone]
  simp [Refills, and_comm]

theorem free_kept : (s.kept chats).Free id ↔ s.Free id := by
  unfold Free
  simp only [mem_kept]
  constructor
  · intro hk t ht he
    by_contra hchat
    exact hchat (hk t ⟨ht, fun h => (hchat h).elim⟩ he)
  · rintro hs t ⟨ht, -⟩ he
    exact hs t ht he

theorem ids_hydrated : (s.hydrated chats).ids = (s.merged chats).ids := by
  unfold hydrated
  split <;> rfl

theorem merged_distinct_iff (hs : s.ids.Nodup) : (s.merged chats).ids.Nodup ↔
    ∀ c ∈ chats, s.Refills chats ∨ s.activeTab = some c.id → s.Free c.id := by
  have hk : (s.kept chats).ids.Nodup := hs.sublist (List.filter_sublist.map _)
  rw [merged, merge_distinct_iff hk]
  refine forall₂_congr fun c hc => ?_
  rw [addsAll_iff, free_kept]
  rfl

theorem blank_mem_merged (h : s.activeTab = some []) :
    [] ∈ (s.merged chats).ids ↔ (∃ c ∈ chats, c.id = []) ∨ ¬ s.Free [] := by
  have hk : [] ∈ (s.kept chats).ids ↔ (∃ t ∈ s.tabs, t.id = [] ∧ (t.isChat = true → ∃ c ∈ chats, c.id = [])) := by
    rw [mem_ids]
    simp only [mem_kept]
    constructor
    · rintro ⟨t, ⟨ht, hc⟩, he⟩
      rw [he] at hc
      exact ⟨t, ht, he, hc⟩
    · rintro ⟨t, ht, he, hc⟩
      rw [← he] at hc
      exact ⟨t, ⟨ht, hc⟩, he⟩
  rw [merged, mem_ids_merge, hk]
  constructor
  · rintro (⟨t, ht, he, hc⟩ | ⟨hc, -⟩)
    · by_cases hchat : t.isChat = true
      · exact Or.inl (hc hchat)
      · exact Or.inr fun hf => hchat (hf t ht he)
    · exact Or.inl hc
  · rintro (hc | hf)
    · exact Or.inr ⟨hc, Or.inr h⟩
    · simp only [Free, not_forall] at hf
      obtain ⟨t, ht, he, hchat⟩ := hf
      exact Or.inl ⟨t, ht, he, fun hc => (hchat hc).elim⟩

theorem hydrated_blank_iff : ((s.hydrated chats).activeTab = some [] → [] ∈ (s.merged chats).ids) ↔
    (s.activeTab = some [] → s.Refills chats ∨ [] ∈ (s.merged chats).ids) := by
  have hactive : (s.merged chats).activeTab = s.activeTab := merge_activeTab
  unfold hydrated
  split
  · rename_i h
    simp only [Bool.and_eq_true] at h
    refine ⟨fun _ _ => Or.inl (addsAll_iff.mp h.1.1), fun _ hid => firstId_mem hid⟩
  · rename_i h
    dsimp only
    rw [hactive] at h ⊢
    refine ⟨fun hid ha => Or.inr (hid ha), fun hid ha => (hid ha).resolve_left fun hfill => h ?_⟩
    obtain ⟨c, hc⟩ := List.exists_mem_of_ne_nil _ hfill.1
    have hin : c.id ∈ (s.merged chats).ids := mem_ids_merge.mpr (Or.inr ⟨⟨c, hc, rfl⟩, Or.inl (addsAll_iff.mpr hfill)⟩)
    obtain ⟨t, ht, -⟩ := mem_ids.mp hin
    simp [addsAll_iff.mpr hfill, ha, truthy, List.ne_nil_of_mem ht]

theorem setChats_valid_iff (hs : s.Valid) : (s.setChats chats).Valid ↔ s.Settles chats := by
  rw [setChats_eq, settle_valid_iff, ids_hydrated, hydrated_blank_iff, merged_distinct_iff hs.distinct]
  constructor
  · rintro ⟨hfree, hnamed⟩
    refine ⟨hfree, fun ha => (hnamed ha).imp_right ?_⟩
    exact (blank_mem_merged ha).mp
  · rintro ⟨hfree, hnamed⟩
    refine ⟨hfree, fun ha => (hnamed ha).imp_right ?_⟩
    exact (blank_mem_merged ha).mpr

end Setting

end AgentGrove.App.Scope
