import AgentGrove.Model.Settings

namespace AgentGrove

/-- The settings after the seed pass. -/
def seeded (s : Settings) : Settings := (applySeeds s).1

/-- What a request that reads the file makes of the settings it found. -/
def SettingsRequest.edit : SettingsRequest → Settings → Settings
  | .importTheme t => addTheme t
  | .deleteTheme id => dropTheme id
  | _ => id

/-- It writes its edit back. -/
def SettingsRequest.saves : SettingsRequest → Settings → Bool
  | .importTheme _, _ => true
  | .deleteTheme id, s => (dropTheme id s).customThemes.length ≠ s.customThemes.length
  | _, _ => false

/-- It reads the file. -/
def SettingsRequest.reads : SettingsRequest → Bool
  | .put _ => false
  | .importTheme t => (themeError t).isNone
  | _ => true

def SettingsRequest.isPut : SettingsRequest → Bool
  | .put _ => true
  | _ => false

/-- What a request makes of the stored settings when nothing interferes. Missing
or unreadable settings are `none`. -/
def SettingsRequest.effect (r : SettingsRequest) (stored : Option Settings) : Option Settings :=
  match r with
  | .put body => some body
  | r => if r.reads then some (r.edit (seeded (stored.getD {}))) else stored

theorem effect_reads {r : SettingsRequest} (h : r.reads = true) (stored : Option Settings) :
    r.effect stored = some (r.edit (seeded (stored.getD {}))) := by
  cases r with
  | put body => cases h
  | importTheme t =>
    unfold SettingsRequest.effect
    dsimp only
    rw [h]
    rfl
  | _ => rfl

theorem effect_rejected {r : SettingsRequest} (h : r.reads = false) (hp : r.isPut = false)
    (stored : Option Settings) : r.effect stored = stored := by
  cases r with
  | put body => cases hp
  | importTheme t =>
    unfold SettingsRequest.effect
    dsimp only
    rw [h]
    rfl
  | _ => cases h

theorem edit_of_not_saves {r : SettingsRequest} {s : Settings} (h : r.saves s = false) :
    r.edit s = s := by
  cases r with
  | importTheme t => cases h
  | deleteTheme id =>
    have hl : (dropTheme id s).customThemes.length = s.customThemes.length := by
      simpa [SettingsRequest.saves] using h
    have he : (dropTheme id s).customThemes = s.customThemes :=
      List.filter_sublist.eq_of_length hl
    unfold SettingsRequest.edit
    unfold dropTheme at he ⊢
    dsimp only at he ⊢
    rw [he]
  | _ => rfl

/-- Every batch has been applied. -/
def AllApplied (s : Settings) : Prop := ∀ batch ∈ seedBatches, batch.1 ∈ s.appliedPromptSeeds

theorem applyBatch_applied {s : Settings × Bool} {batch : String × List PromptTemplate}
    (h : batch.1 ∈ s.1.appliedPromptSeeds) : applyBatch s batch = s := if_pos h

theorem applyBatch_adds (s : Settings × Bool) (batch : String × List PromptTemplate) :
    batch.1 ∈ (applyBatch s batch).1.appliedPromptSeeds ∧
      s.1.appliedPromptSeeds ⊆ (applyBatch s batch).1.appliedPromptSeeds := by
  unfold applyBatch
  split
  · exact ⟨‹_›, List.Subset.refl _⟩
  · exact ⟨by simp, by simp⟩

theorem foldl_applied {s : Settings × Bool} {batches : List (String × List PromptTemplate)}
    (h : ∀ batch ∈ batches, batch.1 ∈ s.1.appliedPromptSeeds) : batches.foldl applyBatch s = s := by
  induction batches with
  | nil => rfl
  | cons batch rest ih =>
    rw [List.foldl_cons, applyBatch_applied (h batch List.mem_cons_self)]
    exact ih (fun b hb => h b (List.mem_cons_of_mem _ hb))

theorem foldl_adds (s : Settings × Bool) (batches : List (String × List PromptTemplate)) :
    s.1.appliedPromptSeeds ⊆ (batches.foldl applyBatch s).1.appliedPromptSeeds ∧
      ∀ batch ∈ batches, batch.1 ∈ (batches.foldl applyBatch s).1.appliedPromptSeeds := by
  induction batches generalizing s with
  | nil => exact ⟨List.Subset.refl _, fun _ hb => (nomatch hb)⟩
  | cons batch rest ih =>
    obtain ⟨hsub, hall⟩ := ih (applyBatch s batch)
    obtain ⟨hin, hkeep⟩ := applyBatch_adds s batch
    refine ⟨fun _ hs => hsub (hkeep hs), fun b hb => ?_⟩
    rcases List.mem_cons.mp hb with he | hb
    · exact he ▸ hsub hin
    · exact hall b hb

theorem seeded_applied (s : Settings) : AllApplied (seeded s) := (foldl_adds (s, false) seedBatches).2

/-- A second seed pass finds nothing to do. -/
theorem seeded_of_applied {s : Settings} (h : AllApplied s) : applySeeds s = (s, false) :=
  foldl_applied h

@[simp] theorem seeded_seeded (s : Settings) : seeded (seeded s) = seeded s :=
  (congrArg Prod.fst (seeded_of_applied (seeded_applied s)) :)

/-- A pass that finds nothing to write changes nothing. -/
theorem seeded_of_clean {s : Settings} (h : (applySeeds s).2 = false) : seeded s = s := by
  have hfold : ∀ (batches : List (String × List PromptTemplate)) (b : Settings × Bool),
      (batches.foldl applyBatch b).2 = false → batches.foldl applyBatch b = b := by
    intro batches
    induction batches with
    | nil => exact fun _ _ => rfl
    | cons batch rest ih =>
      intro b hb
      have hrest := ih _ hb
      rw [List.foldl_cons] at hb ⊢
      rw [hrest] at hb ⊢
      unfold applyBatch at hb ⊢
      split at hb
      · exact if_pos ‹_›
      · cases hb
  exact congrArg Prod.fst (hfold seedBatches (s, false) h)

/-- The defaults never pass for seeded settings. -/
theorem default_dirty : (applySeeds {}).2 = true := by
  decide

/-- A request that reads makes the same of the settings before and after
someone's seed pass. -/
theorem effect_seeded {r : SettingsRequest} (h : r.reads = true) (stored : Option Settings) :
    r.effect (some (seeded (stored.getD {}))) = r.effect stored := by
  rw [effect_reads h, effect_reads h, Option.getD_some, seeded_seeded]

/-- What later requests leave of the settings a user put: every field but the
lists the server itself extends, the templates in their places, and of batches
applied before no template that was missing. -/
structure Preserves (body s : Settings) : Prop where
  fields : { s with
    customThemes := body.customThemes
    prompts := body.prompts
    promptsSeeded := body.promptsSeeded
    appliedPromptSeeds := body.appliedPromptSeeds } = body
  prompts : body.prompts <+: s.prompts
  applied : body.appliedPromptSeeds ⊆ s.appliedPromptSeeds
  deleted : ∀ batch ∈ seedBatches, batch.1 ∈ body.appliedPromptSeeds → ∀ tpl ∈ batch.2,
    tpl.id ∉ body.prompts.map PromptTemplate.id → tpl.id ∉ s.prompts.map PromptTemplate.id

theorem Preserves.refl (s : Settings) : Preserves s s :=
  ⟨rfl, List.prefix_rfl, List.Subset.refl _, fun _ _ _ _ _ h => h⟩

theorem Preserves.theme {body s : Settings} (h : Preserves body s) : s.theme = body.theme := by
  have heq := congrArg (fun s : Settings => s.theme) h.fields
  exact heq

theorem Preserves.edit {body s : Settings} (h : Preserves body s) (r : SettingsRequest) :
    Preserves body (r.edit s) := by
  cases r with
  | importTheme t => exact ⟨h.fields, h.prompts, h.applied, h.deleted⟩
  | deleteTheme id => exact ⟨h.fields, h.prompts, h.applied, h.deleted⟩
  | _ => exact h

theorem mergeTemplates_extends (prompts templates : List PromptTemplate) :
    prompts <+: mergeTemplates prompts templates := by
  unfold mergeTemplates
  induction templates generalizing prompts with
  | nil => exact List.prefix_rfl
  | cons tpl rest ih =>
    rw [List.foldl_cons]
    split
    · exact ih prompts
    · exact (List.prefix_append _ _).trans (ih (prompts ++ [tpl]))

theorem mergeTemplates_ids {prompts templates : List PromptTemplate} {x : String}
    (h : x ∈ (mergeTemplates prompts templates).map PromptTemplate.id) :
    x ∈ prompts.map PromptTemplate.id ∨ x ∈ templates.map PromptTemplate.id := by
  unfold mergeTemplates at h
  induction templates generalizing prompts with
  | nil => exact .inl h
  | cons tpl rest ih =>
    rw [List.foldl_cons] at h
    obtain hp | hr := ih h
    · split at hp
      · exact .inl hp
      · rw [List.map_append] at hp
        rcases List.mem_append.mp hp with ho | hn
        · exact .inl ho
        · exact .inr (List.mem_cons.mpr (.inl (List.mem_singleton.mp hn)))
    · exact .inr (List.mem_cons_of_mem _ hr)

/-- No template belongs to two batches. -/
theorem batches_apart : ∀ b ∈ seedBatches, ∀ b' ∈ seedBatches, b.1 ≠ b'.1 →
    ∀ x ∈ b.2.map PromptTemplate.id, x ∉ b'.2.map PromptTemplate.id := by
  decide

theorem Preserves.applyBatch {body : Settings} {s : Settings × Bool}
    {batch : String × List PromptTemplate} (h : Preserves body s.1) (hb : batch ∈ seedBatches) :
    Preserves body (applyBatch s batch).1 := by
  unfold AgentGrove.applyBatch
  split
  · exact h
  · rename_i hnew
    refine ⟨h.fields, h.prompts.trans (mergeTemplates_extends _ _), ?_, ?_⟩
    · exact List.subset_append_of_subset_left _ h.applied
    · intro b hmem hdone tpl ht hmissing hin
      obtain ho | hn := mergeTemplates_ids hin
      · exact h.deleted b hmem hdone tpl ht hmissing ho
      · have hne : b.1 ≠ batch.1 := fun he => hnew (he ▸ h.applied hdone)
        exact batches_apart b hmem batch hb hne _ (List.mem_map_of_mem ht) hn

theorem Preserves.seeded {body s : Settings} (h : Preserves body s) : Preserves body (seeded s) := by
  have hfold : ∀ (batches : List (String × List PromptTemplate)) (b : Settings × Bool),
      batches ⊆ seedBatches → Preserves body b.1 → Preserves body (batches.foldl AgentGrove.applyBatch b).1 := by
    intro batches
    induction batches with
    | nil => exact fun _ _ hb => hb
    | cons batch rest ih =>
      intro b hsub hb
      obtain ⟨hhead, hrest⟩ := List.cons_subset.mp hsub
      exact ih _ hrest (hb.applyBatch hhead)
  exact hfold seedBatches (s, false) (List.Subset.refl _) h

/-- Requests after a user's put preserve what was put. -/
theorem preserves_fold {body s : Settings} (after : List SettingsRequest)
    (h : ∀ r ∈ after, r.isPut = false) (hs : Preserves body s) :
    ∃ s', after.foldl (fun stored r => r.effect stored) (some s) = some s' ∧ Preserves body s' := by
  induction after generalizing s with
  | nil => exact ⟨s, rfl, hs⟩
  | cons r rest ih =>
    obtain ⟨hr, hrest⟩ := List.forall_mem_cons.mp h
    rw [List.foldl_cons]
    cases hreads : r.reads with
    | true =>
      rw [effect_reads hreads]
      exact ih hrest (hs.seeded.edit r)
    | false =>
      rw [effect_rejected hreads hr]
      exact ih hrest hs

end AgentGrove
