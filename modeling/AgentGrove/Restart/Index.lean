import AgentGrove.Model.ChatCache
import AgentGrove.Prompts.Walk
import AgentGrove.Restart.Tables

namespace AgentGrove

variable {reg : ChatRegistry} {record : ChatRecord} {tempId storeId d : Uuid}

/-- A chat that is cached already would be listed twice, or under two projects. -/
theorem Indexed.ingestChat_iff (h : Indexed reg) : Indexed (reg.ingestChat record) ↔ reg.get record.id = none := by
  refine ⟨fun hnext => ?_, h.ingestChat⟩
  cases hget : reg.get record.id with
  | none => rfl
  | some chat =>
    have hin : record.id ∈ reg.projectIds chat.projectId := ((h chat.projectId).2 record.id).mpr ⟨chat, hget, rfl⟩
    obtain ⟨hnodup, hmem⟩ := hnext chat.projectId
    rw [projectIds_ingestChat] at hnodup hmem
    by_cases hp : chat.projectId = record.projectId
    · rw [if_pos hp, List.nodup_append] at hnodup
      exact absurd rfl (hnodup.2.2 _ hin _ (List.mem_singleton_self _))
    · rw [if_neg hp] at hmem
      obtain ⟨chat', hget', hp'⟩ := (hmem record.id).mp hin
      rw [ChatRegistry.get_ingestChat, if_pos rfl, Option.some_inj] at hget'
      exact absurd (hget' ▸ hp'.symm) hp

/-- Re-keying takes a chat out and caches it under its new id. -/
theorem get_rekey_ingest (hget : reg.get tempId = some record) (d : Uuid) :
    (rekey tempId storeId reg).get d = ((reg.evict tempId).ingestChat { record with id := storeId }).get d := by
  rw [get_rekey hget, ChatRegistry.get_ingestChat, ChatRegistry.get_evict]

theorem projectIds_rekey_ingest (h : Indexed reg) (hget : reg.get tempId = some record) (project : Uuid) :
    (rekey tempId storeId reg).projectIds project =
      ((reg.evict tempId).ingestChat { record with id := storeId }).projectIds project := by
  have hin : tempId ∈ reg.projectIds record.projectId := ((h record.projectId).2 tempId).mpr ⟨record, hget, rfl⟩
  rw [projectIds_ingestChat, projectIds_evict h]
  unfold rekey
  rw [hget]
  cases hl : reg.byProject.lookup record.projectId with
  | none => simp [ChatRegistry.projectIds, hl] at hin
  | some ids =>
    by_cases hp : project = record.projectId
    · subst hp
      simp [ChatRegistry.projectIds, hl]
    · have hout : tempId ∉ reg.projectIds project := by
        intro hother
        obtain ⟨chat, hchat, hproj⟩ := ((h project).2 tempId).mp hother
        rw [hget, Option.some_inj] at hchat
        exact hp (hproj.symm.trans (hchat ▸ rfl))
      have hsame : (reg.projectIds project).filter (fun i => i != tempId) = reg.projectIds project := by
        rw [List.filter_eq_self]
        intro i hi
        rw [bne_iff_ne]
        rintro rfl
        exact hout hi
      rw [if_neg hp, hsame]
      simp only [hl]
      change ((reg.byProject.insert record.projectId _).lookup project).getD [] = reg.projectIds project
      rw [ChatRegistry.lookup_insert, if_neg hp]
      rfl

theorem Indexed.rekey_iff (h : Indexed reg) (hget : reg.get tempId = some record) (hne : storeId ≠ tempId) :
    Indexed (rekey tempId storeId reg) ↔ reg.get storeId = none := by
  have hget' (c : Uuid) : (rekey tempId storeId reg).get c =
      ((reg.evict tempId).ingestChat { record with id := storeId }).get c := get_rekey_ingest hget c
  have hids' (project : Uuid) : (rekey tempId storeId reg).projectIds project =
      ((reg.evict tempId).ingestChat { record with id := storeId }).projectIds project :=
    projectIds_rekey_ingest h hget project
  have hsame : Indexed (rekey tempId storeId reg) ↔
      Indexed ((reg.evict tempId).ingestChat { record with id := storeId }) :=
    ⟨fun hi => hi.congr (fun p => (hids' p).symm) (fun c => by rw [hget' c]),
      fun hi => hi.congr hids' (fun c => by rw [hget' c])⟩
  rw [hsame, (h.evict tempId).ingestChat_iff, ChatRegistry.get_evict, if_neg hne]

theorem get_evictAll (ids : List Uuid) (reg : ChatRegistry) :
    (ids.foldl ChatRegistry.evict reg).get d = if d ∈ ids then none else reg.get d := by
  induction ids generalizing reg with
  | nil => simp
  | cons c ids ih =>
    rw [List.foldl_cons, ih, ChatRegistry.get_evict]
    by_cases hc : d = c
    · simp [hc]
    · simp [hc]

theorem Indexed.evictAll (h : Indexed reg) (ids : List Uuid) : Indexed (ids.foldl ChatRegistry.evict reg) := by
  induction ids generalizing reg with
  | nil => exact h
  | cons c ids ih => exact ih (h.evict c)

theorem get_retainChats {keep : ChatRecord → Bool} (hkeyed : ∀ id chat, reg.get id = some chat → chat.id = id) :
    (reg.retainChats keep).get d = (reg.get d).filter keep := by
  have hdrop : d ∈ ((reg.byId.entries.map Sigma.snd).filter (fun c => !keep c)).map ChatRecord.id ↔
      ∃ chat, reg.get d = some chat ∧ keep chat = false := by
    simp only [List.mem_map, List.mem_filter, Bool.not_eq_true']
    constructor
    · rintro ⟨chat, ⟨⟨e, he, rfl⟩, hkeep⟩, rfl⟩
      have hget := (ChatRegistry.mem_entries reg e).mp he
      exact ⟨e.2, by rw [hkeyed _ _ hget, hget], hkeep⟩
    · rintro ⟨chat, hget, hkeep⟩
      exact ⟨chat, ⟨⟨⟨d, chat⟩, (ChatRegistry.mem_entries reg _).mpr hget, rfl⟩, hkeep⟩, hkeyed _ _ hget⟩
  rw [ChatRegistry.retainChats, get_evictAll]
  by_cases hd : d ∈ ((reg.byId.entries.map Sigma.snd).filter (fun c => !keep c)).map ChatRecord.id
  · obtain ⟨chat, hget, hkeep⟩ := hdrop.mp hd
    rw [if_pos hd, hget, Option.filter_some, hkeep]
    rfl
  · rw [if_neg hd]
    cases hget : reg.get d with
    | none => rfl
    | some chat =>
      have hkeep : keep chat = true := by
        rw [← Bool.not_eq_false]
        exact fun hno => hd (hdrop.mpr ⟨chat, hget, hno⟩)
      rw [Option.filter_some, if_pos hkeep]

theorem Indexed.retainChats (h : Indexed reg) (keep : ChatRecord → Bool) : Indexed (reg.retainChats keep) :=
  h.evictAll _

end AgentGrove
