import AgentGrove.Backups.Retention

namespace AgentGrove.Backups

open Assoc (Table)

section Script

variable {d : Disk} {secs : Nat} {pre name : Text} {files : Files} {copying : Copying} {s : Step}

/-- The commands before the first one that touches the database. -/
def saving : List Step := .mkdir :: parts.map .save

def replacing : List Step := parts.map .remove ++ parts.map .put

theorem Step.exec_live (h : s ∈ saving) : (s.exec copying secs pre name d).live = d.live := by
  cases s with
  | mkdir => rfl
  | save p => rfl
  | remove p => simp [saving] at h
  | put p => simp [saving] at h

theorem Step.exec_backups (h : s ∈ replacing) : (s.exec copying secs pre name d).backups = d.backups := by
  cases s with
  | mkdir => simp [replacing] at h
  | save p => simp [replacing] at h
  | remove p => rfl
  | put p => rfl

theorem foldl_live {l : List Step} (h : l ⊆ saving) : (l.foldl (Step.exec .done secs pre name) d).live = d.live := by
  induction l generalizing d with
  | nil => rfl
  | cons s l ih =>
    obtain ⟨hs, hl⟩ := List.cons_subset.mp h
    exact (ih hl).trans (Step.exec_live hs)

theorem foldl_backups {l : List Step} (h : l ⊆ replacing) :
    (l.foldl (Step.exec .done secs pre name) d).backups = d.backups := by
  induction l generalizing d with
  | nil => rfl
  | cons s l ih =>
    obtain ⟨hs, hl⟩ := List.cons_subset.mp h
    exact (ih hl).trans (Step.exec_backups hs)

theorem get_mkdir {t : Table Text Entry} (ht : d.backups = some t) (hfresh : d.get pre = none) :
    (Step.mkdir.exec copying secs pre name d).get pre = some (.dir (fun _ => none) secs) := by
  have hnone : t.get pre = none := by simpa [Disk.get, ht] using hfresh
  have hmade : createDirAll secs pre t = some (t.upsert pre (.dir (fun _ => none) secs) id) := by
    rw [createDirAll, hnone]
  simp [Step.exec, Disk.get, ht, hmade, Table.get_upsert, hnone]

theorem get_save {p : Part} (h : d.get pre = some (.dir files secs)) :
    ((Step.save p).exec copying secs pre name d).get pre = some (.dir (copyPart copying p d.live files) secs) := by
  obtain ⟨t, ht, hget⟩ := Option.bind_eq_some_iff.mp h
  simp [Step.exec, saveInto, Disk.get, ht, get_fill, hget, Entry.onFiles]

theorem get_saves (ps : List Part) (h : d.get pre = some (.dir files secs)) :
    ((ps.map Step.save).foldl (Step.exec .done secs pre name) d).get pre =
      some (.dir (ps.foldl (fun dst p => copyPart .done p d.live dst) files) secs) := by
  induction ps generalizing d files with
  | nil => exact h
  | cons p ps ih => exact ih (get_save h)

theorem copied (src : Files) : parts.foldl (fun dst p => copyPart .done p src dst) (fun _ => none) = src := by
  have hall : copyParts (fun _ => .done) src (fun _ => none) = src := by
    rw [copyParts_done fun _ => rfl]
    exact funext fun p => Option.or_none
  exact hall

/-- Before the database is touched its files have been copied. -/
theorem get_saved (hbackups : d.backups.isSome = true) (hfresh : d.get pre = none) :
    (saving.foldl (Step.exec .done secs pre name) d).get pre = some (.dir d.live secs) := by
  obtain ⟨t, ht⟩ := Option.isSome_iff_exists.mp hbackups
  have hmkdir : (Step.mkdir.exec .done secs pre name d).get pre = some (.dir (fun _ => none) secs) := get_mkdir ht hfresh
  exact (get_saves parts hmkdir).trans (congrArg (fun files => some (Entry.dir files secs)) (copied d.live))

theorem live_puts (ps : List Part) (h : snapshotFiles d name = some files) :
    ((ps.map Step.put).foldl (Step.exec .done secs pre name) d).live =
      ps.foldl (fun dst p => copyPart .done p files dst) d.live := by
  induction ps generalizing d with
  | nil => rfl
  | cons p ps ih =>
    have hlive : ((Step.put p).exec .done secs pre name d).live = copyPart .done p files d.live := by
      simp [Step.exec, h]
    rw [List.map_cons, List.foldl_cons, ih (d := (Step.put p).exec .done secs pre name d) h, hlive]
    rfl

theorem live_removes : ((parts.map Step.remove).foldl (Step.exec .done secs pre name) d).live = fun _ => none := by
  funext q
  cases q with
  | main => simp [parts, Step.exec]
  | wal => simp [parts, Step.exec]
  | shm => simp [parts, Step.exec]

/-- What the script puts in the place of the database. -/
theorem live_replaced (h : snapshotFiles d name = some files) :
    (replacing.foldl (Step.exec .done secs pre name) d).live = files := by
  have hbackups : ((parts.map Step.remove).foldl (Step.exec .done secs pre name) d).backups = d.backups :=
    foldl_backups fun s hs => List.mem_append_left _ hs
  have hfiles : snapshotFiles ((parts.map Step.remove).foldl (Step.exec .done secs pre name) d) name = some files := by
    unfold snapshotFiles at h ⊢
    rwa [hbackups]
  rw [replacing, List.foldl_append, live_puts parts hfiles, live_removes]
  exact copied files

theorem get_runs {l : List Step} (hl : l ⊆ replacing) (hbackups : d.backups.isSome = true) (hfresh : d.get pre = none) :
    ((saving ++ l).foldl (Step.exec .done secs pre name) d).get pre = some (.dir d.live secs) := by
  rw [List.foldl_append]
  unfold Disk.get
  rw [foldl_backups hl]
  exact get_saved hbackups hfresh

/-- Wherever the script stops, the database is as it was or has been copied. -/
theorem runSteps_saved (hbackups : d.backups.isSome = true) (hfresh : d.get pre = none) (stop : Option Stop) :
    (runSteps secs pre name stop d).live = d.live ∨
      (runSteps secs pre name stop d).get pre = some (.dir d.live secs) := by
  cases stop with
  | none => exact Or.inr (get_runs (List.Subset.refl _) hbackups hfresh)
  | some s =>
    by_cases hdone : s.done < saving.length
    · have htake : steps.take s.done ⊆ saving := by
        rw [show steps.take s.done = saving.take s.done from List.take_append_of_le_length hdone.le]
        exact List.take_subset _ _
      have hnext : ∀ step, steps[s.done]? = some step → step ∈ saving := by
        intro step hstep
        rw [show steps[s.done]? = saving[s.done]? from List.getElem?_append_left hdone] at hstep
        exact List.mem_of_getElem? hstep
      left
      unfold runSteps
      dsimp only
      split
      · exact foldl_live htake
      · rename_i p hput
        exact absurd (hnext _ hput) (by simp [saving])
      · exact foldl_live htake
    · have hle : saving.length ≤ s.done := not_lt.mp hdone
      have htake : steps.take s.done = saving ++ replacing.take (s.done - saving.length) := by
        rw [show steps = saving ++ replacing from rfl, List.take_append, List.take_of_length_le hle]
      have hnext : ∀ step, steps[s.done]? = some step → step ∈ replacing := by
        intro step hstep
        rw [show steps[s.done]? = replacing[s.done - saving.length]? from List.getElem?_append_right hle] at hstep
        exact List.mem_of_getElem? hstep
      right
      unfold runSteps
      dsimp only
      rw [htake]
      split
      · rename_i p hsave
        exact absurd (hnext _ hsave) (by simp [replacing])
      · exact get_runs (List.take_subset _ _) hbackups hfresh
      · exact get_runs (List.take_subset _ _) hbackups hfresh

end Script

section Restoring

variable {d : Disk} {name : Text} {files : Files} {now : Clock}

theorem snapshotFiles_get {d' : Disk} (h : d'.get name = d.get name) : snapshotFiles d' name = snapshotFiles d name := by
  unfold snapshotFiles
  rw [show (d'.backups.bind fun t => t.get name) = d.backups.bind fun t => t.get name from h]

theorem foldl_get_ne {secs : Nat} {n pre : Text} (hn : n ≠ pre) (l : List Step) :
    (l.foldl (Step.exec .done secs pre name) d).get n = d.get n := by
  induction l generalizing d with
  | nil => rfl
  | cons s l ih => exact ih.trans (s.exec_get_ne hn .done)

theorem backups_isSome (h : snapshotFiles d name = some files) : d.backups.isSome = true := by
  cases hbackups : d.backups with
  | none => simp [snapshotFiles, hbackups] at h
  | some t => rfl

/-- The script runs where the snapshot is whole and it is confirmed. -/
theorem restoreDb_run {stop : Option Stop} (h : snapshotFiles d name = some files) (hmain : (files .main).isSome = true)
    (hfresh : d.get (snapshotName now.stamp "pre-restore".toList) = none) :
    restoreDb d (some name) false name now stop =
      (runSteps now.secs (snapshotName now.stamp "pre-restore".toList) name stop d, stop.isNone) := by
  have hchecks : ((((snapshotFiles d name).bind fun files => files .main).isNone || false || decide (name ≠ name)) : Bool) =
      false := by
    obtain ⟨bytes, hbytes⟩ := Option.isSome_iff_exists.mp hmain
    simp [h, hbytes]
  have hfile : ((d.backups.bind fun t => t.get (snapshotName now.stamp "pre-restore".toList)).any fun e => !e.isDir) =
      false := by
    rw [show (d.backups.bind fun t => t.get (snapshotName now.stamp "pre-restore".toList)) = none from hfresh]
    rfl
  unfold restoreDb
  dsimp only
  rw [hchecks, hfile]
  rfl

theorem restoreDb_live (h : snapshotFiles d name = some files) (hmain : (files .main).isSome = true)
    (hfresh : d.get (snapshotName now.stamp "pre-restore".toList) = none) :
    (restoreDb d (some name) false name now none).1.live = files := by
  rw [restoreDb_run h hmain hfresh]
  have hne : name ≠ snapshotName now.stamp "pre-restore".toList := by
    rintro rfl
    rw [snapshotFiles_none hfresh] at h
    cases h
  have hfiles : snapshotFiles (saving.foldl
      (Step.exec .done now.secs (snapshotName now.stamp "pre-restore".toList) name) d) name = some files := by
    rw [snapshotFiles_get (foldl_get_ne hne saving), h]
  exact (congrArg Disk.live (List.foldl_append ..)).trans (live_replaced hfiles)

end Restoring

def oneSnapshot : Disk := ⟨fun _ => some [], some (Table.empty.upsert "db-a".toList (.dir emptyDatabase 0) id)⟩

section Boot

variable {d : Disk} {names : List Text} {name : Text} {ops : List Op} {now first second : Clock} {w w' : Calls}
  {embedded : List Int} {db : Sqlx} {live : Files}

theorem Kept.latest (h : Kept d (names ++ [name])) : latestSnapshotPath d = some name := by
  obtain ⟨e, he⟩ := Option.isSome_iff_exists.mp (h.present name (mem_newest (by decide)))
  obtain ⟨t, ht, hget⟩ := Option.bind_eq_some_iff.mp he
  obtain ⟨kept, heq, -⟩ : ∃ kept, backupNames t = kept ++ [name] ∧ ∀ x ∈ kept, x ∈ names := by
    refine Ascending.ends_with (backupNames_ascending t) h.ascending ?_ ?_
    · intro x hx
      obtain ⟨e, he⟩ := Option.isSome_iff_exists.mp (mem_backupNames.mp hx).2
      exact (h.known x e (by rw [Disk.get, ht]; exact he)).1
    · intro x hx
      rw [List.mem_singleton.mp hx]
      exact mem_backupNames.mpr ⟨h.snapshots name (by simp), by rw [hget]; rfl⟩
  rw [latestSnapshotPath, ht, Option.bind_some, heq]
  simp

/-- A snapshot that is taken whole is the newest one. -/
theorem Kept.taken (h : Kept d names) (hlater : ∀ n ∈ names, n < name) (hdb : "db-".toList.isPrefixOf name = true)
    (hw : w.Whole) (hmain : (d.live .main).isSome = true) (secs : Nat) :
    Kept (snapshotInto secs w name d).1 (names ++ [name]) ∧
      (snapshotInto secs w name d).1.get name = some (.dir d.live secs) ∧ (snapshotInto secs w name d).1.live = d.live := by
  have hfresh : d.get name = none := by
    cases hget : d.get name with
    | none => rfl
    | some e => exact absurd (hlater name (h.known name e hget).1) (lt_irrefl _)
  obtain ⟨t, ht, heq⟩ := snapshotInto_whole secs hw hmain hfresh
  have hadded : Kept ⟨d.live, some t⟩ (names ++ name :: []) := h.add hlater hdb rfl ht
  rw [heq]
  refine ⟨hadded.prune w, ?_, rfl⟩
  have hget : (pruneOldBackups w maxDbBackups t).get name = t.get name := hadded.get_prune (mem_newest (by decide))
  exact hget.trans ((ht name).trans (if_pos rfl))

def MigrationError.hint : MigrationError → Option (Option Text)
  | .checksumMismatch _ hint => some hint
  | .missingMigration _ hint => some hint
  | .sqlx _ => none

theorem classify_hint {e : SqlxError} {hint : Option Text} (h : (classifyMigrateError e d).hint = some hint) :
    hint = latestSnapshotPath d := by
  cases e with
  | versionMismatch detail => exact (Option.some.inj h).symm
  | dirty detail => exact (Option.some.inj h).symm
  | versionMissing detail => exact (Option.some.inj h).symm
  | other detail =>
    simp only [classifyMigrateError] at h
    split at h
    · exact (Option.some.inj h).symm
    split at h
    · exact (Option.some.inj h).symm
    · cases h

/-- The disk that the migrator finds. -/
def beforeMigrations (embedded : List Int) (db : Sqlx) (now : Clock) (w : Calls) (d : Disk) : Disk :=
  if hasPendingMigrations embedded db d.live then (snapshotDbToBackupsTagged now w "pre-migrate".toList d).1 else d

theorem runMigrationsSafely_eq : ∃ taken, runMigrationsSafely embedded db now w d =
    migrate db (beforeMigrations embedded db now w d) taken := by
  unfold runMigrationsSafely beforeMigrations
  split
  · exact ⟨_, rfl⟩
  · exact ⟨_, rfl⟩

/-- The message about a migration that fails names the newest snapshot. -/
theorem migrate_hint {taken : Bool} {e : MigrationError} {hint : Option Text} (h : (migrate db d taken).2 = .error e)
    (hhint : e.hint = some hint) : hint = latestSnapshotPath d := by
  unfold migrate at h
  cases hfailed : (db.run d.live).2 with
  | none =>
    rw [hfailed] at h
    cases h
  | some err =>
    rw [hfailed] at h
    cases h
    exact classify_hint hhint

theorem migrate_disk {taken : Bool} : (migrate db d taken).1 = { d with live := (db.run d.live).1 } := by
  unfold migrate
  cases (db.run d.live).2 with
  | none => rfl
  | some err => rfl

theorem snapshotInto_live (secs : Nat) (w : Calls) (name : Text) (d : Disk) : (snapshotInto secs w name d).1.live = d.live := by
  unfold snapshotInto
  split
  · rfl
  split
  · rfl
  · dsimp only
    split
    · rfl
    · rfl

/-- Whatever becomes of the database, a restore of the newest snapshot brings back what is in it. -/
theorem Kept.recovers {saved : Files} {secs : Nat} (h : Kept d (names ++ [name])) (hget : d.get name = some (.dir saved secs))
    (hmain : (saved .main).isSome = true) (live : Files) :
    latestSnapshotPath { d with live } = some name ∧ snapshotFiles { d with live } name = some saved ∧
      ∀ later : Clock, name < snapshotName later.stamp "pre-restore".toList →
        (restoreDb { d with live } (some name) false name later none).1.live = saved := by
  have hkept : Kept { d with live } (names ++ [name]) := h.same fun _ => rfl
  have hfiles : snapshotFiles { d with live } name = some saved := snapshotFiles_dir (d := { d with live }) hget
  refine ⟨hkept.latest, hfiles, fun later hlater => restoreDb_live hfiles hmain ?_⟩
  cases hpre : Disk.get { d with live } (snapshotName later.stamp "pre-restore".toList) with
  | none => rfl
  | some e =>
    have hmem := (hkept.known _ e hpre).1
    rcases List.mem_append.mp hmem with hmem | hmem
    · have hlt := (List.pairwise_append.mp h.ascending).2.2 _ hmem name (by simp)
      exact absurd (hlt.trans hlater) (lt_irrefl _)
    · rw [List.mem_singleton.mp hmem] at hlater
      exact absurd hlater (lt_irrefl _)

end Boot

/-- A migration that breaks off when it has emptied the database. -/
def breaking : Sqlx where
  connect live := live
  applied _ := none
  run _ := (fun _ => none, some (.dirty "migration 1 is partially applied".toList))

end AgentGrove.Backups
