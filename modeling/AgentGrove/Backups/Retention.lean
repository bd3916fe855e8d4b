import AgentGrove.Model.Backups
import AgentGrove.Proofs.Basic

namespace AgentGrove.Backups

open Assoc (Table)

/-- One snapshot is later than another one: by the clock, or in the same second by what it is taken for. -/
def Later (a b : Stamp × Text) : Prop :=
  a.1.fields < b.1.fields ∨ a.1.fields = b.1.fields ∧ a.2 < b.2

instance : DecidableRel Later := fun a b =>
  inferInstanceAs (Decidable (a.1.fields < b.1.fields ∨ a.1.fields = b.1.fields ∧ a.2 < b.2))

section Names

variable {s s' : Stamp} {tag tag' : Text}

theorem Stamp.fits (s : Stamp) : Digits.Fits stampLayout s.fields := by
  obtain ⟨year, month, day, hour, minute, second, bounds⟩ := s
  simpa [Digits.Fits, stampLayout, Stamp.fields] using bounds

theorem suffix_lt (h : tag < tag') :
    (if tag.isEmpty then [] else '-' :: tag) < (if tag'.isEmpty then [] else '-' :: tag') := by
  cases tag' with
  | nil => exact absurd h (List.not_lt_nil _)
  | cons c cs =>
    cases tag with
    | nil => simp
    | cons b bs => exact List.cons_lt_cons_iff.mpr (Or.inr ⟨rfl, h⟩)

/-- The names of snapshots are in the order in which these are taken. -/
theorem snapshotName_lt (h : Later (s, tag) (s', tag')) : snapshotName s tag < snapshotName s' tag' := by
  refine Digits.append_lt_left _ ?_
  rcases h with h | ⟨hfields, htag⟩
  · exact Digits.append_lt (Digits.length_printAll s.fits s'.fits) (Digits.printAll_lt s.fits s'.fits h)
  · dsimp only at hfields htag
    unfold Stamp.print
    rw [hfields]
    exact Digits.append_lt_left _ (suffix_lt htag)

theorem snapshotName_db (s : Stamp) (tag : Text) : "db-".toList.isPrefixOf (snapshotName s tag) = true := by
  simp [snapshotName]

end Names

section Tables

variable {w : Calls} {keep : Nat} {t : Table Text Entry} {name victim : Text} {entries : List Text} {e : Entry}

theorem mem_backupNames : name ∈ backupNames t ↔ "db-".toList.isPrefixOf name = true ∧ (t.get name).isSome = true := by
  unfold backupNames
  rw [List.mem_mergeSort, List.mem_filter, and_comm]
  refine and_congr_right fun _ => ?_
  rw [List.mem_map, Option.isSome_iff_exists]
  constructor
  · rintro ⟨⟨other, e⟩, he, rfl⟩
    exact ⟨e, Table.mem_rows.mp he⟩
  · rintro ⟨e, he⟩
    exact ⟨(name, e), Table.mem_rows.mpr he, rfl⟩

theorem backupNames_ascending (t : Table Text Entry) : (backupNames t).Pairwise (· < ·) := by
  have hle : (backupNames t).Pairwise (· ≤ ·) := by
    refine (List.pairwise_mergeSort ?_ ?_ _).imp fun h => by simpa using h
    · intro a b c hab hbc
      simp only [decide_eq_true_eq] at hab hbc ⊢
      exact hab.trans hbc
    · intro a b
      simpa using le_total a b
  have hnodup : (backupNames t).Nodup :=
    (List.mergeSort_perm _ _).nodup_iff.mpr (t.unique.sublist List.filter_sublist)
  exact (hle.and hnodup).imp fun h => lt_of_le_of_ne h.1 h.2

theorem get_removeDirAll_ne (h : name ≠ victim) : (removeDirAll w t victim).get name = t.get name := by
  unfold removeDirAll
  split
  · rw [Table.get_delete, if_neg (by simpa using h)]
  · rfl

theorem get_removeDirAll (w : Calls) (t : Table Text Entry) (victim name : Text) :
    (removeDirAll w t victim).get name = t.get name ∨ (removeDirAll w t victim).get name = none := by
  unfold removeDirAll
  split
  · rw [Table.get_delete]
    split
    · exact Or.inr rfl
    · exact Or.inl rfl
  · exact Or.inl rfl

/-- The loop of the pruning takes away nothing but its victims. -/
theorem get_pruneFrom_ne (h : name ∉ entries.take (entries.length - keep)) :
    (pruneFrom w keep entries t).get name = t.get name := by
  induction entries generalizing t with
  | nil => rfl
  | cons victim entries ih =>
    unfold pruneFrom
    split
    · rename_i hkeep
      have hlength : (victim :: entries).length - keep = entries.length - keep + 1 := by
        simp only [List.length_cons] at hkeep ⊢
        omega
      rw [hlength, List.take_succ_cons, List.mem_cons, not_or] at h
      rw [ih h.2, get_removeDirAll_ne h.1]
    · rfl

theorem get_pruneFrom (w : Calls) (keep : Nat) (entries : List Text) (t : Table Text Entry) (name : Text) :
    (pruneFrom w keep entries t).get name = t.get name ∨ (pruneFrom w keep entries t).get name = none := by
  induction entries generalizing t with
  | nil => exact Or.inl rfl
  | cons victim entries ih =>
    unfold pruneFrom
    split
    · rcases ih (removeDirAll w t victim) with h | h
      · rw [h]
        exact get_removeDirAll w t victim name
      · exact Or.inr h
    · exact Or.inl rfl

/-- Where no removal fails, each victim is taken away. -/
theorem get_pruneFrom_victim (hw : ∀ n, w.removeDir n = true) (hdirs : ∀ n e, t.get n = some e → e.isDir = true)
    (h : name ∈ entries.take (entries.length - keep)) : (pruneFrom w keep entries t).get name = none := by
  induction entries generalizing t with
  | nil => simp at h
  | cons victim entries ih =>
    unfold pruneFrom
    split
    · rename_i hkeep
      have hlength : (victim :: entries).length - keep = entries.length - keep + 1 := by
        simp only [List.length_cons] at hkeep ⊢
        omega
      have hdirs' : ∀ n e, (removeDirAll w t victim).get n = some e → e.isDir = true := by
        intro n e he
        rcases get_removeDirAll w t victim n with h | h
        · exact hdirs n e (h ▸ he)
        · rw [h] at he
          cases he
      rw [hlength, List.take_succ_cons, List.mem_cons] at h
      rcases h with rfl | h
      · have hnone : (removeDirAll w t name).get name = none := by
          unfold removeDirAll
          split
          · rw [Table.get_delete, if_pos (by simp)]
          · rename_i hno
            rw [hw, Bool.true_and] at hno
            cases he : t.get name with
            | none => rfl
            | some e => exact absurd (by simp [he, hdirs name e he]) hno
        rcases get_pruneFrom w keep entries (removeDirAll w t name) name with h | h
        · rw [h, hnone]
        · exact h
      · exact ih hdirs' h
    · rename_i hkeep
      have hzero : (victim :: entries).length - keep = 0 := by omega
      rw [hzero] at h
      simp at h

end Tables

/-- What the server, the scripts and whoever writes to the database do to the directory. -/
inductive Op where
  | write (live : Files)
  | snapshot (now : Clock) (w : Calls) (tag : Text)
  | restore (snapshot : Option Text) (alive : Bool) (confirm : Text) (now : Clock) (stop : Option Stop)

def exec (d : Disk) : Op → Disk
  | .write live => { d with live }
  | .snapshot now w tag => (snapshotDbToBackupsTagged now w tag d).1
  | .restore snapshot alive confirm now stop => (restoreDb d snapshot alive confirm now stop).1

/-- When a snapshot is taken, and what for. -/
def Op.label : Op → Option (Stamp × Text)
  | .write _ => none
  | .snapshot now _ tag => some (now.stamp, safeTag tag)
  | .restore _ _ _ now _ => some (now.stamp, "pre-restore".toList)

def Op.name (op : Op) : Option Text := op.label.map fun l => snapshotName l.1 l.2

def Disk.get (d : Disk) (name : Text) : Option Entry := d.backups.bind fun t => t.get name

/-- The last ones of those that a pruning keeps. -/
def newest (names : List Text) : List Text := names.drop (names.length - maxDbBackups)

/-- The ten newest snapshots are there, and nothing else than snapshots. -/
structure Kept (d : Disk) (names : List Text) : Prop where
  ascending : names.Pairwise (· < ·)
  known : ∀ n e, d.get n = some e → n ∈ names ∧ e.isDir = true
  snapshots : ∀ n ∈ names, "db-".toList.isPrefixOf n = true
  present : ∀ n ∈ newest names, (d.get n).isSome = true

section Steps

variable {d d' : Disk} {w : Calls} {t made : Table Text Entry} {names : List Text} {name pre snapshot n : Text}
  {secs keep : Nat} {f : Files → Files} {live : Files} {e : Entry}

theorem get_fill (n : Text) :
    (fill f name t).get n = if n = name then (t.get name).map (Entry.onFiles f) else t.get n := by
  unfold fill
  cases hget : t.get name with
  | none =>
    by_cases hn : n = name
    · simp [hn, hget]
    · simp [hn]
  | some e => simp [Table.get_upsert, hget]

theorem get_createDirAll (h : createDirAll secs name t = some made) (n : Text) :
    made.get n = if n = name then some ((t.get name).getD (.dir (fun _ => none) secs)) else t.get n := by
  unfold createDirAll at h
  split at h
  · rename_i hget
    cases h
    simp [Table.get_upsert, hget]
  · rename_i files modified hget
    cases h
    by_cases hn : n = name
    · simp [hn, hget]
    · simp [hn]
  · cases h

theorem last_not_before {before last : List Text} (h : (before ++ last).Pairwise (· < ·)) (hn : n ∈ last) : n ∉ before :=
  fun hb => absurd ((List.pairwise_append.mp h).2.2 n hb n hn) (lt_irrefl _)

theorem mem_newest_append (h : n ∈ newest (names ++ [name])) : n = name ∨ n ∈ newest names := by
  unfold newest at h ⊢
  rw [List.drop_append] at h
  rcases List.mem_append.mp h with h | h
  · refine Or.inr (List.drop_subset_drop_left _ ?_ h)
    rw [List.length_append]
    omega
  · exact Or.inl (List.mem_singleton.mp (List.mem_of_mem_drop h))

theorem get_prune (w : Calls) (keep : Nat) (t : Table Text Entry) (n : Text) :
    (pruneOldBackups w keep t).get n = t.get n ∨ (pruneOldBackups w keep t).get n = none := by
  unfold pruneOldBackups
  split
  · exact get_pruneFrom w keep _ t n
  · exact Or.inl rfl

/-- The victims of a pruning are older than the ten newest snapshots. -/
theorem Kept.get_prune (h : Kept ⟨live, some t⟩ names) (hn : n ∈ newest names) :
    (pruneOldBackups w maxDbBackups t).get n = t.get n := by
  have hsplit : names.take (names.length - maxDbBackups) ++ newest names = names := List.take_append_drop _ _
  unfold pruneOldBackups
  split
  · obtain ⟨kept, heq, hkept⟩ : ∃ kept, backupNames t = kept ++ newest names ∧
        ∀ x ∈ kept, x ∈ names.take (names.length - maxDbBackups) := by
      refine Ascending.ends_with (backupNames_ascending t) (hsplit.symm ▸ h.ascending) ?_ ?_
      · intro x hx
        obtain ⟨-, hsome⟩ := mem_backupNames.mp hx
        obtain ⟨e, he⟩ := Option.isSome_iff_exists.mp hsome
        exact hsplit.symm ▸ (h.known x e he).1
      · intro x hx
        exact mem_backupNames.mpr ⟨h.snapshots x (List.mem_of_mem_drop hx), h.present x hx⟩
    refine get_pruneFrom_ne fun hvictim => ?_
    have hlength : (backupNames t).length - maxDbBackups ≤ kept.length := by
      rw [heq, List.length_append, newest, List.length_drop]
      omega
    have hmem : n ∈ kept := by
      have htake := List.take_subset_take_left (backupNames t) hlength hvictim
      rwa [heq, List.take_left' rfl] at htake
    exact last_not_before (hsplit.symm ▸ h.ascending) hn (hkept n hmem)
  · rfl

theorem Kept.prune (h : Kept ⟨live, some t⟩ names) (w : Calls) :
    Kept ⟨live, some (pruneOldBackups w maxDbBackups t)⟩ names where
  ascending := h.ascending
  known n e he := by
    rcases Backups.get_prune w maxDbBackups t n with hget | hget
    · exact h.known n e (hget.symm.trans he)
    · exact absurd (hget.symm.trans he) (by simp)
  snapshots := h.snapshots
  present n hn := by
    have hget : (pruneOldBackups w maxDbBackups t).get n = t.get n := h.get_prune hn
    exact congrArg Option.isSome hget ▸ h.present n hn

/-- A snapshot that is later than all others is added. -/
theorem Kept.add (h : Kept d names) (hlater : ∀ n ∈ names, n < name) (hdb : "db-".toList.isPrefixOf name = true)
    (he : e.isDir = true) (hget : ∀ n, d'.get n = if n = name then some e else d.get n) : Kept d' (names ++ [name]) where
  ascending := by
    rw [List.pairwise_append]
    exact ⟨h.ascending, List.pairwise_singleton _ _, fun a ha b hb => List.mem_singleton.mp hb ▸ hlater a ha⟩
  known n e' he' := by
    rw [hget] at he'
    split at he'
    · rename_i hn
      cases he'
      exact ⟨by simp [hn], he⟩
    · obtain ⟨hmem, hdir⟩ := h.known n e' he'
      exact ⟨List.mem_append_left _ hmem, hdir⟩
  snapshots n hn := by
    rcases List.mem_append.mp hn with hn | hn
    · exact h.snapshots n hn
    · exact List.mem_singleton.mp hn ▸ hdb
  present n hn := by
    rw [hget]
    split
    · rfl
    · rename_i hne
      exact h.present n ((mem_newest_append hn).resolve_left hne)

theorem Kept.same (h : Kept d names) (hget : ∀ n, d'.get n = d.get n) : Kept d' names where
  ascending := h.ascending
  known n e he := h.known n e (hget n ▸ he)
  snapshots := h.snapshots
  present n hn := by
    rw [hget]
    exact h.present n hn

/-- What a snapshot comes to: nothing, or a new directory, before the oldest ones are pruned. -/
theorem snapshotInto_cases (secs : Nat) (w : Calls) (hfresh : d.get name = none) :
    (∀ n, (snapshotInto secs w name d).1.get n = d.get n) ∧ (snapshotInto secs w name d).2 = none ∧
        ((d.live .main).isSome = true → ¬ (w.createBackups = true ∧ w.createDest = true)) ∨
      ∃ t, (∀ n, t.get n = if n = name then some (.dir (copyParts w.copy d.live fun _ => none) secs) else d.get n) ∧
        snapshotInto secs w name d = (⟨d.live, some (pruneOldBackups w maxDbBackups t)⟩, some name) := by
  unfold snapshotInto
  split
  · rename_i hmain
    exact Or.inl ⟨fun _ => rfl, rfl, fun hsome => by simp [Option.isNone_iff_eq_none.mp hmain] at hsome⟩
  split
  · rename_i hbackups
    exact Or.inl ⟨fun _ => rfl, rfl, fun _ hcalls => by simp [hcalls.1] at hbackups⟩
  · have hempty : ∀ n, (d.backups.getD Table.empty).get n = d.get n := by
      intro n
      unfold Disk.get
      cases d.backups with
      | none => rfl
      | some t => rfl
    dsimp only
    split
    · rename_i hnone
      refine Or.inl ⟨hempty, rfl, fun _ hcalls => ?_⟩
      rw [if_pos hcalls.2, createDirAll, (hempty name).trans hfresh] at hnone
      cases hnone
    · rename_i made hmade
      refine Or.inr ⟨fill (copyParts w.copy d.live) name made, fun n => ?_, rfl⟩
      split at hmade
      · have hmadeget := get_createDirAll hmade
        rw [get_fill, hmadeget, hmadeget, hempty, hempty, hfresh]
        by_cases hn : n = name
        · simp [hn, Entry.onFiles]
        · simp [hn]
      · cases hmade

theorem Disk.get_map {g : Table Text Entry → Table Text Entry} (hg : ∀ t, (g t).get n = t.get n) :
    Disk.get { d with backups := d.backups.map g } n = d.get n := by
  unfold Disk.get
  dsimp only
  cases d.backups with
  | none => rfl
  | some t => exact hg t

theorem get_makeDir (hn : n ≠ pre) : ((createDirAll secs pre t).getD t).get n = t.get n := by
  cases hmade : createDirAll secs pre t with
  | none => rfl
  | some made => rw [Option.getD_some, get_createDirAll hmade, if_neg hn]

theorem Step.exec_get_ne (hn : n ≠ pre) (copying : Copying) (s : Step) :
    (s.exec copying secs pre name d).get n = d.get n := by
  cases s with
  | mkdir => exact Disk.get_map fun t => get_makeDir hn
  | save p => exact Disk.get_map fun t => by rw [get_fill, if_neg hn]
  | remove p => rfl
  | put p => rfl

/-- What the script leaves under the name of its own snapshot is a directory. -/
theorem Step.exec_isDir (h : ∀ e, d.get pre = some e → e.isDir = true) (copying : Copying) (s : Step) :
    ∀ e, (s.exec copying secs pre name d).get pre = some e → e.isDir = true := by
  intro e he
  obtain ⟨live, backups⟩ := d
  cases s with
  | mkdir =>
    cases backups with
    | none => cases he
    | some t =>
      have heq : ((createDirAll secs pre t).getD t).get pre = some e := he
      cases hmade : createDirAll secs pre t with
      | none =>
        rw [hmade] at heq
        exact h e heq
      | some made =>
        rw [hmade, Option.getD_some, get_createDirAll hmade, if_pos rfl] at heq
        cases hget : t.get pre with
        | none =>
          rw [hget] at heq
          cases heq
          rfl
        | some e' =>
          rw [hget] at heq
          cases heq
          exact h _ hget
  | save p =>
    cases backups with
    | none => cases he
    | some t =>
      have heq : (fill (copyPart copying p live) pre t).get pre = some e := he
      rw [get_fill, if_pos rfl] at heq
      obtain ⟨e', he', rfl⟩ := Option.map_eq_some_iff.mp heq
      have hdir := h e' he'
      cases e' with
      | dir files modified => rfl
      | file => cases hdir
  | remove p => exact h e he
  | put p => exact h e he

/-- What every command of the script keeps, the script keeps wherever it stops. -/
theorem runSteps_keeps {P : Disk → Prop} (hP : ∀ copying s d, P d → P (Step.exec copying secs pre snapshot d s))
    (stop : Option Stop) (h : P d) : P (runSteps secs pre snapshot stop d) := by
  have hall : ∀ (l : List Step) (d : Disk), P d → P (l.foldl (Step.exec .done secs pre snapshot) d) := by
    intro l
    induction l with
    | nil => exact fun _ h => h
    | cons s l ih => exact fun d h => ih _ (hP .done s d h)
  unfold runSteps
  cases stop with
  | none => exact hall steps d h
  | some s =>
    have hdone := hall (steps.take s.done) d h
    dsimp only
    split
    · exact hP _ _ _ hdone
    · exact hP _ _ _ hdone
    · exact hdone

theorem restoreDb_get (arg : Option Text) (alive : Bool) (confirm : Text) {now : Clock} (stop : Option Stop)
    (hpre : pre = snapshotName now.stamp "pre-restore".toList) (hfresh : d.get pre = none) :
    (∀ n, (restoreDb d arg alive confirm now stop).1.get n = d.get n) ∨
      ∃ e, e.isDir = true ∧
        ∀ n, (restoreDb d arg alive confirm now stop).1.get n = if n = pre then some e else d.get n := by
  subst hpre
  unfold restoreDb
  split
  · exact Or.inl fun _ => rfl
  · rename_i name
    dsimp only
    split
    · exact Or.inl fun _ => rfl
    split
    · exact Or.inl fun _ => rfl
    · generalize hpre : snapshotName now.stamp "pre-restore".toList = pre at hfresh ⊢
      have hothers : ∀ n, n ≠ pre → (runSteps now.secs pre name stop d).get n = d.get n := fun n hn =>
        runSteps_keeps (P := fun d' => d'.get n = d.get n) (fun copying s d' h => (s.exec_get_ne hn copying).trans h) stop rfl
      have hdir : ∀ e, (runSteps now.secs pre name stop d).get pre = some e → e.isDir = true :=
        runSteps_keeps (P := fun d' => ∀ e, d'.get pre = some e → e.isDir = true)
          (fun copying s d' h => s.exec_isDir h copying) stop fun e he => by rw [hfresh] at he; cases he
      cases he : (runSteps now.secs pre name stop d).get pre with
      | none =>
        refine Or.inl fun n => ?_
        by_cases hn : n = pre
        · rw [hn, he, hfresh]
        · exact hothers n hn
      | some e =>
        refine Or.inr ⟨e, hdir e he, fun n => ?_⟩
        by_cases hn : n = pre
        · rw [if_pos hn, hn, he]
        · rw [if_neg hn, hothers n hn]

end Steps

section Runs

variable {d : Disk} {names : List Text} {op : Op} {ops : List Op} {name n : Text}

/-- One operation adds at most its own snapshot, and takes away none of the ten newest ones. -/
theorem exec_kept (h : Kept d names) (hlater : ∀ name, op.name = some name → ∀ n ∈ names, n < name) :
    ∃ more, more ⊆ op.name.toList ∧ more.length ≤ op.name.toList.length ∧ Kept (exec d op) (names ++ more) ∧
      (∀ n ∈ newest (names ++ more), op.name ≠ some n → (exec d op).get n = d.get n) ∧
      ∀ n, op.name ≠ some n → (exec d op).get n = d.get n ∨ (exec d op).get n = none := by
  have hsame : (∀ n, (exec d op).get n = d.get n) → ∃ more, more ⊆ op.name.toList ∧
      more.length ≤ op.name.toList.length ∧ Kept (exec d op) (names ++ more) ∧
      (∀ n ∈ newest (names ++ more), op.name ≠ some n → (exec d op).get n = d.get n) ∧
      ∀ n, op.name ≠ some n → (exec d op).get n = d.get n ∨ (exec d op).get n = none := by
    intro hget
    refine ⟨[], List.nil_subset _, Nat.zero_le _, ?_, fun n _ _ => hget n, fun n _ => Or.inl (hget n)⟩
    rw [List.append_nil]
    exact h.same hget
  have hfresh : ∀ name, op.name = some name → d.get name = none := by
    intro name hname
    cases hget : d.get name with
    | none => rfl
    | some e => exact absurd (hlater name hname name (h.known name e hget).1) (lt_irrefl _)
  cases op with
  | write live => exact hsame fun _ => rfl
  | snapshot now w tag =>
    have hnew := hfresh _ rfl
    have hadd := hlater _ rfl
    rcases snapshotInto_cases now.secs w hnew with ⟨hget, -⟩ | ⟨t, ht, heq⟩
    · exact hsame hget
    · have hexec : exec d (.snapshot now w tag) = ⟨d.live, some (pruneOldBackups w maxDbBackups t)⟩ := congrArg Prod.fst heq
      have hkept : Kept ⟨d.live, some t⟩ (names ++ [snapshotName now.stamp (safeTag tag)]) :=
        h.add hadd (snapshotName_db _ _) rfl ht
      refine ⟨[_], fun n hn => by simpa [Op.name, Op.label] using hn, le_refl _, hexec ▸ hkept.prune w, ?_, ?_⟩
      · intro n hn hne
        rw [hexec]
        have hget : (pruneOldBackups w maxDbBackups t).get n = t.get n := hkept.get_prune hn
        refine hget.trans ?_
        rw [ht, if_neg fun he => hne (congrArg some he.symm)]
      · intro n hne
        rw [hexec]
        rcases get_prune w maxDbBackups t n with hget | hget
        · refine Or.inl (hget.trans ?_)
          rw [ht, if_neg fun he => hne (congrArg some he.symm)]
        · exact Or.inr hget
  | restore snapshot alive confirm now stop =>
    rcases restoreDb_get snapshot alive confirm stop rfl (hfresh _ rfl) with
      hget | ⟨e, he, hget⟩
    · exact hsame hget
    · refine ⟨[_], fun n hn => by simpa [Op.name, Op.label] using hn, le_refl _,
        h.add (hlater _ rfl) (snapshotName_db _ _) he hget, ?_, ?_⟩
      · intro n _ hne
        exact (hget n).trans (if_neg fun heq => hne (congrArg some heq.symm))
      · intro n hne
        exact Or.inl ((hget n).trans (if_neg fun heq => hne (congrArg some heq.symm)))

theorem Kept.fresh (h : d.backups = none) : Kept d [] where
  ascending := List.Pairwise.nil
  known n e he := by
    rw [Disk.get, h] at he
    cases he
  snapshots n hn := by cases hn
  present n hn := by cases hn

theorem mem_newest {before later : List Text} (h : later.length < maxDbBackups) :
    n ∈ newest (before ++ n :: later) := by
  have hdrop : (before ++ n :: later).length - maxDbBackups ≤ before.length := by
    rw [List.length_append, List.length_cons]
    omega
  unfold newest
  rw [List.drop_append_of_le_length hdrop]
  exact List.mem_append_right _ List.mem_cons_self

theorem exec_ascending {rest more : List Text} (h : (names ++ (op.name.toList ++ rest)).Pairwise (· < ·))
    (hmore : more ⊆ op.name.toList) (hlength : more.length ≤ op.name.toList.length) :
    (names ++ more ++ rest).Pairwise (· < ·) := by
  have hsub : more.Sublist op.name.toList := by
    cases hname : op.name with
    | none =>
      rw [hname] at hmore
      rw [List.subset_nil.mp hmore]
      exact List.nil_sublist _
    | some name =>
      rw [hname] at hmore hlength
      cases more with
      | nil => exact List.nil_sublist _
      | cons m more =>
        obtain rfl : m = name := by simpa using hmore List.mem_cons_self
        obtain rfl : more = [] := by simpa using hlength
        exact List.Sublist.refl _
  rw [List.append_assoc]
  exact h.sublist (hsub.append_right rest |>.append_left names)

theorem filterMap_name (ops : List Op) : (op :: ops).filterMap Op.name = op.name.toList ++ ops.filterMap Op.name := by
  cases hname : op.name with
  | none => simp [hname]
  | some name => simp [hname]

/-- A run keeps the ten newest snapshots, by induction on its operations. -/
theorem run_kept {rest : List Text} (h : Kept d names)
    (hops : (names ++ (ops.filterMap Op.name ++ rest)).Pairwise (· < ·)) :
    ∃ names, Kept (ops.foldl exec d) names ∧ (names ++ rest).Pairwise (· < ·) := by
  induction ops generalizing d names with
  | nil => exact ⟨names, h, hops⟩
  | cons op ops ih =>
    rw [filterMap_name, List.append_assoc] at hops
    have hlater : ∀ name, op.name = some name → ∀ m ∈ names, m < name := by
      intro name hname m hm
      refine (List.pairwise_append.mp hops).2.2 m hm name ?_
      simp [hname]
    obtain ⟨more, hmore, hlength, hkept, -⟩ := exec_kept h hlater
    exact ih hkept (exec_ascending hops hmore hlength)

/-- And it leaves each of them as it is. -/
theorem run_get {before later : List Text} (h : Kept d (before ++ n :: later))
    (hops : (before ++ n :: later ++ ops.filterMap Op.name).Pairwise (· < ·)) :
    ((ops.foldl exec d).get n = d.get n ∨ (ops.foldl exec d).get n = none) ∧
      (later.length + (ops.filterMap Op.name).length < maxDbBackups → (ops.foldl exec d).get n = d.get n) := by
  induction ops generalizing d later with
  | nil => exact ⟨Or.inl rfl, fun _ => rfl⟩
  | cons op ops ih =>
    rw [filterMap_name] at hops ⊢
    have hlater : ∀ name, op.name = some name → ∀ m ∈ before ++ n :: later, m < name := by
      intro name hname m hm
      refine (List.pairwise_append.mp hops).2.2 m hm name ?_
      simp [hname]
    have hne : op.name ≠ some n := fun hname => absurd (hlater n hname n (by simp)) (lt_irrefl _)
    obtain ⟨more, hmore, hlength, hkept, hnewest, hget⟩ := exec_kept h hlater
    have hnext := exec_ascending hops hmore hlength
    have hassoc : before ++ n :: later ++ more = before ++ n :: (later ++ more) := by simp
    rw [hassoc] at hkept hnewest hnext
    obtain ⟨hsome, hlast⟩ := ih hkept hnext
    refine ⟨?_, fun hten => ?_⟩
    · rcases hget n hne with hn | hn
      · exact hn ▸ hsome
      · rw [hn] at hsome
        exact Or.inr (hsome.elim id id)
    · rw [List.length_append] at hten
      have hfew : (later ++ more).length + (ops.filterMap Op.name).length < maxDbBackups := by
        rw [List.length_append]
        omega
      exact (hlast hfew).trans (hnewest n (mem_newest (by omega)) hne)

end Runs

section Snapshots

variable {d : Disk} {before after : List Op} {now : Clock} {w : Calls} {tag : Text} {names : List Text} {t : Table Text Entry}
  {live : Files}

/-- Nothing fails while the files are copied. -/
structure Calls.Whole (w : Calls) : Prop where
  backups : w.createBackups = true
  dest : w.createDest = true
  copies : ∀ p, w.copy p = .done

theorem copyPart_done (p q : Part) (src dst : Files) :
    copyPart .done p src dst q = if q = p then (src p).or (dst p) else dst q := by
  unfold copyPart
  cases hsrc : src p with
  | none =>
    by_cases hq : q = p
    · simp [hq]
    · simp [hq]
  | some bytes => simp [Function.update_apply]

/-- Copies that do not fail are the files that are there, over what was there before. -/
theorem copyParts_done {copy : Part → Copying} (h : ∀ p, copy p = .done) (src dst : Files) :
    copyParts copy src dst = fun p => (src p).or (dst p) := by
  funext q
  cases q with
  | main => simp [copyParts, parts, h, copyPart_done]
  | wal => simp [copyParts, parts, h, copyPart_done]
  | shm => simp [copyParts, parts, h, copyPart_done]

theorem after_append {c : Char} {s u : Text} (h : c ∉ s) : Backups.after c (s ++ c :: u) = some u := by
  have hdrop : (s ++ c :: u).dropWhile (· ≠ c) = c :: u := by
    induction s with
    | nil => simp
    | cons x s ih =>
      rw [List.mem_cons, not_or] at h
      rw [List.cons_append, List.dropWhile_cons_of_pos (by simpa using fun hx => h.1 hx.symm), ih h.2]
  rw [Backups.after, if_pos (by simp), hdrop]
  rfl

theorem dash_not_mem {w n : Nat} : '-' ∉ Digits.pad w n := fun h => absurd (Digits.isDigit_pad h) (by decide)

/-- The tag that a snapshot is listed with is the one that it was taken with. -/
theorem parseTag_snapshotName (s : Stamp) (tag : Text) :
    parseTag (snapshotName s tag) = if tag.isEmpty then none else some tag := by
  obtain ⟨date, time, hprint, hdate, htime⟩ : ∃ date time, s.print = date ++ '-' :: time ∧ '-' ∉ date ∧ '-' ∉ time :=
    ⟨Digits.pad 4 s.year ++ (Digits.pad 2 s.month ++ Digits.pad 2 s.day),
      Digits.pad 2 s.hour ++ (Digits.pad 2 s.minute ++ Digits.pad 2 s.second),
      by simp [Stamp.print, Digits.printAll, stampLayout, Stamp.fields], by simp [dash_not_mem], by simp [dash_not_mem]⟩
  have hname : (snapshotName s tag).drop 3 = date ++ '-' :: (time ++ if tag.isEmpty then [] else '-' :: tag) := by
    rw [snapshotName, List.drop_left' (by decide), hprint, List.append_assoc, List.cons_append]
  rw [parseTag, if_pos (snapshotName_db s tag), hname, after_append hdate, Option.bind_some]
  split
  · rw [List.append_nil, Backups.after, if_neg htime]
  · exact after_append htime

/-- A snapshot that is taken whole. -/
theorem snapshotInto_whole {name : Text} (secs : Nat) (hw : w.Whole) (hmain : (d.live .main).isSome = true)
    (hfresh : d.get name = none) :
    ∃ t, (∀ n, t.get n = if n = name then some (.dir d.live secs) else d.get n) ∧
      snapshotInto secs w name d = (⟨d.live, some (pruneOldBackups w maxDbBackups t)⟩, some name) := by
  rcases snapshotInto_cases secs w hfresh with ⟨-, -, hno⟩ | h
  · exact absurd ⟨hw.backups, hw.dest⟩ (hno hmain)
  · have hfiles : copyParts w.copy d.live (fun _ => none) = d.live := by
      rw [copyParts_done hw.copies]
      exact funext fun p => Option.or_none
    rwa [hfiles] at h

/-- After a pruning that does not fail there are at most ten snapshots. -/
theorem Kept.length_prune (h : Kept ⟨live, some t⟩ names) (hw : w.readDir = true) (hremove : ∀ n, w.removeDir n = true) :
    (backupNames (pruneOldBackups w maxDbBackups t)).length ≤ maxDbBackups := by
  have hsub : backupNames (pruneOldBackups w maxDbBackups t) ⊆
      (backupNames t).drop ((backupNames t).length - maxDbBackups) := by
    intro n hn
    obtain ⟨hdb, hsome⟩ := mem_backupNames.mp hn
    unfold pruneOldBackups at hsome
    rw [if_pos hw] at hsome
    have hmem : n ∈ backupNames t := by
      refine mem_backupNames.mpr ⟨hdb, ?_⟩
      rcases get_pruneFrom w maxDbBackups (backupNames t) t n with hget | hget
      · exact hget ▸ hsome
      · rw [hget] at hsome
        cases hsome
    rw [← List.take_append_drop ((backupNames t).length - maxDbBackups) (backupNames t)] at hmem
    refine (List.mem_append.mp hmem).resolve_left fun hvictim => ?_
    rw [get_pruneFrom_victim hremove (fun n e he => (h.known n e he).2) hvictim] at hsome
    cases hsome
  have hnodup : (backupNames (pruneOldBackups w maxDbBackups t)).Nodup :=
    (backupNames_ascending _).imp fun hlt => ne_of_lt hlt
  refine (List.subperm_of_subset hnodup hsub).length_le.trans ?_
  rw [List.length_drop]
  omega

theorem names_ascending {ops : List Op} (h : (ops.filterMap Op.label).Pairwise Later) :
    (ops.filterMap Op.name).Pairwise (· < ·) := by
  have hmap : ops.filterMap Op.name = (ops.filterMap Op.label).map fun l => snapshotName l.1 l.2 := by
    rw [List.map_filterMap]
    rfl
  rw [hmap]
  exact h.map _ fun _ _ hab => snapshotName_lt hab

theorem length_names (ops : List Op) : (ops.filterMap Op.name).length = (ops.filterMap Op.label).length := by
  have hmap : ops.filterMap Op.name = (ops.filterMap Op.label).map fun l => snapshotName l.1 l.2 := by
    rw [List.map_filterMap]
    rfl
  rw [hmap, List.length_map]

theorem snapshotFiles_dir {name : Text} {files : Files} {secs : Nat} (h : d.get name = some (.dir files secs)) :
    snapshotFiles d name = some files := by
  unfold snapshotFiles
  rw [show (d.backups.bind fun t => t.get name) = some (.dir files secs) from h]

theorem snapshotFiles_none {name : Text} (h : d.get name = none) : snapshotFiles d name = none := by
  unfold snapshotFiles
  rw [show (d.backups.bind fun t => t.get name) = none from h]

theorem mem_list {name : Text} {files : Files} {secs : Nat} (h : d.get name = some (.dir files secs))
    (hdb : "db-".toList.isPrefixOf name = true) : ⟨name, dirSize files, secs, parseTag name⟩ ∈ list d := by
  obtain ⟨t, ht, hget⟩ := Option.bind_eq_some_iff.mp h
  unfold list
  rw [List.mem_mergeSort, ht]
  refine List.mem_filterMap.mpr ⟨(name, .dir files secs), Table.mem_rows.mpr hget, ?_⟩
  simp only [summary, if_pos hdb]

end Snapshots

def noon (second : Nat) (h : second < 100) : Clock :=
  ⟨⟨2026, 5, 22, 12, 0, second, by omega⟩, 1779451200 + second⟩

def emptyDatabase : Files := fun p => if p = .main then some [] else none

end AgentGrove.Backups
