import AgentGrove.Model.Scratchpad
import AgentGrove.Wire.Search
import AgentGrove.Wire.Value

namespace AgentGrove.Notes

open Posix
open Search (sep_of_mem_splitOn splitOn_append)
open Utf8 (Bytes)

/-- An id that leads to no other directory than its components name. -/
def Plain (projectId : Text) : Prop := ∀ c ∈ (projectId.splitOn '/').dropLast, Proper c

instance (projectId : Text) : Decidable (Plain projectId) := List.decidableBAll _ _

def padFile (dir : StateDir) (projectId : Text) : AbsPath := locate (padPath dir projectId)

/-- Below the directory of the scratchpads. -/
def Inside (dir : StateDir) (p : AbsPath) : Prop := scratchpads dir <+: p ∧ scratchpads dir ≠ p

section Paths

variable {dir : StateDir} {id id' : Text}

theorem extension_proper {n : Text} (h : '/' ∉ n) : Proper (n ++ ".json".toList) where
  nonempty := by simp
  here := by
    intro he
    have hlength := congrArg List.length he
    simp at hlength
  up := by
    intro he
    have hlength := congrArg List.length he
    simp at hlength
  single := by
    intro hm
    rcases List.mem_append.mp hm with hm | hm
    · exact h hm
    · revert hm
      decide

theorem scratchpads_proper (dir : StateDir) : ∀ c ∈ scratchpads dir, Proper c := by
  intro c hc
  rcases List.mem_append.mp hc with hc | hc
  · exact dir.proper c hc
  · rw [List.mem_singleton.mp hc]
    decide

/-- The components of an id, and of the path of its file. -/
theorem padPath_split (dir : StateDir) (id : Text) : ∃ ds n, id.splitOn '/' = ds ++ [n] ∧
    padPath dir id =
      (if id.head? = some '/' then [] else scratchpads dir) ++ ds ++ [n ++ ".json".toList] := by
  obtain ⟨ds, n, hsplit, happend⟩ := splitOn_append (by decide : '/' ∉ ".json".toList) id
  refine ⟨ds, n, hsplit, ?_⟩
  have hhead : (id ++ ".json".toList).head? = some '/' ↔ id.head? = some '/' := by
    cases id with
    | nil => decide
    | cons c id => exact Iff.rfl
  unfold padPath
  dsimp only
  rw [happend]
  by_cases h : id.head? = some '/'
  · rw [if_pos (hhead.mpr h), if_pos h, List.nil_append]
  · rw [if_neg fun hn => h (hhead.mp hn), if_neg h, List.append_assoc]

theorem Plain.relative (h : Plain id) : id.head? ≠ some '/' := by
  intro hhead
  obtain ⟨t, rfl⟩ : ∃ t, id = '/' :: t := by
    cases id with
    | nil => cases hhead
    | cons c t => exact ⟨t, congrArg (· :: t) (Option.some.inj hhead)⟩
  have hne := List.splitOn_ne_nil '/' t
  rw [Plain, List.splitOn_cons_eq_if_modifyHead, if_pos (beq_self_eq_true _), List.dropLast_cons_of_ne_nil hne] at h
  exact (h [] List.mem_cons_self).nonempty rfl

/-- The file of a plain id, and its path from the root. -/
theorem Plain.path (h : Plain id) (dir : StateDir) : ∃ ds n, id.splitOn '/' = ds ++ [n] ∧
    padPath dir id = scratchpads dir ++ ds ++ [n ++ ".json".toList] ∧ ∀ c ∈ padPath dir id, Proper c := by
  obtain ⟨ds, n, hsplit, hpath⟩ := padPath_split dir id
  rw [if_neg h.relative] at hpath
  refine ⟨ds, n, hsplit, hpath, ?_⟩
  rw [Plain, hsplit, List.dropLast_concat] at h
  have hn : '/' ∉ n := sep_of_mem_splitOn id n (by rw [hsplit]; simp)
  rw [hpath]
  intro c hc
  rcases List.mem_append.mp hc with hc | hc
  · rcases List.mem_append.mp hc with hc | hc
    · exact scratchpads_proper dir c hc
    · exact h c hc
  · rw [List.mem_singleton.mp hc]
    exact extension_proper hn

theorem Plain.file (h : Plain id) : padFile dir id = padPath dir id := by
  obtain ⟨-, -, -, -, hproper⟩ := h.path dir
  exact locate_proper hproper

theorem Plain.inside (h : Plain id) : Inside dir (padFile dir id) := by
  obtain ⟨ds, n, -, hpath, -⟩ := h.path dir
  rw [h.file, hpath, List.append_assoc]
  refine ⟨List.prefix_append _ _, fun he => ?_⟩
  have hlength := congrArg List.length he
  simp at hlength

theorem Plain.inj (h : Plain id) (h' : Plain id') (he : padFile dir id = padFile dir id') : id = id' := by
  obtain ⟨ds, n, hsplit, hpath, -⟩ := h.path dir
  obtain ⟨ds', n', hsplit', hpath', -⟩ := h'.path dir
  rw [h.file, h'.file, hpath, hpath'] at he
  obtain ⟨hds, hn⟩ := List.append_inj' he rfl
  have hds := List.append_cancel_left hds
  have hn := List.append_cancel_right (List.singleton_inj.mp hn)
  calc id = ['/'].intercalate (id.splitOn '/') := (List.intercalate_splitOn '/').symm
    _ = ['/'].intercalate (id'.splitOn '/') := by rw [hsplit, hsplit', hds, hn]
    _ = id' := List.intercalate_splitOn '/'

/-- Any other id leads outside, or to the file of a plain one. -/
theorem shared_of_not_plain (h : ¬ Plain id) (hin : Inside dir (padFile dir id)) :
    ∃ id', Plain id' ∧ id' ≠ id ∧ padFile dir id' = padFile dir id := by
  obtain ⟨ds, n, hsplit, hpath⟩ := padPath_split dir id
  have hslash : ∀ c ∈ ds ++ [n], '/' ∉ c := by rw [← hsplit]; exact sep_of_mem_splitOn id
  have hn : '/' ∉ n := hslash n (by simp)
  obtain ⟨q, hq, hproper⟩ : ∃ q, padFile dir id = q ++ [n ++ ".json".toList] ∧ ∀ c ∈ q, Proper c := by
    unfold padFile locate
    rw [hpath, List.foldl_append]
    refine ⟨_, follow_proper (extension_proper hn), mem_foldl_follow ?_ (by simp)⟩
    intro c hc
    rcases List.mem_append.mp hc with hc | hc
    · split at hc
      · cases hc
      · exact (scratchpads_proper dir c hc).single
    · exact hslash c (List.mem_append_left _ hc)
  obtain ⟨⟨rest, hrest⟩, hne⟩ := hin
  rw [hq] at hrest hne
  obtain ⟨es, rfl⟩ : ∃ es, q = scratchpads dir ++ es := by
    rcases List.eq_nil_or_concat' rest with rfl | ⟨es, e, rfl⟩
    · rw [List.append_nil] at hrest
      exact absurd hrest hne
    · rw [← List.append_assoc] at hrest
      exact ⟨es, (List.append_inj' hrest rfl).1.symm⟩
  have hes : ∀ c ∈ es, Proper c := fun c hc => hproper c (List.mem_append_right _ hc)
  have hsplit' : (['/'].intercalate (es ++ [n])).splitOn '/' = es ++ [n] := by
    refine List.splitOn_intercalate '/' (fun c hc => ?_) (by simp)
    rcases List.mem_append.mp hc with hc | hc
    · exact (hes c hc).single
    · rw [List.mem_singleton.mp hc]
      exact hn
  have hplain : Plain (['/'].intercalate (es ++ [n])) := by
    rw [Plain, hsplit', List.dropLast_concat]
    exact hes
  refine ⟨_, hplain, fun he => h (he ▸ hplain), ?_⟩
  obtain ⟨ds', n', hds, hfile, -⟩ := hplain.path dir
  rw [hsplit'] at hds
  obtain ⟨rfl, hn'⟩ := List.append_inj' hds rfl
  rw [hplain.file, hfile, hq, List.singleton_inj.mp hn']

end Paths

/-- `serde_json` reads what it has printed. -/
def PadCodec.Reads (codec : PadCodec) : Prop := ∀ pad, codec.fromSlice (codec.toVecPretty pad) = .ok pad

/-- It reads no scratchpad that is cut short. -/
def PadCodec.Rejects (codec : PadCodec) : Prop :=
  ∀ pad n, ∃ e, codec.fromSlice ((codec.toVecPretty pad).dropLast.take n) = .error e

inductive Request where
  | get (projectId : Text) (now : Nat) (fault : Option Text)
  | put (projectId body : Text) (now : Nat) (w : Writing)

/-- A request about a plain id, whose write does not fail once it has emptied the file. -/
def Careful : Request → Prop
  | .get projectId _ _ => Plain projectId
  | .put projectId _ _ w => Plain projectId ∧ ∀ e written, w ≠ .torn e written

abbrev Memory := Text → Option Scratchpad

section Requests

variable (codec : PadCodec) (dir : StateDir)

/-- What the file of a scratchpad has in it. -/
def stored (s : Store) (projectId : Text) : Option Scratchpad :=
  match s.disk.read (padPath dir projectId) with
  | .ok bytes => (codec.fromSlice bytes).toOption
  | .error _ => none

/-- A request is served, and what has been put is remembered. -/
def serve (σ : Store × Memory) : Request → Store × Memory
  | .get _ _ _ => σ
  | .put projectId body now w =>
    match put codec dir σ.1 projectId body now w with
    | (s, .ok pad) => (s, Function.update σ.2 projectId (some pad))
    | (s, .error _) => (s, σ.2)

def play (s : Store) (rs : List Request) : Store × Memory := rs.foldl (serve codec dir) (s, stored codec dir s)

/-- A scratchpad is read as it was last put, or as it was in the beginning. -/
def LastWrite (σ : Store × Memory) : Prop :=
  ∀ id pad now, Plain id → σ.2 id = some pad → get codec dir σ.1 id now none = .ok pad

/-- A put that fails, unless it has emptied the file, leaves what is read as it was. -/
def Unharmed (s : Store) : Prop :=
  ∀ id body now w, Careful (.put id body now w) → ∀ e, (put codec dir s id body now w).2 = .error e →
    ∀ later pad, get codec dir s id later none = .ok pad →
      get codec dir (put codec dir s id body now w).1 id later none = .ok pad

end Requests

section Writes

variable {codec : PadCodec} {dir : StateDir} {t t' : FileTree Bytes} {id id' : Text} {bytes : Bytes} {pad : Scratchpad}
  {w : Writing}

/-- What a write comes to: only directories, or the file as well. -/
inductive Course (codec : PadCodec) (dir : StateDir) (pad : Scratchpad) (t : FileTree Bytes) :
    Writing → FileTree Bytes × Except Error Unit → Prop where
  | failed (w : Writing) (t' : FileTree Bytes) (e : Error) (h : t.Extended t' (padPath dir pad.projectId).dropLast) :
    Course codec dir pad t w (t', .error e)
  | torn (made t' : FileTree Bytes) (e : Text) (n : Nat) (h : t.Extended made (padPath dir pad.projectId).dropLast)
    (hw : made.write (padPath dir pad.projectId) ((codec.toVecPretty pad).dropLast.take n) = .ok t') :
    Course codec dir pad t (.torn e n) (t', .error (.other e))
  | done (made t' : FileTree Bytes) (h : t.Extended made (padPath dir pad.projectId).dropLast)
    (hw : made.write (padPath dir pad.projectId) (codec.toVecPretty pad) = .ok t') :
    Course codec dir pad t .done (t', .ok ())

theorem createDirAll_extended {cs : List Name} (h : ∀ c ∈ cs, Proper c) (n : Nat) :
    t.Extended (t.createDirAll (cs.take n)).1 cs := by
  have hrefl : t.Extended t cs := ⟨rfl, fun _ hr => hr, fun _ hr => .inl hr⟩
  unfold FileTree.createDirAll
  split
  · exact hrefl
  · have htake : ∀ c ∈ cs.take n, Proper c := fun c hc => h c (List.mem_of_mem_take hc)
    have hmade := FileTree.mkdirs_extended htake (rfl : t.isDir [] = true)
    refine ⟨hmade.files, hmade.kept, fun r hr => ?_⟩
    rcases hmade.made r hr with hd | ⟨hin, hnone⟩
    · exact .inl hd
    · exact .inr ⟨hin.trans (List.take_prefix _ _), hnone⟩

theorem writeOne_course (h : Plain pad.projectId) : Course codec dir pad t w (writeOne codec dir pad w t) := by
  obtain ⟨-, -, -, -, hproper⟩ := h.path dir
  have hparent : ∀ c ∈ (padPath dir pad.projectId).dropLast, Proper c :=
    fun c hc => hproper c (List.dropLast_subset _ hc)
  have hall : t.Extended (t.createDirAll (padPath dir pad.projectId).dropLast).1
      (padPath dir pad.projectId).dropLast := by
    have htake := createDirAll_extended (t := t) hparent (padPath dir pad.projectId).dropLast.length
    rwa [List.take_length] at htake
  unfold writeOne
  dsimp only
  generalize t.createDirAll (padPath dir pad.projectId).dropLast = made at hall ⊢
  obtain ⟨made, result⟩ := made
  cases w with
  | noDirs e n => exact .failed _ _ _ (createDirAll_extended hparent n)
  | notOpened e =>
    cases result with
    | error e => exact .failed _ _ _ hall
    | ok => exact .failed _ _ _ hall
  | torn e n =>
    cases result with
    | error e => exact .failed _ _ _ hall
    | ok =>
      dsimp only
      split
      · rename_i t' hw
        exact .torn made t' e n hall hw
      · exact .failed _ _ _ hall
  | done =>
    cases result with
    | error e => exact .failed _ _ _ hall
    | ok =>
      dsimp only
      split
      · rename_i t' hw
        exact .done made t' hall hw
      · exact .failed _ _ _ hall

end Writes

section Reads

variable {codec : PadCodec} {dir : StateDir} {s : Store} {t t' : FileTree Bytes} {id id' body : Text} {bytes : Bytes}
  {pad : Scratchpad} {w : Writing} {now : Nat}

theorem stored_iff : stored codec dir s id = some pad ↔
    ∃ bytes, s.disk.read (padPath dir id) = .ok bytes ∧ codec.fromSlice bytes = .ok pad := by
  unfold stored
  cases s.disk.read (padPath dir id) with
  | error e => simp
  | ok bytes => cases h : codec.fromSlice bytes <;> simp [h, Except.toOption]

theorem get_stored (h : stored codec dir s id = some pad) : get codec dir s id now none = .ok pad := by
  obtain ⟨bytes, hread, hparse⟩ := stored_iff.mp h
  simp only [get, readOne, Option.elim_none, hread, hparse]

/-- Only a scratchpad that is not there is read as an empty one. -/
theorem get_ok (h : get codec dir s id now none = .ok pad) :
    stored codec dir s id = some pad ∨
      s.disk.read (padPath dir id) = .error .notFound ∧ pad = ⟨id, [], now⟩ := by
  simp only [get, readOne, Option.elim_none] at h
  split at h
  · rename_i bytes hread
    split at h
    · rename_i hparse
      obtain rfl := Except.ok.inj h
      exact .inl (stored_iff.mpr ⟨bytes, hread, hparse⟩)
    · cases h
  · rename_i hread
    exact .inr ⟨hread, (Except.ok.inj h).symm⟩
  · cases h

theorem get_missing (h : s.disk.read (padPath dir id) = .error .notFound) :
    get codec dir s id now none = .ok ⟨id, [], now⟩ := by
  simp only [get, readOne, Option.elim_none, h]

/-- The path of a file, split for the system calls. -/
theorem Plain.concat (h : Plain id) (dir : StateDir) : ∃ p c, padPath dir id = p ++ [c] ∧ ∀ d ∈ p ++ [c], Proper d := by
  obtain ⟨ds, n, -, hpath, hproper⟩ := h.path dir
  exact ⟨_, _, hpath, hpath ▸ hproper⟩

theorem read_extended {q : AbsPath} (h : Plain id) (hext : t.Extended t' q) (hread : t.read (padPath dir id) = .ok bytes) :
    t'.read (padPath dir id) = .ok bytes := by
  have hnul := FileTree.nulFree_of_read (by simp [hread] : t.read (padPath dir id) ≠ .error .invalidInput)
  obtain ⟨p, c, hpath, hproper⟩ := h.concat dir
  rw [hpath] at hread hnul ⊢
  exact hext.read ⟨hproper, hnul⟩ hread

theorem read_written {made : FileTree Bytes} {bytes' : Bytes} (h : Plain id) (h' : Plain id') (hne : id' ≠ id)
    (hw : made.write (padPath dir id) bytes' = .ok t') (hread : made.read (padPath dir id') = .ok bytes) :
    t'.read (padPath dir id') = .ok bytes := by
  have hnul := FileTree.nulFree_of_write hw
  have hnul' := FileTree.nulFree_of_read (by simp [hread] : made.read (padPath dir id') ≠ .error .invalidInput)
  have hpaths : padPath dir id' ≠ padPath dir id := fun he => hne (h'.inj h (by rw [h.file, h'.file, he]))
  obtain ⟨p, c, hpath, hproper⟩ := h.concat dir
  obtain ⟨p', c', hpath', hproper'⟩ := h'.concat dir
  rw [hpath] at hw hnul hpaths
  rw [hpath'] at hread hnul' hpaths ⊢
  exact FileTree.write_other ⟨hproper, hnul⟩ ⟨hproper', hnul'⟩ hpaths hw hread

theorem read_back {made : FileTree Bytes} (h : Plain id) (hw : made.write (padPath dir id) bytes = .ok t') :
    t'.read (padPath dir id) = .ok bytes := by
  have hnul := FileTree.nulFree_of_write hw
  obtain ⟨p, c, hpath, hproper⟩ := h.concat dir
  rw [hpath] at hw hnul ⊢
  exact FileTree.write_read ⟨hproper, hnul⟩ hw

/-- The file stays away when a write fails before it is opened. -/
theorem missing_extended (h : Plain id) (hext : t.Extended t' (padPath dir id).dropLast)
    (hread : t.read (padPath dir id) = .error .notFound) : t'.read (padPath dir id) = .error .notFound := by
  have hnul := FileTree.nulFree_of_read (by simp [hread] : t.read (padPath dir id) ≠ .error .invalidInput)
  obtain ⟨p, c, hpath, hproper⟩ := h.concat dir
  rw [hpath, List.dropLast_concat] at hext
  rw [hpath] at hread hnul ⊢
  exact (FileTree.read_missing ⟨hproper, hnul⟩).mpr (hext.missing ((FileTree.read_missing ⟨hproper, hnul⟩).mp hread))

end Reads

section Runs

variable {codec : PadCodec} {dir : StateDir} {s : Store} {σ : Store × Memory} {r : Request} {rs : List Request}
  {id body : Text} {now : Nat} {w : Writing}

/-- What a put does, unless it tears the file. -/
inductive Put (codec : PadCodec) (dir : StateDir) (s : Store) (pad : Scratchpad) :
    Store × Except Failure Scratchpad → Prop where
  | failed (t' : FileTree Bytes) (e : Failure) (h : s.disk.Extended t' (padPath dir pad.projectId).dropLast) :
    Put codec dir s pad ({ s with disk := t' }, .error e)
  | done (made t' : FileTree Bytes) (frames : List SyncFrame)
    (h : s.disk.Extended made (padPath dir pad.projectId).dropLast)
    (hw : made.write (padPath dir pad.projectId) (codec.toVecPretty pad) = .ok t') :
    Put codec dir s pad (⟨t', frames⟩, .ok pad)

theorem put_course (h : Careful (.put id body now w)) :
    Put codec dir s ⟨id, body, now⟩ (put codec dir s id body now w) := by
  obtain ⟨hplain, hwhole⟩ := h
  have hcourse := @writeOne_course codec dir s.disk ⟨id, body, now⟩ w hplain
  unfold put
  dsimp only
  generalize writeOne codec dir ⟨id, body, now⟩ w s.disk = out at hcourse ⊢
  cases hcourse with
  | failed w t' e h => exact .failed t' _ h
  | torn made t' e n h hw => exact absurd rfl (hwhole e n)
  | done made t' h hw => exact .done made t' _ h hw

/-- What is remembered is in the files. -/
def Kept (codec : PadCodec) (dir : StateDir) (σ : Store × Memory) : Prop :=
  ∀ id pad, Plain id → σ.2 id = some pad → stored codec dir σ.1 id = some pad

theorem Kept.serve (hcodec : codec.Reads) (h : Kept codec dir σ) (hr : Careful r) :
    Kept codec dir (serve codec dir σ r) := by
  cases r with
  | get => exact h
  | put id body now w =>
    have hput := @put_course codec dir σ.1 id body now w hr
    unfold Notes.serve
    dsimp only
    generalize put codec dir σ.1 id body now w = out at hput ⊢
    cases hput with
    | failed t' e hext =>
      intro id' pad' hid' hm
      obtain ⟨bytes, hread, hparse⟩ := stored_iff.mp (h id' pad' hid' hm)
      exact stored_iff.mpr ⟨bytes, read_extended hid' hext hread, hparse⟩
    | done made t' frames hext hw =>
      intro id' pad' hid' hm
      dsimp only at hm
      by_cases heq : id' = id
      · subst heq
        rw [Function.update_self] at hm
        obtain rfl := Option.some.inj hm
        exact stored_iff.mpr ⟨_, read_back hr.1 hw, hcodec _⟩
      · rw [Function.update_of_ne heq] at hm
        obtain ⟨bytes, hread, hparse⟩ := stored_iff.mp (h id' pad' hid' hm)
        exact stored_iff.mpr ⟨bytes, read_written hr.1 hid' heq hw (read_extended hid' hext hread), hparse⟩

theorem kept_play (hcodec : codec.Reads) (hrs : ∀ r ∈ rs, Careful r) (h : Kept codec dir σ) :
    Kept codec dir (rs.foldl (serve codec dir) σ) := by
  induction rs generalizing σ with
  | nil => exact h
  | cons r rs ih =>
    exact ih (fun r hr => hrs r (List.mem_cons_of_mem _ hr)) (h.serve hcodec (hrs r List.mem_cons_self))

theorem unharmed (codec : PadCodec) (dir : StateDir) (s : Store) : Unharmed codec dir s := by
  intro id body now w hr e herror later pad hget
  have hput := @put_course codec dir s id body now w hr
  generalize put codec dir s id body now w = out at hput herror ⊢
  cases hput with
  | failed t' e hext =>
    rcases get_ok hget with hstored | ⟨hread, rfl⟩
    · obtain ⟨bytes, hread, hparse⟩ := stored_iff.mp hstored
      exact get_stored (stored_iff.mpr ⟨bytes, read_extended hr.1 hext hread, hparse⟩)
    · exact get_missing (missing_extended hr.1 hext hread)
  | done => cases herror

/-- A put that has emptied the file and fails leaves nothing that is read. -/
theorem torn_lost (hcodec : codec.Rejects) {made t' : FileTree Bytes} {n : Nat} {pad : Scratchpad} (h : Plain id)
    (hw : made.write (padPath dir id) ((codec.toVecPretty pad).dropLast.take n) = .ok t') (frames : List SyncFrame) :
    ∃ e, get codec dir ⟨t', frames⟩ id now none = .error (500, "corrupt notes file: ".toList ++ e) := by
  obtain ⟨e, he⟩ := hcodec pad n
  refine ⟨e, ?_⟩
  simp only [get, readOne, Option.elim_none, read_back h hw, he]

/-- Plain ids have files of their own below the directory of the scratchpads. In a run in which every id is plain
and no write fails once it has emptied the file, scratchpads are read as they were last put, and a put that fails
leaves them as they were. -/
theorem scratchpads_isolated (hcodec : codec.Reads) (hrs : ∀ r ∈ rs, Careful r) :
    (∀ p, Plain p → Inside dir (padFile dir p)) ∧
    (∀ p q, Plain p → Plain q → p ≠ q → padFile dir p ≠ padFile dir q) ∧
    LastWrite codec dir (play codec dir s rs) ∧ Unharmed codec dir (play codec dir s rs).1 := by
  refine ⟨fun p hp => hp.inside, fun p q hp hq hne he => hne (hp.inj hq he), ?_, unharmed _ _ _⟩
  intro id pad now hid hm
  have hkept : Kept codec dir (play codec dir s rs) := kept_play hcodec hrs fun _ _ _ hm => hm
  exact get_stored (hkept id pad hid hm)

end Runs

open Wire (Value)

/-- The time of the first instant as it prints; other times are told by their number. -/
def printTime (t : Nat) : Text := if t = 0 then "1970-01-01T00:00:00Z".toList else showNat t

def readTime (text : Text) : Nat :=
  if text = "1970-01-01T00:00:00Z".toList then 0 else Nat.ofDigitChars 10 text 0

theorem readTime_printTime (t : Nat) : readTime (printTime t) = t := by
  unfold printTime readTime
  by_cases ht : t = 0
  · rw [if_pos ht, if_pos rfl, ht]
  · rw [if_neg ht, if_neg, showNat, Nat.toList_repr, Nat.ofDigitChars_ten_toDigits]
    intro he
    have hdash : '-' ∈ showNat t := by rw [he]; decide
    rw [showNat, Nat.toList_repr] at hdash
    exact absurd (Nat.isDigit_of_mem_toDigits (by decide) (by decide) hdash) (by decide)

def prettyPad (pad : Scratchpad) : Text :=
  "\x7b\n  \"project_id\": \"".toList ++ (pad.projectId.flatMap Value.escape ++ '"' ::
    (",\n  \"body\": \"".toList ++ (pad.body.flatMap Value.escape ++ '"' ::
      (",\n  \"updated_at\": \"".toList ++ ((printTime pad.updatedAt).flatMap Value.escape ++ '"' :: "\n\x7d".toList)))))

def readPad (text : Text) : Option Scratchpad := do
  let (projectId, text) ← Value.unquote (text.drop 19)
  let (body, text) ← Value.unquote (text.drop 13)
  let (updatedAt, _) ← Value.unquote (text.drop 19)
  return ⟨projectId, body, readTime updatedAt⟩

def prettyCodec : PadCodec where
  toVecPretty pad := Utf8.encode (prettyPad pad)
  fromSlice bytes :=
    match (Utf8.fromUtf8 bytes).bind readPad with
    | some pad => .ok pad
    | none => .error "expected value".toList

theorem prettyCodec_reads : prettyCodec.Reads := by
  intro pad
  have hread : readPad (prettyPad pad) = some pad := by
    unfold readPad prettyPad
    rw [List.drop_left' (by decide), Value.unquote_quote]
    simp only [Option.bind_eq_bind, Option.bind_some]
    rw [List.drop_left' (by decide), Value.unquote_quote]
    simp only [Option.bind_some]
    rw [List.drop_left' (by decide), Value.unquote_quote]
    simp only [Option.bind_some, readTime_printTime]
    rfl
  simp only [prettyCodec, Utf8.fromUtf8_encode, Option.bind_some, hread]

def stateDir : StateDir := ⟨["state".toList], by decide⟩

def emptyStore : Store := ⟨⟨[], []⟩, []⟩

/-- Two projects take notes, and one put fails. -/
def takingNotes : List Request :=
  [.put "a".toList "one".toList 0 .done, .put "b".toList "two".toList 0 .done,
    .put "a".toList "three".toList 0 (.notOpened "Too many open files (os error 24)".toList)]

theorem scratchpads_isolated_notes :
    get prettyCodec stateDir (play prettyCodec stateDir emptyStore takingNotes).1 "a".toList 0 none =
      .ok ⟨"a".toList, "one".toList, 0⟩ := by
  have hcareful : ∀ r ∈ takingNotes, Careful r := by
    intro r hr
    simp only [takingNotes, List.mem_cons, List.not_mem_nil, or_false] at hr
    rcases hr with rfl | rfl | rfl
    · exact ⟨by decide, fun _ _ => by simp⟩
    · exact ⟨by decide, fun _ _ => by simp⟩
    · exact ⟨by decide, fun _ _ => by simp⟩
  obtain ⟨-, -, hlast, -⟩ :=
    @scratchpads_isolated prettyCodec stateDir emptyStore takingNotes prettyCodec_reads hcareful
  exact hlast "a".toList ⟨"a".toList, "one".toList, 0⟩ 0 (by decide) (by decide +kernel)

/-- An id with `..` is stored beside the directory of the scratchpads. -/
theorem scratchpad_escapes :
    (put prettyCodec stateDir emptyStore "../a".toList "x".toList 0 .done).2 = .ok ⟨"../a".toList, "x".toList, 0⟩ ∧
    ((put prettyCodec stateDir emptyStore "../a".toList "x".toList 0 .done).1.disk.file
      ["state".toList, "a.json".toList]).isSome = true ∧
    padFile stateDir "../a".toList = ["state".toList, "a.json".toList] ∧
    ¬ Inside stateDir (padFile stateDir "../a".toList) := by
  refine ⟨rfl, by decide +kernel, by decide +kernel, ?_⟩
  rintro ⟨hin, -⟩
  revert hin
  decide +kernel

end AgentGrove.Notes
