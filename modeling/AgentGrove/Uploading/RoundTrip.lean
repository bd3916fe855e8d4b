import AgentGrove.Uploading.Names
import AgentGrove.Wire.Value
import Mathlib.Data.List.Permutation
import Mathlib.Logic.Relation

namespace AgentGrove.Uploads

open Utf8 (Bytes encode fromUtf8 fromUtf8_encode)
open Wire (Value)

/-- What was uploaded under an id: the name that the client gave, the content type and the bytes. -/
structure Receipt where
  id : Text
  name : Text
  contentType : Text
  bytes : Bytes

/-- The disk, and the uploads that have been stored and not deleted. -/
structure World where
  disk : Disk
  live : List Receipt

def Part.content (p : Part) : Bytes :=
  match p.bytes with
  | .ok bytes => bytes
  | .error _ => []

def Part.receipts (p : Part) : Stored → List Receipt
  | .stored dto => [⟨dto.id, p.original, p.declared, p.content⟩]
  | _ => []

/-- A directory that is not there, and nothing in it. -/
structure Fresh (d : Disk) (dir : Text) : Prop where
  absent : dir ∉ d.dirs
  empty : ∀ f ∈ d.files, childOf dir f.1 = none

/-- What changes the uploads: the directory for them is made, a part is stored under a new id, an upload is
deleted, which is left to the user. -/
inductive Step (beyond : Char → Bool) (root : Text) : World → World → Prop where
  | rootDir (w : World) : Step beyond root w ⟨w.disk.createDir root, w.live⟩
  | part (w : World) (p : Part) (fresh : Fresh w.disk (join root (hyphenated p.id))) :
    Step beyond root w ⟨(createPart beyond root w.disk p).2,
      p.receipts (createPart beyond root w.disk p).1 ++ w.live⟩
  | delete (w : World) (r : Receipt) (mem : r ∈ w.live) :
    Step beyond root w ⟨w.disk.removeDirAll (join root r.id), w.live.filter (fun other => other.id ≠ r.id)⟩

/-- A run from any disk, before the first upload. -/
def Reaches (beyond : Char → Bool) (root : Text) (w : World) : Prop :=
  ∃ disk, Relation.ReflTransGen (Step beyond root) ⟨disk, []⟩ w

section Disk

variable {d : Disk} {dir other path name : Text} {bytes : Bytes} {entries : List (Text × Bytes)}

theorem readDir_createDir (hne : dir ≠ other) : (d.createDir other).readDir dir = d.readDir dir := by
  simp [Disk.readDir, Disk.createDir, hne]

theorem readDir_fresh (h : Fresh d dir) : (d.createDir dir).readDir dir = some [] := by
  have hnone : d.files.filterMap (entryOf dir) = [] := by
    rw [List.filterMap_eq_nil_iff]
    intro f hf
    rw [entryOf, h.empty f hf]
    rfl
  simp [Disk.readDir, Disk.createDir, hnone]

theorem entries_filter (files : List (Text × Bytes)) :
    (files.filter (fun f => f.1 ≠ path)).filterMap (entryOf dir) =
      (files.filterMap (entryOf dir)).filter (fun e => some e.1 ≠ childOf dir path) := by
  rw [List.filterMap_filter, List.filter_filterMap]
  congr 1
  funext f
  cases hchild : childOf dir f.1 with
  | none => simp [entryOf, hchild]
  | some name =>
    by_cases hpath : f.1 = path
    · have hsame : childOf dir path = some name := by rw [← hpath, hchild]
      simp [entryOf, hpath, hsame, Option.filter]
    · have hne : some name ≠ childOf dir path := by
        intro heq
        obtain ⟨hf, -⟩ := childOf_eq_some.mp hchild
        obtain ⟨hp, -⟩ := childOf_eq_some.mp heq.symm
        exact hpath (hf.trans hp.symm)
      simp [entryOf, hchild, hpath, hne, Option.filter]

theorem readDir_write_aside (h : childOf dir path = none) : (d.write path bytes).readDir dir = d.readDir dir := by
  have hentry : entryOf dir (path, bytes) = none := by rw [entryOf, h]; rfl
  unfold Disk.readDir Disk.write
  dsimp only
  rw [List.filterMap_cons, hentry, entries_filter, h]
  simp

theorem readDir_write (h : childOf dir path = some name) (hread : d.readDir dir = some entries) :
    (d.write path bytes).readDir dir = some ((name, bytes) :: entries.filter (fun e => e.1 ≠ name)) := by
  have hentry : entryOf dir (path, bytes) = some (name, bytes) := by rw [entryOf, h]; rfl
  unfold Disk.readDir at hread
  split at hread
  · rename_i hdir
    unfold Disk.readDir Disk.write
    dsimp only
    rw [if_pos hdir, List.filterMap_cons, hentry, entries_filter, h, Option.some.inj hread]
    simp
  · cases hread

theorem readDir_removeDirAll (hdir : dir ≠ other) (hin : (other ++ ['/']).isPrefixOf dir = false)
    (hbelow : ∀ name, (other ++ ['/']).isPrefixOf (dir ++ '/' :: name) = false) :
    (d.removeDirAll other).readDir dir = d.readDir dir := by
  have hfiles : (d.files.filter (fun f => !(other ++ ['/']).isPrefixOf f.1)).filterMap (entryOf dir) =
      d.files.filterMap (entryOf dir) := by
    rw [List.filterMap_filter]
    congr 1
    funext f
    cases hchild : childOf dir f.1 with
    | none => simp [entryOf, hchild]
    | some name =>
      obtain ⟨hpath, -⟩ := childOf_eq_some.mp hchild
      have hkeep : (other ++ ['/']).isPrefixOf f.1 = false := by rw [hpath, hbelow]
      rw [hkeep]
      rfl
  unfold Disk.readDir Disk.removeDirAll
  dsimp only
  rw [hfiles]
  simp [hdir, hin]

end Disk

/-- Nothing of the one directory is in the other. -/
structure Apart (dir other : Text) : Prop where
  ne : dir ≠ other
  inside : (other ++ ['/']).isPrefixOf dir = false
  below : ∀ name, (other ++ ['/']).isPrefixOf (dir ++ '/' :: name) = false

section Apart

variable {root dir other id id' name : Text} {d : Disk} {p : Part} {beyond : Char → Bool}

theorem apart_of_ne (hid : '/' ∉ id) (hid' : '/' ∉ id') (hne : id ≠ id') :
    Apart (root ++ '/' :: id) (root ++ '/' :: id') where
  ne := by
    intro h
    exact hne (List.cons.inj (List.append_cancel_left h)).2
  inside := by
    rw [← Bool.not_eq_true, List.isPrefixOf_iff_prefix]
    rintro ⟨rest, h⟩
    rw [List.append_assoc, List.append_assoc] at h
    have hmem := (List.cons.inj (List.append_cancel_left h)).2
    exact hid (hmem ▸ by simp)
  below name := by
    rw [← Bool.not_eq_true, List.isPrefixOf_iff_prefix]
    rintro ⟨rest, h⟩
    rw [List.append_assoc, List.append_assoc, List.append_assoc] at h
    have htail : id' ++ '/' :: rest = id ++ '/' :: name := (List.cons.inj (List.append_cancel_left h)).2
    exact hne (slash_inj hid' hid htail).symm

theorem Apart.childOf (h : Apart dir other) : childOf dir (other ++ '/' :: name) = none := by
  cases hchild : Uploads.childOf dir (other ++ '/' :: name) with
  | none => rfl
  | some child =>
    obtain ⟨hpath, -⟩ := childOf_eq_some.mp hchild
    have hbelow := h.below child
    rw [← hpath, ← Bool.not_eq_true, List.isPrefixOf_iff_prefix] at hbelow
    exact absurd ⟨name, by simp⟩ hbelow

theorem readDir_cleanUp (h : Apart dir other) : (d.cleanUp p other).readDir dir = d.readDir dir := by
  unfold Disk.cleanUp
  split
  · exact readDir_removeDirAll h.ne h.inside h.below
  · rfl

/-- What storing a part comes to: nothing, a directory that is left or removed, or its file and its metadata. -/
inductive Course (beyond : Char → Bool) (root : Text) (d : Disk) (p : Part) : Stored × Disk → Prop where
  | skipped : Course beyond root d p (.skipped, d)
  | failed (e : Failure) : Course beyond root d p (.failed e, d)
  | emptied (e : Failure) : Course beyond root d p (.failed e, d.createDir (join root (hyphenated p.id)))
  | removed (e : Failure) : Course beyond root d p
      (.failed e, (d.createDir (join root (hyphenated p.id))).cleanUp p (join root (hyphenated p.id)))
  | unmade (e : Failure) (bytes : Bytes) : Course beyond root d p
      (.failed e, ((d.createDir (join root (hyphenated p.id))).write
        (join (join root (hyphenated p.id)) (sanitizeFilename beyond p.original)) bytes).cleanUp p
          (join root (hyphenated p.id)))
  | stored (path : Text) (bytes : Bytes) (h : p.bytes = .ok bytes) : Course beyond root d p
      (.stored ⟨hyphenated p.id, sanitizeFilename beyond p.original, p.declared, bytes.length, path⟩,
        ((d.createDir (join root (hyphenated p.id))).write
          (join (join root (hyphenated p.id)) (sanitizeFilename beyond p.original)) bytes).write
            (join (join root (hyphenated p.id)) metaName)
            (encode (metadata p.declared (sanitizeFilename beyond p.original) bytes.length).print))

theorem createPart_course : Course beyond root d p (createPart beyond root d p) := by
  unfold createPart
  split
  · exact .skipped
  dsimp only
  split
  · exact .failed _
  split
  · exact .emptied _
  rename_i bytes hbytes
  split
  · exact .removed _
  split
  · exact .removed _
  split
  · exact .unmade _ bytes
  · exact .stored _ bytes hbytes

/-- Storing a part leaves all other directories as they are. -/
theorem createPart_aside (h : Apart dir (join root (hyphenated p.id))) :
    (createPart beyond root d p).2.readDir dir = d.readDir dir := by
  have hmade : (d.createDir (join root (hyphenated p.id))).readDir dir = d.readDir dir := readDir_createDir h.ne
  have hwrite (d : Disk) (name : Text) (bytes : Bytes) (hname : '/' ∉ name) :
      (d.write (join (join root (hyphenated p.id)) name) bytes).readDir dir = d.readDir dir := by
    rw [join_single hname]
    exact readDir_write_aside h.childOf
  have hcourse := @createPart_course root d p beyond
  generalize createPart beyond root d p = out at hcourse ⊢
  cases hcourse with
  | skipped | failed => rfl
  | emptied => exact hmade
  | removed => rw [readDir_cleanUp h, hmade]
  | unmade => rw [readDir_cleanUp h, hwrite _ _ _ (sanitized_component _).single, hmade]
  | stored => rw [hwrite _ _ _ (by decide), hwrite _ _ _ (sanitized_component _).single, hmade]

end Apart

/-- The directory of an upload. -/
def Receipt.contents (beyond : Char → Bool) (r : Receipt) : List (Text × Bytes) :=
  (metaName, encode (metadata r.contentType (sanitizeFilename beyond r.name) r.bytes.length).print) ::
    [(sanitizeFilename beyond r.name, r.bytes)].filter (fun e => e.1 ≠ metaName)

section Stored

variable {root : Text} {d : Disk} {p : Part} {beyond : Char → Bool}

/-- A part that is stored has its directory for itself. -/
theorem createPart_stored (hfresh : Fresh d (join root (hyphenated p.id))) :
    ∀ r ∈ p.receipts (createPart beyond root d p).1, r.id = hyphenated p.id ∧
      (createPart beyond root d p).2.readDir (join root r.id) = some (r.contents beyond) := by
  have hfile (name : Text) (hname : '/' ∉ name) :
      childOf (join root (hyphenated p.id)) (join (join root (hyphenated p.id)) name) = some name :=
    childOf_eq_some.mpr ⟨join_single hname, hname⟩
  have hcourse := @createPart_course root d p beyond
  generalize createPart beyond root d p = out at hcourse ⊢
  intro r hr
  cases hcourse with
  | skipped | failed | emptied | removed | unmade => cases hr
  | stored path bytes hbytes =>
    obtain rfl := List.mem_singleton.mp hr
    have hcontent : p.content = bytes := by rw [Part.content, hbytes]
    refine ⟨rfl, ?_⟩
    rw [Receipt.contents, hcontent]
    exact readDir_write (hfile _ (by decide))
      (readDir_write (hfile _ (sanitized_component _).single) (readDir_fresh hfresh))

end Stored

/-- Every upload that is live has its directory, with its file and its metadata. -/
def Kept (beyond : Char → Bool) (root : Text) (w : World) : Prop :=
  ∀ r ∈ w.live, isSafeId r.id = true ∧ w.disk.readDir (join root r.id) = some (r.contents beyond)

section Kept

variable {beyond : Char → Bool} {root : Text} {w w' : World}

theorem apart_of_safe {id id' : Text} (hid : isSafeId id = true) (hid' : isSafeId id' = true) (hne : id ≠ id') :
    Apart (join root id) (join root id') := by
  have hsingle := isSafeId_single hid
  have hsingle' := isSafeId_single hid'
  rw [join_single hsingle, join_single hsingle']
  exact apart_of_ne hsingle hsingle' hne

theorem join_ne_root {id : Text} (hid : isSafeId id = true) : join root id ≠ root := by
  rw [join_single (isSafeId_single hid)]
  intro h
  have hlength := congrArg List.length h
  simp at hlength

/-- The new directory is none of those that are in use. -/
theorem ne_of_fresh {d : Disk} {id id' : Text} {entries : List (Text × Bytes)} (hfresh : Fresh d (join root id'))
    (hread : d.readDir (join root id) = some entries) : id ≠ id' := by
  rintro rfl
  unfold Disk.readDir at hread
  split at hread
  · rename_i hdir
    exact hfresh.absent (List.contains_iff_mem.mp hdir)
  · cases hread

theorem Kept.step (hkept : Kept beyond root w) (h : Step beyond root w w') : Kept beyond root w' := by
  cases h with
  | rootDir =>
    intro r hr
    obtain ⟨hsafe, hread⟩ := hkept r hr
    refine ⟨hsafe, ?_⟩
    rw [← hread]
    exact readDir_createDir (join_ne_root hsafe)
  | part p hfresh =>
    intro r hr
    rcases List.mem_append.mp hr with hnew | hold
    · obtain ⟨hid, hread⟩ := createPart_stored hfresh r hnew
      exact ⟨hid ▸ isSafeId_hyphenated p.id, hread⟩
    · obtain ⟨hsafe, hread⟩ := hkept r hold
      have hapart : Apart (join root r.id) (join root (hyphenated p.id)) :=
        apart_of_safe hsafe (isSafeId_hyphenated p.id) (ne_of_fresh hfresh hread)
      exact ⟨hsafe, (createPart_aside hapart).trans hread⟩
  | delete r' hmem =>
    intro r hr
    obtain ⟨hr, hne⟩ := List.mem_filter.mp hr
    obtain ⟨hsafe, hread⟩ := hkept r hr
    have hapart : Apart (join root r.id) (join root r'.id) :=
      apart_of_safe hsafe (hkept r' hmem).1 (by simpa using hne)
    exact ⟨hsafe, (readDir_removeDirAll hapart.ne hapart.inside hapart.below).trans hread⟩

theorem kept_reached (h : Reaches beyond root w) : Kept beyond root w := by
  obtain ⟨disk, hrun⟩ := h
  induction hrun with
  | refl => exact fun r hr => absurd hr List.not_mem_nil
  | tail _ hstep ih => exact ih.step hstep

end Kept

section Requests

variable {beyond : Char → Bool} {root dir other path : Text} {d : Disk} {p : Part} {w : World}

theorem Fresh.createDir (h : Fresh d dir) (hne : dir ≠ other) : Fresh (d.createDir other) dir where
  absent := by
    intro hm
    rcases List.mem_cons.mp hm with heq | hm
    · exact hne heq
    · exact h.absent hm
  empty := h.empty

theorem Fresh.write {bytes : Bytes} (h : Fresh d dir) (hpath : childOf dir path = none) :
    Fresh (d.write path bytes) dir where
  absent := h.absent
  empty := by
    intro f hf
    rcases List.mem_cons.mp hf with rfl | hf
    · exact hpath
    · exact h.empty f (List.mem_filter.mp hf).1

theorem Fresh.cleanUp (h : Fresh d dir) : Fresh (d.cleanUp p other) dir := by
  unfold Disk.cleanUp
  split
  · exact ⟨fun hm => h.absent (List.mem_filter.mp hm).1, fun f hf => h.empty f (List.mem_filter.mp hf).1⟩
  · exact h

theorem Fresh.createPart (h : Fresh d dir) (hapart : Apart dir (join root (hyphenated p.id))) :
    Fresh (createPart beyond root d p).2 dir := by
  have hmade := h.createDir hapart.ne
  have hwrite {d : Disk} {name : Text} {bytes : Bytes} (h : Fresh d dir) (hname : '/' ∉ name) :
      Fresh (d.write (join (join root (hyphenated p.id)) name) bytes) dir := by
    rw [join_single hname]
    exact h.write hapart.childOf
  have hcourse := @createPart_course root d p beyond
  generalize Uploads.createPart beyond root d p = out at hcourse ⊢
  cases hcourse with
  | skipped | failed => exact h
  | emptied => exact hmade
  | removed => exact hmade.cleanUp
  | unmade => exact (hwrite hmade (sanitized_component _).single).cleanUp
  | stored => exact hwrite (hwrite hmade (sanitized_component _).single) (by decide)

/-- The ids of the parts are new, and no two are the same. -/
structure NewIds (root : Text) (d : Disk) (parts : List Part) : Prop where
  distinct : (parts.map (fun p => hyphenated p.id)).Nodup
  fresh : ∀ p ∈ parts, Fresh d (join root (hyphenated p.id))

theorem NewIds.tail {parts : List Part} (h : NewIds root d (p :: parts)) :
    NewIds root (Uploads.createPart beyond root d p).2 parts where
  distinct := (List.nodup_cons.mp h.distinct).2
  fresh q hq := by
    have hne : hyphenated q.id ≠ hyphenated p.id := by
      intro heq
      exact (List.nodup_cons.mp h.distinct).1 (List.mem_map.mpr ⟨q, hq, heq⟩)
    exact (h.fresh q (List.mem_cons_of_mem _ hq)).createPart
      (apart_of_safe (isSafeId_hyphenated _) (isSafeId_hyphenated _) hne)

/-- A request takes such steps, and what it returns is live then. -/
theorem createParts_reaches (parts : List Part) (out : List UploadDto) (hids : NewIds root w.disk parts) :
    ∃ live, Relation.ReflTransGen (Step beyond root) w ⟨(createParts beyond root w.disk out parts).2, live⟩ ∧
      (∀ r ∈ w.live, r ∈ live) ∧
      ∀ dtos, (createParts beyond root w.disk out parts).1 = .ok dtos →
        ∀ dto ∈ dtos, dto ∈ out ∨ ∃ r ∈ live, r.id = dto.id := by
  induction parts generalizing w out with
  | nil =>
    refine ⟨w.live, ?_, fun _ h => h, ?_⟩
    · rw [createParts]
      split <;> exact .refl
    · intro dtos h dto hdto
      rw [createParts] at h
      split at h
      · cases h
      · cases h
        exact .inl hdto
  | cons p parts ih =>
    have hstep : Step beyond root w _ := .part w p (hids.fresh p List.mem_cons_self)
    have htail : NewIds root (createPart beyond root w.disk p).2 parts := hids.tail
    cases hpart : createPart beyond root w.disk p with
    | mk stored disk =>
      rw [hpart] at hstep htail
      rw [createParts, hpart]
      cases stored with
      | failed e =>
        exact ⟨_, .single hstep, fun _ h => List.mem_append_right _ h, fun _ h => by cases h⟩
      | skipped =>
        obtain ⟨live, hrun, hkeep, hlive⟩ := @ih ⟨disk, w.live⟩ out htail
        exact ⟨live, .head hstep hrun, hkeep, hlive⟩
      | stored dto =>
        obtain ⟨live, hrun, hkeep, hlive⟩ := @ih ⟨disk, _⟩ (out ++ [dto]) htail
        refine ⟨live, .head hstep hrun, fun r hr => hkeep r (List.mem_append_right _ hr), ?_⟩
        intro dtos h dto' hdto'
        rcases hlive dtos h dto' hdto' with hout | hfound
        · rcases List.mem_append.mp hout with hout | hnew
          · exact .inl hout
          · obtain rfl := List.mem_singleton.mp hnew
            exact .inr ⟨_, hkeep _ List.mem_cons_self, rfl⟩
        · exact .inr hfound

theorem create_reaches (rootDir : Except Text Unit) (parts : List Part) (hids : NewIds root w.disk parts) :
    ∃ live, Relation.ReflTransGen (Step beyond root) w ⟨(create beyond root rootDir w.disk parts).2, live⟩ ∧
      ∀ dtos, (create beyond root rootDir w.disk parts).1 = .ok dtos → ∀ dto ∈ dtos, ∃ r ∈ live, r.id = dto.id := by
  unfold create
  cases rootDir with
  | error e => exact ⟨w.live, .refl, fun _ h => by cases h⟩
  | ok =>
    have hmade : NewIds root (w.disk.createDir root) parts := by
      refine ⟨hids.distinct, fun p hp => (hids.fresh p hp).createDir ?_⟩
      exact join_ne_root (isSafeId_hyphenated p.id)
    obtain ⟨live, hrun, -, hlive⟩ := @createParts_reaches beyond root ⟨w.disk.createDir root, w.live⟩ parts [] hmade
    refine ⟨live, .head (.rootDir w) hrun, fun dtos h dto hdto => ?_⟩
    exact (hlive dtos h dto hdto).resolve_left List.not_mem_nil

end Requests

section Raw

variable {beyond : Char → Bool} {parse : Text → Option Value} {guess : Text → Text} {order : Order} {root : Text}
  {w : World} {r : Receipt}

/-- What `serde_json` prints of metadata it reads as it was. -/
def ReadsMetadata (parse : Text → Option Value) : Prop :=
  ∀ contentType filename size, parse (metadata contentType filename size).print =
    some (metadata contentType filename size)

theorem scan_meta (hparse : ReadsMetadata parse) (found : Option (Text × Bytes)) (stored : Option Text)
    (contentType filename : Text) (size : Nat) (entries : List (Text × Bytes)) :
    scan parse found stored ((metaName, encode (metadata contentType filename size).print) :: entries) =
      scan parse found (stored.or (some contentType)) entries := by
  rw [scan, if_pos rfl, fromUtf8_encode, Option.bind_some, hparse, Option.bind_some]
  rfl

theorem scan_file {name : Text} (hmeta : name ≠ metaName) (hshown : name.head? ≠ some '.') (found : Option (Text × Bytes))
    (stored : Option Text) (bytes : Bytes) (entries : List (Text × Bytes)) :
    scan parse found stored ((name, bytes) :: entries) = scan parse (some (name, bytes)) stored entries := by
  rw [scan, if_neg hmeta, if_neg hshown]

/-- In whatever order its directory is read, an upload is found if its name is not that of the metadata. -/
theorem scan_contents (hparse : ReadsMetadata parse) (r : Receipt) :
    scan parse none none (order.list (r.contents beyond)) =
      (if sanitizeFilename beyond r.name = metaName then none else some (sanitizeFilename beyond r.name, r.bytes),
        some r.contentType) := by
  have hperm := order.perm (r.contents beyond)
  unfold Receipt.contents at *
  by_cases hmeta : sanitizeFilename beyond r.name = metaName
  · have hfilter : [(sanitizeFilename beyond r.name, r.bytes)].filter (fun e => e.1 ≠ metaName) = [] := by
      simp [hmeta]
    rw [hfilter] at hperm ⊢
    rw [List.perm_singleton.mp hperm, scan_meta hparse, if_pos hmeta]
    rfl
  · have hfilter : [(sanitizeFilename beyond r.name, r.bytes)].filter (fun e => e.1 ≠ metaName) =
        [(sanitizeFilename beyond r.name, r.bytes)] := by
      simp [hmeta]
    have hshown := (@sanitized_component beyond r.name).shown
    rw [hfilter] at hperm ⊢
    rw [if_neg hmeta]
    rcases List.perm_pair.mp hperm with hlist | hlist
    · rw [hlist, scan_meta hparse, scan_file hmeta hshown]
      rfl
    · rw [hlist, scan_file hmeta hshown, scan_meta hparse]
      rfl

/-- In every state that is reached, and for every upload that is not deleted: its name is a single component, and
it is served as it was uploaded exactly if that is not the name of the metadata. -/
theorem upload_round_trip_iff (hparse : ReadsMetadata parse) (hw : Reaches beyond root w) (hr : r ∈ w.live) :
    Component (sanitizeFilename beyond r.name) ∧
    (raw parse guess order root w.disk r.id = .ok { contentType := r.contentType, bytes := r.bytes } ↔
      sanitizeFilename beyond r.name ≠ metaName) := by
  obtain ⟨hsafe, hread⟩ := kept_reached hw r hr
  refine ⟨sanitized_component r.name, ?_⟩
  unfold raw
  rw [hsafe, hread]
  dsimp only
  rw [scan_contents hparse]
  by_cases hmeta : sanitizeFilename beyond r.name = metaName
  · simp [hmeta]
  · simp [hmeta]

end Raw

/-- A reader of metadata, and of nothing else. -/
def readMetadata (text : Text) : Option Value := do
  let (contentType, text) ← Value.unquote (text.drop 17)
  let (filename, text) ← Value.unquote (text.drop 13)
  return metadata contentType filename (Nat.ofDigitChars 10 ((text.drop 8).takeWhile Char.isDigit) 0)

theorem metadata_print (contentType filename : Text) (size : Nat) : (metadata contentType filename size).print =
    "\x7b\"content_type\":\"".toList ++ (contentType.flatMap Value.escape ++ '"' ::
      (",\"filename\":\"".toList ++ (filename.flatMap Value.escape ++ '"' ::
        (",\"size\":".toList ++ (showNat size ++ ['}']))))) := by
  have hquote (s : Text) : Value.quote s = '"' :: s.flatMap Value.escape ++ ['"'] := rfl
  have htype : Value.quote "content_type".toList = "\"content_type\"".toList := by decide
  have hname : Value.quote "filename".toList = "\"filename\"".toList := by decide
  have hsize : Value.quote "size".toList = "\"size\"".toList := by decide
  unfold metadata
  simp only [Value.print, Value.printMembers, Value.printMember, htype, hname, hsize, hquote contentType, hquote filename]
  simp [List.intercalate]

theorem readMetadata_reads : ReadsMetadata readMetadata := by
  intro contentType filename size
  have hdigits : (showNat size ++ ['}']).takeWhile Char.isDigit = showNat size := by
    have hall : ∀ c ∈ showNat size, c.isDigit = true := by
      intro c hc
      rw [showNat, Nat.toList_repr] at hc
      exact Nat.isDigit_of_mem_toDigits (by decide) (by decide) hc
    rw [List.takeWhile_append_of_pos hall]
    simp
  have hnumber : Nat.ofDigitChars 10 (showNat size) 0 = size := by
    rw [showNat, Nat.toList_repr, Nat.ofDigitChars_ten_toDigits]
  unfold readMetadata
  rw [metadata_print, List.drop_left' (by decide), Value.unquote_quote]
  simp only [Option.bind_eq_bind, Option.bind_some]
  rw [List.drop_left' (by decide), Value.unquote_quote]
  simp only [Option.bind_some]
  rw [List.drop_left' (by decide), hdigits, hnumber]
  rfl

/-- A part with a file, and with its id. -/
def filePart (fileName : Text) : Part :=
  { name := some "file".toList, fileName := some fileName, contentType := some "image/png".toList, bytes := .ok [1, 2],
    id := 7 }

/-- The world after one upload. -/
def afterUpload (fileName : Text) : World where
  disk := (createPart (fun _ => false) "/uploads".toList ⟨[], []⟩ (filePart fileName)).2
  live := [⟨hyphenated 7, fileName, "image/png".toList, [1, 2]⟩]

theorem afterUpload_reached (fileName : Text) :
    Reaches (fun _ => false) "/uploads".toList (afterUpload fileName) :=
  ⟨⟨[], []⟩, .single (.part ⟨⟨[], []⟩, []⟩ (filePart fileName) ⟨List.not_mem_nil, fun _ h => absurd h List.not_mem_nil⟩)⟩

theorem upload_round_trip_iff_image :
    raw readMetadata (fun _ => []) ⟨id, fun _ => .refl _⟩ "/uploads".toList (afterUpload "a b.png".toList).disk
      (hyphenated 7) = .ok { contentType := "image/png".toList, bytes := [1, 2] } :=
  (upload_round_trip_iff readMetadata_reads (afterUpload_reached "a b.png".toList) List.mem_cons_self).2.mpr
    (by decide)

/-- An upload that the client calls `meta.json` is overwritten with its metadata, and is not served. -/
theorem upload_named_meta : ∃ w, Reaches (fun _ => false) "/uploads".toList w ∧
    w.live = [⟨hyphenated 7, "meta.json".toList, "image/png".toList, [1, 2]⟩] ∧
    raw readMetadata (fun _ => []) ⟨id, fun _ => .refl _⟩ "/uploads".toList w.disk (hyphenated 7) =
      .error (404, "upload empty".toList) :=
  ⟨afterUpload "meta.json".toList, afterUpload_reached _, rfl, by rfl⟩

end AgentGrove.Uploads
