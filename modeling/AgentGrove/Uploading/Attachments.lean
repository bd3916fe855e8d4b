import AgentGrove.Model.Attachments
import AgentGrove.Uploading.Names

namespace AgentGrove.Attachments

open Search (breakOn breakOn_start breakOn_none breakOn_some breakOn_append breakOn_within sep_of_mem_splitOn)
open Uploads (UploadDto)
open Web (jsSpace)

variable {t path mime : Text} {u : UploadDto}

section Lines

/-- A text that ends in a group, after a path that `.` can match. -/
structure Group (t path mime : Text) : Prop where
  text : t = path ++ ' ' :: '(' :: mime ++ [')']
  nonempty : mime ≠ []
  closed : ')' ∉ mime
  inLine : ∀ c ∈ path, lineTerminator c = false

theorem lastGroup_eq_some : lastGroup t = some mime ↔ Group t [] mime := by
  constructor
  · intro h
    unfold lastGroup at h
    split at h
    · rename_i t
      split at h
      · rename_i hclosed
        cases h
        obtain ⟨hlast, hmime, hclosed⟩ := hclosed
        exact ⟨by simp [List.dropLast_append_getLast? ')' hlast], hmime, hclosed, by simp⟩
      · cases h
    · cases h
  · rintro ⟨rfl, hmime, hclosed, -⟩
    simp [lastGroup, hmime, hclosed]

theorem group_cons {c d : Char} {cs : Text} : Group (c :: cs) (d :: path) mime ↔
    d = c ∧ lineTerminator c = false ∧ Group cs path mime := by
  constructor
  · rintro ⟨htext, hmime, hclosed, hpath⟩
    obtain ⟨rfl, htail⟩ := List.cons.inj htext
    exact ⟨rfl, hpath c List.mem_cons_self, htail, hmime, hclosed, fun x hx => hpath x (List.mem_cons_of_mem _ hx)⟩
  · rintro ⟨rfl, hc, htail, hmime, hclosed, hpath⟩
    exact ⟨by rw [htail]; rfl, hmime, hclosed, List.forall_mem_cons.mpr ⟨hc, hpath⟩⟩

theorem mimeMatch_cons (c : Char) (cs : Text) : mimeMatch (c :: cs) =
    match if lineTerminator c then none else mimeMatch cs with
    | some (path, mime) => some (c :: path, mime)
    | none => (lastGroup (c :: cs)).map (fun mime => ([], mime)) := rfl

theorem mimeMatch_isSome (h : Group t path mime) : (mimeMatch t).isSome = true := by
  induction path generalizing t with
  | nil =>
    obtain ⟨c, cs, rfl⟩ : ∃ c cs, t = c :: cs := ⟨_, _, h.text⟩
    rw [mimeMatch_cons, lastGroup_eq_some.mpr h]
    split <;> rfl
  | cons d path ih =>
    obtain ⟨c, cs, rfl⟩ : ∃ c cs, t = c :: cs := ⟨_, _, h.text⟩
    obtain ⟨-, hc, htail⟩ := group_cons.mp h
    obtain ⟨s, hs⟩ := Option.isSome_iff_exists.mp (ih htail)
    rw [mimeMatch_cons, if_neg (by simp [hc]), hs]
    rfl

/-- What is matched is a group, with the longest path of all. -/
theorem mimeMatch_some (h : mimeMatch t = some (path, mime)) :
    Group t path mime ∧ ∀ path' mime', Group t path' mime' → path'.length ≤ path.length := by
  induction t generalizing path mime with
  | nil => cases h
  | cons c cs ih =>
    rw [mimeMatch_cons] at h
    split at h
    · rename_i path mime hrec
      cases h
      have hc : lineTerminator c = false := by
        by_contra hc
        rw [if_pos (by simpa using hc)] at hrec
        cases hrec
      rw [if_neg (by simp [hc])] at hrec
      obtain ⟨hgroup, hlongest⟩ := ih hrec
      refine ⟨group_cons.mpr ⟨rfl, hc, hgroup⟩, ?_⟩
      rintro (_ | ⟨d, path'⟩) mime' hother
      · exact Nat.zero_le _
      · obtain ⟨-, -, hother⟩ := group_cons.mp hother
        exact Nat.succ_le_succ (hlongest path' mime' hother)
    · rename_i hrec
      obtain ⟨mime, hlast, heq⟩ := Option.map_eq_some_iff.mp h
      cases heq
      refine ⟨lastGroup_eq_some.mp hlast, ?_⟩
      rintro (_ | ⟨d, path'⟩) mime' hother
      · exact le_rfl
      · obtain ⟨-, hc, hother⟩ := group_cons.mp hother
        rw [if_neg (by simp [hc])] at hrec
        have hsome := mimeMatch_isSome hother
        rw [hrec] at hsome
        cases hsome

/-- The content type has no group of its own that would be taken instead. -/
structure Lone (mime : Text) : Prop where
  closed : ')' ∉ mime
  inner : ∀ before after, mime = before ++ ' ' :: '(' :: after → after ≠ [] → ∃ c ∈ before, lineTerminator c = true

theorem mimeMatch_iff (hmime : mime ≠ []) : mimeMatch (path ++ ' ' :: '(' :: mime ++ [')']) = some (path, mime) ↔
    (∀ c ∈ path, lineTerminator c = false) ∧ Lone mime := by
  constructor
  · intro h
    obtain ⟨hgroup, hlongest⟩ := mimeMatch_some h
    refine ⟨hgroup.inLine, hgroup.closed, ?_⟩
    rintro before after rfl hafter
    by_contra hbefore
    have hlonger : Group (path ++ ' ' :: '(' :: (before ++ ' ' :: '(' :: after) ++ [')'])
        (path ++ ' ' :: '(' :: before) after := by
      refine ⟨by simp, hafter, fun hin => hgroup.closed (by simp [hin]), ?_⟩
      simp only [List.mem_append, List.mem_cons]
      rintro c (hc | rfl | rfl | hc)
      · exact hgroup.inLine c hc
      · decide
      · decide
      · by_contra hterm
        exact hbefore ⟨c, hc, by simpa using hterm⟩
    have hlen := hlongest _ _ hlonger
    simp only [List.length_append, List.length_cons] at hlen
    omega
  · rintro ⟨hpath, hclosed, hinner⟩
    have hgroup : Group (path ++ ' ' :: '(' :: mime ++ [')']) path mime := ⟨rfl, hmime, hclosed, hpath⟩
    obtain ⟨⟨path', mime'⟩, hmatch⟩ := Option.isSome_iff_exists.mp (mimeMatch_isSome hgroup)
    obtain ⟨hother, hlongest⟩ := mimeMatch_some hmatch
    have hlen := hlongest path mime hgroup
    have htext : path ++ ' ' :: '(' :: mime = path' ++ ' ' :: '(' :: mime' := by
      have heq := hother.text
      rw [List.append_left_inj] at heq
      exact heq
    obtain ⟨more, rfl⟩ : path <+: path' := List.prefix_of_prefix_length_le ⟨_, htext⟩ ⟨_, rfl⟩ hlen
    rw [List.append_assoc, List.append_cancel_left_eq] at htext
    match more, htext with
    | [], htext =>
      cases htext
      rw [hmatch, List.append_nil]
    | [_], htext => cases htext
    | _ :: _ :: before, htext =>
      cases htext
      obtain ⟨c, hc, hterm⟩ := hinner before mime' rfl hother.nonempty
      rw [hother.inLine c (by simp [hc])] at hterm
      cases hterm

def parsed (u : UploadDto) : ParsedAttachment := ⟨u.path, if u.contentType = [] then none else some u.contentType⟩

/-- An upload that its line tells of: with its type, or without one. -/
inductive Legible (u : UploadDto) : Prop where
  | typed (htype : u.contentType ≠ []) (hpath : ∀ c ∈ u.path, lineTerminator c = false) (hline : '\n' ∉ u.contentType)
      (hlone : Lone u.contentType)
  | untyped (htype : u.contentType = []) (hpath : u.path ≠ []) (hline : '\n' ∉ u.path)
      (htrim : jsTrimEnd u.path = u.path) (hgroup : mimeMatch u.path = none)

theorem jsTrimEnd_concat {c : Char} (hc : jsSpace c = false) (t : Text) : jsTrimEnd (t ++ [c]) = t ++ [c] :=
  List.rdropWhile_concat_neg _ _ _ (by simp [hc])

theorem jsTrimEnd_blank (before : Text) (h : jsTrimEnd t = []) : jsTrimEnd (before ++ t) = jsTrimEnd before := by
  have hblank : ∀ c ∈ t.reverse, jsSpace c = true :=
    fun c hc => List.rdropWhile_eq_nil_iff.mp h c (List.mem_reverse.mp hc)
  unfold jsTrimEnd List.rdropWhile
  rw [List.reverse_append, List.dropWhile_append_of_pos hblank]

/-- Blanks at the end of a text are trimmed with or without what stands before, if not all of it is blank. -/
theorem jsTrimEnd_append (before : Text) (h : jsTrimEnd t ≠ []) : jsTrimEnd (before ++ t) = before ++ jsTrimEnd t := by
  induction t using List.reverseRecOn with
  | nil => exact absurd rfl h
  | append_singleton t c ih =>
    cases hc : jsSpace c with
    | true =>
      unfold jsTrimEnd at h ih ⊢
      rw [List.rdropWhile_concat_pos _ _ _ hc] at h ⊢
      rw [← List.append_assoc, List.rdropWhile_concat_pos _ _ _ hc, ih h]
    | false => rw [jsTrimEnd_concat hc, ← List.append_assoc, jsTrimEnd_concat hc]

theorem jsTrim_dash (t : Text) : jsTrim ('-' :: t) = jsTrimEnd ('-' :: t) := by
  unfold jsTrim
  rw [List.dropWhile_cons_of_neg (by decide)]

/-- What is read of a line that begins as one of the list does. -/
theorem parseLine_dash (h : jsTrimEnd t ≠ []) : parseLine ('-' :: ' ' :: t) =
    match mimeMatch (jsTrimEnd t) with
    | some (path, mime) => some ⟨path, if mime = [] then none else some mime⟩
    | none => some ⟨jsTrimEnd t, none⟩ := by
  have htrim : jsTrim ('-' :: ' ' :: t) = '-' :: ' ' :: jsTrimEnd t := by
    rw [jsTrim_dash]
    exact jsTrimEnd_append ['-', ' '] h
  unfold parseLine
  rw [htrim]
  rfl

theorem parseLine_blank (h : jsTrimEnd t = []) : parseLine ('-' :: ' ' :: t) = none := by
  have htrim : jsTrim ('-' :: ' ' :: t) = ['-'] := by
    rw [jsTrim_dash]
    exact jsTrimEnd_blank ['-', ' '] h
  unfold parseLine
  rw [htrim]
  rfl

theorem line_typed (h : u.contentType ≠ []) :
    line u = '-' :: ' ' :: (u.path ++ ' ' :: '(' :: u.contentType ++ [')']) := by
  unfold line
  rw [if_neg h]
  simp

theorem line_untyped (h : u.contentType = []) : line u = '-' :: ' ' :: u.path := by
  unfold line
  rw [if_pos h, List.append_nil]
  rfl

theorem parseLine_typed (h : u.contentType ≠ []) : parseLine (line u) = some (parsed u) ↔
    mimeMatch (u.path ++ ' ' :: '(' :: u.contentType ++ [')']) = some (u.path, u.contentType) := by
  have htrim : jsTrimEnd (u.path ++ ' ' :: '(' :: u.contentType ++ [')']) =
      u.path ++ ' ' :: '(' :: u.contentType ++ [')'] := jsTrimEnd_concat (by decide) _
  rw [line_typed h, parseLine_dash (by rw [htrim]; simp), htrim, parsed, if_neg h]
  constructor
  · intro hparse
    split at hparse
    · rename_i path mime hmatch
      rw [if_neg (mimeMatch_some hmatch).1.nonempty] at hparse
      cases hparse
      exact hmatch
    · have hmime := congrArg ParsedAttachment.mime (Option.some.inj hparse)
      cases hmime
  · intro hmatch
    rw [hmatch]
    dsimp only
    rw [if_neg h]

theorem parseLine_untyped (h : u.contentType = []) : parseLine (line u) = some (parsed u) ↔
    u.path ≠ [] ∧ jsTrimEnd u.path = u.path ∧ mimeMatch u.path = none := by
  rw [line_untyped h, parsed, if_pos h]
  by_cases hblank : jsTrimEnd u.path = []
  · rw [parseLine_blank hblank, hblank]
    constructor
    · intro hparse
      cases hparse
    · rintro ⟨hpath, htrim, -⟩
      exact absurd htrim.symm hpath
  · rw [parseLine_dash hblank]
    constructor
    · intro hparse
      split at hparse
      · rename_i path mime hmatch
        rw [if_neg (mimeMatch_some hmatch).1.nonempty] at hparse
        cases hparse
      · rename_i hmatch
        have htrim : jsTrimEnd u.path = u.path := congrArg ParsedAttachment.path (Option.some.inj hparse)
        rw [htrim] at hblank hmatch
        exact ⟨hblank, htrim, hmatch⟩
    · rintro ⟨hpath, htrim, hmatch⟩
      rw [htrim, hmatch]

/-- One line gives its upload back. -/
theorem legible_iff : ('\n' ∉ line u ∧ parseLine (line u) = some (parsed u)) ↔ Legible u := by
  by_cases h : u.contentType = []
  · rw [parseLine_untyped h, line_untyped h]
    constructor
    · rintro ⟨hline, hpath, htrim, hmatch⟩
      exact .untyped h hpath (fun hin => hline (by simp [hin])) htrim hmatch
    · intro hlegible
      cases hlegible with
      | typed htype => exact absurd h htype
      | untyped htype hpath hline htrim hgroup => exact ⟨by simp [hline], hpath, htrim, hgroup⟩
  · rw [parseLine_typed h, line_typed h, mimeMatch_iff h]
    constructor
    · rintro ⟨hline, hpath, hlone⟩
      exact .typed h hpath (fun hin => hline (by simp [hin])) hlone
    · intro hlegible
      cases hlegible with
      | typed htype hpath hline hlone =>
        have hnewline : '\n' ∉ u.path := fun hin => absurd (hpath _ hin) (by decide)
        exact ⟨by simp [hnewline, hline], hpath, hlone⟩
      | untyped htype => exact absurd htype h

end Lines

/-- A body gives this text back, and these attachments. -/
def Holds (raw text : Text) (attachments : List ParsedAttachment) : Prop :=
  (splitBodyAndAttachments raw).body = text ∧ (splitBodyAndAttachments raw).attachments = attachments

/-- A text that is sent as it is, and is not taken for a trailer. -/
structure Plain (text : Text) : Prop where
  trimmed : jsTrim text = text
  marker : ¬ attachmentMarker <:+: text

/-- An edit that changes nothing, or that leaves a text which is not taken for a trailer, keeps its blanks where a trailer
follows it, and has something in it where none does. -/
inductive Editable (raw draft : Text) : Prop where
  | unchanged (h : draft = (splitBodyAndAttachments raw).body)
  | changed (hmarker : ¬ attachmentMarker <:+: draft) (htrailer : attachmentMarker <:+: raw → jsTrimEnd draft = draft)
      (hbare : ¬ attachmentMarker <:+: raw → (trim draft).isEmpty = false)

section Trailers

variable {text before suffix raw draft : Text} {uploads : List UploadDto}

theorem newline_marker : '\n' ∉ attachmentMarker := by decide

theorem marker_ne_nil : attachmentMarker ≠ [] := by decide

theorem parseLine_newline {l : Text} {a : ParsedAttachment} (hl : '\n' ∉ l) (h : parseLine l = some a) :
    '\n' ∉ a.path ∧ ∀ mime, a.mime = some mime → '\n' ∉ mime := by
  have hrest : '\n' ∉ (jsTrim l).drop 2 := by
    intro hin
    have htrim : '\n' ∈ jsTrim l := List.mem_of_mem_drop hin
    have hdrop : '\n' ∈ l.dropWhile jsSpace := (List.rdropWhile_prefix _ _).subset htrim
    exact hl ((List.dropWhile_suffix _).subset hdrop)
  unfold parseLine at h
  dsimp only at h
  split at h
  · split at h
    · rename_i path mime hmatch
      have hgroup := (mimeMatch_some hmatch).1
      rw [hgroup.text] at hrest
      cases h
      refine ⟨fun hin => hrest (by simp [hin]), ?_⟩
      rw [if_neg hgroup.nonempty]
      intro m hm
      cases hm
      exact fun hin => hrest (by simp [hin])
    · cases h
      exact ⟨hrest, fun _ h => by cases h⟩
  · cases h

/-- What is read of the lines behind a marker. -/
def readBack (uploads : List UploadDto) : List ParsedAttachment :=
  (('\n' :: joinLines ['\n'] (uploads.map line)).splitOn '\n').filterMap parseLine

theorem readBack_lines (h : uploads ≠ []) (hline : ∀ u ∈ uploads, '\n' ∉ line u) :
    readBack uploads = uploads.filterMap (fun u => parseLine (line u)) := by
  have hsplit : ('\n' :: joinLines ['\n'] (uploads.map line)).splitOn '\n' = [] :: uploads.map line := by
    have hjoin : '\n' :: joinLines ['\n'] (uploads.map line) = ['\n'].intercalate ([] :: uploads.map line) := by
      cases uploads with
      | nil => exact absurd rfl h
      | cons u uploads => rfl
    rw [hjoin]
    refine List.splitOn_intercalate '\n' (List.forall_mem_cons.mpr ⟨List.not_mem_nil, ?_⟩) (List.cons_ne_nil _ _)
    intro l hl
    obtain ⟨u, hu, rfl⟩ := List.mem_map.mp hl
    exact hline u hu
  rw [readBack, hsplit, List.filterMap_cons_none (by decide), List.filterMap_map]
  rfl

theorem line_of_readBack (h : readBack uploads = uploads.map parsed) (hu : u ∈ uploads) : '\n' ∉ line u := by
  have hmem : parsed u ∈ readBack uploads := by
    rw [h]
    exact List.mem_map_of_mem hu
  obtain ⟨l, hl, hparse⟩ := List.mem_filterMap.mp hmem
  obtain ⟨hpath, hmime⟩ := parseLine_newline (sep_of_mem_splitOn _ l hl) hparse
  change '\n' ∉ u.path at hpath
  by_cases htype : u.contentType = []
  · rw [line_untyped htype]
    simpa using hpath
  · rw [line_typed htype]
    have hmime := hmime u.contentType (if_neg htype)
    simp [hpath, hmime]

/-- The lines of a trailer give the uploads back just where each of them does. -/
theorem readBack_iff (h : uploads ≠ []) : readBack uploads = uploads.map parsed ↔ ∀ u ∈ uploads, Legible u := by
  constructor
  · intro hread u hu
    have hline : ∀ u ∈ uploads, '\n' ∉ line u := fun u hu => line_of_readBack hread hu
    rw [readBack_lines h hline, List.filterMap_eq_map_iff_forall_eq_some] at hread
    exact legible_iff.mp ⟨hline u hu, hread u hu⟩
  · intro hlegible
    have hlines : ∀ u ∈ uploads, '\n' ∉ line u ∧ parseLine (line u) = some (parsed u) :=
      fun u hu => legible_iff.mpr (hlegible u hu)
    rw [readBack_lines h (fun u hu => (hlines u hu).1), List.filterMap_eq_map_iff_forall_eq_some]
    exact fun u hu => (hlines u hu).2

theorem split_none (h : ¬ attachmentMarker <:+: raw) : splitBodyAndAttachments raw = ⟨raw, [], none⟩ := by
  unfold splitBodyAndAttachments
  rw [breakOn_none.mpr h]

/-- A body with a marker is cut there. -/
theorem split_some (h : breakOn attachmentMarker raw = some (before, suffix)) : splitBodyAndAttachments raw =
    ⟨jsTrimEnd before, ((suffix.drop attachmentMarker.length).splitOn '\n').filterMap parseLine, some suffix⟩ := by
  unfold splitBodyAndAttachments
  rw [h]

theorem jsTrimEnd_length (t : Text) : (jsTrimEnd t).length ≤ t.length := (List.rdropWhile_prefix _ _).length_le

theorem jsTrim_length (t : Text) : (jsTrim t).length ≤ t.length :=
  (jsTrimEnd_length _).trans (List.dropWhile_suffix _).length_le

/-- A text that has the marker comes back shorter. -/
theorem split_shorter (h : attachmentMarker <:+: text) (rest : Text) :
    (splitBodyAndAttachments (text ++ rest)).body.length < text.length := by
  obtain ⟨⟨before, suffix⟩, hbreak, hlt⟩ := breakOn_within marker_ne_nil h rest
  rw [split_some hbreak]
  exact (jsTrimEnd_length before).trans_lt hlt

/-- A trailer behind a blank line is found where it was put. -/
theorem split_trailer (h : ¬ attachmentMarker <:+: text) (hsuffix : attachmentMarker <+: suffix) :
    splitBodyAndAttachments (text ++ "\n\n".toList ++ suffix) =
      ⟨jsTrimEnd text, ((suffix.drop attachmentMarker.length).splitOn '\n').filterMap parseLine, some suffix⟩ := by
  have hbreak : breakOn attachmentMarker (text ++ "\n\n".toList ++ suffix) = some (text ++ "\n\n".toList, suffix) := by
    rw [List.append_assoc]
    change breakOn attachmentMarker (text ++ '\n' :: ([] ++ '\n' :: suffix)) = _
    have hempty : ¬ attachmentMarker <:+: [] := fun h => marker_ne_nil (List.infix_nil.mp h)
    rw [breakOn_append newline_marker h, breakOn_append newline_marker hempty, breakOn_start hsuffix]
    simp
  rw [split_some hbreak, jsTrimEnd_blank text rfl]

/-- What is sent is cut into the text and what its lines tell. -/
theorem split_send (hsend : send text uploads = some raw) (h : ¬ attachmentMarker <:+: jsTrim text) :
    (splitBodyAndAttachments raw).body = jsTrim text ∧
    (splitBodyAndAttachments raw).attachments = if uploads = [] then [] else readBack uploads := by
  unfold send at hsend
  dsimp only at hsend
  by_cases huploads : uploads = []
  · rw [if_pos huploads]
    split at hsend
    · cases hsend
    · cases hsend
      rw [split_none h]
      exact ⟨rfl, rfl⟩
  · rw [if_neg (fun hnone => huploads hnone.2), if_neg huploads] at hsend
    rw [if_neg huploads]
    generalize htrailer : attachmentMarker ++ '\n' :: joinLines ['\n'] (uploads.map line) = suffix
    have hsuffix : attachmentMarker <+: suffix := ⟨_, htrailer⟩
    have hlines : ((suffix.drop attachmentMarker.length).splitOn '\n').filterMap parseLine = readBack uploads := by
      rw [← htrailer, List.drop_left]
      rfl
    by_cases hbody : jsTrim text = []
    · rw [if_pos hbody, hbody, List.nil_append, List.nil_append, htrailer] at hsend
      cases hsend
      rw [split_some (breakOn_start hsuffix), hlines, hbody]
      exact ⟨rfl, rfl⟩
    · rw [if_neg hbody, List.append_assoc, htrailer] at hsend
      cases hsend
      rw [split_trailer h hsuffix, hlines]
      exact ⟨List.rdropWhile_idempotent _ _, rfl⟩

theorem send_starts (hsend : send text uploads = some raw) : ∃ rest, raw = jsTrim text ++ rest := by
  unfold send at hsend
  dsimp only at hsend
  split at hsend
  · cases hsend
  · split at hsend
    · cases hsend
      exact ⟨[], (List.append_nil _).symm⟩
    · cases hsend
      simp only [List.append_assoc]
      exact ⟨_, rfl⟩

theorem send_iff (hsend : send text uploads = some raw) :
    Holds raw text (uploads.map parsed) ↔ Plain text ∧ ∀ u ∈ uploads, Legible u := by
  have hmarked (h : attachmentMarker <:+: jsTrim text) : (splitBodyAndAttachments raw).body ≠ text := by
    obtain ⟨rest, rfl⟩ := send_starts hsend
    intro hbody
    have hshort := split_shorter h rest
    rw [hbody] at hshort
    exact absurd (jsTrim_length text) (by omega)
  constructor
  · rintro ⟨hbody, hattachments⟩
    have hmarker : ¬ attachmentMarker <:+: jsTrim text := fun h => hmarked h hbody
    obtain ⟨hsplit, hread⟩ := split_send hsend hmarker
    have htrimmed : jsTrim text = text := hsplit.symm.trans hbody
    refine ⟨⟨htrimmed, by rwa [htrimmed] at hmarker⟩, ?_⟩
    by_cases huploads : uploads = []
    · simp [huploads]
    · rw [hread, if_neg huploads] at hattachments
      exact (readBack_iff huploads).mp hattachments
  · rintro ⟨⟨htrimmed, hmarker⟩, hlegible⟩
    obtain ⟨hsplit, hread⟩ := split_send hsend (by rwa [htrimmed])
    refine ⟨hsplit.trans htrimmed, ?_⟩
    rw [hread]
    by_cases huploads : uploads = []
    · simp [huploads]
    · rw [if_neg huploads]
      exact (readBack_iff huploads).mpr hlegible

theorem nonblank_of_mem {t : Text} {c : Char} (hin : c ∈ t) (hc : isWhitespace c = false) :
    (trim t).isEmpty = false := by
  have hdrop : c ∈ t.dropWhile isWhitespace := by
    rw [← List.takeWhile_append_dropWhile (p := isWhitespace) (l := t)] at hin
    rcases List.mem_append.mp hin with hin | hin
    · rw [List.mem_takeWhile_imp hin] at hc
      cases hc
    · exact hin
  rw [List.isEmpty_eq_false_iff]
  intro htrim
  rw [List.rdropWhile_eq_nil_iff.mp htrim c hdrop] at hc
  cases hc

/-- The body that is sent with a trailer is stored. -/
theorem nonblank_trailer (h : attachmentMarker <+: suffix) (before : Text) :
    (trim (before ++ suffix)).isEmpty = false := by
  have hin : 'A' ∈ suffix := h.subset (by decide)
  exact nonblank_of_mem (List.mem_append_right _ hin) (by decide)

theorem stored_trailer (hbreak : breakOn attachmentMarker raw = some (before, suffix)) (hne : draft ≠ jsTrimEnd before) :
    storedAfter raw draft = draft ++ "\n\n".toList ++ suffix := by
  unfold storedAfter commitEdit
  rw [split_some hbreak]
  dsimp only
  rw [if_neg hne]
  dsimp only [updateItem]
  rw [nonblank_trailer (breakOn_some hbreak).2, if_neg Bool.false_ne_true]

theorem stored_bare (hraw : ¬ attachmentMarker <:+: raw) (hne : draft ≠ raw) :
    storedAfter raw draft = updateItem raw draft := by
  unfold storedAfter commitEdit
  rw [split_none hraw]
  dsimp only
  rw [if_neg hne]

theorem edit_trailer (hbreak : breakOn attachmentMarker raw = some (before, suffix)) (hne : draft ≠ jsTrimEnd before) :
    Holds (storedAfter raw draft) draft (splitBodyAndAttachments raw).attachments ↔
      ¬ attachmentMarker <:+: draft ∧ jsTrimEnd draft = draft := by
  rw [stored_trailer hbreak hne, split_some hbreak]
  constructor
  · rintro ⟨hbody, -⟩
    have hmarker : ¬ attachmentMarker <:+: draft := by
      intro hmarker
      have hshort := split_shorter hmarker ("\n\n".toList ++ suffix)
      rw [← List.append_assoc, hbody] at hshort
      exact absurd hshort (lt_irrefl _)
    rw [split_trailer hmarker (breakOn_some hbreak).2] at hbody
    exact ⟨hmarker, hbody⟩
  · rintro ⟨hmarker, htrimmed⟩
    rw [Holds, split_trailer hmarker (breakOn_some hbreak).2]
    exact ⟨htrimmed, rfl⟩

theorem edit_bare (hraw : ¬ attachmentMarker <:+: raw) (hne : draft ≠ raw) :
    Holds (storedAfter raw draft) draft [] ↔ ¬ attachmentMarker <:+: draft ∧ (trim draft).isEmpty = false := by
  rw [stored_bare hraw hne, updateItem]
  cases hblank : (trim draft).isEmpty with
  | true =>
    rw [if_pos rfl, Holds, split_none hraw]
    simp [hne.symm]
  | false =>
    rw [if_neg Bool.false_ne_true]
    constructor
    · rintro ⟨hbody, -⟩
      refine ⟨?_, rfl⟩
      intro hmarker
      have hshort := split_shorter hmarker []
      rw [List.append_nil, hbody] at hshort
      exact absurd hshort (lt_irrefl _)
    · rintro ⟨hmarker, -⟩
      rw [Holds, split_none hmarker]
      exact ⟨rfl, rfl⟩

theorem edit_iff (raw draft : Text) :
    Holds (storedAfter raw draft) draft (splitBodyAndAttachments raw).attachments ↔ Editable raw draft := by
  by_cases hsame : draft = (splitBodyAndAttachments raw).body
  · have hstored : storedAfter raw draft = raw := by
      unfold storedAfter commitEdit
      dsimp only
      rw [if_pos hsame]
    rw [hstored]
    exact ⟨fun _ => .unchanged hsame, fun _ => ⟨hsame.symm, rfl⟩⟩
  · cases hbreak : breakOn attachmentMarker raw with
    | none =>
      have hraw := breakOn_none.mp hbreak
      rw [split_none hraw] at hsame ⊢
      rw [edit_bare hraw hsame]
      constructor
      · rintro ⟨hmarker, hnonblank⟩
        exact .changed hmarker (fun h => absurd h hraw) (fun _ => hnonblank)
      · intro heditable
        cases heditable with
        | unchanged h =>
          rw [split_none hraw] at h
          exact absurd h hsame
        | changed hmarker htrailer hbare => exact ⟨hmarker, hbare hraw⟩
    | some s =>
      obtain ⟨before, suffix⟩ := s
      have hraw : attachmentMarker <:+: raw := by
        by_contra hraw
        rw [breakOn_none.mpr hraw] at hbreak
        cases hbreak
      have hne : draft ≠ jsTrimEnd before := by rwa [split_some hbreak] at hsame
      rw [edit_trailer hbreak hne]
      constructor
      · rintro ⟨hmarker, htrimmed⟩
        exact .changed hmarker (fun _ => htrimmed) (fun h => absurd hraw h)
      · intro heditable
        cases heditable with
        | unchanged h => exact absurd h hsame
        | changed hmarker htrailer hbare => exact ⟨hmarker, htrailer hraw⟩

end Trailers

section Produced

open Uploads (createPart join hyphenated isSafeId isSafeId_hyphenated portable_of_mem_sanitizeFilename
  Portable sanitizeFilename sanitized_component join_single isSafeId_single)

variable {beyond : Char → Bool} {root : Text} {d d' : Uploads.Disk} {p : Uploads.Part}

theorem createPart_path (h : createPart beyond root d p = (.stored u, d')) :
    u.path = root ++ '/' :: hyphenated p.id ++ '/' :: sanitizeFilename beyond p.original ∧
      u.contentType = p.declared := by
  have hpath : join (join root (hyphenated p.id)) (sanitizeFilename beyond p.original) =
      root ++ '/' :: hyphenated p.id ++ '/' :: sanitizeFilename beyond p.original := by
    rw [join_single (sanitized_component _).single, join_single (isSafeId_single (isSafeId_hyphenated p.id))]
  unfold createPart at h
  dsimp only at h
  repeat' split at h
  all_goals cases h
  exact ⟨hpath, rfl⟩

theorem lineTerminator_cases {c : Char} (h : lineTerminator c = true) : c ∈ ['\n', '\r', '\u2028', '\u2029'] := by
  have hcode : c.toNat = 10 ∨ c.toNat = 13 ∨ c.toNat = 0x2028 ∨ c.toNat = 0x2029 := by simpa [lineTerminator] using h
  rw [← Char.ofNat_toNat c]
  rcases hcode with hcode | hcode | hcode | hcode <;> rw [hcode] <;> decide

theorem lineTerminator_of_not_mem {c : Char} (h : c ∉ ['\n', '\r', '\u2028', '\u2029']) : lineTerminator c = false := by
  by_contra hterm
  exact h (lineTerminator_cases (by simpa using hterm))

theorem alphanum_inLine {c : Char} (h : c.isAlphanum = true) : lineTerminator c = false := by
  refine lineTerminator_of_not_mem (fun hcase => ?_)
  simp only [List.mem_cons, List.not_mem_nil, or_false] at hcase
  rcases hcase with rfl | rfl | rfl | rfl <;> exact absurd h (by decide)

theorem portable_inLine (hbeyond : ∀ c, lineTerminator c = true → beyond c = false) {c : Char} (h : Portable beyond c) :
    lineTerminator c = false := by
  rcases h with halnum | hthree
  · unfold Uploads.isAlphanumeric at halnum
    split at halnum
    · exact alphanum_inLine halnum
    · by_contra hterm
      rw [hbeyond c (by simpa using hterm)] at halnum
      cases halnum
  · refine lineTerminator_of_not_mem (fun hcase => ?_)
    simp only [List.mem_cons, List.not_mem_nil, or_false] at hthree
    rcases hthree with rfl | rfl | rfl <;> exact absurd hcase (by decide)

/-- The line of an upload is readable just where the directory is in one line and the declared type has no group of its
own. No letter beyond ASCII ends a line. -/
theorem produced_legible (hbeyond : ∀ c, lineTerminator c = true → beyond c = false)
    (h : createPart beyond root d p = (.stored u, d')) (htype : p.declared ≠ []) :
    Legible u ↔ (∀ c ∈ root, lineTerminator c = false) ∧ '\n' ∉ p.declared ∧ Lone p.declared := by
  obtain ⟨hpath, hdeclared⟩ := createPart_path h
  have hname : ∀ c ∈ sanitizeFilename beyond p.original, lineTerminator c = false :=
    fun c hc => portable_inLine hbeyond (portable_of_mem_sanitizeFilename hc)
  have hid : ∀ c ∈ hyphenated p.id, lineTerminator c = false := by
    intro c hc
    have hsafe := isSafeId_hyphenated p.id
    unfold isSafeId at hsafe
    have hall := List.all_eq_true.mp (Bool.and_eq_true_iff.mp hsafe).2 c hc
    rcases Bool.or_eq_true_iff.mp hall with halnum | hdash
    · exact alphanum_inLine halnum
    · rw [beq_iff_eq.mp hdash]
      decide
  have hinLine : (∀ c ∈ u.path, lineTerminator c = false) ↔ ∀ c ∈ root, lineTerminator c = false := by
    rw [hpath]
    simp only [List.forall_mem_append, List.forall_mem_cons]
    have hslash : lineTerminator '/' = false := by decide
    exact ⟨fun h => h.1.1, fun h => ⟨⟨h, hslash, hid⟩, hslash, hname⟩⟩
  constructor
  · intro hlegible
    cases hlegible with
    | typed _ hline hnewline hlone => exact ⟨hinLine.mp hline, hdeclared ▸ hnewline, hdeclared ▸ hlone⟩
    | untyped hnone => exact absurd (hdeclared ▸ hnone) htype
  · rintro ⟨hline, hnewline, hlone⟩
    rw [← hdeclared] at htype hnewline hlone
    exact .typed htype (hinLine.mpr hline) hnewline hlone

end Produced

/-- What is sent gives back the text, if it was trimmed and free of the marker, and the uploads, if their lines are
readable; and an edit gives back the new text with them just where it is `Editable`. -/
theorem attachments_survive_iff (raw draft : Text) :
    (∀ text uploads, send text uploads = some raw →
      (Holds raw text (uploads.map parsed) ↔ Plain text ∧ ∀ u ∈ uploads, Legible u)) ∧
    (Holds (storedAfter raw draft) draft (splitBodyAndAttachments raw).attachments ↔ Editable raw draft) :=
  ⟨fun _ _ => send_iff, edit_iff raw draft⟩

/-- A message that quotes the marker, with nothing attached. -/
def quoting : Text := "Why \"Attached files (absolute paths, read with your Read tool):\"?\n- is it here".toList

theorem quoted_marker_cut : send quoting [] = some quoting ∧
    splitBodyAndAttachments quoting = ⟨"Why \"".toList, [⟨"is it here".toList, none⟩],
      some "Attached files (absolute paths, read with your Read tool):\"?\n- is it here".toList⟩ ∧
    ¬ Holds quoting quoting [] := by
  have hsplit : splitBodyAndAttachments quoting = ⟨"Why \"".toList, [⟨"is it here".toList, none⟩],
      some "Attached files (absolute paths, read with your Read tool):\"?\n- is it here".toList⟩ := by decide +kernel
  refine ⟨by decide +kernel, hsplit, ?_⟩
  rintro ⟨-, hattachments⟩
  rw [hsplit] at hattachments
  cases hattachments

end AgentGrove.Attachments
