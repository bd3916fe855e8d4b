import AgentGrove.Wire.Search
import AgentGrove.Wire.Utf8

namespace Percent

open Utf8 (Bytes)

def hexDigit (n : Nat) : Char := Char.ofNat (if n < 10 then 0x30 + n else 0x37 + n)

def hexValue (c : Char) : Option Nat :=
  if '0' ≤ c ∧ c ≤ '9' then some (c.toNat - 0x30)
  else if 'A' ≤ c ∧ c ≤ 'F' then some (c.toNat - 0x37)
  else if 'a' ≤ c ∧ c ≤ 'f' then some (c.toNat - 0x57)
  else none

def escape (b : UInt8) : List Char := ['%', hexDigit (b.toNat / 16), hexDigit (b.toNat % 16)]

/-- Characters that need not be kept as they are become the escapes of their bytes. -/
def encodeWith (keep : Char → Bool) (t : List Char) : List Char :=
  t.flatMap fun c => if keep c then [c] else (String.utf8EncodeChar c).flatMap escape

/-- The byte that two digits stand for. -/
def escaped : List Char → Option UInt8
  | a :: b :: _ => (hexValue a).bind fun x => (hexValue b).map fun y => UInt8.ofNat (16 * x + y)
  | _ => none

/-- Decode behind so many characters. -/
def decodeFrom : Nat → List Char → Bytes
  | _, [] => []
  | skip + 1, _ :: t => decodeFrom skip t
  | 0, c :: t =>
    if c = '%' then
      match escaped t with
      | some b => b :: decodeFrom 2 t
      | none => String.utf8EncodeChar c ++ decodeFrom 0 t
    else String.utf8EncodeChar c ++ decodeFrom 0 t

/-- What is no escape stands for itself. -/
def decode (t : List Char) : Bytes := decodeFrom 0 t

section Decoding

variable {keep other : Char → Bool}

theorem hexValue_hexDigit {n : Nat} (h : n < 16) : hexValue (hexDigit n) = some n := by
  have hall : ∀ n < 16, hexValue (hexDigit n) = some n := by decide
  exact hall n h

theorem escaped_escape (b : UInt8) (rest : List Char) :
    escaped (hexDigit (b.toNat / 16) :: hexDigit (b.toNat % 16) :: rest) = some b := by
  have hb := b.toNat_lt
  have hhigh : b.toNat / 16 < 16 := by omega
  have hlow : b.toNat % 16 < 16 := by omega
  rw [escaped, hexValue_hexDigit hhigh, hexValue_hexDigit hlow, Option.bind_some, Option.map_some, Nat.div_add_mod,
    UInt8.ofNat_toNat]

theorem decode_escape (b : UInt8) (rest : List Char) : decode (escape b ++ rest) = b :: decode rest := by
  simp [decode, escape, decodeFrom, escaped_escape]

theorem decode_escapes (bs : Bytes) (rest : List Char) : decode (bs.flatMap escape ++ rest) = bs ++ decode rest := by
  induction bs with
  | nil => rfl
  | cons b bs ih => rw [List.flatMap_cons, List.append_assoc, decode_escape, ih, List.cons_append]

theorem decode_cons {c : Char} (h : c ≠ '%') (t : List Char) :
    decode (c :: t) = String.utf8EncodeChar c ++ decode t := by
  rw [decode, decodeFrom, if_neg h]
  rfl

/-- Whatever is escaped is read back, if the escape itself is. -/
theorem decode_encodeWith (hkeep : keep '%' = false) (t : List Char) : decode (encodeWith keep t) = Utf8.encode t := by
  unfold encodeWith Utf8.encode
  induction t with
  | nil => rfl
  | cons c t ih =>
    rw [List.flatMap_cons, List.flatMap_cons]
    cases hc : keep c with
    | true =>
      have hne : c ≠ '%' := by
        rintro rfl
        rw [hkeep] at hc
        cases hc
      rw [if_pos rfl, List.singleton_append, decode_cons hne, ih]
    | false => rw [if_neg Bool.false_ne_true, decode_escapes, ih]

theorem encodeWith_append (t u : List Char) : encodeWith keep (t ++ u) = encodeWith keep t ++ encodeWith keep u :=
  List.flatMap_append

theorem encodeWith_kept {t : List Char} (h : ∀ c ∈ t, keep c = true) : encodeWith keep t = t := by
  unfold encodeWith
  induction t with
  | nil => rfl
  | cons c t ih =>
    obtain ⟨hc, ht⟩ := List.forall_mem_cons.mp h
    rw [List.flatMap_cons, if_pos hc, ih ht, List.singleton_append]

/-- The characters of escapes. -/
def Escaping (keep : Char → Bool) : Prop := keep '%' = true ∧ ∀ n < 16, keep (hexDigit n) = true

theorem Escaping.escapes (h : Escaping keep) (bs : Bytes) : ∀ c ∈ bs.flatMap escape, keep c = true := by
  intro c hc
  obtain ⟨b, -, hc⟩ := List.mem_flatMap.mp hc
  have hb := b.toNat_lt
  simp only [escape, List.mem_cons, List.not_mem_nil, or_false] at hc
  rcases hc with rfl | rfl | rfl
  · exact h.1
  · exact h.2 _ (by omega)
  · exact h.2 _ (by omega)

/-- An encoding of what is encoded already leaves its escapes alone. -/
theorem encodeWith_encodeWith (h : Escaping other) (t : List Char) :
    encodeWith other (encodeWith keep t) = encodeWith (fun c => keep c && other c) t := by
  induction t with
  | nil => rfl
  | cons c t ih =>
    have hcons : ∀ keep : Char → Bool, encodeWith keep (c :: t) =
        (if keep c then [c] else (String.utf8EncodeChar c).flatMap escape) ++ encodeWith keep t := fun _ => rfl
    rw [hcons, encodeWith_append, ih, hcons]
    cases hc : keep c with
    | true => simp [encodeWith]
    | false => simp [encodeWith_kept (h.escapes _)]

/-- What is kept or belongs to an escape. -/
theorem mem_encodeWith {c : Char} {t : List Char} (h : c ∈ encodeWith keep t) :
    keep c = true ∨ c = '%' ∨ ∃ n < 16, c = hexDigit n := by
  obtain ⟨d, -, hd⟩ := List.mem_flatMap.mp h
  split at hd
  · rename_i hkeep
    rw [List.mem_singleton.mp hd]
    exact Or.inl hkeep
  · obtain ⟨b, -, hb⟩ := List.mem_flatMap.mp hd
    have hlt := b.toNat_lt
    simp only [escape, List.mem_cons, List.not_mem_nil, or_false] at hb
    rcases hb with rfl | rfl | rfl
    · exact Or.inr (Or.inl rfl)
    · exact Or.inr (Or.inr ⟨_, by omega, rfl⟩)
    · exact Or.inr (Or.inr ⟨_, by omega, rfl⟩)

end Decoding

end Percent

namespace Url

open Utf8 (Bytes)
open Percent

section Components

/-- What `encodeURIComponent` leaves alone. -/
def unreserved (c : Char) : Bool := c.isAlphanum || "-_.!~*'()".toList.contains c

def encodeURIComponent (t : List Char) : List Char := encodeWith unreserved t

/-- How many bytes a character takes, by its first. -/
def width (b : UInt8) : Nat :=
  if b < 0x80 then 1 else if b < 0xC0 then 0 else if b < 0xE0 then 2 else if b < 0xF0 then 3 else if b < 0xF8 then 4
  else 0

/-- So many escapes in a row. -/
def octets : Nat → List Char → Option Bytes
  | 0, _ => some []
  | n + 1, t =>
    if t.head? = some '%' then (escaped t.tail).bind fun b => (octets n (t.drop 3)).map (b :: ·) else none

/-- The character that escapes stand for, and how many of them do. -/
def charAt (t : List Char) : Option (Char × Nat) :=
  (escaped t.tail).bind fun b => (octets (width b) t).bind fun bs =>
    match Utf8.fromUtf8 bs with
    | some [c] => some (c, bs.length)
    | _ => none

/-- Decode behind so many characters; escapes that are no UTF-8 are an error. -/
def componentFrom : Nat → List Char → Option (List Char)
  | _, [] => some []
  | skip + 1, _ :: t => componentFrom skip t
  | 0, c :: t =>
    if c = '%' then (charAt (c :: t)).bind fun d => (componentFrom (3 * d.2 - 1) t).map (d.1 :: ·)
    else (componentFrom 0 t).map (c :: ·)

def decodeURIComponent (t : List Char) : Option (List Char) := componentFrom 0 t

example : decodeURIComponent (encodeURIComponent "/a b/é%€".toList) = some "/a b/é%€".toList := by decide +kernel

theorem decodeURIComponent_plain {t : List Char} (h : '%' ∉ t) : decodeURIComponent t = some t := by
  unfold decodeURIComponent
  induction t with
  | nil => rfl
  | cons c t ih =>
    rw [List.mem_cons, not_or] at h
    rw [componentFrom, if_neg (fun hc => h.1 hc.symm), ih h.2, Option.map_some]

theorem charAt_some {c : Char} {t : List Char} {d : Char × Nat} (h : charAt (c :: t) = some d) :
    0 < t.length ∧ 0 < d.2 := by
  obtain ⟨b, hb, h⟩ := Option.bind_eq_some_iff.mp h
  obtain ⟨bs, -, h⟩ := Option.bind_eq_some_iff.mp h
  refine ⟨List.length_pos_iff.mpr ?_, ?_⟩
  · rintro rfl
    cases hb
  · cases bs with
    | nil => cases h
    | cons b bs =>
      split at h
      · cases h
        exact Nat.succ_pos _
      · cases h

theorem length_componentFrom {skip : Nat} {t u : List Char} (h : componentFrom skip t = some u) :
    u.length ≤ t.length - skip := by
  induction t generalizing skip u with
  | nil =>
    cases skip <;> cases h <;> exact Nat.zero_le _
  | cons c t ih =>
    cases skip with
    | succ skip =>
      have hu := ih h
      rw [List.length_cons]
      omega
    | zero =>
      rw [componentFrom] at h
      split at h
      · obtain ⟨d, hd, hu⟩ := Option.bind_eq_some_iff.mp h
        obtain ⟨v, hv, rfl⟩ := Option.map_eq_some_iff.mp hu
        have hlength := ih hv
        rw [List.length_cons, List.length_cons]
        omega
      · obtain ⟨v, hv, rfl⟩ := Option.map_eq_some_iff.mp h
        have hlength := ih hv
        rw [List.length_cons, List.length_cons]
        omega

/-- Where something is decoded, the text gets shorter. -/
theorem length_decodeURIComponent {t u : List Char} (h : decodeURIComponent t = some u) (hmem : '%' ∈ t) :
    u.length < t.length := by
  unfold decodeURIComponent at h
  induction t generalizing u with
  | nil => cases hmem
  | cons c t ih =>
    rw [componentFrom] at h
    split at h
    · obtain ⟨d, hd, hu⟩ := Option.bind_eq_some_iff.mp h
      obtain ⟨v, hv, rfl⟩ := Option.map_eq_some_iff.mp hu
      have hlength := length_componentFrom hv
      obtain ⟨htail, hwidth⟩ := charAt_some hd
      rw [List.length_cons, List.length_cons]
      omega
    · rename_i hc
      obtain ⟨v, hv, rfl⟩ := Option.map_eq_some_iff.mp h
      have htail : '%' ∈ t := (List.mem_cons.mp hmem).resolve_left fun he => hc he.symm
      exact Nat.succ_lt_succ (ih hv htail)

end Components

section Queries

/-- What is not encoded in the query of an address. -/
def inQuery (c : Char) : Bool := '!' ≤ c && c ≤ '~' && !"\"#<>'".toList.contains c

def plusToSpace (c : Char) : Char := if c = '+' then ' ' else c

def formDecode (t : List Char) : List Char := Utf8.fromUtf8Lossy (decode (t.map plusToSpace))

def parameter (t : List Char) : List Char × List Char :=
  (formDecode (t.takeWhile (· ≠ '=')), formDecode ((t.dropWhile (· ≠ '=')).drop 1))

/-- `URLSearchParams`. -/
def searchParams (search : List Char) : List (List Char × List Char) :=
  let query := if search.head? = some '?' then search.tail else search
  ((query.splitOn '&').filter (fun t => !t.isEmpty)).map parameter

/-- What a browser makes of an address of its own site: the path, and the query with its question mark unless it is
empty. A path that has only characters that need no encoding and no `.` or `..` in it stays as it is. -/
def location (url : List Char) : List Char × List Char :=
  let whole := url.takeWhile (· ≠ '#')
  let query := (whole.dropWhile (· ≠ '?')).drop 1
  (whole.takeWhile (· ≠ '?'), if query = [] then [] else '?' :: encodeWith inQuery query)

/-- Parameters as they are written, one after the other. -/
def query (ps : List (List Char × List Char)) : List Char := ['&'].intercalate (ps.map fun p => p.1 ++ '=' :: p.2)

def encodeBoth (encode : List Char → List Char) (ps : List (List Char × List Char)) : List (List Char × List Char) :=
  ps.map fun p => (encode p.1, encode p.2)

variable {ps : List (List Char × List Char)} {keep : Char → Bool} {c : Char} {path t : List Char}

theorem not_mem_encodeWith (h : (keep c || c = '%' || (List.range 16).any (fun n => c = hexDigit n)) = false) :
    c ∉ encodeWith keep t := by
  intro hc
  simp only [Bool.or_eq_false_iff, decide_eq_false_iff_not, List.any_eq_false, List.mem_range,
    decide_eq_true_eq] at h
  obtain hk | hp | ⟨n, hn, hx⟩ := mem_encodeWith hc
  · rw [h.1.1] at hk
    cases hk
  · exact h.1.2 hp
  · exact h.2 n hn hx

theorem escaping_inQuery : Escaping inQuery := ⟨by decide, by decide⟩

/-- What a component is in the query of an address. -/
theorem encodeWith_component : encodeWith inQuery (encodeURIComponent t) =
    encodeWith (fun c => unreserved c && inQuery c) t :=
  encodeWith_encodeWith escaping_inQuery t

/-- What is escaped is read back from a form, if the blank of forms is escaped too. -/
theorem formDecode_encodeWith (hpercent : keep '%' = false) (hplus : keep '+' = false) :
    formDecode (encodeWith keep t) = t := by
  have hmem : '+' ∉ encodeWith keep t := by
    refine not_mem_encodeWith ?_
    rw [hplus]
    decide
  have hmap : (encodeWith keep t).map plusToSpace = encodeWith keep t := by
    refine (List.map_congr_left fun c hc => if_neg ?_).trans (List.map_id _)
    rintro rfl
    exact hmem hc
  rw [formDecode, hmap, decode_encodeWith hpercent, Utf8.fromUtf8Lossy_encode]

theorem formDecode_component : formDecode (encodeWith inQuery (encodeURIComponent t)) = t := by
  have hplus : (encodeWith inQuery (encodeURIComponent t)).map plusToSpace =
      encodeWith inQuery (encodeURIComponent t) := by
    refine (List.map_congr_left fun c hc => if_neg ?_).trans (List.map_id _)
    rintro rfl
    rw [encodeWith_component] at hc
    exact not_mem_encodeWith (by decide) hc
  rw [formDecode, hplus, encodeWith_component, decode_encodeWith (by decide), Utf8.fromUtf8Lossy_encode]

theorem encodeWith_query : encodeWith inQuery (query ps) = query (encodeBoth (encodeWith inQuery) ps) := by
  have hpair : ∀ p : List Char × List Char, encodeWith inQuery (p.1 ++ '=' :: p.2) =
      encodeWith inQuery p.1 ++ '=' :: encodeWith inQuery p.2 := fun p => encodeWith_append _ _
  unfold query encodeBoth
  induction ps with
  | nil => rfl
  | cons p ps ih =>
    cases ps with
    | nil => simp [hpair]
    | cons q ps =>
      simp only [List.map_cons, List.intercalate_cons_cons] at ih ⊢
      rw [encodeWith_append, encodeWith_append, ih, hpair]
      rfl

theorem parameter_eq {name value : List Char} (h : '=' ∉ name) :
    parameter (name ++ '=' :: value) = (formDecode name, formDecode value) := by
  rw [parameter, Search.takeWhile_sep h, Search.dropWhile_sep h, List.drop_one, List.tail_cons]

theorem searchParams_query (h : ∀ p ∈ ps, '=' ∉ p.1 ∧ '&' ∉ p.1 ∧ '&' ∉ p.2) (hps : ps ≠ []) :
    searchParams ('?' :: query ps) = encodeBoth formDecode ps := by
  have hsplit : (query ps).splitOn '&' = ps.map fun p => p.1 ++ '=' :: p.2 := by
    refine List.splitOn_intercalate '&' ?_ (by simpa using hps)
    intro t ht
    obtain ⟨p, hp, rfl⟩ := List.mem_map.mp ht
    simp [(h p hp).2]
  have hall : (ps.map fun p => p.1 ++ '=' :: p.2).filter (fun t => !t.isEmpty) = ps.map fun p => p.1 ++ '=' :: p.2 := by
    refine List.filter_eq_self.mpr fun t ht => ?_
    obtain ⟨p, -, rfl⟩ := List.mem_map.mp ht
    simp
  unfold searchParams
  simp only [List.head?_cons, if_true, List.tail_cons]
  rw [hsplit, hall, List.map_map]
  exact List.map_congr_left fun p hp => parameter_eq (h p hp).1

theorem searchParams_append (s u : List Char) :
    searchParams ('?' :: (s ++ '&' :: u)) = searchParams ('?' :: s) ++ searchParams ('?' :: u) := by
  simp [searchParams, List.splitOn_append_cons_self]

theorem mem_query (h : c ∈ query ps) : c = '&' ∨ c = '=' ∨ ∃ p ∈ ps, c ∈ p.1 ∨ c ∈ p.2 := by
  unfold query at h
  induction ps with
  | nil => cases h
  | cons p ps ih =>
    have hpair : c ∈ p.1 ++ '=' :: p.2 → c = '&' ∨ c = '=' ∨ ∃ q ∈ p :: ps, c ∈ q.1 ∨ c ∈ q.2 := by
      intro h
      rcases List.mem_append.mp h with h | h
      · exact Or.inr (Or.inr ⟨p, List.mem_cons_self, Or.inl h⟩)
      · rcases List.mem_cons.mp h with rfl | h
        · exact Or.inr (Or.inl rfl)
        · exact Or.inr (Or.inr ⟨p, List.mem_cons_self, Or.inr h⟩)
    cases ps with
    | nil => exact hpair (by simpa using h)
    | cons q ps =>
      rw [List.map_cons, List.map_cons, List.intercalate_cons_cons, List.append_assoc] at h
      rcases List.mem_append.mp h with h | h
      · exact hpair h
      · rcases List.mem_cons.mp h with rfl | h
        · exact Or.inl rfl
        · obtain h | h | ⟨r, hr, h⟩ := ih h
          · exact Or.inl h
          · exact Or.inr (Or.inl h)
          · exact Or.inr (Or.inr ⟨r, List.mem_cons_of_mem _ hr, h⟩)

theorem fragment_not_mem : '#' ∉ query (encodeBoth encodeURIComponent ps) := by
  intro h
  obtain h | h | ⟨p, hp, h⟩ := mem_query h
  · exact absurd h (by decide)
  · exact absurd h (by decide)
  · obtain ⟨q, -, rfl⟩ := List.mem_map.mp hp
    rcases h with h | h <;> exact not_mem_encodeWith (by decide) h

theorem query_ne_nil (h : ps ≠ []) : query ps ≠ [] := by
  obtain ⟨p, ps, rfl⟩ := List.exists_cons_of_ne_nil h
  unfold query
  cases ps with
  | nil => simp
  | cons q ps => simp [List.intercalate_cons_cons]

/-- Parameters of which each part is encoded by itself are read from the address as they were. -/
theorem searchParams_location (hquestion : '?' ∉ path) (hfragment : '#' ∉ path) (hps : ps ≠ []) :
    let place := location (path ++ '?' :: query (encodeBoth encodeURIComponent ps))
    place.1 = path ∧ searchParams place.2 = ps := by
  have hne : encodeBoth encodeURIComponent ps ≠ [] := by simpa [encodeBoth] using hps
  have hwhole : (path ++ '?' :: query (encodeBoth encodeURIComponent ps)).takeWhile (· ≠ '#') =
      path ++ '?' :: query (encodeBoth encodeURIComponent ps) := by
    refine Search.takeWhile_none ?_
    rw [List.mem_append, List.mem_cons, not_or, not_or]
    exact ⟨hfragment, by decide, fragment_not_mem⟩
  unfold location
  simp only [hwhole, Search.takeWhile_sep hquestion, Search.dropWhile_sep hquestion, List.drop_one, List.tail_cons]
  rw [if_neg (query_ne_nil hne), encodeWith_query, searchParams_query _ (by simpa [encodeBoth] using hps)]
  · refine ⟨trivial, ?_⟩
    simp only [encodeBoth, List.map_map]
    refine (List.map_congr_left fun p _ => ?_).trans (List.map_id ps)
    simp [formDecode_component]
  · intro p hp
    simp only [encodeBoth, List.map_map, List.mem_map, Function.comp_apply] at hp
    obtain ⟨q, -, rfl⟩ := hp
    dsimp only
    simp only [encodeWith_component]
    exact ⟨not_mem_encodeWith (by decide), not_mem_encodeWith (by decide), not_mem_encodeWith (by decide)⟩

end Queries

end Url
