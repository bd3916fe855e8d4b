import AgentGrove.Model.WorkTree

namespace AgentGrove.Git

open Utf8 (Bytes fromUtf8Lossy)

/-- What one record has in its first field: two codes, one more byte, and a path. -/
structure Head where
  x : UInt8
  y : UInt8
  sep : UInt8
  path : Bytes
  nulFree : 0 ∉ x :: y :: sep :: path

def Head.bytes (h : Head) : Bytes := h.x :: h.y :: h.sep :: h.path

def Head.renames (h : Head) : Bool := Git.renames (.ofUInt8 h.x) (.ofUInt8 h.y)

def Head.entry (h : Head) (orig : Option Bytes) : StatusEntry :=
  ⟨fromUtf8Lossy h.path, orig.map fromUtf8Lossy, .ofUInt8 h.x, .ofUInt8 h.y⟩

/-- A record whose fields are all terminated. The second field of a rename is whatever stands there. -/
structure Piece where
  head : Head
  orig : Option Bytes
  origNulFree : ∀ o ∈ orig, 0 ∉ o
  arity : orig.isSome = head.renames

def Piece.bytes (p : Piece) : Bytes := p.head.bytes ++ 0 :: (p.orig.map (fun o => o ++ [0])).getD []

def Piece.entry (p : Piece) : StatusEntry := p.head.entry p.orig

/-- What can stand behind the last of them. -/
inductive Rest where
  | empty
  /-- Too short to be read. -/
  | scrap (bytes : Bytes) (h : bytes.length < 3)
  | cut (head : Head)
  /-- A rename whose original path is missing. -/
  | lone (head : Head) (h : head.renames = true)
  | cutOrig (head : Head) (h : head.renames = true) (orig : Bytes) (ho : orig ≠ [] ∧ 0 ∉ orig)

def Rest.bytes : Rest → Bytes
  | .empty => []
  | .scrap bytes _ => bytes
  | .cut head => head.bytes
  | .lone head _ => head.bytes ++ [0]
  | .cutOrig head _ orig _ => head.bytes ++ 0 :: orig

def Rest.entries : Rest → List StatusEntry
  | .empty | .scrap _ _ => []
  | .cut head | .lone head _ => [head.entry none]
  | .cutOrig head _ orig _ => [head.entry (some orig)]

section Fields

variable {pre p rest : Bytes} {buf : Bytes} {i : Nat}

/-- A field ends here. -/
def Ends (rest : Bytes) : Prop := rest.head? = some 0 ∨ rest = []

theorem findIdx_append (hp : 0 ∉ p) (hrest : Ends rest) :
    (match (p ++ rest).findIdx? (· == 0) with
      | some k => k
      | none => (p ++ rest).length) = p.length := by
  induction p with
  | nil =>
    cases rest with
    | nil => rfl
    | cons b rest =>
      have hb : b = 0 := by simpa [Ends] using hrest
      simp [hb, List.findIdx?_cons]
  | cons b p ih =>
    have hih := ih fun hm => hp (List.mem_cons_of_mem _ hm)
    have hne : (b == 0) = false := by
      rw [beq_eq_false_iff_ne]
      rintro rfl
      exact hp List.mem_cons_self
    rw [List.cons_append, List.findIdx?_cons, hne]
    cases hfind : (p ++ rest).findIdx? (· == 0) with
    | none =>
      rw [hfind] at hih
      simpa using hih
    | some k =>
      rw [hfind] at hih
      simpa using hih

theorem fieldEnd_append (hp : 0 ∉ p) (hrest : Ends rest) :
    fieldEnd (pre ++ (p ++ rest)) pre.length = some (pre.length + p.length) := by
  have hfind := findIdx_append hp hrest
  unfold fieldEnd
  rw [if_pos (by simp), List.drop_left]
  cases hk : (p ++ rest).findIdx? (· == 0) with
  | none =>
    rw [hk] at hfind
    dsimp only at hfind ⊢
    rw [List.length_append, hfind]
  | some k =>
    rw [hk] at hfind
    dsimp only at hfind ⊢
    rw [hfind]

/-- A field in the middle of a buffer. -/
theorem field_append (hp : 0 ∉ p) (hrest : Ends rest) :
    field (pre ++ (p ++ rest)) pre.length = some (fromUtf8Lossy p, pre.length + p.length) := by
  have hslice : slice (pre ++ (p ++ rest)) pre.length (pre.length + p.length) = some p := by
    unfold slice
    rw [if_pos ⟨Nat.le_add_right _ _, by simp⟩, List.drop_left, Nat.add_sub_cancel_left, List.take_left]
  simp [field, fieldEnd_append hp hrest, hslice]

/-- The first field of a record, and whether a second one is looked for. -/
theorem record_head (h : Head) (hrest : Ends rest) : record (pre ++ (h.bytes ++ rest)) pre.length =
    if h.renames then
      if pre.length + h.bytes.length + 1 < (pre ++ (h.bytes ++ rest)).length then do
        let (orig, stop) ← field (pre ++ (h.bytes ++ rest)) (pre.length + h.bytes.length + 1)
        return ({ h.entry none with origPath := some orig }, stop + 1)
      else some (h.entry none, pre.length + h.bytes.length + 1)
    else some (h.entry none, pre.length + h.bytes.length + 1) := by
  have hx : (pre ++ (h.bytes ++ rest))[pre.length]? = some h.x := by simp [Head.bytes]
  have hy : (pre ++ (h.bytes ++ rest))[pre.length + 1]? = some h.y := by
    simp [Head.bytes]
  have hfield : field (pre ++ (h.bytes ++ rest)) (pre.length + 3) =
      some (fromUtf8Lossy h.path, pre.length + h.bytes.length) := by
    have hp : 0 ∉ h.path := fun hm => h.nulFree (by simp [hm])
    have hsplit : pre ++ (h.bytes ++ rest) = (pre ++ [h.x, h.y, h.sep]) ++ (h.path ++ rest) := by
      simp [Head.bytes]
    have hlength : pre.length + 3 = (pre ++ [h.x, h.y, h.sep]).length := by simp
    rw [hsplit, hlength, field_append hp hrest]
    simp only [Head.bytes, List.length_append, List.length_cons, List.length_nil]
    congr 2
    omega
  unfold record
  rw [hx, hy, hfield]
  rfl

/-- A record without a second field, or at the end of the buffer. -/
theorem record_plain (h : Head) (hrest : Ends rest) (hlast : h.renames = false ∨ rest.length ≤ 1) :
    record (pre ++ (h.bytes ++ rest)) pre.length = some (h.entry none, pre.length + h.bytes.length + 1) := by
  rw [record_head h hrest]
  rcases hlast with hplain | hend
  · rw [hplain]
    rfl
  · have hstop : ¬ pre.length + h.bytes.length + 1 < (pre ++ (h.bytes ++ rest)).length := by
      simp only [List.length_append]
      omega
    rw [if_neg hstop, ite_self]

theorem record_orig {o : Bytes} (h : Head) (hren : h.renames = true) (ho : 0 ∉ o) (hrest : Ends rest)
    (hmore : o ++ rest ≠ []) : record (pre ++ (h.bytes ++ 0 :: (o ++ rest))) pre.length =
      some (h.entry (some o), pre.length + h.bytes.length + 1 + o.length + 1) := by
  have hpos := List.length_pos_iff.mpr hmore
  have hstop : pre.length + h.bytes.length + 1 < (pre ++ (h.bytes ++ 0 :: (o ++ rest))).length := by
    simp only [List.length_append, List.length_cons] at hpos ⊢
    omega
  have hsplit : pre ++ (h.bytes ++ 0 :: (o ++ rest)) = (pre ++ (h.bytes ++ [0])) ++ (o ++ rest) := by simp
  have hlength : pre.length + h.bytes.length + 1 = (pre ++ (h.bytes ++ [0])).length := by
    simp [Nat.add_assoc]
  rw [record_head h (.inl rfl), hren, if_pos rfl, if_pos hstop, hsplit, hlength, field_append ho hrest]
  rfl

theorem records_step {turns next : Nat} {e : StatusEntry} (h : record buf i = some (e, next))
    (hi : i + 3 ≤ buf.length) : records (turns + 1) buf i = (records turns buf next).map (e :: ·) := by
  rw [records, if_pos (by omega), if_neg (by omega), h]
  simp only [Option.bind_eq_bind, Option.bind_some]
  cases records turns buf next with
  | none => rfl
  | some es => rfl

theorem records_end {turns : Nat} (hi : buf.length ≤ i) : records turns buf i = some [] := by
  cases turns with
  | zero => rw [records, if_neg (by omega)]
  | succ turns => rw [records, if_neg (by omega)]

theorem Head.three_le (h : Head) : 3 ≤ h.bytes.length := by simp [Head.bytes]

/-- At a record all of whose fields are terminated the parser reads it, whatever follows. -/
theorem records_piece (p : Piece) (pre rest : Bytes) (turns : Nat) :
    records (turns + 1) (pre ++ (p.bytes ++ rest)) pre.length =
      (records turns (pre ++ p.bytes ++ rest) (pre ++ p.bytes).length).map (p.entry :: ·) := by
  obtain ⟨head, orig, hnul, harity⟩ := p
  have hthree := head.three_le
  cases orig with
  | none =>
    have hplain : head.renames = false := by simpa using harity.symm
    have hbuf : pre ++ (Piece.bytes ⟨head, none, hnul, harity⟩ ++ rest) = pre ++ (head.bytes ++ 0 :: rest) := by
      simp [Piece.bytes]
    have hrecord := @record_plain pre _ head (.inl rfl : Ends (0 :: rest)) (.inl hplain)
    rw [List.append_assoc, hbuf, records_step hrecord (by simp; omega)]
    congr 2
    simp [Piece.bytes, Nat.add_assoc]
  | some o =>
    have hren : head.renames = true := by simpa using harity.symm
    have hbuf : pre ++ (Piece.bytes ⟨head, some o, hnul, harity⟩ ++ rest) =
        pre ++ (head.bytes ++ 0 :: (o ++ 0 :: rest)) := by
      simp [Piece.bytes]
    have hrecord := @record_orig pre _ _ head hren (hnul o rfl) (.inl rfl : Ends (0 :: rest)) (by simp)
    rw [List.append_assoc, hbuf, records_step hrecord (by simp; omega)]
    congr 2
    simp [Piece.bytes]
    omega

/-- What stands behind the last of them. -/
theorem records_rest (t : Rest) (pre : Bytes) {turns : Nat} (hturns : t.bytes.length ≤ turns) :
    records turns (pre ++ t.bytes) pre.length = some t.entries := by
  cases t with
  | empty => exact records_end (by simp [Rest.bytes])
  | scrap bytes h =>
    cases turns with
    | zero =>
      have hnil : bytes = [] := by simpa [Rest.bytes] using hturns
      exact records_end (by simp [Rest.bytes, hnil])
    | succ turns =>
      rw [records]
      split
      · rw [if_pos (by simp [Rest.bytes]; omega)]
        rfl
      · rfl
  | cut head =>
    have hthree := head.three_le
    obtain ⟨n, rfl⟩ : ∃ n, turns = n + 1 := ⟨turns - 1, by simp only [Rest.bytes] at hturns; omega⟩
    have hrecord := @record_plain pre _ head (.inr rfl : Ends []) (.inr (by simp))
    rw [List.append_nil] at hrecord
    rw [Rest.bytes, records_step hrecord (by simp; omega), records_end (by simp)]
    rfl
  | lone head h =>
    have hthree := head.three_le
    obtain ⟨n, rfl⟩ : ∃ n, turns = n + 1 := ⟨turns - 1, by simp [Rest.bytes] at hturns; omega⟩
    have hrecord := @record_plain pre _ head (.inl rfl : Ends [0]) (.inr (by simp))
    rw [Rest.bytes, records_step hrecord (by simp; omega), records_end (by simp; omega)]
    rfl
  | cutOrig head h orig ho =>
    have hthree := head.three_le
    obtain ⟨n, rfl⟩ : ∃ n, turns = n + 1 := ⟨turns - 1, by simp [Rest.bytes] at hturns; omega⟩
    have hrecord := @record_orig pre _ _ head h ho.2 (.inr rfl : Ends []) (by simpa using ho.1)
    rw [List.append_nil] at hrecord
    rw [Rest.bytes, records_step hrecord (by simp; omega), records_end (by simp; omega)]
    rfl

theorem Piece.length_pos (p : Piece) : 0 < p.bytes.length := by
  have hthree := p.head.three_le
  simp only [Piece.bytes, List.length_append]
  omega

/-- The induction is on the records, with what has been read in front of them. -/
theorem records_pieces (ps : List Piece) (t : Rest) (pre : Bytes) {turns : Nat}
    (hturns : (ps.flatMap Piece.bytes ++ t.bytes).length ≤ turns) :
    records turns (pre ++ (ps.flatMap Piece.bytes ++ t.bytes)) pre.length =
      some (ps.map Piece.entry ++ t.entries) := by
  induction ps generalizing pre turns with
  | nil => exact records_rest t pre hturns
  | cons p ps ih =>
    have hpos := p.length_pos
    rw [List.flatMap_cons, List.append_assoc, List.length_append] at hturns
    obtain ⟨n, rfl⟩ : ∃ n, turns = n + 1 := ⟨turns - 1, by omega⟩
    rw [List.flatMap_cons, List.append_assoc, records_piece, ih (pre ++ p.bytes) (by omega)]
    rfl

/-- The end of a field is the end of the buffer or a NUL. -/
def Stops (buf : Bytes) (start stop : Nat) : Prop :=
  start ≤ stop ∧ stop ≤ buf.length ∧ (stop = buf.length ∨ buf[stop]? = some 0)

theorem fieldEnd_total (hi : i ≤ buf.length) : ∃ stop, fieldEnd buf i = some stop ∧ Stops buf i stop := by
  unfold fieldEnd
  rw [if_pos hi]
  cases hk : (buf.drop i).findIdx? (· == 0) with
  | none => exact ⟨_, rfl, hi, le_rfl, .inl rfl⟩
  | some k =>
    obtain ⟨hlt, hzero, -⟩ := List.findIdx?_eq_some_iff_getElem.mp hk
    rw [List.length_drop] at hlt
    rw [List.getElem_drop, beq_iff_eq] at hzero
    have hget : buf[i + k]? = some 0 := by rw [List.getElem?_eq_getElem (by omega), hzero]
    exact ⟨_, rfl, Nat.le_add_right _ _, by omega, .inr hget⟩

theorem field_total (hi : i ≤ buf.length) : ∃ t stop, field buf i = some (t, stop) ∧ Stops buf i stop := by
  obtain ⟨stop, hstop, hstops⟩ := fieldEnd_total hi
  refine ⟨fromUtf8Lossy ((buf.drop i).take (stop - i)), stop, ?_, hstops⟩
  have hslice : slice buf i stop = some ((buf.drop i).take (stop - i)) := if_pos ⟨hstops.1, hstops.2.1⟩
  simp [field, hstop, hslice]

/-- A record that is begun is read without a panic, and the parser moves on behind a field. -/
theorem record_total (hi : i + 3 ≤ buf.length) :
    ∃ e stop, record buf i = some (e, stop + 1) ∧ Stops buf (i + 3) stop := by
  obtain ⟨path, stop, hfield, hstops⟩ := field_total hi
  obtain ⟨x, hx⟩ : ∃ x, buf[i]? = some x := ⟨_, List.getElem?_eq_getElem (by omega)⟩
  obtain ⟨y, hy⟩ : ∃ y, buf[i + 1]? = some y := ⟨_, List.getElem?_eq_getElem (by omega)⟩
  simp only [record, hx, hy, hfield, Option.map_some, Option.bind_eq_bind, Option.bind_some]
  split
  · split
    · rename_i hmore
      obtain ⟨orig, origStop, horig, hstops'⟩ := field_total (Nat.le_of_lt hmore)
      rw [horig]
      have hle := hstops.1
      have hle' := hstops'.1
      exact ⟨_, _, rfl, by omega, hstops'.2⟩
    · exact ⟨_, _, rfl, hstops⟩
  · exact ⟨_, _, rfl, hstops⟩

end Fields

/-- A field begins behind this. -/
def Begins (before : Bytes) : Prop := before = [] ∨ before.getLast? = some 0

/-- The codes and the path of an entry stand in one field. -/
def OfOneField (buf : Bytes) (e : StatusEntry) : Prop :=
  ∃ before after, ∃ h : Head, buf = before ++ (h.bytes ++ after) ∧ Begins before ∧ Ends after ∧
    e.x = .ofUInt8 h.x ∧ e.y = .ofUInt8 h.y ∧ e.path = fromUtf8Lossy h.path

/-- The codes of an entry are read from a field that is too short to have a path. -/
def OfShortField (buf : Bytes) (e : StatusEntry) : Prop :=
  ∃ before short after, buf = before ++ (short ++ 0 :: after) ∧ Begins before ∧ 0 ∉ short ∧ short.length < 3 ∧
    some e.x = (short ++ 0 :: after)[0]?.map Char.ofUInt8 ∧ some e.y = (short ++ 0 :: after)[1]?.map Char.ofUInt8

theorem exists_field (l : Bytes) : ∃ p rest, l = p ++ rest ∧ 0 ∉ p ∧ Ends rest := by
  induction l with
  | nil => exact ⟨[], [], rfl, List.not_mem_nil, .inr rfl⟩
  | cons b l ih =>
    by_cases hb : b = 0
    · exact ⟨[], b :: l, rfl, List.not_mem_nil, .inl (by rw [hb]; rfl)⟩
    · obtain ⟨p, rest, rfl, hp, hrest⟩ := ih
      refine ⟨b :: p, rest, rfl, ?_, hrest⟩
      intro hm
      rcases List.mem_cons.mp hm with heq | hm
      · exact hb heq.symm
      · exact hp hm

section Pairing

variable {pre rest buf : Bytes} {i next : Nat} {e : StatusEntry}

theorem record_codes (h : record buf i = some (e, next)) :
    some e.x = buf[i]?.map Char.ofUInt8 ∧ some e.y = buf[i + 1]?.map Char.ofUInt8 := by
  unfold record at h
  obtain ⟨x, hx, h⟩ := Option.bind_eq_some_iff.mp h
  obtain ⟨y, hy, h⟩ := Option.bind_eq_some_iff.mp h
  obtain ⟨⟨path, stop⟩, -, h⟩ := Option.bind_eq_some_iff.mp h
  rw [hx, hy]
  dsimp only at h
  split at h
  · split at h
    · obtain ⟨⟨orig, origStop⟩, -, h⟩ := Option.bind_eq_some_iff.mp h
      cases h
      exact ⟨rfl, rfl⟩
    · cases h
      exact ⟨rfl, rfl⟩
  · cases h
    exact ⟨rfl, rfl⟩

theorem record_head_eq (h : Head) (hrest : Ends rest)
    (hrecord : record (pre ++ (h.bytes ++ rest)) pre.length = some (e, next)) :
    e.x = .ofUInt8 h.x ∧ e.y = .ofUInt8 h.y ∧ e.path = fromUtf8Lossy h.path := by
  rw [record_head h hrest] at hrecord
  split at hrecord
  · split at hrecord
    · obtain ⟨⟨orig, stop⟩, -, hrecord⟩ := Option.bind_eq_some_iff.mp hrecord
      cases hrecord
      exact ⟨rfl, rfl, rfl⟩
    · cases hrecord
      exact ⟨rfl, rfl, rfl⟩
  · cases hrecord
    exact ⟨rfl, rfl, rfl⟩

/-- Where a field begins, a record takes its codes and its path from it, unless it is too short. -/
theorem record_pairs (hpre : Begins pre) (hthree : 3 ≤ rest.length)
    (h : record (pre ++ rest) pre.length = some (e, next)) :
    OfOneField (pre ++ rest) e ∨ OfShortField (pre ++ rest) e := by
  obtain ⟨p, after, rfl, hp, hafter⟩ := exists_field rest
  match p, hp with
  | x :: y :: sep :: path, hp =>
    let head : Head := ⟨x, y, sep, path, hp⟩
    exact .inl ⟨pre, after, head, rfl, hpre, hafter, record_head_eq head hafter h⟩
  | [], hp | [_], hp | [_, _], hp =>
    cases after with
    | nil => simp at hthree
    | cons b after =>
      obtain rfl : b = 0 := by simpa [Ends] using hafter
      have hcodes := record_codes h
      rw [List.getElem?_append_right le_rfl, List.getElem?_append_right (Nat.le_add_right _ _)] at hcodes
      simp only [Nat.sub_self, Nat.add_sub_cancel_left] at hcodes
      exact .inr ⟨pre, _, after, rfl, hpre, hp, by simp, hcodes⟩

/-- The parser is always at the beginning of a field or behind the buffer. -/
theorem records_reads {turns : Nat} (hturns : buf.length ≤ i + turns)
    (hi : Begins (buf.take i) ∨ buf.length ≤ i) :
    ∃ es, records turns buf i = some es ∧ ∀ e ∈ es, OfOneField buf e ∨ OfShortField buf e := by
  induction turns generalizing i with
  | zero => exact ⟨[], records_end (by omega), by simp⟩
  | succ turns ih =>
    by_cases hmore : i + 3 ≤ buf.length
    · obtain ⟨e, stop, hrecord, hle, hend, hstop⟩ := record_total hmore
      have hbegins : Begins (buf.take (stop + 1)) ∨ buf.length ≤ stop + 1 := by
        rcases hstop with hstop | hzero
        · exact .inr (by omega)
        · rw [List.take_add_one, hzero]
          exact .inl (.inr (by simp))
      obtain ⟨es, hes, hpairs⟩ := ih (by omega) hbegins
      refine ⟨e :: es, by rw [records_step hrecord hmore, hes]; rfl, ?_⟩
      intro e' he'
      rcases List.mem_cons.mp he' with rfl | he'
      · have hpre := hi.resolve_right (by omega)
        have hlength : (buf.take i).length = i := List.length_take_of_le (by omega)
        have hpair := @record_pairs (buf.take i) (buf.drop i) _ _ hpre (by rw [List.length_drop]; omega)
          (by rw [List.take_append_drop, hlength]; exact hrecord)
        rwa [List.take_append_drop] at hpair
      · exact hpairs e' he'
    · refine ⟨[], ?_, by simp⟩
      rw [records]
      split
      · exact if_pos (by omega)
      · rfl

end Pairing

/-- What git may list: codes that are ASCII, paths without NUL, and the original path of a rename or copy. -/
structure GitEntry extends StatusEntry where
  codes : 0 < x.toNat ∧ x.toNat < 128 ∧ 0 < y.toNat ∧ y.toNat < 128
  pathNulFree : '\x00' ∉ path
  origNulFree : ∀ o ∈ origPath, '\x00' ∉ o
  arity : origPath.isSome = Git.renames x y

/-- Its record in `git status --porcelain=v1 -z`. -/
def GitEntry.render (e : GitEntry) : Bytes :=
  UInt8.ofNat e.x.toNat :: UInt8.ofNat e.y.toNat :: 32 :: (Utf8.encode e.path ++ [0]) ++
    match e.origPath with
    | some o => Utf8.encode o ++ [0]
    | none => []

theorem ofUInt8_ofNat {c : Char} (h : c.toNat < 128) : Char.ofUInt8 (UInt8.ofNat c.toNat) = c := by
  apply Char.ext
  apply UInt32.toNat_inj.mp
  have hc : c.val.toNat < 128 := h
  change (UInt8.ofNat c.val.toNat).toUInt32.toNat = c.val.toNat
  simp
  omega

theorem ofNat_ne {n : Nat} (hpos : 0 < n) (h : n < 128) : (0 : UInt8) ≠ UInt8.ofNat n :=
  Utf8.ofNat_ne_zero (by omega)

namespace GitEntry

variable (e : GitEntry)

def head : Head where
  x := UInt8.ofNat e.x.toNat
  y := UInt8.ofNat e.y.toNat
  sep := 32
  path := Utf8.encode e.path
  nulFree := by
    obtain ⟨hx, hx', hy, hy'⟩ := e.codes
    intro hm
    rcases List.mem_cons.mp hm with h | hm
    · exact ofNat_ne hx hx' h
    rcases List.mem_cons.mp hm with h | hm
    · exact ofNat_ne hy hy' h
    rcases List.mem_cons.mp hm with h | hm
    · exact absurd h (by decide)
    · exact e.pathNulFree (Utf8.zero_mem_encode hm)

theorem head_entry (orig : Option Bytes) :
    e.head.entry orig = ⟨e.path, orig.map fromUtf8Lossy, e.x, e.y⟩ := by
  obtain ⟨-, hx, -, hy⟩ := e.codes
  simp [head, Head.entry, ofUInt8_ofNat hx, ofUInt8_ofNat hy]

theorem head_renames : e.head.renames = Git.renames e.x e.y := by
  obtain ⟨-, hx, -, hy⟩ := e.codes
  simp [head, Head.renames, ofUInt8_ofNat hx, ofUInt8_ofNat hy]

def piece : Piece where
  head := e.head
  orig := e.origPath.map Utf8.encode
  origNulFree := by
    intro o ho
    obtain ⟨t, ht, rfl⟩ := Option.map_eq_some_iff.mp ho
    exact fun hm => e.origNulFree t ht (Utf8.zero_mem_encode hm)
  arity := by rw [Option.isSome_map, e.arity, head_renames]

theorem piece_bytes : e.piece.bytes = e.render := by
  unfold render Piece.bytes
  cases horig : e.origPath with
  | none => simp [piece, horig, head, Head.bytes]
  | some o => simp [piece, horig, head, Head.bytes]

theorem piece_entry : e.piece.entry = e.toStatusEntry := by
  have hdecode : fromUtf8Lossy ∘ Utf8.encode = id := funext Utf8.fromUtf8Lossy_encode
  show e.head.entry (e.origPath.map Utf8.encode) = _
  rw [head_entry, Option.map_map, hdecode, Option.map_id]
  rfl

end GitEntry

end AgentGrove.Git
