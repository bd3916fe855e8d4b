import Mathlib.Data.List.Basic

namespace Utf8

abbrev Bytes := List UInt8

def encode (t : List Char) : Bytes := t.flatMap String.utf8EncodeChar

/-- U+FFFD, which stands for what is no UTF-8. -/
def replacement : Char := Char.ofNat 0xFFFD

def continues (b : UInt8) : Bool := 0x80 ≤ b && b ≤ 0xBF

/-- The second byte of a character of three or four bytes, by its first. -/
def follows (a b : UInt8) : Bool :=
  (a == 0xE0 && 0xA0 ≤ b && b ≤ 0xBF) ||
    (0xE1 ≤ a && a ≤ 0xEC && continues b) ||
    (a == 0xED && 0x80 ≤ b && b ≤ 0x9F) ||
    (0xEE ≤ a && a ≤ 0xEF && continues b) ||
    (a == 0xF0 && 0x90 ≤ b && b ≤ 0xBF) ||
    (0xF1 ≤ a && a ≤ 0xF3 && continues b) ||
    (a == 0xF4 && 0x80 ≤ b && b ≤ 0x8F)

/-- How many bytes one replacement stands for: as many as could have begun a character. -/
def subpart : Bytes → Nat
  | a :: b :: c :: _ => if follows a b then if 0xF0 ≤ a && continues c then 3 else 2 else 1
  | [a, b] => if follows a b then 2 else 1
  | _ => 1

/-- Decode behind so many bytes. -/
def lossyFrom : Nat → Bytes → List Char
  | _, [] => []
  | skip + 1, _ :: bs => lossyFrom skip bs
  | 0, b :: bs =>
    match (b :: bs).toByteArray.utf8DecodeChar? 0 with
    | some c => c :: lossyFrom (c.utf8Size - 1) bs
    | none => replacement :: lossyFrom (subpart (b :: bs) - 1) bs

/-- `String::from_utf8_lossy`. -/
def fromUtf8Lossy (bs : Bytes) : List Char := lossyFrom 0 bs

example : fromUtf8Lossy [0x61, 0xE2, 0x82, 0x62, 0xC3, 0xA9, 0xFF] =
    ['a', replacement, 'b', 'é', replacement] := by decide

theorem lossyFrom_skip (bs rest : Bytes) : lossyFrom bs.length (bs ++ rest) = lossyFrom 0 rest := by
  induction bs with
  | nil => rfl
  | cons b bs ih => exact ih

theorem lossyFrom_encodeChar (c : Char) (rest : Bytes) :
    lossyFrom 0 (String.utf8EncodeChar c ++ rest) = c :: lossyFrom 0 rest := by
  have hlength := String.length_utf8EncodeChar c
  have hdecode : (String.utf8EncodeChar c ++ rest).toByteArray.utf8DecodeChar? 0 = some c := by
    rw [List.toByteArray_append]
    exact ByteArray.utf8DecodeChar?_utf8EncodeChar_append
  cases henc : String.utf8EncodeChar c with
  | nil =>
    have hpos := c.utf8Size_pos
    rw [henc] at hlength
    simp at hlength
    omega
  | cons b bs =>
    rw [henc] at hlength hdecode
    rw [List.cons_append] at hdecode ⊢
    rw [lossyFrom, hdecode]
    have hskip : c.utf8Size - 1 = bs.length := by
      rw [← hlength]
      rfl
    dsimp only
    rw [hskip, lossyFrom_skip]

/-- What is UTF-8 is decoded to what it encodes. -/
@[simp] theorem fromUtf8Lossy_encode (t : List Char) : fromUtf8Lossy (encode t) = t := by
  unfold fromUtf8Lossy encode
  induction t with
  | nil => rfl
  | cons c t ih => rw [List.flatMap_cons, lossyFrom_encodeChar, ih]

/-- `String::from_utf8`: only what is UTF-8 is what its text encodes to. -/
def fromUtf8 (bs : Bytes) : Option (List Char) :=
  if encode (fromUtf8Lossy bs) = bs then some (fromUtf8Lossy bs) else none

@[simp] theorem fromUtf8_encode (t : List Char) : fromUtf8 (encode t) = some t := by
  unfold fromUtf8
  rw [fromUtf8Lossy_encode, if_pos rfl]

theorem ofNat_ne_zero {n : Nat} (h : n % 256 ≠ 0) : (0 : UInt8) ≠ UInt8.ofNat n := by
  intro he
  have hmod := congrArg UInt8.toNat he
  simp only [UInt8.toNat_ofNat', UInt8.toNat_zero] at hmod
  omega

/-- Only NUL has a zero byte: the bytes of a longer character all have their top bit set. -/
theorem zero_mem_encodeChar {c : Char} (h : 0 ∈ String.utf8EncodeChar c) : c = '\x00' := by
  unfold String.utf8EncodeChar at h
  dsimp only at h
  split at h
  · rename_i hsmall
    have hzero : c.val.toNat = 0 := by
      by_contra hne
      exact ofNat_ne_zero (by omega) (List.mem_singleton.mp h)
    exact Char.ext (UInt32.toNat_inj.mp hzero)
  split at h
  · simp only [List.mem_cons, List.not_mem_nil, or_false] at h
    rcases h with h | h <;> exact absurd h (ofNat_ne_zero (by omega))
  split at h
  · simp only [List.mem_cons, List.not_mem_nil, or_false] at h
    rcases h with h | h | h <;> exact absurd h (ofNat_ne_zero (by omega))
  · simp only [List.mem_cons, List.not_mem_nil, or_false] at h
    rcases h with h | h | h | h <;> exact absurd h (ofNat_ne_zero (by omega))

theorem zero_mem_encode {t : List Char} (h : 0 ∈ encode t) : '\x00' ∈ t := by
  obtain ⟨c, hc, hzero⟩ := List.mem_flatMap.mp h
  rw [← zero_mem_encodeChar hzero]
  exact hc

end Utf8
