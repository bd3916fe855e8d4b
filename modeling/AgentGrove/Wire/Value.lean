import Mathlib.Tactic.Common

namespace Wire

abbrev Text := List Char

/-- A number as it prints, with what it is as an integer, if it is one that fits, and as a
floating-point number. -/
structure Number where
  printed : Text
  asI64 : Option Int
  asF64 : Text
deriving DecidableEq

/-- A JSON value. The members of an object are in the order of their keys. -/
inductive Value where
  | null
  | bool (b : Bool)
  | number (n : Number)
  | string (s : Text)
  | array (items : List Value)
  | object (members : List (Text × Value))

namespace Value

/-- The member of an object under a key; nothing else has members. -/
def get (key : Text) : Value → Option Value
  | .object members => (members.find? (fun m => m.1 = key)).map (fun m => m.2)
  | _ => none

/-- Follow the keys of a path. -/
def pointer : List Text → Value → Option Value
  | [], v => some v
  | key :: path, v => (v.get key).bind (pointer path)

def asStr : Value → Option Text
  | .string s => some s
  | _ => none

def asBool : Value → Option Bool
  | .bool b => some b
  | _ => none

def asArray : Value → Option (List Value)
  | .array items => some items
  | _ => none

def asI64 : Value → Option Int
  | .number n => n.asI64
  | _ => none

def asF64 : Value → Option Text
  | .number n => some n.asF64
  | _ => none

def escape (c : Char) : Text :=
  if c = '"' then ['\\', '"']
  else if c = '\\' then ['\\', '\\']
  else if c.toNat = 8 then ['\\', 'b']
  else if c.toNat = 9 then ['\\', 't']
  else if c.toNat = 10 then ['\\', 'n']
  else if c.toNat = 12 then ['\\', 'f']
  else if c.toNat = 13 then ['\\', 'r']
  else if c.toNat < 32 then ['\\', 'u', '0', '0', Nat.digitChar (c.toNat / 16), Nat.digitChar (c.toNat % 16)]
  else [c]

def quote (s : Text) : Text := '"' :: s.flatMap escape ++ ['"']

mutual

/-- The compact printed form. -/
def print : Value → Text
  | .null => "null".toList
  | .bool b => if b then "true".toList else "false".toList
  | .number n => n.printed
  | .string s => quote s
  | .array items => '[' :: [','].intercalate (printItems items) ++ [']']
  | .object members => '{' :: [','].intercalate (printMembers members) ++ ['}']

def printItems : List Value → List Text
  | [] => []
  | v :: items => v.print :: printItems items

def printMembers : List (Text × Value) → List Text
  | [] => []
  | m :: members => printMember m :: printMembers members

def printMember : Text × Value → Text
  | (key, v) => quote key ++ ':' :: v.print

end

example : print (.object [(['a'], .array [.null, .bool true]), (['b'], .string ['"'])]) =
    "\x7b\"a\":[null,true],\"b\":\"\\\"\"\x7d".toList := by decide

end Value

end Wire

namespace Wire.Value

def hexValue (c : Char) : Nat := if c.isDigit then c.toNat - 48 else c.toNat - 87

/-- What an escape of one letter stands for. -/
def unescapeChar (c : Char) : Char :=
  if c = 'b' then Char.ofNat 8
  else if c = 't' then Char.ofNat 9
  else if c = 'n' then Char.ofNat 10
  else if c = 'f' then Char.ofNat 12
  else if c = 'r' then Char.ofNat 13
  else c

/-- A string behind its first quote, and what follows it. -/
def unquote : Text → Option (Text × Text)
  | [] => none
  | '"' :: rest => some ([], rest)
  | '\\' :: 'u' :: '0' :: '0' :: high :: low :: rest =>
    (unquote rest).map (fun u => (Char.ofNat (16 * hexValue high + hexValue low) :: u.1, u.2))
  | '\\' :: c :: rest => (unquote rest).map (fun u => (unescapeChar c :: u.1, u.2))
  | c :: rest => (unquote rest).map (fun u => (c :: u.1, u.2))

theorem hexValue_control {n : Nat} (h : n < 32) :
    16 * hexValue (Nat.digitChar (n / 16)) + hexValue (Nat.digitChar (n % 16)) = n := by
  have hall : ∀ n < 32, 16 * hexValue (Nat.digitChar (n / 16)) + hexValue (Nat.digitChar (n % 16)) = n := by decide
  exact hall n h

theorem char_of_toNat {c : Char} {n : Nat} (h : c.toNat = n) : Char.ofNat n = c := by
  rw [← h, Char.ofNat_toNat]

theorem unquote_escape (c : Char) (rest : Text) :
    unquote (escape c ++ rest) = (unquote rest).map (fun u => (c :: u.1, u.2)) := by
  unfold escape
  split_ifs with hquote hslash h8 h9 h10 h12 h13 hcontrol
  · subst hquote
    rfl
  · subst hslash
    rfl
  · rw [← char_of_toNat h8]
    rfl
  · rw [← char_of_toNat h9]
    rfl
  · rw [← char_of_toNat h10]
    rfl
  · rw [← char_of_toNat h12]
    rfl
  · rw [← char_of_toNat h13]
    rfl
  · show (unquote rest).map _ = _
    rw [hexValue_control hcontrol, Char.ofNat_toNat]
  · rw [List.singleton_append, unquote]
    · exact hquote
    · exact fun _ _ _ h => absurd h hslash
    · exact fun _ _ h => absurd h hslash

/-- A string that is printed is read as it was. -/
theorem unquote_quote (s rest : Text) : unquote (s.flatMap escape ++ '"' :: rest) = some (s, rest) := by
  induction s with
  | nil => rfl
  | cons c s ih => rw [List.flatMap_cons, List.append_assoc, unquote_escape, ih, Option.map_some]

end Wire.Value
