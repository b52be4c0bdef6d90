import Mathlib.Data.List.Basic
import Mathlib.Tactic.Common

/-!
# Canonical strings

`sweep_text` and `canonical_string` of `packages/connectors/technocore.py`, over the strings of the
language: lists of code points, in which surrogates may stand alone.
-/

namespace Observatory.Canonical

/-- A character of a string; `ord` is its value. -/
abbrev CodePoint := Fin 0x110000

abbrev Str := List CodePoint

theorem toNat_lt (c : Char) : c.toNat < 0x110000 := by
  rcases c.valid with h | ⟨-, h⟩
  · exact Nat.lt_trans h (by decide)
  · exact h

def ofChar (c : Char) : CodePoint := ⟨c.toNat, toNat_lt c⟩

def ofString (s : String) : Str := s.toList.map ofChar

/-! ## Categories -/

inductive Category
  | lu | ll | lt | lm | lo
  | mn | mc | me
  | nd | nl | no
  | pc | pd | ps | pe | pi | pf | po
  | sm | sc | sk | so
  | zs | zl | zp
  | cc | cf | cs | co | cn
deriving DecidableEq, Repr

namespace Category

def name : Category → String
  | lu => "Lu" | ll => "Ll" | lt => "Lt" | lm => "Lm" | lo => "Lo"
  | mn => "Mn" | mc => "Mc" | me => "Me"
  | nd => "Nd" | nl => "Nl" | no => "No"
  | pc => "Pc" | pd => "Pd" | ps => "Ps" | pe => "Pe" | pi => "Pi" | pf => "Pf" | po => "Po"
  | sm => "Sm" | sc => "Sc" | sk => "Sk" | so => "So"
  | zs => "Zs" | zl => "Zl" | zp => "Zp"
  | cc => "Cc" | cf => "Cf" | cs => "Cs" | co => "Co" | cn => "Cn"

/-- `cat.startswith("C")` -/
def isOther : Category → Bool
  | cc | cf | cs | co | cn => true
  | _ => false

/-- Control and format characters, line and paragraph separators. -/
def breaksLine : Category → Bool
  | cc | cf | zl | zp => true
  | _ => false

end Category

/-- `unicodedata.category` of the ASCII characters. -/
def asciiCategory (o : ℕ) : Category :=
  if o < 0x20 ∨ o = 0x7F then .cc
  else if o = 0x20 then .zs
  else if 0x30 ≤ o ∧ o ≤ 0x39 then .nd
  else if 0x41 ≤ o ∧ o ≤ 0x5A then .lu
  else if 0x61 ≤ o ∧ o ≤ 0x7A then .ll
  else if o = 0x5F then .pc
  else if o = 0x2D then .pd
  else if o = 0x24 then .sc
  -- + < = > | ~
  else if o ∈ [0x2B, 0x3C, 0x3D, 0x3E, 0x7C, 0x7E] then .sm
  -- the brackets
  else if o ∈ [0x28, 0x5B, 0x7B] then .ps
  else if o ∈ [0x29, 0x5D, 0x7D] then .pe
  else if o = 0x5E ∨ o = 0x60 then .sk
  else .po

def isSurrogate (c : CodePoint) : Bool := 0xD800 ≤ c.val && c.val ≤ 0xDFFF

/-- What is known of `unicodedata.category`. -/
structure Documented (category : CodePoint → Category) : Prop where
  ascii : ∀ c : CodePoint, c.val < 0x80 → category c = asciiCategory c.val
  surrogate : ∀ c, isSurrogate c → category c = .cs

/-! ## Sweeping -/

section sweep

variable (category : CodePoint → Category)

/-- The character becomes a space. -/
def invisible (c : CodePoint) : Bool :=
  let o := c.val
  let cat := category c
  cat.isOther || cat = .zl || cat = .zp ||
    o ∈ [0x200B, 0x200C, 0x200D, 0xFEFF, 0x2060, 0x180E] ||
    (0x202A ≤ o && o ≤ 0x202E) || (0x2066 ≤ o && o ≤ 0x2069) || o ∈ [0x200E, 0x200F, 0x061C] ||
    o < 0x20 || (0x7F ≤ o && o ≤ 0x9F)

def sweepText (text : Str) : Str :=
  text.map fun c => if invisible category c then ofChar ' ' else c

end sweep

/-! ## Rooms and nonces -/

/-- `$`: at the end, or before a newline that ends the string. -/
def chomp (s : Str) : Str := if s.getLast? = some (ofChar '\n') then s.dropLast else s

/-- `[0-9]` -/
def isDigit (c : CodePoint) : Bool := 0x30 ≤ c.val && c.val ≤ 0x39

/-- `[a-z0-9]` -/
def isRoomStart (c : CodePoint) : Bool := (0x61 ≤ c.val && c.val ≤ 0x7A) || isDigit c

/-- `[a-z0-9_-]` -/
def isRoomChar (c : CodePoint) : Bool := isRoomStart c || c.val = 0x5F || c.val = 0x2D

/-- `_ROOM_RE`: `^[a-z0-9][a-z0-9_-]{0,47}$` -/
def matchesRoom (room : Str) : Bool :=
  match chomp room with
  | c :: rest => isRoomStart c && rest.all isRoomChar && rest.length ≤ 47
  | [] => false

/-- `_NONCE_RE`: `^[0-9]{1,19}$` -/
def matchesNonce (nonce : Str) : Bool :=
  let digits := chomp nonce
  digits ≠ [] && digits.all isDigit && digits.length ≤ 19

/-! ## The canonical string -/

/-- `ValueError` -/
structure ValueError where
  msg : Str

def bar : CodePoint := ofChar '|'

def canonicalString (category : CodePoint → Category) (room nonce text : Str) :
    Except ValueError Str :=
  if !matchesRoom room then .error ⟨ofString "geçersiz room: " ++ room⟩
  else if !matchesNonce nonce then .error ⟨ofString "geçersiz nonce: " ++ nonce⟩
  else .ok (room ++ bar :: (nonce ++ bar :: sweepText category text))

/-- The character, unless it is a surrogate. -/
def toChar? (c : CodePoint) : Option Char :=
  if h : c.val.isValidChar then some (Char.ofNatAux c.val h) else none

/-- `.encode("utf-8")`, which fails on surrogates. -/
def encodeUtf8 (s : Str) : Option (List UInt8) :=
  (s.mapM toChar?).map (·.flatMap String.utf8EncodeChar)

end Observatory.Canonical
