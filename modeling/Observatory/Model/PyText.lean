import Mathlib.Data.List.Basic

/-!
# White space

What `str.strip` takes away.  The table is that of `str.isspace`; `int` and `float` take less.
-/

namespace Observatory

/-- `str.isspace` of the character with the code `n`. -/
def isSpaceCode (n : Nat) : Bool :=
  (9 ≤ n && n ≤ 13) || (28 ≤ n && n ≤ 32) || n = 0x85 || n = 0xa0 || n = 0x1680 ||
    (0x2000 ≤ n && n ≤ 0x200a) || n = 0x2028 || n = 0x2029 || n = 0x202f || n = 0x205f ||
    n = 0x3000

def pySpace (c : Char) : Bool := isSpaceCode c.toNat

/-- `text.strip()` -/
def pyStrip (text : List Char) : List Char :=
  ((text.dropWhile pySpace).reverse.dropWhile pySpace).reverse

end Observatory
