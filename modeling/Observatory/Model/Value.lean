import Mathlib.Algebra.Order.Ring.Rat

/-!
# Values

Texts, JSON values, exceptions and points in time as the Python code handles them.

Row identifiers are UUIDs in the source; here a row is named by its position in its table, and the
canonical text `str(uuid)` of that row is `Text.uuid`.  Every other text is `Text.str`, and an hour
stamp `%Y-%m-%d-%H` is `Text.hour`, so that equal texts are equal values.
-/

namespace Observatory

/-- Milliseconds on the wall clock. -/
abbrev Time := Int

/-- Seconds on the monotonic clock. -/
abbrev Seconds := Rat

inductive Text where
  | str (s : String)
  | uuid (id : Nat)
  | hour (n : Int)
deriving DecidableEq, Repr, Inhabited

/-- A text put together from pieces. -/
abbrev Key := List Text

/-- JSON values. -/
inductive Json where
  | null
  | bool (b : Bool)
  | int (i : Int)
  | float (q : Rat)
  | text (t : Text)
  | list (xs : List Json)
  | obj (kvs : List (String × Json))
deriving Repr, Inhabited

/-- A `dict` with text keys. -/
abbrev Dict := List (String × Json)

namespace Json

def str (s : String) : Json := .text (.str s)

def uuid (id : Nat) : Json := .text (.uuid id)

/-- Python truth value. -/
def truthy : Json → Bool
  | .null => false
  | .bool b => b
  | .int i => i != 0
  | .float q => q != 0
  | .text (.str s) => s != ""
  | .text _ => true
  | .list xs => !xs.isEmpty
  | .obj kvs => !kvs.isEmpty

end Json

/-- `d.get(k)`. -/
def Dict.get (d : Dict) (k : String) : Option Json := List.lookup k d

/-- An exception of a library: its class and its message. -/
structure LibError where
  cls : String
  msg : String
deriving DecidableEq, Repr, Inhabited

/-- The exceptions the code tells apart: `CriticalEventPersistenceError` is caught by type, all
others only as `Exception`. -/
inductive PyExc where
  | critical (msg : String)
  | lib (e : LibError)
deriving DecidableEq, Repr, Inhabited

namespace PyExc

/-- `type(e).__name__`. -/
def name : PyExc → String
  | critical _ => "CriticalEventPersistenceError"
  | lib e => e.cls

/-- `str(e)`. -/
def message : PyExc → String
  | critical m => m
  | lib e => e.msg

def isCritical : PyExc → Bool
  | critical _ => true
  | lib _ => false

def mk (cls msg : String) : PyExc := .lib ⟨cls, msg⟩

end PyExc

/-- `text[:n]`. -/
def clip (n : Nat) (s : String) : String := (s.take n).toString

end Observatory
