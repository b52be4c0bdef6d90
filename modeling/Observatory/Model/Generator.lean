import Observatory.Model.Technocore

/-!
# The nonce generator and its lock

`_MonotonicNonce` of `packages/connectors/technocore.py` with the lock that its methods take, and
with the strings that come and go: `int` of a candidate, `str` of a nonce.
-/

namespace Observatory.Technocore

open Canonical (Str CodePoint ofChar)

/-! ## `int` and `str` -/

/-- What the language knows of the characters that are not ASCII. -/
structure Unicode where
  /-- `unicodedata.decimal` -/
  decimal : CodePoint → Option Nat
  /-- `str.isspace` -/
  isSpace : CodePoint → Bool

/-- The interpreter reads and writes no number of more digits. -/
def maxStrDigits : Nat := 4300

namespace Unicode

variable (uni : Unicode)

def digitOf (c : CodePoint) : Option Nat :=
  if c.val < 0x80 then if Canonical.isDigit c then some (c.val - 0x30) else none
  else uni.decimal c

def space (c : CodePoint) : Bool :=
  if c.val < 0x80 then (0x09 ≤ c.val && c.val ≤ 0x0D) || c.val = 0x20 else uni.isSpace c

/-- Digits, with an underscore between two of them at most. -/
def digitsOf : Str → Option (List Nat)
  | [] => none
  | [c] => (uni.digitOf c).map ([·])
  | c :: d :: rest => do
    let n ← uni.digitOf c
    let ns ← if d = ofChar '_' then digitsOf rest else digitsOf (d :: rest)
    return n :: ns

/-- A number without its sign. -/
def natOf (s : Str) : Option Nat := do
  let ds ← uni.digitsOf s
  if maxStrDigits < ds.length then none else return ds.foldl (fun n d => 10 * n + d) 0

/-- `int(s)`; no number is a `ValueError`. -/
def int (s : Str) : Option Int :=
  let s := ((s.dropWhile uni.space).reverse.dropWhile uni.space).reverse
  match s with
  | [] => none
  | c :: rest =>
    if c = ofChar '-' then (uni.natOf rest).map fun n => -(n : Int)
    else if c = ofChar '+' then (uni.natOf rest).map Int.ofNat
    else (uni.natOf s).map Int.ofNat

end Unicode

/-- `str(n)` -/
def str : Int → Str
  | .ofNat n => (Nat.toDigits 10 n).map ofChar
  | .negSucc n => ofChar '-' :: (Nat.toDigits 10 (n + 1)).map ofChar

/-! ## The lock -/

/-- What becomes of a call. -/
inductive Outcome where
  /-- it returns `str(n)` -/
  | returned (n : Int)
  /-- `ValueError` -/
  | raised
  /-- it waits for a lock that nobody is going to release -/
  | blocked
deriving DecidableEq, Repr

/-- `return str(n)` -/
def Outcome.ofInt (n : Int) : Outcome :=
  if maxStrDigits < (Nat.toDigits 10 n.natAbs).length then .raised else .returned n

/-- `_MonotonicNonce` with `_lock`, which is not reentrant. -/
structure LockedNonce where
  gen : MonotonicNonce := {}
  locked : Bool := false
deriving DecidableEq, Repr

namespace LockedNonce

/-- `with self._lock: body` -/
def withLock (g : LockedNonce) (body : LockedNonce → LockedNonce × Outcome) :
    LockedNonce × Outcome :=
  if g.locked then (g, .blocked)
  else
    match body { g with locked := true } with
    -- the block is not left
    | (g, .blocked) => (g, .blocked)
    | (g, r) => ({ g with locked := false }, r)

/-- `next` -/
def next (g : LockedNonce) (nowMs : Int) : LockedNonce × Outcome :=
  g.withLock fun g =>
    let (gen, n) := g.gen.next nowMs
    ({ g with gen }, .ofInt n)

/-- `ensure_greater`; the clock is read if the candidate is no number. -/
def ensureGreater (uni : Unicode) (g : LockedNonce) (candidate : Str) (nowMs : Int) :
    LockedNonce × Outcome :=
  g.withLock fun g =>
    match uni.int candidate with
    | none => g.next nowMs
    | some n =>
      let (gen, n) := g.gen.ensureGreater n
      ({ g with gen }, .ofInt n)

/-- A call, with what the clock shows. -/
inductive Call where
  | next (nowMs : Int)
  | ensureGreater (candidate : Str) (nowMs : Int)
deriving DecidableEq, Repr

def step (uni : Unicode) (g : LockedNonce) : Call → LockedNonce × Outcome
  | .next nowMs => g.next nowMs
  | .ensureGreater candidate nowMs => g.ensureGreater uni candidate nowMs

/-- The calls one after the other. -/
def run (uni : Unicode) (g : LockedNonce) : List Call → List Outcome
  | [] => []
  | call :: calls => (g.step uni call).2 :: (g.step uni call).1.run uni calls

end LockedNonce

end Observatory.Technocore
