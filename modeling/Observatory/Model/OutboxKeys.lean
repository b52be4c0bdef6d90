import Observatory.Data.Radix
import Observatory.Model.Canonical

/-!
# The keys of the outbox

The `idempotency_key` that each producer gives its message: `create_task` and `retry_run` of
`apps/api/app.py`, `decide_with_continuation` of `packages/policy/approval.py`, `recover_stuck_runs`
and `check_sources` of `apps/scheduler/scheduler.py`.  `isSpace` is `str.isspace` of one character.
-/

namespace Observatory.Outbox

open Canonical (Str CodePoint ofChar ofString)

/-- `uuid.UUID` -/
structure Uuid where
  int : Nat
  lt : int < 16 ^ 32
deriving DecidableEq

namespace Uuid

/-- `'%032x' % self.int` -/
def hex (u : Uuid) : Str := (Radix.fixed 16 32 u.int).map fun d => ofChar d.digitChar

def dash : CodePoint := ofChar '-'

/-- `str(u)` -/
def str (u : Uuid) : Str :=
  let hex := u.hex
  hex.take 8 ++ dash :: ((hex.drop 8).take 4 ++ dash :: ((hex.drop 12).take 4 ++
    dash :: ((hex.drop 16).take 4 ++ dash :: hex.drop 20)))

end Uuid

/-- `s.strip()` -/
def strip (isSpace : CodePoint → Bool) (s : Str) : Str :=
  ((s.dropWhile isSpace).reverse.dropWhile isSpace).reverse

/-- The length of the column: `String(128)`. -/
def columnLength : Nat := 128

/-! ## The producers -/

/-- `outbox_key` of `create_task`; `uuid4` is drawn if the client gives no key, or an empty one. -/
def outboxKey (idempotencyKey : Option Str) (uuid4 : Uuid) : Str :=
  match idempotencyKey with
  | some (c :: key) => ofString "task:" ++ c :: key
  | _ => ofString "auto:" ++ uuid4.hex

/-- `client_key` of `retry_run`. -/
def clientKey (isSpace : CodePoint → Bool) (rawKey : Str) : Str :=
  match rawKey with
  | [] => ofString "default"
  | _ => (strip isSpace rawKey).take 128

/-- `idem_key` of `retry_run`. -/
def idemKey (isSpace : CodePoint → Bool) (run : Uuid) (rawKey : Str) : Str :=
  ofString "retry:" ++ run.str ++ ofString ":" ++ clientKey isSpace rawKey

/-- The key of `decide_with_continuation`. -/
def approveKey (approval : Uuid) : Str := ofString "approve:" ++ approval.str

/-- The key of `recover_stuck_runs`. -/
def recoverKey (run newRun : Uuid) : Str :=
  ofString "retry:" ++ run.str ++ ofString ":" ++ newRun.str

/-- The key of `check_sources`. -/
def sourceKey (run : Uuid) : Str := ofString "run:" ++ run.str

/-! ## Who writes a message -/

inductive Event where
  /-- `create_task` with a key -/
  | task (key : Str) (given : key ≠ [])
  /-- `create_task` without one -/
  | auto (uuid4 : Uuid)
  | retry (run : Uuid) (rawKey : Str)
  | approve (approval : Uuid)
  | recover (run newRun : Uuid)
  | source (run : Uuid)
deriving DecidableEq

namespace Event

/-- The `create_task` of a request. -/
def ofCreate (idempotencyKey : Option Str) (uuid4 : Uuid) : Event :=
  match idempotencyKey with
  | some (c :: key) => .task (c :: key) (List.cons_ne_nil c key)
  | _ => .auto uuid4

def key (isSpace : CodePoint → Bool) : Event → Str
  | task key _ => ofString "task:" ++ key
  | auto uuid4 => ofString "auto:" ++ uuid4.hex
  | retry run rawKey => idemKey isSpace run rawKey
  | approve approval => approveKey approval
  | recover run newRun => recoverKey run newRun
  | source run => sourceKey run

theorem key_ofCreate (isSpace : CodePoint → Bool) (idempotencyKey : Option Str) (uuid4 : Uuid) :
    (ofCreate idempotencyKey uuid4).key isSpace = outboxKey idempotencyKey uuid4 := by
  unfold ofCreate outboxKey
  split <;> rfl

end Event

end Observatory.Outbox
