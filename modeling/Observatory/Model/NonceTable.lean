import Observatory.Effect.Locking
import Observatory.Effect.Machine
import Observatory.Model.Technocore

/-!
# Nonces in the database

`TechnocoreConnector.next_nonce_db` of `packages/connectors/technocore.py` under PostgreSQL, in the
transactions of its callers: every statement is one operation, and so is the draw from the generator
of the process.  A statement takes effect when it returns, so one that has to wait for a lock or for
another transaction's row is one that is not performed yet, or fails.  A transaction that goes on
after a failed statement is taken as it would be with a savepoint.

An update of a row adds a version of it, and the newest version is the row.
-/

namespace Observatory.NonceTable

open Effect
open Technocore (MonotonicNonce ProcessId)

/-- What a row is found by. -/
structure Key where
  room : String
  did : String
deriving DecidableEq, Repr

/-- A version of a row of `technocore_nonces`. -/
structure TechnocoreNonce where
  key : Key
  lastNonce : Int
deriving DecidableEq, Repr

inductive Op where
  /-- `SELECT ... FROM technocore_nonces WHERE room = r AND did = d FOR UPDATE`: the `last_nonce` of
  the row, if there is one -/
  | selectForUpdate (key : Key)
  /-- `_global_nonce.next()` of the process -/
  | nextNonce (proc : ProcessId)
  /-- `session.add(row)` and `session.flush()` -/
  | insertRow (row : TechnocoreNonce)
  /-- `row.last_nonce = n` and `session.flush()` -/
  | updateRow (row : TechnocoreNonce)
  | commit
  | rollback
  /-- `next_nonce_db` returns to its caller -/
  | returned (row : TechnocoreNonce)
deriving DecidableEq

abbrev Op.Ans : Op → Type
  | selectForUpdate _ => Option Int
  | nextNonce _ => Int
  | _ => Unit

abbrev Sys : Sig where
  Op := Op
  Ans := Op.Ans
  Err := LibError

abbrev Proc := Prog Sys LibError

def perform (o : Op) : Proc o.Ans := Prog.call (S := Sys) id o

/-- The nonce of a call: the candidate, or one more than the last if it does not exceed that. -/
def nonceAfter (candidate last : Int) : Int := if candidate ≤ last then last + 1 else candidate

/-- `next_nonce_db` -/
def nextNonceDb (proc : ProcessId) (key : Key) : Proc Int := do
  if key.did = "" then throw ⟨"TechnocoreError", "DID yok — önce load_or_generate_key çağır"⟩
  let row ← perform (.selectForUpdate key)
  let candidate ← perform (.nextNonce proc)
  match row with
  | none =>
    perform (.insertRow ⟨key, candidate⟩)
    return candidate
  | some last =>
    perform (.updateRow ⟨key, nonceAfter candidate last⟩)
    return nonceAfter candidate last

/-- A call in a transaction; `handled` tells whether the caller goes on after it has raised. -/
structure Call where
  key : Key
  handled : Bool
deriving DecidableEq, Repr

/-- The calls of a transaction. -/
def runCalls (proc : ProcessId) : List Call → Proc Unit
  | [] => pure ()
  | call :: rest => do
    match ← (nextNonceDb proc call.key).attempt with
    | .ok n =>
      perform (.returned ⟨call.key, n⟩)
      runCalls proc rest
    | .error x => if call.handled then runCalls proc rest else throw x

/-- A transaction of a process; `commits` tells whether its caller commits it. -/
structure Transaction where
  proc : ProcessId
  calls : List Call
  commits : Bool

def Transaction.program (q : Transaction) : Proc Unit := do
  match ← (runCalls q.proc q.calls).attempt with
  | .ok _ => if q.commits then perform .commit else perform .rollback
  | .error x =>
    perform .rollback
    throw x

/-! ## The database -/

structure World where
  table : Store Pid TechnocoreNonce := {}
  locks : Locks Key Pid := fun _ => none
  /-- the generator and the clock of every process -/
  gens : ProcessId → MonotonicNonce := fun _ => {}
  clock : ProcessId → Int

/-- What the outside decides about a statement: whether it fails. -/
structure Choice where
  fault : Option LibError := none

/-- `uq_technocore_nonce_room_did`: a new row clashes with the versions of another one. -/
def clash (row row' : TechnocoreNonce) : Bool := row.key = row'.key

def lockNotAvailable : LibError := ⟨"OperationalError", "lock not available"⟩

def integrityError : LibError := ⟨"IntegrityError", "uq_technocore_nonce_room_did"⟩

namespace World

/-- The end of a transaction without a commit. -/
def abort (w : World) (p : Pid) : World :=
  { w with table := w.table.rollback p, locks := w.locks.release p }

def write (w : World) (p : Pid) (row : TechnocoreNonce) : World :=
  { w with table := w.table.insert p row, locks := w.locks.acquire p row.key }

/-- The `last_nonce` of the row, as the transaction sees it. -/
def lastNonce (w : World) (p : Pid) (key : Key) : Option Int :=
  (w.table.seen (·.key) p key).getLast?.map (·.lastNonce)

/-- A statement that is not disturbed. -/
def exec (w : World) (p : Pid) : (o : Op) → World × Except LibError o.Ans
  | .selectForUpdate key =>
    match w.lastNonce p key with
    | none => (w, .ok none)
    | some last =>
      if w.locks.free p key then ({ w with locks := w.locks.acquire p key }, .ok (some last))
      else (w, .error lockNotAvailable)
  | .nextNonce proc =>
    let (g, n) := (w.gens proc).next (w.clock proc)
    ({ w with gens := Function.update w.gens proc g }, .ok n)
  | .insertRow row =>
    if w.table.blocked clash row then (w, .error integrityError) else (w.write p row, .ok ())
  | .updateRow row =>
    if w.locks.free p row.key then (w.write p row, .ok ()) else (w, .error lockNotAvailable)
  | .commit => ({ w with table := w.table.commit p, locks := w.locks.release p }, .ok ())
  | .rollback => (w.abort p, .ok ())
  | .returned _ => (w, .ok ())

/-- A statement as it comes out.  A commit or a rollback that fails leaves the transaction undone. -/
def perform (w : World) (p : Pid) (o : Op) (ch : Choice) : World × Except LibError o.Ans :=
  match ch.fault, o with
  | some x, .commit => (w.abort p, .error x)
  | some x, .rollback => (w.abort p, .error x)
  | some _, .nextNonce proc => w.exec p (.nextNonce proc)
  | some _, .returned row => w.exec p (.returned row)
  | some x, _ => (w, .error x)
  | none, o => w.exec p o

/-- No transaction is open, every row has one version, and no generator has been used. -/
structure Initial (w : World) : Prop where
  pending : w.table.pending = []
  locks : ∀ key, w.locks key = none
  single : ∀ key, (w.table.rows (·.key) key).length ≤ 1
  gens : ∀ proc, w.gens proc = {}

end World

/-- What happens to a process besides: time goes by, the generator serves other posts, and a restart
brings a new one. -/
inductive Tick where
  | clock (proc : ProcessId) (nowMs : Int)
  | next (proc : ProcessId)
  | ensureGreater (proc : ProcessId) (candidate : Int)
  | restart (proc : ProcessId)

def World.setGen (w : World) (proc : ProcessId) (g : MonotonicNonce) : World :=
  { w with gens := Function.update w.gens proc g }

def World.tick (w : World) : Tick → World
  | .clock proc nowMs => { w with clock := Function.update w.clock proc nowMs }
  | .next proc => w.setGen proc ((w.gens proc).next (w.clock proc)).1
  | .ensureGreater proc candidate => w.setGen proc ((w.gens proc).ensureGreater candidate).1
  | .restart proc => w.setGen proc {}

/-- Any number of transactions of any processes over one database. -/
abbrev nonceTable : Machine Sys LibError where
  World := World
  Req := Transaction
  Choice := Choice
  Tick := Tick
  program := Transaction.program
  perform := World.perform
  leave := World.abort
  tick := World.tick

end Observatory.NonceTable
