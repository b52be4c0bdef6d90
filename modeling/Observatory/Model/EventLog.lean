import Observatory.Effect.Machine
import Observatory.Effect.Store
import Observatory.Model.Rows

/-!
# The event log, statement by statement

`packages/observability/events.py` under PostgreSQL: every statement of a transaction that appends
run events is one operation.  A statement takes effect when it returns, so one that has to wait for
a lock or for another transaction's row is one that is not performed yet, or fails.

A database session ends with its transaction: `async with s.begin()` commits, or rolls back and
passes the exception on.
-/

namespace Observatory.EventLog

open Effect

structure RunEvent where
  runId : RunId
  seq : Int
  globalSeq : Int
  eventType : String
  payload : Dict
deriving Repr, Inhabited

/-- What `append_run_event_safe` is called with. -/
structure Append where
  runId : RunId
  etype : String
  payload : Dict := []
deriving Repr, Inhabited

/-- `bind.dialect.name`, as the function tells the names apart. -/
inductive Dialect where
  | sqlite
  | postgresql
  | unsupported (name : String)
deriving DecidableEq, Repr

inductive Op where
  /-- `SELECT pg_advisory_xact_lock(727271)` -/
  | advisoryXactLock
  /-- `SELECT ... FROM runs WHERE id = r FOR UPDATE` -/
  | lockRun (r : RunId)
  /-- `SELECT coalesce(max(seq), -1) FROM run_events WHERE run_id = r` -/
  | maxSeq (r : RunId)
  /-- `SELECT coalesce(max(global_seq), 0) FROM run_events` -/
  | maxGlobalSeq
  /-- `INSERT INTO run_events`; without a `global_seq` the identity column hands one out -/
  | insertEvent (a : Append) (seq : Int) (globalSeq : Option Int)
  /-- another statement of the transaction that writes the row of a run -/
  | updateRun (r : RunId)
  | commit
  | rollback
  /-- `append_run_event_safe` returns to its caller -/
  | returned (a : Append)
  /-- `append_run_event_safe` raises to its caller -/
  | raised (a : Append)

abbrev Op.Ans : Op → Type
  | maxSeq _ => Int
  | maxGlobalSeq => Int
  | insertEvent .. => RunEvent
  | _ => Unit

abbrev Sys : Sig where
  Op := Op
  Ans := Op.Ans
  Err := LibError

abbrev Proc := Prog Sys LibError

def perform (o : Op) : Proc o.Ans := Prog.call (S := Sys) id o

/-- `append_run_event_in_session`. -/
def appendRunEventInSession (dialect : Dialect) (a : Append) : Proc RunEvent := do
  match dialect with
  | .sqlite => pure ()
  | .postgresql => perform .advisoryXactLock
  | .unsupported name =>
    throw ⟨"RuntimeError", "unsupported dialect for RunEvent append: '" ++ name ++ "'"⟩
  perform (.lockRun a.runId)
  let maxSeq ← perform (.maxSeq a.runId)
  let nxt := maxSeq + 1
  match dialect with
  | .sqlite =>
    let maxG ← perform .maxGlobalSeq
    perform (.insertEvent a nxt (some (maxG + 1)))
  | _ => perform (.insertEvent a nxt none)

/-- `async with s.begin(): body`. -/
def inTransaction {α : Type} (body : Proc α) : Proc α := do
  match ← body.attempt with
  | .ok x =>
    perform .commit
    pure x
  | .error x =>
    perform .rollback
    throw x

def isIntegrityError (x : LibError) : Bool := x.cls = "IntegrityError"

/-- The attempts of `append_run_event_safe`, `n` of them left, after the exception `lastExc`. -/
def attempts (dialect : Dialect) (a : Append) : Nat → Option LibError → Proc Unit
  | 0, none => pure ()
  | 0, some lastExc => throw lastExc
  | n + 1, _ => do
    match ← (inTransaction (appendRunEventInSession dialect a)).attempt with
    | .ok _ => pure ()
    | .error x => if isIntegrityError x then attempts dialect a n (some x) else throw x

def appendRunEventSafe (dialect : Dialect) (a : Append) (maxRetries : Nat) : Proc Unit :=
  attempts dialect a maxRetries none

/-- One step of a caller's transaction; `handled` tells whether the caller goes on after it has
raised. -/
inductive Statement where
  | append (a : Append) (handled : Bool)
  | updateRun (r : RunId) (handled : Bool)
deriving Repr, Inhabited

def Statement.handled : Statement → Bool
  | append _ b => b
  | updateRun _ b => b

def Statement.proc (dialect : Dialect) : Statement → Proc Unit
  | append a _ => do
    let _ ← appendRunEventInSession dialect a
    pure ()
  | updateRun r _ => perform (.updateRun r)

def runStatements (dialect : Dialect) : List Statement → Proc Unit
  | [] => pure ()
  | s :: rest => do
    match ← (s.proc dialect).attempt with
    | .ok _ => runStatements dialect rest
    | .error x => if s.handled then runStatements dialect rest else throw x

/-- A transaction of a caller; `commits` tells whether it ends by raising. -/
def transaction (dialect : Dialect) (body : List Statement) (commits : Bool) : Proc Unit :=
  inTransaction do
    runStatements dialect body
    if commits then pure () else throw ⟨"Exception", ""⟩

inductive Req where
  | transaction (body : List Statement) (commits : Bool)
  | safe (a : Append)

/-- The parameter's default, which every caller leaves in place. -/
def maxRetries : Nat := 5

def Req.program (dialect : Dialect) : Req → Proc Unit
  | transaction body commits => EventLog.transaction dialect body commits
  | safe a => do
    match ← (appendRunEventSafe dialect a maxRetries).attempt with
    | .ok _ => perform (.returned a)
    | .error _ => perform (.raised a)

/-! ## The database -/

inductive Lock where
  | advisory
  | run (r : RunId)
deriving DecidableEq, Repr

structure World where
  runs : List RunId
  log : Store Pid RunEvent
  /-- the last value the identity column has handed out -/
  identity : Int
  locks : Locks Lock Pid

/-- What the outside decides about a statement: whether it fails, and how many values of the
identity column are lost on the way. -/
structure Choice where
  fault : Option LibError := none
  gap : Nat := 0

/-- The unique constraints `uq_run_events_run_seq` and `uq_run_events_global_seq`. -/
def clash (e e' : RunEvent) : Bool :=
  (e.runId == e'.runId && e.seq == e'.seq) || e.globalSeq == e'.globalSeq

/-- `coalesce(max(seq), -1)` over the events of the run `r`. -/
def maxSeqOf (r : RunId) (events : List RunEvent) : Int :=
  ((events.filter (·.runId = r)).map (·.seq)).foldl max (-1)

def lockNotAvailable : LibError := ⟨"OperationalError", "lock not available"⟩

def integrityError : LibError := ⟨"IntegrityError", "constraint violated"⟩

namespace World

/-- The end of a transaction without a commit. -/
def abort (w : World) (p : Pid) : World :=
  { w with log := w.log.rollback p, locks := w.locks.release p }

def lock (w : World) (p : Pid) (k : Lock) : World × Except LibError Unit :=
  if w.locks.free p k then ({ w with locks := w.locks.acquire p k }, .ok ())
  else (w, .error lockNotAvailable)

/-- The lock on a row, if there is such a row. -/
def lockRow (w : World) (p : Pid) (r : RunId) : World × Except LibError Unit :=
  if r ∈ w.runs then w.lock p (.run r) else (w, .ok ())

def insert (w : World) (p : Pid) (a : Append) (seq : Int) (globalSeq : Option Int) (gap : Nat) :
    World × Except LibError RunEvent :=
  let next := w.identity + 1 + gap
  let e : RunEvent := ⟨a.runId, seq, globalSeq.getD next, a.etype, a.payload⟩
  let w := if globalSeq.isNone then { w with identity := next } else w
  if a.runId ∉ w.runs ∨ w.log.blocked clash e then (w, .error integrityError)
  else ({ w with log := w.log.insert p e }, .ok e)

/-- A statement that is not disturbed. -/
def exec (w : World) (p : Pid) (ch : Choice) : (o : Op) → World × Except LibError o.Ans
  | .advisoryXactLock => w.lock p .advisory
  | .lockRun r => w.lockRow p r
  | .maxSeq r => (w, .ok (maxSeqOf r (w.log.visible p)))
  | .maxGlobalSeq => (w, .ok (((w.log.visible p).map (·.globalSeq)).foldl max 0))
  | .insertEvent a seq globalSeq => w.insert p a seq globalSeq ch.gap
  | .updateRun r => w.lockRow p r
  | .commit => ({ w with log := w.log.commit p, locks := w.locks.release p }, .ok ())
  | .rollback => (w.abort p, .ok ())
  | .returned _ => (w, .ok ())
  | .raised _ => (w, .ok ())

/-- A statement as it comes out.  A commit or a rollback that fails leaves the transaction undone;
a failed insert may have used up values of the identity column. -/
def perform (w : World) (p : Pid) (o : Op) (ch : Choice) : World × Except LibError o.Ans :=
  match ch.fault, o with
  | some x, .commit => (w.abort p, .error x)
  | some x, .rollback => (w.abort p, .error x)
  | some x, .insertEvent .. => ({ w with identity := w.identity + ch.gap }, .error x)
  | some _, .returned a => w.exec p ch (.returned a)
  | some _, .raised a => w.exec p ch (.raised a)
  | some x, _ => (w, .error x)
  | none, o => w.exec p ch o

/-- A new run is committed by another transaction. -/
def addRun (w : World) (r : RunId) : World := { w with runs := w.runs ++ [r] }

/-- No event yet, no transaction open. -/
structure Initial (w : World) : Prop where
  log : w.log = {}
  locks : ∀ k, w.locks k = none

def empty (runs : List RunId) : World := ⟨runs, {}, 0, fun _ => none⟩

theorem empty_initial (runs : List RunId) : Initial (empty runs) := ⟨rfl, fun _ => rfl⟩

end World

/-- Any number of transactions that append events, over one database. -/
def eventLog (dialect : Dialect) : Machine Sys LibError where
  World := World
  Req := Req
  Choice := Choice
  Tick := RunId
  program := Req.program dialect
  perform := World.perform
  leave := World.abort
  tick := World.addRun

end Observatory.EventLog
