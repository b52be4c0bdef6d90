import Observatory.Effect.Machine
import Observatory.Effect.Store
import Observatory.Model.Operator
import Mathlib.Algebra.GroupWithZero.Nat

/-!
# Retrying a run, statement by statement

`retry_run` of `apps/api/app.py` under PostgreSQL READ COMMITTED: every statement of a request is
one operation, and a unique constraint is enforced when the `INSERT` is flushed.  An `INSERT` that
meets an uncommitted row with its key waits for that row's transaction, so it is not performed yet;
a request that gives up waiting fails.

`Db.retryRun` of the whole system takes the request as one transaction.
-/

namespace Observatory.Retry

open Effect

/-- The columns of `runs` that the request reads or writes. -/
structure RunRow where
  id : RunId
  taskId : TaskId
  sourceRunId : Option RunId := none
  retryIdempotencyKey : Option Text := none
  status : RunStatus := .queued
  retryCount : Nat := 0
  tokenBudget : Nat := 0
  costBudget : Rat := 0
deriving DecidableEq, Repr, Inhabited

/-- The columns of `outbox_messages` that the request writes. -/
structure MessageRow where
  topic : String
  runId : RunId
  sourceRunId : RunId
  idempotencyKey : Key
deriving DecidableEq, Repr, Inhabited

structure Req where
  runId : Text
  rawKey : Text
deriving DecidableEq, Repr

inductive Reply where
  | ok (run source : RunId) (retryCount : Nat) (dedup : Bool)
  | httpError (code : Nat) (detail : String)
  /-- an exception nothing handles: the server's own 500 -/
  | internalError
deriving DecidableEq, Repr

inductive Op where
  /-- `s.get(models.Run, uid)` -/
  | getRun (r : RunId)
  /-- the run with this `source_run_id` and `retry_idempotency_key` -/
  | selectRetry (r : RunId) (key : Text)
  /-- the flushed `INSERT INTO runs`; the row's `id` is handed out here -/
  | insertRun (row : RunRow)
  /-- the `INSERT INTO outbox_messages` that the commit flushes -/
  | insertMessage (m : MessageRow)
  | commit
  | rollback
  | respond (q : Req) (rep : Reply)

abbrev Op.Ans : Op → Type
  | getRun _ => Option RunRow
  | selectRetry .. => Option RunRow
  | insertRun _ => RunId
  | _ => Unit

abbrev Sys : Sig where
  Op := Op
  Ans := Op.Ans
  Err := LibError

abbrev Proc := Prog Sys LibError

def perform (o : Op) : Proc o.Ans := Prog.call (S := Sys) id o

/-- `idem_key`. -/
def retryKey (r : RunId) (key : Text) : Key := [.str "retry:", .uuid r, .str ":", key]

def retryOf (run : RunRow) (r : RunId) (key : Text) : RunRow :=
  { id := 0, taskId := run.taskId, sourceRunId := some r, retryIdempotencyKey := some key,
    retryCount := run.retryCount + 1, tokenBudget := run.tokenBudget,
    costBudget := run.costBudget }

/-- The message for the retry `new` of the run `r`. -/
def messageFor (r : RunId) (key : Text) (new : RunId) : MessageRow :=
  { topic := "lumi.run_queued", runId := new, sourceRunId := r, idempotencyKey := retryKey r key }

def isIntegrityError (x : LibError) : Bool := x.cls = "IntegrityError"

/-- The `except IntegrityError` of `retry_run`: the retry somebody else has created. -/
def requery (run : RunRow) (r : RunId) (key : Text) : Proc Reply := do
  perform .rollback
  match ← perform (.selectRetry r key) with
  | some er => pure (.ok er.id run.id er.retryCount true)
  | none => pure (.httpError 500 "retry commit hatası")

/-- The part of `retry_run` that creates the retry: the flush stands before the `try`. -/
def createRetry (run : RunRow) (r : RunId) (key : Text) : Proc Reply := do
  let new ← perform (.insertRun (retryOf run r key))
  let committed : Proc Unit := do
    perform (.insertMessage (messageFor run.id key new))
    perform .commit
  match ← committed.attempt with
  | .ok _ => pure (.ok new run.id (run.retryCount + 1) false)
  | .error x => if isIntegrityError x then requery run r key else throw x

def retryRun (q : Req) : Proc Reply :=
  match q.runId.toUuid? with
  | none => pure (.httpError 400 "run_id geçersiz")
  | some r => do
    let key := Api.clientKey q.rawKey
    match ← perform (.getRun r) with
    | none => pure (.httpError 404 "run bulunamadı")
    | some run =>
      if !run.status.isTerminal then
        pure (.httpError 409 ("run terminal değil (" ++ run.status.value ++ "), retry edilemez"))
      else
        match ← perform (.selectRetry r key) with
        | some er => pure (.ok er.id run.id er.retryCount true)
        | none => createRetry run r key

/-- A request and its response. -/
def Req.program (q : Req) : Proc Unit := do
  match ← (retryRun q).attempt with
  | .ok rep => perform (.respond q rep)
  | .error _ => perform (.respond q .internalError)

/-! ## The database -/

structure World where
  runs : Store Pid RunRow
  outbox : Store Pid MessageRow
  nextId : RunId

/-- The row is the retry of `r` under `key`. -/
def names (r : RunId) (key : Text) (row : RunRow) : Bool :=
  row.sourceRunId = some r && row.retryIdempotencyKey = some key

/-- `uq_runs_source_retry_key`; a row with a null in it clashes with none. -/
def runClash (row row' : RunRow) : Bool :=
  match row.sourceRunId, row.retryIdempotencyKey with
  | some r, some key => names r key row'
  | _, _ => false

/-- `uq_outbox_idempotency`. -/
def messageClash (m m' : MessageRow) : Bool := m.idempotencyKey = m'.idempotencyKey

/-- The number of characters of a text; an hour stamp is `%Y-%m-%d-%H`. -/
def textLength : Text → Nat
  | .str s => s.length
  | .uuid _ => 36
  | .hour _ => 13

def keyLength (k : Key) : Nat := (k.map textLength).sum

/-- PostgreSQL stores no text with a zero character. -/
def storable : Text → Bool
  | .str s => !s.toList.contains (Char.ofNat 0)
  | _ => true

def integrityError : LibError := ⟨"IntegrityError", "duplicate key value"⟩

def dataError : LibError := ⟨"DataError", "value cannot be stored"⟩

def lockNotAvailable : LibError := ⟨"OperationalError", "lock not available"⟩

/-- `INSERT` into a table with a unique constraint. -/
def insertRow {R : Type} (clash : R → R → Bool) (s : Store Pid R) (p : Pid) (x : R) :
    Except LibError (Store Pid R) :=
  if (s.visible p).any (clash x) then .error integrityError
  else if s.blocked clash x then .error lockNotAvailable
  else .ok (s.insert p x)

namespace World

/-- The end of a transaction without a commit. -/
def abort (w : World) (p : Pid) : World :=
  { w with runs := w.runs.rollback p, outbox := w.outbox.rollback p }

def perform (w : World) (p : Pid) : (o : Op) → World × Except LibError o.Ans
  | .getRun r => (w, .ok ((w.runs.visible p).find? (·.id = r)))
  | .selectRetry r key =>
    if storable key then (w, .ok ((w.runs.visible p).find? (names r key)))
    else (w, .error dataError)
  | .insertRun row =>
    let new := { row with id := w.nextId }
    match insertRow runClash w.runs p new with
    | .ok runs => ({ w with runs, nextId := w.nextId + 1 }, .ok new.id)
    | .error x => (w, .error x)
  | .insertMessage m =>
    if 128 < keyLength m.idempotencyKey then (w, .error dataError)
    else
      match insertRow messageClash w.outbox p m with
      | .ok outbox => ({ w with outbox }, .ok ())
      | .error x => (w, .error x)
  | .commit => ({ w with runs := w.runs.commit p, outbox := w.outbox.commit p }, .ok ())
  | .rollback => (w.abort p, .ok ())
  | .respond .. => (w, .ok ())

end World

/-- Any number of requests over one database. -/
def retries : Machine Sys LibError where
  World := World
  Req := Req
  Choice := Unit
  Tick := Empty
  program := Req.program
  perform w p o _ := World.perform w p o
  leave := World.abort
  tick w _ := w

end Observatory.Retry
