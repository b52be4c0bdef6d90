import Observatory.Effect.Machine
import Observatory.Effect.Store
import Observatory.Model.OutboxKeys
import Observatory.Model.Rows

/-!
# Creating a task, statement by statement

`create_task` of `apps/api/app.py` under PostgreSQL READ COMMITTED: every statement of a request is
one operation, and a unique index is enforced when the `INSERT` is flushed.  An `INSERT` that meets
an uncommitted row with its key waits for that row's transaction, so it is not performed yet; a
request that gives up waiting fails.  `jsonb` tells which values a `JSONB` column takes.

`Db.createTask` of the whole system takes the request as one transaction.
-/

namespace Observatory.Creation

open Effect
open Canonical (Str)

/-- The columns of `tasks` that the request reads or writes. -/
structure TaskRow where
  id : TaskId
  title : Str
  prompt : Str
  scope : Dict
  budget : Dict
  idempotencyKey : Option Str

/-- The columns of `runs` that the request reads or writes. -/
structure RunRow where
  id : RunId
  taskId : TaskId
  status : RunStatus
  tokenBudget : Nat
  costBudget : Rat
  createdAt : Time

/-- The columns of `outbox_messages` that the request writes. -/
structure MessageRow where
  topic : String
  runId : RunId
  taskId : TaskId
  idempotencyKey : Str
  processed : Bool

/-- `TaskCreate`, and what `uuid4` gives if it is asked. -/
structure Req where
  title : Str
  prompt : Str
  scope : Dict := []
  budget : Dict := []
  idempotencyKey : Option Str := none
  uuid4 : Outbox.Uuid

inductive Reply where
  | created (task : TaskId) (run : RunId) (status : RunStatus)
  /-- 409 with the task and its latest run -/
  | used (task : TaskId) (run : Option RunId)
  | httpError (code : Nat) (detail : String)
  /-- an exception nothing handles: the server's own 500 -/
  | internalError
deriving DecidableEq, Repr

/-- The status code. -/
def Reply.code : Reply → Nat
  | created .. => 201
  | used .. => 409
  | httpError code _ => code
  | internalError => 500

inductive Op where
  /-- the task with this key -/
  | selectTask (key : Str)
  /-- the run of the task that was created last -/
  | latestRun (task : TaskId)
  /-- the flushed `INSERT INTO tasks`; the row's `id` is handed out here -/
  | insertTask (row : TaskRow)
  /-- the flushed `INSERT INTO runs`; `id` and `created_at` come from here -/
  | insertRun (row : RunRow)
  /-- the `INSERT INTO outbox_messages` that the commit flushes -/
  | insertMessage (m : MessageRow)
  | commit
  | rollback
  /-- the end of `async with async_session_factory()` -/
  | close
  | respond (q : Req) (rep : Reply)

abbrev Op.Ans : Op → Type
  | selectTask _ => Option TaskRow
  | latestRun _ => Option RunRow
  | insertTask _ => TaskId
  | insertRun _ => RunId
  | _ => Unit

abbrev Sys : Sig where
  Op := Op
  Ans := Op.Ans
  Err := LibError

abbrev Proc := Prog Sys LibError

def perform (o : Op) : Proc o.Ans := Prog.call (S := Sys) id o

/-- The key of the request if it has one; the empty text counts as none. -/
def Req.givenKey (q : Req) : Option Str := q.idempotencyKey.filter (· ≠ [])

/-- `outbox_key` -/
def Req.outboxKey (q : Req) : Str := Outbox.outboxKey q.idempotencyKey q.uuid4

def Req.task (q : Req) : TaskRow :=
  { id := 0, title := q.title, prompt := q.prompt, scope := q.scope, budget := q.budget,
    idempotencyKey := q.idempotencyKey }

/-- `settings.RUN_MAX_TOKEN_BUDGET` and `settings.RUN_MAX_COST_BUDGET`. -/
def runOf (task : TaskId) : RunRow :=
  { id := 0, taskId := task, status := .queued, tokenBudget := 200000, costBudget := 5,
    createdAt := 0 }

def Req.message (q : Req) (task : TaskId) (run : RunId) : MessageRow :=
  { topic := "lumi.run_queued", runId := run, taskId := task, idempotencyKey := q.outboxKey,
    processed := false }

def isIntegrityError (x : LibError) : Bool := x.cls = "IntegrityError"

/-- What the `except` takes for a key that is used already. -/
def saysUsed (x : LibError) : Bool :=
  "ix_tasks_idempotency_key".toList <:+: x.msg.toList || "uq_".toList <:+: x.msg.toList ||
    "idempotency".toList <:+: x.msg.toLower.toList

/-- The `except IntegrityError` of the commit. -/
def caught (x : LibError) : Proc Reply := do
  perform .rollback
  if saysUsed x then pure (.httpError 409 "idempotency key zaten kullanıldı (race)")
  else pure (.httpError 500 ("commit hatası: " ++ x.cls))

/-- The part of `create_task` that writes: the two flushes stand before the `try`. -/
def create (q : Req) : Proc Reply := do
  let task ← perform (.insertTask q.task)
  let run ← perform (.insertRun (runOf task))
  let committed : Proc Unit := do
    perform (.insertMessage (q.message task run))
    perform .commit
  match ← committed.attempt with
  | .ok _ => pure (.created task run .queued)
  | .error x => if isIntegrityError x then caught x else throw x

def createTask (q : Req) : Proc Reply :=
  match q.givenKey with
  | none => create q
  | some key => do
    match ← perform (.selectTask key) with
    | some row =>
      let rr ← perform (.latestRun row.id)
      pure (.used row.id (rr.map (·.id)))
    | none => create q

/-- A request and its response. -/
def Req.program (q : Req) : Proc Unit := do
  let rep ← (createTask q).attempt
  let closed ← (perform .close).attempt
  match rep, closed with
  | .ok rep, .ok _ => perform (.respond q rep)
  | _, _ => perform (.respond q .internalError)

/-! ## The database -/

structure World where
  tasks : Store Pid TaskRow := {}
  runs : Store Pid RunRow := {}
  outbox : Store Pid MessageRow := {}
  nextTask : TaskId := 0
  nextRun : RunId := 0
  now : Time := 0

/-- The row is the task with the key. -/
def keyed (key : Str) (row : TaskRow) : Bool := row.idempotencyKey = some key

/-- `ix_tasks_idempotency_key`; a row with a null in it clashes with none. -/
def taskClash (row row' : TaskRow) : Bool :=
  match row.idempotencyKey with
  | some key => keyed key row'
  | none => false

/-- `uq_outbox_idempotency`. -/
def messageClash (m m' : MessageRow) : Bool := m.idempotencyKey = m'.idempotencyKey

/-- PostgreSQL stores no zero character, and the driver encodes no surrogate. -/
def storable (s : Str) : Bool := s.all fun c => c.val ≠ 0 && !Canonical.isSurrogate c

/-- The row fits the columns: `String(255)`, `Text`, two `JSONB` and `String(128)`. -/
def TaskRow.fits (jsonb : Dict → Bool) (row : TaskRow) : Bool :=
  storable row.title && row.title.length ≤ 255 && storable row.prompt && jsonb row.scope &&
    jsonb row.budget && row.idempotencyKey.all fun key => storable key && key.length ≤ 128

def integrityError (constraint : String) : LibError :=
  ⟨"IntegrityError", "duplicate key value violates unique constraint \"" ++ constraint ++ "\""⟩

def dataError : LibError := ⟨"DataError", "value cannot be stored"⟩

def lockNotAvailable : LibError := ⟨"OperationalError", "lock not available"⟩

/-- `INSERT` into a table with a unique constraint. -/
def insertRow {R : Type} (constraint : String) (clash : R → R → Bool) (s : Store Pid R) (p : Pid)
    (x : R) : Except LibError (Store Pid R) :=
  if (s.visible p).any (clash x) then .error (integrityError constraint)
  else if s.blocked clash x then .error lockNotAvailable
  else .ok (s.insert p x)

/-- `order_by(Run.created_at.desc()).limit(1)` -/
def latest (runs : List RunRow) : Option RunRow :=
  runs.foldl (fun found r =>
    match found with
    | some r' => if r'.createdAt < r.createdAt then some r else found
    | none => some r) none

namespace World

/-- The end of a transaction without a commit. -/
def abort (w : World) (p : Pid) : World :=
  { w with tasks := w.tasks.rollback p, runs := w.runs.rollback p, outbox := w.outbox.rollback p }

def perform (jsonb : Dict → Bool) (w : World) (p : Pid) :
    (o : Op) → World × Except LibError o.Ans
  | .selectTask key =>
    if storable key then (w, .ok ((w.tasks.visible p).find? (keyed key)))
    else (w, .error dataError)
  | .latestRun task => (w, .ok (latest ((w.runs.visible p).filter (·.taskId = task))))
  | .insertTask row =>
    let new := { row with id := w.nextTask }
    if !new.fits jsonb then (w, .error dataError)
    else
      match insertRow "ix_tasks_idempotency_key" taskClash w.tasks p new with
      | .ok tasks => ({ w with tasks, nextTask := w.nextTask + 1 }, .ok new.id)
      | .error x => (w, .error x)
  | .insertRun row =>
    let new := { row with id := w.nextRun, createdAt := w.now }
    ({ w with runs := w.runs.insert p new, nextRun := w.nextRun + 1 }, .ok new.id)
  | .insertMessage m =>
    if Outbox.columnLength < m.idempotencyKey.length then (w, .error dataError)
    else
      match insertRow "uq_outbox_idempotency" messageClash w.outbox p m with
      | .ok outbox => ({ w with outbox }, .ok ())
      | .error x => (w, .error x)
  | .commit =>
    ({ w with tasks := w.tasks.commit p, runs := w.runs.commit p, outbox := w.outbox.commit p },
      .ok ())
  | .rollback | .close => (w.abort p, .ok ())
  | .respond .. => (w, .ok ())

end World

/-- Any number of requests over one database; the clock goes on. -/
def creations (jsonb : Dict → Bool) : Machine Sys LibError where
  World := World
  Req := Req
  Choice := Unit
  Tick := Time
  program := Req.program
  perform w p o _ := w.perform jsonb p o
  leave := World.abort
  tick w now := { w with now }

end Observatory.Creation
