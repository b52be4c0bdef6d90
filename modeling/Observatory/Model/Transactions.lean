import Observatory.Model.Policy
import Observatory.Model.Coordinator
import Observatory.Model.Queue
import Mathlib.Data.List.Sort

/-!
# Transactions

Every database transaction of the worker, the scheduler and the operators' entry points, each as a
function on the committed rows at the time it commits.  A read that the source keeps apart from its
later write (`_process_run` loading the run before its claim, `recover_stuck_runs`, `publish_outbox`
and `check_sources` loading rows before they commit, `control_run`, `cmd_pause`, `cmd_stop` and
`cmd_resume` loading the run they change) is a transaction of its own here; what was loaded is then
an argument of the write.  Where a row is locked while it is read, or a unique index refuses what
another transaction has inserted meanwhile, read and write are one.
-/

namespace Observatory

namespace Db

variable (db : Db) (now : Time)

/-! ## The worker -/

/-- What `_process_run` finds before it claims. -/
inductive Opened where
  | missing
  | terminal
  | taskNotFound
  | ready (run : Run) (task : Task)
deriving Repr

/-- A run whose task is gone fails at once. -/
def taskNotFound (run : Run) : Run :=
  { run with status := .failed, error := some "task_not_found", updatedAt := now }

def openRun (r : RunId) : Db × Opened :=
  match db.runs[r]? with
  | none => (db, .missing)
  | some run =>
    if run.status.isTerminal then (db, .terminal)
    else
      match db.tasks[run.taskId]? with
      | some task => (db, .ready run task)
      | none =>
        (db.updateRun r (taskNotFound now), .taskNotFound)

/-- `self._lease_ms`. -/
def leaseMs : Time := 30000

/-- The `WHERE` clause of the claim. -/
def claimable (run : Run) : Bool :=
  run.status = .queued ||
    (run.status = .executing && run.leaseExpiresAt.all (· < now))

/-- The `SET` clause of the claim. -/
def claimed (w : WorkerId) (run : Run) : Run :=
  { run with
    status := .executing
    workerId := some w
    heartbeatAt := some now
    leaseExpiresAt := some (now + leaseMs)
    startedAt := run.startedAt.or (some now) }

/-- The claim `UPDATE`; the answer is `rowcount = 1`. -/
def claimRun (r : RunId) (w : WorkerId) : Db × Bool :=
  match db.runs[r]? with
  | none => (db, false)
  | some run =>
    if claimable now run then (db.updateRun r (claimed now w), true) else (db, false)

/-- The heartbeat's `UPDATE`, of the worker's own row. -/
def beaten (w : WorkerId) (run : Run) : Run :=
  if run.workerId = some w then
    { run with heartbeatAt := some now, leaseExpiresAt := some (now + leaseMs) }
  else run

/-- One round of the heartbeat loop. -/
def heartbeat (r : RunId) (w : WorkerId) : Db := db.updateRun r (beaten now w)

/-- FAILED, for a human to look at. -/
def needsReconciliation (run : Run) : Run :=
  { run with status := .failed, error := some "needs_reconciliation", finishedAt := some now,
             updatedAt := now }

def completed (run : Run) : Run :=
  { run with status := .completed, finishedAt := some now, updatedAt := now }

/-- A run that is still EXECUTING becomes FAILED. -/
def failIfExecuting (r : RunId) : Db :=
  db.updateRun r fun run => if run.status = .executing then needsReconciliation now run else run

/-- A run that is still EXECUTING becomes COMPLETED. -/
def completeIfExecuting (r : RunId) : Db :=
  db.updateRun r fun run => if run.status = .executing then completed now run else run

/-- What `_try_continuation` finds and commits before it calls anything. -/
inductive Continuation where
  /-- no approval to go on with -/
  | none
  /-- CONSUMED with a PENDING execution -/
  | pendingExecution (a : ApprovalId)
  /-- CONSUMED and settled; the event to append afterwards -/
  | settled (a : ApprovalId) (etype : EventType) (reason : String)
  /-- APPROVED, but `consume_and_record` refused -/
  | refused (a : ApprovalId)
  | consumed (a : ApprovalId) (payload : ActionPayload)
deriving Repr

/-- The CONSUMED branch: never call again, settle the run by the execution found. -/
def settleConsumed (r : RunId) (a : ApprovalId) : Except LibError (Db × Continuation) :=
  match db.executionOf a with
  | some ex =>
    match ex.status with
    | .pending => .ok (db, .pendingExecution a)
    | .succeeded =>
      .ok (db.completeIfExecuting now r, .settled a .approvalReplayBlocked "already_succeeded")
    | .failed | .ambiguous =>
      .ok (db.failIfExecuting now r, .settled a .approvalReplayBlocked ex.status.lower)
  | none => do
    let db' ← db.addExecution
      { approvalId := a, runId := r, actionId := .uuid a, tool := "", status := .ambiguous,
        result := [("reason", .str "consumed_without_execution")] }
    return (db'.failIfExecuting now r, .settled a .approvalAmbiguous "consumed_no_execution")

/-- The lookup of `_try_continuation`: APPROVED approvals first, then CONSUMED ones. -/
def continuation (r : RunId) : Except LibError (Db × Continuation) :=
  match newest (·.createdAt) (fun a => a.runId = r && a.status = .approved) db.approvals with
  | some (a, _) => do
    match ← ApprovalService.consumeAndRecord db now a r with
    | (db', .consumed appr) => return (db', .consumed a appr.payload)
    | (db', .refused) => return (db', .refused a)
  | none =>
    match newest (·.createdAt) (fun a => a.runId = r && a.status = .consumed) db.approvals with
    | some (a, _) => db.settleConsumed now r a
    | none => .ok (db, .none)

/-- A PENDING execution found after a crash: its outcome is unknown, for good. -/
def markAmbiguous (a : ApprovalId) (r : RunId) : Db :=
  (db.updateExecution a ({ · with status := .ambiguous })).failIfExecuting now r

/-- The finalisation after a continuation's call returned. -/
def continuationSucceeded (r : RunId) (a : ApprovalId) (tool : String) (args : Dict)
    (result : Json) : Db :=
  let called : ToolCallRow := ⟨r, tool, args, result, .publicWrite, "APPROVED", now⟩
  let recorded := { db with toolCalls := db.toolCalls ++ [called] }
  (recorded.updateExecution a
      ({ · with status := .succeeded, result := [("result", result)] })).updateRun r (completed now)

/-- The finalisation after a continuation's call raised. -/
def continuationFailed (r : RunId) (a : ApprovalId) (error : Dict) : Db :=
  (db.updateExecution a ({ · with status := .ambiguous, result := error })).updateRun r
    (needsReconciliation now)

/-- `append_run_event_safe`, all its retries taken together. -/
def appendRunEventSafe (r : RunId) (etype : EventType) (payload : Dict) : Except LibError Db :=
  match db.runs[r]? with
  | some _ => .ok (db.appendRunEventInSession now r etype payload)
  | none => .error ⟨"IntegrityError", "run_events_run_id_fkey"⟩

/-- What the coordinator hands back for the final commit. -/
structure Outcome where
  status : RunStatus
  iteration : Nat
  tokenUsed : Nat
  costUsed : Rat
deriving Repr, Inhabited, DecidableEq

/-- The unit of work writes a column only if the attribute no longer has the value it was loaded
with; otherwise the column keeps what is in the table. -/
def written {α : Type} [DecidableEq α] (loaded new current : α) : α :=
  if new = loaded then current else new

/-- The row after the final commit. -/
def committed (loaded : Run) (o : Outcome) (run : Run) : Run :=
  let finishedAt := if o.status.isTerminal then some now else loaded.finishedAt
  let error :=
    if o.status = .failed then
      match loaded.error with
      | none | some "" => some "worker_yurutme_hatasi"
      | some e => some e
    else loaded.error
  { run with
    status := written loaded.status o.status run.status
    iteration := written loaded.iteration o.iteration run.iteration
    tokenUsed := written loaded.tokenUsed o.tokenUsed run.tokenUsed
    costUsed := written loaded.costUsed o.costUsed run.costUsed
    finishedAt := written loaded.finishedAt finishedAt run.finishedAt
    error := written loaded.error error run.error
    heartbeatAt := written loaded.heartbeatAt (some now) run.heartbeatAt
    updatedAt := now }

/-- The final commit of `_process_run`, from the row that was loaded before the claim. -/
def finalCommit (r : RunId) (loaded : Run) (o : Outcome) : Db :=
  db.updateRun r (committed now loaded o)

/-! ## The scheduler -/

/-- `WHERE NOT processed ORDER BY created_at LIMIT 20`. -/
def selectOutbox : List (MessageId × OutboxMessage) :=
  let unprocessed := db.outbox.zipIdx.filterMap fun (m, i) =>
    if m.processed then none else some (i, m)
  (unprocessed.insertionSort fun x y => x.2.createdAt ≤ y.2.createdAt).take 20

/-- What one attempt to publish changes in its message. -/
inductive Attempt where
  | published (streamId : EntryId)
  | failed (lastError : String)
deriving Repr

/-- The columns an attempt writes, from the message as it was loaded. -/
def attempted (now : Time) (loaded : OutboxMessage) : Attempt → OutboxMessage → OutboxMessage
  | .published sid, m =>
    { m with processed := true, processedAt := some now, streamId := some sid,
             attempts := loaded.attempts + 1 }
  | .failed e, m => { m with attempts := loaded.attempts + 1, lastError := some e }

def commitOutbox (attempts : List (MessageId × OutboxMessage × Attempt)) : Db :=
  attempts.foldl (fun db (i, loaded, att) =>
    { db with outbox := db.outbox.modify i (attempted now loaded att) }) db

/-- `SELECT ... WHERE status = 'EXECUTING'`. -/
def selectExecuting : List (RunId × Run) :=
  db.runs.zipIdx.filterMap fun (run, i) => if run.status = .executing then some (i, run) else none

/-- `self._stuck_threshold`. -/
def stuckThreshold : Time := 15 * 60 * 1000

/-- The test of `recover_stuck_runs` on a loaded row. -/
def stuck (cutoff now : Time) (run : Run) : Bool :=
  (run.heartbeatAt.getD run.updatedAt < cutoff) || run.leaseExpiresAt.any (· < now)

/-- Seconds of `30 * 2 ** (retry - 1)`. -/
def backoffSec (retry : Nat) : Nat := 30 * 2 ^ (retry - 1)

/-- The columns the recovery writes, from the row as it was loaded. -/
def recovered (now : Time) (loaded : Run) (run : Run) : Run :=
  { run with
    status := .failed
    error := written loaded.error (some "stuck_run_recovered") run.error
    finishedAt := written loaded.finishedAt (some now) run.finishedAt
    heartbeatAt := written loaded.heartbeatAt (some now) run.heartbeatAt
    retryCount := loaded.retryCount + 1
    updatedAt := now }

/-- Recovery of one loaded run: FAILED, then a new run with its message, or the DLQ event. -/
def recoverRun (now : Time) (db : Db) : RunId × Run → Except LibError Db
  | (r, loaded) => do
    let retry := loaded.retryCount + 1
    let failed := (db.updateRun r (recovered now loaded)).appendRunEventInSession now r
      .stuckRecovered [("reason", .str "lease_expired"),
        ("worker_id", (loaded.workerId.map fun w => Json.uuid w).getD .null)]
    if retry > 3 then
      return failed.appendRunEventInSession now r .dlq [("retry_count", .int retry)]
    let (added, new) := failed.addRun
      { taskId := loaded.taskId, tokenBudget := loaded.tokenBudget,
        costBudget := loaded.costBudget, retryCount := retry, createdAt := now, updatedAt := now }
    let sent ← added.addMessage
      { payload := [("run_id", .uuid new), ("task_id", .uuid loaded.taskId), ("retry_of", .uuid r)]
        idempotencyKey := [.str "retry:", .uuid r, .str ":", .uuid new]
        createdAt := now
        notBefore := some (now + backoffSec retry * 1000) }
    return sent.appendRunEventInSession now new .retryQueued
      [("from_run", .uuid r), ("backoff_sec", .int (backoffSec retry))]

def commitRecovery (rows : List (RunId × Run)) : Except LibError Db :=
  rows.foldlM (recoverRun now) db

/-- `settings.RUN_MAX_TOKEN_BUDGET` and `settings.RUN_MAX_COST_BUDGET`. -/
def freshRun (t : TaskId) : Run :=
  { taskId := t, tokenBudget := 200000, costBudget := 5, createdAt := now, updatedAt := now }

def hourMs : Time := 60 * 60 * 1000

/-- `select(models.Source).where(models.Source.is_enabled.is_(True))`. -/
def selectSources : List (SourceId × Source) :=
  db.sources.zipIdx.filterMap fun (src, i) => if src.isEnabled then some (i, src) else none

/-- The key of the task of one source in one hour. -/
def sourceKey (i : SourceId) (hour : Int) : Key := [.str "source:", .uuid i, .str ":", .hour hour]

/-- `select(models.Task).where(models.Task.idempotency_key == idem)`. -/
def hasTask (idem : Key) : Bool := db.tasks.any (·.idempotencyKey = some idem)

/-- What `check_sources` has in mind for a source that is due: it marks it as accessed, and enqueues
a run unless it has found the task of the hour. -/
structure Access where
  source : SourceId
  /-- the row it was loaded with -/
  loaded : Source
  hour : Int
  found : Bool
  accessedAt : Time
deriving Repr

/-- The column an access writes, from the row as it was loaded. -/
def accessed (a : Access) (src : Source) : Source :=
  { src with
    lastAccessedAt := written a.loaded.lastAccessedAt (some a.accessedAt) src.lastAccessedAt }

def sourceTask (i : SourceId) (src : Source) (hour : Int) : Task :=
  { title := "Kaynak gözetimi: " ++ src.name
    prompt := "Kaynak " ++ src.name ++ " (" ++ src.sourceType ++
      ") gözetimi: değişiklikleri tara, kanıt topla, rapor üret."
    scope := [("source_id", .uuid i), ("source_type", .str src.sourceType)]
    idempotencyKey := some (sourceKey i hour) }

/-- One source of `check_sources`: task, run, message and event, unless the task was found. -/
def accessSource (now : Time) (db : Db) (a : Access) : Except LibError Db :=
  let marked (db : Db) : Db := { db with sources := db.sources.modify a.source (accessed a) }
  if a.found then .ok (marked db)
  else do
    let (db, t) ← db.addTask (sourceTask a.source a.loaded a.hour)
    let (added, r) := db.addRun (freshRun now t)
    let sent ← added.addMessage
      { payload := [("run_id", .uuid r), ("task_id", .uuid t), ("source_id", .uuid a.source)]
        idempotencyKey := [.str "run:", .uuid r]
        createdAt := now }
    return marked (sent.appendRunEventInSession now r .queued [("source_id", .uuid a.source)])

def commitSources (accesses : List Access) : Except LibError Db :=
  accesses.foldlM (accessSource now) db

/-! ## The operators -/

/-- The body of `POST /api/v1/tasks`. -/
structure TaskCreate where
  title : String
  prompt : String
  scope : Dict := []
  idempotencyKey : Option Key := none
deriving Repr, Inhabited

/-- A part of a message to a chat: a text, or the beginning of one. -/
inductive Part where
  | whole (t : Text)
  | clipped (n : Nat) (t : Text)
deriving Repr

/-- Answers of the entry points, by status code. -/
inductive Reply where
  | created (task : TaskId) (run : RunId)
  | ok (run : RunId) (dedup : Bool)
  | control (run : RunId) (request : Option Control)
  | decided (a : ApprovalId) (status : ApprovalStatus)
  | httpError (code : Nat) (detail : String)
  | chat (message : List Part)
deriving Repr

/-- `create_task`: task, run and outbox message in one transaction.  `hex` is the random part of
an `auto:` key. -/
def createTask (t : TaskCreate) (hex : Nat) : Except LibError (Db × Reply) :=
  -- the empty text counts as no key
  let key := t.idempotencyKey.filter (· ≠ [])
  let outboxKey : Key := match key with
    | some k => .str "task:" :: k
    | none => [.str "auto:", .uuid hex]
  if key.any fun k => db.tasks.any (·.idempotencyKey = some k) then
    .ok (db, .httpError 409 "idempotency key zaten kullanıldı")
  else do
    let task : Task :=
      { title := t.title, prompt := t.prompt, scope := t.scope, idempotencyKey := t.idempotencyKey }
    let (db, i) ← db.addTask task
    let (added, r) := db.addRun (freshRun now i)
    let sent ← added.addMessage
      { payload := [("run_id", .uuid r), ("task_id", .uuid i)]
        idempotencyKey := outboxKey
        createdAt := now }
    return (sent, .created i r)

/-- `s.get(models.Run, r)`, without a lock. -/
def loadRun (r : RunId) : Option Run := db.runs[r]?

/-- `run.control_request = request` on a loaded row.  Without a net change there is no `UPDATE`. -/
def controlled (loaded : Run) (request : Option Control) (run : Run) : Run :=
  if request = loaded.controlRequest then run
  else { run with controlRequest := request, updatedAt := now }

/-- The commit of `control_run`, `cmd_pause` and `cmd_stop`. -/
def setControl (r : RunId) (loaded : Run) (request : Option Control) : Db :=
  db.updateRun r (controlled now loaded request)

/-- `retry_run`: a terminal run gets one successor per client key. -/
def retryRun (r : RunId) (clientKey : Text) : Except LibError (Db × Reply) :=
  match db.runs[r]? with
  | none => .ok (db, .httpError 404 "run bulunamadı")
  | some run =>
    if !run.status.isTerminal then
      .ok (db, .httpError 409 ("run terminal değil (" ++ run.status.value ++ "), retry edilemez"))
    else
      match db.runs.findIdx? fun x =>
          x.sourceRunId = some r && x.retryIdempotencyKey = some clientKey with
      | some er => .ok (db, .ok er true)
      | none => do
        let (added, new) := db.addRun
          { taskId := run.taskId, sourceRunId := some r, retryIdempotencyKey := some clientKey,
            retryCount := run.retryCount + 1, tokenBudget := run.tokenBudget,
            costBudget := run.costBudget, createdAt := now, updatedAt := now }
        let sent ← added.addMessage
          { payload := [("run_id", .uuid new), ("source_run_id", .uuid r)]
            idempotencyKey := [.str "retry:", .uuid r, .str ":", clientKey]
            createdAt := now }
        return (sent, .ok new false)

/-- The transaction of `cmd_ask` and `cmd_task`: no outbox message. -/
def insertTask (title prompt : String) : Db × RunId :=
  let task : Task := { title, prompt, scope := [], idempotencyKey := none }
  { db with tasks := db.tasks ++ [task] }.addRun (freshRun now db.tasks.length)

/-- The row after `cmd_resume`, from the row as it was loaded. -/
def resumed (loaded run : Run) : Run :=
  { run with
    controlRequest := written loaded.controlRequest none run.controlRequest
    status := if loaded.status = .paused then .queued else run.status
    updatedAt := now }

/-- `cmd_resume` goes on only with a loaded row that is paused or is to pause. -/
def resumable (loaded : Run) : Bool :=
  loaded.status = .paused || loaded.controlRequest = some .pause

/-- The commit of `cmd_resume`. -/
def resumeRun (r : RunId) (loaded : Run) : Db := db.updateRun r (resumed now loaded)

end Db

end Observatory
