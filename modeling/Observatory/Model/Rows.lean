import Observatory.Model.Value
import Mathlib.Data.List.Basic

/-!
# The database

The tables of `observability/models.py` that runs live in.  A table is the list of its rows in
insertion order, rows are never deleted, and a row's identifier is its position.
-/

namespace Observatory

abbrev TaskId := Nat
abbrev RunId := Nat
abbrev ApprovalId := Nat
abbrev MessageId := Nat
abbrev SourceId := Nat
/-- The `consumer_name` of a worker. -/
abbrev WorkerId := Nat

inductive RunStatus where
  | queued | contextBuilding | planning | policyCheck | waitingApproval | executing
  | verifying | persisting | completed | failed | cancelled | paused
deriving DecidableEq, Repr, Inhabited

/-- The status as it is stored, and as the END event quotes it. -/
def RunStatus.value : RunStatus → String
  | queued => "QUEUED"
  | contextBuilding => "CONTEXT_BUILDING"
  | planning => "PLANNING"
  | policyCheck => "POLICY_CHECK"
  | waitingApproval => "WAITING_APPROVAL"
  | executing => "EXECUTING"
  | verifying => "VERIFYING"
  | persisting => "PERSISTING"
  | completed => "COMPLETED"
  | failed => "FAILED"
  | cancelled => "CANCELLED"
  | paused => "PAUSED"

/-- COMPLETED, FAILED and CANCELLED. -/
def RunStatus.isTerminal : RunStatus → Bool
  | completed | failed | cancelled => true
  | _ => false

inductive ApprovalStatus where
  | pending | approved | rejected | expired | consumed
deriving DecidableEq, Repr, Inhabited

/-- The status as it is stored, and as error messages quote it. -/
def ApprovalStatus.value : ApprovalStatus → String
  | pending => "PENDING"
  | approved => "APPROVED"
  | rejected => "REJECTED"
  | expired => "EXPIRED"
  | consumed => "CONSUMED"

inductive ExecutionStatus where
  | pending | succeeded | failed | ambiguous
deriving DecidableEq, Repr, Inhabited

/-- `ex.status.lower()`. -/
def ExecutionStatus.lower : ExecutionStatus → String
  | pending => "pending"
  | succeeded => "succeeded"
  | failed => "failed"
  | ambiguous => "ambiguous"

inductive ActionClass where
  | readOnly | safeWrite | publicWrite | privilegedHost | destructive
deriving DecidableEq, Repr, Inhabited

/-- `Run.control_request`. -/
inductive Control where
  | pause | stop
deriving DecidableEq, Repr, Inhabited

/-- The event types of `RunEvent` rows and of the coordinator's own log. -/
inductive EventType where
  | started | plan | context | policyCheck | awaitingApproval | toolCall | toolError | verify | «end»
  | paused | cancelled | denied | circuitOpen
  | wallTimeExceeded | iterationLimit | toolCallLimit | tokenBudgetExceeded | costBudgetExceeded
  | fatal | workerError | approvalAmbiguous | approvalReplayBlocked
  | stuckRecovered | dlq | retryQueued | queued
deriving DecidableEq, Repr, Inhabited

/-- The type as it is stored, and as the sink's error messages quote it. -/
def EventType.value : EventType → String
  | started => "STARTED"
  | plan => "PLAN"
  | context => "CONTEXT"
  | policyCheck => "POLICY_CHECK"
  | awaitingApproval => "AWAITING_APPROVAL"
  | toolCall => "TOOL_CALL"
  | toolError => "TOOL_ERROR"
  | verify => "VERIFY"
  | «end» => "END"
  | paused => "PAUSED"
  | cancelled => "CANCELLED"
  | denied => "DENIED"
  | circuitOpen => "CIRCUIT_OPEN"
  | wallTimeExceeded => "WALL_TIME_EXCEEDED"
  | iterationLimit => "ITERATION_LIMIT"
  | toolCallLimit => "TOOL_CALL_LIMIT"
  | tokenBudgetExceeded => "TOKEN_BUDGET_EXCEEDED"
  | costBudgetExceeded => "COST_BUDGET_EXCEEDED"
  | fatal => "FATAL"
  | workerError => "WORKER_ERROR"
  | approvalAmbiguous => "APPROVAL_AMBIGUOUS"
  | approvalReplayBlocked => "APPROVAL_REPLAY_BLOCKED"
  | stuckRecovered => "STUCK_RECOVERED"
  | dlq => "DLQ"
  | retryQueued => "RETRY_QUEUED"
  | queued => "QUEUED"

structure Task where
  title : String
  prompt : String
  scope : Dict
  idempotencyKey : Option Key
deriving Repr, Inhabited

structure Run where
  taskId : TaskId
  sourceRunId : Option RunId := none
  retryIdempotencyKey : Option Text := none
  status : RunStatus := .queued
  iteration : Nat := 0
  tokenBudget : Nat := 0
  costBudget : Rat := 0
  tokenUsed : Nat := 0
  costUsed : Rat := 0
  startedAt : Option Time := none
  finishedAt : Option Time := none
  error : Option String := none
  heartbeatAt : Option Time := none
  leaseExpiresAt : Option Time := none
  workerId : Option WorkerId := none
  controlRequest : Option Control := none
  retryCount : Nat := 0
  createdAt : Time
  updatedAt : Time
deriving DecidableEq, Repr, Inhabited

/-- `Approval.payload`: the action an approval is for. -/
structure ActionPayload where
  actionId : String
  tool : String
  arguments : Dict
deriving Repr, Inhabited

structure Approval where
  runId : RunId
  actionClass : ActionClass
  impactSummary : String
  payload : ActionPayload
  status : ApprovalStatus := .pending
  decision : Option String := none
  decidedByUserId : Option Nat := none
  expiresAt : Time
  createdAt : Time
deriving Repr, Inhabited

structure ActionExecution where
  approvalId : ApprovalId
  runId : RunId
  actionId : Text
  tool : String
  status : ExecutionStatus := .pending
  result : Dict := []
deriving Repr, Inhabited

structure OutboxMessage where
  payload : Dict
  idempotencyKey : Key
  processed : Bool := false
  processedAt : Option Time := none
  attempts : Nat := 0
  lastError : Option String := none
  streamId : Option Nat := none
  createdAt : Time
  notBefore : Option Time := none
deriving Repr, Inhabited

structure Source where
  name : String
  sourceType : String
  isEnabled : Bool := true
  lastAccessedAt : Option Time := none
  backoffUntil : Option Time := none
deriving Repr, Inhabited, DecidableEq

structure RunEvent where
  runId : RunId
  seq : Nat
  eventType : EventType
  payload : Dict
  ts : Time
deriving Repr, Inhabited

structure PlanRow where
  runId : RunId
  planJson : Dict
deriving Repr, Inhabited

structure ToolCallRow where
  runId : RunId
  toolName : String
  input : Dict
  result : Json
  actionClass : ActionClass
  policyDecision : String
  ts : Time
deriving Repr, Inhabited

/-- The committed rows. -/
structure Db where
  tasks : List Task := []
  runs : List Run := []
  approvals : List Approval := []
  executions : List ActionExecution := []
  outbox : List OutboxMessage := []
  sources : List Source := []
  events : List RunEvent := []
  plans : List PlanRow := []
  toolCalls : List ToolCallRow := []
deriving Repr, Inhabited

namespace Db

/-- `UPDATE runs ... WHERE id = r`. -/
def updateRun (db : Db) (r : RunId) (f : Run → Run) : Db :=
  { db with runs := db.runs.modify r f }

def updateApproval (db : Db) (a : ApprovalId) (f : Approval → Approval) : Db :=
  { db with approvals := db.approvals.modify a f }

/-- The columns `scalar_one_or_none` finds the execution of an approval by. -/
def executionOf (db : Db) (a : ApprovalId) : Option ActionExecution :=
  db.executions.find? (·.approvalId = a)

def updateExecution (db : Db) (a : ApprovalId) (f : ActionExecution → ActionExecution) : Db :=
  { db with executions := db.executions.map fun x => if x.approvalId = a then f x else x }

/-- `uq_action_exec_approval` keeps one execution per approval. -/
def addExecution (db : Db) (x : ActionExecution) : Except LibError Db :=
  if db.executions.any (·.approvalId = x.approvalId) then
    .error ⟨"IntegrityError", "uq_action_exec_approval"⟩
  else .ok { db with executions := db.executions ++ [x] }

/-- `uq_outbox_idempotency` keeps the keys distinct. -/
def addMessage (db : Db) (m : OutboxMessage) : Except LibError Db :=
  if db.outbox.any (·.idempotencyKey = m.idempotencyKey) then
    .error ⟨"IntegrityError", "uq_outbox_idempotency"⟩
  else .ok { db with outbox := db.outbox ++ [m] }

/-- `ix_tasks_idempotency_key` keeps the keys that are not null distinct. -/
def addTask (db : Db) (x : Task) : Except LibError (Db × TaskId) :=
  if x.idempotencyKey.any fun k => db.tasks.any (·.idempotencyKey = some k) then
    .error ⟨"IntegrityError", "ix_tasks_idempotency_key"⟩
  else .ok ({ db with tasks := db.tasks ++ [x] }, db.tasks.length)

def addRun (db : Db) (x : Run) : Db × RunId :=
  ({ db with runs := db.runs ++ [x] }, db.runs.length)

/-- `coalesce(max(seq), -1) + 1` over the run's events. -/
def nextSeq (db : Db) (r : RunId) : Nat :=
  ((db.events.filter (·.runId = r)).map (·.seq + 1)).foldl max 0

/-- `append_run_event_in_session`. -/
def appendRunEventInSession (db : Db) (now : Time) (r : RunId) (etype : EventType)
    (payload : Dict) : Db :=
  { db with events := db.events ++ [⟨r, db.nextSeq r, etype, payload, now⟩] }

end Db

/-- `order_by(created_at.desc()).first()`: of the rows that satisfy `p` the newest, with its
position. -/
def newest {α : Type} (createdAt : α → Time) (p : α → Bool) (rows : List α) : Option (Nat × α) :=
  rows.zipIdx.foldl (fun best (x, i) =>
    if p x then
      match best with
      | none => some (i, x)
      | some (_, y) => if createdAt y ≤ createdAt x then some (i, x) else best
    else best) none

end Observatory
