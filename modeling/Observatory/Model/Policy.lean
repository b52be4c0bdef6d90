import Observatory.Model.Rows

/-!
# Policy and approvals

`policy/engine.py` and `policy/approval.py`.  A method of `ApprovalService` works on the session of
its caller: it takes the rows as the transaction sees them and hands back the rows after its
flushes, together with what it returns or raises.  The caller commits or rolls back.
-/

namespace Observatory

/-! ## The engine -/

inductive Decision where
  | allow | requireApproval | deny
deriving DecidableEq, Repr, Inhabited

/-- `PolicyDecision.decision` as events quote it. -/
def Decision.value : Decision → String
  | allow => "ALLOW"
  | requireApproval => "REQUIRE_APPROVAL"
  | deny => "DENY"

structure PolicyDecision where
  actionClass : ActionClass
  decision : Decision
  reason : String
deriving DecidableEq, Repr

/-- `TOOL_TO_ACTION`. -/
def toolToAction : String → Option ActionClass
  | "technocore_read" => some .readOnly
  | "github_repo_read" => some .readOnly
  | "http_json_read" => some .readOnly
  | "internal_health" => some .readOnly
  | "technocore_signed_write" => some .publicWrite
  | "db_self_write" => some .safeWrite
  | "apply_privileged" => some .privilegedHost
  | "destructive_op" => some .destructive
  | _ => none

/-- `_GATED`. -/
def gated : ActionClass → Bool
  | .publicWrite | .privilegedHost | .destructive => true
  | _ => false

/-- `ActionClass(...).value`. -/
def ActionClass.value : ActionClass → String
  | readOnly => "READ_ONLY"
  | safeWrite => "SAFE_WRITE"
  | publicWrite => "PUBLIC_WRITE"
  | privilegedHost => "PRIVILEGED_HOST"
  | destructive => "DESTRUCTIVE"

structure PolicyEngine where
  overrides : List (String × Decision) := []
deriving Inhabited

namespace PolicyEngine

def decide (p : PolicyEngine) (tool : String) : PolicyDecision :=
  match p.overrides.lookup tool with
  | some d => ⟨.readOnly, d, "override"⟩
  | none =>
    match toolToAction tool with
    | none => ⟨.destructive, .deny, "bilinmeyen araç: " ++ tool⟩
    | some cls =>
      if cls = .destructive then ⟨cls, .deny, "destructive requires phase approval"⟩
      else if cls = .privilegedHost then ⟨cls, .requireApproval, "host değişikliği insan onayı"⟩
      else if gated cls then ⟨cls, .requireApproval, "public write onayı"⟩
      else if cls = .safeWrite then ⟨cls, .allow, "audit log'lu kendi DB yazımı"⟩
      else ⟨cls, .allow, "otomatik (" ++ cls.value ++ ")"⟩

end PolicyEngine

/-! ## Approvals -/

def valueError (msg : String) : LibError := ⟨"ValueError", msg⟩

/-- `sub in s`. -/
def occursIn (sub s : String) : Bool := s.toList.tails.any (sub.toList.isPrefixOf ·)

namespace ApprovalService

/-- `ttl_seconds = 3600`. -/
def ttl : Time := 3600 * 1000

def create (db : Db) (now : Time) (r : RunId) (cls : ActionClass) (payload : ActionPayload)
    (impactSummary : String) : Db × ApprovalId :=
  ({ db with
      approvals := db.approvals ++
        [{ runId := r, actionClass := cls, impactSummary, payload, expiresAt := now + ttl,
           createdAt := now }] },
    db.approvals.length)

/-- The row after a decision. -/
def decided (decision : String) (user : Option Nat) (a : Approval) : Approval :=
  { a with
    status := if decision = "approve" then .approved else .rejected
    decision := some decision
    decidedByUserId := user }

/-- `SELECT ... FOR UPDATE`, expiry, status and the decision itself. -/
def decide (db : Db) (now : Time) (approvalId : Text) (decision : String) (user : Option Nat) :
    Db × Except LibError (ApprovalId × Approval) :=
  match approvalId with
  | .uuid uid =>
    match db.approvals[uid]? with
    | none => (db, .error (valueError "onay bulunamadı"))
    | some a =>
      if a.status ≠ .pending then
        (db, .error (valueError ("zaten karara bağlanmış: " ++ a.status.value)))
      else if a.expiresAt < now then
        (db.updateApproval uid ({ · with status := .expired }),
          .error (valueError "onay süresi dolmuş"))
      else if decision ≠ "approve" ∧ decision ≠ "reject" then
        (db, .error (valueError "decision approve|reject olmalı"))
      else
        (db.updateApproval uid (decided decision user), .ok (uid, decided decision user a))
  | _ => (db, .error (valueError "approval_id geçersiz"))

def requeued (now : Time) (run : Run) : Run :=
  if run.status = .waitingApproval then
    { run with status := .queued, controlRequest := none, updatedAt := now }
  else run

/-- The approved run goes back to the queue; the outbox message is part of the transaction. -/
def approveRun (db : Db) (now : Time) (a : ApprovalId) (r : RunId) : Except LibError Db :=
  (db.updateRun r (requeued now)).addMessage
    { payload := [("run_id", .uuid r), ("approval_id", .uuid a)]
      idempotencyKey := [.str "approve:", .uuid a]
      createdAt := now }

def rejected (now : Time) (run : Run) : Run :=
  if run.status = .waitingApproval then
    { run with status := .failed, error := some "approval_rejected", finishedAt := some now,
               updatedAt := now }
  else run

/-- The rejected run fails. -/
def rejectRun (db : Db) (now : Time) (r : RunId) : Db := db.updateRun r (rejected now)

/-- The decision, the transition of the run and the outbox message in one transaction. -/
def decideWithContinuation (db : Db) (now : Time) (approvalId : Text) (decision : String)
    (user : Option Nat) : Db × Except LibError (ApprovalId × Approval) :=
  match decide db now approvalId decision user with
  | (db', .error x) => (db', .error x)
  | (db', .ok (a, approval)) =>
    match db'.runs[approval.runId]? with
    | none => (db', .ok (a, approval))
    | some _ =>
      if decision = "approve" then
        match approveRun db' now a approval.runId with
        | .error x => (db', .error x)
        | .ok db'' => (db'', .ok (a, approval))
      else (rejectRun db' now approval.runId, .ok (a, approval))

/-- What `consume_and_record` returns besides the flag. -/
inductive Consumed where
  | consumed (a : Approval)
  | refused
deriving Repr

/-- APPROVED to CONSUMED once, with a PENDING execution in the same transaction. -/
def consumeAndRecord (db : Db) (now : Time) (aid : ApprovalId) (rid : RunId) :
    Except LibError (Db × Consumed) :=
  match db.approvals[aid]? with
  | none => .ok (db, .refused)
  | some a =>
    if a.expiresAt < now then
      if a.status = .pending then
        .ok (db.updateApproval aid ({ · with status := .expired }), .refused)
      else .ok (db, .refused)
    else if a.status ≠ .approved then .ok (db, .refused)
    else
      let recorded : ActionExecution :=
        { approvalId := aid
          runId := rid
          actionId := if a.payload.actionId = "" then .uuid aid else .str a.payload.actionId
          tool := a.payload.tool }
      match (db.updateApproval aid ({ · with status := .consumed })).addExecution recorded with
      | .error x => .error x
      | .ok db' => .ok (db', .consumed { a with status := .consumed })

end ApprovalService

/-- The transaction of `decide_approval` and of Telegram's `_decide_approval`: commit a decision,
commit an expiry too although it is reported as an error, roll back otherwise. -/
def decideTransaction (db : Db) (now : Time) (approvalId : Text) (decision : String)
    (user : Option Nat) : Db × Except LibError (ApprovalId × Approval) :=
  match ApprovalService.decideWithContinuation db now approvalId decision user with
  | (db', .ok a) => (db', .ok a)
  | (db', .error x) =>
    if x.cls = "ValueError" ∧ (occursIn "süresi dolmuş" x.msg ∨ occursIn "EXPIRED" x.msg) then
      (db', .error x)
    else (db, .error x)

end Observatory
