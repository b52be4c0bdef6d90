import Observatory.Model.Transactions
import Observatory.Model.Queue

/-!
# Operations of the system

What a process of the system can do in one step: a database transaction, a Redis command, or
something outside both (the model, a tool, a clock, its own heartbeat task).  `Sys` is the signature
of these operations; programs over it are the translations of the source's coroutines.
-/

namespace Observatory

open Effect

/-- Database transactions. -/
inductive DbOp where
  | openRun (r : RunId)
  | claimRun (r : RunId)
  | continuation (r : RunId)
  | markAmbiguous (r : RunId) (a : ApprovalId)
  | continuationSucceeded (r : RunId) (a : ApprovalId) (tool : String) (args : Dict)
      (result : Json)
  | continuationFailed (r : RunId) (a : ApprovalId) (error : Dict)
  | appendEvent (r : RunId) (etype : EventType) (payload : Dict)
  | insertPlan (r : RunId) (plan : Dict)
  | insertToolCall (r : RunId) (tool : String) (args : Dict) (result : Json)
  | createApproval (r : RunId) (cls : ActionClass) (payload : ActionPayload) (impact : String)
  | pauseCheck (r : RunId)
  | stopCheck (r : RunId)
  | finalCommit (r : RunId) (loaded : Run) (o : Db.Outcome)
  | selectOutbox
  | commitOutbox (attempts : List (MessageId × OutboxMessage × Db.Attempt))
  | selectExecuting
  | commitRecovery (rows : List (RunId × Run))
  | selectSources
  | hasTask (idem : Key)
  | commitSources (accesses : List Db.Access)
  | createTask (t : Db.TaskCreate) (hex : Nat)
  | loadRun (r : RunId)
  | setControl (r : RunId) (loaded : Run) (request : Option Control)
  | retryRun (r : RunId) (clientKey : Text)
  | decide (approvalId : Text) (decision : String) (user : Option Nat)
  | insertTask (title prompt : String)
  | resumeRun (r : RunId) (loaded : Run)

namespace DbOp

abbrev Ans : DbOp → Type
  | openRun _ => Db.Opened
  | claimRun _ => Bool
  | continuation _ => Db.Continuation
  | createApproval .. => ApprovalId
  | pauseCheck _ => Bool
  | stopCheck _ => Bool
  | selectOutbox => List (MessageId × OutboxMessage)
  | selectExecuting => List (RunId × Run)
  | selectSources => List (SourceId × Source)
  | hasTask _ => Bool
  | createTask .. => Db.Reply
  | loadRun _ => Option Run
  | retryRun .. => Db.Reply
  | decide .. => ApprovalId × Approval
  | insertTask .. => RunId
  | _ => Unit

/-- A transaction that cannot refuse. -/
def done {α : Type} (r : Db × α) : Db × Except LibError α := (r.1, .ok r.2)

/-- A transaction that may refuse, and then leaves the rows as they were. -/
def orRollback {α : Type} (db : Db) : Except LibError (Db × α) → Db × Except LibError α
  | .ok (db', a) => (db', .ok a)
  | .error x => (db, .error x)

def orRollback' (db : Db) (r : Except LibError Db) : Db × Except LibError Unit :=
  orRollback db (r.map fun db' => (db', ()))

/-- `r.control_request == request`, a missing row counting as no. -/
def controlIs (db : Db) (r : RunId) (request : Control) : Bool :=
  db.runs[r]?.any (·.controlRequest = some request)

/-- What a transaction of worker `w` does when it commits at `now`. -/
def exec (db : Db) (now : Time) (w : WorkerId) : (o : DbOp) → Db × Except LibError o.Ans
  | openRun r => done (db.openRun now r)
  | claimRun r => done (db.claimRun now r w)
  | continuation r => orRollback db (db.continuation now r)
  | markAmbiguous r a => done (db.markAmbiguous now a r, ())
  | continuationSucceeded r a tool args result =>
    done (db.continuationSucceeded now r a tool args result, ())
  | continuationFailed r a error => done (db.continuationFailed now r a error, ())
  | appendEvent r etype payload => orRollback' db (db.appendRunEventSafe now r etype payload)
  | insertPlan r plan => done ({ db with plans := db.plans ++ [⟨r, plan⟩] }, ())
  | insertToolCall r tool args result =>
    done ({ db with
      toolCalls := db.toolCalls ++ [⟨r, tool, args, result, .readOnly, "ALLOW", now⟩] }, ())
  | createApproval r cls payload impact => done (ApprovalService.create db now r cls payload impact)
  | pauseCheck r => done (db, controlIs db r .pause)
  | stopCheck r => done (db, controlIs db r .stop)
  | finalCommit r loaded o => done (db.finalCommit now r loaded o, ())
  | selectOutbox => done (db, db.selectOutbox)
  | commitOutbox attempts => done (db.commitOutbox now attempts, ())
  | selectExecuting => done (db, db.selectExecuting)
  | commitRecovery rows => orRollback' db (db.commitRecovery now rows)
  | selectSources => done (db, db.selectSources)
  | hasTask idem => done (db, db.hasTask idem)
  | commitSources accesses => orRollback' db (db.commitSources now accesses)
  | createTask t hex => orRollback db (db.createTask now t hex)
  | loadRun r => done (db, db.loadRun r)
  | setControl r loaded request => done (db.setControl now r loaded request, ())
  | retryRun r clientKey => orRollback db (db.retryRun now r clientKey)
  | decide approvalId decision user => decideTransaction db now approvalId decision user
  | insertTask title prompt => done (db.insertTask now title prompt)
  | resumeRun r loaded => done (db.resumeRun now r loaded, ())

end DbOp

/-- Redis commands. -/
inductive RedisOp where
  | readGroup
  | claimPending
  | ack (e : EntryId)
  | rpopLegacy
  | publishToStream (payload : Dict) (key : Option Key)
  | publishToDlq (payload : Dict) (reason : String)

namespace RedisOp

abbrev Ans : RedisOp → Type
  | readGroup => Option (EntryId × Body)
  | claimPending => Option (EntryId × Body)
  | rpopLegacy => Option Body
  | publishToStream .. => EntryId
  | _ => Unit

def exec (q : Redis) (now : Time) (w : WorkerId) (trim : Nat) : (o : RedisOp) → Redis × o.Ans
  | readGroup => q.readGroup w now
  | claimPending => q.claimPending w now Db.leaseMs
  | ack e => (q.ack e, ())
  | rpopLegacy => q.rpopLegacy
  | publishToStream payload key => q.publishToStream payload key trim
  | publishToDlq payload reason => (q.publishToDlq payload reason, ())

end RedisOp

/-- Who calls a tool: the loop of the coordinator, or the continuation of an approval. -/
inductive Caller where
  | coordinator
  | continuation (a : ApprovalId)
deriving DecidableEq, Repr

/-- Everything else. -/
inductive ExtOp where
  | makePlan (prompt : String) (scope : Dict)
  /-- `registry.call` on behalf of a run -/
  | callTool (r : RunId) (caller : Caller) (tool : String) (args : Dict)
  | monotonic (reading : Reading)
  | utcnow
  | startHeartbeat (r : RunId)
  | stopHeartbeat
  | reply (r : Db.Reply)

namespace ExtOp

abbrev Ans : ExtOp → Type
  | makePlan .. => Plan
  | callTool .. => Json
  | monotonic _ => Seconds
  | utcnow => Time
  | _ => Unit

end ExtOp

inductive Op where
  | db (o : DbOp)
  | redis (o : RedisOp)
  | ext (o : ExtOp)

namespace Op

abbrev Ans : Op → Type
  | db o => o.Ans
  | redis o => o.Ans
  | ext o => o.Ans

/-- Reading a clock and minding one's own heartbeat task cannot fail. -/
def fallible : Op → Bool
  | ext (.monotonic _) | ext .utcnow | ext (.startHeartbeat _) | ext .stopHeartbeat => false
  | _ => true

end Op

abbrev Sys : Sig := ⟨Op, Op.Ans, LibError⟩

/-- Programs of the system. -/
abbrev Proc (α : Type) := Prog Sys PyExc α

namespace Proc

def db (o : DbOp) : Proc o.Ans := Prog.call (S := Sys) PyExc.lib (.db o)

def redis (o : RedisOp) : Proc o.Ans := Prog.call (S := Sys) PyExc.lib (.redis o)

def ext (o : ExtOp) : Proc o.Ans := Prog.call (S := Sys) PyExc.lib (.ext o)

end Proc

end Observatory
