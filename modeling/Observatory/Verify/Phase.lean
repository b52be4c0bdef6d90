import Observatory.Model.World

/-!
# What a process is in the middle of

The code of one process fixes which operations it can perform next, given what its earlier ones
came back with.  `flow` says this as a protocol: a `Phase` is what the process holds (the entry it
still has to ACK) and the `Stage` its control has reached, with the data a later step writes or
compares.  The invariants of the system only speak about phases, never about program texts.

Stages of a worker, in order: `received`, `opened`, `claimed`, then either the continuation
(`pendingFound`, `settled`, `consumed`, `called`, `callFailed`) or the coordinator (`coordinating`
with a `Point` of its loop, `returned`), then `done`; an exception drops everything (`idle`).
-/

namespace Observatory

open Effect

/-- Where the coordinator is. -/
inductive Point where
  | starting
  | announcing
  | planned
  | looping
  | pauseClear (act : Action)
  | stopClear (act : Action)
  | admitted (act : Action)
  | requesting (act : Action)
  | allowed (act : Action)
  | succeeded (act : Action)
  | erring
  | closing
  | fatal
  | aborting
deriving Repr

/-- A run of the coordinator, as its operations show it. -/
structure Coord where
  point : Point := .starting
  /-- the actions of the plan -/
  actions : List Action := []
  /-- those not begun yet -/
  todo : List Action := []
  /-- those whose call returned -/
  done : List Action := []
  /-- some action failed -/
  failed : Bool := false
  /-- a limit ended the loop before its last action -/
  cut : Bool := false
  /-- the approval that was requested -/
  awaiting : Option ApprovalId := none
  counters : Counters := {}
deriving Repr

/-- Where `check_sources` is with the first of the sources that are left. -/
inductive Judging where
  | backoff
  | stale
  | keyed
  | looking (hour : Int)
  | marking (hour : Int) (found : Bool)
deriving Repr

/-- How far `check_sources` is with the sources it has loaded. -/
structure Check where
  todo : List (SourceId × Source)
  point : Judging := .backoff
  accesses : List Db.Access := []
deriving Repr

inductive Stage where
  | idle
  | received (body : Body)
  | opened (r : RunId) (loaded : Run)
  | claimed (r : RunId) (loaded : Run)
  | pendingFound (r : RunId) (a : ApprovalId)
  | settled (r : RunId)
  | consumed (r : RunId) (a : ApprovalId) (payload : ActionPayload)
  | called (r : RunId) (a : ApprovalId) (payload : ActionPayload) (result : Json)
  | callFailed (r : RunId) (a : ApprovalId)
  | coordinating (r : RunId) (loaded : Run) (g : Coord)
  | returned (r : RunId) (loaded : Run) (g : Coord)
  | done
  | scheduling
  | sweeping (now : Time)
  | publishing (todo : List (MessageId × OutboxMessage))
      (attempts : List (MessageId × OutboxMessage × Db.Attempt))
  | watching (cutoff : Time)
  | recovering (cutoff : Time) (todo picked : List (RunId × Run))
  | polling
  | judging (check : Check)
  | operator
  | enqueuing (r : RunId)
deriving Repr

structure Phase where
  entry : Option EntryId := none
  stage : Stage := .idle
deriving Repr

/-- The run an entry names, if it names one at all. -/
def Body.runId? : Body → Option RunId
  | .json payload =>
    match getRunId payload with
    | .ok runId => if runId.truthy then (parseUuid runId).toOption else none
    | .error _ => none
  | _ => none

namespace Coord

def withPlan (g : Coord) (plan : Plan) : Coord :=
  let actions := plan.steps.filterMap id
  { g with point := .planned, actions, todo := actions, counters := g.counters.addUsage plan.usage }

/-- The clock was read for the budget before `act`. -/
def budgeted (g : Coord) (b : RunBudget) (act : Action) (now : Seconds) : Coord :=
  match g.counters.refusal b now with
  | some _ => { g with point := .closing, cut := true }
  | none =>
    { g with point := .admitted act
             counters := { g.counters with iteration := g.counters.iteration + 1 } }

/-- The policy has decided on `act`. -/
def decided (g : Coord) (act : Action) : Decision → Coord
  | .deny => { g with point := .closing }
  | .requireApproval => { g with point := .requesting act }
  | .allow => { g with point := .allowed act }

def called (g : Coord) (act : Action) : Coord :=
  { g with point := .succeeded act
           done := g.done ++ [act]
           counters := { g.counters with toolCallsCount := g.counters.toolCallsCount + 1 } }

def erred (g : Coord) : Coord := { g with point := .erring, failed := true }

def at' (g : Coord) (point : Point) : Coord := { g with point }

/-- Every action of the plan was called and returned. -/
def AllDone (g : Coord) : Prop := g.failed = false ∧ g.done = g.actions

/-- How the status the coordinator lands in relates to what it did. -/
structure Lands (g : Coord) (s : RunStatus) : Prop where
  reportable : s ∈ [.completed, .failed, .cancelled, .paused, .waitingApproval]
  waiting : s = .waitingApproval ↔ g.awaiting.isSome
  completed : s = .completed → g.failed = false ∧ g.done ≠ [] ∧ (g.done = g.actions ∨ g.cut = true)

end Coord

namespace Phase

def at' (g : Phase) (stage : Stage) : Phase := { g with stage }

/-- An exception leaves the entry to be claimed again. -/
def dropped : Phase := {}

end Phase

/-! ## The protocol -/

namespace Flow

variable (cfg : Settings)

/-- Events the coordinator may append at a point of its loop. -/
def mayAppend : Point → EventType → Prop
  | .announcing, e => e = .started
  | .planned, e => e = .plan ∨ e = .context
  | .looping, e => e = .verify ∨ e = .«end»
  | .closing, e => e = .verify ∨ e = .«end»
  | .admitted _, e => e = .policyCheck
  | .requesting _, e => e = .awaitingApproval
  | .succeeded _, e => e = .toolCall
  | .erring, e => e = .toolError
  | .fatal, e => e = .fatal
  | _, _ => False

/-- The coordinator after an append came back, fine or not. -/
def appended (g : Coord) (etype : EventType) (fine : Bool) : Coord :=
  match g.point with
  | .planned =>
    if etype = .context then g.at' .looping else g.at' (if fine then .planned else .aborting)
  | .looping => g.at' .closing
  | .admitted act => g.decided act (cfg.policy.decide act.tool).decision
  | .requesting act => g.at' (if fine then .requesting act else .aborting)
  | .succeeded act => if fine then g.at' (.succeeded act) else g.erred
  | .fatal => g.at' (if fine then .fatal else .aborting)
  | _ => g

def allowsDb (g : Phase) : DbOp → Prop
  | .openRun r => ∃ body, g.stage = .received body ∧ body.runId? = some r
  | .claimRun r => ∃ loaded, g.stage = .opened r loaded
  | .continuation r => ∃ loaded, g.stage = .claimed r loaded
  | .markAmbiguous r a => g.stage = .pendingFound r a
  | .continuationSucceeded r a tool args result =>
    ∃ payload, g.stage = .called r a payload result ∧ tool = payload.tool ∧
      args = payload.arguments
  | .continuationFailed r a _ => g.stage = .callFailed r a
  | .appendEvent r etype _ =>
    match g.stage with
    | .pendingFound r' _ | .settled r' | .called r' _ _ _ | .callFailed r' _ => r = r'
    | .coordinating r' _ c => r = r' ∧ mayAppend c.point etype
    | _ => False
  | .insertPlan r _ => ∃ loaded c, g.stage = .coordinating r loaded c ∧ c.point = .planned
  | .insertToolCall r .. =>
    ∃ loaded c act, g.stage = .coordinating r loaded c ∧ c.point = .succeeded act
  | .createApproval r _ payload _ =>
    ∃ loaded c act, g.stage = .coordinating r loaded c ∧ c.point = .requesting act ∧
      payload = ⟨act.actionId, act.tool, act.arguments⟩
  | .pauseCheck r =>
    ∃ loaded c, g.stage = .coordinating r loaded c ∧ c.point = .looping ∧ c.todo ≠ []
  | .stopCheck r =>
    ∃ loaded c act, g.stage = .coordinating r loaded c ∧ c.point = .pauseClear act
  | .finalCommit r loaded o => ∃ c, g.stage = .returned r loaded c ∧ c.Lands o.status
  | .selectOutbox => ∃ now, g.stage = .sweeping now
  | .commitOutbox attempts => g.stage = .publishing [] attempts
  | .selectExecuting => ∃ cutoff, g.stage = .watching cutoff
  | .commitRecovery rows => ∃ cutoff, g.stage = .recovering cutoff [] rows
  | .selectSources => g.stage = .polling
  | .hasTask idem => ∃ i src rest hour accesses,
      g.stage = .judging ⟨(i, src) :: rest, .looking hour, accesses⟩ ∧ idem = Db.sourceKey i hour
  | .commitSources accesses => g.stage = .judging ⟨[], .backoff, accesses⟩
  | .createTask .. | .loadRun .. | .retryRun .. | .decide .. | .insertTask .. | .setControl .. =>
    g.stage = .operator
  | .resumeRun _ loaded => g.stage = .operator ∧ Db.resumable loaded

def nextDb (g : Phase) : (o : DbOp) → Except LibError o.Ans → Phase
  | .openRun r, .ok (.ready loaded _) => g.at' (.opened r loaded)
  | .openRun _, .ok _ => g.at' .done
  | .claimRun r, .ok true =>
    match g.stage with
    | .opened _ loaded => g.at' (.claimed r loaded)
    | _ => .dropped
  | .claimRun _, .ok false => g.at' .done
  | .continuation r, .ok found =>
    match g.stage, found with
    | .claimed _ loaded, .none => g.at' (.coordinating r loaded {})
    | _, .pendingExecution a => g.at' (.pendingFound r a)
    | _, .consumed a payload => g.at' (.consumed r a payload)
    | _, _ => g.at' (.settled r)
  | .markAmbiguous .., .ok _ => g.at' .done
  | .continuationSucceeded .., .ok _ => g.at' .done
  | .continuationSucceeded r a .., .error _ => g.at' (.callFailed r a)
  | .continuationFailed .., .ok _ => g.at' .done
  | .appendEvent _ etype _, res =>
    match g.stage, res with
    | .settled _, .ok _ => g.at' .done
    | .called r a _ _, .error _ => g.at' (.callFailed r a)
    | .coordinating r loaded c, .ok _ =>
      g.at' (.coordinating r loaded (appended cfg c etype true))
    | .coordinating r loaded c, .error _ =>
      g.at' (.coordinating r loaded (appended cfg c etype false))
    | _, .ok _ => g
    | _, .error _ => .dropped
  | .insertToolCall .., res =>
    match g.stage, res with
    | .coordinating r loaded c, .ok _ => g.at' (.coordinating r loaded (c.at' .looping))
    | .coordinating r loaded c, .error _ => g.at' (.coordinating r loaded c.erred)
    | _, _ => .dropped
  | .insertPlan .., res =>
    match g.stage, res with
    | .coordinating _ _ _, .ok _ => g
    | .coordinating r loaded c, .error _ => g.at' (.coordinating r loaded (c.at' .aborting))
    | _, _ => .dropped
  | .createApproval .., res =>
    match g.stage, res with
    | .coordinating r loaded c, .ok a =>
      g.at' (.coordinating r loaded { c with point := .closing, awaiting := some a })
    | .coordinating r loaded c, .error _ => g.at' (.coordinating r loaded (c.at' .aborting))
    | _, _ => .dropped
  | .pauseCheck _, res =>
    match g.stage with
    | .coordinating r loaded c =>
      match c.todo, res with
      | _, .ok true | [], _ => g.at' (.coordinating r loaded (c.at' .closing))
      | act :: rest, _ =>
        g.at' (.coordinating r loaded { c with point := .pauseClear act, todo := rest })
    | _ => .dropped
  | .stopCheck _, res =>
    match g.stage with
    | .coordinating r loaded c =>
      match c.point, res with
      | _, .ok true => g.at' (.coordinating r loaded (c.at' .closing))
      | .pauseClear act, _ => g.at' (.coordinating r loaded (c.at' (.stopClear act)))
      | _, _ => .dropped
    | _ => .dropped
  | .finalCommit .., .ok _ => g.at' .done
  | .selectOutbox, .ok msgs =>
    match g.stage with
    | .sweeping now => g.at' (.publishing (msgs.filter fun x => SchedulerLoop.due now x.2) [])
    | _ => .dropped
  | .commitOutbox _, .ok _ => g.at' (.publishing [] [])
  | .selectExecuting, .ok rows =>
    match g.stage with
    | .watching cutoff => g.at' (.recovering cutoff rows [])
    | _ => .dropped
  | .commitRecovery _, .ok _ => g.at' .polling
  | .selectSources, .ok rows => g.at' (.judging { todo := rows })
  | .hasTask _, .ok found =>
    match g.stage with
    | .judging ⟨todo, .looking hour, accesses⟩ =>
      g.at' (.judging ⟨todo, .marking hour found, accesses⟩)
    | _ => .dropped
  | .commitSources _, .ok _ => g.at' .done
  | .insertTask .., .ok r => g.at' (.enqueuing r)
  | .resumeRun r _, .ok _ => g.at' (.enqueuing r)
  | .decide .., .error _ | .retryRun .., .error _ => g
  | _, .ok _ => g
  | _, .error _ => .dropped

def allowsRedis (g : Phase) : RedisOp → Prop
  | .readGroup | .claimPending => g.stage = .idle
  | .rpopLegacy => g.stage = .idle ∨ ∃ body, g.stage = .received body ∧ body.runId? = none
  | .ack e => g.entry = some e ∧
      (g.stage = .done ∨ ∃ body, g.stage = .received body ∧ body.runId? = none)
  | .publishToStream payload key =>
    (∃ i m rest attempts, g.stage = .publishing ((i, m) :: rest) attempts ∧
      payload = m.payload ∧ key = some m.idempotencyKey) ∨
    (∃ r, g.stage = .enqueuing r ∧ payload = [("run_id", .uuid r)])
  | .publishToDlq .. => ∃ cutoff todo picked, g.stage = .recovering cutoff todo picked

/-- What a failed publication leaves in `last_error`. -/
def lastError (x : LibError) : String := x.cls ++ ": " ++ clip 300 x.msg

def nextRedis (g : Phase) : (o : RedisOp) → Except LibError o.Ans → Phase
  | .readGroup, .ok (some (e, body)) => ⟨some e, .received body⟩
  | .claimPending, .ok (some (e, body)) => ⟨some e, .received body⟩
  | .rpopLegacy, .ok (some body) => ⟨none, .received body⟩
  | .publishToStream .., res =>
    match g.stage, res with
    | .publishing ((i, m) :: rest) attempts, .ok sid =>
      g.at' (.publishing rest (attempts ++ [(i, m, .published sid)]))
    | .publishing ((i, m) :: rest) attempts, .error x =>
      g.at' (.publishing rest (attempts ++ [(i, m, .failed (lastError x))]))
    | _, _ => g.at' .operator
  | .publishToDlq .., _ => g
  | _, _ => .dropped

/-- The clock was read for the first of the sources that are left. -/
def judged (i : SourceId) (src : Source) (rest : List (SourceId × Source))
    (accesses : List Db.Access) (now : Time) : Judging → Check
  | .backoff =>
    if src.backoffUntil.any (now < ·) then ⟨rest, .backoff, accesses⟩
    else ⟨(i, src) :: rest, .stale, accesses⟩
  | .stale =>
    if src.lastAccessedAt.all fun la => Db.hourMs < now - la then
      ⟨(i, src) :: rest, .keyed, accesses⟩
    else ⟨rest, .backoff, accesses⟩
  | .keyed => ⟨(i, src) :: rest, .looking (now / Db.hourMs), accesses⟩
  | .looking hour => ⟨(i, src) :: rest, .looking hour, accesses⟩
  | .marking hour found => ⟨rest, .backoff, accesses ++ [⟨i, src, hour, found, now⟩]⟩

def allowsExt (g : Phase) : ExtOp → Prop
  | .makePlan .. => ∃ r loaded c, g.stage = .coordinating r loaded c ∧ c.point = .announcing
  | .callTool r caller tool args =>
    match caller with
    | .coordinator => ∃ loaded c act, g.stage = .coordinating r loaded c ∧
        c.point = .allowed act ∧ tool = act.tool ∧ args = act.arguments
    | .continuation a => ∃ payload, g.stage = .consumed r a payload ∧ tool = payload.tool ∧
        args = payload.arguments
  | .monotonic reading => ∃ r loaded c, g.stage = .coordinating r loaded c ∧
      match reading with
      | .started => c.point = .starting
      | .budget => ∃ act, c.point = .stopClear act
      | .breaker => c.point = .erring
  | .utcnow =>
    match g.stage with
    | .scheduling => True
    | .publishing [] _ => True
    | .recovering _ (_ :: _) _ => True
    | .judging ⟨_ :: _, .looking _, _⟩ => False
    | .judging ⟨_ :: _, _, _⟩ => True
    | _ => False
  | .startHeartbeat r => ∃ loaded, g.stage = .coordinating r loaded {}
  | .stopHeartbeat => ∃ r loaded c, g.stage = .coordinating r loaded c ∧
      (c.point = .closing ∨ c.point = .fatal ∨ c.point = .aborting)
  | .reply _ => g.stage = .operator

def nextExt (g : Phase) : (o : ExtOp) → Except LibError o.Ans → Phase
  | .makePlan .., res =>
    match g.stage, res with
    | .coordinating r loaded c, .ok plan => g.at' (.coordinating r loaded (c.withPlan plan))
    | .coordinating r loaded c, .error _ => g.at' (.coordinating r loaded (c.at' .fatal))
    | _, _ => .dropped
  | .callTool .., res =>
    match g.stage, res with
    | .consumed r a payload, .ok result => g.at' (.called r a payload result)
    | .consumed r a _, .error _ => g.at' (.callFailed r a)
    | .coordinating r loaded c, .ok _ =>
      match c.point with
      | .allowed act => g.at' (.coordinating r loaded (c.called act))
      | _ => .dropped
    | .coordinating r loaded c, .error _ => g.at' (.coordinating r loaded c.erred)
    | _, _ => .dropped
  | .monotonic _, res =>
    match g.stage, res with
    | .coordinating r loaded c, .ok now =>
      match c.point with
      | .starting => g.at' (.coordinating r loaded
          { c with point := .announcing
                   counters := { c.counters with startedAt := some now } })
      | .stopClear act => g.at' (.coordinating r loaded (c.budgeted cfg.budget act now))
      | _ => g.at' (.coordinating r loaded (c.at' .looping))
    | .coordinating r loaded c, .error _ => g.at' (.coordinating r loaded (c.at' .fatal))
    | _, _ => .dropped
  | .utcnow, .ok now =>
    match g.stage with
    | .scheduling => g.at' (.sweeping now)
    | .publishing _ _ => g.at' (.watching (now - Db.stuckThreshold))
    | .recovering cutoff ((r, run) :: rest) picked =>
      g.at' (.recovering cutoff rest
        (if Db.stuck cutoff now run then picked ++ [(r, run)] else picked))
    | .judging ⟨(i, src) :: rest, point, accesses⟩ =>
      g.at' (.judging (judged i src rest accesses now point))
    | _ => .dropped
  | .startHeartbeat _, .ok _ => g
  | .stopHeartbeat, .ok _ =>
    match g.stage with
    | .coordinating r loaded c =>
      match c.point with
      | .aborting => .dropped
      | _ => g.at' (.returned r loaded c)
    | _ => .dropped
  | .reply _, .ok _ => g
  | _, .error _ => .dropped

/-- The protocol of every program of the system. -/
def flow : Protocol Sys Phase where
  allows g
    | .db o => allowsDb g o
    | .redis o => allowsRedis g o
    | .ext o => allowsExt g o
  next g
    | .db o, res => nextDb cfg g o res
    | .redis o, res => nextRedis g o res
    | .ext o, res => nextExt cfg g o res

end Flow

/-- Where a request starts. -/
def Req.phase : Req → Phase
  | .processOne => {}
  | .checkSources => { stage := .scheduling }
  | _ => { stage := .operator }

end Observatory
