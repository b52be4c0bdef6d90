import Observatory.Effect.Prog
import Observatory.Model.Policy
import Mathlib.Logic.Function.Basic

/-!
# The run coordinator

`RunCoordinator.run` of `agent_core/coordinator.py`, with its budget, its circuit breaker and the
default verifier.  The coordinator only sees its collaborators, so it is written over any
signature; what it keeps in attributes is passed on as a `CoordState`.

Context segments are assembled from prompts and tool outputs and handed to nobody who decides
anything, so only the metadata that goes into the CONTEXT event is kept.
-/

namespace Observatory

open Effect

/-! ## Plans -/

structure Action where
  actionId : String
  tool : String
  arguments : Dict
deriving Repr, Inhabited

/-- The `usage` dict of the provider's answer. -/
structure Usage where
  promptTokens : Option Nat := none
  completionTokens : Option Nat := none
  totalTokens : Option Nat := none
  cost : Option Rat := none
deriving Repr, Inhabited

/-- What `make_plan` returns.  An entry of `actions` that is no dict is `none`. -/
structure Plan where
  actions : List (Option Action) := []
  tools : List String := []
  usage : Usage := {}
deriving Repr, Inhabited

def Action.toJson (a : Action) : Json :=
  .obj [("action_id", .str a.actionId), ("tool", .str a.tool), ("arguments", .obj a.arguments)]

def Plan.toJson (p : Plan) : Json :=
  .obj [("actions", .list (p.actions.map fun a => (a.map Action.toJson).getD .null)),
        ("tools", .list (p.tools.map .str))]

/-- The actions to go through: those of the plan, or one without arguments per name of the old
`tools` format. -/
def Plan.steps (p : Plan) : List (Option Action) :=
  if p.actions.isEmpty then
    p.tools.zipIdx.map fun (t, i) => some ⟨s!"action_{i + 1}", t, []⟩
  else p.actions

/-! ## Budget and circuit breaker -/

structure RunBudget where
  maxIterations : Nat := 40
  maxToolCalls : Nat := 80
  maxWallSeconds : Seconds := 900
  maxTokens : Nat := 200000
  maxCost : Rat := 5
deriving Repr, Inhabited

/-- Failures per tool, oldest first. -/
abbrev CircuitBreaker := String → List Seconds

namespace CircuitBreaker

def threshold : Nat := 5

def cooldown : Seconds := 30

/-- `record_failure`: the second component tells whether the breaker is open. -/
def recordFailure (b : CircuitBreaker) (key : String) (now : Seconds) : CircuitBreaker × Bool :=
  let lst := (b key).filter (fun t => now - t < cooldown) ++ [now]
  (Function.update b key lst, threshold ≤ lst.length)

def reset (b : CircuitBreaker) (key : String) : CircuitBreaker := Function.update b key []

end CircuitBreaker

/-! ## Attributes -/

/-- What the budget is checked against. -/
structure Counters where
  iteration : Nat := 0
  toolCallsCount : Nat := 0
  startedAt : Option Seconds := none
  tokensUsed : Nat := 0
  costUsed : Rat := 0
deriving Repr, Inhabited, DecidableEq

/-- An entry of `executed`: the result of the tool, or the name of its exception. -/
structure Executed where
  actionId : Option String
  tool : String
  arguments : Dict
  outcome : Except String Json

def Executed.ok (x : Executed) : Bool :=
  match x.outcome with
  | .ok _ => true
  | .error _ => false

structure CoordState where
  status : RunStatus := .queued
  counters : Counters := {}
  breaker : CircuitBreaker := fun _ => []
  events : List (EventType × Dict) := []
  executed : List Executed := []
  hadError : Bool := false

namespace Counters

/-- The limit `can_continue` stops at, if any. -/
def refusal (c : Counters) (b : RunBudget) (now : Seconds) : Option EventType :=
  if c.startedAt.any (fun t => t ≠ 0 ∧ now - t > b.maxWallSeconds) then some .wallTimeExceeded
  else if c.iteration ≥ b.maxIterations then some .iterationLimit
  else if c.toolCallsCount ≥ b.maxToolCalls then some .toolCallLimit
  else if c.tokensUsed > b.maxTokens then some .tokenBudgetExceeded
  else if c.costUsed > b.maxCost then some .costBudgetExceeded
  else none

/-- `_add_usage`. -/
def addUsage (c : Counters) (u : Usage) : Counters :=
  let sum := u.promptTokens.getD 0 + u.completionTokens.getD 0
  let total := match u.totalTokens with
    | none | some 0 => sum
    | some t => t
  { c with tokensUsed := c.tokensUsed + total, costUsed := c.costUsed + u.cost.getD 0 }

end Counters

namespace CoordState

def emit (s : CoordState) (etype : EventType) (payload : Dict) : CoordState :=
  { s with events := s.events ++ [(etype, payload)] }

/-- The payload of a limit event. -/
def limitPayload (b : RunBudget) : EventType → Dict
  | .iterationLimit => [("limit", .int b.maxIterations)]
  | .toolCallLimit => [("limit", .int b.maxToolCalls)]
  | _ => []

end CoordState

/-! ## The verifier -/

/-- The check of `DefaultVerifier`: some evidence, at least one success and no failure. -/
def defaultVerify (executed : List Executed) : Bool :=
  !executed.isEmpty && (executed.any (·.ok) && !executed.any (!·.ok))

/-! ## The loop -/

/-- What the monotonic clock is read for. -/
inductive Reading where
  | started | budget | breaker
deriving DecidableEq, Repr

/-- Everything `run` is given, and the flags other tasks may set. -/
structure Collaborators (S : Sig) where
  execute : String → Dict → Prog S PyExc Json
  makePlan : Prog S PyExc Plan
  eventSink : EventType → Dict → Prog S PyExc Unit
  pauseCheck : Prog S PyExc Bool
  stopCheck : Prog S PyExc Bool
  monotonic : Reading → Prog S PyExc Seconds
  /-- `_kill` and `_pause`. -/
  flags : Prog S PyExc (Bool × Bool)
  policy : PolicyEngine
  verify : List Executed → Except PyExc Bool
  budget : RunBudget
  /-- `assembler.inspector_metadata()`. -/
  segments : Json

/-- Whether the loop goes on to the next action. -/
inductive Next where
  | go | stop
deriving DecidableEq, Repr

namespace RunCoordinator

variable {S : Sig} (c : Collaborators S)

/-- `can_continue`.  The clock is read in any case, which nobody can tell. -/
def canContinue (s : CoordState) : Prog S PyExc (Bool × CoordState) := do
  let (kill, pause) ← c.flags
  if kill then return (false, s)
  if pause then return (false, s.emit .paused [])
  let now ← c.monotonic .budget
  match s.counters.refusal c.budget now with
  | some etype => return (false, s.emit etype (CoordState.limitPayload c.budget etype))
  | none => return (true, s)

/-- The `except Exception as e` of a tool call. -/
def toolError (act : Action) (x : PyExc) (s : CoordState) : Prog S PyExc (Next × CoordState) := do
  let s := { s with hadError := true }
  let s := s.emit .toolError
    [("tool", .str act.tool), ("error", .str x.name), ("msg", .str (clip 200 x.message))]
  c.eventSink .toolError [("tool", .str act.tool), ("error", .str x.name)]
  let failed : Executed := ⟨none, act.tool, act.arguments, .error x.name⟩
  let s := { s with executed := s.executed ++ [failed] }
  let now ← c.monotonic .breaker
  let (breaker, isOpen) := s.breaker.recordFailure act.tool now
  let s := { s with breaker }
  if isOpen then
    let s : CoordState := { s with status := .failed }
    return (.stop, s.emit .circuitOpen [("tool", .str act.tool)])
  return (.go, s)

/-- An allowed action: the call, its event, and the error path of either. -/
def callTool (act : Action) (s : CoordState) : Prog S PyExc (Next × CoordState) := do
  match ← (c.execute act.tool act.arguments).attempt with
  | .error x => toolError c act x s
  | .ok result =>
    let done : Executed := ⟨some act.actionId, act.tool, act.arguments, .ok result⟩
    let s := { s with
      counters := { s.counters with toolCallsCount := s.counters.toolCallsCount + 1 }
      executed := s.executed ++ [done] }
    let s := s.emit .toolCall
      [("tool", .str act.tool), ("arguments", .obj act.arguments), ("ok", .bool true)]
    -- the sink is inside the `try`: what it raises counts as an error of the tool
    match ← (c.eventSink .toolCall [("tool", .str act.tool), ("arguments", .obj act.arguments),
        ("result", result), ("ok", .bool true)]).attempt with
    | .error x => toolError c act x s
    | .ok () => return (.go, { s with breaker := s.breaker.reset act.tool })

/-- An action that was let through: the policy decides. -/
def decideAction (act : Action) (s : CoordState) : Prog S PyExc (Next × CoordState) := do
  let s := { s with
    counters := { s.counters with iteration := s.counters.iteration + 1 }
    status := .executing }
  let decision := c.policy.decide act.tool
  let checked : Dict := [("tool", .str act.tool), ("arguments", .obj act.arguments),
    ("decision", .str decision.decision.value)]
  let s := s.emit .policyCheck checked
  c.eventSink .policyCheck checked
  match decision.decision with
  | .deny =>
    let s : CoordState := { s with status := .failed }
    return (.stop, s.emit .denied [("tool", .str act.tool)])
  | .requireApproval =>
    let s : CoordState := { s with status := .waitingApproval }
    let apPayload : Dict := [("tool", .str act.tool), ("arguments", .obj act.arguments),
      ("action_id", .str act.actionId), ("action_class", .str decision.actionClass.value)]
    let s := s.emit .awaitingApproval apPayload
    c.eventSink .awaitingApproval apPayload
    return (.stop, s)
  | .allow => callTool c act s

/-- One round of the loop. -/
def runAction (act : Action) (s : CoordState) : Prog S PyExc (Next × CoordState) := do
  if ← c.pauseCheck then
    let s : CoordState := { s with status := .paused }
    return (.stop, s.emit .paused [])
  if ← c.stopCheck then
    let s : CoordState := { s with status := .cancelled }
    return (.stop, s.emit .cancelled [])
  let (goOn, s) ← canContinue c s
  if !goOn then return (.stop, s)
  decideAction c act s

/-- `for act in actions`. -/
def runActions : List (Option Action) → CoordState → Prog S PyExc CoordState
  | [], s => pure s
  | none :: rest, s => runActions rest s
  | some act :: rest, s => do
    match ← runAction c act s with
    | (.stop, s) => return s
    | (.go, s) => runActions rest s

/-- The statuses the loop leaves when nothing decided the run. -/
def undecided : RunStatus → Bool
  | .queued | .executing | .planning | .contextBuilding | .policyCheck => true
  | _ => false

/-- The `if`/`elif` chain after the loop. -/
def settleStatus (s : CoordState) : Prog S PyExc CoordState := do
  let (kill, pause) ← c.flags
  if pause then return { s with status := .paused }
  if kill then return { s with status := .cancelled }
  if !undecided s.status then return s
  if s.hadError then
    let s : CoordState := { s with status := .failed }
    return s.emit .verify [("passed", .bool false), ("reason", .str "tool_error")]
  let s : CoordState := { s with status := .verifying }
  let passed : Bool := match c.verify s.executed with
    | .ok b => b
    | .error _ => false
  let verified : Dict := [("passed", .bool passed), ("evidence_n", .int s.executed.length)]
  let s := s.emit .verify verified
  c.eventSink .verify verified
  return { s with status := if passed = true then .persisting else .failed }

/-- From the end of the loop to the END event. -/
def finalize (s : CoordState) : Prog S PyExc CoordState := do
  let s ← settleStatus c s
  let s : CoordState := if s.status = .persisting then { s with status := .completed } else s
  let ended : Dict := [("final_status", .str s.status.value)]
  let s := s.emit .«end» ended
  c.eventSink .«end» ended
  return s

/-- The main loop, from planning to the final status. -/
def run (runId : Text) : Prog S PyExc CoordState := do
  let s : CoordState := { status := .contextBuilding }
  let now ← c.monotonic .started
  let s := { s with counters := { s.counters with startedAt := some now } }
  let s := s.emit .started [("run_id", .text runId)]
  c.eventSink .started [("run_id", .text runId)]
  let s := { s with status := .planning }
  let plan ← c.makePlan
  let s := s.emit .plan [("plan", plan.toJson)]
  c.eventSink .plan [("plan", plan.toJson)]
  let s := { s with counters := s.counters.addUsage plan.usage }
  let s := s.emit .context [("segments", c.segments)]
  c.eventSink .context [("segments", c.segments)]
  let s ← runActions c plan.steps s
  finalize c s

end RunCoordinator

end Observatory
