import Observatory.Model.System

/-!
# The worker

`WorkerLoop` of `apps/worker/worker.py`: taking an entry from the queue, claiming the run it names,
the continuation of an approval, and the coordinator's run with its event sink, its control checks
and its final commit.
-/

namespace Observatory

open Effect

/-- What a worker is configured with.  `redact` masks secrets in texts that are stored, `segments`
is what the context assembler reports of a run. -/
structure Settings where
  policy : PolicyEngine := {}
  budget : RunBudget := {}
  redact : String → String := id
  segments : Json := .null

namespace Dict

def text (d : Dict) (k : String) (default : String := "") : String :=
  match d.get k with
  | some (.text (.str s)) => s
  | _ => default

def dict (d : Dict) (k : String) : Dict :=
  match d.get k with
  | some (.obj kvs) => kvs
  | _ => []

end Dict

/-- The class an AWAITING_APPROVAL payload names. -/
def ActionClass.ofValue : String → ActionClass
  | "READ_ONLY" => .readOnly
  | "SAFE_WRITE" => .safeWrite
  | "PRIVILEGED_HOST" => .privilegedHost
  | "DESTRUCTIVE" => .destructive
  | _ => .publicWrite

/-- `uuid.UUID(run_id)` on whatever the payload holds. -/
def parseUuid : Json → Except PyExc Nat
  | .text (.uuid r) => .ok r
  | .text _ => .error (.mk "ValueError" "badly formed hexadecimal UUID string")
  | _ => .error (.mk "AttributeError" "object has no attribute 'replace'")

/-- `payload.get("run_id")`, which only a `dict` has. -/
def getRunId : Json → Except PyExc Json
  | .obj kvs => .ok ((Dict.get kvs "run_id").getD .null)
  | _ => .error (.mk "AttributeError" "object has no attribute 'get'")

namespace WorkerLoop

variable (cfg : Settings)

/-! ## The event sink -/

/-- A failed append of these is not swallowed. -/
def criticalEvent : EventType → Bool
  | .toolCall | .plan | .awaitingApproval | .fatal | .workerError => true
  | _ => false

/-- Neither is a failed row of these. -/
def criticalRow : EventType → Bool
  | .plan | .toolCall | .awaitingApproval => true
  | _ => false

/-- The row an event comes with. -/
def sinkRow (r : RunId) (etype : EventType) (payload : Dict) : Proc Unit :=
  match etype with
  | .plan => Proc.db (.insertPlan r (payload.dict "plan"))
  | .toolCall =>
    Proc.db (.insertToolCall r (payload.text "tool") (payload.dict "arguments")
      ((payload.get "result").getD (.str "")))
  | .awaitingApproval => do
    let tool := payload.text "tool"
    let _ ← Proc.db (.createApproval r (.ofValue (payload.text "action_class" "PUBLIC_WRITE"))
      ⟨payload.text "action_id", tool, payload.dict "arguments"⟩
      ("tool " ++ tool ++ " onay bekliyor"))
  | _ => pure ()

/-- `_sink`: the event first, then its row, each in a transaction of its own. -/
def sink (r : RunId) (etype : EventType) (payload : Dict) : Proc Unit := do
  match ← (Proc.db (.appendEvent r etype payload)).attempt with
  | .ok () => pure ()
  | .error _ =>
    if criticalEvent etype then throw (.critical (etype.value ++ " event append failed"))
  match ← (sinkRow r etype payload).attempt with
  | .ok () => pure ()
  | .error _ =>
    if criticalRow etype then
      throw (.critical ("critical secondary persistence failure " ++ etype.value))

/-! ## Running the coordinator -/

/-- `_pause_check` and `_stop_check`: a failed read counts as no request. -/
def checkControl (o : Proc Bool) : Proc Bool := do
  match ← o.attempt with
  | .ok b => return b
  | .error _ => return false

/-- What the worker hands to `RunCoordinator.run`. -/
def collaborators (r : RunId) (task : Task) : Collaborators Sys where
  execute tool args := Proc.ext (.callTool r .coordinator tool args)
  makePlan := Proc.ext (.makePlan task.prompt task.scope)
  eventSink := sink r
  pauseCheck := checkControl (Proc.db (.pauseCheck r))
  stopCheck := checkControl (Proc.db (.stopCheck r))
  monotonic reading := Proc.ext (.monotonic reading)
  flags := pure (false, false)
  policy := cfg.policy
  verify executed := .ok (defaultVerify executed)
  budget := cfg.budget
  segments := cfg.segments

/-- The outcome the final commit writes when the coordinator returned. -/
def outcome (s : CoordState) : Db.Outcome :=
  ⟨s.status, s.counters.iteration, s.counters.tokensUsed, s.counters.costUsed⟩

/-- The `except Exception as e` around the coordinator.  Only the planner can raise anything that
is not critical, and then no counter has moved yet. -/
def coordinatorFailed (r : RunId) (x : PyExc) : Proc Db.Outcome := do
  if x.isCritical then throw x
  Proc.db (.appendEvent r .fatal
    [("error", .str x.name), ("detail", .str (clip 500 (cfg.redact x.message)))])
  return ⟨.failed, 0, 0, 0⟩

/-- The coordinator under its heartbeat, then the final commit. -/
def runCoordinator (r : RunId) (loaded : Run) (task : Task) : Proc Unit := do
  Proc.ext (.startHeartbeat r)
  let coordinated : Proc Db.Outcome :=
    (do return outcome (← RunCoordinator.run (collaborators cfg r task) (.uuid r))).tryCatch
      (coordinatorFailed cfg r)
  let o ← coordinated.finally' (Proc.ext .stopHeartbeat)
  Proc.db (.finalCommit r loaded o)

/-! ## Continuation of an approval -/

/-- The call an approval was consumed for, and its finalisation either way. -/
def callApproved (r : RunId) (a : ApprovalId) (payload : ActionPayload) : Proc Unit :=
  let tool := payload.tool
  let args := payload.arguments
  let actionId : Json := if payload.actionId = "" then .uuid a else .str payload.actionId
  let call : Proc Unit := do
    let result ← Proc.ext (.callTool r (.continuation a) tool args)
    Proc.db (.appendEvent r .toolCall [("tool", .str tool), ("arguments", .obj args),
      ("result", result), ("action_id", actionId), ("approval_id", .uuid a)])
    Proc.db (.continuationSucceeded r a tool args result)
  call.tryCatch fun x => do
    Proc.db (.appendEvent r .toolError
      [("tool", .str tool), ("error", .str x.name), ("approval_id", .uuid a)])
    Proc.db (.continuationFailed r a
      [("error", .str x.name), ("detail", .str (clip 500 (cfg.redact x.message)))])

/-- `_try_continuation`: whether the claim is dealt with. -/
def tryContinuation (r : RunId) : Proc Bool := do
  match ← Proc.db (.continuation r) with
  | .none => return false
  | .pendingExecution a =>
    -- fail-closed: a PENDING execution is never called again
    Proc.db (.appendEvent r .approvalAmbiguous
      [("approval_id", .uuid a), ("reason", .str "pending_after_crash_fail_closed")])
    Proc.db (.markAmbiguous r a)
    return true
  | .settled a etype reason =>
    Proc.db (.appendEvent r etype [("approval_id", .uuid a), ("reason", .str reason)])
    return true
  | .refused a =>
    Proc.db (.appendEvent r .approvalReplayBlocked [("approval_id", .uuid a)])
    return true
  | .consumed a payload =>
    callApproved cfg r a payload
    return true

/-! ## Entries -/

/-- `_process_run`. -/
def processRun (runId : Json) : Proc Unit := do
  let r ← Prog.ofExcept (parseUuid runId)
  match ← Proc.db (.openRun r) with
  | .ready loaded task =>
    if ← Proc.db (.claimRun r) then
      if !(← tryContinuation cfg r) then
        runCoordinator cfg r loaded task
  | _ => return

def ackEntry (e : EntryId) : Proc Unit := (Proc.redis (.ack e)).swallow

/-- `_handle_entry`: only an exception of `_process_run` leaves the entry without its ACK. -/
def handleEntry (e : EntryId) (body : Body) : Proc Unit :=
  match body with
  | .missing | .notJson => ackEntry e
  | .undecodable => throw (.mk "UnicodeDecodeError" "invalid start byte")
  | .json payload => do
    let runId ← Prog.ofExcept (getRunId payload)
    if runId.truthy then processRun cfg runId
    ackEntry e

/-- `_fallback_legacy_queue`. -/
def fallbackLegacyQueue : Proc Unit := do
  match ← (Proc.redis .rpopLegacy).attempt with
  | .ok (some (.json payload)) =>
    match getRunId payload with
    | .ok runId => if runId.truthy then processRun cfg runId
    | .error _ => return
  | .ok (some .undecodable) => throw (.mk "UnicodeDecodeError" "invalid start byte")
  | _ => return

/-- A new entry, else one that has been pending for too long, else the legacy queue. -/
def takeEntry : Proc Unit := do
  match ← Proc.redis .readGroup with
  | some (e, body) => handleEntry cfg e body
  | none =>
    match ← (Proc.redis .claimPending).attempt with
    | .ok (some (e, body)) => handleEntry cfg e body
    | _ => fallbackLegacyQueue cfg

/-- `process_one`. -/
def processOne : Proc Unit :=
  (takeEntry cfg).tryCatch fun _ => (fallbackLegacyQueue cfg).swallow

end WorkerLoop

end Observatory
