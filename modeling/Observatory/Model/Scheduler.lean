import Observatory.Model.System

/-!
# The scheduler

`SchedulerLoop` of `apps/scheduler/scheduler.py`: the outbox publisher, the recovery of stuck runs
and the polling of sources.  The promotion of memory between them touches no run.
-/

namespace Observatory

open Effect

namespace SchedulerLoop

/-- A message the publisher does not skip. -/
def due (now : Time) (m : OutboxMessage) : Bool :=
  m.attempts ≤ 10 && m.notBefore.all (· ≤ now)

/-- One attempt to publish. -/
def publish (m : OutboxMessage) : Proc Db.Attempt := do
  match ← (Proc.redis (.publishToStream m.payload (some m.idempotencyKey))).attempt with
  | .ok streamId => return .published streamId
  | .error x => return .failed (x.name ++ ": " ++ clip 300 x.message)

/-- `for m in msgs`. -/
def publishAll (now : Time) : List (MessageId × OutboxMessage) →
    Proc (List (MessageId × OutboxMessage × Db.Attempt))
  | [] => pure []
  | (i, m) :: rest =>
    if due now m then do
      let att ← publish m
      return (i, m, att) :: (← publishAll now rest)
    else publishAll now rest

def publishOutbox : Proc Unit := do
  let now ← Proc.ext .utcnow
  let msgs ← Proc.db .selectOutbox
  let attempts ← publishAll now msgs
  if !msgs.isEmpty then Proc.db (.commitOutbox attempts)

/-- `for r in runs`: the rows found stuck; one that has run out of retries goes to the DLQ. -/
def selectStuck (cutoff : Time) : List (RunId × Run) → Proc (List (RunId × Run))
  | [] => pure []
  | (r, run) :: rest => do
    let now ← Proc.ext .utcnow
    if Db.stuck cutoff now run then
      if run.retryCount + 1 > 3 then
        (Proc.redis (.publishToDlq [("run_id", .uuid r), ("task_id", .uuid run.taskId),
          ("retry_of", .uuid r)] "max_retries_exceeded")).swallow
      return (r, run) :: (← selectStuck cutoff rest)
    else selectStuck cutoff rest

def recoverStuckRuns : Proc Unit := do
  let cutoff := (← Proc.ext .utcnow) - Db.stuckThreshold
  let rows ← Proc.db .selectExecuting
  let stuckRows ← selectStuck cutoff rows
  Proc.db (.commitRecovery stuckRows)

/-- What is to be done with a loaded source, if it is due. -/
def judge (i : SourceId) (src : Source) : Proc (Option Db.Access) := do
  let now ← Proc.ext .utcnow
  if src.backoffUntil.any (now < ·) then return none
  else
    let now ← Proc.ext .utcnow
    if src.lastAccessedAt.all fun la => Db.hourMs < now - la then
      let hour := (← Proc.ext .utcnow) / Db.hourMs
      let found ← Proc.db (.hasTask (Db.sourceKey i hour))
      return some ⟨i, src, hour, found, ← Proc.ext .utcnow⟩
    else return none

/-- `for src in sources`. -/
def selectDue : List (SourceId × Source) → Proc (List Db.Access)
  | [] => pure []
  | (i, src) :: rest => do
    match ← judge i src with
    | none => selectDue rest
    | some a => return a :: (← selectDue rest)

/-- The sources of `check_sources`, in one session: loaded first, committed last. -/
def pollSources : Proc Unit := do
  let sources ← Proc.db .selectSources
  let accesses ← selectDue sources
  Proc.db (.commitSources accesses)

def checkSources : Proc Unit := do
  publishOutbox
  recoverStuckRuns
  pollSources

end SchedulerLoop

end Observatory
