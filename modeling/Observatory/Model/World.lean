import Observatory.Effect.Machine
import Observatory.Model.Worker
import Observatory.Model.Scheduler
import Observatory.Model.Operator

/-!
# The whole system

Any number of workers, schedulers and operators' requests over one database and one Redis.  A
database transaction commits or fails without a trace; a Redis command may also take effect and
still be reported as failed; the planner, the tools and the clocks answer what they like.
-/

namespace Observatory

open Effect

/-- A running heartbeat task: the run it renews, and when its next update is due. -/
structure Beat where
  run : RunId
  due : Time
deriving DecidableEq, Repr

structure World where
  db : Db
  redis : Redis
  now : Time
  beats : Pid → Option Beat

inductive Fault where
  | none
  /-- it failed and did nothing -/
  | before (x : LibError)
  /-- it was reported as failed, but it took effect -/
  | after (x : LibError)

/-- What the outside decides about one operation. -/
structure Choice where
  fault : Fault := .none
  plan : Plan := {}
  result : Json := .null
  seconds : Seconds := 0
  trim : Nat := 0

/-- `self._heartbeat_interval_s`. -/
def heartbeatIntervalMs : Time := 5000

inductive Tick where
  | advance (ms : Nat)
  | beat (p : Pid)

/-- The requests that start a process. -/
inductive Req where
  | processOne
  | checkSources
  | createTask (t : Db.TaskCreate) (hex : Nat)
  | controlRun (runId : Text) (action : String)
  | retryRun (runId : Text) (rawKey : Text)
  | decideApproval (pathId bodyId : Text) (decision : String) (user : Option Nat)
  | cmdAsk (prompt : String)
  | cmdTask (raw : String)
  | cmdPause (runId : Text)
  | cmdResume (runId : Text)
  | cmdStop (runId : Text)
  | cmdApprove (approvalId : Text) (user : Option Nat)
  | cmdReject (approvalId : Text) (user : Option Nat)

def Req.program (cfg : Settings) : Req → Proc Unit
  | processOne => WorkerLoop.processOne cfg
  | checkSources => SchedulerLoop.checkSources
  | createTask t hex => Api.createTask t hex
  | controlRun runId action => Api.controlRun runId action
  | retryRun runId rawKey => Api.retryRun runId rawKey
  | decideApproval pathId bodyId decision user =>
    Api.decideApproval pathId bodyId decision user
  | cmdAsk prompt => Telegram.cmdAsk prompt
  | cmdTask raw => Telegram.cmdTask raw
  | cmdPause runId => Telegram.cmdPause runId
  | cmdResume runId => Telegram.cmdResume runId
  | cmdStop runId => Telegram.cmdStop runId
  | cmdApprove approvalId user => Telegram.cmdApprove approvalId user
  | cmdReject approvalId user => Telegram.cmdReject approvalId user

namespace World

def setBeat (w : World) (p : Pid) (b : Option Beat) : World :=
  { w with beats := Function.update w.beats p b }

/-- An operation that is not disturbed. -/
def exec (w : World) (p : Pid) (ch : Choice) : (o : Op) → World × Except LibError o.Ans
  | .db o =>
    let (db, res) := o.exec w.db w.now p
    ({ w with db }, res)
  | .redis o =>
    let (redis, ans) := o.exec w.redis w.now p ch.trim
    ({ w with redis }, .ok ans)
  | .ext (.makePlan ..) => (w, .ok ch.plan)
  | .ext (.callTool ..) => (w, .ok ch.result)
  | .ext (.monotonic _) => (w, .ok ch.seconds)
  | .ext .utcnow => (w, .ok w.now)
  | .ext (.startHeartbeat r) => (w.setBeat p (some ⟨r, w.now⟩), .ok ())
  | .ext .stopHeartbeat => (w.setBeat p none, .ok ())
  | .ext (.reply _) => (w, .ok ())

/-- An operation as it comes out: undisturbed, failed, or lost on the way back. -/
def perform (w : World) (p : Pid) (o : Op) (ch : Choice) : World × Except LibError o.Ans :=
  match ch.fault, o with
  | .before x, o => if o.fallible then (w, .error x) else w.exec p ch o
  | .after x, .redis o => ((w.exec p ch (.redis o)).1, .error x)
  | _, o => w.exec p ch o

def tick (w : World) : Tick → World
  | .advance ms => { w with now := w.now + ms }
  | .beat p =>
    match w.beats p with
    | none => w
    | some b =>
      { w with db := w.db.heartbeat w.now b.run p }.setBeat p
        (some { b with due := w.now + heartbeatIntervalMs })

/-- Before anything happened: some sources, perhaps old items on the legacy list. -/
structure Initial (w : World) : Prop where
  db : w.db = { sources := w.db.sources }
  redis : w.redis = { legacy := w.redis.legacy }
  beats : ∀ p, w.beats p = none

/-- The empty system at a given time. -/
def empty (now : Time) (sources : List Source := []) : World :=
  { db := { sources }, redis := {}, now, beats := fun _ => none }

theorem empty_initial (now : Time) (sources : List Source) : Initial (empty now sources) :=
  ⟨rfl, rfl, fun _ => rfl⟩

end World

/-- The system as a machine. -/
def system (cfg : Settings) : Machine Sys PyExc where
  World := World
  Req := Req
  Choice := Choice
  Tick := Tick
  program := Req.program cfg
  perform := World.perform
  leave w p := w.setBeat p none
  tick := World.tick

end Observatory
