import Observatory.Model.Value
import Mathlib.Logic.Function.Basic

/-!
# The circuit breaker

`CircuitBreaker` of `agent_core/coordinator.py` by itself, for any threshold and any cooldown.  The
coordinator makes one with the defaults of the constructor.
-/

namespace Observatory

structure Breaker where
  threshold : Int := 5
  cooldown : Seconds := 30
  failures : String → Option (List Seconds) := fun _ => none

namespace Breaker

/-- The constructor. -/
def fresh (threshold : Int) (cooldown : Seconds) : Breaker := { threshold, cooldown }

/-- `record_failure`: the second component tells whether the breaker is open. -/
def recordFailure (b : Breaker) (key : String) (now : Seconds) : Breaker × Bool :=
  let lst := (b.failures key).getD []
  let lst := lst.filter fun t => now - t < b.cooldown
  let lst := lst ++ [now]
  ({ b with failures := Function.update b.failures key (some lst) }, b.threshold ≤ lst.length)

def reset (b : Breaker) (key : String) : Breaker :=
  { b with failures := Function.update b.failures key none }

/-- A call, with what the clock shows if it is read. -/
inductive Op
  | recordFailure (key : String) (now : Seconds)
  | reset (key : String)
deriving DecidableEq, Repr

namespace Op

def key : Op → String
  | .recordFailure key _ => key
  | .reset key => key

def reading : Op → Option Seconds
  | .recordFailure _ now => some now
  | .reset _ => none

end Op

/-- What the clock shows during a series of calls. -/
def readings (ops : List Op) : List Seconds := ops.filterMap Op.reading

def step (b : Breaker) : Op → Breaker
  | .recordFailure key now => (b.recordFailure key now).1
  | .reset key => b.reset key

/-- The breaker after a series of calls. -/
def after (b : Breaker) (ops : List Op) : Breaker := ops.foldl step b

end Breaker

end Observatory
