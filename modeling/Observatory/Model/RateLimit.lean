import Observatory.Model.Value
import Mathlib.Logic.Function.Basic

/-!
# The rate limiter

`RateLimiter` of `packages/observability/auth.py`: a counter in Redis, or a list of timestamps in
memory when Redis cannot be had.
-/

namespace Observatory

structure RateLimiter where
  /-- `self._redis is not None` -/
  redis : Bool := false
  redisTried : Bool := false
  mem : String → List Seconds := fun _ => []

namespace RateLimiter

/-- A key in Redis. -/
structure Counter where
  count : Nat
  expiresAt : Seconds
deriving DecidableEq, Repr

abbrev Store := String → Option Counter

/-- `INCR key`: a key that does not exist, or whose time has run out, counts from 0. -/
def Store.incr (store : Store) (now : Seconds) (key : String) : Nat :=
  match store key with
  | some x => if now < x.expiresAt then x.count + 1 else 1
  | none => 1

/-- The keys after `INCR key` and `EXPIRE key window` in one transaction. -/
def Store.hit (store : Store) (now : Seconds) (key : String) (window : Int) : Store :=
  Function.update store key (some ⟨store.incr now key, now + window⟩)

/-- How one call gets on with Redis. -/
structure Connection where
  /-- `from_url` makes a client; asked at most once -/
  client : Bool := true
  /-- the pipeline is executed and its answer arrives -/
  answered : Bool := true
  /-- it is executed, though no answer arrives -/
  applied : Bool := false
deriving Repr

/-- `_get_redis` -/
def getRedis (rl : RateLimiter) (conn : Connection) : RateLimiter :=
  if !rl.redis && !rl.redisTried then { rl with redisTried := true, redis := conn.client } else rl

/-- The in-memory fallback. -/
def checkMemory (rl : RateLimiter) (now : Seconds) (key : String) (limit window : Int) :
    RateLimiter × Bool :=
  let ts := (rl.mem key).filter fun t => now - t < window
  if ts.length ≥ limit then ({ rl with mem := Function.update rl.mem key ts }, false)
  else ({ rl with mem := Function.update rl.mem key (ts ++ [now]) }, true)

/-- The arguments of `check`, and the clock. -/
structure Call where
  key : String
  limit : Int
  windowSeconds : Int
  now : Seconds
deriving DecidableEq, Repr

/-- `check`: true when the request is allowed. -/
def check (s : RateLimiter × Store) (q : Call) (conn : Connection) : (RateLimiter × Store) × Bool :=
  let (rl, store) := s
  let rl := rl.getRedis conn
  if rl.redis && conn.answered then
    ((rl, store.hit q.now q.key q.windowSeconds), store.incr q.now q.key ≤ q.limit)
  else
    let store := if rl.redis && conn.applied then store.hit q.now q.key q.windowSeconds else store
    let (rl, allowed) := rl.checkMemory q.now q.key q.limit q.windowSeconds
    ((rl, store), allowed)

/-- The state after a series of calls. -/
def after (s : RateLimiter × Store) (calls : List (Call × Connection)) : RateLimiter × Store :=
  calls.foldl (fun s x => (check s x.1 x.2).1) s

/-- Every call with its answer. -/
def answers (s : RateLimiter × Store) : List (Call × Connection) → List (Call × Bool)
  | [] => []
  | (q, conn) :: rest => (q, (check s q conn).2) :: answers (check s q conn).1 rest

/-- Nothing has been counted yet. -/
def fresh : RateLimiter × Store := ({}, fun _ => none)

end RateLimiter

end Observatory
