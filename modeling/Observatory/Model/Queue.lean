import Observatory.Model.Value

/-!
# The run queue

The Redis side of `observability/queue.py`: one stream with one consumer group, the legacy list,
and the dead-letter stream.  An entry is named by its position in the stream; entries are only ever
added at the end and evicted at the front, so one number tells which are gone.
-/

namespace Observatory

abbrev EntryId := Nat

/-- The `data` field of an entry, as far as `json.loads` gets with it. -/
inductive Body where
  | missing
  /-- bytes that are no UTF-8 -/
  | undecodable
  | notJson
  | json (v : Json)
deriving Repr, Inhabited

/-- How far an entry got in the consumer group. -/
inductive Delivery where
  | new
  | pending (consumer : Nat) (since : Time)
  | acked
deriving DecidableEq, Repr, Inhabited

structure Entry where
  body : Body
  idempotencyKey : Option Key := none
  delivery : Delivery := .new
deriving Repr, Inhabited

structure Redis where
  stream : List Entry := []
  /-- Entries at smaller positions are evicted. -/
  evicted : Nat := 0
  /-- `lumi:queue`, the next element to pop first. -/
  legacy : List Body := []
  dlq : List (Dict × String) := []
deriving Repr, Inhabited

namespace Redis

/-- `MAXLEN ~ 10000`. -/
def maxlen : Nat := 10000

/-- `publish_to_stream`: `XADD` with approximate trimming, which evicts at most `trim` entries and
never leaves fewer than `maxlen`. -/
def publishToStream (q : Redis) (payload : Dict) (key : Option Key) (trim : Nat) :
    Redis × EntryId :=
  let stream := q.stream ++ [{ body := .json (.obj payload), idempotencyKey := key }]
  ({ q with
      stream
      evicted := q.evicted + min trim (stream.length - maxlen - q.evicted) },
    q.stream.length)

def publishToDlq (q : Redis) (payload : Dict) (reason : String) : Redis :=
  { q with dlq := q.dlq ++ [(payload, reason)] }

/-- The first entry still in the stream that satisfies `p`. -/
def first (q : Redis) (p : Entry → Bool) : Option (EntryId × Entry) :=
  (q.stream.zipIdx.find? fun (x, e) => q.evicted ≤ e && p x).map fun (x, e) => (e, x)

def deliver (q : Redis) (e : EntryId) (consumer : Nat) (now : Time) : Redis :=
  { q with stream := q.stream.modify e ({ · with delivery := .pending consumer now }) }

/-- `read_group` with count 1: the next entry nobody has got yet. -/
def readGroup (q : Redis) (consumer : Nat) (now : Time) : Redis × Option (EntryId × Body) :=
  match q.first (fun x => x.delivery = .new) with
  | none => (q, none)
  | some (e, x) => (q.deliver e consumer now, some (e, x.body))

/-- Idle for `minIdle` milliseconds in somebody's pending list. -/
def idle (now minIdle : Time) (x : Entry) : Bool :=
  match x.delivery with
  | .pending _ since => minIdle ≤ now - since
  | _ => false

/-- `claim_pending` with count 1: the first entry that has been pending for too long. -/
def claimPending (q : Redis) (consumer : Nat) (now minIdle : Time) :
    Redis × Option (EntryId × Body) :=
  match q.first (idle now minIdle) with
  | none => (q, none)
  | some (e, x) => (q.deliver e consumer now, some (e, x.body))

/-- `XACK`: an entry nobody has got is not in the pending list. -/
def ack (q : Redis) (e : EntryId) : Redis :=
  { q with stream := q.stream.modify e fun x =>
      if x.delivery = .new then x else { x with delivery := .acked } }

/-- `RPOP lumi:queue`. -/
def rpopLegacy (q : Redis) : Redis × Option Body :=
  match q.legacy with
  | [] => (q, none)
  | x :: rest => ({ q with legacy := rest }, some x)

end Redis

end Observatory
