import Observatory.Model.Queue

/-!
# Reclaiming pending entries

`claim_pending` of `packages/observability/queue.py` over the pending list of the consumer group:
`XAUTOCLAIM` from `0-0`, or `XPENDING` and `XCLAIM` if a client does not have it.
-/

namespace Observatory.Reclaim

/-- An entry of the pending list. -/
structure Pending where
  id : EntryId
  consumer : Nat
  /-- milliseconds since it was delivered -/
  idle : Time
  body : Body

namespace Pending

/-- What is left of a claim: another consumer has it, and its time begins anew. -/
def claimedBy (x : Pending) (consumer : Nat) : Pending := { x with consumer, idle := 0 }

/-- What is returned of it. -/
def message (x : Pending) : EntryId × Body := (x.id, x.body)

end Pending

/-! ## Commands -/

/-- `XAUTOCLAIM … 0-0 COUNT count`: the first `count` entries that are idle for long enough. -/
def xautoclaim (consumer : Nat) (minIdle : Time) :
    List Pending → Nat → List Pending × List (EntryId × Body)
  | [], _ => ([], [])
  | ps, 0 => (ps, [])
  | x :: ps, count + 1 =>
    if minIdle ≤ x.idle then
      let (ps, claimed) := xautoclaim consumer minIdle ps count
      (x.claimedBy consumer :: ps, x.message :: claimed)
    else
      let (ps, claimed) := xautoclaim consumer minIdle ps (count + 1)
      (x :: ps, claimed)

/-- An element of the answer of `XPENDING`. -/
structure Listed where
  messageId : EntryId
  timeSinceDelivered : Time

/-- `XPENDING … - + count` -/
def xpendingRange (ps : List Pending) (count : Nat) : List Listed :=
  (ps.take count).map fun x => ⟨x.id, x.idle⟩

/-- `XCLAIM … minIdle id` -/
def xclaim (consumer : Nat) (minIdle : Time) (id : EntryId) (ps : List Pending) :
    List Pending × List (EntryId × Body) :=
  (ps.map fun x => if x.id = id ∧ minIdle ≤ x.idle then x.claimedBy consumer else x,
    (ps.filter fun x => x.id = id ∧ minIdle ≤ x.idle).map Pending.message)

/-! ## Claiming -/

/-- Which commands a client has and gets an answer to. -/
structure Client where
  xautoclaim : Bool := true
  xpending : Bool := true
  xclaim : EntryId → Bool := fun _ => true

/-- The loop of the fallback; an exception ends it without a result. -/
def reclaim (client : Client) (consumer : Nat) (minIdle : Time) :
    List Listed → List Pending → List Pending × Option (List (EntryId × Body))
  | [], ps => (ps, some [])
  | p :: rest, ps =>
    if minIdle ≤ p.timeSinceDelivered then
      if client.xclaim p.messageId then
        let (ps, claimed) := xclaim consumer minIdle p.messageId ps
        let (ps, more) := reclaim client consumer minIdle rest ps
        (ps, more.map (claimed ++ ·))
      else (ps, none)
    else reclaim client consumer minIdle rest ps

/-- `claim_pending` -/
def claimPending (client : Client) (consumer : Nat) (minIdle : Time) (count : Nat)
    (ps : List Pending) : List Pending × List (EntryId × Body) :=
  if client.xautoclaim then xautoclaim consumer minIdle ps count
  else if client.xpending then
    let (ps, claimed) := reclaim client consumer minIdle (xpendingRange ps count) ps
    (ps, claimed.getD [])
  else (ps, [])

/-! ## The stream -/

/-- The pending list of a stream. -/
def pendingOf (q : Redis) (now : Time) : List Pending :=
  q.stream.zipIdx.filterMap fun (x, e) =>
    match x.delivery with
    | .pending consumer since => if q.evicted ≤ e then some ⟨e, consumer, now - since, x.body⟩ else none
    | _ => none

end Observatory.Reclaim
