import Observatory.Data.Offsets
import Observatory.Model.AgentScorer

/-!
# The list of evaluations

`agent_evaluations` and `agent_evaluations_stats` of `apps/api/app.py`, and `AgentsPage` of
`apps/web/src/pages.tsx`, which turns the pages of the list while the scorer commits new rows.

The statements of one request are executed one after the other, each on what has been committed by
then: the rows that are counted need not be the rows that are selected.
-/

namespace Observatory.Evaluations

open AgentScorer (AgentEvaluation)

/-- A row of `agent_evaluations`, its key and its times included. -/
structure Evaluation extends AgentEvaluation where
  id : Nat
  evaluatedAt : Time
  createdAt : Time

structure Env where
  /-- `text.strip()` -/
  strip : String → String
  /-- `text.upper()` -/
  upper : String → String
  /-- `text.trim()` in the browser -/
  trim : String → String
  isoformat : Time → String
  /-- `ORDER BY evaluated_at DESC` -/
  order : List Evaluation → List Evaluation

/-! ## The endpoints -/

structure Item where
  id : Text
  room : String
  seq : Int
  globalSeq : Int
  nick : String
  did : Option String
  text : String
  score : Int
  tier : String
  reason : String
  dimensions : Json
  model : String
  evaluatedAt : String
  createdAt : String
  link : String

def itemOf (env : Env) (e : Evaluation) : Item where
  id := .uuid e.id
  room := e.room
  seq := e.seq
  globalSeq := e.globalSeq
  nick := e.nick
  did := e.did
  text := e.text
  score := e.score
  tier := e.tier
  reason := e.reason
  dimensions := e.dimensions
  model := e.model
  evaluatedAt := env.isoformat e.evaluatedAt
  createdAt := env.isoformat e.createdAt
  link := "https://technocore.chat/r/" ++ e.room

/-- What a query parameter asks for; nothing if it is empty, or empty once it is cleaned. -/
def given (clean : String → String) : Option String → Option String
  | none => none
  | some s => if s = "" ∨ clean s = "" then none else some (clean s)

/-- The `WHERE` of the statement. -/
def selects (env : Env) (tier room : Option String) (e : Evaluation) : Bool :=
  (given (fun t => env.upper (env.strip t)) tier).all (· == e.tier) &&
    (given env.strip room).all (· == e.room)

structure Page where
  total : Nat
  limit : Int
  offset : Int
  items : List Item

/-- `agent_evaluations`, on the rows that are there for the count and for the page. -/
def agentEvaluations (env : Env) (counted selected : List Evaluation) (tier room : Option String)
    (limit offset : Int) : Page :=
  let limit := max 1 (min limit 100)
  let offset := max 0 offset
  let rows := env.order (selected.filter (selects env tier room))
  { total := (counted.filter (selects env tier room)).length
    limit := limit
    offset := offset
    items := (Offsets.page offset.toNat limit.toNat rows).map (itemOf env) }

structure Stats where
  total : Nat
  byTier : List (String × Nat)
deriving DecidableEq

/-- `SELECT tier, count(*) ... GROUP BY tier` -/
def groupByTier (rows : List Evaluation) : List (String × Nat) :=
  (rows.map (·.tier)).dedup.map fun t => (t, rows.countP (·.tier = t))

/-- `by_tier.setdefault(k, 0)` -/
def setDefault (byTier : List (String × Nat)) (k : String) : List (String × Nat) :=
  if k ∈ byTier.map Prod.fst then byTier else byTier ++ [(k, 0)]

/-- `agent_evaluations_stats`, on the rows that are there for its two statements. -/
def agentEvaluationsStats (counted grouped : List Evaluation) : Stats where
  total := counted.length
  byTier := ["SAFE", "RISKY", "DANGEROUS", "UNKNOWN"].foldl setDefault (groupByTier grouped)

/-! ## The page -/

/-- The request for the filter and the offset of the page, as `useFetch` goes through it. -/
inductive Fetch where
  /-- the request is on its way -/
  | sent
  /-- the rows have been counted -/
  | counted (rows : List Evaluation)
  /-- the response is on its way -/
  | answered (page : Page)
  /-- `data`, on the screen -/
  | loaded (page : Page)
  /-- `err`, on the screen -/
  | failed

/-- The committed rows, and the state of `AgentsPage`. -/
structure World where
  evaluations : List Evaluation := []
  tier : String := ""
  room : String := ""
  offset : Nat := 0
  fetch : Fetch := .sent

inductive Action where
  /-- the scorer commits -/
  | commit (rows : List Evaluation)
  | count
  | select
  /-- the response arrives -/
  | arrive
  /-- the request fails, at the server or on its way -/
  | fail
  | setTier (tier : String)
  | setRoom (room : String)
  | clear
  /-- `reload`, by Refresh or by Retry -/
  | reload
  | previous
  | next

namespace World

/-- `useState(20)` -/
def limit : Nat := 20

/-- `if (tier) qs.set('tier', tier)` -/
def query (s : String) : Option String := if s = "" then none else some s

/-- The `WHERE` the page asks for. -/
def wanted (env : Env) (w : World) : Evaluation → Bool :=
  selects env (query w.tier) (query (env.trim w.room))

/-- A request is only made again if its filter or its offset is another; what the one before is
answered is then dropped. -/
def goTo (w : World) (tier room : String) (offset : Nat) : World :=
  if tier = w.tier ∧ room = w.room ∧ offset = w.offset then w
  else { w with tier, room, offset, fetch := .sent }

/-- The items on the screen, and their total. -/
def shown (w : World) : Option Page :=
  match w.fetch with
  | .loaded page => some page
  | _ => none

/-- There are buttons below the items, and Next is enabled. -/
def canNext (w : World) : Bool :=
  w.shown.any fun page => !page.items.isEmpty && decide (w.offset + limit < page.total)

/-- Previous is enabled. -/
def canPrevious (w : World) : Bool :=
  w.shown.any fun page => !page.items.isEmpty && decide (w.offset ≠ 0)

def step (env : Env) (w : World) : Action → World
  | .commit rows => { w with evaluations := w.evaluations ++ rows }
  | .count =>
    match w.fetch with
    | .sent => { w with fetch := .counted w.evaluations }
    | _ => w
  | .select =>
    match w.fetch with
    | .counted rows =>
      { w with fetch := .answered (agentEvaluations env rows w.evaluations (query w.tier)
          (query (env.trim w.room)) limit w.offset) }
    | _ => w
  | .arrive =>
    match w.fetch with
    | .answered page => { w with fetch := .loaded page }
    | _ => w
  | .fail =>
    match w.fetch with
    | .loaded _ => w
    | _ => { w with fetch := .failed }
  | .setTier tier => w.goTo tier w.room 0
  -- the offset stays
  | .setRoom room => w.goTo w.tier room w.offset
  | .clear => w.goTo "" "" 0
  | .reload => { w with fetch := .sent }
  | .previous => if w.canPrevious then w.goTo w.tier w.room (w.offset - limit) else w
  | .next => if w.canNext then w.goTo w.tier w.room (w.offset + limit) else w

def run (env : Env) (w : World) (acts : List Action) : World := acts.foldl (step env) w

/-- All that has been on the screen. -/
def seen (env : Env) (w : World) : List Action → List Item
  | [] => (w.shown.map Page.items).getD []
  | a :: acts => (w.shown.map Page.items).getD [] ++ seen env (step env w a) acts

end World

end Observatory.Evaluations
