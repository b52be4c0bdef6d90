import Mathlib.Data.List.Sort
import Observatory.Effect.Run
import Observatory.Model.Policy

/-!
# Room polling

`AgentScorer.poll_once` of `apps/scheduler/agent_scorer.py` with `read_room`, `get_cursor` and
`set_cursor` of `packages/connectors/technocore.py`: every message of a room is evaluated and
written, and the room's cursor moves past it.  All of it happens in one session, whose transaction
ends with the room.

What the server sends is any JSON.  `Python` holds what the built-in conversions make of it.
-/

namespace Observatory.AgentScorer

open Effect

structure Python where
  /-- `str(value)` -/
  str : Json → String
  /-- `int(text)` -/
  intOfStr : String → Option Int
  /-- `text.strip()` -/
  strip : String → String

/-- A row of `agent_evaluations`. -/
structure AgentEvaluation where
  room : String
  seq : Int
  globalSeq : Int
  nick : String
  did : Option String
  text : String
  rawJson : Dict
  score : Int
  tier : String
  reason : String
  dimensions : Json
  model : String

/-- What `evaluate` is called with; the old signature has no `seq`, `global_seq` and `raw_json`. -/
structure Evaluate where
  text : String
  nick : String
  did : Option String
  room : String
  seqs : Option (Int × Int × Dict)

inductive Op where
  /-- `SELECT ... FROM technocore_cursors WHERE room = r` -/
  | getCursor (room : String)
  /-- the requests of `read_room`, its retries taken together -/
  | fetchRoom (room : String) (since : Int)
  /-- the statements of `set_cursor` -/
  | setCursor (room : String) (seq : Int)
  /-- `SELECT ... FROM agent_evaluations WHERE room = r AND seq = s`: whether there is a row -/
  | selectEvaluation (room : String) (seq : Int)
  /-- `session.add(ev)` and `session.flush()` -/
  | insertEvaluation (row : AgentEvaluation)
  | evaluate (call : Evaluate)
  | sendRiskAlert (row : AgentEvaluation)
  | commit
  | rollback

abbrev Op.Ans : Op → Type
  | getCursor _ => Int
  | fetchRoom .. => Dict
  | selectEvaluation .. => Bool
  | evaluate _ => Option Dict
  | _ => Unit

abbrev Sys : Sig where
  Op := Op
  Ans := Op.Ans
  Err := LibError

abbrev Proc := Prog Sys LibError

def perform (o : Op) : Proc o.Ans := Prog.call (S := Sys) id o

variable (py : Python)

/-! ## Values -/

def typeError : LibError := ⟨"TypeError", ""⟩

/-- `int(value)`. -/
def toInt : Json → Except LibError Int
  | .bool b => .ok (if b then 1 else 0)
  | .int i => .ok i
  | .float q => .ok (q.num.tdiv q.den)
  | .text (.str s) =>
    match py.intOfStr s with
    | some i => .ok i
    | none => .error ⟨"ValueError", "invalid literal for int() with base 10"⟩
  | _ => .error typeError

/-- `a or b`. -/
def orElse (a b : Json) : Json := if a.truthy then a else b

/-- `d.get(k, default)`. -/
def getD (d : Dict) (k : String) (default : Json) : Json := (d.get k).getD default

/-- `int(d.get(k, 0) or 0)`, zero if that fails. -/
def intOrZero (d : Dict) (k : String) : Int :=
  match toInt py (orElse (getD d k (.int 0)) (.int 0)) with
  | .ok i => i
  | .error _ => 0

/-- What a `for` loop goes through. -/
def iterate : Json → Except LibError (List Json)
  | .list xs => .ok xs
  -- the keys of an object and the characters of a text are no messages
  | .obj _ | .text _ => .ok []
  | _ => .error typeError

/-- `data.get("messages", []) or []`. -/
def messagesOf (data : Dict) : Except LibError (List Json) :=
  iterate (orElse (getD data "messages" (.list [])) (.list []))

/-! ## Rooms -/

def isRoomStart (c : Char) : Bool := c.isLower || c.isDigit

def isRoomChar (c : Char) : Bool := isRoomStart c || c = '_' || c = '-'

/-- `^[a-z0-9][a-z0-9_-]{0,47}$`, which a final newline may follow. -/
def matchesRoom (room : String) : Bool :=
  let cs := room.toList
  match if cs.getLast? = some '\n' then cs.dropLast else cs with
  | c :: rest => isRoomStart c && rest.all isRoomChar && rest.length ≤ 47
  | [] => false

/-- The first match of `/r/([a-z0-9][a-z0-9_-]{0,47})`. -/
def searchRoom (text : String) : Option String :=
  (text.toList.tails.filterMap fun
    | '/' :: 'r' :: '/' :: c :: rest =>
      if isRoomStart c then some (String.ofList (c :: (rest.takeWhile isRoomChar).take 47)) else none
    | _ => none).head?

/-! ## The connector -/

/-- `set_cursor`. -/
def setCursor (room : String) (seq : Int) : Proc Unit :=
  if seq < 0 then throw ⟨"ValueError", "seq negatif olamaz"⟩ else perform (.setCursor room seq)

/-- `advance_cursor_from_response`. -/
def advanceCursor (room : String) (data : Dict) : Proc Unit := do
  let lastSeq ← Prog.ofExcept (toInt py (orElse (getD data "last_seq" (.int 0)) (.int 0)))
  setCursor room lastSeq

/-- `read_room` with a session: a cursor that cannot be written does not fail it. -/
def readRoom (room : String) (since : Int) : Proc Dict := do
  if !matchesRoom room then throw ⟨"TechnocoreError", "geçersiz room: " ++ room⟩
  let data ← perform (.fetchRoom room since)
  (advanceCursor py room data).swallow
  return data

/-- `get_cursor`, zero if that fails. -/
def cursorOf (room : String) : Proc Int := do
  match ← (perform (.getCursor room)).attempt with
  | .ok seq => return seq
  | .error _ => return 0

/-- `try: session.rollback() except: pass`. -/
def rollback : Proc Unit := (perform .rollback).swallow

/-- `try: body; session.commit()`, rolled back if either fails. -/
def committing (body : Proc Unit) : Proc Unit := do
  match ← (do body; perform .commit : Proc Unit).attempt with
  | .ok _ => return
  | .error _ => rollback

/-! ## Discovery -/

structure Settings where
  enabled : Bool
  /-- `_get_rooms()` -/
  rooms : List String

/-- The room a message of `/r/events` is about. -/
def candidate (m : Dict) : Except LibError (Option String) :=
  let named := orElse (orElse (getD m "room" .null) (getD m "target_room" .null))
    (getD m "channel" .null)
  match named.truthy, named with
  | true, .text (.str s) => .ok (some (py.strip s))
  | true, _ => .error ⟨"AttributeError", "object has no attribute 'strip'"⟩
  | false, _ => .ok ((searchRoom (py.str (orElse (getD m "text" (.str "")) (.str "")))).map py.strip)

/-- The rooms discovered after some messages; an exception ends the loop. -/
def discoverIn (cfg : Settings) : List Json → List String → List String × Option LibError
  | [], found => (found, none)
  | .obj m :: rest, found =>
    match candidate py m with
    | .error x => (found, some x)
    | .ok (some room) =>
      if room ≠ "" ∧ room ∉ cfg.rooms ∧ room ∉ found ∧ matchesRoom room then
        discoverIn cfg rest (found ++ [room])
      else discoverIn cfg rest found
    | .ok none => discoverIn cfg rest found
  | _ :: rest, found => discoverIn cfg rest found

/-- The first part of `poll_once`: what `/r/events` tells of new rooms. -/
def discover (cfg : Settings) (discovered : List String) : Proc (List String) := do
  let since ← cursorOf "events"
  match ← (readRoom py "events" since).attempt with
  | .error _ => return discovered
  | .ok data =>
    match messagesOf data with
    | .error _ => return discovered
    | .ok msgs =>
      match discoverIn py cfg msgs discovered with
      | (found, some _) => return found
      | (found, none) =>
        match toInt py (orElse (getD data "last_seq" (.int since)) (.int since)) with
        | .error _ => rollback
        | .ok last => if since < last then committing (setCursor "events" last) else pure ()
        return found

/-! ## Messages -/

/-- The `seq` of a message, its `global_seq` if it has none. -/
def seqOf (msg : Dict) : Int :=
  let seq := intOrZero py msg "seq"
  if seq = 0 then intOrZero py msg "global_seq" else seq

/-- `int(msg.get("global_seq", seq) or seq)`. -/
def globalSeqOf (msg : Dict) (seq : Int) : Except LibError Int :=
  toInt py (orElse (getD msg "global_seq" (.int seq)) (.int seq))

def textOf (msg : Dict) : String :=
  py.str (orElse (orElse (getD msg "text" (.str "")) (getD msg "message" (.str ""))) (.str ""))

def nickOf (msg : Dict) : String :=
  py.str (orElse (orElse (orElse (getD msg "nick" (.str "")) (getD msg "author" (.str "")))
    (getD msg "sender" (.str ""))) (.str ""))

def didOf (msg : Dict) : Option String :=
  match getD msg "did" .null with
  | .null => none
  | did => some (py.str did)

/-- The evaluation of a message; a `TypeError` is taken for the old signature. -/
def evaluate (room : String) (seq : Int) (msg : Dict) : Proc (Option Dict) := do
  let old : Evaluate := ⟨textOf py msg, nickOf py msg, didOf py msg, room, none⟩
  let call : Proc (Option Dict) := do
    let gseq ← Prog.ofExcept (globalSeqOf py msg seq)
    perform (.evaluate { old with seqs := some (seq, gseq, msg) })
  match ← call.attempt with
  | .ok result => return result
  | .error x =>
    if x.cls ≠ "TypeError" then return none
    match ← (perform (.evaluate old)).attempt with
    | .ok result => return result
    | .error _ => return none

/-- The row for an evaluated message. -/
def rowOf (room : String) (seq : Int) (msg result : Dict) : Except LibError AgentEvaluation := do
  let nick := nickOf py msg
  let text := textOf py msg
  let score ← toInt py (orElse (getD result "score" (.int 0)) (.int 0))
  return {
    room, seq
    globalSeq := (globalSeqOf py msg seq).toOption.getD seq
    nick := if nick = "" then "unknown" else clip 120 nick
    did := didOf py msg
    text := clip 4000 text
    rawJson := msg
    score
    tier := py.str (orElse (getD result "tier" (.str "SAFE")) (.str "SAFE"))
    reason := clip 500 (py.str (orElse (getD result "reason" (.str "")) (.str "")))
    dimensions := orElse (getD result "dimensions" (.obj [])) (.obj [])
    model := clip 80 (py.str (orElse (getD result "model" (.str "")) (.str ""))) }

/-- The `try` around the row: the row, or none if there is one already. -/
def writeRow (room : String) (seq : Int) (msg result : Dict) : Proc (Option AgentEvaluation) := do
  if ← perform (.selectEvaluation room seq) then return none
  let row ← Prog.ofExcept (rowOf py room seq msg result)
  perform (.insertEvaluation row)
  return some row

/-- One message; the answer is how many were processed. -/
def handleMessage (room : String) (seq : Int) (msg : Dict) : Proc Nat := do
  match ← evaluate py room seq msg with
  | none => return 0
  | some result =>
    match ← (writeRow py room seq msg result).attempt with
    | .error _ =>
      rollback
      return 0
    | .ok none => return 0
    | .ok (some row) =>
      (perform (.sendRiskAlert row)).swallow
      return 1

/-- The messages of a room: the highest `seq` seen, and how many were processed. -/
def handleMessages (room : String) : List Json → Int → Nat → Proc (Int × Nat)
  | [], maxSeq, processed => return (maxSeq, processed)
  | .obj msg :: rest, maxSeq, processed => do
    let seq := seqOf py msg
    if seq = 0 then handleMessages room rest maxSeq processed
    else
      let n ← handleMessage py room seq msg
      handleMessages room rest (max maxSeq seq) (processed + n)
  | _ :: rest, maxSeq, processed => handleMessages room rest maxSeq processed

/-! ## Polling -/

/-- `last_seq` of a response, the cursor if it has none. -/
def lastSeqOf (data : Dict) (cursor : Int) : Int :=
  match getD data "last_seq" (.int cursor) with
  | .null => cursor
  | raw => (toInt py raw).toOption.getD cursor

/-- One room of `poll_once`. -/
def pollRoom (room : String) : Proc Nat := do
  let cursor ← cursorOf room
  match ← (readRoom py room cursor).attempt with
  | .error _ => return 0
  | .ok data =>
    let msgs ← Prog.ofExcept (messagesOf data)
    let lastSeq := lastSeqOf py data cursor
    let (maxSeq, processed) ← handleMessages py room msgs cursor 0
    let newCursor := max lastSeq maxSeq
    committing (if cursor < newCursor then setCursor room newCursor else return ())
    return processed

def pollRooms : List String → Proc Nat
  | [] => return 0
  | room :: rest => do
    let n ← pollRoom py room
    let m ← pollRooms rest
    return n + m

/-- `poll_once`: how many messages were processed. -/
def pollOnce (cfg : Settings) (discovered : List String) : Proc Nat := do
  if !cfg.enabled then return 0
  let found ← discover py cfg discovered
  pollRooms py (cfg.rooms ++ found.insertionSort (· ≤ ·))

/-! ## The session -/

/-- The committed tables. -/
structure Tables where
  evaluations : List AgentEvaluation := []
  cursors : String → Option Int := fun _ => none

/-- There is a row for the message. -/
def Tables.Evaluated (tb : Tables) (room : String) (seq : Int) : Prop :=
  ∃ row ∈ tb.evaluations, row.room = room ∧ row.seq = seq

instance (tb : Tables) (room : String) (seq : Int) : Decidable (tb.Evaluated room seq) :=
  inferInstanceAs (Decidable (∃ _ ∈ _, _))

/-- The committed tables, and what the session's transaction has written.  Once a statement has
failed, the transaction takes no other before it is rolled back. -/
structure World where
  committed : Tables := {}
  /-- the rows it has inserted -/
  pending : List AgentEvaluation := []
  /-- the cursors it has written -/
  moved : List (String × Int) := []
  aborted : Bool := false

/-- What the outside decides about one operation. -/
structure Choice where
  fault : Option LibError := none
  data : Dict := []
  result : Option Dict := none

namespace World

/-- The tables as the session sees them. -/
def current (w : World) : Tables where
  evaluations := w.committed.evaluations ++ w.pending
  cursors room := (w.moved.lookup room).or (w.committed.cursors room)

/-- What `set_cursor` leaves: a cursor does not go back. -/
def advanced (w : World) (room : String) (seq : Int) : Int :=
  (w.current.cursors room).elim seq (max seq)

/-- A statement of the session's transaction. -/
def statement {α : Type} (w : World) (ch : Choice) (effect : Except LibError (World × α)) :
    World × Except LibError α :=
  if w.aborted then (w, .error ⟨"PendingRollbackError", ""⟩)
  else
    match ch.fault, effect with
    | some x, _ => ({ w with aborted := true }, .error x)
    | none, .error x => ({ w with aborted := true }, .error x)
    | none, .ok (w', a) => (w', .ok a)

def exec (w : World) (ch : Choice) : (o : Op) → World × Except LibError o.Ans
  | .getCursor room => w.statement ch (.ok (w, (w.current.cursors room).getD 0))
  | .setCursor room seq =>
    w.statement ch (.ok ({ w with moved := (room, w.advanced room seq) :: w.moved }, ()))
  | .selectEvaluation room seq => w.statement ch (.ok (w, decide (w.current.Evaluated room seq)))
  | .insertEvaluation row =>
    w.statement ch <|
      -- `uq_agent_eval_room_seq`
      if w.current.Evaluated row.room row.seq then .error ⟨"IntegrityError", "uq_agent_eval_room_seq"⟩
      else .ok ({ w with pending := w.pending ++ [row] }, ())
  | .commit =>
    w.statement ch (.ok ({ w with committed := w.current, pending := [], moved := [] }, ()))
  | .rollback =>
    match ch.fault with
    | some x => ({ w with aborted := true }, .error x)
    | none => ({ w with pending := [], moved := [], aborted := false }, .ok ())
  | .fetchRoom .. => (w, ch.fault.elim (.ok ch.data) .error)
  | .evaluate _ => (w, ch.fault.elim (.ok ch.result) .error)
  | .sendRiskAlert _ => (w, ch.fault.elim (.ok ()) .error)

end World

end Observatory.AgentScorer
