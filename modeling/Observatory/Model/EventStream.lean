import Mathlib.Algebra.Group.Nat.Defs
import Mathlib.Data.List.Sort
import Observatory.Data.Frames
import Observatory.Model.PyText

/-!
# The live event stream

`apps/api/app.py` (`_parse_sse_cursor`, `_fetch_sse_events`, the generator of `events_stream`) at
one end, `openSSE` of `apps/web/src/api.ts` at the other, and the response bytes between them.

A text is the list of its characters.  What the web page shows of the connection, the delay before
it reconnects and the session token play no part in what is delivered, and are left out.
-/

namespace Observatory.EventStream

open Frames (indexOf)

abbrev Text := List Char

/-- The decimal digits of a number. -/
def digits (n : Nat) : Text := Nat.toDigits 10 n

/-! ## What the server says -/

/-- A `datetime`, aware and in UTC as the code makes and stores them, or naive. -/
structure DateTime where
  year : Nat
  month : Nat
  day : Nat
  hour : Nat
  minute : Nat
  second : Nat
  microsecond : Nat
  aware : Bool := true
deriving DecidableEq, Repr

def DateTime.isoformat (t : DateTime) : Text :=
  let pad (width n : Nat) : Text := (digits n).leftpad width '0'
  pad 4 t.year ++ '-' :: pad 2 t.month ++ '-' :: pad 2 t.day ++ 'T' :: pad 2 t.hour ++
    ':' :: pad 2 t.minute ++ ':' :: pad 2 t.second ++
    (if t.microsecond = 0 then [] else '.' :: pad 6 t.microsecond) ++
    (if t.aware then "+00:00".toList else [])

/-- A row of `run_events`; `global_seq` is an identity column of type `BIGINT`. -/
structure RunEvent where
  globalSeq : Nat
  seq : Int
  eventType : Text
  ts : DateTime
  runId : Text
  bigint : globalSeq < 2 ^ 63

/-- `\uXXXX`. -/
def unicodeEscape (n : Nat) : Text := "\\u".toList ++ (Nat.toDigits 16 n).leftpad 4 '0'

/-- One character of a JSON string, `ensure_ascii` being on. -/
def escape (c : Char) : Text :=
  match c.toNat with
  | 0x22 => "\\\"".toList
  | 0x5c => "\\\\".toList
  | 0x0a => "\\n".toList
  | 0x0d => "\\r".toList
  | 0x09 => "\\t".toList
  | 0x0c => "\\f".toList
  | 0x08 => "\\b".toList
  | n =>
    if 0x20 ≤ n ∧ n ≤ 0x7e then [c]
    else if n < 0x10000 then unicodeEscape n
    else unicodeEscape (0xd800 + (n - 0x10000) / 0x400) ++
      unicodeEscape (0xdc00 + (n - 0x10000) % 0x400)

def jsonString (s : Text) : Text := "\"".toList ++ s.flatMap escape ++ "\"".toList

def jsonInt : Int → Text
  | .ofNat n => digits n
  | .negSucc n => '-' :: digits (n + 1)

/-- `json.dumps(payload, default=str)`. -/
def RunEvent.payload (e : RunEvent) : Text :=
  "\x7b\"global_seq\": ".toList ++ digits e.globalSeq ++
    ", \"seq\": ".toList ++ jsonInt e.seq ++
    ", \"event_type\": ".toList ++ jsonString e.eventType ++
    ", \"ts\": ".toList ++ jsonString e.ts.isoformat ++
    ", \"run_id\": ".toList ++ jsonString e.runId ++ "\x7d".toList

/-- `_fetch_sse_events`. -/
def fetchSseEvents (runEvents : List RunEvent) (afterSeq limit : Nat) : List RunEvent :=
  ((runEvents.filter fun e => afterSeq < e.globalSeq).insertionSort
    fun a b => a.globalSeq ≤ b.globalSeq).take limit

/-- Where the generator of `events_stream` stands, with its cursor `cur`. -/
inductive Gen where
  | begun (cur : Nat)
  /-- about to fetch, after the first `yield` or after `sleep(2)` -/
  | polling (cur : Nat)
  /-- in the `for` loop, with the rows not yielded yet -/
  | sending (cur : Nat) (rows : List RunEvent)

def retryField : Text := "retry: 3000\n\n".toList

def keepalive (now : DateTime) : Text := ": keepalive ".toList ++ now.isoformat ++ "\n\n".toList

def RunEvent.field (e : RunEvent) : Text :=
  "id: ".toList ++ digits e.globalSeq ++ "\ndata: ".toList ++ e.payload ++ "\n\n".toList

/-- The generator goes on, to its next `yield` or to the end of the `for` loop: where it stands
then, and what it has yielded. -/
def Gen.resume (runEvents : List RunEvent) (now : DateTime) : Gen → Gen × Text
  | .begun cur => (.polling cur, retryField)
  | .polling cur =>
    match fetchSseEvents runEvents cur 50 with
    | [] => (.polling cur, keepalive now)
    | rows => (.sending cur rows, [])
  | .sending cur [] => (.polling cur, [])
  | .sending cur (e :: rows) => (.sending (max cur e.globalSeq) rows, e.field)

/-- `chunk.encode("utf-8")`. -/
def encode (s : Text) : List UInt8 := s.flatMap String.utf8EncodeChar

/-! ## The request -/

/-- The parts of a request that `_parse_sse_cursor` reads. -/
structure Request where
  lastEventIdHeader : Option Text
  lastEventId : Option Text
  lastUnderEventId : Option Text

inductive PyError where
  | valueError
deriving DecidableEq, Repr

/-- `str.isdigit`, of what a header can carry: the superscripts of Latin-1 are digits as well.  The
digits beyond Latin-1, which only a query parameter written by hand can carry, are not told apart
from other characters. -/
def isdigit (s : Text) : Bool :=
  s ≠ [] && s.all fun c => c.isDigit || c.toNat = 0xb2 || c.toNat = 0xb3 || c.toNat = 0xb9

/-- `int`, of a text of digits: superscripts are no decimals, and Python reads 4300 digits at
most. -/
def int (s : Text) : Except PyError Nat :=
  if s.all Char.isDigit && s.length ≤ 4300 then .ok (Nat.ofDigitChars 10 s 0)
  else .error .valueError

/-- `x or y`, of a value that may be missing. -/
def orElse (x : Option Text) (y : Text) : Text :=
  match x with
  | some (c :: s) => c :: s
  | _ => y

/-- `_parse_sse_cursor`. -/
def parseSseCursor (request : Request) : Except PyError Nat :=
  let headerRaw := orElse request.lastEventIdHeader []
  if isdigit (pyStrip headerRaw) then int (pyStrip headerRaw)
  else
    let q := orElse request.lastEventId (orElse request.lastUnderEventId [])
    if isdigit (pyStrip q) then int (pyStrip q) else .ok 0

/-! ## What the client hears -/

/-- The state of a streaming `TextDecoder`. -/
structure TextDecoder where
  codePoint : Nat := 0
  bytesSeen : Nat := 0
  bytesNeeded : Nat := 0
  lowerBoundary : Nat := 0x80
  upperBoundary : Nat := 0xbf
  bomSeen : Bool := false
deriving DecidableEq, Repr

namespace TextDecoder

/-- A byte that begins a character. -/
def lead (d : TextDecoder) (n : Nat) : TextDecoder × Text :=
  if n ≤ 0x7f then (d, [Char.ofNat n])
  else if 0xc2 ≤ n ∧ n ≤ 0xdf then ({ d with bytesNeeded := 1, codePoint := n % 0x20 }, [])
  else if 0xe0 ≤ n ∧ n ≤ 0xef then
    ({ d with bytesNeeded := 2, codePoint := n % 0x10,
              lowerBoundary := if n = 0xe0 then 0xa0 else 0x80,
              upperBoundary := if n = 0xed then 0x9f else 0xbf }, [])
  else if 0xf0 ≤ n ∧ n ≤ 0xf4 then
    ({ d with bytesNeeded := 3, codePoint := n % 8,
              lowerBoundary := if n = 0xf0 then 0x90 else 0x80,
              upperBoundary := if n = 0xf4 then 0x8f else 0xbf }, [])
  else (d, [Char.ofNat 0xfffd])

/-- One byte; one that cannot continue the character ends it, and is read again. -/
def byte (d : TextDecoder) (n : Nat) : TextDecoder × Text :=
  if d.bytesNeeded = 0 then d.lead n
  else if d.lowerBoundary ≤ n ∧ n ≤ d.upperBoundary then
    let codePoint := d.codePoint * 64 + n % 64
    if d.bytesSeen + 1 = d.bytesNeeded then ({ bomSeen := d.bomSeen }, [Char.ofNat codePoint])
    else ({ d with codePoint := codePoint, bytesSeen := d.bytesSeen + 1, lowerBoundary := 0x80,
                   upperBoundary := 0xbf }, [])
  else
    let p := ({ bomSeen := d.bomSeen } : TextDecoder).lead n
    (p.1, Char.ofNat 0xfffd :: p.2)

/-- A byte order mark at the beginning of the stream is dropped. -/
def serialize (d : TextDecoder) (out : Text) : TextDecoder × Text :=
  match d.bomSeen, out with
  | false, c :: rest => ({ d with bomSeen := true }, if c.toNat = 0xfeff then rest else c :: rest)
  | _, _ => (d, out)

/-- `decoder.decode(value, { stream: true })`. -/
def decode : TextDecoder → List UInt8 → TextDecoder × Text
  | d, [] => (d, [])
  | d, b :: bytes =>
    let p := d.byte b.toNat
    let q := p.1.serialize p.2
    let r := q.1.decode bytes
    (r.1, q.2 ++ r.2)

end TextDecoder

/-- White space and line ends, as `trim` takes them. -/
def jsSpace (c : Char) : Bool :=
  let n := c.toNat
  (9 ≤ n && n ≤ 13) || n = 0x20 || n = 0xa0 || n = 0x1680 || (0x2000 ≤ n && n ≤ 0x200a) ||
    n = 0x2028 || n = 0x2029 || n = 0x202f || n = 0x205f || n = 0x3000 || n = 0xfeff

def trimStart (s : Text) : Text := s.dropWhile jsSpace

def trim (s : Text) : Text := ((trimStart s).reverse.dropWhile jsSpace).reverse

def includes (s sub : Text) : Bool := (indexOf sub s).isSome

/-- The variables of a `connect` that has a response. -/
structure Reader where
  decoder : TextDecoder := {}
  buf : Text := []
  curId : Text := []
  curData : Text := []

/-- One line of a frame.  A `retry:` line sets the delay before the next reconnection only. -/
def Reader.line (r : Reader) (line : Text) : Reader :=
  if "id:".toList.isPrefixOf line then { r with curId := trim (line.drop 3) }
  else if "data:".toList.isPrefixOf line then
    { r with curData := r.curData ++ (if r.curData ≠ [] then ['\n'] else []) ++
        trimStart (line.drop 5) }
  else r

/-- `buf += decoder.decode(value, { stream: true })`. -/
def Reader.receive (r : Reader) (value : List UInt8) : Reader :=
  let p := r.decoder.decode value
  { r with decoder := p.1, buf := r.buf ++ p.2 }

/-- A call of `onEvent`: the parsed data, or the raw data that did not parse. -/
structure Delivery (J : Type) where
  e : J ⊕ Text
  rawId : Text

/-- The variables of an `openSSE`, and what it has delivered. -/
structure Client (J : Type) where
  lastId : Text
  localStorage : Text
  closed : Bool := false
  delivered : List (Delivery J) := []

variable {J : Type}

/-- A frame ends: what becomes of `lastId`, of the reader's variables and of the event. -/
def Client.dispatch (jsonParse : Text → Option J) (cl : Client J) (r : Reader) (frame : Text) :
    Client J × Reader :=
  if includes frame "data:".toList then
    let cl := if r.curId ≠ [] then { cl with lastId := r.curId, localStorage := r.curId } else cl
    let event : J ⊕ Text :=
      match jsonParse r.curData with
      | some e => .inl e
      | none => .inr r.curData
    (if r.curData ≠ [] then { cl with delivered := cl.delivered ++ [⟨event, r.curId⟩] } else cl,
      { r with curId := [], curData := [] })
  else if ":".toList.isPrefixOf (trim frame) then (cl, { r with curId := [], curData := [] })
  else (cl, r)

/-- One turn of the loop over the frames in the buffer, if there is one. -/
def Client.frame (jsonParse : Text → Option J) (cl : Client J) (r : Reader) :
    Option (Client J × Reader) :=
  (indexOf "\n\n".toList r.buf).map fun idx =>
    let frame := r.buf.take idx
    let r := { r with buf := r.buf.drop (idx + 2) }
    cl.dispatch jsonParse ((frame.splitOn '\n').foldl Reader.line r) frame

/-- The value of a header as `fetch` sends it. -/
def normalize (value : Text) : Text :=
  let space (c : Char) : Bool := c.toNat = 9 || c.toNat = 10 || c.toNat = 13 || c.toNat = 32
  ((value.dropWhile space).reverse.dropWhile space).reverse

/-- The characters `fetch` accepts in the value of a header. -/
def isHeaderValue (value : Text) : Bool :=
  value.all fun c => c.toNat ≤ 0xff && c.toNat ≠ 0 && c.toNat ≠ 10 && c.toNat ≠ 13

/-- The request of `connect`; `fetch` throws on a header it does not accept. -/
def requestOf (lastId : Text) : Option Request :=
  if lastId = [] then some ⟨none, none, none⟩
  else if isHeaderValue (normalize lastId) then some ⟨some (normalize lastId), some lastId, none⟩
  else none

/-! ## The two of them -/

/-- A response that is being read. -/
structure Connection where
  gen : Gen
  /-- the bytes on their way -/
  wire : List UInt8 := []
  reader : Reader := {}

structure World (J : Type) where
  /-- the rows of `run_events`, in the order of their commits -/
  runEvents : List RunEvent := []
  connection : Option Connection := none
  client : Client J

/-- `openSSE` is called with `stored` in the local storage. -/
def World.opened (stored : Text) : World J where
  client := { lastId := stored, localStorage := stored }

inductive Move where
  /-- an event is committed -/
  | append (e : RunEvent)
  /-- the response to a `connect` begins -/
  | connect
  /-- the server's generator goes on -/
  | resume (now : DateTime)
  /-- `reader.read()` returns the next bytes -/
  | read (size : Nat)
  /-- one turn of the loop over the frames in the buffer -/
  | frame
  /-- the response ends or breaks off -/
  | cut
  /-- the function that `openSSE` returned is called -/
  | stop

namespace World

/-- One step, if the move is possible.  Events are committed in the order of their `global_seq`;
`reader.read()` is called when no frame is left in the buffer. -/
def step (jsonParse : Text → Option J) (w : World J) : Move → Option (World J)
  | .append e =>
    if ∀ x ∈ w.runEvents, x.globalSeq < e.globalSeq then
      some { w with runEvents := w.runEvents ++ [e] }
    else none
  | .connect =>
    match w.connection, requestOf w.client.lastId with
    | none, some request =>
      match w.client.closed, parseSseCursor request with
      | false, .ok lastSeq => some { w with connection := some { gen := .begun lastSeq } }
      | _, _ => none
    | _, _ => none
  | .resume now =>
    w.connection.map fun c =>
      let p := c.gen.resume w.runEvents now
      { w with connection := some { c with gen := p.1, wire := c.wire ++ encode p.2 } }
  | .read size =>
    match w.connection with
    | some c =>
      if !w.client.closed && (indexOf "\n\n".toList c.reader.buf).isNone then
        some { w with connection := some { c with wire := c.wire.drop size,
                                                  reader := c.reader.receive (c.wire.take size) } }
      else none
    | none => none
  | .frame =>
    match w.connection with
    | some c => (w.client.frame jsonParse c.reader).map fun p =>
        { w with client := p.1, connection := some { c with reader := p.2 } }
    | none => none
  | .cut =>
    match w.connection with
    | some c =>
      if (indexOf "\n\n".toList c.reader.buf).isNone then some { w with connection := none }
      else none
    | none => none
  | .stop => some { w with client := { w.client with closed := true } }

/-- The state after a sequence of moves, if all of them are possible. -/
def run (jsonParse : Text → Option J) (w : World J) (moves : List Move) : Option (World J) :=
  moves.foldlM (step jsonParse) w

end World

/-- The cursor that a client begins with; one whose request fails has none. -/
def initialCursor (stored : Text) : Nat :=
  match requestOf stored with
  | some request => (parseSseCursor request).toOption.getD 0
  | none => 0

end Observatory.EventStream
