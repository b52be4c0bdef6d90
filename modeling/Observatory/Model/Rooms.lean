import Observatory.Effect.Rounds
import Observatory.Model.AgentScorer
import Observatory.Model.Evaluator
import Observatory.Model.OutboxKeys

/-!
# Reading a room

`_parse_retry_after` and `read_room` of `packages/connectors/technocore.py`, request by request:
the host is validated anew before every attempt, a failed or refused attempt is followed by a pause,
and an answer that has arrived is not asked for again.
-/

namespace Observatory.Rooms

open Effect Regex
open Canonical (Str CodePoint ofChar ofString)
open Evaluator (Unicode itext)

/-- An answer of the server. -/
structure Response where
  statusCode : ℕ
  /-- `r.text`, empty if it cannot be had -/
  text : Str := []
  /-- `Retry-After`, empty if it is missing -/
  retryAfter : Str := []
  /-- `len(r.content)` -/
  size : ℕ := 0
  /-- `r.json()`, if it does not raise -/
  json : Option Json := none

/-! ## The pause that a server asks for -/

/-- What is known of `float(s)`: no number, one that is not finite, or a number. -/
abbrev Float := Str → Option (Option ℚ)

section retryAfter

variable (uni : Unicode) (float : Float)

/-- `re.search(pre + "(" + group + ")", s).group(1)` -/
def searchGroup (pre group : Re CodePoint) : Option CodePoint → Str → Option Str
  | prev, [] => ((pre.run prev []).flatMap fun x =>
      (group.run (x.1.getLast?.or prev) x.2).map (·.1)).head?
  | prev, c :: s =>
    (((pre.run prev (c :: s)).flatMap fun x =>
      (group.run (x.1.getLast?.or prev) x.2).map (·.1)).head?).or (searchGroup pre group (some c) s)

/-- `\d+(?:\.\d+)?` -/
def number : Re CodePoint :=
  let digits : Re CodePoint := .many uni.isDecimal 1 none
  .seqs [digits, .opt (.seqs [.one (· = ofChar '.'), digits])]

/-- `[^0-9]*` -/
def noDigits : Re CodePoint := .many (!Canonical.isDigit ·) 0 none

/-- The number that `_parse_retry_after` looks at in the text. -/
def numberIn (body : Str) : Option Str :=
  (searchGroup (.seqs [itext uni "retry", noDigits]) (number uni) none body).or
    ((searchGroup (.seqs [itext uni "wait", noDigits]) (number uni) none body).or
      (searchGroup .eps (number uni) none body))

/-- A number of seconds that is taken. -/
def seconds (s : Str) : Option ℚ :=
  match float s with
  | some (some v) => if 0 < v ∧ v < 3600 then some v else none
  | _ => none

/-- `_parse_retry_after` -/
def parseRetryAfter (r : Response) : ℚ :=
  let inBody := (numberIn uni r.text).bind (seconds float)
  let inHeader :=
    if r.retryAfter = [] then none else seconds float (Outbox.strip uni.isSpace r.retryAfter)
  (inBody.or inHeader).getD 1

end retryAfter

/-! ## Reading -/

inductive Op where
  /-- `self._validate_base_host()` -/
  | validateBaseHost
  /-- one request of `self._client.get` -/
  | get (room : String) (since wait : Int)
  /-- `random.uniform(0, hi)` -/
  | uniform (hi : ℚ)
  /-- `asyncio.sleep` -/
  | sleep (seconds : ℚ)
  /-- `advance_cursor_from_response` with the session -/
  | advanceCursor (room : String) (data : Dict)

abbrev Op.Ans : Op → Type
  | get .. => Response
  | uniform hi => {q : ℚ // 0 ≤ q ∧ q ≤ hi}
  | _ => Unit

abbrev Net : Sig := ⟨Op, Op.Ans, LibError⟩

abbrev Proc (α : Type) := Prog Net PyExc α

def perform (o : Op) : Proc o.Ans := Prog.call (S := Net) PyExc.lib o

/-- The connector, and what the language and its libraries know. -/
structure Env where
  maxRetries : Int := 2
  uni : Unicode
  float : Float
  textOf : Str → String

/-- `d[k] = v` -/
def setItem (d : Dict) (k : String) (v : Json) : Dict :=
  if d.any (·.1 = k) then d.map fun x => if x.1 = k then (k, v) else x else d ++ [(k, v)]

/-- `data["_untrusted"] = _UNTRUSTED`; only a dict takes it. -/
def marked : Json → Except PyExc Dict
  | .obj data => .ok (setItem data "_untrusted" (.bool true))
  | _ => .error (.mk "TypeError" "object does not support item assignment")

/-- The nearest integer, the even one of two. -/
def roundHalfEven (q : ℚ) : ℕ :=
  let n := q.floor.toNat
  if q - n < 1 / 2 ∨ q - n = 1 / 2 ∧ n % 2 = 0 then n else n + 1

/-- `f"\x7bq:.2f\x7d"`, of a number that is not negative. -/
def fixed2 (q : ℚ) : String :=
  let n := roundHalfEven (100 * q)
  toString (n / 100) ++ "." ++ (if n % 100 < 10 then "0" else "") ++ toString (n % 100)

/-- The largest answer that is taken. -/
def maxSize : ℕ := 1048576

/-- What is made of an answer that is no 429. -/
def accepted (env : Env) (room : String) (since : Int) (r : Response) : Except PyExc Dict :=
  -- `raise_for_status`
  if ¬(200 ≤ r.statusCode ∧ r.statusCode < 300) then
    .error (.mk "HTTPStatusError" (toString r.statusCode))
  else if maxSize < r.size then .error (.mk "TechnocoreError" "yanıt boyut sınırı")
  else marked (r.json.getD (.obj
    [("room", .str room), ("messages", .list []), ("count", .int 0), ("last_seq", .int since),
     ("raw", .str (env.textOf r.text))]))

/-- One attempt. -/
def round (env : Env) (room : String) (since wait : Int) (session : Bool) (attempt : ℕ) :
    Proc (Unit ⊕ Dict) := do
  perform .validateBaseHost
  match ← (perform (.get room since wait)).attempt with
  | .error x =>
    if attempt = env.maxRetries then throw (.mk "TechnocoreError" ("okuma hatası: " ++ x.name))
    else do
      let jitter ← perform (.uniform (3 / 20))
      perform (.sleep (1 / 5 * 2 ^ attempt + jitter.1))
      return .inl ()
  | .ok r =>
    if r.statusCode = 429 then do
      let jitter ← perform (.uniform (1 / 4))
      let backoff := min (parseRetryAfter env.uni env.float r + jitter.1) 30
      if attempt = env.maxRetries then 
        throw (.mk "TechnocoreError" ("429 limit — backoff " ++ fixed2 backoff ++ "s"))
      else do
        perform (.sleep backoff)
        return .inl ()
    else do
      let data ← Prog.ofExcept (accepted env room since r)
      if session then (perform (.advanceCursor room data)).swallow
      return .inr data

/-- `wait` between 0 and 10. -/
def clampWait (wait : Int) : Int := if wait < 0 ∨ 10 < wait then max 0 (min 10 wait) else wait

/-- `read_room` -/
def readRoom (env : Env) (room : String) (since wait : Int) (session : Bool) : Proc Dict := do
  if !AgentScorer.matchesRoom room then
    throw (.mk "TechnocoreError" ("geçersiz room: " ++ room))
  Prog.rounds (fun attempt _ => round env room since (clampWait wait) session attempt)
    (fun _ => throw (.mk "TechnocoreError" "okuma başarısız")) (env.maxRetries + 1).toNat 0 ()

end Observatory.Rooms
