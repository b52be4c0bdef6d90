import Observatory.Effect.Machine
import Observatory.Model.AgentScorer
import Observatory.Model.Canonical

/-!
# Signed posts

`TechnocoreConnector.signed_post` of `packages/connectors/technocore.py` with the nonce generator of
the process, and the tool `technocore_signed_write` of `packages/agent_core/executor.py`, which
calls it without nonce, signature and session.  Calls of the tool run side by side, in any number of
processes; a process that is restarted is a new one.
-/

namespace Observatory.Technocore

open Effect

abbrev ProcessId := Nat

/-! ## Nonces -/

/-- `_MonotonicNonce` -/
structure MonotonicNonce where
  last : Int := 0
deriving DecidableEq, Repr

namespace MonotonicNonce

/-- The largest number of 19 digits. -/
def maxNonce : Int := 10 ^ 19 - 1

/-- `next`, at `nowMs` milliseconds on the clock. -/
def next (g : MonotonicNonce) (nowMs : Int) : MonotonicNonce × Int :=
  let n := if nowMs ≤ g.last then g.last + 1 else nowMs
  let n := if maxNonce < n then g.last + 1 else n
  (⟨n⟩, n)

/-- `ensure_greater`, for a candidate that `int` can read. -/
def ensureGreater (g : MonotonicNonce) (candidate : Int) : MonotonicNonce × Int :=
  let n := if candidate ≤ g.last then g.last + 1 else candidate
  (⟨n⟩, n)

end MonotonicNonce

/-- `^[0-9]{1,19}$`, which a final newline may follow: the number that is read. -/
def nonceOf? (nonce : String) : Option Int :=
  let cs := nonce.toList
  let cs := if cs.getLast? = some '\n' then cs.dropLast else cs
  if cs ≠ [] ∧ cs.all Char.isDigit ∧ cs.length ≤ 19 then
    some (cs.foldl (fun n c => 10 * n + (c.toNat - '0'.toNat)) 0)
  else none

/-- `_NONCE_RE` on `str(n)`. -/
def matchesNonce (n : Int) : Bool := 0 ≤ n && n ≤ MonotonicNonce.maxNonce

/-! ## Bodies -/

structure Body where
  text : String
  did : String
  sig : String
  nonce : Int
deriving DecidableEq, Repr

structure Response where
  statusCode : Nat
  /-- `r.json()`, if the body is JSON -/
  json : Option Json
  text : String := ""

/-- The settings and the key, and what is computed by libraries. -/
structure Env where
  /-- `TECHNOCORE_ENABLED` and a URL -/
  enabled : Bool
  maxRetries : Nat
  /-- `did_public`, empty if no key is loaded -/
  did : String
  /-- the signature of a canonical string, in base64 -/
  signCanonical : String → String
  /-- `unicodedata.category` -/
  category : Char → String
  /-- `str.isspace` -/
  isSpace : Char → Bool
  /-- the characters of a text; a control character stands for a surrogate, which the sweep makes
  a space like it -/
  textOf : Text → String
  /-- `json.dumps(payload, ensure_ascii=False, separators=(",", ":"))` -/
  dumps : Dict → String

/-- `TechnocoreError` -/
def technocoreError (msg : String) : PyExc := .mk "TechnocoreError" msg

/-- The character becomes a space. -/
def invisible (env : Env) (c : Char) : Bool :=
  let o := c.toNat
  let cat := env.category c
  cat.startsWith "C" || cat = "Zl" || cat = "Zp" ||
    c ∈ ['\u200b', '\u200c', '\u200d', '\ufeff', '\u2060', '\u180e'] ||
    (0x202A ≤ o && o ≤ 0x202E) || (0x2066 ≤ o && o ≤ 0x2069) || o ∈ [0x200E, 0x200F, 0x061C] ||
    o < 0x20 || (0x7F ≤ o && o ≤ 0x9F)

def sweepText (env : Env) (text : String) : String :=
  text.map fun c => if invisible env c then ' ' else c

def canonicalString (env : Env) (room : String) (nonce : Int) (text : String) :
    Except PyExc String :=
  if !AgentScorer.matchesRoom room then .error (.mk "ValueError" ("geçersiz room: " ++ room))
  else if !matchesNonce nonce then .error (.mk "ValueError" ("geçersiz nonce: " ++ toString nonce))
  else .ok (room ++ "|" ++ toString nonce ++ "|" ++ sweepText env text)

def isBase58 (c : Char) : Bool :=
  c.isAlphanum && c ∉ ['0', 'I', 'O', 'l']

/-- `^did:key:z6Mk[1-9A-HJ-NP-Za-km-z]{44}$`, which a final newline may follow. -/
def matchesDid (did : String) : Bool :=
  let cs := did.toList
  let cs := if cs.getLast? = some '\n' then cs.dropLast else cs
  "did:key:z6Mk".toList.isPrefixOf cs && (cs.drop 12).all isBase58 && cs.length = 56

/-- `^[A-Za-z0-9_-]{86}$`, which a final newline may follow. -/
def matchesSig (sig : String) : Bool :=
  let cs := sig.toList
  let cs := if cs.getLast? = some '\n' then cs.dropLast else cs
  cs.all (fun c => c.isAlphanum || c = '_' || c = '-') && cs.length = 86

/-- `sign` -/
def sign (env : Env) (room : String) (nonce : Int) (text : String) : Except PyExc String := do
  let canon ← canonicalString env room nonce text
  let sig := env.signCanonical canon
  if sig.length ≠ 86 then
    throw (.mk "AssertionError" ("sig len " ++ toString sig.length ++ " != 86"))
  return sig

/-- The libraries that check a signature. -/
structure Checker where
  /-- `unicodedata.category` -/
  category : Canonical.CodePoint → Canonical.Category
  /-- the key of the DID accepts the signature of the string, both decoded -/
  accepts : String → Canonical.Str → String → Bool

/-- `verify` -/
def Checker.verify (lib : Checker) (did : String) (room nonce text : Canonical.Str)
    (sig : String) : Bool :=
  if !matchesDid did then false
  else match Canonical.canonicalString lib.category room nonce text with
    | .error _ => false
    | .ok canon => lib.accepts did canon sig

/-- The text of a payload. -/
def rawText (env : Env) : Json → Except PyExc String
  | .text t => .ok (env.textOf t)
  | .obj payload =>
    match Dict.get payload "text" with
    | some (.text t) => .ok (env.textOf t)
    | _ => .ok (env.dumps payload)
  | _ => .error (technocoreError "payload str veya dict olmalı")

/-- The text that is posted: swept, and cut off after 4096 characters. -/
def postText (env : Env) (payload : Json) : Except PyExc String := do
  let swept := sweepText env (← rawText env payload)
  if swept.toList.all env.isSpace then throw (technocoreError "text sweep sonrası boş")
  return if 4096 < swept.length then clip 4096 swept else swept

/-- `assert` -/
def check (ok : Bool) (msg : String) : Except PyExc Unit :=
  if ok then .ok () else .error (.mk "AssertionError" msg)

/-- What `signed_post` checks before it draws a nonce, and the text it posts. -/
def prepare (env : Env) (room : String) (payload : Json) : Except PyExc String := do
  if !AgentScorer.matchesRoom room then throw (technocoreError ("geçersiz room: " ++ room))
  if env.did = "" then throw (technocoreError "anahtar yüklü değil — load_or_generate_key çağır")
  postText env payload

/-- The body for a text and a nonce; an empty signature counts as none. -/
def bodyOf (env : Env) (room text : String) (signature : Option String) (nonce : Int) :
    Except PyExc Body := do
  let sig ← match signature with
    | some sig => if sig = "" then sign env room nonce text else .ok sig
    | none => sign env room nonce text
  check (matchesDid env.did) ("DID pattern hatası: " ++ env.did)
  check (matchesSig sig) "sig pattern hatası"
  check (matchesNonce nonce) "nonce pattern hatası"
  return ⟨text, env.did, sig, nonce⟩

/-! ## Posting -/

inductive Op where
  /-- `_global_nonce.next()` of the process -/
  | nextNonce (proc : ProcessId)
  /-- `_global_nonce.ensure_greater(nonce)` of the process -/
  | ensureGreater (proc : ProcessId) (candidate : Int)
  | validateBaseHost
  /-- one request of `self._client.post` -/
  | post (room : String) (body : Body)

abbrev Op.Ans : Op → Type
  | nextNonce _ => Int
  | ensureGreater .. => Int
  | post .. => Response
  | _ => Unit

abbrev Net : Sig := ⟨Op, Op.Ans, LibError⟩

abbrev Proc (α : Type) := Prog Net PyExc α

def perform (o : Op) : Proc o.Ans := Prog.call (S := Net) PyExc.lib o

/-- `raise_for_status`, and the JSON of the answer or what stands for it. -/
def answerOf (room : String) (r : Response) : Except PyExc Json :=
  if 200 ≤ r.statusCode && r.statusCode < 300 then
    .ok (r.json.getD (.obj [("room", .str room), ("raw", .str r.text),
      ("status_code", .int r.statusCode)]))
  else .error (.mk "HTTPStatusError" (toString r.statusCode))

/-- One attempt; `again` is what follows if it is to be made again. -/
def attempt (room : String) (body : Body) (again : PyExc → Proc Json) : Proc Json := do
  match ← (perform (.post room body)).attempt with
  | .error x => again (technocoreError ("write hatası: " ++ x.name))
  | .ok r =>
    if r.statusCode = 429 then again (technocoreError "429 write limit")
    else Prog.ofExcept (answerOf room r)

/-- The attempts of one call; the number of those that may follow this one. -/
def attempts (room : String) (body : Body) : Nat → Proc Json
  | 0 => attempt room body throw
  | left + 1 => attempt room body fun _ => attempts room body left

/-- The nonce of a call without a session: the caller's, made greater if need be, or the next. -/
def drawNonce (proc : ProcessId) : Option String → Proc Int
  | none => perform (.nextNonce proc)
  | some nonce =>
    match nonceOf? nonce with
    | none => throw (technocoreError ("geçersiz nonce: " ++ nonce))
    | some n => perform (.ensureGreater proc n)

/-- `signed_post` without a session, in the process `proc`. -/
def signedPost (env : Env) (proc : ProcessId) (room : String) (payload : Json)
    (signature nonce : Option String) : Proc Json := do
  let text ← Prog.ofExcept (prepare env room payload)
  let n ← drawNonce proc nonce
  let body ← Prog.ofExcept (bodyOf env room text signature n)
  perform .validateBaseHost
  attempts room body env.maxRetries

/-- A call of `technocore_signed_write` in a process. -/
structure Call where
  proc : ProcessId
  room : String
  payload : Json
  idempotencyKey : String := ""

/-- `_tc_write` -/
def tcWrite (env : Env) (q : Call) : Proc Json := do
  if !env.enabled then
    throw (.mk "RuntimeError" "Technocore disabled (set TECHNOCORE_ENABLED=true)")
  signedPost env q.proc q.room q.payload none none

/-! ## Processes side by side -/

/-- The generator and the clock of every process; the clocks may show anything. -/
structure World where
  gens : ProcessId → MonotonicNonce
  clock : ProcessId → Int

/-- What the outside makes of an operation. -/
structure Choice where
  fault : Option LibError := none
  response : Response := ⟨200, none, ""⟩

namespace World

def exec (w : World) (ch : Choice) : (o : Op) → World × Except LibError o.Ans
  | .nextNonce proc =>
    let (g, n) := (w.gens proc).next (w.clock proc)
    ({ w with gens := Function.update w.gens proc g }, .ok n)
  | .ensureGreater proc candidate =>
    let (g, n) := (w.gens proc).ensureGreater candidate
    ({ w with gens := Function.update w.gens proc g }, .ok n)
  | .validateBaseHost =>
    match ch.fault with
    | some x => (w, .error x)
    | none => (w, .ok ())
  | .post .. =>
    match ch.fault with
    | some x => (w, .error x)
    | none => (w, .ok ch.response)

/-- No process has drawn a nonce. -/
structure Initial (w : World) : Prop where
  fresh : ∀ proc, w.gens proc = {}

end World

abbrev machine (env : Env) : Machine Net PyExc where
  World := World
  Req := Call
  Choice := Choice
  -- a process and what its clock shows from now on
  Tick := ProcessId × Int
  program q := do let _ ← tcWrite env q
  perform w _ o ch := w.exec ch o
  leave w _ := w
  tick w t := { w with clock := Function.update w.clock t.1 t.2 }

end Observatory.Technocore
