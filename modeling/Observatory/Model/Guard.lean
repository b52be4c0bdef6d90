import Observatory.Model.RateLimit

/-!
# The guard in front of the routes

The middleware `_guard` of `apps/api/app.py`.  The texts of the headers are Latin-1; a header that is
not there is the empty text.
-/

namespace Observatory.Guard

open RateLimiter (Call Connection Store check fresh)

structure Settings where
  rateLimitPerMinute : Int := 120
  maxRequestBodyBytes : Int := 1048576

structure Request where
  path : String
  /-- `content-length` -/
  contentLength : List Char := []
  /-- `CF-Connecting-IP` -/
  cfConnectingIp : String := ""
  /-- `X-Forwarded-For` -/
  xForwardedFor : String := ""
  /-- `request.client.host` -/
  client : Option String := none
  now : Seconds

inductive Outcome where
  /-- `call_next` -/
  | passed
  /-- 413 -/
  | tooLarge
  /-- 429 -/
  | limited
  /-- `int` raises -/
  | valueError
deriving DecidableEq

/-- `_PUBLIC_PATHS` -/
def publicPaths : List String :=
  ["/health/live", "/health/ready", "/api/health/live", "/api/health/ready", "/api/v1/auth/login",
    "/api/v1/auth/status"]

/-- The webhook, and the public paths. -/
def Request.isExempt (r : Request) : Bool :=
  "/webhooks/telegram/".toList.isPrefixOf r.path.toList || publicPaths.contains r.path

def isDecimal (c : Char) : Bool := '0' ≤ c && c ≤ '9'

/-- `c.isdigit()`: the superscripts count. -/
def isDigit (c : Char) : Bool := isDecimal c || c == '²' || c == '³' || c == '¹'

/-- `int(text)` of a text of digits; it takes no more than 4300. -/
def intOf (text : List Char) : Option Nat :=
  if text.all isDecimal && text.length ≤ 4300 then
    some (text.foldl (fun n c => 10 * n + (c.toNat - '0'.toNat)) 0)
  else none

/-- The check of the announced length; nothing if the request may go on. -/
def bodyCheck (cfg : Settings) (cl : List Char) : Option Outcome :=
  if cl ≠ [] && cl.all isDigit then
    match intOf cl with
    | none => some .valueError
    | some n => if n > cfg.maxRequestBodyBytes then some .tooLarge else none
  else none

variable (strip : String → String)

/-- The address a request is counted for. -/
def Request.ip (r : Request) : String :=
  let cfIp := strip r.cfConnectingIp
  let xff := strip (String.ofList (r.xForwardedFor.toList.takeWhile (· ≠ ',')))
  if cfIp ≠ "" then cfIp
  else if xff ≠ "" then xff
  else r.client.getD "unknown"

/-- `f"rl:global:{ip}"` -/
def keyOf (ip : String) : String := "rl:global:" ++ ip

def callOf (cfg : Settings) (r : Request) : Call where
  key := keyOf (r.ip strip)
  limit := cfg.rateLimitPerMinute
  windowSeconds := 60
  now := r.now

/-- `_guard` -/
def guard (cfg : Settings) (s : RateLimiter × Store) (r : Request) (conn : Connection) :
    (RateLimiter × Store) × Outcome :=
  if r.isExempt then (s, .passed)
  else
    match bodyCheck cfg r.contentLength with
    | some outcome => (s, outcome)
    | none =>
      let (s, allowed) := check s (callOf strip cfg r) conn
      (s, if allowed then .passed else .limited)

/-- What has become of the limiter and of the requests. -/
abbrev Log := (RateLimiter × Store) × List (Request × Outcome)

def step (cfg : Settings) (log : Log) (x : Request × Connection) : Log :=
  ((guard strip cfg log.1 x.1 x.2).1, log.2 ++ [(x.1, (guard strip cfg log.1 x.1 x.2).2)])

/-- A series of requests to a fresh process. -/
def run (cfg : Settings) (requests : List (Request × Connection)) : Log :=
  requests.foldl (step strip cfg) (fresh, [])

end Observatory.Guard
