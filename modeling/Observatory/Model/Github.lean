import Mathlib.Data.Rat.Init
import Mathlib.Order.Lattice
import Observatory.Effect.Rounds
import Observatory.Model.Ssrf

/-!
# Reading from GitHub

`packages/connectors/github.py`: `_get_json_stream` request by request and chunk by chunk, and the
two readers on top of it.
-/

namespace Observatory.Github

open Effect
open Ssrf (Library runtimeError)

/-- What `float` can make of a text. -/
inductive Float where
  | num (q : ℚ)
  | inf
  | negInf
  | nan
deriving DecidableEq

/-- `min(delay, 30)`, which lets pass what is not a number. -/
def Float.atMost30 : Float → Float
  | num q => num (min q 30)
  | inf => num 30
  | x => x

/-- A request of the client, always a `GET` with the same `Accept`. -/
structure Request where
  url : String
  params : List (String × Int) := []
deriving DecidableEq

/-- What is known of an answer before its body. -/
structure Response where
  statusCode : ℕ
  retryAfter : Option String := none
  /-- `x-ratelimit-remaining` -/
  remaining : Option String := none
  contentType : Option String := none
  contentLength : Option String := none

/-- A piece of a body: `aiter_bytes(chunk_size=8192)` gives no empty ones. -/
abbrev Chunk := {b : List UInt8 // b ≠ [] ∧ b.length ≤ 8192}

inductive Op where
  | validateHost (host : String)
  /-- the head of the answer to a request -/
  | stream (req : Request)
  /-- the next piece of the body; none at its end -/
  | chunk
  /-- `asyncio.sleep` -/
  | sleep (delay : Float)

abbrev Op.Ans : Op → Type
  | stream _ => Response
  | chunk => Option Chunk
  | _ => Unit

abbrev Net : Sig := ⟨Op, Op.Ans, LibError⟩

abbrev Proc (α : Type) := Prog Net LibError α

def perform (o : Op) : Proc o.Ans := Prog.call (S := Net) id o

/-- The connector, and what the language and its libraries know. -/
structure Env where
  maxBytes : ℕ := 2000000
  maxRetries : Int := 2
  lib : Library
  /-- `float(text)`, if it does not raise -/
  float : String → Option Float
  /-- the exception is an `httpx.TransportError` -/
  isTransport : LibError → Bool

def apiHost : String := "api.github.com"

variable (env : Env)

/-! ## One request -/

/-- The answer asks for another try. -/
def Response.throttled (resp : Response) : Bool :=
  ((resp.statusCode = 429 ∨ resp.statusCode = 403) ∧ resp.retryAfter.isSome ∨
      resp.remaining.isSome) ∧
    (resp.remaining = some "0" ∨ resp.statusCode = 429)

/-- The pause before that. -/
def Response.delay (resp : Response) : Float :=
  ((env.float (resp.retryAfter.getD "2")).getD (.num 2)).atMost30

/-- `_ALLOWED_CT` -/
def allowedContentTypes : List String :=
  ["application/json", "application/vnd.github+json", "application/vnd.github.v3+json"]

/-- `content-type` without its parameters -/
def Response.ctype (resp : Response) : String :=
  env.lib.lower (String.ofList
    (pyStrip ((resp.contentType.getD "").toList.takeWhile (· ≠ ';'))))

/-- What is checked before the body is read. -/
def checkHead (resp : Response) : Except LibError Unit := do
  let ctype := resp.ctype env
  if ctype ≠ "" ∧ ctype ∉ allowedContentTypes ∧ !occursIn "json" ctype then
    throw (runtimeError ("Content-Type allowlist dışı: " ++ ctype))
  if (resp.contentLength.bind env.lib.int).any (Int.ofNat env.maxBytes < ·) then
    throw (runtimeError "yanıt boyut sınırı aşıldı (content-length)")
  -- `raise_for_status`
  if resp.statusCode < 200 ∨ 299 < resp.statusCode then
    throw ⟨"HTTPStatusError", toString resp.statusCode⟩

def tooLarge : LibError := runtimeError "yanıt boyut sınırı aşıldı (streaming)"

/-- One round of `async for chunk in ...`, with the pieces so far. -/
def takeChunk (chunks : List Chunk) : Proc (List Chunk ⊕ List Chunk) := do
  match ← perform .chunk with
  | none => return .inr chunks
  | some b =>
    -- `total`
    if env.maxBytes < ((chunks ++ [b]).flatMap (·.1)).length then throw tooLarge
    else return .inl (chunks ++ [b])

/-- The loop over the body: a piece more than there may be bytes is too many. -/
def readBody : Proc (List UInt8) := do
  let chunks ← Prog.rounds (fun _ chunks => takeChunk env chunks) (fun _ => throw tooLarge)
    (env.maxBytes + 1) 0 []
  return chunks.flatMap (·.1)

/-- `json.loads(body) if body else {}` -/
def parse (body : List UInt8) : Except LibError Json :=
  if body = [] then .ok (.obj []) else env.lib.loads body

/-- The body of the `try`; none stands for `continue`. -/
def request (req : Request) (attempt : ℕ) : Proc (Option Json) := do
  let resp ← perform (.stream req)
  if resp.throttled ∧ attempt < env.maxRetries then
    perform (.sleep (resp.delay env))
    return none
  else
    Prog.ofExcept (checkHead env resp)
    let body ← readBody env
    return some (← Prog.ofExcept (parse env body))

/-! ## The loop -/

/-- One attempt, with `last_exc`. -/
def round (req : Request) (attempt : ℕ) (last : Option LibError) :
    Proc (Option LibError ⊕ Json) := do
  match ← (request env req attempt).attempt with
  | .ok none => return .inl last
  | .ok (some data) => return .inr data
  | .error x =>
    if env.isTransport x ∧ attempt < env.maxRetries then
      perform (.sleep (.num (1 / 2 * 2 ^ attempt)))
      return .inl (some x)
    else throw x

/-- `_get_json_stream` -/
def getJsonStream (req : Request) : Proc Json := do
  perform (.validateHost apiHost)
  Prog.rounds (round env req)
    (fun last => throw (last.getD (runtimeError "github fetch başarısız")))
    (env.maxRetries + 1).toNat 0 none

/-! ## The readers -/

/-- `repo.strip("/").split("/")` -/
def partsOf (repo : String) : List String :=
  let text := repo.toList.dropWhile (· = '/')
  ((text.reverse.dropWhile (· = '/')).reverse.splitOn '/').map String.ofList

/-- The request for a repository, or for something of it. -/
def requestFor (repo suffix : String) (params : List (String × Int)) : Option Request :=
  match partsOf repo with
  | owner :: name :: _ =>
    some ⟨"https://api.github.com/repos/" ++ owner ++ "/" ++ name ++ suffix, params⟩
  | _ => none

/-- How both readers go about it. -/
def reader {α : Type} (request : Option Request) (refusal : LibError)
    (make : Json → Except LibError α) : Proc α := do
  perform (.validateHost apiHost)
  match request with
  | none => throw refusal
  | some req => Prog.ofExcept (make (← getJsonStream env req))

/-- `assert isinstance(data, ...)` -/
def assertionError : LibError := ⟨"AssertionError", ""⟩

/-- What `repo_activity` returns. -/
def activityOf : Json → Except LibError Dict
  | .obj data =>
    let get (k : String) : Json := (Dict.get data k).getD .null
    .ok [("full_name", get "full_name"), ("pushed_at", get "pushed_at"),
      ("updated_at", get "updated_at"), ("open_issues", get "open_issues_count"),
      ("default_branch", get "default_branch"), ("html_url", get "html_url")]
  | _ => .error assertionError

/-- `repo_activity` -/
def repoActivity (repo : String) : Proc Dict :=
  reader env (requestFor repo "" []) ⟨"ValueError", "repo 'owner/name' formatında olmalı"⟩
    activityOf

/-- What is kept of a release; only a dict has `get`. -/
def release : Json → Except LibError Json
  | .obj r =>
    let get (k : String) : Json := (Dict.get r k).getD .null
    .ok (.obj [("tag_name", get "tag_name"), ("published_at", get "published_at"),
      ("name", get "name")])
  | _ => .error ⟨"AttributeError", "object has no attribute 'get'"⟩

/-- What `recent_releases` returns. -/
def releasesOf : Json → Except LibError (List Json)
  | .list data => data.mapM release
  | _ => .error assertionError

/-- `recent_releases` -/
def recentReleases (repo : String) (perPage : Int) : Proc (List Json) :=
  reader env (requestFor repo "/releases" [("per_page", perPage)])
    ⟨"ValueError", "not enough values to unpack"⟩ releasesOf

end Observatory.Github
