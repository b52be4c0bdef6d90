import Mathlib.Data.List.Dedup
import Mathlib.Data.List.Sort
import Observatory.Data.Search
import Observatory.Model.AgentScorer
import Observatory.Model.Canonical

/-!
# Evaluations of messages

`evaluate_agent_message` of `packages/connectors/agent_evaluator.py` with its heuristic and with
what it makes of a model's answer, and the gate of `send_risk_alert` of
`packages/connectors/agent_alert.py`.  Texts are the strings of the language.  `Unicode` has what
`re` and `str` know about characters, `Python` the built-in conversions; `F` stands for the floats.
-/

namespace Observatory.Evaluator

open Canonical (Str CodePoint ofString)
open Regex

/-! ## Tiers -/

def tierSafe : Str := ofString "SAFE"

def tierWatch : Str := ofString "WATCH"

def tierRisky : Str := ofString "RISKY"

def tierDangerous : Str := ofString "DANGEROUS"

def validTiers : List Str := [tierSafe, tierWatch, tierRisky, tierDangerous]

def tierFromScore (score : Int) : Str :=
  if 80 ≤ score then tierDangerous
  else if 55 ≤ score then tierRisky
  else if 30 ≤ score then tierWatch
  else tierSafe

/-- The place of a tier among the valid ones, which come in the order of their severity. -/
def severity (tier : Str) : Nat := validTiers.idxOf tier

/-! ## Results -/

structure Dimensions where
  intent : Int
  safety : Int
  quality : Int
  value : Int
  risk : Int
deriving DecidableEq

namespace Dimensions

def toList (d : Dimensions) : List Int := [d.intent, d.safety, d.quality, d.value, d.risk]

end Dimensions

structure Evaluation where
  score : Int
  tier : Str
  reason : Str
  dimensions : Dimensions
deriving DecidableEq

/-- An evaluation with the model that has made it. -/
structure Result extends Evaluation where
  model : Str
deriving DecidableEq

/-! ## The heuristic -/

structure Unicode where
  /-- `\d` -/
  isDecimal : CodePoint → Bool
  /-- `\s`, and what `str.strip` takes away -/
  isSpace : CodePoint → Bool
  /-- a character stands for another one if the case is ignored -/
  ignoreCase : CodePoint → CodePoint → Bool

section heuristic

variable (uni : Unicode)

/-- A text with `re.I`. -/
def itext (s : String) : Re CodePoint :=
  .seqs ((ofString s).map fun l => .one fun c => c = l || uni.ignoreCase c l)

/-- One of some characters. -/
def oneOf (s : String) : Re CodePoint := .one (· ∈ ofString s)

/-- `\s*` -/
def spaces : Re CodePoint := .many uni.isSpace 0 none

/-- `\s+` -/
def someSpaces : Re CodePoint := .many uni.isSpace 1 none

/-- `\s` -/
def space : Re CodePoint := .one uni.isSpace

/-- `\d` -/
def digit : Re CodePoint := .one uni.isDecimal

/-- Words with `\s+` between them. -/
def words (s : String) : List String → Re CodePoint
  | [] => itext uni s
  | s' :: rest => .seqs [itext uni s, someSpaces uni, words s' rest]

/-- `_HEURISTIC_PATTERNS` -/
def heuristicPatterns : List (Re CodePoint × String × Int) := [
  -- ignore\s+previous\s+instructions
  (words uni "ignore" ["previous", "instructions"], "prompt injection", 75),
  -- ignore\s+all\s+instructions
  (words uni "ignore" ["all", "instructions"], "prompt injection", 75),
  -- system\s*prompt
  (.seqs [itext uni "system", spaces uni, itext uni "prompt"], "prompt injection", 50),
  -- jailbreak|DAN\s+mode|do\s+anything\s+now
  (.alts (itext uni "jailbreak") [words uni "dan" ["mode"], words uni "do" ["anything", "now"]],
    "prompt injection", 80),
  -- ssrf|169\.254\.169\.254|metadata\.google|localhost:\d|127\.0\.0\.1
  (.alts (itext uni "ssrf") [itext uni "169.254.169.254", itext uni "metadata.google",
    .seqs [itext uni "localhost:", digit uni], itext uni "127.0.0.1"], "ssrf", 85),
  -- fetch\s*\(|curl\s|wget\s|http://\d
  (.alts (.seqs [itext uni "fetch", spaces uni, oneOf "("])
    [.seqs [itext uni "curl", space uni], .seqs [itext uni "wget", space uni],
     .seqs [itext uni "http://", digit uni]], "ssrf", 60),
  -- api[_-]?key|secret|password|token\s*[:=]|BEGIN\s+(RSA\s+)?PRIVATE\s+KEY
  (.alts (.seqs [itext uni "api", .opt (oneOf "_-"), itext uni "key"])
    [itext uni "secret", itext uni "password", .seqs [itext uni "token", spaces uni, oneOf ":="],
     .seqs [itext uni "begin", someSpaces uni, .opt (.seqs [itext uni "rsa", someSpaces uni]),
      words uni "private" ["key"]]], "secret leak", 70),
  -- exfiltrate|leak\s+data|dump\s+db|drop\s+table|rm\s+-rf
  (.alts (itext uni "exfiltrate") [words uni "leak" ["data"], words uni "dump" ["db"],
    words uni "drop" ["table"], words uni "rm" ["-rf"]], "data exfiltration", 80),
  -- eval\s*\(|exec\s*\(|__import__|os\.system|subprocess
  (.alts (.seqs [itext uni "eval", spaces uni, oneOf "("])
    [.seqs [itext uni "exec", spaces uni, oneOf "("], itext uni "__import__",
     itext uni "os.system", itext uni "subprocess"], "code execution", 75),
  -- overwrite|delete\s+all|truncate\s+table
  (.alts (itext uni "overwrite") [words uni "delete" ["all"], words uni "truncate" ["table"]],
    "destructive", 70)]

/-- The labels and scores of the patterns that are found. -/
def found (text : Str) : List (String × Int) :=
  (heuristicPatterns uni).filterMap fun (pat, hit) => if pat.search none text then some hit else none

/-- What one label does to the dimensions. -/
def distribute (maxScore : Int) (dims : Dimensions) (m : String) : Dimensions :=
  if m = "prompt injection" then
    { dims with intent := maxScore, safety := max dims.safety (maxScore - 10) }
  else if m ∈ ["ssrf", "code execution", "destructive", "data exfiltration"] then
    { dims with risk := max dims.risk maxScore }
  else if m = "secret leak" then
    { dims with risk := max dims.risk maxScore, safety := max dims.safety (maxScore - 20) }
  else { dims with risk := max dims.risk (maxScore / 2) }

/-- `len(text) > 3500` -/
def isLong (text : Str) : Bool := 3500 < text.length

/-- `not text.strip()` -/
def isBlank (text : Str) : Bool := text.all uni.isSpace

/-- `max_score` -/
def maxScore (text : Str) : Int :=
  let score := (found uni text).foldl (fun score hit => max score hit.2) 10
  if isLong text then max score 25 else score

/-- `matched` -/
def matchedLabels (text : Str) : List String :=
  (found uni text).map (·.1) ++ if isLong text then ["long message"] else []

/-- `_heuristic_evaluate` -/
def heuristicEvaluate (text : Str) : Evaluation :=
  let score := maxScore uni text
  let labels := (matchedLabels uni text).dedup
  if isBlank uni text then
    ⟨5, tierSafe, ofString "empty message — SAFE", ⟨5, 5, 10, 10, 5⟩⟩
  else if labels ≠ [] then
    let reason := "heuristic: " ++ ", ".intercalate (labels.insertionSort (· ≤ ·))
    let dims := labels.foldl (distribute score) ⟨0, 0, 10, 10, 0⟩
    let dims := if 60 ≤ score then { dims with risk := max dims.risk score } else dims
    ⟨score, tierFromScore score, ofString reason, dims⟩
  else ⟨10, tierSafe, ofString "no heuristic risk detected — SAFE", ⟨5, 5, 5, 5, 10⟩⟩

end heuristic

/-! ## The model's answer -/

section answer

variable {F : Type}

/-- What `json.loads` makes of a document. -/
inductive Raw (F : Type) where
  | null
  | bool (b : Bool)
  | int (i : Int)
  | float (x : F)
  | str (s : Str)
  | list (xs : List (Raw F))
  | obj (kvs : List (Str × Raw F))

structure Python (F : Type) where
  /-- `int(x)`, which fails on what is not finite -/
  intOfFloat : F → Option Int
  floatTruthy : F → Bool
  /-- `int(text)` -/
  intOfStr : Str → Option Int
  /-- `str(value)` -/
  str : Raw F → Str
  upper : Str → Str
  lower : Str → Str
  strip : Str → Str
  loads : Str → Except LibError (Raw F)

/-- `upper` has nothing to do where there are capitals only. -/
def Python.Documented (py : Python F) : Prop :=
  ∀ s, (∀ c ∈ s, 0x41 ≤ c.val ∧ c.val ≤ 0x5A) → py.upper s = s

variable (py : Python F)

def Raw.truthy : Raw F → Bool
  | .null => false
  | .bool b => b
  | .int i => i != 0
  | .float x => py.floatTruthy x
  | .str s => !s.isEmpty
  | .list xs => !xs.isEmpty
  | .obj kvs => !kvs.isEmpty

/-- `int(value)` -/
def toInt : Raw F → Option Int
  | .bool b => some (if b then 1 else 0)
  | .int i => some i
  | .float x => py.intOfFloat x
  | .str s => py.intOfStr s
  | _ => none

/-- `value.get(key, default)` -/
def Raw.get (value : Raw F) (key : String) (default : Raw F) : Except LibError (Raw F) :=
  match value with
  | .obj kvs => .ok ((kvs.lookup (ofString key)).getD default)
  | _ => .error ⟨"AttributeError", "object has no attribute 'get'"⟩

def clamp (score : Int) : Int := max 0 (min 100 score)

/-- `int(value.get(key, default))`, `fallback` if that fails. -/
def intOr (fallback default : Int) (value : Raw F) (key : String) : Int :=
  match value.get key (.int default) with
  | .ok v => ((toInt py v).map clamp).getD fallback
  | .error _ => fallback

/-- The `score` of an answer. -/
def scoreOf (raw : Raw F) : Int := intOr py 10 10 raw "score"

/-- The `tier` of an answer, before it is looked up. -/
def tierOf (raw : Raw F) : Except LibError Str := do
  let tier ← raw.get "tier" (.str [])
  return py.strip (py.upper (py.str tier))

/-- The `dimensions` of an answer; what they do not give is half the score. -/
def dimensionsOf (score : Int) (raw : Raw F) : Except LibError Dimensions := do
  let dims ← raw.get "dimensions" .null
  let dims := if dims.truthy py then dims else .obj []
  let half := score / 2
  let dim := intOr py half half dims
  return ⟨dim "intent", dim "safety", dim "quality", dim "value", dim "risk"⟩

/-- `_normalize_llm_result` -/
def normalizeLlmResult (raw : Raw F) : Except LibError Evaluation := do
  let score := scoreOf py raw
  let tier ← tierOf py raw
  let tier := if tier ∈ validTiers then tier else tierFromScore score
  let reason := (py.str (← raw.get "reason" (.str []))).take 500
  let reason := if reason = [] then ofString "llm evaluation" else reason
  let dims ← dimensionsOf py score raw
  return ⟨score, tier, reason, dims⟩

end answer

/-! ## Evaluating -/

structure Settings where
  llmProvider : Str
  llmBaseUrl : Str
  llmModel : Str

/-- What `evaluate_agent_message` is called with. -/
structure Message where
  text : Str
  nick : Str := []
  did : Option Str := none
  room : Str := []

def buildUserPrompt (m : Message) : Str :=
  let did := m.did.getD []
  let about := ofString "room=" ++ m.room ++ ofString " nick=" ++ m.nick ++ ofString " did=" ++
    if did = [] then ofString "unknown" else did
  about ++ ofString "\nmessage: " ++ m.text.take 4000

section evaluate

variable {F : Type} (py : Python F) (uni : Unicode) (cfg : Settings)

/-- `value[key]` -/
def Raw.item (value : Raw F) (key : String) : Except LibError (Raw F) :=
  match value with
  | .obj kvs => (kvs.lookup (ofString key)).elim (.error ⟨"KeyError", key⟩) .ok
  | _ => .error ⟨"TypeError", ""⟩

/-- `value[0]` -/
def Raw.first : Raw F → Except LibError (Raw F)
  | .list xs => xs.head?.elim (.error ⟨"IndexError", "list index out of range"⟩) .ok
  | .str s => s.head?.elim (.error ⟨"IndexError", "string index out of range"⟩) fun c =>
    .ok (.str [c])
  | .obj _ => .error ⟨"KeyError", "0"⟩
  | _ => .error ⟨"TypeError", ""⟩

/-- The answer in a response, `data["choices"][0]["message"]["content"]` parsed. -/
def parsedOf (data : Raw F) : Except LibError (Raw F) := do
  let choices ← data.item "choices"
  let choice ← choices.first
  let message ← choice.item "message"
  match ← message.item "content" with
  | .str content => py.loads content
  | .obj kvs => return .obj kvs
  | _ => throw ⟨"TypeError", "unexpected content type"⟩

/-- `settings.LLM_PROVIDER` and `settings.LLM_BASE_URL` send nothing to a model. -/
def isMock : Bool :=
  py.lower (if cfg.llmProvider = [] then ofString "mock" else cfg.llmProvider) = ofString "mock" ||
    cfg.llmBaseUrl = []

def modelName : Str := if cfg.llmModel = [] then ofString "gpt-4o-mini" else cfg.llmModel

/-- `evaluate_agent_message`; `chat` answers the request with a prompt by the JSON of its response,
unless the request fails. -/
def evaluateAgentMessage (chat : Str → Except LibError (Raw F)) (m : Message) : Result :=
  let heuristic := heuristicEvaluate uni m.text
  if isMock py cfg then { heuristic with model := ofString "heuristic/mock" }
  else
    match chat (buildUserPrompt m) >>= parsedOf py >>= normalizeLlmResult py with
    | .ok norm => { norm with model := modelName cfg }
    | .error e => { heuristic with model := ofString ("heuristic/fallback:" ++ e.cls) }

/-! ## The alert -/

def alertTiers : List Str := [tierRisky, tierDangerous]

/-- `send_risk_alert` goes on to notify. -/
def notifies (tier : Str) : Bool := py.upper tier ∈ alertTiers

end evaluate

/-! ## The result as a `dict` -/

/-- A text with a mark in the place of what is no character. -/
def readable (s : Str) : String :=
  String.ofList (s.map fun c => (Canonical.toChar? c).getD '\uFFFD')

def Dimensions.toDict (d : Dimensions) : Dict :=
  [("intent", .int d.intent), ("safety", .int d.safety), ("quality", .int d.quality),
   ("value", .int d.value), ("risk", .int d.risk)]

def Result.toDict (r : Result) : Dict :=
  [("score", .int r.score), ("tier", .str (readable r.tier)), ("reason", .str (readable r.reason)),
   ("dimensions", .obj r.dimensions.toDict), ("model", .str (readable r.model))]

end Observatory.Evaluator
