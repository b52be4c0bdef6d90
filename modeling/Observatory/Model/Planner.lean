import Observatory.Model.Coordinator

/-!
# The planner

`agent_core/planner.py`: the model is asked for a plan, its answer is read as JSON, filtered,
validated and filtered again, and whatever does not get through is replaced by a template.

What Python's library does with texts is a parameter, and so is Pydantic: `validate` either raises
or returns a `TaskPlan`, whose fields carry the declared constraints.
-/

namespace Observatory.Planner

open Effect

/-- `KNOWN_TOOLS`. -/
def knownTools : List String :=
  ["technocore_read", "github_repo_read", "http_json_read", "internal_health",
    "technocore_signed_write"]

/-- A validated action. -/
structure PlanAction where
  actionId : String
  tool : String
  arguments : Dict
  reason : String
  expectedEvidence : List String
  actionClass : String
  /-- `_known_tool` -/
  known : tool ∈ knownTools

/-- A validated plan. -/
structure TaskPlan where
  goal : String
  assumptions : List String
  successCriteria : List String
  actions : List PlanAction
  /-- `min_length=1` -/
  nonempty : 1 ≤ actions.length
  /-- `max_length=12` -/
  short : actions.length ≤ 12

structure LLMMessage where
  role : String
  content : String
deriving DecidableEq, Repr

structure LLMResult where
  text : String := ""
  usage : Dict := []

structure Library where
  /-- `str.isspace` -/
  isspace : Char → Bool
  /-- `json.loads` -/
  loads : String → Except PyExc Json
  /-- how a value reads in an f-string -/
  format : Json → String
  /-- `TaskPlan(**parsed)` -/
  validate : Dict → Except PyExc TaskPlan

def strings (texts : List String) : Json := .list (texts.map .str)

/-! ## Plans as dicts -/

def PlanAction.dump (a : PlanAction) : Json :=
  .obj [("action_id", .str a.actionId), ("tool", .str a.tool), ("arguments", .obj a.arguments),
    ("reason", .str a.reason), ("expected_evidence", strings a.expectedEvidence),
    ("action_class", .str a.actionClass)]

/-- `plan.model_dump()`, with the actions that are left of it. -/
def TaskPlan.dump (plan : TaskPlan) (actions : List PlanAction) : Dict :=
  [("goal", .str plan.goal), ("assumptions", strings plan.assumptions),
    ("success_criteria", strings plan.successCriteria), ("actions", .list (actions.map (·.dump)))]

/-- The action of the template, for every kind of goal. -/
def internalHealth : PlanAction where
  actionId := "action_1"
  tool := "internal_health"
  arguments := []
  reason := "Check internal service health"
  expectedEvidence := ["health status"]
  actionClass := "READ_ONLY"
  known := by decide

/-- `_template_plan`; both of its branches give the same actions. -/
def templatePlan (goal : Json) : Dict :=
  [("goal", goal), ("assumptions", .list []), ("success_criteria", strings ["evidence collected"]),
    ("actions", .list [internalHealth.dump])]

/-! ## Reading the answer -/

/-- `text.strip()`, and `text.strip("`")`. -/
def stripBy (p : Char → Bool) (text : List Char) : List Char :=
  ((text.dropWhile p).reverse.dropWhile p).reverse

/-- `text.removeprefix(prefix)`. -/
def removePrefix (pre text : List Char) : List Char :=
  if pre.isPrefixOf text then text.drop pre.length else text

/-- The answer without a code fence. -/
def unfence (lib : Library) (text : String) : String :=
  let stripped := stripBy lib.isspace text.toList
  if "```".toList.isPrefixOf stripped then
    String.ofList (removePrefix "json".toList (stripBy (· = '`') stripped))
  else String.ofList stripped

/-- A repo read, and no default repo. -/
def hallucinated (defaultGithubRepo : String) : Json → Bool
  | .obj act =>
    match Dict.get act "tool" with
    | some (.text (.str tool)) => tool = "github_repo_read" && defaultGithubRepo = ""
    | _ => false
  | _ => false

/-- `parsed["actions"] = actions`, for a key that is there. -/
def replaceActions (parsed : Dict) (actions : List Json) : Dict :=
  parsed.map fun kv => if kv.1 = "actions" then (kv.1, .list actions) else kv

/-- The answer without hallucinated repo reads; `none` if nothing is left. -/
def prefilter (defaultGithubRepo : String) (parsed : Dict) : Option Dict :=
  match Dict.get parsed "actions" with
  | some (.list acts) =>
    let kept := acts.filter (!hallucinated defaultGithubRepo ·)
    if kept.isEmpty then none else some (replaceActions parsed kept)
  | _ => some parsed

/-- A repo read names its repo. -/
def PlanAction.hasRepo (a : PlanAction) : Bool :=
  !(a.tool = "github_repo_read" && !(a.arguments.get "repo").any Json.truthy)

/-- The type of a value, as Python names it. -/
def typeName : Json → String
  | .null => "NoneType"
  | .bool _ => "bool"
  | .int _ => "int"
  | .float _ => "float"
  | .text _ => "str"
  | .list _ => "list"
  | .obj _ => "dict"

/-- `value.get` of a value that has none. -/
def noGet (value : Json) : PyExc :=
  .mk "AttributeError" ("'" ++ typeName value ++ "' object has no attribute 'get'")

/-- The inner `try`: the plan of an answer, `none` for the template. -/
def readPlan (lib : Library) (defaultGithubRepo : String) (res : LLMResult) :
    Except PyExc (Option Dict) := do
  let value ← lib.loads (unfence lib res.text)
  match value with
  | .obj parsed =>
    match prefilter defaultGithubRepo parsed with
    | none => return none
    | some parsed =>
      let plan ← lib.validate parsed
      let kept := plan.actions.filter (·.hasRepo)
      if kept.isEmpty then return none
      return some (plan.dump kept ++ [("_llm_usage", .obj res.usage)])
  | value => throw (noGet value)

/-! ## The plan -/

/-- `(task.get("scope") or {}).get("kind", "observe")`; only a dict has `get`. -/
def goalOf (task : Dict) : Except PyExc Json :=
  match (task.get "scope").filter Json.truthy with
  | none => .ok (.str "observe")
  | some (.obj scope) => .ok ((Dict.get scope "kind").getD (.str "observe"))
  | some value => .error (noGet value)

def sysMsg : String :=
  "You are the LUMI planner. Return ONLY valid JSON. Schema:\n" ++
  "\x7b\"goal\": str, \"assumptions\": [str], \"success_criteria\": [str], " ++
  "\"actions\": [\x7b\"action_id\":\"action_1\",\"tool\":str,\"arguments\":\x7b...\x7d," ++
  "\"reason\":str,\"expected_evidence\":[str],\"action_class\":\"READ_ONLY\"\x7d]\x7d\n" ++
  "Kullanılabilir tool'lar ve zorunlu argümanları:\n" ++
  "- http_json_read: \x7burl (zorunlu)\x7d\n" ++
  "- github_repo_read: \x7brepo (zorunlu) — owner/repo formatında, " ++
  "kullanıcının belirttiği repo\x7d\n" ++
  "- technocore_read: \x7broom, since\x7d (only if Technocore enabled)\n" ++
  "- internal_health: \x7b\x7d\n" ++
  "- technocore_signed_write: \x7broom, payload, idempotency_key\x7d (approval required, " ++
  "only if Technocore enabled)\n" ++
  "Action ID'leri action_1, action_2, ... sıralı olmalı.\n" ++
  "Do NOT invent personal repos or Technocore rooms. " ++
  "Only use repos/URLs the user explicitly provided.\n"

section plan

variable {S : Sig} (lib : Library) (defaultGithubRepo : String)

/-- What the model is asked. -/
def messages (task : Dict) (goal : Json) : List LLMMessage :=
  let title := (task.get "title").getD (.str "")
  let request := (task.get "prompt").getD (.str "")
  [⟨"system", sysMsg⟩, ⟨"user", "Görev: " ++ lib.format title ++ " — " ++ lib.format request ++
    "\nScope kind: " ++ lib.format goal ++ "\n"⟩]

/-- What an answer of the model, or its exception, is turned into. -/
def planOf (goal : Json) : Except PyExc LLMResult → Dict
  | .error _ => templatePlan goal
  | .ok res =>
    if res.text = "" then templatePlan goal
    else
      match readPlan lib defaultGithubRepo res with
      | .ok (some out) => out
      | _ => templatePlan goal

/-- `make_plan`; `chat` is the provider's, if there is one. -/
def makePlan (chat : Option (List LLMMessage → Prog S PyExc LLMResult)) (task : Dict) :
    Prog S PyExc Dict := do
  let goal ← Prog.ofExcept (goalOf task)
  match chat with
  | none => return templatePlan goal
  | some chat =>
    let answer ← (chat (messages lib task goal)).attempt
    return planOf lib defaultGithubRepo goal answer

end plan

/-! ## What the coordinator reads -/

/-- An entry of a dict of counts. -/
def count (usage : Dict) (key : String) : Option Nat :=
  match usage.get key with
  | some (.int n) => some n.toNat
  | _ => none

/-- What `_add_usage` reads of a dict of non-negative numbers. -/
def readUsage (usage : Dict) : Usage where
  promptTokens := count usage "prompt_tokens"
  completionTokens := count usage "completion_tokens"
  totalTokens := count usage "total_tokens"
  cost :=
    match usage.get "cost" with
    | some (.int n) => some n
    | some (.float q) => some q
    | _ => none

def textAt (d : Dict) (key : String) : String :=
  match d.get key with
  | some (.text (.str s)) => s
  | _ => ""

def dictAt (d : Dict) (key : String) : Dict :=
  match d.get key with
  | some (.obj kvs) => kvs
  | _ => []

/-- An entry of `actions`. -/
def readAction : Json → Option Action
  | .obj act => some ⟨textAt act "action_id", textAt act "tool", dictAt act "arguments"⟩
  | _ => none

/-- The plan the coordinator goes through. -/
def toPlan (out : Dict) : Plan where
  actions :=
    match out.get "actions" with
    | some (.list acts) => acts.map readAction
    | _ => []
  usage := readUsage (dictAt out "_llm_usage")

end Observatory.Planner
