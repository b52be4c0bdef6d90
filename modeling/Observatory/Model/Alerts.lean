import Mathlib.Data.Finset.Dedup
import Observatory.Effect.Rounds
import Observatory.Model.AgentScorer
import Observatory.Model.Settings

/-!
# Risk alerts

`packages/connectors/agent_alert.py`, and `send_to_allowed` of `packages/agent_core/telegram.py`: an
evaluation of a risky tier is told to everyone on the two allow lists, first by the Bot API itself
and, if nobody could be told so, by the bot.
-/

namespace Observatory.Alerts

open Effect
open AgentScorer (AgentEvaluation)

/-- The answer of the Bot API, and the truth value of its `ok`. -/
structure PostResult where
  statusCode : ℕ
  ok : Bool

/-- The singleton of `agent_core.telegram`. -/
structure Service where
  hasToken : Bool
  hasApp : Bool

inductive Op where
  /-- the ids of the rows of `telegram_identities` that are allowed -/
  | allowedRows
  /-- `sendMessage` of the Bot API -/
  | post (uid : Int) (text : String)
  /-- `from agent_core.telegram import get_service`, and its call -/
  | getService
  | build
  /-- `bot.send_message` -/
  | sendMessage (uid : Int) (text : String)

abbrev Op.Ans : Op → Type
  | allowedRows => List Int
  | post .. => PostResult
  | getService => Service
  | _ => Unit

abbrev Net : Sig := ⟨Op, Op.Ans, LibError⟩

abbrev Proc (α : Type) := Prog Net LibError α

def perform (o : Op) : Proc o.Ans := Prog.call (S := Net) id o

/-- The order in which a set is gone through. -/
structure SetOrder where
  list : Finset Int → List Int
  nodup : ∀ s, (list s).Nodup
  mem : ∀ {s x}, x ∈ list s ↔ x ∈ s

structure Env where
  settings : Config.Settings
  uni : Config.Unicode
  /-- `text.upper()` -/
  upper : String → String
  /-- `text.strip()` -/
  strip : String → String
  order : SetOrder

variable (env : Env)

/-! ## The message -/

def alertTiers : List String := ["RISKY", "DANGEROUS"]

/-- `x or y` of texts -/
def orElse (x y : String) : String := if x = "" then y else x

/-- Who it is about. -/
def whoOf (nick did : String) : String :=
  if nick ≠ "" ∧ did ≠ "" then
    if 16 < did.length then nick ++ " (" ++ clip 16 did ++ "…)" else nick ++ " (" ++ did ++ ")"
  else if did ≠ "" then did
  else orElse nick "unknown"

/-- `_format_msg` of a row. -/
def formatMsg (ev : AgentEvaluation) : String :=
  let room := orElse ev.room "-"
  let tier := env.upper (orElse ev.tier "UNKNOWN")
  let stripped := env.strip ev.reason
  let reason := if 400 < stripped.length then clip 400 stripped ++ "…" else stripped
  let link :=
    if room ≠ "-" then "https://technocore.chat/r/" ++ room else "https://technocore.chat"
  let icon := if tier = "DANGEROUS" then "🔴" else if tier = "RISKY" then "🟠" else "⚪"
  icon ++ " *LUMI risk alert — " ++ tier ++ "*\n" ++
    "• *room*: `" ++ room ++ "`\n" ++
    "• *agent*: `" ++ whoOf ev.nick (ev.did.getD "") ++ "`\n" ++
    "• *skor*: `" ++ toString ev.score ++ "`\n" ++
    "• *neden*: " ++ orElse reason "-" ++ "\n" ++
    "• *link*: " ++ link

/-! ## Telling it -/

/-- `settings.allowed_user_ids`, none of them if that raises. -/
def listed : Finset Int :=
  match env.settings.allowedUserIds env.uni with
  | .ok uids => uids
  | .error _ => ∅

/-- The set `recipients`; a failed select leaves those of the settings. -/
def recipients : Proc (Finset Int) := do
  match ← (perform .allowedRows).attempt with
  | .ok rows => return listed env ∪ rows.toFinset
  | .error _ => return listed env

/-- One round of the loop over the Bot API. -/
def postTo (msg : String) (ok : Bool) (uid : Int) : Proc Bool := do
  match ← (perform (.post uid msg)).attempt with
  | .ok r => return ok || (r.statusCode = 200 && r.ok)
  | .error _ => return ok

/-- One round of the loop of `send_to_allowed`. -/
def sendTo (text : String) (ok : Bool) (uid : Int) : Proc Bool := do
  match ← (perform (.sendMessage uid text)).attempt with
  | .ok _ => return true
  | .error _ => return ok

/-- The part of `send_risk_alert` that uses the Bot API. -/
def direct (msg : String) : Proc Bool :=
  if env.settings.telegramBotToken = [] then return false
  else do
    let uids ← recipients env
    (env.order.list uids).foldlM (postTo msg) false

/-- `self._app`, built if there is none yet: whether that was possible. -/
def ready (svc : Service) : Proc Bool := do
  if svc.hasApp then return true
  else
    match ← (perform .build).attempt with
    | .ok _ => return true
    | .error _ => return false

/-- `send_to_allowed` -/
def sendToAllowed (svc : Service) (text : String) : Proc Bool := do
  if !svc.hasToken || text = "" then return false
  else if !(← ready svc) then return false
  else
    let uids ← recipients env
    (env.order.list uids).foldlM (sendTo text) false

/-- `send_risk_alert` -/
def sendRiskAlert (ev : AgentEvaluation) : Proc Bool :=
  if env.upper ev.tier ∉ alertTiers then return false
  else do
    let msg := formatMsg env ev
    if ← direct env msg then return true
    else
      match ← (perform .getService).attempt with
      | .error _ => return false
      | .ok svc =>
        match ← (sendToAllowed env svc msg).attempt with
        | .ok ok => return ok
        | .error _ => return false

end Observatory.Alerts
