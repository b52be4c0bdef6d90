import Observatory.Effect.Layered
import Observatory.Model.Settings
import Observatory.Model.World

/-!
# The Telegram bot

`TelegramService` of `packages/agent_core/telegram.py` in front of the system: whom it lets in
(`allowed_with_db`, `_require`), its handlers with `_decide_approval`, and `handle_raw_update`, which
hands an update to the handler that takes it.
-/

namespace Observatory.Bot

open Effect

/-- A row of `telegram_identities`; no two have the same `telegram_user_id`. -/
structure TelegramIdentity where
  telegramUserId : Int
  userId : Option Nat := none
  isAllowed : Bool := false

/-- What the commands that change nothing select. -/
inductive Query where
  | status
  | runs
  | last
  | watch (run : Nat)
  | memory (q : String)

inductive Op where
  /-- the `select` of `allowed_with_db` -/
  | allowedRow (uid : Int)
  /-- the `select` of `_decide_approval`: the `user_id` of the row, if there is one -/
  | identity (uid : Int)
  /-- the rows, as the message that is made of them -/
  | select (q : Query)
  /-- `reply_text`, `answer`, `edit_message_text` or `send_message` -/
  | tell (text : String)

abbrev Op.Ans : Op → Type
  | allowedRow _ => Bool
  | identity _ => Option Nat
  | select _ => String
  | tell _ => Unit

abbrev Chat : Sig := Sys.plus Op Op.Ans

abbrev Proc (α : Type) := Prog Chat PyExc α

def perform (o : Op) : Proc o.Ans := Prog.call (S := Chat) PyExc.lib (.inr o)

/-- A transaction of the system. -/
def db (o : DbOp) : Proc o.Ans := Prog.call (S := Chat) PyExc.lib (.inl (.db o))

def tell (text : String) : Proc Unit := perform (.tell text)

structure Env where
  settings : Config.Settings
  uni : Config.Unicode
  /-- a text, with the identifiers recognised -/
  text : String → Text

inductive Content where
  /-- a command with `context.args` -/
  | command (name : String) (args : List String)
  | callbackQuery (data : String)
  /-- anything that no handler takes -/
  | other

structure Update where
  /-- `effective_user.id`, or `from_user.id` of a callback -/
  effectiveUser : Option Int
  content : Content

/-! ## Who is let in -/

variable (env : Env)

/-- `allowed_with_db` -/
def allowedWithDb (uid : Int) : Proc Bool := do
  let allowed ← Prog.ofExcept (env.settings.allowedUserIds env.uni)
  if uid ∈ allowed then return true
  else
    match ← (perform (.allowedRow uid)).attempt with
    | .ok found => return found
    | .error _ => return false

/-- `_require`; it tells who is not let in. -/
def require (u : Update) : Proc Bool :=
  match u.effectiveUser with
  | none => return false
  | some uid =>
    if uid = 0 then return false
    else do
      if ← allowedWithDb env uid then return true
      else do
        (tell "⛔ Erişimin yok. Yetkili kullanıcı değilsin.").swallow
        return false

/-- How every command but `/start` and `/help` begins. -/
def guarded (u : Update) (body : Proc Unit) : Proc Unit := do
  if ← require env u then body

/-! ## The handlers -/

/-- The selects and the reply of `cmd_status`, `cmd_runs`, `cmd_last` and `cmd_memory`. -/
def report (q : Query) : Proc Unit := do
  tell (← perform (.select q))

def startText : String :=
  "🐦 LUMI Observatory — tam kontrol\n" ++
  "/help — komut listesi\n" ++
  "/status — sistem durumu\n" ++
  "/ask <soru> — hızlı soru/task oluştur\n" ++
  "/task <başlık> | <prompt> — görev oluştur\n" ++
  "/watch <run_id> — run izle\n" ++
  "/runs — son run\x27lar\n" ++
  "/last — son run detayı + onay butonları\n" ++
  "/approve <id> — onayı kabul et\n" ++
  "/reject <id> — onayı reddet\n" ++
  "/pause <run_id> — duraklat\n" ++
  "/resume <run_id> — sürdür\n" ++
  "/stop <run_id> — iptal et\n" ++
  "/memory [sorgu] — hafıza ara/listeler"

def cmdStart : Proc Unit := tell startText

/-- `context.args[0] if context.args else ""` -/
def firstArg (args : List String) : String := args.headD ""

/-- A handler that needs its first argument. -/
def withArg (args : List String) (usage : String) (body : Text → Proc Unit) : Proc Unit :=
  if firstArg args = "" then tell usage else body (env.text (firstArg args))

def cmdWatch (args : List String) : Proc Unit :=
  withArg env args "Kullanım: /watch <run_id>" fun runId =>
    match runId.toUuid? with
    | none => tell "run_id geçersiz UUID"
    | some r => report (.watch r)

/-- The user behind a Telegram user; a failed select counts as none. -/
def resolveUser (uid : Int) : Proc (Option Nat) := do
  match ← (perform (.identity uid)).attempt with
  | .ok user => return user
  | .error _ => return none

/-- What `_decide_approval` returns after the decision. -/
def outcome (decision : String) : Except PyExc (ApprovalId × Approval) → Bool × String
  | .ok _ => (true, decision)
  | .error x =>
    if x.name ≠ "ValueError" then (false, "hata: " ++ x.name)
    else if occursIn "süresi dolmuş" x.message ∨ occursIn "EXPIRED" x.message then
      (false, x.message)
    else if occursIn "zaten" x.message then (false, x.message)
    else if occursIn "bulunamadı" x.message then (false, "onay kaydı yok")
    else (false, x.message)

/-- `_decide_approval` -/
def decideApproval (approvalId : Text) (decision : String) (uid : Int) : Proc (Bool × String) :=
  match approvalId.toUuid? with
  | none => return (false, "approval_id geçersiz")
  | some _ => do
    let user ← resolveUser uid
    return outcome decision (← (db (.decide approvalId decision user)).attempt)

/-- `cmd_approve` and `cmd_reject`. -/
def cmdDecide (decision : String) (u : Update) (args : List String) : Proc Unit :=
  withArg env args ("Kullanım: /" ++ decision ++ " <approval_id>") fun aid => do
    let (ok, msg) ← decideApproval aid decision (u.effectiveUser.getD 0)
    tell (if ok then "✅ " ++ msg ++ " — " ++ clip 8 (firstArg args) else "⛔ " ++ msg)

/-- `data.split(":", 1)`, if it gives two parts. -/
def splitOnce (data : String) : Option (String × String) :=
  match data.splitOn ":" with
  | action :: aid :: rest => some (action, ":".intercalate (aid :: rest))
  | _ => none

/-- What the chat shows of a decision. -/
def showDecision (action aid : String) (result : Bool × String) : Proc Unit := do
  let (ok, msg) := result
  (tell (if ok then (if action = "approve" then "✅ Onaylandı" else "❌ Reddedildi")
    else msg)).swallow
  let head :=
    if ok then (if action = "approve" then "✅ APPROVED" else "❌ REJECTED") else "⛔ Hata"
  match ← (tell (head ++ " — " ++ clip 8 aid ++ "\n" ++ msg)).attempt with
  | .ok _ => return ()
  | .error _ =>
    (tell ((if ok then "✅" else "⛔") ++ " " ++ msg ++ " — " ++ clip 8 aid)).swallow

/-- The end of `on_callback`, for who is let in. -/
def decideCallback (uid : Int) (data : String) : Proc Unit :=
  match splitOnce data with
  | none => tell "Geçersiz callback"
  | some (action, aid) =>
    if action ≠ "approve" ∧ action ≠ "reject" then tell "Bilinmeyen işlem"
    else do
      let result ← decideApproval (env.text aid) action uid
      showDecision action aid result

/-- `on_callback` -/
def onCallback (u : Update) (data : String) : Proc Unit :=
  match u.effectiveUser with
  | none => (tell "⛔ Yetkin yok").swallow
  | some uid =>
    if uid = 0 then (tell "⛔ Yetkin yok").swallow
    else do
      if ← allowedWithDb env uid then decideCallback env uid data
      else (tell "⛔ Yetkin yok").swallow

/-- The handlers that `build` adds, in their order. -/
def dispatch (u : Update) : Proc Unit :=
  match u.content with
  | .command "start" _ => cmdStart
  | .command "help" _ => cmdStart
  | .command "status" _ => guarded env u (report .status)
  | .command "ask" args => guarded env u (Telegram.cmdAsk (" ".intercalate args)).lift
  | .command "task" args => guarded env u (Telegram.cmdTask (" ".intercalate args)).lift
  | .command "watch" args => guarded env u (cmdWatch env args)
  | .command "runs" _ => guarded env u (report .runs)
  | .command "last" _ => guarded env u (report .last)
  | .command "approve" args => guarded env u (cmdDecide env "approve" u args)
  | .command "reject" args => guarded env u (cmdDecide env "reject" u args)
  | .command "pause" args => guarded env u
      (withArg env args "Kullanım: /pause <run_id>" fun r => (Telegram.cmdPause r).lift)
  | .command "resume" args => guarded env u
      (withArg env args "Kullanım: /resume <run_id>" fun r => (Telegram.cmdResume r).lift)
  | .command "stop" args => guarded env u
      (withArg env args "Kullanım: /stop <run_id>" fun r => (Telegram.cmdStop r).lift)
  | .command "memory" args => guarded env u (report (.memory (" ".intercalate args)))
  | .command _ _ => return ()
  -- the pattern of the handler
  | .callbackQuery data =>
    if data.startsWith "approve:" ∨ data.startsWith "reject:" then onCallback env u data
    else return ()
  | .other => return ()

/-- `handle_raw_update`, once the application is built. -/
def handleRawUpdate (u : Update) : Proc Unit := (dispatch env u).swallow

/-! ## The bot in front of the system -/

inductive Request where
  /-- a request that does not come from Telegram -/
  | direct (q : Req)
  | update (u : Update)

/-- What the outside decides about one operation of the bot. -/
structure Choice where
  fault : Option LibError := none
  /-- the message that is made of selected rows -/
  text : String := ""

/-- The user of the row of a Telegram user. -/
def userOf (rows : List TelegramIdentity) (uid : Int) : Option Nat :=
  (rows.find? (·.telegramUserId = uid)).bind (·.userId)

def answer (rows : List TelegramIdentity) (text : String) : (o : Op) → o.Ans
  | .allowedRow uid => rows.any fun x => x.telegramUserId = uid && x.isAllowed
  | .identity uid => userOf rows uid
  | .select _ => text
  | .tell _ => ()

def respond (rows : List TelegramIdentity) (ch : Choice) (o : Op) : Except LibError o.Ans :=
  match ch.fault with
  | some x => .error x
  | none => .ok (answer rows ch.text o)

/-- The table of identities is kept by hand. -/
def front (cfg : Settings) : Front (system cfg) Op Op.Ans where
  State := List TelegramIdentity
  Req := Request
  Choice := Choice
  Tick := List TelegramIdentity
  program
    | .direct q => (q.program cfg).lift
    | .update u => handleRawUpdate env u
  perform w o ch := (w.2, respond w.2 ch o)
  tick _ rows := rows

end Observatory.Bot
