import Observatory.Effect.Machine
import Observatory.Effect.Run
import Observatory.Model.Policy

/-!
# The Telegram webhook

`telegram_webhook` of `apps/api/app.py` and `TelegramService.handle_raw_update`.  Every update has a
row in the inbox table; any number of deliveries of any updates run side by side.
-/

namespace Observatory

open Effect

namespace Webhook

inductive UpdateStatus where
  | pending | processing | processed | failed
deriving DecidableEq, Repr

/-- A row of `telegram_updates`. -/
structure TelegramUpdate where
  payloadHash : String
  status : UpdateStatus := .pending
  attemptCount : Nat := 0
  processedAt : Time
deriving DecidableEq, Repr

/-- What a delivery is answered with. -/
inductive Answer where
  | dedup (updateId : Json)
  | handled (updateId : Json)
  | processingFailed
  | refused (code : Nat) (detail : String)

inductive Op where
  /-- `s.get(models.TelegramUpdate, rec_id)` -/
  | get (id : Int)
  /-- a new row, committed -/
  | insert (id : Int) (payloadHash : String)
  /-- the status after the handler, committed if there is a row -/
  | finish (id : Int) (status : UpdateStatus)
  /-- whether `self._app` is set -/
  | hasApp
  | build
  | deJson (body : Dict)
  | processUpdate (upd : Json)
  | respond (a : Answer)

namespace Op

abbrev Ans : Op → Type
  | get _ => Option TelegramUpdate
  | hasApp => Bool
  | deJson _ => Json
  | _ => Unit

end Op

abbrev Hook : Sig := ⟨Op, Op.Ans, LibError⟩

abbrev Proc (α : Type) := Prog Hook PyExc α

def perform (o : Op) : Proc o.Ans := Prog.call (S := Hook) PyExc.lib o

/-- The settings, and what is computed by libraries. -/
structure Env where
  /-- `TELEGRAM_WEBHOOK_SECRET` -/
  webhookSecret : String
  /-- `hashlib.sha256(..).hexdigest()` -/
  sha256 : String → String
  /-- the hash of `json.dumps(body, sort_keys=True)` -/
  payloadHash : Dict → String

/-- `_expected_opaque_paths` -/
def expectedOpaquePaths (env : Env) : List String :=
  if env.webhookSecret = "" then []
  else
    let h := env.sha256 env.webhookSecret
    [env.webhookSecret, clip 32 h, h, clip 16 h]

structure Delivery where
  opaquePath : String
  /-- the header with the secret, empty if it is missing -/
  secret : String
  /-- none if the body is no JSON -/
  body : Option Json

/-- `int(update_id) if isinstance(update_id, int) else None` -/
def recId : Json → Option Int
  | .int i => some i
  | .bool b => some (if b then 1 else 0)
  | _ => none

/-- The error text of a row that is there already. -/
def isDuplicate (x : PyExc) : Bool :=
  occursIn "uq_tg_update_id" x.message || occursIn "UniqueViolation" x.message ||
    occursIn "duplicate" (x.message.map Char.toLower)

/-- The inbox row of a delivery: true if the delivery has been answered. -/
def openInbox (id : Int) (hash : String) : Proc Bool := do
  let opened : Proc Bool := do
    match ← perform (.get id) with
    | some existing => return existing.status = .processed
    | none =>
      perform (.insert id hash)
      return false
  match ← opened.attempt with
  | .ok dedup => return dedup
  | .error x => return isDuplicate x

def handleRawUpdate (body : Dict) : Proc Unit := do
  if !(← perform .hasApp) then perform .build
  let handled : Proc Unit := do
    let upd ← perform (.deJson body)
    perform (.processUpdate upd)
  handled.swallow

/-- The status after the handler; a failure is swallowed. -/
def finish (id : Option Int) (status : UpdateStatus) : Proc Unit :=
  match id with
  | some id => (perform (.finish id status)).swallow
  | none => pure ()

/-- The update is handed to the bot. -/
def handle (id : Option Int) (updateId : Json) (body : Dict) : Proc Answer := do
  match ← (handleRawUpdate body).attempt with
  | .error _ =>
    finish id .failed
    return .processingFailed
  | .ok _ =>
    finish id .processed
    return .handled updateId

/-- What the endpoint makes of a delivery before it looks at the update. -/
def accept (env : Env) (d : Delivery) : Except Answer Json :=
  let expected := expectedOpaquePaths env
  if !expected.isEmpty && d.opaquePath ∉ expected then
    .error (.refused 404 "webhook path bulunamadı")
  else if expected.isEmpty then .error (.refused 404 "webhook yapılandırılmamış")
  else if d.secret = "" || d.secret ≠ env.webhookSecret then
    .error (.refused 403 "invalid webhook secret")
  else
    match d.body with
    | none => .error (.refused 400 "geçersiz JSON")
    | some body => .ok body

/-- `telegram_webhook` -/
def telegramWebhook (env : Env) (d : Delivery) : Proc Answer :=
  match accept env d with
  | .error answer => return answer
  | .ok (.obj body) => do
    let updateId := (Dict.get body "update_id").getD .null
    match recId updateId with
    | none => handle none updateId body
    | some id =>
      if ← openInbox id (env.payloadHash body) then return .dedup updateId
      else handle (some id) updateId body
  | .ok _ => throw (.mk "AttributeError" "object has no attribute 'get'")

/-! ## The inbox -/

structure World where
  inbox : Int → Option TelegramUpdate
  now : Time

/-- What the outside decides about one operation. -/
structure Choice where
  /-- it fails, and does nothing -/
  fault : Option LibError := none
  hasApp : Bool := true
  upd : Json := .null

/-- `BIGINT` -/
def inRange (id : Int) : Bool := -2 ^ 63 ≤ id && id < 2 ^ 63

def outOfRange : LibError := ⟨"DBAPIError", "value out of int64 range"⟩

def uniqueViolation : LibError := ⟨"IntegrityError",
  "UniqueViolationError: duplicate key value violates unique constraint \"telegram_updates_pkey\""⟩

namespace World

def put (w : World) (id : Int) (row : TelegramUpdate) : World :=
  { w with inbox := Function.update w.inbox id (some row) }

def done (w : World) (row : TelegramUpdate) (status : UpdateStatus) : TelegramUpdate :=
  { row with
    status
    attemptCount := row.attemptCount + 1
    processedAt := if status = .processed then w.now else row.processedAt }

def exec (w : World) (ch : Choice) (o : Op) : World × Except LibError o.Ans :=
  match ch.fault, o with
  | _, .hasApp => (w, .ok ch.hasApp)
  | _, .respond _ => (w, .ok ())
  | some x, _ => (w, .error x)
  | none, .get id => if inRange id then (w, .ok (w.inbox id)) else (w, .error outOfRange)
  | none, .insert id payloadHash =>
    if inRange id then
      match w.inbox id with
      | some _ => (w, .error uniqueViolation)
      | none => (w.put id { payloadHash, processedAt := w.now }, .ok ())
    else (w, .error outOfRange)
  | none, .finish id status =>
    if inRange id then
      match w.inbox id with
      | some row => (w.put id (w.done row status), .ok ())
      | none => (w, .ok ())
    else (w, .error outOfRange)
  | none, .build => (w, .ok ())
  | none, .deJson _ => (w, .ok ch.upd)
  | none, .processUpdate _ => (w, .ok ())

/-- No update has been received yet. -/
structure Initial (w : World) : Prop where
  inbox : ∀ id, w.inbox id = none

end World

/-- Deliveries side by side. -/
abbrev machine (env : Env) : Machine Hook PyExc where
  World := World
  Req := Delivery
  Choice := Choice
  Tick := Nat
  program d := do perform (.respond (← telegramWebhook env d))
  perform w _ o ch := w.exec ch o
  leave w _ := w
  tick w ms := { w with now := w.now + ms }

end Webhook

end Observatory
