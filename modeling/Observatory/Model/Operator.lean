import Observatory.Model.PyText
import Observatory.Model.System

/-!
# Operators

The entry points through which people act on runs: the HTTP API of `apps/api/app.py` and the
Telegram commands of `agent_core/telegram.py`, after authentication.
-/

namespace Observatory

open Effect

/-- `uuid.UUID(text)`, if it does not raise. -/
def Text.toUuid? : Text → Option Nat
  | .uuid id => some id
  | _ => none

namespace Api

def reply (r : Db.Reply) : Proc Unit := Proc.ext (.reply r)

def createTask (t : Db.TaskCreate) (hex : Nat) : Proc Unit := do
  reply (← Proc.db (.createTask t hex))

/-- `control_run`: only a run that is QUEUED or EXECUTING when it is loaded can be controlled. -/
def controlRun (runId : Text) (action : String) : Proc Unit := do
  if action ≠ "pause" ∧ action ≠ "resume" ∧ action ≠ "stop" then
    reply (.httpError 400 "action pause|resume|stop olmalı")
  else
    match runId.toUuid? with
    | none => reply (.httpError 400 "run_id geçersiz")
    | some r =>
      match ← Proc.db (.loadRun r) with
      | none => reply (.httpError 404 "run bulunamadı")
      | some run =>
        if run.status ≠ .executing ∧ run.status ≠ .queued then
          reply (.httpError 409
            ("run terminal durumda (" ++ run.status.value ++ "), kontrol edilemez"))
        else
          let request : Option Control :=
            if action = "pause" then some .pause else if action = "stop" then some .stop else none
          Proc.db (.setControl r run request)
          reply (.control r request)

/-- `raw_key.strip()[:128] if raw_key else "default"`. -/
def clientKey : Text → Text
  | .str "" => .str "default"
  | .str s => .str (clip 128 (String.ofList (pyStrip s.toList)))
  | t => t

def retryRun (runId : Text) (rawKey : Text) : Proc Unit :=
  match runId.toUuid? with
  | none => reply (.httpError 400 "run_id geçersiz")
  | some r => do
    match ← (Proc.db (.retryRun r (clientKey rawKey))).attempt with
    | .ok rep => reply rep
    | .error x =>
      if x.name = "IntegrityError" then reply (.httpError 500 "retry commit hatası") else throw x

/-- The status code of a refused decision. -/
def refusalCode (msg : String) : Nat :=
  if occursIn "süresi dolmuş" msg ∨ occursIn "EXPIRED" msg then 410
  else if occursIn "bulunamadı" msg then 404
  else if occursIn "zaten" msg then 409
  else 400

def decideApproval (pathId bodyId : Text) (decision : String) (user : Option Nat) : Proc Unit := do
  if bodyId ≠ pathId then
    reply (.httpError 400 "path approval_id ile body approval_id uyuşmuyor")
  else
    match ← (Proc.db (.decide pathId decision user)).attempt with
    | .ok (a, approval) => reply (.decided a approval.status)
    | .error x =>
      if x.name = "ValueError" then reply (.httpError (refusalCode x.message) x.message) else throw x

end Api

namespace Telegram

def reply (message : List Db.Part) : Proc Unit := Proc.ext (.reply (.chat message))

def replyText (text : String) : Proc Unit := reply [.whole (.str text)]

/-- The direct `XADD` after the commit; a failure is swallowed. -/
def enqueue (kind : String) (r : RunId) : Proc Unit :=
  (Proc.redis (.publishToStream [("run_id", .uuid r)] (some [.str kind, .uuid r]))).swallow

def cmdAsk (prompt : String) : Proc Unit := do
  if prompt = "" then replyText "Kullanım: /ask <soru/prompt>"
  else
    let r ← Proc.db (.insertTask (clip 80 prompt) prompt)
    enqueue "task:" r
    reply [.whole (.str "✅ Task oluşturuldu\nrun: `"), .whole (.uuid r),
      .whole (.str "`\n/status ile izle")]

/-- `<başlık> | <prompt>`. -/
def splitTask (raw : String) : String × String :=
  match raw.splitOn "|" with
  | title :: p :: rest =>
    (String.ofList (pyStrip title.toList),
      String.ofList (pyStrip ("|".intercalate (p :: rest)).toList))
  | _ => (clip 80 raw, raw)

def cmdTask (raw : String) : Proc Unit := do
  if raw = "" then replyText "Kullanım: /task <başlık> | <prompt>"
  else
    let (title, prompt) := splitTask raw
    if prompt = "" then replyText "Prompt boş olamaz."
    else
      let r ← Proc.db (.insertTask (if title = "" then "Telegram task" else title) prompt)
      enqueue "task:" r
      reply [.whole (.str "✅ Task oluşturuldu\nrun `"), .whole (.uuid r),
        .whole (.str "` QUEUED")]

/-- `cmd_pause` and `cmd_stop`, whatever the run's status. -/
def setControl (request : Control) (runId : Text) : Proc Unit :=
  match runId.toUuid? with
  | none => replyText "run_id geçersiz"
  | some r => do
    match ← Proc.db (.loadRun r) with
    | none => replyText "Run yok"
    | some run =>
      Proc.db (.setControl r run (some request))
      reply (match request with
        | .pause => [.whole (.str "⏸️ Pause istendi "), .clipped 8 runId,
            .whole (.str " (sonraki iterasyonda durur)")]
        | .stop => [.whole (.str "⏹️ Stop istendi "), .clipped 8 runId,
            .whole (.str " (sonraki iterasyonda iptal)")])

def cmdPause (runId : Text) : Proc Unit := setControl .pause runId

def cmdStop (runId : Text) : Proc Unit := setControl .stop runId

def cmdResume (runId : Text) : Proc Unit :=
  match runId.toUuid? with
  | none => replyText "run_id geçersiz"
  | some r => do
    match ← Proc.db (.loadRun r) with
    | none => replyText "Run yok"
    | some run =>
      if !Db.resumable run then
        replyText ("Run durumu " ++ run.status.value ++ " — resume edilemez")
      else
        Proc.db (.resumeRun r run)
        enqueue "resume:" r
        reply [.whole (.str "▶️ Resumed "), .clipped 8 runId, .whole (.str " → QUEUED")]

/-- `_decide_approval` and the message of its caller. -/
def decideApproval (approvalId : Text) (decision : String) (user : Option Nat) : Proc Unit :=
  match approvalId.toUuid? with
  | none => replyText "approval_id geçersiz"
  | some _ => do
    match ← (Proc.db (.decide approvalId decision user)).attempt with
    | .ok _ => replyText decision
    | .error x =>
      if x.name ≠ "ValueError" then replyText ("hata: " ++ x.name)
      else if occursIn "bulunamadı" x.message then replyText "onay kaydı yok"
      else replyText x.message

def cmdApprove (approvalId : Text) (user : Option Nat) : Proc Unit :=
  decideApproval approvalId "approve" user

def cmdReject (approvalId : Text) (user : Option Nat) : Proc Unit :=
  decideApproval approvalId "reject" user

end Telegram

end Observatory
