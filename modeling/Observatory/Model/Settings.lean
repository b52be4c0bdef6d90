import Mathlib.Data.Finset.Sort
import Observatory.Model.Generator
import Observatory.Model.OutboxKeys
import Observatory.Model.PyText

/-!
# Settings

`Settings` of `packages/observability/config.py` with the check of a production start, and
`ensure_user_id_in_allowlist` of `packages/agent_core/telegram.py`, which writes a setting back.
-/

namespace Observatory.Config

open Canonical (Str CodePoint ofChar ofString)
open Technocore (maxStrDigits)

/-- What the language knows of the characters that are not ASCII. -/
structure Unicode extends Technocore.Unicode where
  /-- `str.isdigit` of one character: also superscripts and circled digits -/
  isDigit : CodePoint → Bool

namespace Unicode

variable (uni : Unicode)

def digit (c : CodePoint) : Bool :=
  if c.val < 0x80 then Canonical.isDigit c else uni.isDigit c

/-- `s.isdigit()` -/
def isdigit (s : Str) : Bool := s ≠ [] && s.all uni.digit

end Unicode

/-- `s.strip()` -/
def strip (s : Str) : Str := Outbox.strip (isSpaceCode ·.val) s

structure Settings where
  appEnv : Str := ofString "development"
  databaseUrl : Str := []
  jwtSecret : Str := []
  sessionEncryptionMasterKey : Str := []
  telegramWebhookSecret : Str := []
  postgresPassword : Str := []
  adminEmail : Str := ofString "admin@example.com"
  adminPasswordHash : Str := []
  sessionTtlSeconds : Int := 12 * 3600
  telegramBotToken : Str := []
  telegramAllowedUserIds : Str := []
deriving DecidableEq, Repr

/-! ## The allow list -/

def comma : CodePoint := ofChar ','

/-- `int` refuses the text. -/
def notANumber : PyExc := .mk "ValueError" "invalid literal for int() with base 10"

/-- One round of the loop of `allowed_user_ids`. -/
def addPart (uni : Unicode) (out : Finset Int) (part : Str) : Except PyExc (Finset Int) :=
  let part := strip part
  -- `part.lstrip("-").isdigit()`
  if part ≠ [] ∧ uni.isdigit (part.dropWhile (· = ofChar '-')) then
    match uni.int part with
    | some n => .ok (insert n out)
    | none => .error notANumber
  else .ok out

/-- `allowed_user_ids` -/
def Settings.allowedUserIds (uni : Unicode) (s : Settings) : Except PyExc (Finset Int) :=
  let raw := strip s.telegramAllowedUserIds
  if raw = [] ∨ raw = [ofChar '*'] then .ok ∅
  else (raw.splitOn comma).foldlM (addPart uni) ∅

/-- `str(x)`, which refuses numbers of too many digits. -/
def text (n : Int) : Except PyExc Str :=
  if maxStrDigits < (Nat.toDigits 10 n.natAbs).length then
    .error (.mk "ValueError" "Exceeds the limit (4300 digits) for integer string conversion")
  else .ok (Technocore.str n)

/-- `sorted` of a set of ids. -/
abbrev sorted (ids : Finset Int) : List Int := ids.sort (· ≤ ·)

/-- `ensure_user_id_in_allowlist` -/
def ensureUserIdInAllowlist (uni : Unicode) (s : Settings) (userId : Int) :
    Except PyExc Settings := do
  let current ← s.allowedUserIds uni
  let texts ← (sorted (insert userId current)).mapM text
  return { s with telegramAllowedUserIds := [comma].intercalate texts }

/-! ## Starting in production -/

/-- `is_production` -/
def Settings.isProduction (s : Settings) : Bool := s.appEnv = ofString "production"

/-- The secrets that `validate_production` looks at, by name. -/
def Settings.secrets (s : Settings) : List (String × Str) :=
  [("JWT_SECRET", s.jwtSecret),
   ("SESSION_ENCRYPTION_MASTER_KEY", s.sessionEncryptionMasterKey),
   ("TELEGRAM_WEBHOOK_SECRET", s.telegramWebhookSecret),
   ("POSTGRES_PASSWORD", s.postgresPassword),
   ("ADMIN_PASSWORD_HASH", s.adminPasswordHash)]

def placeholders : List Str :=
  ["CHANGE_ME", "dev-only-change-me", "dev-only-32-byte-master-key-0000000000",
    "dev-webhook-secret", "random", ""].map ofString

/-- `sub in s` -/
def occurs (sub s : Str) : Bool := sub <:+: s

/-- The value of a secret that `validate_production` refuses. -/
def refused (val : Str) : Bool :=
  val = [] || placeholders.contains val || occurs (ofString "CHANGE_ME") val

/-- The texts that `validate_production` collects. -/
def Settings.errors (s : Settings) : List String :=
  (if s.databaseUrl = [] || occurs (ofString "random") s.databaseUrl then
    ["DATABASE_URL must be set in production (no default password)"] else []) ++
  (if s.databaseUrl = [] then ["DATABASE_URL is required in production"] else []) ++
  (s.secrets.filter (refused ·.2)).map fun x =>
    x.1 ++ " must be set to a real secret in production"

/-- `validate_production` -/
def Settings.validateProduction (s : Settings) : Except PyExc Unit :=
  if !s.isProduction then .ok ()
  else if s.errors = [] then .ok ()
  else .error (.mk "RuntimeError" ("Production config invalid: " ++ "; ".intercalate s.errors))

end Observatory.Config
