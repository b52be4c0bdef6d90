import Observatory.Data.Regex
import Observatory.Model.Policy

/-!
# Redaction

`redact` and `load_secrets_from_env` of `packages/observability/security.py`.  A replacement text
keeps the groups it names, in their places, so a pattern is a sequence of parts of which some are
kept.  `Unicode` has what `re` and `str` know about characters.
-/

namespace Observatory.Redaction

open Regex

structure Unicode where
  /-- `\d` -/
  isDecimal : Char → Bool
  /-- `\s` -/
  isSpace : Char → Bool
  /-- `\w` -/
  isWord : Char → Bool
  /-- a character stands for a lower-case letter if the case is ignored -/
  ignoreCase : Char → Char → Bool
  upper : String → String

/-! ## Characters -/

def isUpper (c : Char) : Bool := 'A' ≤ c && c ≤ 'Z'

def isLower (c : Char) : Bool := 'a' ≤ c && c ≤ 'z'

def isDigit (c : Char) : Bool := '0' ≤ c && c ≤ '9'

/-- `[A-Za-z0-9]` -/
def isAlnum (c : Char) : Bool := isUpper c || isLower c || isDigit c

/-- `[A-Za-z0-9_-]` -/
def isTokenChar (c : Char) : Bool := isAlnum c || c = '_' || c = '-'

/-- What is documented for ASCII. -/
structure Unicode.Documented (uni : Unicode) : Prop where
  decimal : ∀ c : Char, c.toNat < 0x80 → uni.isDecimal c = isDigit c
  space : ∀ c : Char, 0x20 < c.toNat → c.toNat < 0x80 → uni.isSpace c = false
  ignoreCase : ∀ c l : Char, c.toNat < 0x80 → uni.ignoreCase c l = true → c.toLower = l

/-! ## Patterns -/

section patterns

variable (uni : Unicode)

def kept (rs : List (Re Char)) : Portion Char := ⟨.seqs rs, none⟩

def masked (rs : List (Re Char)) (new : String) : Portion Char := ⟨.seqs rs, some new.toList⟩

def text (s : String) : Re Char := .literal s.toList

/-- A text with `(?i)`; its letters are given in lower case. -/
def itext (s : String) : Re Char :=
  .seqs (s.toList.map fun l => .one fun c => c = l || uni.ignoreCase c l)

/-- One of some characters. -/
def oneOf (s : String) : Re Char := .one (· ∈ s.toList)

/-- `\s*` -/
def spaces : Re Char := .many uni.isSpace 0 none

/-- `\S+` -/
def nonSpaces : Re Char := .many (fun c => !uni.isSpace c) 1 none

def wordBoundary : Re Char := .boundary uni.isWord

/-- `[A-Z_]` with `(?i)` -/
def isNameChar (c : Char) : Bool :=
  c = '_' || isUpper c ||
    "abcdefghijklmnopqrstuvwxyz".toList.any fun l => c = l || uni.ignoreCase c l

/-- `[0-9A-Fa-f]` -/
def isHex (c : Char) : Bool := isDigit c || ('A' ≤ c && c ≤ 'F') || ('a' ≤ c && c ≤ 'f')

/-- `(?i)(authorization|bearer|api[_-]?key)\s*[:=]\s*(bearer\s+)?(\S+)`, `\1=<REDACTED>` -/
def authorization : Rule Char :=
  [kept [.alts (itext uni "authorization") [itext uni "bearer",
    .seqs [itext uni "api", .opt (oneOf "_-"), itext uni "key"]]],
   masked [spaces uni, oneOf ":=", spaces uni,
    .opt (.seqs [itext uni "bearer", .many uni.isSpace 1 none]), nonSpaces uni] "=<REDACTED>"]

/-- `\b\d{6,}:[A-Za-z0-9_-]{30,}\b` -/
def telegramToken : Rule Char :=
  [masked [wordBoundary uni, .many uni.isDecimal 6 none, text ":", .many isTokenChar 30 none,
    wordBoundary uni] "<TG_TOKEN_REDACTED>"]

/-- `\bey[A-Za-z0-9_-]{8,}\.[A-Za-z0-9_-]{8,}\.[A-Za-z0-9_-]{8,}\b` -/
def jwt : Rule Char :=
  [masked [wordBoundary uni, text "ey", .many isTokenChar 8 none, text ".",
    .many isTokenChar 8 none, text ".", .many isTokenChar 8 none, wordBoundary uni]
    "<JWT_REDACTED>"]

/-- `\b(sk|pk|ghp|gho)_[A-Za-z0-9]{20,}\b` -/
def prefixedToken : Rule Char :=
  [masked [wordBoundary uni, .alts (text "sk") [text "pk", text "ghp", text "gho"], text "_",
    .many isAlnum 20 none, wordBoundary uni] "<SECRET_REDACTED>"]

/-- `(?i)(TELEGRAM_BOT_TOKEN|LLM_API_KEY|JWT_SECRET|[A-Z_]*PASSWORD)=(\S+)`, `\1=<REDACTED>` -/
def assignment : Rule Char :=
  [kept [.alts (itext uni "telegram_bot_token") [itext uni "llm_api_key", itext uni "jwt_secret",
    .seqs [.many (isNameChar uni) 0 none, itext uni "password"]]],
   masked [text "=", nonSpaces uni] "=<REDACTED>"]

/-- `-----BEGIN (?:RSA )?PRIVATE KEY-----` -/
def privateKey : Rule Char :=
  [masked [text "-----BEGIN ", .opt (text "RSA "), text "PRIVATE KEY-----"]
    "<PRIVATE_KEY_REDACTED>"]

/-- `\bAKIA[0-9A-Z]{16}\b` -/
def awsKey : Rule Char :=
  [masked [wordBoundary uni, text "AKIA", .many (fun c => isDigit c || isUpper c) 16 (some 16),
    wordBoundary uni] "<AWS_KEY_REDACTED>"]

/-- `(?i)aws_secret_access_key\s*[:=]\s*(\S+)` -/
def awsSecret : Rule Char :=
  [masked [itext uni "aws_secret_access_key", spaces uni, oneOf ":=", spaces uni, nonSpaces uni]
    "aws_secret_access_key=<REDACTED>"]

/-- `(?i)(password|passwd|pwd)\s*[:=]\s*['\"]?([^\s'\";]{8,})['\"]?`, `\1=<REDACTED>` -/
def password : Rule Char :=
  [kept [.alts (itext uni "password") [itext uni "passwd", itext uni "pwd"]],
   masked [spaces uni, oneOf ":=", spaces uni, .opt (oneOf "'\""),
    .many (fun c => !uni.isSpace c && c ∉ ['\'', '"', ';']) 8 none, .opt (oneOf "'\"")]
    "=<REDACTED>"]

/-- `(?i)(postgresql|postgres|mysql|mongodb)(://[^:]+:)([^@]+)(@)`, `\1\2<REDACTED>\4` -/
def databaseUrl : Rule Char :=
  [kept [.alts (itext uni "postgresql") [itext uni "postgres", itext uni "mysql",
      itext uni "mongodb"],
    text "://", .many (· ≠ ':') 1 none, text ":"],
   masked [.many (· ≠ '@') 1 none] "<REDACTED>",
   kept [text "@"]]

/-- The patterns of `_PATTERNS` that are there from the start. -/
def staticPatterns : List (Rule Char) :=
  [authorization uni, telegramToken uni, jwt uni, prefixedToken uni, assignment uni, privateKey,
    awsKey uni, awsSecret uni, password uni, databaseUrl uni]

/-- The patterns of `_SECRET_VALUE_PATTERNS` that are there from the start; `redact` leaves out the
values that are added to them. -/
def secretValuePatterns : List (Rule Char) :=
  [[masked [wordBoundary uni, .many isHex 32 none, wordBoundary uni] "<SECRET_REDACTED>"],
   [masked [wordBoundary uni, .many (fun c => isAlnum c || c = '+' || c = '/') 32 none,
      .many (· = '=') 0 (some 2), wordBoundary uni] "<SECRET_REDACTED>"]]

/-- The pattern of a value of the environment. -/
def valuePattern (v : String) : Rule Char := .replacing v.toList "<ENV_REDACTED>".toList

/-- What `redact` goes through when the values `loaded` have been loaded. -/
def patterns (loaded : List String) : List (Rule Char) :=
  staticPatterns uni ++ loaded.map valuePattern ++ secretValuePatterns uni

def redact (loaded : List String) (out : List Char) : List Char :=
  if out.isEmpty then out else subAll (patterns uni loaded) out

end patterns

/-! ## The environment -/

def placeholders : List String :=
  ["CHANGE_ME", "REPLACE_ME", "dev-only-change-me", "dev-webhook-secret",
    "dev-only-32-byte-master-key-0000000000", ""]

end Observatory.Redaction
