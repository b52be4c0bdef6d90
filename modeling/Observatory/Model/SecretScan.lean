import Observatory.Data.Search

/-!
# The secret scan

`scripts/secret-scan.sh`: the loop over the files and the patterns, the checks that follow it, and
the exit status.  Files are given by their lines, and `word` is what `\b` takes as part of a word.
-/

namespace Observatory.SecretScan

open Regex (Re)

abbrev Str := List Char

/-! ## `grep -E` -/

/-- A bracket expression: single characters and ranges. -/
structure Bracket where
  ranges : List (Char × Char)
  negated : Bool := false
deriving DecidableEq

namespace Bracket

def holds (b : Bracket) (c : Char) : Bool :=
  (b.ranges.any fun (lo, hi) => decide (lo.toNat ≤ c.toNat ∧ c.toNat ≤ hi.toNat)) != b.negated

/-- No range ends before it begins. -/
def valid (b : Bracket) : Bool := b.ranges.all fun (lo, hi) => decide (lo.toNat ≤ hi.toNat)

def ofString (s : String) : Bracket := ⟨s.toList.map fun c => (c, c), false⟩

/-- `[^..]` -/
def not (s : String) : Bracket := { ofString s with negated := true }

/-- `.` -/
def any : Bracket := not ""

def digit : Bracket := ⟨[('0', '9')], false⟩

/-- `[A-Za-z0-9..]` -/
def alnum (s : String) : Bracket :=
  ⟨[('A', 'Z'), ('a', 'z'), ('0', '9')] ++ (ofString s).ranges, false⟩

/-- `[A-Za-z0-9_\-+/=]`: a backslash stands for itself in a bracket, and a range begins with it. -/
def base64 : Bracket :=
  ⟨[('A', 'Z'), ('a', 'z'), ('0', '9'), ('_', '_'), ('\\', '+'), ('/', '/'), ('=', '=')], false⟩

end Bracket

/-- What the expressions of the script are made of. -/
inductive Ere where
  | text (s : Str)
  | set (b : Bracket) (lo : Nat) (hi : Option Nat)
  | seq (a b : Ere)
  | opt (a : Ere)
  /-- `(..){lo,}` -/
  | atLeast (lo : Nat) (a : Ere)
  /-- `\b` -/
  | edge
deriving DecidableEq

namespace Ere

def str (s : String) : Ere := text s.toList

def seqs : List Ere → Ere
  | [] => text []
  | e :: es => seq e (seqs es)

/-- What `grep` does not refuse as an `Invalid range end`. -/
def valid : Ere → Bool
  | text _ | edge => true
  | set b _ _ => b.valid
  | seq a b => a.valid && b.valid
  | opt a | atLeast _ a => a.valid

/-- `r` as often as one likes, but no more than `n` times. -/
def upTo (r : Re Char) : Nat → Re Char
  | 0 => .eps
  | n + 1 => .opt (.seq r (upTo r n))

/-- The expression, for texts of `n` characters. -/
def re (word : Char → Bool) (n : Nat) : Ere → Re Char
  | text s => Re.literal s
  | set b lo hi => .many b.holds lo hi
  | seq a b => .seq (a.re word n) (b.re word n)
  | opt a => .opt (a.re word n)
  | atLeast lo a => Re.seqs (List.replicate lo (a.re word n) ++ [upTo (a.re word n) n])
  | edge => .boundary word

/-- The expression matches somewhere in the line. -/
def occurs (word : Char → Bool) (e : Ere) (line : Str) : Bool :=
  (e.re word line.length).search none line

end Ere

section script

variable (word : Char → Bool)

/-- `grep -nE`, which prints nothing if it refuses the expression. -/
def grep (e : Ere) (lines : List Str) : List (Str × Nat) :=
  if e.valid then (lines.zipIdx 1).filter fun (line, _) => e.occurs word line else []

/-- What `grep -n` prints for a line. -/
def numbered (hit : Str × Nat) : Str := Nat.toDigits 10 hit.2 ++ ':' :: hit.1

/-- `grep -qE` with an alternative of expressions, in one line. -/
def echoed (es : List Ere) (line : Str) : Bool := es.any fun e => e.occurs word line

/-- The string occurs in the text. -/
def contains (s : String) (x : Str) : Bool := echoed word [.str s] x

/-! ## The patterns -/

/-- `STRONG` -/
def strong : List Ere :=
  let assigned (name : String) : Ere := .seq (.str name) (.set (.ofString "=: ") 1 none)
  let token : Ere := .seq (.set .digit 6 none) (.seq (.str ":") (.set (.alnum "_-") 30 none))
  let credentials : Ere := .seqs [.str "://", .set (.not ": ") 1 none, .str ":",
    .set (.not "@ ") 8 none, .str "@", .set (.not ": ") 1 none]
  [.seq (assigned "TELEGRAM_BOT_TOKEN") token,
    .seqs [.str "TELEGRAM_BOT_TOKEN", .set (.ofString "=:") 1 (some 1),
      .set (.ofString " ") 0 none, token],
    .seqs [.str "mongodb", .opt (.str "+srv"), credentials],
    .seqs [.str "postgresql", .opt (.seq (.str "+") (.set (.not ": ") 1 none)), credentials],
    .seqs [.edge, .str "gh", .set (.ofString "pousr") 1 (some 1), .str "_",
      .set (.alnum "") 20 none, .edge],
    .seqs [.edge, .str "sk", .atLeast 2 (.seq (.str "-") (.set (.alnum "") 8 none)), .edge],
    .seq (assigned "LLM_API_KEY") (.set (.alnum "_-") 24 none),
    .seq (assigned "JWT_SECRET") (.set .base64 24 none),
    .seq (assigned "SESSION_ENCRYPTION_MASTER_KEY") (.set .base64 24 none),
    .seq (assigned "POSTGRES_PASSWORD") (.set .base64 8 none),
    .seq (assigned "DB_PASSWORD") (.set .base64 8 none)]

def placeholders : List Ere :=
  [.str "CHANGE_ME", .str "REPLACE_ME", .str "dev-only", .str "example.com", .str "_here",
    .seqs [.str "your-", .set .any 0 none, .str "-here"], .str "$\x7b", .str "random", .str ":x@",
    .str "localhost:5432/lumi", .str "127.0.0.1", .str "<MASKED>", .str "<REDACTED>", .str "***",
    .str "docs/mcp-audit"]

/-- `is_placeholder_line` -/
def isPlaceholderLine (line : Str) : Bool := echoed word placeholders line

def masks : List Ere := [.str "<REDACTED>", .str "<MASKED>", .str "***"]

/-! ## The files -/

/-- A directory that is scanned. -/
structure Tree where
  /-- what `find .` comes across, in its order, and whether it is a plain file -/
  entries : List (Str × Bool)
  /-- the lines that `grep` reads under a name; none if there is nothing to read -/
  lines : Str → List Str
  /-- `git ls-files --error-unmatch .env` finds the file -/
  envTracked : Bool := false

/-- The last part of a path. -/
def baseName (path : Str) : Str := (path.reverse.takeWhile (· ≠ '/')).reverse

/-- `-name` of the scan. -/
def hasScannedName (path : Str) : Bool :=
  contains word ".env" (baseName path) ||
    [".py", ".js", ".ts", ".tsx", ".sh", ".yml", ".yaml", ".json", ".md", ".ini", ".example"].any
      fun s => s.toList.isSuffixOf (baseName path)

/-- `-not -path` of the scan. -/
def isExcluded (path : Str) : Bool :=
  ["/.git/", "/.venv/", "/node_modules/", "/dist/", "/.pytest_cache/", "/instance/",
    "/__pycache__/", "/backups/"].any (contains word · path) ||
    "/tests/security/test_secret_scan.py".toList.isSuffixOf path

namespace Tree

variable (t : Tree)

/-- What the `find` of the loop prints. -/
def found : List Str :=
  (t.entries.filter fun (path, isFile) =>
    isFile && hasScannedName word path && !isExcluded word path).map Prod.fst

/-- What the loop reads of that, line by line. -/
def names : List Str := (t.found word).flatMap (·.splitOn '\n')

end Tree

/-! ## The loop -/

def auditCopies : List Ere := [.str "docs/mcp-audit"]

def ownTests : List Ere :=
  [.str "tests/security/test_secret_scan", .str "tests/fixtures/secret-scan"]

def positiveFixtures : List Ere :=
  [.str "tests/fixtures/secret-scan-positive", .str "secret-scan-fixtures"]

/-- The names that the loop passes over. -/
def isSkipped (f : Str) : Bool :=
  if f = [] then true
  else if echoed word auditCopies f then true
  else echoed word ownTests f

/-- One pattern: whether it sets `hits`. -/
def patternHits (f : Str) (lines : List Str) (pat : Ere) : Bool :=
  match (grep word pat lines).head? with
  | none => false
  | some hit =>
    let line := numbered hit
    if isPlaceholderLine word line then false
    else if echoed word positiveFixtures f then false
    else if echoed word masks line then
      echoed word [.set (.alnum "_-") 30 none] line && !contains word "CHANGE_ME" line
    else true

structure State where
  hits : Bool := false
  scanned : Nat := 0
deriving DecidableEq

/-- The body of the loop. -/
def scanName (t : Tree) (s : State) (f : Str) : State :=
  if isSkipped word f then s
  else
    strong.foldl
      (fun s pat => if patternHits word f (t.lines f) pat then { s with hits := true } else s)
      { s with scanned := s.scanned + 1 }

/-! ## What follows the loop -/

namespace Tree

variable (t : Tree)

/-- There is an `app.env`. -/
def hasAppEnv : Bool :=
  t.entries.any fun (path, _) => baseName path = "app.env".toList &&
    !(["/.git/", "/node_modules/", "/.venv/"].any (contains word · path))

/-- A line of `.env.example` matches the expression and does not say `CHANGE_ME`. -/
def exampleHas (e : Ere) : Bool :=
  let hits := grep word e (t.lines ".env.example".toList)
  hits ≠ [] && hits.any fun hit => !contains word "CHANGE_ME" hit.1

/-- The first assignment to the name in `.env.example` has a value. -/
def exampleSets (key : String) : Bool :=
  match (t.lines ".env.example".toList).find? fun line => (key.toList ++ ['=']).isPrefixOf line with
  | none => false
  | some line =>
    let val := (line.dropWhile (· ≠ '=')).drop 1
    if val = [] || contains word "CHANGE_ME" val then false
    else 8 ≤ val.length && !"$\x7b".toList.isPrefixOf val

/-- The checks that do not belong to the loop. -/
def otherHits : Bool :=
  t.hasAppEnv word || t.envTracked ||
    t.exampleHas word (.seqs [.set .digit 6 none, .str ":", .set (.alnum "_-") 30 none]) ||
    t.exampleHas word (.seq (.str "sk-") (.set (.alnum "") 20 none)) ||
    ["POSTGRES_PASSWORD", "DB_PASSWORD", "JWT_SECRET", "SESSION_ENCRYPTION_MASTER_KEY",
      "TELEGRAM_BOT_TOKEN", "LLM_API_KEY"].any (t.exampleSets word)

/-- The exit status. -/
def exitStatus : Nat :=
  let s := (t.names word).foldl (scanName word t) {}
  if s.scanned = 0 then 2
  else if s.hits || t.otherHits word then 1
  else 0

end Tree

end script

end Observatory.SecretScan
