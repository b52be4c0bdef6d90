import Observatory.Model.Did
import Observatory.Model.Settings

/-!
# Users and sessions

`packages/observability/auth.py`, with `login`, `auth_me` and the seeding of the administrator of
`apps/api/app.py`: passwords, session tokens, and what each endpoint of the API asks of its caller.
A user row is named by its id; the token library and the key derivation are parameters.
-/

namespace Observatory.Auth

open Canonical (Str CodePoint ofChar ofString)
open Config (Unicode)
open Technocore (Bytes)

/-! ## Bytes as text -/

/-- `"0123456789abcdef"` -/
def hexAlphabet : List Char := "0123456789abcdef".toList

def hexChar (d : ℕ) : CodePoint := ofChar (hexAlphabet.getD d '0')

/-- `bs.hex()` -/
def hex (bs : Bytes) : Str :=
  bs.flatMap fun b => [hexChar (b.toNat / 16), hexChar (b.toNat % 16)]

def hexValue (c : CodePoint) : Option ℕ :=
  if Canonical.isDigit c then some (c.val - 0x30)
  else if 0x61 ≤ c.val ∧ c.val ≤ 0x66 then some (c.val - 0x61 + 10)
  else if 0x41 ≤ c.val ∧ c.val ≤ 0x46 then some (c.val - 0x41 + 10)
  else none

def isAsciiSpace (c : CodePoint) : Bool := (0x09 ≤ c.val && c.val ≤ 0x0D) || c.val = 0x20

/-- `bytes.fromhex(s)`; white space may stand between two bytes. -/
def fromHex : Str → Option Bytes
  | [] => some []
  | c :: s =>
    if isAsciiSpace c then fromHex s
    else
      match s with
      | [] => none
      | d :: s => do
        let hi ← hexValue c
        let lo ← hexValue d
        let bs ← fromHex s
        return UInt8.ofNat (16 * hi + lo) :: bs

/-! ## Passwords -/

/-- `hashlib.pbkdf2_hmac("sha256", password, salt, iterations)`; nothing if it raises. -/
abbrev Pbkdf2 := Bytes → Bytes → Int → Option Bytes

/-- `_ITERATIONS` -/
def iterations : Int := 240000

def dollar : CodePoint := ofChar '$'

/-- `hash_password`, with the salt that `os.urandom(16)` gives. -/
def hashPassword (pbkdf2 : Pbkdf2) (password : Str) (salt : Bytes) : Option Str := do
  let bytes ← Canonical.encodeUtf8 password
  let dk ← pbkdf2 bytes salt iterations
  return ofString "pbkdf2_sha256" ++ dollar :: (Technocore.str iterations ++ dollar ::
    (hex salt ++ dollar :: hex dk))

/-- The derived key that a stored hash asks for, as text. -/
def derive (uni : Unicode) (pbkdf2 : Pbkdf2) (password iters saltHex : Str) : Option Str := do
  let bytes ← Canonical.encodeUtf8 password
  let salt ← fromHex saltHex
  let n ← uni.int iters
  let dk ← pbkdf2 bytes salt n
  return hex dk

/-- `verify_password`; whatever raises is a no. -/
def verifyPassword (uni : Unicode) (pbkdf2 : Pbkdf2) (password stored : Str) : Bool :=
  match stored.splitOn dollar with
  | [_, iters, saltHex, dkHex] => derive uni pbkdf2 password iters saltHex = some dkHex
  | _ => false

/-! ## Session tokens -/

/-- `User.id` -/
abbrev UserId := ℕ

/-- The claims of a session; times in seconds. -/
structure Payload where
  sub : UserId
  role : Option Str
  iat : Int
  exp : Int
  jti : ℕ
  iss : Str
deriving DecidableEq, Repr

inductive JwtError where
  /-- `ExpiredSignatureError` -/
  | expired
  /-- any other -/
  | invalid
deriving DecidableEq, Repr

/-- The library `jwt`, with HS256. -/
structure Jwt (Token : Type) where
  encode : (key : Str) → Payload → Token
  /-- `decode(token, key, algorithms=["HS256"], issuer=..)` at a point in time -/
  decode : (key issuer : Str) → Time → Token → Except JwtError Payload

/-- Issuer and times are checked of whatever is read.  Other texts than the one that `encode` gives
may be read as the same claims. -/
structure Jwt.Documented {Token : Type} (jwt : Jwt Token) : Prop where
  encoded : ∀ key issuer now p, jwt.decode key issuer now (jwt.encode key p) =
    if now < p.iat * 1000 then .error .invalid
    else if p.exp * 1000 ≤ now then .error .expired
    else if p.iss ≠ issuer then .error .invalid
    else .ok p
  checked : ∀ {key issuer now token p}, jwt.decode key issuer now token = .ok p →
    p.iat * 1000 ≤ now ∧ now < p.exp * 1000 ∧ p.iss = issuer

theorem Jwt.Documented.decode_encode {Token : Type} {jwt : Jwt Token} (h : jwt.Documented)
    {key issuer : Str} {now : Time} {token : Token} {p : Payload}
    (hread : jwt.decode key issuer now token = .ok p) :
    jwt.decode key issuer now (jwt.encode key p) = .ok p := by
  obtain ⟨hbegun, hlasts, hissuer⟩ := h.checked hread
  rw [h.encoded, if_neg (not_lt.2 hbegun), if_neg (not_le.2 hlasts), if_neg (not_not.2 hissuer)]

section session

variable {Token : Type} (jwt : Jwt Token)

def issuer : Str := ofString "lumi-observatory"

/-- `create_session_token`; the claims hold whole seconds. -/
def createSessionToken (s : Config.Settings) (now : Time) (jti : ℕ) (userId : UserId) (role : Str)
    (expiresSeconds : Int) : Token :=
  jwt.encode s.jwtSecret
    { sub := userId
      role := some role
      iat := now / 1000
      exp := (now + expiresSeconds * 1000) / 1000
      jti := jti
      iss := issuer }

/-- `decode_session_token` -/
def decodeSessionToken (s : Config.Settings) (now : Time) (token : Token) : Except JwtError Payload :=
  jwt.decode s.jwtSecret issuer now token

structure HttpException where
  statusCode : ℕ
  detail : String
deriving DecidableEq, Repr

/-- What the dependencies hand to an endpoint. -/
structure CurrentUser where
  userId : UserId
  role : Str
deriving DecidableEq, Repr

/-- `get_current_user`, with the bearer token if there is one. -/
def getCurrentUser (s : Config.Settings) (now : Time) (creds : Option Token) :
    Except HttpException CurrentUser :=
  match creds with
  | none => .error ⟨401, "kimlik doğrulama gerekli"⟩
  | some token =>
    match decodeSessionToken jwt s now token with
    | .error .expired => .error ⟨401, "session süresi doldu"⟩
    | .error .invalid => .error ⟨401, "geçersiz session token"⟩
    | .ok p => .ok ⟨p.sub, p.role.getD (ofString "viewer")⟩

/-- The check that `events_stream` makes itself: an expired session is not told apart. -/
def streamUser (s : Config.Settings) (now : Time) (creds : Option Token) :
    Except HttpException CurrentUser :=
  match creds with
  | none => .error ⟨401, "kimlik doğrulama gerekli"⟩
  | some token =>
    match decodeSessionToken jwt s now token with
    | .error _ => .error ⟨401, "geçersiz session token"⟩
    | .ok p => .ok ⟨p.sub, p.role.getD (ofString "viewer")⟩

end session

/-! ## Roles -/

/-- `ROLE_ORDER` -/
def roleOrder (role : Str) : Option Int :=
  if role = ofString "viewer" then some 0
  else if role = ofString "operator" then some 1
  else if role = ofString "admin" then some 2
  else none

/-- `require_role` -/
def requireRole (minRole : String) (user : CurrentUser) : Except HttpException CurrentUser :=
  if (roleOrder user.role).getD (-1) < (roleOrder (ofString minRole)).getD 0 then
    .error ⟨403, "yetki yetersiz: " ++ minRole ++ " gerekli"⟩
  else .ok user

/-- The endpoints of the API. -/
inductive Endpoint where
  | healthLive | healthReady | login | logout | authStatus | authMe
  | createTask | listRuns | runEvents | getRun | controlRun | retryRun
  | listApprovals | decideApproval
  | listMemory | createMemoryCandidate | decideMemory
  | listSources | listReports | technocoreStatus
  | testLlmSettings | settingsNonSecret | eventsStream
  | agentEvaluationsStats | agentEvaluations
deriving DecidableEq, Repr

/-- `Depends(..)` of an endpoint. -/
inductive Dependency where
  | anyone
  | currentUser
  | role (minRole : String)
  /-- no dependency: `events_stream` looks at the header itself -/
  | bearer
deriving DecidableEq, Repr

def Endpoint.dependency : Endpoint → Dependency
  | healthLive | healthReady | login | logout | authStatus => .anyone
  | createTask | controlRun | retryRun | decideApproval | createMemoryCandidate => .role "operator"
  | decideMemory => .role "admin"
  | eventsStream => .bearer
  | _ => .currentUser

/-- What becomes of a request before its endpoint runs. -/
def authorize {Token : Type} (jwt : Jwt Token) (s : Config.Settings) (now : Time) (e : Endpoint)
    (creds : Option Token) : Except HttpException (Option CurrentUser) :=
  match e.dependency with
  | .anyone => .ok none
  | .currentUser => (getCurrentUser jwt s now creds).map some
  | .bearer => (streamUser jwt s now creds).map some
  | .role minRole => ((getCurrentUser jwt s now creds).bind (requireRole minRole)).map some

/-! ## Users -/

structure User where
  id : UserId
  username : Str
  displayName : Str := []
  role : Str := ofString "admin"
  isActive : Bool := true
  passwordHash : Str := []
deriving DecidableEq, Repr

/-- `scalar_one_or_none()` -/
def scalarOneOrNone {α : Type} : List α → Except PyExc (Option α)
  | [] => .ok none
  | [x] => .ok (some x)
  | _ => .error (.mk "MultipleResultsFound" "")

/-- The users by name: `username` is unique, and `select` compares it. -/
def withName (users : List User) (name : Str) : List User := users.filter (·.username = name)

/-- `_lifespan` up to the seeding of the administrator; `id` is the id a new row gets. -/
def lifespan (s : Config.Settings) (users : List User) (id : UserId) : Except PyExc (List User) := do
  s.validateProduction
  if s.adminPasswordHash = [] then return users
  match ← scalarOneOrNone (withName users s.adminEmail) with
  | none =>
    return users ++ [{ id, username := s.adminEmail, displayName := ofString "Admin",
                       role := ofString "admin", isActive := true,
                       passwordHash := s.adminPasswordHash }]
  | some u =>
    if u.passwordHash ≠ s.adminPasswordHash then
      return users.map fun x =>
        if x.id = u.id then { x with passwordHash := s.adminPasswordHash } else x
    else return users

/-- The answer of `login`. -/
structure Session (Token : Type) where
  token : Token
  role : Str
  email : Str
  displayName : Str

/-- `login` -/
def login {Token : Type} (uni : Unicode) (pbkdf2 : Pbkdf2) (jwt : Jwt Token) (s : Config.Settings)
    (users : List User) (now : Time) (jti : ℕ) (email password : Str) :
    Except PyExc (Except HttpException (Session Token)) := do
  let refusal : Except HttpException (Session Token) := .error ⟨401, "geçersiz email veya parola"⟩
  match ← scalarOneOrNone (withName users email) with
  | none => return refusal
  | some u =>
    if !u.isActive || u.passwordHash = [] || !verifyPassword uni pbkdf2 password u.passwordHash then
      return refusal
    else
      return .ok
        { token := createSessionToken jwt s now jti u.id u.role s.sessionTtlSeconds
          role := u.role
          email := u.username
          displayName := u.displayName }

/-! ## A server over time -/

/-- The users and the clock; the settings are those of the process. -/
structure World where
  users : List User
  now : Time
deriving Repr

/-- What can happen. -/
inductive Event (Token : Type) where
  /-- a process of the API starts -/
  | started (id : UserId)
  | login (email password : Str) (jti : ℕ)
  | logout
  | request (e : Endpoint) (creds : Option Token)
  /-- the table of users is edited from outside -/
  | edited (users : List User)
  | ticked (ms : ℕ)

/-- What is answered. -/
inductive Answer (Token : Type) where
  | none
  | session (s : Session Token)
  | admitted (user : Option CurrentUser)
  | refused (x : HttpException)
  /-- an exception that nobody catches -/
  | failed (x : PyExc)

/-- One event with its answer and the world it found. -/
structure Entry (Token : Type) where
  world : World
  event : Event Token
  answer : Answer Token

section run

variable {Token : Type} (uni : Unicode) (pbkdf2 : Pbkdf2) (jwt : Jwt Token) (s : Config.Settings)

def step (w : World) : Event Token → World × Answer Token
  | .started id =>
    match lifespan s w.users id with
    | .error x => (w, .failed x)
    | .ok users => ({ w with users }, .none)
  | .login email password jti =>
    match login uni pbkdf2 jwt s w.users w.now jti email password with
    | .error x => (w, .failed x)
    | .ok (.error x) => (w, .refused x)
    | .ok (.ok session) => (w, .session session)
  -- only a cookie that nobody reads is deleted
  | .logout => (w, .none)
  | .request e creds =>
    match authorize jwt s w.now e creds with
    | .error x => (w, .refused x)
    | .ok user => (w, .admitted user)
  | .edited users => ({ w with users }, .none)
  | .ticked ms => ({ w with now := w.now + ms }, .none)

/-- The log of a series of events, newest first, over an earlier one. -/
def run (w : World) (log : List (Entry Token)) : List (Event Token) → World × List (Entry Token)
  | [] => (w, log)
  | e :: events =>
    let r := step uni pbkdf2 jwt s w e
    run r.1 (⟨w, e, r.2⟩ :: log) events

end run

end Observatory.Auth
