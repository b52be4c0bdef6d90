import Observatory.Model.PyText
import Observatory.Effect.Machine
import Observatory.Model.IpAddress
import Observatory.Model.Policy

/-!
# Guarded requests

`packages/connectors/ssrf.py` and `packages/connectors/http_json.py`: a URL is validated, its host
name by resolving it, and then handed to the HTTP client, which resolves the host name by itself.

Any number of requests share the pins of the validator.  What Python's library does with texts is a
parameter (`Library`): the results hold whatever it answers.
-/

namespace Observatory.Ssrf

open Effect

/-- What `urlparse` makes of a URL; reading `port` may raise. -/
structure ParseResult where
  scheme : String
  hostname : Option String
  username : Option String
  password : Option String
  port : Except LibError (Option Nat)

structure Library where
  /-- `str.lower` -/
  lower : String → String
  urlparse : String → Except LibError ParseResult
  urljoin : String → String → Except LibError String
  /-- `int(text)` -/
  int : String → Option Int
  /-- `json.loads` -/
  loads : List UInt8 → Except LibError Json
  /-- `body.decode("utf-8", errors="replace")` -/
  decode : List UInt8 → String

/-- What the server answers. -/
structure Response where
  statusCode : Nat
  location : Option String := none
  contentType : Option String := none
  contentLength : Option String := none
  chunks : List (List UInt8) := []

inductive Op where
  | monotonic
  /-- `_dns_pin.get(host)` -/
  | pinned (host : String)
  | getaddrinfo (host : String)
  /-- `_dns_pin[host] = (ips, expiry)` -/
  | pin (host : String) (ips : List String) (expiry : Seconds)
  /-- `self._client.stream("GET", url)` -/
  | stream (url : String)

abbrev Op.Ans : Op → Type
  | monotonic => Seconds
  | pinned _ => Option (List String × Seconds)
  | getaddrinfo _ => List String
  | pin .. => Unit
  | stream _ => Response

abbrev Sys : Sig where
  Op := Op
  Ans := Op.Ans
  Err := LibError

abbrev Proc := Prog Sys LibError

def perform (o : Op) : Proc o.Ans := Prog.call (S := Sys) id o

def ssrfError (msg : String) : LibError := ⟨"SSRFError", msg⟩

def runtimeError (msg : String) : LibError := ⟨"RuntimeError", msg⟩

/-! ## Addresses -/

/-- `_BLOCKED_NETWORKS`. -/
def blockedNetworks : List String :=
  ["127.0.0.0/8", "10.0.0.0/8", "172.16.0.0/12", "192.168.0.0/16", "169.254.0.0/16", "0.0.0.0/8",
    "100.64.0.0/10", "192.0.2.0/24", "198.51.100.0/24", "203.0.113.0/24", "224.0.0.0/4",
    "240.0.0.0/4", "255.255.255.255/32", "::1/128", "fc00::/7", "fe80::/10", "ff00::/8",
    "::ffff:0:0/96", "::/128", "200::/7", "64:ff9b::/96"]

/-- `_METADATA_HOSTS`. -/
def metadataHosts : List String :=
  ["169.254.169.254", "metadata.google.internal", "metadata.google.com", "instance-data"]

/-- `_INTERNAL_HOSTNAMES`. -/
def internalHostnames : List String := ["host.docker.internal", "gateway.docker.internal"]

/-- `ip_is_blocked`. -/
def ipIsBlocked (ipStr : String) : Bool :=
  match IpAddress.ofText ipStr with
  | none => true
  | some ip =>
    ipStr ∈ metadataHosts || ip.isV4Mapped || ip.isLoopback || ip.isLinkLocal || ip.isMulticast ||
      ip.isUnspecified || ip.isReserved || ip.within blockedNetworks

/-! ## Hosts -/

/-- `text.rstrip(".")`. -/
def rstripDot (text : String) : String :=
  String.ofList (text.toList.reverse.dropWhile (· = '.')).reverse

/-- `text.endswith(suffix)`. -/
def endsWith (text suffix : String) : Bool := suffix.toList.isSuffixOf text.toList

/-- `_DNS_PIN_TTL`. -/
def dnsPinTtl : Seconds := 300

variable (lib : Library)

/-- `_is_internal_hostname`. -/
def isInternalHostname (host : String) : Bool :=
  let h := rstripDot (lib.lower host)
  h ∈ internalHostnames || endsWith h ".internal" || endsWith h ".local"

/-- `sorted(ips)` of a set. -/
def sortedSet (ips : List String) : List String := ips.dedup.insertionSort (· ≤ ·)

/-- `resolve_all`. -/
def resolveAll (host : String) : Proc (List String) := do
  let hostL := lib.lower (rstripDot host)
  let now ← perform .monotonic
  let cached ← perform (.pinned hostL)
  match cached.filter fun (_, expiry) => now < expiry with
  | some (ips, _) => return ips
  | none =>
    match ← (perform (.getaddrinfo host)).attempt with
    | .error x =>
      if x.cls = "gaierror" then throw (ssrfError ("DNS çözümleme başarısız: " ++ host)) else throw x
    | .ok infos =>
      if infos = [] then throw (ssrfError ("DNS boş sonuç: " ++ host))
      let result := sortedSet infos
      perform (.pin hostL result (now + dnsPinTtl))
      return result

/-- The checks of `validate_host` before any lookup, on the name it goes on with. -/
def checkHost (host : String) (allowedHosts : Option (List String)) : Except LibError Unit := do
  if host = "" then throw (ssrfError "boş host")
  if host ∈ metadataHosts then throw (ssrfError "metadata erişimi engellendi")
  if isInternalHostname lib host then
    throw (ssrfError ("internal hostname engellendi: " ++ host))
  match allowedHosts with
  | none => return
  | some hosts =>
    if host ∉ hosts.map fun h => rstripDot (lib.lower h) then
      throw (ssrfError ("host allowlist dışı: " ++ host))

def blockedIp (ip : String) : LibError :=
  ssrfError ("bloklu IP (RFC1918/loopback/metadata): " ++ ip)

/-- `validate_host`. -/
def validateHost (raw : String) (allowedHosts : Option (List String)) : Proc Unit := do
  let host := lib.lower (rstripDot raw)
  Prog.ofExcept (checkHost lib host allowedHosts)
  if (IpAddress.ofText (rstripDot raw)).isSome then
    -- an address needs no lookup
    if ipIsBlocked (rstripDot raw) then throw (blockedIp raw)
  else
    let ips ← resolveAll lib host
    match ips.find? ipIsBlocked with
    | some ip => throw (blockedIp ip)
    | none => return

/-! ## URLs -/

/-- `parts.username or parts.password`, and the like. -/
def given (text : Option String) : Bool := text.any (· ≠ "")

/-- The checks of `validate_url` up to the port; the answer is the host name. -/
def checkUrl (url : String) (parts : ParseResult) (allowedHosts : Option (List String)) :
    Except LibError String := do
  if parts.scheme ∉ ["http", "https"] then
    throw (ssrfError ("geçersiz scheme: " ++ parts.scheme))
  if !given parts.hostname then throw (ssrfError "host yok")
  if given parts.username || given parts.password then
    throw (ssrfError "userinfo içeren URL engellendi")
  if occursIn "unix:" (lib.lower url) then throw (ssrfError "unix socket erişimi engellendi")
  match ← parts.port with
  | none => return parts.hostname.getD ""
  | some port =>
    if port ∉ [80, 443, 8000, 8001, 8002, 3525] ∧ allowedHosts.isSome ∧ port ∉ [80, 443] then
      throw (ssrfError ("port allowlist dışı: " ++ toString port))
    else return parts.hostname.getD ""

/-- `validate_url`. -/
def validateUrl (url : String) (allowedHosts : Option (List String)) : Proc Unit := do
  let parts ← Prog.ofExcept (lib.urlparse url)
  let hostname ← Prog.ofExcept (checkUrl lib url parts allowedHosts)
  validateHost lib hostname allowedHosts

/-- `resolve_redirect_url`. -/
def resolveRedirectUrl (currentUrl location : String) (allowedHosts : Option (List String)) :
    Proc String := do
  if location = "" then throw (ssrfError "boş redirect location")
  let resolved ← Prog.ofExcept (lib.urljoin currentUrl location)
  validateUrl lib resolved allowedHosts
  return resolved

/-! ## Requests -/

structure HttpJsonConnector where
  allowedHosts : Option (List String) := none
  maxBytes : Nat := 1048576
  maxRedirects : Nat := 3

/-- `_ALLOWED_CONTENT_TYPES`. -/
def allowedContentTypes : List String :=
  ["application/json", "application/vnd.api+json", "application/ld+json"]

/-- `_TEXT_FALLBACK_TYPES`. -/
def textFallbackTypes : List String :=
  ["text/plain", "text/markdown", "text/x-markdown", "application/octet-stream"]

/-- The `content-type` without its parameters. -/
def Response.ctype (resp : Response) : String :=
  lib.lower (String.ofList (pyStrip ((resp.contentType.getD "").toList.takeWhile (· ≠ ';'))))

/-- The text a body that is not JSON is wrapped as. -/
def textFallback (body : List UInt8) (ctype : String) : Json :=
  .obj [("text", .str (clip 5000 (lib.decode body))), ("content_type", .str ctype)]

/-- What a response that is no redirect is turned into. -/
def readBody (conn : HttpJsonConnector) (resp : Response) : Except LibError Json := do
  let ctype := resp.ctype lib
  let isJson := ctype ∈ allowedContentTypes || occursIn "json" ctype
  let isText := decide (ctype ∈ textFallbackTypes)
  if (resp.contentLength.bind lib.int).any (Int.ofNat conn.maxBytes < ·) then
    throw (runtimeError "yanıt boyut sınırı aşıldı (content-length)")
  if resp.statusCode < 200 ∨ 299 < resp.statusCode then
    throw ⟨"HTTPStatusError", toString resp.statusCode⟩
  let body := resp.chunks.flatten
  if conn.maxBytes < body.length then
    throw (runtimeError "yanıt boyut sınırı aşıldı (streaming)")
  if body = [] then return .obj []
  if isJson then
    match lib.loads body with
    | .ok value => return value
    | .error x =>
      if x.cls ≠ "JSONDecodeError" then throw x
      else if isText then return textFallback lib body ctype
      else throw (runtimeError ("JSON parse hatası: " ++ x.msg))
  else if isText then return textFallback lib body ctype
  else throw (runtimeError ("Content-Type allowlist dışı: " ++ ctype))

def Response.redirects (resp : Response) : Bool :=
  resp.statusCode ∈ [301, 302, 303, 307, 308] && resp.location.isSome

/-- The loop of `get_json`, with `n` redirects left. -/
def fetch (conn : HttpJsonConnector) (current : String) (n : Nat) : Proc Json := do
  validateUrl lib current conn.allowedHosts
  let resp ← perform (.stream current)
  if resp.redirects then
    match n with
    | 0 => throw (runtimeError "çok fazla redirect")
    | n + 1 =>
      let next ← resolveRedirectUrl lib current (resp.location.getD "") conn.allowedHosts
      fetch conn next n
  else Prog.ofExcept (readBody lib conn resp)

/-- `get_json`. -/
def getJson (conn : HttpJsonConnector) (url : String) : Proc Json := do
  validateUrl lib url conn.allowedHosts
  fetch lib conn url conn.maxRedirects

/-! ## The network -/

/-- The HTTP client wants to fetch from a host: what DNS tells the client, and how many of these
addresses it tries, none if it still has a connection to the host. -/
structure Connection where
  url : String
  host : String
  answer : List String
  tried : Nat
deriving DecidableEq, Repr

namespace Connection

/-- The host is an address.  With a final dot it is a name whatever it looks like. -/
def isLiteral (o : Connection) : Bool := rstripDot o.host = o.host && (IpAddress.ofText o.host).isSome

/-- The addresses a connection is opened to. -/
def addresses (o : Connection) : List String :=
  if o.isLiteral then [o.host].take o.tried else o.answer.take o.tried

end Connection

structure World where
  dnsPin : String → Option (List String × Seconds)
  opened : List Connection

/-- What the outside decides about one operation. -/
structure Choice where
  now : Seconds := 0
  /-- the answer of DNS -/
  infos : Except LibError (List String) := .ok []
  /-- how many addresses the client tries -/
  tried : Nat := 1
  response : Except LibError Response := .error ⟨"ConnectError", ""⟩

namespace World

def exec (w : World) (ch : Choice) : (o : Op) → World × Except LibError o.Ans
  | .monotonic => (w, .ok ch.now)
  | .pinned host => (w, .ok (w.dnsPin host))
  | .getaddrinfo _ => (w, ch.infos)
  | .pin host ips expiry =>
    ({ w with dnsPin := Function.update w.dnsPin host (some (ips, expiry)) }, .ok ())
  | .stream url =>
    match lib.urlparse url with
    | .error x => (w, .error x)
    | .ok parts =>
      let connection : Connection :=
        ⟨url, parts.hostname.getD "", ch.infos.toOption.getD [], ch.tried⟩
      ({ w with opened := connection :: w.opened }, ch.response)

end World

/-- The requests that start a process; the other connectors validate hosts as well. -/
inductive Req where
  | getJson (conn : HttpJsonConnector) (url : String)
  | validateHost (host : String) (allowedHosts : Option (List String))

def Req.program : Req → Proc Unit
  | getJson conn url => do
    let _ ← Ssrf.getJson lib conn url
    pure ()
  | validateHost host allowedHosts => Ssrf.validateHost lib host allowedHosts

def system : Machine Sys LibError where
  World := World
  Req := Req
  Choice := Choice
  Tick := Empty
  program := Req.program lib
  perform w _ o ch := w.exec lib ch o
  leave w _ := w
  tick w _ := w

end Observatory.Ssrf
