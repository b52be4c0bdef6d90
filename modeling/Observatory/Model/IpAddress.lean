import Mathlib.Data.BitVec

/-!
# Addresses

What `packages/connectors/ssrf.py` uses of Python's `ipaddress`: reading an IPv4 or IPv6 address,
networks with their prefix, and the classes of addresses an address knows itself.
-/

namespace Observatory

/-- `ipaddress.IPv4Address` and `ipaddress.IPv6Address`. -/
inductive IpAddress where
  | v4 (ip : BitVec 32)
  | v6 (ip : BitVec 128)
deriving DecidableEq, Repr

namespace IpAddress

/-! ## Reading an address -/

def decimal (digits : List Char) : Nat := digits.foldl (fun n c => 10 * n + (c.toNat - '0'.toNat)) 0

/-- `_parse_octet`. -/
def parseOctet (octet : List Char) : Option Nat :=
  if octet = [] ∨ octet.all Char.isDigit = false ∨ 3 < octet.length ∨
      (octet ≠ ['0'] ∧ octet.head? = some '0') ∨ 255 < decimal octet then none
  else some (decimal octet)

/-- `IPv4Address(text)`. -/
def parseV4 (text : List Char) : Option (BitVec 32) :=
  match (text.splitOn '.').map parseOctet with
  | [some a, some b, some c, some d] => some (.ofNat 32 (((a * 256 + b) * 256 + c) * 256 + d))
  | _ => none

def hexDigit (c : Char) : Option Nat :=
  if c.isDigit then some (c.toNat - '0'.toNat)
  else if 'a' ≤ c ∧ c ≤ 'f' then some (c.toNat - 'a'.toNat + 10)
  else if 'A' ≤ c ∧ c ≤ 'F' then some (c.toNat - 'A'.toNat + 10)
  else none

/-- `_parse_hextet`. -/
def parseHextet (hextet : List Char) : Option Nat :=
  if hextet = [] ∨ 4 < hextet.length then none
  else (hextet.mapM hexDigit).map fun digits => digits.foldl (16 * · + ·) 0

/-- A dotted quad in the last part stands for two hextets. -/
def splitV6 (text : List Char) : Option (List (List Char)) :=
  let parts := text.splitOn ':'
  let last := parts.getLastD []
  if parts.length < 3 then none
  else if '.' ∈ last then
    (parseV4 last).map fun ip =>
      parts.dropLast ++ [Nat.toDigits 16 (ip.toNat / 65536), Nat.toDigits 16 (ip.toNat % 65536)]
  else some parts

/-- The positions of empty parts, the first and the last part aside. -/
def skips (parts : List (List Char)) : List Nat :=
  (List.range parts.length).filter fun i =>
    0 < i ∧ i + 1 < parts.length ∧ parts[i]? = some []

/-- The parts before a `::`, none if it leads. -/
def leading (parts : List (List Char)) : Option (List (List Char)) :=
  if parts.head? = some [] then (if parts.length = 1 then some [] else none) else some parts

/-- The parts after a `::`, none if it trails. -/
def trailing (parts : List (List Char)) : Option (List (List Char)) :=
  if parts.getLast? = some [] then (if parts.length = 1 then some [] else none) else some parts

/-- The eight hextets, a `::` filled up with zeros. -/
def hextets (parts : List (List Char)) : Option (List Nat) :=
  if 9 < parts.length then none
  else
    match skips parts with
    | [] => if parts.length = 8 then parts.mapM parseHextet else none
    | [i] => do
      let hi ← leading (parts.take i)
      let lo ← trailing (parts.drop (i + 1))
      if 8 ≤ hi.length + lo.length then none
      else
        let high ← hi.mapM parseHextet
        let low ← lo.mapM parseHextet
        some (high ++ List.replicate (8 - (hi.length + lo.length)) 0 ++ low)
    | _ => none

/-- `IPv6Address(text)`; a scope id after `%` may follow. -/
def parseV6 (text : List Char) : Option (BitVec 128) :=
  let wellScoped : Bool :=
    match text.dropWhile (· ≠ '%') with
    | [] => true
    | _ :: scope => scope ≠ [] ∧ '%' ∉ scope
  if wellScoped then do
    let parts ← splitV6 (text.takeWhile (· ≠ '%'))
    let groups ← hextets parts
    some (.ofNat 128 (groups.foldl (65536 * · + ·) 0))
  else none

/-- `ipaddress.ip_address(text)`; `none` is its `ValueError`. -/
def ofText (text : String) : Option IpAddress :=
  match parseV4 text.toList with
  | some ip => some (.v4 ip)
  | none => (parseV6 text.toList).map .v6

/-! ## Networks -/

/-- `ipaddress.ip_network`. -/
structure Network where
  address : IpAddress
  prefixlen : Nat
deriving DecidableEq, Repr

def Network.ofText (text : String) : Option Network :=
  match text.toList.splitOn '/' with
  | [address, len] =>
    (IpAddress.ofText (String.ofList address)).map fun ip => ⟨ip, decimal len⟩
  | _ => none

/-- `ip in net`; an address is never in a network of the other version. -/
def Network.contains (net : Network) : IpAddress → Bool
  | .v4 ip =>
    match net.address with
    | .v4 base => ip >>> (32 - net.prefixlen) = base >>> (32 - net.prefixlen)
    | .v6 _ => false
  | .v6 ip =>
    match net.address with
    | .v6 base => ip >>> (128 - net.prefixlen) = base >>> (128 - net.prefixlen)
    | .v4 _ => false

/-- In one of the networks. -/
def within (ip : IpAddress) (nets : List String) : Bool :=
  (nets.filterMap Network.ofText).any (·.contains ip)

/-! ## What an address knows of itself -/

def isV4Mapped : IpAddress → Bool
  | .v4 _ => false
  | .v6 ip => ip >>> 32 = 0xFFFF#128

def isLoopback (ip : IpAddress) : Bool := ip.within ["127.0.0.0/8", "::1/128"]

def isLinkLocal (ip : IpAddress) : Bool := ip.within ["169.254.0.0/16", "fe80::/10"]

def isMulticast (ip : IpAddress) : Bool := ip.within ["224.0.0.0/4", "ff00::/8"]

def isUnspecified (ip : IpAddress) : Bool := ip.within ["0.0.0.0/32", "::/128"]

/-- `_reserved_network` and `_reserved_networks`. -/
def isReserved (ip : IpAddress) : Bool :=
  ip.within ["240.0.0.0/4", "::/8", "100::/8", "200::/7", "400::/6", "800::/5", "1000::/4",
    "4000::/3", "6000::/3", "8000::/3", "A000::/3", "C000::/3", "E000::/4", "F000::/5", "F800::/6",
    "FE00::/9"]

end IpAddress

end Observatory
