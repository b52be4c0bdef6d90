import Observatory.Data.Base64
import Observatory.Data.Percent
import Observatory.Model.Did

/-!
# Keys, signatures and the signed URL

The key, `sign`, `verify` and `build_signed_get_url` of `packages/connectors/technocore.py`, down to
the bytes: a key file is 32 bytes, or 64 of which the first half counts, a signature travels in
base 64 without its padding, and the text in the URL is quoted.
-/

namespace Observatory.Signing

open Canonical (Str CodePoint Category ofChar ofString encodeUtf8 sweepText)
open Technocore (Bytes Base58 MonotonicNonce)

/-- Ed25519, as the library has it. -/
structure Ed25519 where
  /-- `bytes(SigningKey(seed).verify_key)` -/
  verifyKey : Bytes → Bytes
  /-- `SigningKey(seed).sign(message).signature` -/
  sign : Bytes → Bytes → Bytes
  /-- `VerifyKey(pub).verify(message, sig)` does not raise -/
  accepts : Bytes → Bytes → Bytes → Bool

/-- A key accepts what it has signed. -/
structure Ed25519.Correct (ed : Ed25519) : Prop where
  key : ∀ seed, seed.length = 32 → (ed.verifyKey seed).length = 32
  signature : ∀ seed m, seed.length = 32 → (ed.sign seed m).length = 64
  accepts : ∀ seed m, seed.length = 32 → ed.accepts (ed.verifyKey seed) m (ed.sign seed m) = true

/-- An exception; its text may hold any character. -/
structure Raised where
  cls : String
  msg : Str := []

def technocoreError (msg : Str) : Raised := ⟨"TechnocoreError", msg⟩

section keys

variable (ed : Ed25519) (base58 : Base58)

/-! ## Keys -/

/-- `_signing_key` and `_did_pub` -/
structure Identity where
  seed : Bytes
  did : String
deriving DecidableEq

/-- The key with this seed. -/
def identityOf (seed : Bytes) : Except Raised Identity :=
  match Technocore.pubkeyToDid base58 (ed.verifyKey seed) with
  | .ok did => .ok ⟨seed, did⟩
  | .error x => .error ⟨x.name, ofString x.message⟩

/-- The key of a file. -/
def readKey (contents : Bytes) : Except Raised Identity :=
  let seed := if contents.length = 64 then contents.take 32 else contents
  if seed.length ≠ 32 then
    .error (technocoreError (ofString ("key dosyası hatalı uzunluk: " ++ toString seed.length)))
  else identityOf ed base58 seed

/-- `load_key`; without a file no key is loaded. -/
def loadKey (file : Option Bytes) : Except Raised (Option Identity) :=
  match file with
  | none => .ok none
  | some contents => (readKey ed base58 contents).map some

/-- `load_or_generate_key` with a path: the key, and the file as it is left.  `generated` is the
seed of a new key. -/
def loadOrGenerateKey (file : Option Bytes) (generated : Bytes) :
    Except Raised (Identity × Option Bytes) :=
  match file with
  | some contents => (readKey ed base58 contents).map (·, file)
  | none => (identityOf ed base58 generated).map (·, some generated)

/-! ## Signatures -/

variable (category : CodePoint → Category)

/-- `canonical_string(...).encode("utf-8")` -/
def canonicalBytes (room nonce text : Str) : Except Raised Bytes :=
  match Canonical.canonicalString category room nonce text with
  | .error x => .error ⟨"ValueError", x.msg⟩
  | .ok canon =>
    match encodeUtf8 canon with
    | none => .error ⟨"UnicodeEncodeError", []⟩
    | some m => .ok m

/-- `sign` -/
def sign (identity : Option Identity) (room nonce text : Str) : Except Raised (List Char) :=
  match identity with
  | none => .error (technocoreError (ofString "anahtar yüklü değil"))
  | some key => do
    let m ← canonicalBytes category room nonce text
    let sig := Base64.strip (Base64.encode (ed.sign key.seed m))
    if sig.length ≠ 86 then
      throw ⟨"AssertionError", ofString ("sig len " ++ toString sig.length ++ " != 86")⟩
    return sig

/-- The bytes of a signature, unless `urlsafe_b64decode` raises. -/
def signatureBytes (sig : List Char) : Option Bytes :=
  if sig.all (·.toNat < 0x80) then Base64.decode (Base64.repad sig) else none

/-- `verify`: a `ValueError` counts as no. -/
def verify (did : String) (room nonce text : Str) (sig : List Char) : Except Raised Bool :=
  match Technocore.didToPubkey base58 did with
  | .error x => if x.name = "ValueError" then .ok false else .error ⟨x.name, ofString x.message⟩
  | .ok pub =>
    if pub.length ≠ 32 then .ok false
    else match canonicalBytes category room nonce text with
      | .error _ => .ok false
      | .ok m =>
        match signatureBytes sig with
        | none => .ok false
        | some s => .ok (s.length = 64 && ed.accepts pub m s)

/-! ## The signed URL -/

/-- The connector. -/
structure Connector where
  baseUrl : Str
  identity : Option Identity

/-- The caller's nonce, or the next one; an empty one counts as none. -/
def chooseNonce (g : MonotonicNonce) (nowMs : Int) : Option Str → MonotonicNonce × Str
  | some (c :: nonce) => (g, c :: nonce)
  | _ => ((g.next nowMs).1, ofString (toString (g.next nowMs).2))

def slash : CodePoint := ofChar '/'

/-- `urllib.parse.quote(text, safe="")` -/
def quote (text : Str) : Except Raised Str :=
  match encodeUtf8 text with
  | none => .error ⟨"UnicodeEncodeError", []⟩
  | some bytes => .ok ((Percent.quote bytes).map ofChar)

/-- The parts of the URL. -/
def urlOf (baseUrl room : Str) (did : String) (sig : List Char) (nonce quoted : Str) : Str :=
  baseUrl ++ slash :: (ofString "r" ++ slash :: (room ++ slash :: (ofString "say-signed" ++
    slash :: (ofString did ++ slash :: (sig.map ofChar ++ slash :: (nonce ++ slash :: quoted))))))

/-- `build_signed_get_url`, with what becomes of the nonces. -/
def buildSignedGetUrl (c : Connector) (g : MonotonicNonce) (nowMs : Int) (room text : Str)
    (nonce : Option Str) : MonotonicNonce × Except Raised Str :=
  match c.identity with
  | none => (g, .error (technocoreError (ofString "DID yok")))
  | some key =>
    let swept := sweepText category text
    let (g, n) := chooseNonce g nowMs nonce
    (g, do
      if !Canonical.matchesNonce n then throw (technocoreError (ofString "geçersiz nonce " ++ n))
      let sig ← sign ed category c.identity room n swept
      let quoted ← quote swept
      return urlOf c.baseUrl room key.did sig n quoted)

end keys

end Observatory.Signing
