import Observatory.Data.Radix
import Observatory.Model.Technocore

/-!
# DIDs of keys

`_pubkey_to_did` and `_did_to_pubkey` of `packages/connectors/technocore.py`.
-/

namespace Observatory.Technocore

/-- `bytes` -/
abbrev Bytes := List UInt8

/-! ## Base 58 -/

/-- The digits of base 58, in the order of Bitcoin. -/
def base58Alphabet : List Char :=
  "123456789ABCDEFGHJKLMNPQRSTUVWXYZabcdefghijkmnopqrstuvwxyz".toList

def base58Char (d : ℕ) : Char := base58Alphabet.getD d '1'

/-- The bytes as a big-endian number, and a `1` for each leading zero. -/
def base58Encode (v : Bytes) : List Char :=
  (Radix.rebase 256 58 (v.map UInt8.toNat)).map base58Char

/-- The bytes, if all characters are digits. -/
def base58Decode (cs : List Char) : Option Bytes :=
  (cs.mapM fun c => base58Alphabet.idxOf? c).map fun ds => (Radix.rebase 58 256 ds).map UInt8.ofNat

/-- The library `base58`. -/
structure Base58 where
  /-- `b58encode(v).decode("ascii")` -/
  encode : Bytes → String
  /-- `b58decode` -/
  decode : String → Except PyExc Bytes

/-- The library has the alphabet and the byte order of Bitcoin. -/
structure Base58.Standard (base58 : Base58) : Prop where
  encode : ∀ v, base58.encode v = String.ofList (base58Encode v)
  decode : ∀ cs v, base58Decode cs = some v → base58.decode (String.ofList cs) = .ok v

/-! ## Keys and DIDs -/

/-- `b"\xed\x01"`: the multicodec of an Ed25519 key. -/
def multicodec : Bytes := [0xed, 0x01]

/-- `_pubkey_to_did` -/
def pubkeyToDid (base58 : Base58) (pubBytes : Bytes) : Except PyExc String :=
  if pubBytes.length ≠ 32 then .error (.mk "ValueError" "pubkey 32 bayt olmalı")
  else .ok ("did:key:z" ++ base58.encode (multicodec ++ pubBytes))

/-- `_did_to_pubkey` -/
def didToPubkey (base58 : Base58) (did : String) : Except PyExc Bytes :=
  if !matchesDid did then .error (.mk "ValueError" ("geçersiz did:key: " ++ did))
  else do
    let raw ← base58.decode (String.ofList (did.toList.drop "did:key:z".length))
    if raw.take 2 ≠ multicodec then throw (.mk "ValueError" "multicodec prefix hatası")
    return raw.drop 2

end Observatory.Technocore
