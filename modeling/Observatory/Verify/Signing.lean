import Observatory.Model.Signing
import Observatory.Verify.Did
import Observatory.Verify.Posting

/-!
# The signed URL is read back

`build_signed_get_url` writes a path of eight parts, and the quoted text cannot be taken for more of
them.  A server that splits the path at its slashes and reads the escapes of the text gets the room,
the DID, the nonce and the swept text, and a signature that `verify` accepts for them
(`signedUrl_read_back`).
-/

namespace Observatory.Signing

open Canonical
open Technocore (Bytes Base58 MonotonicNonce didToPubkey pubkeyToDid base58Encode_multicodec
  base58Decode_encode didToPubkey_did toList_did ofChar_inj bitcoinBase58 bitcoinBase58_standard
  rangeKey)

/-! ## Reading -/

/-- What the route `/r/{room}/say-signed/{did}/{sig}/{nonce}/{text}` is given. -/
structure Say where
  room : Str
  did : String
  sig : List Char
  nonce : Str
  text : Str
deriving DecidableEq

/-- `unquote` -/
def unquote (quoted : Str) : Option Str := do
  let cs ← quoted.mapM toChar?
  let text ← (Percent.unquote cs).toByteArray.utf8Decode?
  return text.toList.map ofChar

/-- Read the URL below the base. -/
def readSay (baseUrl url : Str) : Option Say :=
  if baseUrl.isPrefixOf url then
    match (url.drop baseUrl.length).splitOn slash with
    | [front, r, room, say, did, sig, nonce, text] =>
      if front = [] ∧ r = ofString "r" ∧ say = ofString "say-signed" then do
        let did ← did.mapM toChar?
        let sig ← sig.mapM toChar?
        let text ← unquote text
        return ⟨room, String.ofList did, sig, nonce, text⟩
      else none
    | _ => none
  else none

/-! ## Characters -/

section characters

variable {s : Str} {cs : List Char} {c : Char}

theorem toChar?_ofChar (c : Char) : toChar? (ofChar c) = some c := by
  have hvalid : (ofChar c).val.isValidChar := c.valid
  rw [toChar?, dif_pos hvalid]
  exact congrArg some (Char.ext (UInt32.toNat_inj.1 rfl))

theorem ofChar_of_toChar? {x : CodePoint} (h : toChar? x = some c) : ofChar c = x := by
  unfold toChar? at h
  by_cases hvalid : x.val.isValidChar
  · rw [dif_pos hvalid] at h
    cases h
    rfl
  · rw [dif_neg hvalid] at h
    cases h

theorem mapM_toChar?_ofChar (cs : List Char) : (cs.map ofChar).mapM toChar? = some cs := by
  induction cs with
  | nil => rfl
  | cons c cs ih =>
    rw [List.map_cons, List.mapM_cons, toChar?_ofChar, ih]
    rfl

theorem map_ofChar_of_mapM (h : s.mapM toChar? = some cs) : cs.map ofChar = s := by
  induction s generalizing cs with
  | nil =>
    cases h
    rfl
  | cons x s ih =>
    rw [List.mapM_cons] at h
    obtain ⟨d, hd, h⟩ := Option.bind_eq_some_iff.1 h
    obtain ⟨ds, hds, h⟩ := Option.bind_eq_some_iff.1 h
    cases h
    rw [List.map_cons, ofChar_of_toChar? hd, ih hds]

/-- **What is quoted is read back.** -/
theorem unquote_quote {quoted : Str} (h : quote s = .ok quoted) : unquote quoted = some s := by
  unfold quote encodeUtf8 at h
  cases hcs : s.mapM toChar? with
  | none =>
    rw [hcs] at h
    cases h
  | some cs =>
    rw [hcs] at h
    cases h
    have hutf8 : (cs.flatMap String.utf8EncodeChar).toByteArray.utf8Decode? = some cs.toArray :=
      List.utf8Decode?_utf8Encode
    unfold unquote
    rw [mapM_toChar?_ofChar]
    simp only [Option.bind_eq_bind, Option.bind_some, Percent.unquote_quote, hutf8, Option.pure_def,
      map_ofChar_of_mapM hcs]

theorem slash_notMem_map (h : '/' ∉ cs) : slash ∉ cs.map ofChar := by
  rintro hmem
  obtain ⟨c, hc, heq⟩ := List.mem_map.1 hmem
  rw [ofChar_inj.1 heq] at hc
  exact h hc

theorem slash_notMem_quoted {quoted : Str} (h : quote s = .ok quoted) : slash ∉ quoted := by
  unfold quote at h
  split at h
  · cases h
  · cases h
    refine slash_notMem_map fun hmem => ?_
    exact absurd (Percent.isQuoted_of_mem hmem) (by decide)

theorem slash_notMem_accepted (h : matchesRoom s ∨ matchesNonce s) :
    slash ∉ s := by
  intro hc
  rcases isRoomChar_or_newline h hc with h | h
  · revert h
    decide
  · revert h
    decide

end characters

/-! ## The path -/

/-- **A URL is read back** if none of its parts has a slash. -/
theorem readSay_urlOf {baseUrl room nonce text quoted : Str} {did : String} {sig : List Char}
    (hroom : slash ∉ room) (hdid : '/' ∉ did.toList) (hsig : '/' ∉ sig) (hnonce : slash ∉ nonce)
    (hquoted : slash ∉ quoted) (htext : unquote quoted = some text) :
    readSay baseUrl (urlOf baseUrl room did sig nonce quoted) =
      some ⟨room, did, sig, nonce, text⟩ := by
  have hpath : urlOf baseUrl room did sig nonce quoted = baseUrl ++ [slash].intercalate
      [[], ofString "r", room, ofString "say-signed", ofString did, sig.map ofChar, nonce,
        quoted] := by
    simp [urlOf, List.intercalate]
  have hsplit : ([slash].intercalate [[], ofString "r", room, ofString "say-signed",
      ofString did, sig.map ofChar, nonce, quoted]).splitOn slash = [[], ofString "r", room,
        ofString "say-signed", ofString did, sig.map ofChar, nonce, quoted] := by
    refine List.splitOn_intercalate slash (fun part hpart => ?_) (List.cons_ne_nil _ _)
    simp only [List.mem_cons, List.not_mem_nil, or_false] at hpart
    rcases hpart with rfl | rfl | rfl | rfl | rfl | rfl | rfl | rfl
    · exact List.not_mem_nil
    · decide
    · exact hroom
    · decide
    · exact slash_notMem_map hdid
    · exact slash_notMem_map hsig
    · exact hnonce
    · exact hquoted
  have hdidChars : (ofString did).mapM toChar? = some did.toList := mapM_toChar?_ofChar _
  unfold readSay
  rw [hpath, if_pos (List.isPrefixOf_iff_prefix.2 (List.prefix_append _ _)), List.drop_left,
    hsplit]
  simp only [and_self, if_true, hdidChars, mapM_toChar?_ofChar, htext,
    Option.bind_eq_bind, Option.bind_some, Option.pure_def, String.ofList_toList]

/-! ## Keys -/

section keys

variable {ed : Ed25519} {base58 : Base58} {key : Identity}

/-- A key as it is loaded: the DID is that of the seed. -/
structure Identity.Owned (ed : Ed25519) (base58 : Base58) (key : Identity) : Prop where
  seed : key.seed.length = 32
  pubkey : didToPubkey base58 key.did = .ok (ed.verifyKey key.seed)
  plain : '/' ∉ key.did.toList

variable (hed : ed.Correct) (hbase : base58.Standard)

include hed hbase

theorem identityOf_owned {seed : Bytes} (hseed : seed.length = 32) :
    ∃ key, identityOf ed base58 seed = .ok key ∧ key.seed = seed ∧ key.Owned ed base58 := by
  have hlen := hed.key seed hseed
  obtain ⟨tail, hlength, hchars, hencode⟩ := base58Encode_multicodec hlen
  have hdid : pubkeyToDid base58 (ed.verifyKey seed) =
      .ok ("did:key:z" ++ String.ofList ("6Mk".toList ++ tail)) := by
    rw [pubkeyToDid, if_neg (not_not.2 hlen), hbase.encode, hencode]
  have hkey := didToPubkey_did hbase hlength hchars (hencode ▸ base58Decode_encode _)
  refine ⟨⟨seed, _⟩, by rw [identityOf, hdid], rfl, hseed, hkey, ?_⟩
  rw [toList_did, List.mem_append, not_or]
  refine ⟨by decide, fun hslash => ?_⟩
  exact absurd (hchars _ hslash) (by decide)

/-- **A key file** gives a key with its own DID. -/
theorem readKey_owned {contents : Bytes} (h : readKey ed base58 contents = .ok key) :
    key.Owned ed base58 := by
  unfold readKey at h
  simp only at h
  generalize (if contents.length = 64 then contents.take 32 else contents) = seed at h
  split_ifs at h with hlength
  obtain ⟨key', hkey', -, howned⟩ := identityOf_owned hed hbase (not_not.1 hlength)
  rw [hkey'] at h
  cases h
  exact howned

omit hed hbase in
/-- **A key is kept**: the file that is left gives the same key, whatever is generated later. -/
theorem loadKey_kept {file left : Option Bytes} {generated : Bytes}
    (hgenerated : generated.length = 32)
    (h : loadOrGenerateKey ed base58 file generated = .ok (key, left)) :
    loadKey ed base58 left = .ok (some key) ∧
      ∀ seed, loadOrGenerateKey ed base58 left seed = .ok (key, left) := by
  have hkey : ∃ contents, left = some contents ∧ readKey ed base58 contents = .ok key := by
    cases file with
    | none =>
      simp only [loadOrGenerateKey] at h
      cases hkey : identityOf ed base58 generated with
      | error x =>
        rw [hkey] at h
        cases h
      | ok key' =>
        rw [hkey] at h
        cases h
        exact ⟨generated, rfl, by simp [readKey, hgenerated, hkey]⟩
    | some contents =>
      simp only [loadOrGenerateKey] at h
      cases hkey : readKey ed base58 contents with
      | error x =>
        rw [hkey] at h
        cases h
      | ok key' =>
        rw [hkey] at h
        cases h
        exact ⟨contents, rfl, hkey⟩
  obtain ⟨contents, rfl, hkey⟩ := hkey
  exact ⟨by simp [loadKey, hkey, Except.map], fun seed => by
    simp [loadOrGenerateKey, hkey, Except.map]⟩

end keys

/-! ## Signing -/

section signing

variable {ed : Ed25519} {base58 : Base58} {category : CodePoint → Category} {key : Identity}
  {room nonce text : Str} {m : Bytes} {sig : List Char}

theorem canonicalBytes_ok (hcat : Documented category) (hroom : matchesRoom room)
    (hnonce : matchesNonce nonce) :
    ∃ m, canonicalBytes category room nonce text = .ok m := by
  have hcanon : Canonical.canonicalString category room nonce text =
      .ok (room ++ bar :: (nonce ++ bar :: sweepText category text)) :=
    canonicalString_eq_ok_iff.2 ⟨⟨hroom, hnonce⟩, rfl⟩
  obtain ⟨m, hm⟩ := Option.isSome_iff_exists.1 (canonicalString_encodes hcat hcanon)
  exact ⟨m, by simp only [canonicalBytes, hcanon, hm]⟩

/-- Nothing else is canonical. -/
theorem accepted_of_canonicalBytes (h : canonicalBytes category room nonce text = .ok m) :
    matchesRoom room ∧ matchesNonce nonce := by
  unfold canonicalBytes at h
  split at h
  · cases h
  · next hcanon => exact (canonicalString_eq_ok_iff.1 hcanon).1

/-- Sweeping first makes no difference. -/
theorem canonicalBytes_sweepText (hcat : Documented category) :
    canonicalBytes category room nonce (sweepText category text) =
      canonicalBytes category room nonce text := by
  simp only [canonicalBytes, Canonical.canonicalString, sweepText_sweepText hcat]

/-- The characters that carry 64 bytes. -/
theorem signatureBytes_strip {s : Bytes} (hs : s.length = 64) :
    signatureBytes (Base64.strip (Base64.encode s)) = some s ∧
      (Base64.strip (Base64.encode s)).length = 86 ∧
      ∀ c ∈ Base64.strip (Base64.encode s), c ∈ Base64.alphabet := by
  obtain ⟨hdecode, halpha, hlength⟩ := Base64.decode_repad s
  have hascii : Base64.alphabet.all (·.toNat < 0x80) = true := by decide +kernel
  refine ⟨?_, by rw [hlength, hs], halpha⟩
  rw [signatureBytes, if_pos, hdecode]
  exact List.all_eq_true.2 fun c hc => List.all_eq_true.1 hascii c (halpha c hc)

variable (hed : ed.Correct) (howned : key.Owned ed base58)

include hed howned

/-- **What is signed is verified**, and what can be canonical is signed. -/
theorem verify_of_sign (h : canonicalBytes category room nonce text = .ok m) :
    ∃ sig, sign ed category (some key) room nonce text = .ok sig ∧
      verify ed base58 category key.did room nonce text sig = .ok true ∧
      sig.length = 86 ∧ ∀ c ∈ sig, c ∈ Base64.alphabet := by
  have hlen := hed.signature key.seed m howned.seed
  obtain ⟨hbytes, hlength, halpha⟩ := signatureBytes_strip hlen
  refine ⟨Base64.strip (Base64.encode (ed.sign key.seed m)), ?_, ?_, hlength, halpha⟩
  · simp only [sign, h, bind, Except.bind, hlength, ne_eq, not_true, if_false, pure, Except.pure]
  · have hpub := hed.key key.seed howned.seed
    simp only [verify, howned.pubkey, hpub, ne_eq, not_true, if_false, h, hbytes, hlen,
      decide_true, Bool.true_and, hed.accepts key.seed m howned.seed]

end signing

/-! ## The URL -/

section url

variable {ed : Ed25519} {base58 : Base58} {category : CodePoint → Category} {key : Identity}
  {baseUrl room text : Str} {nonce : Option Str} {g : MonotonicNonce} {nowMs : Int}

theorem quote_ok (hcat : Documented category) (text : Str) :
    ∃ quoted, quote (sweepText category text) = .ok quoted := by
  obtain ⟨bytes, hbytes⟩ := Option.isSome_iff_exists.1
    (encodeUtf8_isSome fun c hc => isSurrogate_of_mem_sweepText hcat hc)
  exact ⟨_, by rw [quote, hbytes]⟩

/-- What is built, once the nonce is chosen. -/
theorem built_eq {quoted n : Str} (hquoted : quote (sweepText category text) = .ok quoted)
    (hn : (chooseNonce g nowMs nonce).2 = n) :
    (buildSignedGetUrl ed category ⟨baseUrl, some key⟩ g nowMs room text nonce).2 =
      if matchesNonce n then
        (sign ed category (some key) room n (sweepText category text)).map fun sig =>
          urlOf baseUrl room key.did sig n quoted
      else .error (technocoreError (ofString "geçersiz nonce " ++ n)) := by
  subst hn
  simp only [buildSignedGetUrl, hquoted]
  cases matchesNonce (chooseNonce g nowMs nonce).2 with
  | false => rfl
  | true =>
    generalize sign ed category (some key) room (chooseNonce g nowMs nonce).2
      (sweepText category text) = signed
    cases signed with
    | error x => rfl
    | ok sig => rfl

/-- The URL of an accepted room and nonce. -/
theorem built_of_accepted {n : Str} (hed : ed.Correct) (hcat : Documented category)
    (howned : key.Owned ed base58) (hn : (chooseNonce g nowMs nonce).2 = n)
    (hroom : matchesRoom room) (hnonce : matchesNonce n) :
    ∃ sig url,
      (buildSignedGetUrl ed category ⟨baseUrl, some key⟩ g nowMs room text nonce).2 = .ok url ∧
      readSay baseUrl url = some ⟨room, key.did, sig, n, sweepText category text⟩ ∧
      verify ed base58 category key.did room n (sweepText category text) sig = .ok true := by
  obtain ⟨quoted, hquoted⟩ := quote_ok hcat text
  obtain ⟨m, hm⟩ : ∃ m, canonicalBytes category room n (sweepText category text) = .ok m :=
    canonicalBytes_ok hcat hroom hnonce
  obtain ⟨sig, hsign, hverify, -, halpha⟩ := verify_of_sign hed howned hm
  refine ⟨sig, _, by rw [built_eq hquoted hn, if_pos hnonce, hsign]; rfl, ?_, hverify⟩
  refine readSay_urlOf (slash_notMem_accepted (.inl hroom)) howned.plain (fun hmem => ?_)
    (slash_notMem_accepted (.inr hnonce)) (slash_notMem_quoted hquoted) (unquote_quote hquoted)
  exact absurd (halpha _ hmem) (by decide +kernel)

/-- No other URL is built. -/
theorem accepted_of_built {n url : Str} (hcat : Documented category)
    (hn : (chooseNonce g nowMs nonce).2 = n)
    (h : (buildSignedGetUrl ed category ⟨baseUrl, some key⟩ g nowMs room text nonce).2 = .ok url) :
    matchesRoom room ∧ matchesNonce n := by
  obtain ⟨quoted, hquoted⟩ := quote_ok hcat text
  rw [built_eq hquoted hn] at h
  split_ifs at h with hnonce
  cases hm : canonicalBytes category room n (sweepText category text) with
  | error x =>
    have hsign : sign ed category (some key) room n (sweepText category text) = .error x := by
      simp only [sign, hm, bind, Except.bind]
    rw [hsign] at h
    cases h
  | ok m => exact accepted_of_canonicalBytes hm

/-- **The signed URL.**  With a key that was loaded from a file, a URL is built exactly for the rooms
and nonces that are accepted, and whoever reads it gets what was signed: the room, the DID of the
key, the nonce and the swept text, with a signature that is verified for them and for the text
itself. -/
theorem signedUrl_read_back {file : Bytes} {n : Str} (hed : ed.Correct)
    (hbase : base58.Standard) (hcat : Documented category)
    (hkey : readKey ed base58 file = .ok key) (hn : (chooseNonce g nowMs nonce).2 = n) :
    ((∃ url, (buildSignedGetUrl ed category ⟨baseUrl, some key⟩ g nowMs room text nonce).2 =
        .ok url) ↔ matchesRoom room ∧ matchesNonce n) ∧
      ∀ url, (buildSignedGetUrl ed category ⟨baseUrl, some key⟩ g nowMs room text nonce).2 =
          .ok url →
        ∃ sig, readSay baseUrl url = some ⟨room, key.did, sig, n, sweepText category text⟩ ∧
          verify ed base58 category key.did room n (sweepText category text) sig = .ok true ∧
          verify ed base58 category key.did room n text sig = .ok true := by
  have howned := readKey_owned hed hbase hkey
  have hbuilds : matchesRoom room → matchesNonce n → ∃ sig url,
      (buildSignedGetUrl ed category ⟨baseUrl, some key⟩ g nowMs room text nonce).2 = .ok url ∧
      readSay baseUrl url = some ⟨room, key.did, sig, n, sweepText category text⟩ ∧
      verify ed base58 category key.did room n (sweepText category text) sig = .ok true :=
    fun hroom hnonce => built_of_accepted hed hcat howned hn hroom hnonce
  refine ⟨⟨?_, ?_⟩, ?_⟩
  · rintro ⟨url, h⟩
    exact accepted_of_built hcat hn h
  · rintro ⟨hroom, hnonce⟩
    obtain ⟨sig, url, h, -⟩ := hbuilds hroom hnonce
    exact ⟨url, h⟩
  · intro url h
    obtain ⟨hroom, hnonce⟩ := accepted_of_built hcat hn h
    obtain ⟨sig, url', h', hread, hverify⟩ := hbuilds hroom hnonce
    rw [h] at h'
    cases h'
    refine ⟨sig, hread, hverify, ?_⟩
    simpa only [verify, canonicalBytes_sweepText hcat] using hverify

end url

/-! ### A text with a slash -/

/-- The public key of the seed `bytes(range(32))`. -/
def samplePub : Bytes :=
  [3, 161, 7, 191, 243, 206, 16, 190, 29, 112, 221, 24, 231, 75, 192, 153,
   103, 228, 214, 48, 155, 165, 13, 95, 29, 220, 134, 100, 18, 85, 49, 184]

/-- Its DID. -/
def sampleDid : String := "did:key:z6MkehRgf7yJbgaGfYsdoAsKdBPE3dj2CYhowQdcjqSJgvVd"

/-- Its signature of `lobby|17|a/b c`. -/
def sampleSignature : Bytes :=
  [102, 7, 223, 182, 64, 160, 169, 192, 20, 52, 218, 137, 1, 146, 102, 165,
   205, 210, 239, 188, 115, 148, 7, 126, 6, 241, 183, 189, 89, 219, 228, 49,
   231, 10, 90, 166, 219, 38, 58, 51, 95, 118, 137, 25, 104, 102, 91, 192,
   215, 112, 113, 37, 107, 119, 157, 234, 242, 209, 225, 91, 14, 232, 137, 8]

/-- `lobby|17|a/b c` -/
def sampleMessage : Bytes := [108, 111, 98, 98, 121, 124, 49, 55, 124, 97, 47, 98, 32, 99]

/-- What the key `pub` signs a message with: the sample signature, or nothing in particular. -/
def signatureOf (pub m : Bytes) : Bytes :=
  if pub = samplePub ∧ m = sampleMessage then sampleSignature else List.replicate 64 0

theorem length_signatureOf (pub m : Bytes) : (signatureOf pub m).length = 64 := by
  unfold signatureOf
  split_ifs with hsample
  · rfl
  · rfl

/-- Ed25519 on the sample. -/
def sampleEd25519 : Ed25519 where
  verifyKey seed := if seed = rangeKey then samplePub else seed
  sign seed m := signatureOf (if seed = rangeKey then samplePub else seed) m
  accepts pub m s := decide (s = signatureOf pub m)

theorem sampleEd25519_correct : sampleEd25519.Correct where
  key seed h := by
    simp only [sampleEd25519]
    split_ifs with hseed
    · rfl
    · exact h
  signature seed m _ := length_signatureOf _ m
  accepts seed m _ := by
    simp only [sampleEd25519, decide_true]

def sampleConnector : Connector where
  baseUrl := ofString "https://technocore.chat"
  identity := some ⟨rangeKey, sampleDid⟩

def sampleSig : List Char :=
  ("ZgfftkCgqcAUNNqJAZJmpc3S77xzlAd-BvG3vVnb5DHnClqm2yY6M192iRloZlvA13BxJWt3nery0eFbDuiJ" ++
    "CA").toList

def sampleUrl : Str :=
  urlOf (ofString "https://technocore.chat") (ofString "lobby") sampleDid sampleSig (ofString "17")
    (ofString "a%2Fb%20c")

theorem signedUrl_read_back_sample :
    readKey sampleEd25519 bitcoinBase58 rangeKey = .ok ⟨rangeKey, sampleDid⟩ ∧
    (buildSignedGetUrl sampleEd25519 sampleCategory sampleConnector {} 17 (ofString "lobby")
      (ofString "a/b\nc") none).2 = .ok sampleUrl ∧
    ∃ sig, readSay (ofString "https://technocore.chat") sampleUrl =
      some ⟨ofString "lobby", sampleDid, sig, ofString "17", ofString "a/b c"⟩ ∧
    verify sampleEd25519 bitcoinBase58 sampleCategory sampleDid (ofString "lobby") (ofString "17")
      (ofString "a/b\nc") sig = .ok true := by
  have hread : readKey sampleEd25519 bitcoinBase58 rangeKey = .ok ⟨rangeKey, sampleDid⟩ := by
    rfl
  have hswept : sweepText sampleCategory (ofString "a/b\nc") = ofString "a/b c" := by decide
  have hnonce : (chooseNonce {} 17 none).2 = ofString "17" := by decide
  have hurl : (buildSignedGetUrl sampleEd25519 sampleCategory sampleConnector {} 17
      (ofString "lobby") (ofString "a/b\nc") none).2.toOption = some sampleUrl := by
    decide +kernel
  obtain ⟨hbuilt, hback⟩ := @signedUrl_read_back sampleEd25519 bitcoinBase58 sampleCategory
    ⟨rangeKey, sampleDid⟩ (ofString "https://technocore.chat") (ofString "lobby")
    (ofString "a/b\nc") none {} 17 rangeKey (ofString "17") sampleEd25519_correct
    bitcoinBase58_standard sampleCategory_documented hread hnonce
  obtain ⟨url, h⟩ := hbuilt.2 (by decide)
  obtain ⟨sig, hsay, -, hverify⟩ := hback url h
  rw [sampleConnector, h] at hurl
  cases hurl
  rw [hswept] at hsay
  exact ⟨hread, h, sig, hsay, hverify⟩

end Observatory.Signing
