import Observatory.Model.Did

/-!
# DIDs and keys

Base 58 loses nothing (`base58Decode_encode`), so a DID gives its key back.  It begins with `z6Mk`
and has 44 more digits because all numbers of 34 bytes that begin with the multicodec lie between
two multiples of `58 ^ 44` that follow each other (`multicodec_block`).  Conversely, a DID from which
a key is read is the DID of this key (`pubkeyToDid_of_didToPubkey`).
-/

namespace Observatory.Technocore

/-! ## Base 58 -/

variable {v : Bytes} {cs : List Char} {ds : List ℕ}

theorem ofNat_toNat_bytes (v : Bytes) : (v.map UInt8.toNat).map UInt8.ofNat = v := by
  rw [List.map_map]
  exact (List.map_congr_left fun b _ => UInt8.ofNat_toNat).trans (List.map_id v)

theorem toNat_ofNat_digits (hlt : ∀ d ∈ ds, d < 256) : (ds.map UInt8.ofNat).map UInt8.toNat = ds := by
  rw [List.map_map]
  refine (List.map_congr_left fun d hd => ?_).trans (List.map_id ds)
  exact UInt8.toNat_ofNat_of_lt' (hlt d hd)

theorem toNat_lt_of_mem : ∀ d ∈ v.map UInt8.toNat, d < 256 := by
  intro d hd
  obtain ⟨b, -, rfl⟩ := List.mem_map.1 hd
  exact b.toNat_lt

theorem idxOf?_base58Char : ∀ d < 58, base58Alphabet.idxOf? (base58Char d) = some d := by
  decide

theorem isBase58_base58Char : ∀ d < 58, isBase58 (base58Char d) := by
  decide

theorem base58Char_of_idxOf? {c : Char} {d : ℕ} (h : base58Alphabet.idxOf? c = some d) :
    base58Char d = c ∧ d < 58 := by
  obtain ⟨hlt, hget, -⟩ := List.idxOf?_eq_some_iff.1 h
  exact ⟨(List.getElem_eq_getD '1').symm.trans hget, hlt⟩

theorem mapM_idxOf?_base58Char (hlt : ∀ d ∈ ds, d < 58) :
    (ds.map base58Char).mapM (fun c => base58Alphabet.idxOf? c) = some ds := by
  induction ds with
  | nil => rfl
  | cons d ds ih =>
    rw [List.forall_mem_cons] at hlt
    rw [List.map_cons, List.mapM_cons, idxOf?_base58Char d hlt.1, ih hlt.2]
    rfl

theorem map_base58Char_of_mapM (h : cs.mapM (fun c => base58Alphabet.idxOf? c) = some ds) :
    ds.map base58Char = cs ∧ ∀ d ∈ ds, d < 58 := by
  induction cs generalizing ds with
  | nil =>
    cases h
    exact ⟨rfl, fun d hd => by cases hd⟩
  | cons c cs ih =>
    rw [List.mapM_cons] at h
    obtain ⟨d, hd, h⟩ := Option.bind_eq_some_iff.1 h
    obtain ⟨ds', hds, h⟩ := Option.bind_eq_some_iff.1 h
    cases h
    obtain ⟨hc, hlt⟩ := base58Char_of_idxOf? hd
    obtain ⟨hcs, hlts⟩ := ih hds
    exact ⟨by rw [List.map_cons, hc, hcs], List.forall_mem_cons.2 ⟨hlt, hlts⟩⟩

theorem toNat_lt_of_isBase58 {c : Char} (h : isBase58 c) : c.toNat < 128 := by
  have hval : c.val.toNat = c.toNat := rfl
  unfold isBase58 at h
  delta Char.isAlphanum Char.isAlpha Char.isUpper Char.isLower Char.isDigit at h
  simp only [Bool.and_eq_true, Bool.or_eq_true, decide_eq_true_eq, ge_iff_le,
    UInt32.le_iff_toNat_le] at h
  grind

theorem isBase58_mem_alphabet : (List.range 128).all (fun n =>
    !isBase58 (Char.ofNat n) || base58Alphabet.contains (Char.ofNat n)) = true := by
  rfl

/-- The characters of the pattern are the digits. -/
theorem mem_base58Alphabet {c : Char} (h : isBase58 c) : c ∈ base58Alphabet := by
  have hmem := List.all_eq_true.1 isBase58_mem_alphabet c.toNat
    (List.mem_range.2 (toNat_lt_of_isBase58 h))
  rw [Char.ofNat_toNat, h] at hmem
  exact List.contains_iff_mem.1 hmem

/-- **Base 58 can be read back.** -/
theorem base58Decode_encode (v : Bytes) : base58Decode (base58Encode v) = some v := by
  have hread := @mapM_idxOf?_base58Char (Radix.rebase 256 58 (v.map UInt8.toNat))
    fun d hd => Radix.lt_of_mem_rebase (by decide) hd
  rw [base58Decode, base58Encode, hread, Option.map_some,
    Radix.rebase_rebase (by decide) toNat_lt_of_mem, ofNat_toNat_bytes]

theorem base58Encode_of_decode (h : base58Decode cs = some v) : base58Encode v = cs := by
  obtain ⟨ds, hds, rfl⟩ := Option.map_eq_some_iff.1 h
  obtain ⟨hcs, hlt⟩ := map_base58Char_of_mapM hds
  rw [base58Encode, toNat_ofNat_digits fun d hd => Radix.lt_of_mem_rebase (by decide) hd,
    Radix.rebase_rebase (by decide) hlt, hcs]

/-- What has only digits can be read. -/
theorem base58Decode_of_isBase58 (hcs : ∀ c ∈ cs, isBase58 c) : ∃ v, base58Decode cs = some v := by
  have hread : ∃ ds, cs.mapM (fun c => base58Alphabet.idxOf? c) = some ds := by
    induction cs with
    | nil => exact ⟨[], rfl⟩
    | cons c cs ih =>
      rw [List.forall_mem_cons] at hcs
      obtain ⟨ds, hds⟩ := ih hcs.2
      obtain ⟨d, hd⟩ := Option.isSome_iff_exists.1
        (List.isSome_idxOf?.2 (mem_base58Alphabet hcs.1))
      exact ⟨d :: ds, by rw [List.mapM_cons, hd, hds]; rfl⟩
  obtain ⟨ds, hds⟩ := hread
  exact ⟨_, by rw [base58Decode, hds, Option.map_some]⟩

/-! ## The block of the multicodec -/

/-- The digits of `6Mk`. -/
theorem digits_sixMk : Radix.digits 58 18023 = [5, 20, 43] := by
  rw [Radix.digits]
  simp

theorem isBase58_sixMk : "6Mk".toList.all isBase58 = true := by
  rfl

theorem map_base58Char_sixMk : [5, 20, 43].map base58Char = "6Mk".toList := by
  decide

/-- **All keys lie in one block** of base 58. -/
theorem multicodec_block : 18023 * 58 ^ 44 ≤ 0xed01 * 256 ^ 32 ∧
    0xed02 * 256 ^ 32 ≤ 18024 * 58 ^ 44 := by
  decide

/-- **The numeral of a key** begins with `6Mk`. -/
theorem base58Encode_multicodec {pub : Bytes} (hlen : pub.length = 32) :
    ∃ tail, tail.length = 44 ∧ (∀ c ∈ tail, isBase58 c) ∧
      base58Encode (multicodec ++ pub) = "6Mk".toList ++ tail := by
  have hvalue : Radix.value 256 ((multicodec ++ pub).map UInt8.toNat) =
      0xed01 * 256 ^ 32 + Radix.value 256 (pub.map UInt8.toNat) := by
    rw [List.map_append, Radix.value_append, List.length_map, hlen]
    rfl
  have hlow : Radix.value 256 (pub.map UInt8.toNat) < 256 ^ 32 := by
    have hlt := Radix.value_lt (b := 256) (by decide) (toNat_lt_of_mem (v := pub))
    rwa [List.length_map, hlen] at hlt
  obtain ⟨hle, hlt⟩ := multicodec_block
  obtain ⟨low, hlength, hdigits⟩ := Radix.digits_block (b := 58) (k := 44) (p := 18023)
    (n := 0xed01 * 256 ^ 32 + Radix.value 256 (pub.map UInt8.toNat)) (by decide) (by decide)
    (by omega) (by omega)
  refine ⟨low.map base58Char, ?_, fun c hc => ?_, ?_⟩
  · rw [List.length_map, hlength]
  · obtain ⟨d, hd, rfl⟩ := List.mem_map.1 hc
    refine isBase58_base58Char d (Radix.lt_of_mem_digits (by decide) (n := ?_) ?_)
    · exact 0xed01 * 256 ^ 32 + Radix.value 256 (pub.map UInt8.toNat)
    · rw [hdigits]
      exact List.mem_append_right _ hd
  · have hsig : Radix.Significant ((multicodec ++ pub).map UInt8.toNat) := by
      intro d hd
      cases hd
      decide
    rw [base58Encode, Radix.rebase_of_significant hsig, hvalue, hdigits, digits_sixMk,
      List.map_append, map_base58Char_sixMk]

/-- What a numeral that begins with `6Mk` stands for has 34 bytes. -/
theorem length_of_base58Decode {tail : List Char} (hlength : tail.length = 44)
    (h : base58Decode ("6Mk".toList ++ tail) = some v) : v.length = 34 := by
  obtain ⟨ds, hds, rfl⟩ := Option.map_eq_some_iff.1 h
  obtain ⟨hcs, hlt⟩ := map_base58Char_of_mapM hds
  obtain ⟨front, low, rfl, hfront, rfl⟩ := List.map_eq_append_iff.1 hcs
  rw [List.forall_mem_append] at hlt
  rw [List.length_map] at hlength
  obtain rfl : front = [5, 20, 43] := by
    have hread := mapM_idxOf?_base58Char hlt.1
    rw [hfront] at hread
    exact Option.some.inj (hread.symm.trans (by decide))
  have hlow := Radix.value_lt (b := 58) (by decide) hlt.2
  rw [hlength] at hlow
  have hvalue : Radix.value 58 ([5, 20, 43] ++ low) = 18023 * 58 ^ 44 + Radix.value 58 low := by
    rw [Radix.value_append, hlength]
    rfl
  have hsig : Radix.Significant ([5, 20, 43] ++ low) := by
    intro d hd
    cases hd
    decide
  rw [List.length_map, Radix.rebase_of_significant hsig, hvalue, Radix.length_digits_eq_iff (by decide)]
  omega

/-! ## DIDs -/

variable {base58 : Base58}

theorem toList_did (tail : List Char) :
    ("did:key:z" ++ String.ofList ("6Mk".toList ++ tail)).toList = "did:key:z6Mk".toList ++ tail := by
  simp

theorem drop_did (tail : List Char) :
    ("did:key:z6Mk".toList ++ tail).drop "did:key:z".length = "6Mk".toList ++ tail := by
  have hnine : "did:key:z".length = 9 := by rfl
  simp [hnine]

theorem matchesDid_of_tail {tail : List Char} (hlength : tail.length = 44)
    (hbase : ∀ c ∈ tail, isBase58 c) :
    matchesDid ("did:key:z" ++ String.ofList ("6Mk".toList ++ tail)) = true := by
  have hlast : ("did:key:z6Mk".toList ++ tail).getLast? ≠ some '\n' := by
    intro hlast
    have hne : tail ≠ [] := List.ne_nil_of_length_pos (hlength ▸ by decide)
    rw [List.getLast?_append_of_ne_nil _ hne] at hlast
    exact absurd (hbase _ (List.mem_of_getLast? hlast)) (by decide)
  simp only [matchesDid, toList_did, if_neg hlast, Bool.and_eq_true, List.all_eq_true, decide_eq_true_eq]
  have hfront := List.isPrefixOf_iff_prefix.2 (List.prefix_append "did:key:z6Mk".toList tail)
  refine ⟨⟨hfront, ?_⟩, ?_⟩
  · have hdrop : ("did:key:z6Mk".toList ++ tail).drop 12 = tail := List.drop_left' rfl
    rw [hdrop]
    exact hbase
  · rw [List.length_append, hlength]
    rfl

theorem didToPubkey_did (hlib : base58.Standard) {tail : List Char} (hlength : tail.length = 44)
    (hbase : ∀ c ∈ tail, isBase58 c) {pub : Bytes}
    (hdecode : base58Decode ("6Mk".toList ++ tail) = some (multicodec ++ pub)) :
    didToPubkey base58 ("did:key:z" ++ String.ofList ("6Mk".toList ++ tail)) = .ok pub := by
  rw [didToPubkey, matchesDid_of_tail hlength hbase, toList_did, drop_did, hlib.decode _ _ hdecode]
  rfl

theorem tail_of_matchesDid {did : String} (hline : did.toList.getLast? ≠ some '\n')
    (h : matchesDid did = true) :
    ∃ tail, did = "did:key:z" ++ String.ofList ("6Mk".toList ++ tail) ∧ tail.length = 44 ∧
      ∀ c ∈ tail, isBase58 c := by
  simp only [matchesDid, if_neg hline, Bool.and_eq_true, List.all_eq_true, decide_eq_true_eq] at h
  obtain ⟨⟨hfront, hbase⟩, hlength⟩ := h
  obtain ⟨tail, htail⟩ := List.isPrefixOf_iff_prefix.1 hfront
  have hdrop : did.toList.drop 12 = tail := by
    rw [← htail]
    exact List.drop_left' rfl
  refine ⟨tail, ?_, ?_, hdrop ▸ hbase⟩
  · rw [← String.toList_inj, toList_did, htail]
  · rw [← hdrop, List.length_drop, hlength]

/-- **A DID gives its key back**, and always has the same length and the same beginning.  Different
keys have different DIDs. -/
theorem didToPubkey_of_pubkey (hlib : base58.Standard) {pub : Bytes} (hlen : pub.length = 32) :
    ∃ did, pubkeyToDid base58 pub = .ok did ∧
      (∃ tail, did.toList = "did:key:z6Mk".toList ++ tail ∧ tail.length = 44 ∧
        ∀ c ∈ tail, isBase58 c) ∧
      didToPubkey base58 did = .ok pub ∧
      ∀ pub', pub'.length = 32 → pub' ≠ pub → pubkeyToDid base58 pub' ≠ .ok did := by
  obtain ⟨tail, hlength, hbase, hencode⟩ := base58Encode_multicodec hlen
  have hdid : pubkeyToDid base58 pub =
      .ok ("did:key:z" ++ String.ofList ("6Mk".toList ++ tail)) := by
    rw [pubkeyToDid, if_neg (not_not.2 hlen), hlib.encode, hencode]
  have hkey := didToPubkey_did hlib hlength hbase (hencode ▸ base58Decode_encode _)
  refine ⟨_, hdid, ⟨tail, toList_did tail, hlength, hbase⟩, hkey, fun pub' hlen' hne hdid' => ?_⟩
  obtain ⟨tail', hlength', hbase', hencode'⟩ := base58Encode_multicodec hlen'
  rw [pubkeyToDid, if_neg (not_not.2 hlen'), hlib.encode, hencode'] at hdid'
  have hkey' := didToPubkey_did hlib hlength' hbase' (hencode' ▸ base58Decode_encode _)
  rw [Except.ok.inj hdid', hkey] at hkey'
  exact hne (Except.ok.inj hkey').symm

section sample

/-- A library that is as documented. -/
def bitcoinBase58 : Base58 where
  encode v := String.ofList (base58Encode v)
  decode s := (base58Decode s.toList).elim (.error (.mk "ValueError" "Invalid character")) .ok

theorem bitcoinBase58_standard : bitcoinBase58.Standard where
  encode _ := rfl
  decode cs v h := by
    simp only [bitcoinBase58, String.toList_ofList, h, Option.elim_some]

/-- `bytes(range(32))` -/
def rangeKey : Bytes := (List.range 32).map UInt8.ofNat

/-- The DID of a key. -/
theorem didToPubkey_of_pubkey_sample : ∃ did,
    pubkeyToDid bitcoinBase58 rangeKey = .ok did ∧ (∃ tail,
      did.toList = "did:key:z6Mk".toList ++ tail ∧ tail.length = 44 ∧ ∀ c ∈ tail, isBase58 c) ∧
    didToPubkey bitcoinBase58 did = .ok rangeKey ∧ ∀ pub', pub'.length = 32 → pub' ≠ rangeKey →
      pubkeyToDid bitcoinBase58 pub' ≠ .ok did :=
  didToPubkey_of_pubkey bitcoinBase58_standard (by decide)

example : pubkeyToDid bitcoinBase58 rangeKey =
    .ok "did:key:z6MkeTGwHmLmuCmgg4ABYhzWVh6ZX7hTwWt8gguAretUfc9c" := by
  rfl

end sample

/-- **A DID from which a key is read** is the DID of this key, if no newline follows it. -/
theorem pubkeyToDid_of_didToPubkey (hlib : base58.Standard) {did : String} {pub : Bytes}
    (hline : did.toList.getLast? ≠ some '\n') (h : didToPubkey base58 did = .ok pub) :
    pub.length = 32 ∧ pubkeyToDid base58 pub = .ok did := by
  unfold didToPubkey at h
  split at h
  · cases h
  · next hmatches =>
    obtain ⟨tail, rfl, hlength, hbase⟩ := tail_of_matchesDid hline (by simpa using hmatches)
    obtain ⟨v, hdecode⟩ := @base58Decode_of_isBase58 ("6Mk".toList ++ tail)
      (List.forall_mem_append.2 ⟨List.all_eq_true.1 isBase58_sixMk, hbase⟩)
    rw [toList_did, drop_did, hlib.decode _ _ hdecode] at h
    have hfour := length_of_base58Decode hlength hdecode
    obtain ⟨hfront, hpub⟩ : v.take 2 = multicodec ∧ v.drop 2 = pub := by
      by_cases hfront : v.take 2 = multicodec
      · have hread : (pure (v.drop 2) : Except PyExc Bytes) = .ok pub := by
          simpa [bind, Except.bind, hfront] using h
        exact ⟨hfront, Except.ok.inj hread⟩
      · simp [bind, Except.bind, hfront] at h
    have hv : multicodec ++ pub = v := by rw [← hfront, ← hpub, List.take_append_drop]
    have hlen : pub.length = 32 := by rw [← hpub, List.length_drop, hfour]
    refine ⟨hlen, ?_⟩
    rw [pubkeyToDid, if_neg (not_not.2 hlen), hlib.encode, hv, base58Encode_of_decode hdecode]

end Observatory.Technocore
