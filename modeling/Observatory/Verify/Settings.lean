import Mathlib.Data.Int.ConditionallyCompleteOrder
import Observatory.Model.Settings
import Observatory.Verify.Effects
import Observatory.Verify.Generator

/-!
# The allow list

The allowed users are a set of numbers, kept as text: separated by commas, with white space and
entries that are no numbers overlooked.  What `ensure_user_id_in_allowlist` writes back is the set
in ascending order, and is read as that set again.
-/

namespace Observatory.Config

open Canonical (Str CodePoint ofChar ofString)
open Technocore (maxStrDigits str)

variable {uni : Unicode}

/-! ## Numbers as text -/

/-- The characters of a list of numbers. -/
def Plain (c : CodePoint) : Prop := Canonical.isDigit c = true ∨ c = ofChar '-' ∨ c = comma

instance Plain.decidable (c : CodePoint) : Decidable (Plain c) :=
  inferInstanceAs (Decidable (_ ∨ _))

theorem Plain.not_space {c : CodePoint} (h : Plain c) : uni.space c = false := by
  rcases h with h | rfl | rfl
  · exact Technocore.not_space_of_isDigit h
  · rfl
  · rfl

theorem Plain.not_isSpaceCode {c : CodePoint} (h : Plain c) : isSpaceCode c.val = false := by
  rcases h with h | rfl | rfl
  · simp only [Canonical.isDigit, Bool.and_eq_true, decide_eq_true_eq] at h
    simp only [isSpaceCode, Bool.or_eq_false_iff, Bool.and_eq_false_iff, decide_eq_false_iff_not]
    omega
  · rfl
  · rfl

/-- Characters that are no white space are not stripped. -/
theorem strip_of_not {isSpace : CodePoint → Bool} {s : Str} (h : ∀ c ∈ s, isSpace c = false) :
    Outbox.strip isSpace s = s := by
  have hkeep : ∀ t : Str, (∀ c ∈ t, isSpace c = false) → t.dropWhile isSpace = t := by
    intro t ht
    cases t with
    | nil => rfl
    | cons c t => rw [List.dropWhile_cons_of_neg (by simp [ht c List.mem_cons_self])]
  rw [Outbox.strip, hkeep s h, hkeep _ fun c hc => h c (List.mem_reverse.1 hc),
    List.reverse_reverse]

theorem strip_of_plain {s : Str} (h : ∀ c ∈ s, Plain c) : strip s = s :=
  strip_of_not fun c hc => (h c hc).not_isSpaceCode

/-- `str(n)` of a number without sign. -/
def numeral (n : ℕ) : Str := (Nat.toDigits 10 n).map ofChar

theorem isDigit_of_mem_numeral {n : ℕ} {c : CodePoint} (h : c ∈ numeral n) :
    Canonical.isDigit c = true := by
  obtain ⟨d, hd, rfl⟩ := List.mem_map.1 h
  rw [Technocore.isDigit_ofChar]
  exact Nat.isDigit_of_mem_toDigits (by decide) (by decide) hd

theorem numeral_ne_nil {n : ℕ} : numeral n ≠ [] := fun h =>
  Nat.toDigits_ne_nil (List.map_eq_nil_iff.1 h)

theorem isdigit_numeral {n : ℕ} : uni.isdigit (numeral n) = true := by
  rw [Unicode.isdigit, decide_eq_true numeral_ne_nil, Bool.true_and, List.all_eq_true]
  intro c hc
  have hdigit := isDigit_of_mem_numeral hc
  have hascii : c.val < 0x80 := by
    simp only [Canonical.isDigit, Bool.and_eq_true, decide_eq_true_eq] at hdigit
    omega
  rw [Unicode.digit, if_pos hascii, hdigit]

/-- The number can be written, and is read again. -/
def Short (n : Int) : Prop := (Nat.toDigits 10 n.natAbs).length ≤ maxStrDigits

instance Short.decidable (n : Int) : Decidable (Short n) := inferInstanceAs (Decidable (_ ≤ _))

theorem text_of_short {n : Int} (h : Short n) : text n = .ok (str n) := if_neg (Nat.not_lt.2 h)

theorem natOf_numeral {n : ℕ} (h : (Nat.toDigits 10 n).length ≤ maxStrDigits) :
    uni.natOf (numeral n) = some n := by
  rw [Technocore.Unicode.natOf,
    Technocore.digitsOf_of_isDigit numeral_ne_nil fun c => isDigit_of_mem_numeral]
  have hlen : ¬maxStrDigits < ((numeral n).map fun c => c.val - 0x30).length := by
    rw [List.length_map, numeral, List.length_map]
    exact Nat.not_lt.2 h
  have hvalue : ((numeral n).map fun c => c.val - 0x30).foldl (fun n d => 10 * n + d) 0 = n := by
    rw [numeral, List.map_map, List.foldl_map]
    exact (Nat.ofDigitChars_eq_foldl).symm.trans Nat.ofDigitChars_ten_toDigits
  simp only [Option.bind_eq_bind, Option.bind_some, if_neg hlen, hvalue, Option.pure_def]

theorem str_cases (n : Int) : str n = numeral n.natAbs ∧ n = n.natAbs ∨
    str n = ofChar '-' :: numeral n.natAbs ∧ n = -n.natAbs := by
  cases n with
  | ofNat n => exact .inl ⟨rfl, rfl⟩
  | negSucc n => exact .inr ⟨rfl, rfl⟩

theorem plain_of_mem_str {n : Int} {c : CodePoint} (h : c ∈ str n) : Plain c := by
  rcases str_cases n with ⟨hstr, -⟩ | ⟨hstr, -⟩
  · exact .inl (isDigit_of_mem_numeral (hstr ▸ h))
  · rw [hstr] at h
    rcases List.mem_cons.1 h with rfl | h
    · exact .inr (.inl rfl)
    · exact .inl (isDigit_of_mem_numeral h)

theorem str_ne_nil {n : Int} : str n ≠ [] := by
  rcases str_cases n with ⟨hstr, -⟩ | ⟨hstr, -⟩
  · exact hstr ▸ numeral_ne_nil
  · exact hstr ▸ List.cons_ne_nil _ _

theorem comma_notMem_str {n : Int} : comma ∉ str n := by
  intro h
  rcases str_cases n with ⟨hstr, -⟩ | ⟨hstr, -⟩
  · exact absurd (isDigit_of_mem_numeral (hstr ▸ h)) (by decide)
  · rw [hstr] at h
    rcases List.mem_cons.1 h with h | h
    · exact absurd h (by decide)
    · exact absurd (isDigit_of_mem_numeral h) (by decide)

theorem dropWhile_minus_str {n : Int} :
    (str n).dropWhile (· = ofChar '-') = numeral n.natAbs := by
  have hkeep : (numeral n.natAbs).dropWhile (· = ofChar '-') = numeral n.natAbs := by
    cases hnum : numeral n.natAbs with
    | nil => rfl
    | cons c rest =>
      have hdigit := isDigit_of_mem_numeral (hnum ▸ List.mem_cons_self : c ∈ numeral n.natAbs)
      refine List.dropWhile_cons_of_neg fun h => ?_
      rw [of_decide_eq_true h] at hdigit
      exact absurd hdigit (by decide)
  rcases str_cases n with ⟨hstr, -⟩ | ⟨hstr, -⟩
  · rw [hstr, hkeep]
  · rw [hstr, List.dropWhile_cons_of_pos (by rfl), hkeep]

/-- **`int` undoes `str`.** -/
theorem int_str {n : Int} (h : Short n) : uni.int (str n) = some n := by
  have hstrip : ((str n).dropWhile uni.space).reverse.dropWhile uni.space = (str n).reverse := by
    have hplain : Outbox.strip uni.space (str n) = str n :=
      strip_of_not fun c hc => (plain_of_mem_str hc).not_space
    have := congrArg List.reverse hplain
    rwa [Outbox.strip, List.reverse_reverse] at this
  rw [Technocore.Unicode.int, hstrip, List.reverse_reverse]
  have hnat : uni.natOf (numeral n.natAbs) = some n.natAbs := natOf_numeral h
  rcases str_cases n with ⟨hstr, hn⟩ | ⟨hstr, hn⟩
  · cases hnum : numeral n.natAbs with
    | nil => exact absurd hnum numeral_ne_nil
    | cons c rest =>
      have hdigit := isDigit_of_mem_numeral (hnum ▸ List.mem_cons_self : c ∈ numeral n.natAbs)
      have hminus : c ≠ ofChar '-' := by
        rintro rfl
        exact absurd hdigit (by decide)
      have hplus : c ≠ ofChar '+' := by
        rintro rfl
        exact absurd hdigit (by decide)
      rw [hstr, hnum]
      simp only [if_neg hminus, if_neg hplus]
      rw [← hnum, hnat, Option.map_some, Int.ofNat_eq_natCast, ← hn]
  · rw [hstr]
    simp only [if_true, hnat, Option.bind_eq_bind, Option.bind_some, Option.pure_def,
      Option.map_some]
    exact congrArg some hn.symm

/-- What is known of `unicodedata.decimal`. -/
def Documented (uni : Unicode) : Prop := ∀ c n, uni.decimal c = some n → n < 10

theorem lt_ten_of_digitOf (huni : Documented uni) {c : CodePoint} {d : ℕ}
    (h : uni.digitOf c = some d) : d < 10 := by
  unfold Technocore.Unicode.digitOf at h
  split at h
  · split at h
    · next hdigit =>
      cases h
      exact (@Technocore.digitOf_of_isDigit uni.toUnicode c hdigit).2
    · cases h
  · exact huni c d h

theorem lt_ten_of_digitsOf (huni : Documented uni) {s : Str} {ds : List ℕ}
    (h : uni.digitsOf s = some ds) : ∀ d ∈ ds, d < 10 := by
  induction s using Technocore.Unicode.digitsOf.induct generalizing ds with
  | case1 => cases h
  | case2 c =>
    obtain ⟨n, hn, rfl⟩ := Option.map_eq_some_iff.1 h
    intro d hd
    rw [List.mem_singleton.1 hd]
    exact lt_ten_of_digitOf huni hn
  | case3 c d rest ih₁ ih₂ =>
    rw [Technocore.Unicode.digitsOf, Option.bind_eq_bind, Option.bind_eq_some_iff] at h
    obtain ⟨n, hn, h⟩ := h
    have hn' := lt_ten_of_digitOf huni hn
    by_cases hd : d = ofChar '_'
    · simp only [if_pos hd, Option.bind_eq_bind, Option.bind_eq_some_iff] at h
      obtain ⟨ns, hns, h⟩ := h
      cases h
      exact List.forall_mem_cons.2 ⟨hn', ih₁ hns⟩
    · simp only [if_neg hd, Option.bind_eq_bind, Option.bind_eq_some_iff] at h
      obtain ⟨ns, hns, h⟩ := h
      cases h
      exact List.forall_mem_cons.2 ⟨hn', ih₂ hns⟩

theorem short_of_natOf (huni : Documented uni) {s : Str} {n : ℕ} (h : uni.natOf s = some n) :
    Short n := by
  rw [Technocore.Unicode.natOf, Option.bind_eq_bind, Option.bind_eq_some_iff] at h
  obtain ⟨ds, hds, h⟩ := h
  split at h
  · cases h
  · next hlen =>
    cases h
    refine (Nat.length_toDigits_le_iff (by decide) (by decide)).2 ?_
    have hlt := Technocore.foldl_digits_lt (lt_ten_of_digitsOf huni hds) 0
    rw [Nat.zero_add, Nat.one_mul] at hlt
    exact hlt.trans_le (Nat.pow_le_pow_right (by decide) (Nat.not_lt.1 hlen))

/-- **What `int` reads, `str` can write.** -/
theorem short_of_int (huni : Documented uni) {s : Str} {n : Int} (h : uni.int s = some n) :
    Short n := by
  unfold Technocore.Unicode.int at h
  simp only at h
  split at h
  · cases h
  · split_ifs at h
    · obtain ⟨m, hm, rfl⟩ := Option.map_eq_some_iff.1 h
      rw [Option.bind_eq_bind, Option.bind_eq_some_iff] at hm
      obtain ⟨k, hk, hm⟩ := hm
      cases hm
      have := short_of_natOf huni hk
      rwa [Short, Int.natAbs_neg]
    · obtain ⟨m, hm, rfl⟩ := Option.map_eq_some_iff.1 h
      exact short_of_natOf huni hm
    · obtain ⟨m, hm, rfl⟩ := Option.map_eq_some_iff.1 h
      exact short_of_natOf huni hm

/-! ## Lists of numbers as text -/

/-- `",".join(str(x) for x in sorted(ids))` -/
def written (ids : Finset Int) : Str := [comma].intercalate ((sorted ids).map str)

theorem plain_of_mem_joined {ns : List Int} : ∀ {c : CodePoint},
    c ∈ [comma].intercalate (ns.map str) → Plain c := by
  induction ns with
  | nil => intro c hc; cases hc
  | cons n ns ih =>
    intro c hc
    cases ns with
    | nil => exact plain_of_mem_str (by simpa using hc)
    | cons m ns =>
      rw [List.map_cons, List.map_cons, List.intercalate_cons_cons, List.mem_append,
        List.mem_append, List.mem_singleton] at hc
      rcases hc with (hc | rfl) | hc
      · exact plain_of_mem_str hc
      · exact .inr (.inr rfl)
      · exact ih hc

theorem addPart_str {out : Finset Int} {n : Int} (h : Short n) :
    addPart uni out (str n) = .ok (insert n out) := by
  unfold addPart
  rw [strip_of_plain fun c => plain_of_mem_str]
  simp only [dropWhile_minus_str, isdigit_numeral, str_ne_nil, ne_eq, not_false_eq_true, and_self,
    if_true, int_str h]

theorem foldlM_addPart {ns : List Int} (h : ∀ n ∈ ns, Short n) (out : Finset Int) :
    (ns.map str).foldlM (addPart uni) out = .ok (out ∪ ns.toFinset) := by
  induction ns generalizing out with
  | nil => simp [pure, Except.pure]
  | cons n ns ih =>
    rw [List.map_cons, List.foldlM_cons, addPart_str (h n List.mem_cons_self)]
    refine (ih (fun m hm => h m (List.mem_cons_of_mem n hm)) (insert n out)).trans ?_
    rw [List.toFinset_cons, Finset.insert_union, Finset.union_insert]

/-- **A list of numbers is read back as their set.** -/
theorem allowedUserIds_joined {s : Settings} {ns : List Int} (h : ∀ n ∈ ns, Short n)
    (hs : s.telegramAllowedUserIds = [comma].intercalate (ns.map str)) :
    s.allowedUserIds uni = .ok ns.toFinset := by
  have hplain : ∀ c ∈ [comma].intercalate (ns.map str), Plain c := fun c => plain_of_mem_joined
  unfold Settings.allowedUserIds
  rw [hs, strip_of_plain hplain]
  by_cases hne : ns = []
  · subst hne
    rfl
  have hsplit : ([comma].intercalate (ns.map str)).splitOn comma = ns.map str := by
    refine List.splitOn_intercalate comma (fun l hl => ?_) (by simpa using hne)
    obtain ⟨n, -, rfl⟩ := List.mem_map.1 hl
    exact comma_notMem_str
  have hraw : ¬([comma].intercalate (ns.map str) = [] ∨
      [comma].intercalate (ns.map str) = [ofChar '*']) := by
    rintro (hnil | hstar)
    · rw [hnil] at hsplit
      obtain ⟨n, ns, rfl⟩ := List.exists_cons_of_ne_nil hne
      obtain ⟨hfirst, -⟩ := List.cons.inj hsplit
      exact str_ne_nil hfirst.symm
    · have := hplain (ofChar '*') (hstar ▸ List.mem_singleton_self _)
      exact absurd this (by decide)
  simp only [if_neg hraw, hsplit, foldlM_addPart h, Finset.empty_union]

/-! ## The allow list -/

section allowed

variable {s : Settings} {cur : Finset Int} {userId : Int}

theorem short_of_mem_addPart (huni : Documented uni) {out out' : Finset Int} {part : Str}
    (h : addPart uni out part = .ok out') (hout : ∀ n ∈ out, Short n) : ∀ n ∈ out', Short n := by
  unfold addPart at h
  simp only at h
  split_ifs at h
  · split at h
    · next n hn =>
      cases h
      exact Finset.forall_mem_insert _ _ _ |>.2 ⟨short_of_int huni hn, hout⟩
    · cases h
  · cases h
    exact hout

theorem short_of_allowed (huni : Documented uni) (h : s.allowedUserIds uni = .ok cur) :
    ∀ n ∈ cur, Short n := by
  unfold Settings.allowedUserIds at h
  simp only at h
  split_ifs at h
  · cases h
    exact fun n hn => absurd hn (Finset.notMem_empty n)
  · refine foldlM_ok (P := fun out : Finset Int => ∀ n ∈ out, Short n) h ?_ ?_
    · exact fun n hn => absurd hn (Finset.notMem_empty n)
    · exact fun out out' part _ hout hpart => short_of_mem_addPart huni hpart hout

theorem allowedUserIds_written {ids : Finset Int} (h : ∀ n ∈ ids, Short n)
    (hs : s.telegramAllowedUserIds = written ids) : s.allowedUserIds uni = .ok ids := by
  rw [allowedUserIds_joined (fun n hn => h n ((Finset.mem_sort _).1 hn)) hs, Finset.sort_toFinset]

theorem mapM_text {ns : List Int} (h : ∀ n ∈ ns, Short n) :
    ns.mapM text = .ok (ns.map str) := by
  induction ns with
  | nil => rfl
  | cons n ns ih =>
    rw [List.mapM_cons, text_of_short (h n List.mem_cons_self),
      ih fun m hm => h m (List.mem_cons_of_mem n hm)]
    rfl

/-- What one call writes. -/
theorem ensure_eq (huni : Documented uni) (hread : s.allowedUserIds uni = .ok cur)
    (hid : Short userId) : ensureUserIdInAllowlist uni s userId =
      .ok { s with telegramAllowedUserIds := written (insert userId cur) } := by
  have hall : ∀ n ∈ sorted (insert userId cur), Short n := by
    intro n hn
    rcases Finset.mem_insert.1 ((Finset.mem_sort _).1 hn) with rfl | hn
    · exact hid
    · exact short_of_allowed huni hread n hn
  unfold ensureUserIdInAllowlist
  rw [hread]
  simp only [bind, Except.bind, mapM_text hall]
  rfl

/-- **Adding users** loses none and invents none: after any series of calls the setting reads as
the users of before together with the added ones, in the same text whatever the order of the calls
was; nothing else has changed. -/
theorem allowed_of_ensured (huni : Documented uni) (hread : s.allowedUserIds uni = .ok cur)
    {ids : List Int} (hids : ∀ n ∈ ids, Short n) :
    ∃ s', ids.foldlM (ensureUserIdInAllowlist uni) s = .ok s' ∧
      s'.allowedUserIds uni = .ok (cur ∪ ids.toFinset) ∧
      (ids ≠ [] → s' = { s with telegramAllowedUserIds := written (cur ∪ ids.toFinset) }) := by
  induction ids generalizing s cur with
  | nil => exact ⟨s, rfl, by simpa using hread, fun h => absurd rfl h⟩
  | cons n ns ih =>
    have hn := hids n List.mem_cons_self
    have hshort : ∀ m ∈ insert n cur, Short m :=
      (Finset.forall_mem_insert _ _ _).2 ⟨hn, short_of_allowed huni hread⟩
    obtain ⟨s', hrun, hread', hs'⟩ := ih
      (allowedUserIds_written hshort
        (s := { s with telegramAllowedUserIds := written (insert n cur) }) rfl)
      fun m hm => hids m (List.mem_cons_of_mem n hm)
    have hset : insert n cur ∪ ns.toFinset = cur ∪ (n :: ns).toFinset := by
      rw [List.toFinset_cons, Finset.insert_union, Finset.union_insert]
    rw [hset] at hread' hs'
    refine ⟨s', ?_, hread', fun _ => ?_⟩
    · rw [List.foldlM_cons, ensure_eq huni hread hn]
      exact hrun
    · by_cases hne : ns = []
      · subst hne
        cases hrun
        rw [← hset, List.toFinset_nil, Finset.union_empty]
      · exact hs' hne

end allowed

/-- A language with no characters but the ASCII ones. -/
def asciiUnicode : Unicode where
  decimal _ := none
  isSpace _ := false
  isDigit _ := false

/-- Two users, and an entry that is no number. -/
def someAllowed : Settings := { telegramAllowedUserIds := ofString " 5, x,-7" }

theorem allowed_of_ensured_two : ∃ s',
    [12, 3].foldlM (ensureUserIdInAllowlist asciiUnicode) someAllowed = .ok s' ∧
      s'.allowedUserIds asciiUnicode = .ok ({-7, 5} ∪ [12, 3].toFinset) ∧
      ([(12 : Int), 3] ≠ [] → s' = { someAllowed with
        telegramAllowedUserIds := written ({-7, 5} ∪ [12, 3].toFinset) }) :=
  allowed_of_ensured (fun _ _ h => by cases h) rfl (by decide)

end Observatory.Config
