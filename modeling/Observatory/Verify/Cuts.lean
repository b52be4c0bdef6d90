import Observatory.Data.Crossings
import Observatory.Verify.Patterns

/-!
# What the static patterns open with

Names and beginnings of tokens that are in a text wherever a pattern puts something in, what comes
behind a name up to the end of a match, and what a match stops at.
-/

namespace Observatory.Redaction

open Regex

section shapes

variable (uni : Unicode)

/-- A name, read without regard to case. -/
def letters (n : String) : Shape Char := n.toList.map fun l c => c = l || uni.ignoreCase c l

def names (ns : List String) : List (Shape Char) := ns.map (letters uni)

def exactly (n : String) : Shape Char := n.toList.map fun l c => c = l

/-! ## Openings -/

def authorizationNames : List String := ["authorization", "bearer", "apikey", "api_key", "api-key"]

def telegramOpening : Shape Char :=
  List.replicate 6 uni.isDecimal ++ (exactly ":" ++ List.replicate 30 isTokenChar)

def jwtOpening : Shape Char := exactly "ey" ++ List.replicate 8 isTokenChar

def prefixedOpenings : List (Shape Char) :=
  ["sk_", "pk_", "ghp_", "gho_"].map fun n => exactly n ++ List.replicate 20 isAlnum

def assignmentNames : List String := ["telegram_bot_token", "llm_api_key", "jwt_secret", "password"]

def privateKeyOpening : Shape Char := exactly "PRIVATE KEY-----"

def awsKeyOpening : Shape Char :=
  exactly "AKIA" ++ List.replicate 16 fun c => isDigit c || isUpper c

def passwordNames : List String := ["password", "passwd", "pwd"]

/-! ## Ends -/

/-- A match of as much as there is before white space ends before white space. -/
def spaceStops (_ n : Char) : Bool := uni.isSpace n

/-- A value ends with a quote, or before white space or a semicolon. -/
def valueStops (l n : Char) : Bool := l ∈ ['\'', '"'] || uni.isSpace n || n = ';'

def atStops (_ n : Char) : Bool := n = '@'

/-! ## Behind the names -/

def authorizationRest : Re Char :=
  .seqs [spaces uni, oneOf ":=", spaces uni,
    .opt (.seqs [itext uni "bearer", .many uni.isSpace 1 none]), nonSpaces uni]

def assignmentRest : Re Char := .seqs [text "=", nonSpaces uni]

def awsSecretRest : Re Char := .seqs [spaces uni, oneOf ":=", spaces uni, nonSpaces uni]

def passwordRest : Re Char :=
  .seqs [spaces uni, oneOf ":=", spaces uni, .opt (oneOf "'\""),
    .many (fun c => !uni.isSpace c && c ∉ ['\'', '"', ';']) 8 none, .opt (oneOf "'\"")]

def databaseUrlRest : Re Char :=
  .seqs [text "://", .many (· ≠ ':') 1 none, text ":", .many (· ≠ '@') 1 none]

end shapes

/-! ## Shapes that fit -/

section fits

variable {uni : Unicode} {y : List Char} {n : String}

theorem fits_letters : Fits (letters uni n) y ↔ Reads uni y n.toList := by
  have hflip : ∀ {ls y : List Char},
      List.Forall₂ (fun l c => (c = l || uni.ignoreCase c l) = true) ls y ↔ Reads uni y ls := by
    intro ls y
    induction ls generalizing y with
    | nil => cases y <;> simp [Reads]
    | cons l ls ih =>
      cases y with
      | nil => simp [Reads]
      | cons c y =>
        simp only [Reads, List.forall₂_cons, Bool.or_eq_true, decide_eq_true_eq] at ih ⊢
        rw [ih]
  exact fits_map.trans hflip

theorem fits_exactly : Fits (exactly n) n.toList := by
  rw [exactly, fits_map]
  exact List.forall₂_same.2 fun c _ => decide_eq_true rfl

end fits

/-! ## Ends of matches -/

section ends

variable {uni : Unicode} {prev : Option Char} {x old rest : List Char} {rs : List (Re Char)}

theorem isSpace_of_nonSpaces
    (h : ((Re.seqs (rs ++ [nonSpaces uni])).run prev x).head? = some (old, rest)) :
    ∀ n ∈ rest.head?, uni.isSpace n = true := by
  obtain ⟨prev', x', y, hlast, -, hrest⟩ := Re.head_run_seqs_append h
  rw [Re.run_seqs_singleton] at hlast
  intro n hn
  rw [show rest = y.2 from hrest.symm] at hn
  simpa using Re.head?_of_head_run_many hlast n hn

theorem valueStops_of_quoted (h : ((Re.seqs (rs ++ [.many (fun c => !uni.isSpace c &&
    c ∉ ['\'', '"', ';']) 8 none, .opt (oneOf "'\"")])).run prev x).head? = some (old, rest)) :
    ∀ l ∈ old.getLast?, ∀ n ∈ rest.head?, valueStops uni l n = true := by
  obtain ⟨prev', x', y, hlast, hsuffix, hrest⟩ := Re.head_run_seqs_append h
  obtain ⟨y₁, hy₁, y₂, hy₂, rfl⟩ := Re.head_run_seq_of_total
    (fun _ _ => by
      rw [Re.run_seqs_singleton]
      exact Re.run_opt_ne_nil) hlast
  rw [Re.run_seqs_singleton] at hy₂
  obtain rfl : y₂.2 = rest := hrest
  intro l hl n hn
  cases hquote : (oneOf "'\"").run (y₁.1.getLast?.or prev') y₁.2 with
  | cons z zs =>
    -- the quote is taken
    rw [Re.run, hquote] at hy₂
    cases hy₂
    obtain ⟨c, hc, hone, -⟩ := Re.mem_run_one.1 (hquote ▸ List.mem_cons_self)
    obtain ⟨w, hw⟩ := hsuffix
    change w ++ (y₁.1 ++ y₂.1) = old at hw
    have hlast : old.getLast? = some c := by
      rw [← hw, ← List.append_assoc, hone, List.getLast?_concat]
    cases hl.symm.trans hlast
    have hmem : l = '\'' ∨ l = '"' := by simpa using hc
    rcases hmem with rfl | rfl
    · rfl
    · rfl
  | nil =>
    rw [Re.run, hquote] at hy₂
    cases hy₂
    have hnot := Re.head?_of_head_run_many hy₁ n hn
    have hnone : n ∉ ['\'', '"'] := by
      intro hmem
      cases hx : y₁.2 with
      | nil =>
        rw [hx] at hn
        cases hn
      | cons d x =>
        rw [hx] at hn hquote
        cases hn
        rw [oneOf, Re.run, if_pos (by simpa using hmem)] at hquote
        cases hquote
    simp only [List.mem_cons, List.not_mem_nil, or_false, not_or] at hnone
    simp only [Bool.and_eq_false_iff, Bool.not_eq_false', decide_eq_false_iff_not, not_not,
      List.mem_cons, List.not_mem_nil, or_false] at hnot
    simp only [valueStops, Bool.or_eq_true, decide_eq_true_eq]
    tauto

end ends

/-! ## Patterns of assigned values -/

section values

variable {uni : Unicode}

theorem fits_names {ns : List String} {y : List Char} :
    (∃ t ∈ names uni ns, Fits t y) ↔ ∃ n ∈ ns, Reads uni y n.toList := by
  simp only [names, List.mem_map, exists_exists_and_eq_and, fits_letters]

theorem reads_of_mem_itext {n : String} {prev : Option Char} {x y mid : List Char}
    (h : (y, mid) ∈ (itext uni n).run prev x) : Reads uni y n.toList := (mem_run_itext.1 h).1

theorem authorization_name (prev : Option Char) (x y mid : List Char)
    (h : (y, mid) ∈ (Re.seqs [.alts (itext uni "authorization") [itext uni "bearer",
      .seqs [itext uni "api", .opt (oneOf "_-"), itext uni "key"]]]).run prev x) :
    ∃ a y', y = a ++ y' ∧ ∃ t ∈ names uni authorizationNames, Fits t y' := by
  refine ⟨[], y, rfl, fits_names.2 ?_⟩
  rw [Re.run_seqs_singleton, Re.mem_run_alts] at h
  simp only [List.mem_cons, List.not_mem_nil, or_false, exists_eq_or_imp, exists_eq_left] at h
  rcases h with h | h | h
  · exact ⟨"authorization", by decide, reads_of_mem_itext h⟩
  · exact ⟨"bearer", by decide, reads_of_mem_itext h⟩
  · obtain ⟨y₁, x₁, y₂, rfl, h₁, h⟩ := Re.mem_run_seqs_cons.1 h
    obtain ⟨y₃, x₂, y₄, rfl, h₂, h⟩ := Re.mem_run_seqs_cons.1 h
    rw [Re.run_seqs_singleton] at h
    have hread₁ := reads_of_mem_itext h₁
    have hread₃ := reads_of_mem_itext h
    rcases Re.mem_run_opt.1 h₂ with h₂ | h₂
    · obtain ⟨c, hc, rfl, -⟩ := Re.mem_run_one.1 h₂
      have hmem : c = '_' ∨ c = '-' := by simpa using hc
      rcases hmem with rfl | rfl
      · exact ⟨"api_key", by decide, List.rel_append hread₁ (.cons (.inl rfl) hread₃)⟩
      · exact ⟨"api-key", by decide, List.rel_append hread₁ (.cons (.inl rfl) hread₃)⟩
    · cases h₂
      exact ⟨"apikey", by decide, List.rel_append hread₁ hread₃⟩

theorem authorization_found :
    Found (authorization uni) (names uni authorizationNames) (authorizationRest uni)
      (spaceStops uni) True :=
  found_of_pair authorization_name (Nat.lt_of_succ_le (Nat.le_of_ble_eq_true rfl))
    fun _ _ _ _ h _ _ => @isSpace_of_nonSpaces uni _ _ _ _ [spaces uni, oneOf ":=", spaces uni,
      .opt (.seqs [itext uni "bearer", .many uni.isSpace 1 none])] h

theorem assignment_name (prev : Option Char) (x y mid : List Char)
    (h : (y, mid) ∈ (Re.seqs [.alts (itext uni "telegram_bot_token") [itext uni "llm_api_key",
      itext uni "jwt_secret", .seqs [.many (isNameChar uni) 0 none, itext uni "password"]]]).run
        prev x) :
    ∃ a y', y = a ++ y' ∧ ∃ t ∈ names uni assignmentNames, Fits t y' := by
  rw [Re.run_seqs_singleton, Re.mem_run_alts] at h
  simp only [List.mem_cons, List.not_mem_nil, or_false, exists_eq_or_imp, exists_eq_left] at h
  rcases h with h | h | h | h
  · exact ⟨[], y, rfl, fits_names.2 ⟨"telegram_bot_token", by decide, reads_of_mem_itext h⟩⟩
  · exact ⟨[], y, rfl, fits_names.2 ⟨"llm_api_key", by decide, reads_of_mem_itext h⟩⟩
  · exact ⟨[], y, rfl, fits_names.2 ⟨"jwt_secret", by decide, reads_of_mem_itext h⟩⟩
  · obtain ⟨y₁, x₁, y₂, rfl, -, h⟩ := Re.mem_run_seqs_cons.1 h
    rw [Re.run_seqs_singleton] at h
    exact ⟨y₁, y₂, rfl, fits_names.2 ⟨"password", by decide, reads_of_mem_itext h⟩⟩

theorem assignment_found :
    Found (assignment uni) (names uni assignmentNames) (assignmentRest uni) (spaceStops uni) True :=
  found_of_pair assignment_name (Nat.lt_of_succ_le (Nat.le_of_ble_eq_true rfl))
    fun _ _ _ _ h _ _ => @isSpace_of_nonSpaces uni _ _ _ _ [text "="] h

/-- The name is followed by an equals sign. -/
theorem assignment_shows (x : List Char) :
    Shows ((names uni assignmentNames).map (· ++ exactly "=")) ((assignment uni).pieces x) := by
  intro ps₁ old new ps₂ hps
  obtain ⟨qs, y, prev, x', prev', mid, rfl, hy, hrun⟩ := Rule.put_of_pair hps
  obtain ⟨a, y', rfl, sh, hsh, hfits⟩ := assignment_name _ _ _ _ hy
  obtain ⟨m, x₁, d, rfl, hm, -⟩ := Re.mem_run_seqs_cons.1 (List.mem_of_head? hrun)
  obtain rfl := (mem_run_text.1 hm).1
  refine ⟨_, List.mem_map_of_mem hsh, oldText qs ++ a, y' ++ "=".toList, d,
    hfits.append fits_exactly, by simp, ?_⟩
  rw [List.length_append]
  omega

theorem password_name (prev : Option Char) (x y mid : List Char)
    (h : (y, mid) ∈ (Re.seqs [.alts (itext uni "password") [itext uni "passwd",
      itext uni "pwd"]]).run prev x) :
    ∃ a y', y = a ++ y' ∧ ∃ t ∈ names uni passwordNames, Fits t y' := by
  refine ⟨[], y, rfl, fits_names.2 ?_⟩
  rw [Re.run_seqs_singleton, Re.mem_run_alts] at h
  simp only [List.mem_cons, List.not_mem_nil, or_false, exists_eq_or_imp, exists_eq_left] at h
  rcases h with h | h | h
  · exact ⟨"password", by decide, reads_of_mem_itext h⟩
  · exact ⟨"passwd", by decide, reads_of_mem_itext h⟩
  · exact ⟨"pwd", by decide, reads_of_mem_itext h⟩

theorem password_found :
    Found (password uni) (names uni passwordNames) (passwordRest uni) (valueStops uni) True :=
  found_of_pair password_name (Nat.lt_of_succ_le (Nat.le_of_ble_eq_true rfl))
    fun _ _ _ _ h => @valueStops_of_quoted uni _ _ _ _ [spaces uni, oneOf ":=", spaces uni,
      .opt (oneOf "'\"")] h

theorem awsSecret_found : Found (awsSecret uni) (names uni ["aws_secret_access_key"])
    (awsSecretRest uni) (spaceStops uni) True := by
  intro x ps₁ old new ps₂ hps
  obtain ⟨x', -, -, hrun⟩ := Rule.put_of_single hps
  obtain ⟨y, mid, z, rfl, hy, hz⟩ := Re.mem_run_seqs_cons.1 (List.mem_of_head? hrun)
  refine ⟨oldText ps₁, y, z, rfl, fits_names.2 ⟨_, List.mem_cons_self, reads_of_mem_itext hy⟩,
    Re.admits_of_mem hz, ?_, ?_⟩
  · intro l _
    exact @isSpace_of_nonSpaces uni _ _ _ _ [itext uni "aws_secret_access_key", spaces uni,
      oneOf ":=", spaces uni] hrun
  · intro _
    rw [List.length_append]
    omega

/-- The name begins what is replaced. -/
theorem awsSecret_led :
    Led (awsSecret uni) (names uni ["aws_secret_access_key"]) (awsSecretRest uni) := by
  intro x ps₁ old new ps₂ hps
  obtain ⟨x', -, -, hrun⟩ := Rule.put_of_single hps
  obtain ⟨y, mid, z, rfl, hy, hz⟩ := Re.mem_run_seqs_cons.1 (List.mem_of_head? hrun)
  exact ⟨oldText ps₁, y, y, z, fits_names.2 ⟨_, List.mem_cons_self, reads_of_mem_itext hy⟩, rfl,
    List.suffix_refl y, rfl, Re.admits_of_mem hz⟩

theorem databaseUrl_found :
    Found (databaseUrl uni) (names uni schemes) databaseUrlRest atStops False := by
  intro x ps₁ old new ps₂ hps
  obtain ⟨p, x', prev, m, rest, m₁, m₂, -, -, hrun, hm, hold₁, hold₂⟩ := Rule.scan_put le_rfl hps
  obtain ⟨n, w, t, ⟨hn, hw, hcolon, ht, hat⟩, -, hparts⟩ :=
    mem_run_opening.1 (List.mem_of_head? hrun)
  obtain ⟨rfl, rfl, -, rfl⟩ :=
    @Rule.one_put Char m₁ m₂ old new t _ (opening n w) ['@'] (hm.symm.trans hparts)
  have hw' : ∀ c ∈ w, decide (c ≠ ':') = true := fun c hc =>
    decide_eq_true fun heq => hcolon (heq ▸ hc)
  have ht' : ∀ c ∈ old, decide (c ≠ '@') = true := fun c hc =>
    decide_eq_true fun heq => hat (heq ▸ hc)
  rw [oldText_keep] at hold₁ hold₂
  refine ⟨p, n, "://".toList ++ (w ++ (":".toList ++ old)), ?_, fits_names.2 hn, ⟨none, [], ?_⟩, ?_,
    False.elim⟩
  · rw [hold₁, opening]
    simp
  · simp only [databaseUrlRest, Re.mem_run_seqs_cons, mem_run_text, Re.mem_run_many,
      Re.mem_run_seqs_nil]
    exact ⟨_, _, _, rfl, ⟨rfl, by rw [List.append_assoc]⟩, w, ":".toList ++ (old ++ []), _, rfl,
      ⟨by simp, hw', List.length_pos_iff.2 hw, by simp⟩, _, _, old, rfl, ⟨rfl, rfl⟩, old, [], [],
      (List.append_nil old).symm, ⟨rfl, ht', List.length_pos_iff.2 ht, by simp⟩, rfl, rfl⟩
  · intro l _ n' hn'
    rw [hold₂] at hn'
    cases hn'
    rfl

end values

/-! ## Patterns of tokens -/

section tokens

variable {uni : Unicode}

/-- A run of characters that is long enough begins and ends with one that is just so long. -/
theorem exists_run {p : Char → Bool} {k : ℕ} {prev : Option Char} {x y mid : List Char}
    (h : (y, mid) ∈ (Re.many p k none).run prev x) :
    (∃ o d, y = o ++ d ∧ Fits (List.replicate k p) o) ∧
      ∃ b o, y = b ++ o ∧ Fits (List.replicate k p) o := by
  obtain ⟨-, hall, hlen, -⟩ := Re.mem_run_many.1 h
  constructor
  · refine ⟨y.take k, y.drop k, (List.take_append_drop k y).symm, fits_replicate ?_ ?_⟩
    · exact fun c hc => hall c (List.mem_of_mem_take hc)
    · exact List.length_take_of_le hlen
  · refine ⟨y.take (y.length - k), y.drop (y.length - k), (List.take_append_drop _ y).symm,
      fits_replicate ?_ ?_⟩
    · exact fun c hc => hall c (List.mem_of_mem_drop hc)
    · rw [List.length_drop]
      exact Nat.sub_sub_self hlen

theorem mem_run_boundary {rs : List (Re Char)} {prev : Option Char} {x y rest : List Char}
    (h : (y, rest) ∈ (Re.seqs (wordBoundary uni :: rs)).run prev x) :
    ∃ prev', (y, rest) ∈ (Re.seqs rs).run prev' x := by
  obtain ⟨m, mid, y', rfl, hm, hrest⟩ := Re.mem_run_seqs_cons.1 h
  cases (Re.mem_run_boundary hm).1
  exact ⟨_, hrest⟩

theorem telegramToken_contains : (Re.seqs [wordBoundary uni, .many uni.isDecimal 6 none, text ":",
    .many isTokenChar 30 none, wordBoundary uni]).Contains [telegramOpening uni] := by
  refine fun prev x y rest h => ⟨_, List.mem_cons_self, ?_⟩
  obtain ⟨prev, h⟩ := mem_run_boundary h
  obtain ⟨d, x₁, y₁, rfl, hd, h⟩ := Re.mem_run_seqs_cons.1 h
  obtain ⟨m, x₂, y₂, rfl, hm, h⟩ := Re.mem_run_seqs_cons.1 h
  obtain ⟨k, x₃, y₃, rfl, hk, -⟩ := Re.mem_run_seqs_cons.1 h
  obtain ⟨-, b, o, rfl, ho⟩ := exists_run hd
  obtain ⟨⟨o', d', rfl, ho'⟩, -⟩ := exists_run hk
  obtain rfl := (mem_run_text.1 hm).1
  exact ⟨b, o ++ (":".toList ++ o'), d' ++ y₃, ho.append (fits_exactly.append ho'), by simp⟩

theorem jwt_contains : (Re.seqs [wordBoundary uni, text "ey", .many isTokenChar 8 none, text ".",
    .many isTokenChar 8 none, text ".", .many isTokenChar 8 none, wordBoundary uni]).Contains
      [jwtOpening] := by
  refine fun prev x y rest h => ⟨_, List.mem_cons_self, ?_⟩
  obtain ⟨prev, h⟩ := mem_run_boundary h
  obtain ⟨m, x₁, y₁, rfl, hm, h⟩ := Re.mem_run_seqs_cons.1 h
  obtain ⟨k, x₂, y₂, rfl, hk, -⟩ := Re.mem_run_seqs_cons.1 h
  obtain ⟨⟨o, d, rfl, ho⟩, -⟩ := exists_run hk
  obtain rfl := (mem_run_text.1 hm).1
  exact ⟨[], "ey".toList ++ o, d ++ y₂, fits_exactly.append ho, by simp⟩

theorem prefixedToken_contains : (Re.seqs [wordBoundary uni,
    .alts (text "sk") [text "pk", text "ghp", text "gho"], text "_", .many isAlnum 20 none,
    wordBoundary uni]).Contains prefixedOpenings := by
  intro prev x y rest h
  obtain ⟨prev, h⟩ := mem_run_boundary h
  obtain ⟨n, x₁, y₁, rfl, hn, h⟩ := Re.mem_run_seqs_cons.1 h
  obtain ⟨m, x₂, y₂, rfl, hm, h⟩ := Re.mem_run_seqs_cons.1 h
  obtain ⟨k, x₃, y₃, rfl, hk, -⟩ := Re.mem_run_seqs_cons.1 h
  obtain ⟨⟨o, d, rfl, ho⟩, -⟩ := exists_run hk
  obtain rfl := (mem_run_text.1 hm).1
  have hname : ∃ n' ∈ ["sk_", "pk_", "ghp_", "gho_"], n ++ "_".toList = n'.toList := by
    rw [Re.mem_run_alts] at hn
    simp only [List.mem_cons, List.not_mem_nil, or_false, exists_eq_or_imp, exists_eq_left,
      mem_run_text] at hn
    rcases hn with ⟨rfl, -⟩ | ⟨rfl, -⟩ | ⟨rfl, -⟩ | ⟨rfl, -⟩
    all_goals simp
  obtain ⟨n', hn', heq⟩ := hname
  refine ⟨_, List.mem_map_of_mem hn', [], n'.toList ++ o, d ++ y₃, fits_exactly.append ho, ?_⟩
  rw [← heq]
  simp

theorem privateKey_contains : (Re.seqs [text "-----BEGIN ", .opt (text "RSA "),
    text "PRIVATE KEY-----"]).Contains [privateKeyOpening] := by
  refine fun prev x y rest h => ⟨_, List.mem_cons_self, ?_⟩
  obtain ⟨m, x₁, y₁, rfl, -, h⟩ := Re.mem_run_seqs_cons.1 h
  obtain ⟨k, x₂, y₂, rfl, -, h⟩ := Re.mem_run_seqs_cons.1 h
  rw [Re.run_seqs_singleton] at h
  obtain rfl := (mem_run_text.1 h).1
  exact ⟨m ++ k, _, [], fits_exactly, by simp⟩

theorem awsKey_contains : (Re.seqs [wordBoundary uni, text "AKIA",
    .many (fun c => isDigit c || isUpper c) 16 (some 16), wordBoundary uni]).Contains
      [awsKeyOpening] := by
  refine fun prev x y rest h => ⟨_, List.mem_cons_self, ?_⟩
  obtain ⟨prev, h⟩ := mem_run_boundary h
  obtain ⟨m, x₁, y₁, rfl, hm, h⟩ := Re.mem_run_seqs_cons.1 h
  obtain ⟨k, x₂, y₂, rfl, hk, -⟩ := Re.mem_run_seqs_cons.1 h
  obtain ⟨-, hall, hlen, hle⟩ := Re.mem_run_many.1 hk
  obtain rfl := (mem_run_text.1 hm).1
  exact ⟨[], "AKIA".toList ++ k, y₂,
    fits_exactly.append (fits_replicate hall (le_antisymm (hle 16 rfl) hlen)), by simp⟩

/-- Characters of base 64, of which hexadecimal digits are some. -/
def isBase64 (c : Char) : Bool := isAlnum c || c = '+' || c = '/'

/-- A run that the last patterns take. -/
def runOpening : Shape Char := List.replicate 32 isBase64

end tokens

/-- The texts that are put in. -/
def placeholderTexts : List String :=
  ["=<REDACTED>", "<TG_TOKEN_REDACTED>", "<JWT_REDACTED>", "<SECRET_REDACTED>",
    "<PRIVATE_KEY_REDACTED>", "<AWS_KEY_REDACTED>", "aws_secret_access_key=<REDACTED>",
    "<REDACTED>", "<ENV_REDACTED>"]

/-! ## All static patterns -/

section profiles

variable (uni : Unicode) (w t : List Char)

/-- A pattern that runs on from a name. -/
def assigned (s : Rule Char) (ns : List String) (rest : Re Char) (stops : Char → Char → Bool) :
    Profile Char := .running '>' s (names uni ns) (names uni ns) rest stops w t

/-- The patterns before the one of AWS secrets. -/
def firstProfiles : List (Profile Char) :=
  [assigned uni w t (authorization uni) authorizationNames (authorizationRest uni) (spaceStops uni),
    .matching (telegramToken uni) [telegramOpening uni] w t,
    .matching (jwt uni) [jwtOpening] w t,
    .matching (prefixedToken uni) prefixedOpenings w t,
    .running '>' (assignment uni) (names uni assignmentNames)
      ((names uni assignmentNames).map (· ++ exactly "=")) (assignmentRest uni) (spaceStops uni) w t,
    .matching privateKey [privateKeyOpening] w t,
    .matching (awsKey uni) [awsKeyOpening] w t]

def awsProfile : Profile Char :=
  assigned uni w t (awsSecret uni) ["aws_secret_access_key"] (awsSecretRest uni) (spaceStops uni)

def passwordProfile : Profile Char :=
  assigned uni w t (password uni) passwordNames (passwordRest uni) (valueStops uni)

def databaseUrlProfile : Profile Char :=
  assigned uni w t (databaseUrl uni) schemes databaseUrlRest atStops

/-- The static patterns in their order, each with what it opens with and where it may end. -/
def profiles : List (Profile Char) :=
  firstProfiles uni w t ++ [awsProfile uni w t, passwordProfile uni w t, databaseUrlProfile uni w t]

/-- If no pattern before has anything to put in, a pattern cuts in the text as it is. -/
def staticProfiles : List (Profile Char) := (profiles uni w t).map (·.exact w t)

/-- The patterns of some values. -/
def valueProfiles (values : List String) : List (Profile Char) :=
  values.map fun v =>
    (Profile.literal '>' v.toList "<ENV_REDACTED>".toList w).exact w t

def allProfiles (values : List String) : List (Profile Char) :=
  staticProfiles uni w t ++ valueProfiles w t values

theorem map_rule_allProfiles (values : List String) :
    (allProfiles uni w t values).map Profile.rule =
      staticPatterns uni ++ values.map valuePattern := by
  rw [allProfiles, List.map_append, valueProfiles, List.map_map]
  rfl

end profiles

/-! ## What is put in -/

section puts

variable {uni : Unicode}

/-- The placeholders that the patterns put in before the one of AWS secrets does. -/
def firstTexts : List String :=
  ["=<REDACTED>", "<TG_TOKEN_REDACTED>", "<JWT_REDACTED>", "<SECRET_REDACTED>",
    "<PRIVATE_KEY_REDACTED>", "<AWS_KEY_REDACTED>"]

theorem firstTexts_subset : firstTexts ⊆ placeholderTexts := by decide

/-- Every placeholder ends with the same mark and consists of characters of ASCII. -/
theorem placeholderText_eq : ∀ new ∈ placeholderTexts, new.toList.getLast? = some '>' ∧
    (new.toList.all fun c => c.toNat < 0x80) = true := by decide +kernel

theorem ascii_of_mem {new : String} (hnew : new ∈ placeholderTexts) {c : Char}
    (hc : c ∈ new.toList) : c.toNat < 0x80 :=
  of_decide_eq_true (List.all_eq_true.1 (placeholderText_eq new hnew).2 c hc)

/-- **A name that is in no placeholder**, read without regard to case. -/
theorem apart_letters (huni : uni.Documented) {n new : String} (hnew : new ∈ placeholderTexts)
    (h : Apart '>' (n.toList.map fun l c => c = l || c.toLower = l) new.toList) :
    Apart '>' (letters uni n) new.toList := by
  refine h.map_mono fun l c hc hread => ?_
  rcases Bool.or_eq_true_iff.1 hread with heq | hread
  · rw [heq]
    rfl
  · have hlower := huni.ignoreCase c l (ascii_of_mem hnew hc) hread
    rw [Bool.or_eq_true_iff]
    exact .inr (decide_eq_true hlower)

theorem lowered_apart : ∀ ns ∈ [authorizationNames, assignmentNames, passwordNames, schemes],
    ∀ n ∈ ns, n ≠ "" ∧ ∀ new ∈ placeholderTexts,
      Apart '>' (n.toList.map fun l c => c = l || c.toLower = l) new.toList := by
  decide +kernel

theorem letters_ne_nil {n : String} (hn : n ≠ "") : letters uni n ≠ [] := by
  intro hnil
  exact hn (String.toList_eq_nil_iff.1 (List.map_eq_nil_iff.1 hnil))

theorem names_apart (huni : uni.Documented) :
    ∀ ns ∈ [authorizationNames, assignmentNames, passwordNames, schemes], ∀ e ∈ names uni ns,
      e ≠ [] ∧ ∀ new ∈ placeholderTexts, Apart '>' e new.toList := by
  intro ns hns e he
  obtain ⟨n, hn, rfl⟩ := List.mem_map.1 he
  obtain ⟨hne, hapart⟩ := lowered_apart ns hns n hn
  exact ⟨letters_ne_nil hne, fun new hnew => apart_letters huni hnew (hapart new hnew)⟩

theorem letters_avoid (huni : uni.Documented) {n : String} {c : Char} (hc : c.toNat < 0x80)
    (hlower : c.toLower = c) (hn : c ∉ n.toList) : ∀ p ∈ letters uni n, p c = false := by
  intro p hp
  obtain ⟨l, hl, rfl⟩ := List.mem_map.1 hp
  rw [Bool.or_eq_false_iff, decide_eq_false_iff_not]
  constructor
  · rintro rfl
    exact hn hl
  · by_contra hread
    have heq := huni.ignoreCase c l hc (eq_true_of_ne_false hread)
    rw [hlower] at heq
    exact hn (heq ▸ hl)

theorem awsName_lowered_apart : ∀ new ∈ firstTexts,
    Apart '>' ("aws_secret_access_key".toList.map fun l c => c = l || c.toLower = l)
      new.toList := by
  decide +kernel

theorem awsName_apart (huni : uni.Documented) : ∀ e ∈ names uni ["aws_secret_access_key"],
    e ≠ [] ∧ ∀ new ∈ firstTexts, Apart '>' e new.toList := by
  intro e he
  rw [List.mem_singleton.1 he]
  refine ⟨letters_ne_nil (by decide), fun new hnew => ?_⟩
  exact apart_letters huni (firstTexts_subset hnew) (awsName_lowered_apart new hnew)

theorem tokens_apart : ∀ es ∈ [[jwtOpening], prefixedOpenings, [privateKeyOpening],
    [awsKeyOpening]], ∀ e ∈ es, ∀ new ∈ firstTexts, Apart '>' e new.toList := by
  decide +kernel

theorem telegramOpening_apart (huni : uni.Documented) :
    ∀ e ∈ [telegramOpening uni], ∀ new ∈ firstTexts, Apart '>' e new.toList := by
  intro e he new hnew
  have hshape : ∀ digit : Char → Bool, List.replicate 6 digit ++
      (exactly ":" ++ List.replicate 30 isTokenChar) =
        (List.replicate 6 none ++ (exactly ":" ++ List.replicate 30 isTokenChar).map some).map
          fun o => Option.getD o digit := by
    intro digit
    rw [List.map_append, List.map_replicate, List.map_map]
    exact congrArg _ (List.map_id _).symm
  have hascii : Apart '>' (List.replicate 6 isDigit ++
      (exactly ":" ++ List.replicate 30 isTokenChar)) new.toList := by
    revert new
    decide +kernel
  rw [hshape] at hascii
  rw [List.mem_singleton.1 he, telegramOpening, hshape]
  refine hascii.map_mono fun o c hc htrue => ?_
  cases o with
  | some p => exact htrue
  | none => exact (huni.decimal c (ascii_of_mem (firstTexts_subset hnew) hc)).symm.trans htrue

end puts

/-! ## One pattern after another -/

section after

variable {uni : Unicode} {w t u v : List Char}

/-- The profile shows its openings, none of which contains the mark, and puts in placeholders of
`news`. -/
structure Opener (news : List String) (s : Profile Char) : Prop where
  shows : ∀ x, Shows s.openings (s.rule.pieces x)
  avoids : ∀ e ∈ s.openings, ∀ p ∈ e, p '>' = false
  puts : ∀ new ∈ s.rule.puts, ∃ n ∈ news, n.toList = new

/-- The profile may come after whatever puts in placeholders of `news`. -/
structure Follower (w t : List Char) (news : List String) (k : Profile Char) : Prop where
  after : ∀ s, Opener news s → s.After w t k
  apart : ∀ e ∈ k.begins, ∀ new ∈ news, Apart '>' e new.toList

section kinds

variable {news : List String} {s : Profile Char}

theorem Opener.sealed (hs : Opener news s) (hnews : news ⊆ placeholderTexts) :
    ∀ new ∈ s.rule.puts, new.getLast? = some '>' := by
  intro new hnew
  obtain ⟨n, hn, rfl⟩ := hs.puts new hnew
  exact (placeholderText_eq n (hnews hn)).1

theorem opener_of_puts {new : String} (hshows : ∀ x, Shows s.openings (s.rule.pieces x))
    (havoids : ∀ e ∈ s.openings, ∀ p ∈ e, p '>' = false) (h : s.rule.puts = [new.toList])
    (hnew : new ∈ news) : Opener news s where
  shows := hshows
  avoids := havoids
  puts := by
    rw [h]
    exact List.forall_mem_singleton.2 ⟨new, hnew, rfl⟩

theorem follower_of_names (hnews : news ⊆ placeholderTexts) {ns : List String}
    (h : ∀ e ∈ names uni ns, e ≠ [] ∧ ∀ new ∈ news, Apart '>' e new.toList)
    {r : Rule Char} {os : List (Shape Char)} {rest : Re Char} {stops : Char → Char → Bool} :
    Follower w t news (.running '>' r (names uni ns) os rest stops w t) where
  after s hs := after_running hs.shows hs.avoids (hs.sealed hnews) fun e he => by
    refine ⟨(h e he).1, fun new hnew => ?_⟩
    obtain ⟨n, hn, rfl⟩ := hs.puts new hnew
    exact (h e he).2 n hn
  apart e he := (h e he).2

theorem follower_of_token {re : Re Char} {new : List Char} {os : List (Shape Char)}
    (hre : re.avoids '>') (h : ∀ e ∈ os, ∀ new ∈ firstTexts, Apart '>' e new.toList) :
    Follower w t firstTexts (.matching [⟨re, some new⟩] os w t) where
  after _ hs := after_matching hre hs.shows (hs.sealed firstTexts_subset)
  apart := h

end kinds

theorem firstProfiles_open (huni : uni.Documented) :
    ∀ s ∈ firstProfiles uni w t, Opener firstTexts s := by
  have hnames : ∀ ns ∈ [authorizationNames, assignmentNames, passwordNames, schemes],
      ∀ e ∈ names uni ns, ∀ p ∈ e, p '>' = false := fun ns hns e he =>
    ((names_apart huni ns hns e he).2 "<REDACTED>" (by decide)).avoids
  have htokens : ∀ es ∈ [[jwtOpening], prefixedOpenings, [privateKeyOpening], [awsKeyOpening]],
      ∀ e ∈ es, ∀ p ∈ e, p '>' = false := fun es hes e he =>
    (tokens_apart es hes e he "=<REDACTED>" (by decide)).avoids
  have htelegram : ∀ e ∈ [telegramOpening uni], ∀ p ∈ e, p '>' = false := fun e he =>
    (telegramOpening_apart huni e he "=<REDACTED>" (by decide)).avoids
  have hassigned : ∀ e ∈ (names uni assignmentNames).map (· ++ exactly "="), ∀ p ∈ e,
      p '>' = false := by
    rw [List.forall_mem_map]
    exact fun e he => List.forall_mem_append.2 ⟨hnames _ (by simp) e he, by decide⟩
  simp only [firstProfiles, List.forall_mem_cons]
  exact ⟨opener_of_puts authorization_found.shows (hnames _ (by simp)) rfl (by decide),
    opener_of_puts (shows_of_single telegramToken_contains) htelegram rfl (by decide),
    opener_of_puts (shows_of_single jwt_contains) (htokens [jwtOpening] (by simp)) rfl (by decide),
    opener_of_puts (shows_of_single prefixedToken_contains) (htokens prefixedOpenings (by simp)) rfl
      (by decide),
    opener_of_puts assignment_shows hassigned rfl (by decide),
    opener_of_puts (shows_of_single privateKey_contains) (htokens [privateKeyOpening] (by simp)) rfl
      (by decide),
    opener_of_puts (shows_of_single awsKey_contains) (htokens [awsKeyOpening] (by simp)) rfl
      (by decide), by simp⟩

theorem awsProfile_opens (huni : uni.Documented) : Opener placeholderTexts (awsProfile uni w t) :=
  opener_of_puts awsSecret_found.shows
    (fun e he => ((awsName_apart huni e he).2 "=<REDACTED>" (by decide)).avoids) rfl (by decide)

theorem passwordProfile_opens (huni : uni.Documented) :
    Opener placeholderTexts (passwordProfile uni w t) :=
  opener_of_puts password_found.shows (fun e he =>
    ((names_apart huni passwordNames (by simp) e he).2 "<REDACTED>" (by decide)).avoids) rfl
      (by decide)

theorem profiles_follow_first (huni : uni.Documented) :
    ∀ k ∈ profiles uni w t, Follower w t firstTexts k := by
  have hnames : ∀ ns ∈ [authorizationNames, assignmentNames, passwordNames, schemes],
      ∀ e ∈ names uni ns, e ≠ [] ∧ ∀ new ∈ firstTexts, Apart '>' e new.toList :=
    fun ns hns e he => ⟨(names_apart huni ns hns e he).1, fun new hnew =>
      (names_apart huni ns hns e he).2 new (firstTexts_subset hnew)⟩
  have hnamed := fun {ns} hns {r os rest stops} => @follower_of_names uni w t firstTexts
    firstTexts_subset ns (hnames ns hns) r os rest stops
  have hdecimal : uni.isDecimal '>' = false := (huni.decimal '>' (by decide)).trans (by decide)
  simp only [profiles, firstProfiles, List.cons_append, List.nil_append, List.forall_mem_cons]
  refine ⟨hnamed (by decide), follower_of_token ?_ (telegramOpening_apart huni),
    follower_of_token rfl (tokens_apart _ (by simp)),
    follower_of_token rfl (tokens_apart _ (by simp)), hnamed (by decide),
    follower_of_token rfl (tokens_apart _ (by simp)),
    follower_of_token rfl (tokens_apart _ (by simp)),
    follower_of_names firstTexts_subset (awsName_apart huni), hnamed (by decide),
    hnamed (by decide), by simp⟩
  simp only [Re.seqs, Re.avoids, hdecimal]
  rfl

theorem follow_any (huni : uni.Documented) :
    ∀ k ∈ [passwordProfile uni w t, databaseUrlProfile uni w t],
      Follower w t placeholderTexts k := by
  simp only [List.forall_mem_cons]
  exact ⟨follower_of_names (List.Subset.refl _) (names_apart huni _ (by simp)),
    follower_of_names (List.Subset.refl _) (names_apart huni _ (by simp)), by simp⟩

/-- **Each static pattern after those before it.** -/
theorem profiles_follow (huni : uni.Documented) : (profiles uni w t).Pairwise fun s k =>
    ∃ news, Opener news s ∧ Follower w t news k := by
  rw [profiles, List.pairwise_append]
  refine ⟨List.pairwise_of_forall_mem_list fun s hs k hk => ?_, ?_, fun s hs k hk => ?_⟩
  · exact ⟨firstTexts, firstProfiles_open huni s hs,
      profiles_follow_first huni k (List.mem_append_left _ hk)⟩
  · refine .cons (fun k hk => ⟨_, awsProfile_opens huni, follow_any huni k hk⟩) ?_
    refine .cons (fun k hk => ⟨_, passwordProfile_opens huni, ?_⟩) (List.pairwise_singleton _ _)
    exact follow_any huni k (List.mem_cons_of_mem _ hk)
  · exact ⟨firstTexts, firstProfiles_open huni s hs,
      profiles_follow_first huni k (List.mem_append_right _ hk)⟩

end after

/-! ## Matches -/

section found

variable {uni : Unicode} {w t u v x : List Char} {values : List String}

theorem forall_mem_allProfiles {P : Profile Char → Prop} :
    (∀ k ∈ allProfiles uni w t values, P k) ↔ (∀ k ∈ profiles uni w t, P (k.exact w t)) ∧
      ∀ y ∈ values, P ((Profile.literal '>' y.toList "<ENV_REDACTED>".toList w).exact w t) := by
  rw [allProfiles, List.forall_mem_append, staticProfiles, valueProfiles, List.forall_mem_map,
    List.forall_mem_map]

/-- Where something is put in, a pattern has opened. -/
theorem openings_of_put : ∀ k ∈ allProfiles uni w t values, ∀ x old new,
    .put old new ∈ k.rule.pieces x → Opened k.openings x := by
  rw [forall_mem_allProfiles]
  constructor
  · simp only [profiles, firstProfiles, List.cons_append, List.nil_append, List.forall_mem_cons]
    exact ⟨fun x _ _ => authorization_found.opened_of_put,
      fun x _ _ => (shows_of_single telegramToken_contains x).opened_of_put,
      fun x _ _ => (shows_of_single jwt_contains x).opened_of_put,
      fun x _ _ => (shows_of_single prefixedToken_contains x).opened_of_put,
      fun x _ _ => (assignment_shows x).opened_of_put,
      fun x _ _ => (shows_of_single privateKey_contains x).opened_of_put,
      fun x _ _ => (shows_of_single awsKey_contains x).opened_of_put,
      fun x _ _ => awsSecret_found.opened_of_put, fun x _ _ => password_found.opened_of_put,
      fun x _ _ => databaseUrl_found.opened_of_put, by simp⟩
  · exact fun y _ x old new => (shows_replacing x).opened_of_put

theorem untouched_of_openings : ∀ k ∈ allProfiles uni w t values, ¬Opened k.openings x →
    k.rule.untouched x := by
  intro k hk hclosed
  exact untouched_iff.2 fun old new hmem => hclosed (openings_of_put k hk x old new hmem)

theorem puts_of_mem : ∀ k ∈ allProfiles uni w t values, ∃ new ∈ placeholderTexts,
    k.rule.puts = [new.toList] := by
  rw [forall_mem_allProfiles]
  constructor
  · simp only [profiles, firstProfiles, List.cons_append, List.nil_append, List.forall_mem_cons]
    exact ⟨⟨"=<REDACTED>", by decide, rfl⟩, ⟨"<TG_TOKEN_REDACTED>", by decide, rfl⟩,
      ⟨"<JWT_REDACTED>", by decide, rfl⟩, ⟨"<SECRET_REDACTED>", by decide, rfl⟩,
      ⟨"=<REDACTED>", by decide, rfl⟩, ⟨"<PRIVATE_KEY_REDACTED>", by decide, rfl⟩,
      ⟨"<AWS_KEY_REDACTED>", by decide, rfl⟩,
      ⟨"aws_secret_access_key=<REDACTED>", by decide, rfl⟩, ⟨"=<REDACTED>", by decide, rfl⟩,
      ⟨"<REDACTED>", by decide, rfl⟩, by simp⟩
  · exact fun y _ => ⟨"<ENV_REDACTED>", by decide, rfl⟩

theorem crosses_of_cuts (ht : t ≠ []) :
    ∀ k ∈ profiles uni w t, Cuts k.rule u w t v → k.crosses [] u v := by
  simp only [profiles, firstProfiles, List.cons_append, List.nil_append, List.forall_mem_cons]
  exact ⟨running_of_cuts ht authorization_found, matching_of_cuts, matching_of_cuts,
    matching_of_cuts, running_of_cuts ht assignment_found, matching_of_cuts, matching_of_cuts,
    running_of_cuts ht awsSecret_found, running_of_cuts ht password_found,
    running_of_cuts ht databaseUrl_found, by simp⟩

theorem crosses_of_leaves (ht : t ≠ []) (hvalues : ∀ y ∈ values, y.toList ≠ []) :
    ∀ k ∈ allProfiles uni w t values, Leaves k.rule u w t v → k.crosses [] u v := by
  rw [forall_mem_allProfiles]
  constructor
  · exact fun k hk => exact_of_leaves (crosses_of_cuts ht k hk)
  · exact fun y hy => exact_of_leaves (k := .literal '>' y.toList _ w)
      (literal_of_cuts (hvalues y hy))

/-- Where a static pattern may cut, there is what it begins with. -/
theorem begins_of_static_crosses {es : List (Shape Char)} : ∀ k ∈ profiles uni w t,
    k.crosses es u v → Opened k.begins (u ++ w) := by
  simp only [profiles, firstProfiles, List.cons_append, List.nil_append, List.forall_mem_cons]
  exact ⟨running_opened, matching_opened telegramToken_contains, matching_opened jwt_contains,
    matching_opened prefixedToken_contains, running_opened, matching_opened privateKey_contains,
    matching_opened awsKey_contains, running_opened, running_opened, running_opened, by simp⟩

theorem begins_of_crosses (hmark : ∀ y ∈ values, '>' ∉ y.toList) {es : List (Shape Char)} :
    ∀ k ∈ allProfiles uni w t values, k.crosses es u v → Opened k.begins (u ++ w) := by
  rw [forall_mem_allProfiles]
  constructor
  · exact fun k hk hcross => begins_of_static_crosses k hk hcross.1
  · rintro y hy ⟨⟨f, c, rfl, -, hends⟩, -⟩
    have hprefix : u ++ f <:+: u ++ (f ++ c) := by
      rw [← List.append_assoc]
      exact (List.prefix_append _ _).isInfix
    exact ⟨_, List.mem_cons_self, occurs_same.2 ((hends.suffix (hmark y hy)).isInfix.trans hprefix)⟩

theorem leaves_of_crosses {es : List (Shape Char)} : ∀ k ∈ allProfiles uni w t values,
    k.crosses es u v → Opened es (u ++ (w ++ t) ++ v) ∨ Leaves k.rule u w t v := by
  rw [forall_mem_allProfiles]
  exact ⟨fun _ _ hcross => hcross.2, fun _ _ hcross => hcross.2⟩

/-- **All patterns up to some values**, each after those before it. -/
theorem allProfiles_after (huni : uni.Documented) :
    (allProfiles uni w t values).Pairwise (Profile.After w t) := by
  have hopened := @openings_of_put uni w t values
  have hsealed : ∀ s ∈ allProfiles uni w t values, ∀ new ∈ s.rule.puts,
      new.getLast? = some '>' := by
    intro s hs new hnew
    obtain ⟨n, hn, heq⟩ := puts_of_mem s hs
    rw [heq] at hnew
    rw [List.mem_singleton.1 hnew]
    exact (placeholderText_eq n hn).1
  have hvalue : ∀ s ∈ allProfiles uni w t values, ∀ k ∈ valueProfiles w t values,
      s.After w t k := by
    intro s hs k hk
    obtain ⟨y, -, rfl⟩ := List.mem_map.1 hk
    exact after_restrict (hopened s hs) (after_literal (hsealed s hs))
  rw [allProfiles, List.pairwise_append]
  refine ⟨?_, List.pairwise_of_forall_mem_list fun s hs => hvalue s (List.mem_append_right _ hs),
    fun s hs => hvalue s (List.mem_append_left _ hs)⟩
  rw [staticProfiles, List.pairwise_map]
  refine (profiles_follow huni).imp ?_
  rintro s k ⟨news, hs, hk⟩
  exact after_restrict (fun x _ _ => (hs.shows x).opened_of_put) (hk.after s hs)

end found

end Observatory.Redaction
