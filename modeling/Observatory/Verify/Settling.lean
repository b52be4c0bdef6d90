import Observatory.Data.Weighing
import Observatory.Verify.Patterns
import Observatory.Verify.Redaction

/-!
# Redacting again

Contents that have been redacted are redacted again whenever they are read, and the result is
stored.  A placeholder and the text after it can be a match of an earlier pattern, so what is stored
may change with a read (`reread_changes`).  It stays as it is exactly if all that the patterns find
in it are the placeholders they would put there: every other match lowers the weight of the text, if
a placeholder weighs less than any string it can stand for (`patterns_lower`).
-/

namespace Observatory.Redaction

open Regex

/-! ## Weights -/

/-- The placeholders. -/
def marks : List (List Char) :=
  ["<REDACTED>", "<TG_TOKEN_REDACTED>", "<JWT_REDACTED>", "<SECRET_REDACTED>",
    "<PRIVATE_KEY_REDACTED>", "<AWS_KEY_REDACTED>", "<ENV_REDACTED>"].map String.toList

/-- The characters of what is put in before a placeholder. -/
def lights : List Char := "aws_secret_access_key=".toList

/-- Characters around the values that are replaced. -/
def specials : List Char := [':', '=', '@', '\'', '"', ';', 'a']

/-- What a placeholder consists of. -/
theorem mark_eq : ∀ m ∈ marks, (m = '<' :: (m.tail.dropLast ++ ['>']) ∧
      '<' ∉ m.tail.dropLast ∧ '>' ∉ m.tail.dropLast) ∧
    (m.length < 23 ∧ ¬"AKIA".toList <:+: m) ∧ (specials.all fun c => c ∉ m) = true ∧
    (m.all fun d => 0x20 < d.toNat && d.toNat < 0x80) = true := by decide +kernel

/-- The placeholder of assigned values weighs least. -/
def scale : Scale Char where
  opener := '<'
  closer := '>'
  marks := marks
  char c := if c ∈ lights then 3 else 4
  mark m := if m = "<REDACTED>".toList then 1 else 2
  opener_ne_closer := by decide
  shape m hm := ⟨m.tail.dropLast, (mark_eq m hm).1⟩
  char_pos c := by split <;> decide
  mark_pos m _ := by split <;> decide

/-- The character is in no placeholder. -/
def Free (c : Char) : Prop := ∀ m ∈ marks, c ∉ m

theorem free_of_mem {c : Char} (hc : c ∈ specials) : Free c := by
  intro m hm
  obtain ⟨-, -, hfree, -⟩ := mark_eq m hm
  simp only [List.all_eq_true, decide_eq_true_eq] at hfree
  exact hfree c hc

theorem free_of_isSpace {uni : Unicode} (huni : uni.Documented) {c : Char}
    (hc : uni.isSpace c = true) : Free c := by
  intro m hm hmem
  obtain ⟨-, -, -, hascii⟩ := mark_eq m hm
  simp only [List.all_eq_true, Bool.and_eq_true, decide_eq_true_eq] at hascii
  obtain ⟨hlow, hhigh⟩ := hascii c hmem
  rw [huni.space c hlow hhigh] at hc
  cases hc

theorem three_le_char (c : Char) : 3 ≤ scale.char c := by
  simp only [scale]
  split <;> decide

theorem weigh_mark : (∀ m ∈ marks, scale.weigh m ≤ 2) ∧ scale.weigh "<REDACTED>".toList = 1 ∧
    scale.weigh "=<REDACTED>".toList = 4 ∧ scale.char ':' = 4 := by decide

theorem closed_of_mark {m : List Char} (hm : m ∈ marks) : scale.Closed m := by
  obtain ⟨⟨hshape, -⟩, -⟩ := mark_eq m hm
  refine Scale.Closed.of_ends (.inl rfl) (.inl rfl) ?_ ?_
  · rw [hshape]
    rfl
  · rw [hshape, ← List.cons_append, List.getLast?_concat]
    rfl

theorem closed_assigned : scale.Closed "=<REDACTED>".toList :=
  Scale.Closed.of_ends (c := '=') (d := '>') (.inr (free_of_mem (by decide))) (.inl rfl)
    (by simp) (by simp)

/-- Only the placeholder of assigned values weighs as little as that. -/
theorem eq_or_lt_weigh {x : List Char} (hx : x ≠ []) :
    "<REDACTED>".toList = x ∨ 1 < scale.weigh x := by
  cases x with
  | nil => exact (hx rfl).elim
  | cons c x =>
    rcases @Scale.weigh_cases Char scale _ c x with ⟨m, hm, y, hy, hw⟩ | hw
    · have hmark : scale.mark m = if m = "<REDACTED>".toList then 1 else 2 := rfl
      by_cases hm' : m = "<REDACTED>".toList
      · by_cases hzero : scale.weigh y = 0
        · left
          rw [hy, hm', Scale.eq_nil_of_weigh hzero, List.append_nil]
        · rw [if_pos hm'] at hmark
          right
          omega
      · rw [if_neg hm'] at hmark
        right
        omega
    · have hchar := three_le_char c
      right
      omega

/-! ## Strings that are no part of a placeholder -/

/-- The string begins and ends with something that is part of no placeholder. -/
structure Recognizable (x : List Char) : Prop where
  start : ∃ t, t <+: x ∧ '>' ∉ t ∧ ∀ m ∈ marks, ¬t <:+: m
  stop : ∃ t, t <:+ x ∧ '<' ∉ t ∧ ∀ m ∈ marks, ¬t <:+: m

theorem Recognizable.of_apart {x : List Char} (hopener : '<' ∉ x) (hcloser : '>' ∉ x)
    (hpart : ∀ m ∈ marks, ¬x <:+: m) : Recognizable x :=
  ⟨⟨x, List.prefix_refl x, hcloser, hpart⟩, ⟨x, List.suffix_refl x, hopener, hpart⟩⟩

/-- No placeholder is as long as this. -/
theorem not_part_of_long {x : List Char} (hx : 23 ≤ x.length) : ∀ m ∈ marks, ¬x <:+: m := by
  intro m hm hin
  obtain ⟨-, ⟨hlt, -⟩, -⟩ := mark_eq m hm
  have hlen := hin.length_le
  omega

theorem Recognizable.two_lt {x : List Char} (h : Recognizable x) : 2 < scale.weigh x := by
  obtain ⟨t, ht, hcloser, hpart⟩ := h.start
  cases x with
  | nil =>
    obtain rfl := List.prefix_nil.1 ht
    exact (hpart _ List.mem_cons_self List.nil_infix).elim
  | cons c x =>
    rcases @Scale.weigh_cases Char scale _ c x with ⟨m, hm, y, hy, -⟩ | hw
    · -- the placeholder would be part of the start, or the start of it
      rcases List.prefix_or_prefix_of_prefix ht ⟨y, hy.symm⟩ with htm | hmt
      · exact (hpart m hm htm.isInfix).elim
      · refine (hcloser (hmt.subset ?_)).elim
        rw [(mark_eq m hm).1.1]
        simp
    · have hchar := three_le_char c
      omega

/-- **Expressions that match nothing of a placeholder** lower what they change. -/
theorem lowers_of_recognizable {re : Re Char} {new : List Char} (hnew : new ∈ marks)
    (h : ∀ prev x y, y ∈ re.run prev x → Recognizable y.1) :
    Rule.Lowers scale [⟨re, some new⟩] := by
  refine Rule.Lowers.of_match fun prev x y hy u => ?_
  have hrec := h _ _ _ (List.mem_of_head? hy)
  obtain ⟨t, ht, hcloser, hpart⟩ := hrec.start
  obtain ⟨t', ht', hopener, hpart'⟩ := hrec.stop
  have hless := weigh_mark.1 _ hnew
  have hmore := hrec.two_lt
  exact ⟨Scale.not_straddles_of_prefix hpart hcloser (ht.trans (List.prefix_append _ _)),
    Scale.not_straddles_of_suffix hpart' hopener (ht'.trans (List.suffix_append _ _)),
    closed_of_mark hnew, .inr (by omega)⟩

theorem lowers_of_long {re : Re Char} {new : List Char} (hnew : new ∈ marks)
    (hopener : re.avoids '<') (hcloser : re.avoids '>') (hlong : 23 ≤ re.least) :
    Rule.Lowers scale [⟨re, some new⟩] :=
  lowers_of_recognizable hnew fun _ _ _ hy => Recognizable.of_apart
    (Re.notMem_of_avoids hopener hy) (Re.notMem_of_avoids hcloser hy)
    (not_part_of_long (hlong.trans (Re.least_le hy)))

/-! ## Assigned values -/

section assigned

variable {uni : Unicode} (huni : uni.Documented) {n sp tail rest new : List Char} {sep : Char}

/-- No placeholder is cut between the text and the rest. -/
def Ends (x rest : List Char) : Prop :=
  (∃ c, x.getLast? = some c ∧ Free c) ∨ ∀ c ∈ rest.head?, Free c

theorem Ends.not_straddles {x u : List Char} (h : Ends x rest) :
    ¬scale.Straddles (u ++ x) rest := by
  rcases h with ⟨c, hx, hc⟩ | hc
  · exact Scale.not_straddles_of_last (.inr hc) (by rw [List.getLast?_append, hx]; rfl)
  · cases rest with
    | nil => exact Scale.not_straddles_nil
    | cons c rest => exact Scale.not_straddles_of_head (.inr (hc c rfl)) rfl

theorem free_sep (hsep : sep ∈ [':', '=']) : Free sep :=
  free_of_mem ((by decide : [':', '='] ⊆ specials) hsep)

include huni

theorem notMem_spaces {c : Char} (hlow : 0x20 < c.toNat) (hhigh : c.toNat < 0x80)
    (hsp : ∀ d ∈ sp, uni.isSpace d = true) : c ∉ sp := by
  intro hmem
  have hspace := hsp c hmem
  rw [huni.space c hlow hhigh] at hspace
  cases hspace

/-- **A value behind a separator** weighs more than its placeholder. -/
theorem eq_or_lt_assigned (hsp : ∀ c ∈ sp, uni.isSpace c = true) (hsep : sep ∈ [':', '='])
    (htail : tail ≠ []) : "=<REDACTED>".toList = sp ++ sep :: tail ∨
      scale.weigh "=<REDACTED>".toList < scale.weigh (sp ++ sep :: tail) := by
  obtain ⟨-, hmark, hnew, hcolon⟩ := weigh_mark
  have hopener : scale.opener ∉ sp :=
    notMem_spaces huni (show 0x20 < '<'.toNat by decide) (by decide) hsp
  have hne : sep ≠ scale.opener := by
    rintro rfl
    revert hsep
    decide
  have hchar := three_le_char sep
  rw [Scale.weigh_append_of_notMem hopener, Scale.weigh_cons hne, hnew]
  rcases eq_or_lt_weigh htail with rfl | hlt
  · cases sp with
    | nil =>
      rcases List.mem_cons.1 hsep with rfl | hsep
      · right
        omega
      · left
        rw [List.mem_singleton.1 hsep]
        rfl
    | cons c sp =>
      right
      have hspace := three_le_char c
      rw [List.map_cons, List.sum_cons]
      omega
  · right
    omega

/-- No placeholder is cut where an assigned value is replaced. -/
theorem lowers_assigned (hn : '>' ∉ n) (hsp : ∀ c ∈ sp, uni.isSpace c = true)
    (hsep : sep ∈ [':', '=']) (hends : Ends (n ++ (sp ++ sep :: tail)) rest)
    (hnew : scale.Closed new) (hlower : new = n ++ (sp ++ sep :: tail) ∨
      scale.weigh new < scale.weigh (n ++ (sp ++ sep :: tail))) (u : List Char) :
    scale.Lowers u (n ++ (sp ++ sep :: tail)) new rest := by
  refine ⟨?_, hends.not_straddles, hnew, hlower⟩
  refine @Scale.not_straddles_of_prefix Char scale u _ (n ++ (sp ++ [sep])) ?_ ?_ ?_
  · intro m hm hin
    exact free_sep hsep m hm (hin.subset (by simp))
  · have hspaces : '>' ∉ sp := notMem_spaces huni (by decide) (by decide) hsp
    have hne : '>' ≠ sep := by
      rintro rfl
      revert hsep
      decide
    intro hmem
    rcases List.mem_append.1 hmem with hmem | hmem
    · exact hn hmem
    · rcases List.mem_append.1 hmem with hmem | hmem
      · exact hspaces hmem
      · exact hne (List.mem_singleton.1 hmem)
  · exact ⟨tail ++ rest, by simp⟩

end assigned

/-! ## Patterns of tokens -/

section tokens

variable {uni : Unicode}

theorem telegramToken_lowers (huni : uni.Documented) : (telegramToken uni).Lowers scale := by
  have hopener : uni.isDecimal '<' = false := (huni.decimal '<' (by decide)).trans (by decide)
  have hcloser : uni.isDecimal '>' = false := (huni.decimal '>' (by decide)).trans (by decide)
  refine lowers_of_long (List.mem_map_of_mem (by simp)) ?_ ?_ (Nat.le_of_ble_eq_true rfl)
  · simp only [Re.seqs, Re.avoids, hopener]
    rfl
  · simp only [Re.seqs, Re.avoids, hcloser]
    rfl

theorem jwt_lowers : (jwt uni).Lowers scale :=
  lowers_of_long (List.mem_map_of_mem (by simp)) rfl rfl (Nat.le_of_ble_eq_true rfl)

theorem prefixedToken_lowers : (prefixedToken uni).Lowers scale :=
  lowers_of_long (List.mem_map_of_mem (by simp)) rfl rfl (Nat.le_of_ble_eq_true rfl)

theorem privateKey_lowers : privateKey.Lowers scale :=
  lowers_of_long (List.mem_map_of_mem (by simp)) rfl rfl (Nat.le_of_ble_eq_true rfl)

/-- Some placeholders are longer than a key, but none contains the start of one. -/
theorem awsKey_lowers : (awsKey uni).Lowers scale := by
  refine lowers_of_recognizable (List.mem_map_of_mem (by simp)) fun prev x y hy => ?_
  refine Recognizable.of_apart (Re.notMem_of_avoids rfl hy) (Re.notMem_of_avoids rfl hy)
    fun m hm hin => (mark_eq m hm).2.1.2 (List.IsInfix.trans ?_ hin)
  obtain ⟨old, rest⟩ := y
  obtain ⟨m₁, x₁, m₂, rfl, -, h⟩ := Re.mem_run_seqs_cons.1 hy
  obtain ⟨m₃, x₂, m₄, rfl, htext, -⟩ := Re.mem_run_seqs_cons.1 h
  have hstart : m₃ = "AKIA".toList := (mem_run_text.1 htext).1
  exact ⟨m₁, m₄, by simp [hstart]⟩

theorem secretValuePatterns_lower : ∀ s ∈ secretValuePatterns uni, s.Lowers scale :=
  List.forall_mem_cons.2
    ⟨lowers_of_long (List.mem_map_of_mem (by simp)) rfl rfl (Nat.le_of_ble_eq_true rfl),
      List.forall_mem_singleton.2
        (lowers_of_long (List.mem_map_of_mem (by simp)) rfl rfl (Nat.le_of_ble_eq_true rfl))⟩

theorem valuePattern_lowers {v : String} (hv : Recognizable v.toList) :
    (valuePattern v).Lowers scale := by
  refine lowers_of_recognizable (List.mem_map_of_mem (by simp)) fun prev x y hy => ?_
  rw [(mem_run_text.1 hy).1]
  exact hv

end tokens

/-! ## Patterns of assigned values -/

section values

variable {uni : Unicode} {prev : Option Char} {x old rest : List Char} {rs : List (Re Char)}

/-- A separator and what is behind it. -/
theorem assigned_of_mem (hrs : 0 < (Re.seqs rs).least)
    (h : (old, rest) ∈ (Re.seqs (spaces uni :: oneOf ":=" :: rs)).run prev x) :
    ∃ sp sep tail, old = sp ++ sep :: tail ∧ (∀ c ∈ sp, uni.isSpace c = true) ∧
      sep ∈ [':', '='] ∧ tail ≠ [] := by
  obtain ⟨sp, x₁, m₁, rfl, hsp, h₁⟩ := Re.mem_run_seqs_cons.1 h
  obtain ⟨m₂, x₂, tail, rfl, hsep, h₂⟩ := Re.mem_run_seqs_cons.1 h₁
  obtain ⟨sep, hmem, hone, -⟩ := Re.mem_run_one.1 hsep
  have hlen := Re.least_le h₂
  refine ⟨sp, sep, tail, ?_, (Re.mem_run_many.1 hsp).2.1, ?_, ?_⟩
  · rw [show m₂ = [sep] from hone]
    rfl
  · simpa using hmem
  · exact List.length_pos_iff.1 (hrs.trans_le hlen)

variable (huni : uni.Documented)

include huni

/-- Behind as many characters as there are that are no space, there is one, or nothing. -/
theorem ends_of_nonSpaces
    (h : ((Re.seqs (rs ++ [nonSpaces uni])).run prev x).head? = some (old, rest)) :
    Ends old rest :=
  .inr fun c hc => free_of_isSpace huni (isSpace_of_nonSpaces h c hc)

/-- Behind a value in quotes there is a quote in it, or what cannot be part of it. -/
theorem ends_of_quoted (hne : old ≠ []) (h : ((Re.seqs (rs ++ [.many (fun c => !uni.isSpace c &&
    c ∉ ['\'', '"', ';']) 8 none, .opt (oneOf "'\"")])).run prev x).head? = some (old, rest)) :
    Ends old rest := by
  cases rest with
  | nil => exact .inr fun c hc => by cases hc
  | cons c rest =>
    have hlast := List.getLast?_eq_some_getLast hne
    have hstops := valueStops_of_quoted h _ hlast c rfl
    simp only [valueStops, Bool.or_eq_true, decide_eq_true_eq] at hstops
    rcases hstops with (hquote | hspace) | rfl
    · exact .inl ⟨_, hlast, free_of_mem ((by decide : ['\'', '"'] ⊆ specials) hquote)⟩
    · exact .inr fun d hd => by
        cases hd
        exact free_of_isSpace huni hspace
    · exact .inr fun d hd => by
        cases hd
        exact free_of_mem (by decide)

/-- A part that is put in behind a name. -/
theorem lowers_of_assigned (hrs : 0 < (Re.seqs rs).least) (hends : ∀ prev x old rest,
    ((Re.seqs (spaces uni :: oneOf ":=" :: rs)).run prev x).head? = some (old, rest) →
      Ends old rest) :
    Rule.Lowers scale [masked (spaces uni :: oneOf ":=" :: rs) "=<REDACTED>"] := by
  refine Rule.Lowers.of_match fun prev x y hy u => ?_
  obtain ⟨old, rest⟩ := y
  obtain ⟨sp, sep, tail, rfl, hsp, hsep, htail⟩ := assigned_of_mem hrs (List.mem_of_head? hy)
  exact @lowers_assigned uni huni [] sp tail rest _ sep (List.not_mem_nil) hsp hsep
    (hends _ _ _ _ hy) closed_assigned (eq_or_lt_assigned huni hsp hsep htail) u

theorem authorization_lowers : (authorization uni).Lowers scale :=
  Rule.Lowers.keep (lowers_of_assigned huni (Nat.lt_of_succ_le (Nat.le_of_ble_eq_true rfl))
    fun _ _ _ _ h => @ends_of_nonSpaces uni _ _ _ _ [spaces uni, oneOf ":=", spaces uni,
      .opt (.seqs [itext uni "bearer", .many uni.isSpace 1 none])] huni h)

theorem password_lowers : (password uni).Lowers scale := by
  refine Rule.Lowers.keep (lowers_of_assigned huni (Nat.lt_of_succ_le (Nat.le_of_ble_eq_true rfl))
    fun _ _ old _ h => ?_)
  have hlen : 0 < old.length :=
    Nat.lt_of_lt_of_le (Nat.lt_of_succ_le (Nat.le_of_ble_eq_true rfl))
      (Re.least_le (List.mem_of_head? h))
  exact @ends_of_quoted uni _ _ _ _ [spaces uni, oneOf ":=", spaces uni, .opt (oneOf "'\"")] huni
    (List.length_pos_iff.1 hlen) h

theorem assignment_lowers : (assignment uni).Lowers scale := by
  refine Rule.Lowers.keep (Rule.Lowers.of_match fun prev x y hy u => ?_)
  obtain ⟨old, rest⟩ := y
  obtain ⟨m, x₁, tail, rfl, htext, htail⟩ := Re.mem_run_seqs_cons.1 (List.mem_of_head? hy)
  obtain rfl : m = ['='] := (mem_run_text.1 htext).1
  have hlen := Re.least_le htail
  have hsep : '=' ∈ [':', '='] := by decide
  exact @lowers_assigned uni huni [] [] tail rest _ '=' (List.not_mem_nil)
    (fun _ h => (List.not_mem_nil h).elim) hsep
    (@ends_of_nonSpaces uni _ _ _ _ [text "="] huni hy) closed_assigned
    (eq_or_lt_assigned huni (fun _ h => (List.not_mem_nil h).elim) hsep
      (List.length_pos_iff.1 hlen)) u

omit huni in
theorem toLower_of_mem_lights {c : Char} (hc : c ∈ lights) : c.toNat < 0x80 ∧ c.toLower = c := by
  have hlights : lights.all fun c => c.toNat < 0x80 && c.toLower = c := by rfl
  simp only [List.all_eq_true, Bool.and_eq_true, decide_eq_true_eq] at hlights
  exact hlights c hc

/-- **The name in lower case** weighs least. -/
theorem Reads.sum_le {n ls : List Char} (h : Reads uni n ls) (hls : ls ⊆ lights) :
    (ls.map scale.char).sum ≤ (n.map scale.char).sum ∧
      ((ls.map scale.char).sum = (n.map scale.char).sum → n = ls) := by
  induction h with
  | nil => exact ⟨le_rfl, fun _ => rfl⟩
  | @cons c l n ls hc h ih =>
    obtain ⟨hle, heq⟩ := ih fun d hd => hls (List.mem_cons_of_mem l hd)
    have hl : scale.char l = 3 := if_pos (hls List.mem_cons_self)
    have hthree := three_le_char c
    simp only [List.map_cons, List.sum_cons]
    refine ⟨by omega, fun hsum => ?_⟩
    have hmem : c ∈ lights := by
      by_contra hnot
      have hfour : scale.char c = 4 := if_neg hnot
      omega
    obtain ⟨hascii, hlower⟩ := toLower_of_mem_lights hmem
    have hcl : c = l := by
      rcases hc with rfl | hc
      · rfl
      · exact hlower.symm.trans (huni.ignoreCase c l hascii hc)
    rw [hcl, heq (by omega)]

theorem awsSecret_lowers : (awsSecret uni).Lowers scale := by
  have hlights : lights = "aws_secret_access_key".toList ++ "=".toList := rfl
  have hsubset : "aws_secret_access_key".toList ⊆ lights :=
    hlights ▸ List.subset_append_left _ _
  have hname : ∀ l ∈ "aws_secret_access_key".toList, l.toLower = l := fun l hl =>
    (toLower_of_mem_lights (hsubset hl)).2
  have hopener : '<' ∉ "aws_secret_access_key".toList := by simp
  have hcloser : '>' ∉ "aws_secret_access_key".toList := by simp
  have hclosed : scale.Closed "aws_secret_access_key=<REDACTED>".toList :=
    Scale.Closed.of_ends (c := 'a') (d := '>') (.inr (free_of_mem (by decide))) (.inl rfl)
      (by simp) (by simp)
  have hnew : "aws_secret_access_key=<REDACTED>".toList =
      "aws_secret_access_key".toList ++ "=<REDACTED>".toList := by simp
  refine Rule.Lowers.of_match fun prev x y hy u => ?_
  obtain ⟨old, rest⟩ := y
  obtain ⟨n, x₁, value, rfl, hn, hvalue⟩ := Re.mem_run_seqs_cons.1 (List.mem_of_head? hy)
  obtain ⟨sp, sep, tail, rfl, hsp, hsep, htail⟩ :=
    assigned_of_mem (Nat.lt_of_succ_le (Nat.le_of_ble_eq_true rfl)) hvalue
  have hreads : Reads uni n "aws_secret_access_key".toList := (mem_run_itext.1 hn).1
  have hnot : ∀ d : Char, d.toNat < 0x80 → d.toLower = d →
      d ∉ "aws_secret_access_key".toList → d ∉ n := fun d hascii hlower hd hmem =>
    hd (hlower ▸ hreads.toLower_mem huni hname d hmem hascii)
  refine @lowers_assigned uni huni n sp tail rest _ sep (hnot '>' (by decide) (by decide) hcloser)
    hsp hsep (@ends_of_nonSpaces uni _ _ _ _ [itext uni "aws_secret_access_key", spaces uni,
      oneOf ":=", spaces uni] huni hy) hclosed ?_ u
  -- the name, and what is behind it
  obtain ⟨hle, heq⟩ := hreads.sum_le huni hsubset
  rw [hnew, Scale.weigh_append_of_notMem
      (show scale.opener ∉ n from hnot '<' (by decide) (by decide) hopener),
    Scale.weigh_append_of_notMem (show scale.opener ∉ "aws_secret_access_key".toList from hopener)]
  rcases eq_or_lt_assigned huni hsp hsep htail with hsame | hlt
  · rw [← hsame]
    by_cases hsum : ("aws_secret_access_key".toList.map scale.char).sum = (n.map scale.char).sum
    · rw [heq hsum]
      exact .inl rfl
    · exact .inr (by omega)
  · exact .inr (by omega)

omit huni in
/-- The password of a URL is replaced between a colon and an `@`. -/
theorem databaseUrl_lowers : (databaseUrl uni).Lowers scale := by
  intro prev x m rest hrun
  obtain ⟨n, w, t, ⟨-, -, -, ht, -⟩, -, rfl⟩ := mem_run_opening.1 (List.mem_of_head? hrun)
  have hmark := weigh_mark.2.1
  refine ⟨opening n w, t, "<REDACTED>".toList, ['@'], rfl, fun u => ⟨?_, ?_, ?_, ?_⟩⟩
  · refine Scale.not_straddles_of_last (c := ':') (.inr (free_of_mem (by decide))) ?_
    rw [opening, ← List.append_assoc, List.getLast?_concat]
  · exact Scale.not_straddles_of_head (c := '@') (.inr (free_of_mem (by decide))) rfl
  · exact closed_of_mark List.mem_cons_self
  · rw [hmark]
    exact eq_or_lt_weigh ht

end values

/-! ## All patterns -/

section rereading

variable {uni : Unicode} {loaded : List String}

/-- **Every pattern lowers what it changes.** -/
theorem patterns_lower (huni : uni.Documented) (hloaded : ∀ v ∈ loaded, Recognizable v.toList) :
    ∀ s ∈ patterns uni loaded, s.Lowers scale := by
  intro s hs
  rcases List.mem_append.1 hs with hs | hs
  · rcases List.mem_append.1 hs with hs | hs
    · simp only [staticPatterns, List.mem_cons, List.not_mem_nil, or_false] at hs
      rcases hs with rfl | rfl | rfl | rfl | rfl | rfl | rfl | rfl | rfl | rfl
      · exact authorization_lowers huni
      · exact telegramToken_lowers huni
      · exact jwt_lowers
      · exact prefixedToken_lowers
      · exact assignment_lowers huni
      · exact privateKey_lowers
      · exact awsKey_lowers
      · exact awsSecret_lowers huni
      · exact password_lowers huni
      · exact databaseUrl_lowers
    · obtain ⟨v, hv, rfl⟩ := List.mem_map.1 hs
      exact valuePattern_lowers (hloaded v hv)
  · exact secretValuePatterns_lower s hs

/-- What is stored of a text that is redacted when it is written, after `n` reads. -/
def content (uni : Unicode) (loaded : List String) (text : List Char) : ℕ → List Char
  | 0 => redact uni loaded text
  | n + 1 => redact uni loaded (content uni loaded text n)

variable {text : List Char} {n : ℕ}

/-- What a read leaves as it is stays. -/
theorem content_of_settled (h : Settled (patterns uni loaded) (content uni loaded text n)) (k : ℕ) :
    content uni loaded text (n + k) = content uni loaded text n := by
  induction k with
  | zero => rfl
  | succ k ih =>
    rw [← Nat.add_assoc, content, ih, redact_eq]
    exact h.subAll_eq

theorem content_eq_iterate : content uni loaded text n =
    (subAll (patterns uni loaded))^[n] (redact uni loaded text) := by
  induction n with
  | zero => rfl
  | succ n ih => rw [Function.iterate_succ_apply', ← ih, content, redact_eq]

/-- **After some reads nothing changes any more.** -/
theorem content_settles (huni : uni.Documented) (hloaded : ∀ v ∈ loaded, Recognizable v.toList)
    (text : List Char) : ∃ n, ∀ k, content uni loaded text (n + k) = content uni loaded text n := by
  obtain ⟨n, hn⟩ := exists_settled (patterns_lower huni hloaded) (redact uni loaded text)
  rw [← content_eq_iterate] at hn
  exact ⟨n, content_of_settled hn⟩

theorem content_settles_ascii : ∃ n, ∀ k,
    content ascii ["runtime-unique-JWT-9999"] "password: hunter-22;rest".toList (n + k) =
      content ascii ["runtime-unique-JWT-9999"] "password: hunter-22;rest".toList n :=
  content_settles ascii_documented (List.forall_mem_singleton.2
    (Recognizable.of_apart (by decide) (by decide) (by decide))) _

end rereading

end Observatory.Redaction
