import Observatory.Model.SecretScan

/-!
# The secret scan

A secret is a line that matches one of the patterns and is no placeholder line.  For each file and
each pattern the scan looks at one line only, the first that matches, and `grep` refuses the four
patterns whose bracket holds a range from the backslash to the plus.  So a secret is reported if it
is the first line of its file for a pattern that `grep` takes (`Shown`), and otherwise only if
something else fails (`failsClosed_iff`).
-/

namespace Observatory.SecretScan

open Regex (Re)

variable {word : Char → Bool} {e : Ere} {l x : Str} {c d : Char} {n m : ℕ}

/-! ## Expressions that are made of characters -/

namespace Ere

/-- No edge of a word and no repeated group. -/
def plain : Ere → Bool
  | text _ | set .. => true
  | seq a b => a.plain && b.plain
  | opt a => a.plain
  | atLeast .. | edge => false

/-- The character an expression begins with. -/
def front : Ere → Option Char
  | text s => s.head?
  | seq a _ => a.front
  | _ => none

theorem edgeless_literal (s : Str) : (Re.literal s).edgeless := by
  induction s with
  | nil => rfl
  | cons c s ih => exact ih

theorem edgeless_of_plain (he : e.plain) : (e.re word n).edgeless := by
  induction e with
  | text s => exact edgeless_literal s
  | set b lo hi => rfl
  | seq a b iha ihb =>
    rw [plain, Bool.and_eq_true] at he
    rw [re, Re.edgeless, iha he.1, ihb he.2, Bool.and_self]
  | opt a ih => exact ih he
  | atLeast | edge => cases he

theorem re_of_plain (he : e.plain) : e.re word n = e.re word m := by
  induction e with
  | text | set => rfl
  | seq a b iha ihb =>
    rw [plain, Bool.and_eq_true] at he
    rw [re, re, iha he.1, ihb he.2]
  | opt a ih => rw [re, re, ih he]
  | atLeast | edge => cases he

theorem run_of_front (hd : e.front = some d) (hc : c ≠ d) (prev : Option Char) :
    (e.re word n).run prev (c :: x) = [] := by
  induction e generalizing prev with
  | text s =>
    rw [re, Re.run_literal, if_neg]
    intro hpre
    cases s with
    | nil => cases hd
    | cons d' s =>
      obtain rfl : d' = d := Option.some.inj hd
      exact hc (List.cons_prefix_cons.1 hpre).1.symm
  | seq a b iha => rw [re, Re.run, iha hd, List.flatMap_nil]
  | set | opt | atLeast | edge => cases hd

/-- **What stands before a line** does not matter if no match begins there. -/
theorem occurs_skip (he : e.plain) (hd : e.front = some d) {pre : Str} (hpre : d ∉ pre) :
    e.occurs word (pre ++ x) = e.occurs word x := by
  rw [occurs, occurs, re_of_plain he]
  refine Re.search_skip (edgeless_of_plain he) fun c hc prev y => ?_
  refine run_of_front hd ?_ prev
  rintro rfl
  exact hpre hc

end Ere

/-! ## Numbered lines -/

theorem echoed_iff {es : List Ere} : echoed word es x = true ↔ ∃ e ∈ es, e.occurs word x = true :=
  List.any_eq_true

theorem plain_of_mem_placeholders (he : e ∈ placeholders) : e.plain := by
  have hall : placeholders.all Ere.plain = true := by rfl
  exact List.all_eq_true.1 hall e he

/-- All placeholders but two begin with a character that does not stand before a numbered line. -/
theorem front_of_mem_placeholders (he : e ∈ placeholders) : e = .str ":x@" ∨
    e = .str "127.0.0.1" ∨ ∃ d, e.front = some d ∧ d.isDigit = false ∧ d ≠ ':' := by
  have hall : placeholders.all (fun e => e = .str ":x@" || (e = .str "127.0.0.1" ||
      e.front.any fun d => !d.isDigit && d != ':')) = true := by rfl
  have hfront := List.all_eq_true.1 hall e he
  rw [Bool.or_eq_true, Bool.or_eq_true, decide_eq_true_eq, decide_eq_true_eq] at hfront
  refine hfront.imp_right (Or.imp_right fun hany => ?_)
  cases hd : e.front with
  | none =>
    rw [hd] at hany
    cases hany
  | some d =>
    rw [hd, Option.any_some, Bool.and_eq_true, Bool.not_eq_true', bne_iff_ne] at hany
    exact ⟨d, rfl, hany⟩

theorem occurs_text_iff {s : Str} : (Ere.text s).occurs word x = true ↔ s <:+: x := by
  rw [Ere.occurs, Ere.re, Re.search_iff]
  constructor
  · rintro ⟨u, v, m, rfl, hm⟩
    rw [Re.run_literal] at hm
    split at hm
    · next hpre => exact hpre.isInfix.trans (List.suffix_append u v).isInfix
    · cases hm
  · rintro ⟨u, v, rfl⟩
    refine ⟨u, s ++ v, (s, v), List.append_assoc u s v, ?_⟩
    rw [Re.run_literal, if_pos (List.prefix_append s v), List.drop_left]
    exact List.mem_singleton_self _

/-- A text without the letter `c` that stands in a text with a `c` stands on one side of it. -/
theorem infix_of_notMem {a b s : Str} (hc : c ∉ s) (h : s <:+: a ++ c :: b) :
    s <:+: a ∨ s <:+: b := by
  obtain ⟨u, v, heq⟩ := h
  rw [List.append_assoc] at heq
  rcases List.append_eq_append_iff.1 heq with ⟨w, rfl, hsv⟩ | ⟨w, rfl, hw⟩
  · rcases List.append_eq_append_iff.1 hsv with ⟨w', rfl, hv⟩ | ⟨w', rfl, hw'⟩
    · exact .inl ⟨u, w', by rw [List.append_assoc]⟩
    · cases w' with
      | nil => exact .inl ⟨u, [], by simp⟩
      | cons c' w' =>
        obtain ⟨rfl, -⟩ := List.cons.inj hw'
        exact absurd (List.mem_append_right w List.mem_cons_self) hc
  · cases w with
    | nil =>
      cases s with
      | nil => exact .inl (List.nil_infix)
      | cons c' s =>
        obtain ⟨rfl, -⟩ := List.cons.inj hw
        exact absurd List.mem_cons_self hc
    | cons c' w =>
      obtain ⟨-, hw⟩ := List.cons.inj hw
      exact .inr ⟨w, v, (List.append_assoc w s v).trans hw.symm⟩

/-- **A numbered line is taken for a placeholder line** iff the line is one or begins with what is
one behind a colon. -/
theorem isPlaceholderLine_numbered : isPlaceholderLine word (numbered (l, n)) = true ↔
    isPlaceholderLine word l = true ∨ "x@".toList <+: l := by
  have hdigit : ∀ c ∈ Nat.toDigits 10 n, c.isDigit = true := fun c hc =>
    Nat.isDigit_of_mem_toDigits (by decide) (by decide) hc
  have hout {d : Char} (hd : d.isDigit = false) : d ∉ Nat.toDigits 10 n := by
    intro hmem
    rw [hdigit d hmem] at hd
    cases hd
  have hcolon : Ere.occurs word (.str ":x@") (numbered (l, n)) = true ↔
      Ere.occurs word (.str ":x@") l = true ∨ "x@".toList <+: l := by
    rw [numbered, Ere.occurs_skip (d := ':') rfl rfl (hout rfl), Ere.str, occurs_text_iff,
      occurs_text_iff, List.infix_cons_iff, or_comm]
    exact or_congr_right ((List.cons_prefix_cons (b := ':')).trans (and_iff_right rfl))
  have hother {e : Ere} (he : e ∈ placeholders) (hne : e ≠ .str ":x@") :
      e.occurs word (numbered (l, n)) = e.occurs word l := by
    rcases front_of_mem_placeholders he with rfl | rfl | ⟨d, hd, hdig, hdc⟩
    · exact absurd rfl hne
    · refine Bool.eq_iff_iff.2 ?_
      rw [Ere.str, occurs_text_iff, occurs_text_iff, numbered]
      constructor
      · intro h
        refine (infix_of_notMem (by decide) h).resolve_left fun hin => ?_
        have hdot : '.' ∈ Nat.toDigits 10 n := hin.mem (by decide)
        exact hout rfl hdot
      · exact fun h => h.trans ((List.suffix_cons _ _).trans (List.suffix_append _ _)).isInfix
    · have hskip := @Ere.occurs_skip word e l d (plain_of_mem_placeholders he) hd
        (Nat.toDigits 10 n ++ [':'])
      rw [List.append_assoc, List.singleton_append] at hskip
      refine hskip fun hmem => ?_
      rcases List.mem_append.1 hmem with hmem | hmem
      · exact hout hdig hmem
      · exact hdc (List.mem_singleton.1 hmem)
  rw [isPlaceholderLine, isPlaceholderLine, echoed_iff, echoed_iff]
  constructor
  · rintro ⟨e, he, hocc⟩
    by_cases hne : e = .str ":x@"
    · subst hne
      exact (hcolon.1 hocc).imp_left fun h => ⟨_, he, h⟩
    · exact .inl ⟨e, he, hother he hne ▸ hocc⟩
  · rintro (⟨e, he, hocc⟩ | hpre)
    · by_cases hne : e = .str ":x@"
      · subst hne
        exact ⟨_, he, hcolon.2 (.inl hocc)⟩
      · exact ⟨e, he, (hother he hne).symm ▸ hocc⟩
    · exact ⟨.str ":x@", by decide, hcolon.2 (.inr hpre)⟩

/-! ## What the loop reports -/

section loop

variable {t : Tree} {f : Str} {lines : List Str}

/-- The line that `head -1` leaves. -/
theorem map_fst_head?_grep (e : Ere) (lines : List Str) : (grep word e lines).head?.map Prod.fst =
    if e.valid then lines.find? (e.occurs word) else none := by
  rw [grep]
  split
  · rw [List.head?_filter]
    generalize 1 = k
    induction lines generalizing k with
    | nil => rfl
    | cons l lines ih =>
      rw [List.zipIdx_cons]
      cases hocc : e.occurs word l with
      | true => simp only [List.find?_cons, hocc, Option.map_some]
      | false => simp only [List.find?_cons, hocc, ih]
  · rfl

/-- The last four patterns are refused. -/
example : strong.map Ere.valid =
    List.replicate 7 true ++ List.replicate 4 false := by rfl

/-- A line with a mask is a placeholder line. -/
theorem isPlaceholderLine_of_masks (h : echoed word masks x = true) :
    isPlaceholderLine word x = true := by
  have hsub : ∀ e ∈ masks, e ∈ placeholders := by decide
  obtain ⟨e, he, hocc⟩ := echoed_iff.1 h
  exact echoed_iff.2 ⟨e, hsub e he, hocc⟩

/-- What the loop makes of the line it looks at. -/
theorem patternHits_iff : patternHits word f lines e = true ↔
    echoed word positiveFixtures f = false ∧ e.valid = true ∧
      ∃ l, lines.find? (e.occurs word) = some l ∧ isPlaceholderLine word l = false ∧
        ¬"x@".toList <+: l := by
  have hhead := @map_fst_head?_grep word e lines
  rw [patternHits]
  cases hgrep : (grep word e lines).head? with
  | none =>
    rw [hgrep, Option.map_none] at hhead
    refine ⟨nofun, ?_⟩
    rintro ⟨-, hvalid, l, hl, -⟩
    rw [if_pos hvalid, hl] at hhead
    cases hhead
  | some hit =>
    obtain ⟨l, n⟩ := hit
    rw [hgrep, Option.map_some] at hhead
    have hvalid : e.valid = true := by
      by_contra hnot
      rw [if_neg hnot] at hhead
      cases hhead
    rw [if_pos hvalid] at hhead
    dsimp only
    by_cases hplace : isPlaceholderLine word (numbered (l, n)) = true
    · rw [if_pos hplace]
      refine ⟨nofun, ?_⟩
      rintro ⟨-, -, l', hl', hline, hfront⟩
      obtain rfl : l = l' := Option.some.inj (hhead.trans hl')
      rcases isPlaceholderLine_numbered.1 hplace with h | h
      · rw [h] at hline
        cases hline
      · exact absurd h hfront
    · have hmask : ¬echoed word masks (numbered (l, n)) = true :=
        fun h => hplace (isPlaceholderLine_of_masks h)
      have hline := mt isPlaceholderLine_numbered.2 hplace
      rw [not_or, Bool.not_eq_true] at hline
      rw [if_neg hplace, if_neg hmask]
      by_cases hfix : echoed word positiveFixtures f = true
      · rw [if_pos hfix, hfix]
        exact ⟨nofun, fun h => nomatch h.1⟩
      · rw [if_neg hfix]
        exact iff_of_true rfl ⟨(Bool.not_eq_true _).mp hfix, hvalid, l, hhead.symm, hline⟩

theorem foldl_hits (p : Ere → Bool) (s : State) (es : List Ere) :
    es.foldl (fun s pat => if p pat then { s with hits := true } else s) s =
      { s with hits := s.hits || es.any p } := by
  induction es generalizing s with
  | nil => rw [List.foldl_nil, List.any_nil, Bool.or_false]
  | cons e es ih =>
    rw [List.foldl_cons, ih, List.any_cons]
    cases p e with
    | true => simp
    | false => rfl

/-- One name. -/
theorem scanName_eq (s : State) : scanName word t s f =
    { hits := s.hits || (!isSkipped word f && strong.any (patternHits word f (t.lines f)))
      scanned := s.scanned + if isSkipped word f then 0 else 1 } := by
  rw [scanName]
  split
  · next h => rw [h, Bool.not_true, Bool.false_and, Bool.or_false, Nat.add_zero]
  · next h => rw [foldl_hits, (Bool.not_eq_true _).mp h, Bool.not_false, Bool.true_and]

/-- **All names.** -/
theorem foldl_scanName (s : State) (names : List Str) : names.foldl (scanName word t) s =
    { hits := s.hits ||
        names.any fun f => !isSkipped word f && strong.any (patternHits word f (t.lines f))
      scanned := s.scanned + names.countP fun f => !isSkipped word f } := by
  induction names generalizing s with
  | nil => rw [List.foldl_nil, List.any_nil, Bool.or_false, List.countP_nil, Nat.add_zero]
  | cons f names ih =>
    rw [List.foldl_cons, ih, scanName_eq, List.any_cons, List.countP_cons, Bool.or_assoc]
    cases isSkipped word f with
    | true => simp
    | false => simp [Nat.add_assoc, Nat.add_comm 1]

end loop

/-! ## Failing closed -/

/-- A line that matches a pattern and is no placeholder line. -/
def IsSecret (word : Char → Bool) (l : Str) : Prop :=
  (∃ e ∈ strong, e.occurs word l = true) ∧ isPlaceholderLine word l = false

/-- A scanned file holds a secret. -/
def HasSecret (word : Char → Bool) (t : Tree) : Prop :=
  ∃ path ∈ t.found word, isSkipped word path = false ∧ ∃ l ∈ t.lines path, IsSecret word l

/-- For a pattern that `grep` takes, the first line that matches is no placeholder line, and does not
begin with what would make it one behind a colon. -/
def Shows (word : Char → Bool) (lines : List Str) : Prop :=
  ∃ e ∈ strong, e.valid = true ∧ ∃ before l after, lines = before ++ l :: after ∧
    (∀ l' ∈ before, e.occurs word l' = false) ∧ e.occurs word l = true ∧
    isPlaceholderLine word l = false ∧ ¬"x@".toList <+: l

theorem shows_iff {f : Str} {lines : List Str} :
    (echoed word positiveFixtures f = false ∧ Shows word lines) ↔
      strong.any (patternHits word f lines) = true := by
  rw [List.any_eq_true, Shows]
  constructor
  · rintro ⟨hfix, e, he, hvalid, before, l, after, hlines, hbefore, hocc, hline⟩
    refine ⟨e, he, patternHits_iff.2 ⟨hfix, hvalid, l, ?_, hline⟩⟩
    refine List.find?_eq_some_iff_append.2 ⟨hocc, before, after, hlines, fun l' hl' => ?_⟩
    rw [hbefore l' hl', Bool.not_false]
  · rintro ⟨e, he, hhits⟩
    obtain ⟨hfix, hvalid, l, hl, hline⟩ := patternHits_iff.1 hhits
    obtain ⟨hocc, before, after, hlines, hbefore⟩ := List.find?_eq_some_iff_append.1 hl
    refine ⟨hfix, e, he, hvalid, before, l, after, hlines, fun l' hl' => ?_, hocc, hline⟩
    simpa only [Bool.not_eq_true'] using hbefore l' hl'

/-- **When the scan reports something.** -/
theorem exitStatus_ne_zero_iff (t : Tree) : t.exitStatus word ≠ 0 ↔
    (∃ f ∈ t.names word, isSkipped word f = false ∧ echoed word positiveFixtures f = false ∧
      Shows word (t.lines f)) ∨
    (∀ f ∈ t.names word, isSkipped word f = true) ∨ t.otherHits word = true := by
  have hhits : ((t.names word).any fun f => !isSkipped word f &&
      strong.any (patternHits word f (t.lines f))) = true ↔
      ∃ f ∈ t.names word, isSkipped word f = false ∧ echoed word positiveFixtures f = false ∧
        Shows word (t.lines f) := by
    simp only [List.any_eq_true, Bool.and_eq_true, Bool.not_eq_true', shows_iff]
  have hnone : (t.names word).countP (fun f => !isSkipped word f) = 0 ↔
      ∀ f ∈ t.names word, isSkipped word f = true := by
    simp only [List.countP_eq_zero, Bool.not_eq_true', Bool.not_eq_false]
  rw [Tree.exitStatus, foldl_scanName, ← hhits, ← hnone]
  dsimp only
  rw [Bool.false_or, Nat.zero_add]
  split
  · next h => exact iff_of_true (by decide) (.inr (.inl h))
  · next h =>
    split
    · next hor =>
      refine iff_of_true (by decide) ?_
      exact (Bool.or_eq_true_iff.1 hor).imp_right .inr
    · next hor =>
      refine iff_of_false (fun hne => hne rfl) ?_
      rintro (hany | hzero | hother)
      · exact hor (Bool.or_eq_true_iff.2 (.inl hany))
      · exact h hzero
      · exact hor (Bool.or_eq_true_iff.2 (.inr hother))

/-- A secret in a scanned file makes the scan fail. -/
def FailsClosed (word : Char → Bool) (t : Tree) : Prop := HasSecret word t → t.exitStatus word ≠ 0

/-- **The scan fails closed** iff a secret is the first line of its file for its pattern, or
something else fails. -/
theorem failsClosed_iff (word : Char → Bool) (t : Tree) : FailsClosed word t ↔
    (HasSecret word t →
      (∃ f ∈ t.names word, isSkipped word f = false ∧ echoed word positiveFixtures f = false ∧
        Shows word (t.lines f)) ∨
      (∀ f ∈ t.names word, isSkipped word f = true) ∨ t.otherHits word = true) := by
  rw [FailsClosed, exitStatus_ne_zero_iff]

def asciiWord (c : Char) : Bool := c.isAlphanum || c = '_'

def treeOf (lines : List String) : Tree where
  entries := [("./app.py".toList, true)]
  lines f := if f = "./app.py".toList then lines.map String.toList else []

theorem hasSecret_treeOf {lines : List String} (l : String) (hl : l ∈ lines)
    (hocc : strong.any (fun e => e.occurs asciiWord l.toList) = true)
    (hline : isPlaceholderLine asciiWord l.toList = false) : HasSecret asciiWord (treeOf lines) := by
  have hfound : (treeOf lines).found asciiWord = ["./app.py".toList] := by rfl
  refine ⟨"./app.py".toList, ?_, by rfl, l.toList, List.mem_map_of_mem hl, ?_⟩
  · rw [hfound]
    exact List.mem_singleton_self _
  · exact ⟨List.any_eq_true.1 hocc, hline⟩

/-- A placeholder stands before the key, a password is assigned, or the line begins with `x@`. -/
theorem not_failsClosed :
    ¬FailsClosed asciiWord (treeOf ["LLM_API_KEY=CHANGE_ME_CHANGE_ME_CHANGE_ME",
      "LLM_API_KEY=abcdefghijklmnopqrstuvwx"]) ∧
    ¬FailsClosed asciiWord (treeOf ["POSTGRES_PASSWORD=hunter2hunter2"]) ∧
    ¬FailsClosed asciiWord (treeOf ["x@ LLM_API_KEY=abcdefghijklmnopqrstuvwx"]) := by
  refine ⟨fun h => h ?_ (by rfl), fun h => h ?_ (by rfl), fun h => h ?_ (by rfl)⟩
  · exact hasSecret_treeOf "LLM_API_KEY=abcdefghijklmnopqrstuvwx" (by decide) (by rfl) (by rfl)
  · exact hasSecret_treeOf "POSTGRES_PASSWORD=hunter2hunter2" (by decide) (by rfl) (by rfl)
  · exact hasSecret_treeOf "x@ LLM_API_KEY=abcdefghijklmnopqrstuvwx" (by decide) (by rfl) (by rfl)

end Observatory.SecretScan
