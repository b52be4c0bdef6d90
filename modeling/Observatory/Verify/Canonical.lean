import Observatory.Data.Delimited
import Observatory.Model.Canonical

/-!
# The signed string

What is signed for a room, a nonce and a text can be read back: neither room nor nonce contains the
bar, so the first two bars of the canonical string end them (`Delimited.first_unique`), whatever bars the text
contains.  The sweep leaves no character that breaks the line (`invisible_of_breaksLine`) and no
surrogate, and nothing for a second sweep (`sweepText_sweepText`).  Room and nonce are not swept,
and `$` lets each of them end in a newline: the canonical string is a single line exactly if neither
does (`canonical_iff`).
-/

namespace Observatory.Canonical

open Delimited

/-! ## Rooms and nonces -/

section accepted

variable {s room nonce : Str} {c : CodePoint}

theorem mem_chomp_or_newline (hc : c ∈ s) : c ∈ chomp s ∨ c = ofChar '\n' := by
  unfold chomp
  split
  · rename_i hlast
    rw [← List.dropLast_append_getLast? _ hlast, List.mem_append, List.mem_singleton] at hc
    exact hc
  · exact .inl hc

theorem isRoomChar_of_mem_chomp (h : matchesRoom room) (hc : c ∈ chomp room) : isRoomChar c := by
  unfold matchesRoom at h
  split at h
  · rename_i d rest heq
    rw [heq] at hc
    simp only [Bool.and_eq_true, decide_eq_true_eq, List.all_eq_true] at h
    rcases List.mem_cons.1 hc with rfl | hrest
    · unfold isRoomChar
      rw [h.1.1]
      rfl
    · exact h.1.2 c hrest
  · cases h

theorem isDigit_of_mem_chomp (h : matchesNonce nonce) (hc : c ∈ chomp nonce) : isDigit c := by
  simp only [matchesNonce, Bool.and_eq_true, decide_eq_true_eq, List.all_eq_true] at h
  exact h.1.2 c hc

theorem isRoomChar_of_isDigit (h : isDigit c) : isRoomChar c := by
  unfold isRoomChar isRoomStart
  rw [h, Bool.or_true]
  rfl

/-- **Characters of a room or a nonce**, but for a newline at the end. -/
theorem isRoomChar_or_newline (h : matchesRoom s ∨ matchesNonce s) (hc : c ∈ s) :
    isRoomChar c ∨ c = ofChar '\n' := by
  refine (mem_chomp_or_newline hc).imp_left fun hchomp => ?_
  rcases h with h | h
  · exact isRoomChar_of_mem_chomp h hchomp
  · exact isRoomChar_of_isDigit (isDigit_of_mem_chomp h hchomp)

theorem bar_notMem (h : matchesRoom s ∨ matchesNonce s) : bar ∉ s := by
  intro hc
  rcases isRoomChar_or_newline h hc with h | h
  · revert h
    decide
  · revert h
    decide

/-- The newline can only be the last character. -/
theorem newline_mem_iff (h : matchesRoom s ∨ matchesNonce s) :
    ofChar '\n' ∈ s ↔ s.getLast? = some (ofChar '\n') := by
  refine ⟨fun hmem => ?_, List.mem_of_getLast?⟩
  by_contra hlast
  have hchomp : chomp s = s := if_neg hlast
  have hroom : isRoomChar (ofChar '\n') := by
    rcases h with h | h
    · exact isRoomChar_of_mem_chomp h (by rwa [hchomp])
    · exact isRoomChar_of_isDigit (isDigit_of_mem_chomp h (by rwa [hchomp]))
  revert hroom
  decide

end accepted

/-! ## Categories -/

section sweep

variable {category : CodePoint → Category} {c : CodePoint}

theorem invisible_of_isOther (h : (category c).isOther) : invisible category c := by
  simp only [invisible, h, Bool.true_or]

theorem invisible_of_breaksLine (h : (category c).breaksLine) : invisible category c := by
  unfold invisible
  cases hcat : category c <;> rw [hcat] at h <;> first | rfl | cases h

theorem ascii_of_isRoomChar (h : isRoomChar c) : c.val < 0x80 := by
  simp only [isRoomChar, isRoomStart, isDigit, Bool.or_eq_true, Bool.and_eq_true,
    decide_eq_true_eq] at h
  omega

/-- Letters, digits, `_` and `-`. -/
theorem asciiCategory_of_isRoomChar (h : isRoomChar c) :
    asciiCategory c.val ∈ [.ll, .nd, .pc, .pd] := by
  simp only [isRoomChar, isRoomStart, isDigit, Bool.or_eq_true, Bool.and_eq_true,
    decide_eq_true_eq] at h
  unfold asciiCategory
  grind

variable (hcat : Documented category)

include hcat

theorem breaksLine_of_isRoomChar (h : isRoomChar c) : (category c).breaksLine = false := by
  rw [hcat.ascii c (ascii_of_isRoomChar h)]
  have hmem := asciiCategory_of_isRoomChar h
  simp only [List.mem_cons, List.not_mem_nil, or_false] at hmem
  rcases hmem with heq | heq | heq | heq <;> rw [heq] <;> rfl

theorem category_newline : category (ofChar '\n') = .cc := hcat.ascii _ (by decide)

theorem category_space : category (ofChar ' ') = .zs := hcat.ascii _ (by decide)

theorem category_bar : category bar = .sm := hcat.ascii _ (by decide)

theorem invisible_space : invisible category (ofChar ' ') = false := by
  unfold invisible
  rw [category_space hcat]
  decide

/-- What the sweep leaves is visible. -/
theorem visible_of_mem_sweepText {text : Str} (hc : c ∈ sweepText category text) :
    invisible category c = false := by
  obtain ⟨d, -, rfl⟩ := List.mem_map.1 hc
  by_cases hd : invisible category d
  · rw [if_pos hd]
    exact invisible_space hcat
  · rw [if_neg hd]
    exact eq_false_of_ne_true hd

/-- **A second sweep changes nothing.** -/
theorem sweepText_sweepText (text : Str) :
    sweepText category (sweepText category text) = sweepText category text := by
  calc sweepText category (sweepText category text)
      = (sweepText category text).map id := List.map_congr_left fun c hc => by
        rw [visible_of_mem_sweepText hcat hc]
        rfl
    _ = sweepText category text := List.map_id _

theorem breaksLine_of_mem_sweepText {text : Str} (hc : c ∈ sweepText category text) :
    (category c).breaksLine = false := by
  by_contra hbreaks
  have hinvisible := invisible_of_breaksLine (eq_true_of_ne_false hbreaks)
  rw [visible_of_mem_sweepText hcat hc] at hinvisible
  cases hinvisible

theorem isSurrogate_of_mem_sweepText {text : Str} (hc : c ∈ sweepText category text) :
    isSurrogate c = false := by
  by_contra hsurrogate
  have hother : (category c).isOther := by
    rw [hcat.surrogate c (eq_true_of_ne_false hsurrogate)]
    rfl
  have hinvisible := invisible_of_isOther hother
  rw [visible_of_mem_sweepText hcat hc] at hinvisible
  cases hinvisible

end sweep

/-! ## Encoding -/

theorem isSurrogate_of_ascii {c : CodePoint} (h : c.val < 0x80) : isSurrogate c = false := by
  simp only [isSurrogate, Bool.and_eq_false_iff, decide_eq_false_iff_not]
  omega

theorem toChar?_isSome {c : CodePoint} (h : isSurrogate c = false) : (toChar? c).isSome := by
  have hvalid : c.val.isValidChar := by
    simp only [isSurrogate, Bool.and_eq_false_iff, decide_eq_false_iff_not] at h
    have hlt := c.isLt
    unfold Nat.isValidChar
    omega
  unfold toChar?
  rw [dif_pos hvalid]
  rfl

/-- A string without surrogates can be encoded. -/
theorem encodeUtf8_isSome {s : Str} (h : ∀ c ∈ s, isSurrogate c = false) :
    (encodeUtf8 s).isSome := by
  unfold encodeUtf8
  rw [Option.isSome_map]
  induction s with
  | nil => rfl
  | cons c s ih =>
    obtain ⟨d, hd⟩ := Option.isSome_iff_exists.1 (toChar?_isSome (h c List.mem_cons_self))
    obtain ⟨ds, hds⟩ := Option.isSome_iff_exists.1
      (ih fun c' hc' => h c' (List.mem_cons_of_mem c hc'))
    rw [List.mapM_cons, hd, hds]
    rfl

/-! ## The canonical string -/

section canonical

variable {category : CodePoint → Category} {room nonce text s : Str}

/-- **What is accepted**, and what comes of it. -/
theorem canonicalString_eq_ok_iff : canonicalString category room nonce text = .ok s ↔
    (matchesRoom room ∧ matchesNonce nonce) ∧
      room ++ bar :: (nonce ++ bar :: sweepText category text) = s := by
  unfold canonicalString
  by_cases hroom : matchesRoom room <;> by_cases hnonce : matchesNonce nonce <;>
    simp [hroom, hnonce]

/-- A canonical string is unambiguous: a single line that can be encoded, for the text as for the
swept text, and for no other room, nonce and swept text. -/
structure Unambiguous (category : CodePoint → Category) (room nonce text s : Str) : Prop where
  singleLine : ∀ c ∈ s, (category c).breaksLine = false
  encodes : (encodeUtf8 s).isSome
  swept : canonicalString category room nonce (sweepText category text) = .ok s
  decodes : ∀ {room' nonce' text' : Str}, canonicalString category room' nonce' text' = .ok s →
    room' = room ∧ nonce' = nonce ∧ sweepText category text' = sweepText category text

/-- The characters of a canonical string. -/
theorem mem_canonicalString {c : CodePoint}
    (h : canonicalString category room nonce text = .ok s) (hc : c ∈ s) :
    c ∈ room ∨ c ∈ nonce ∨ c = bar ∨ c ∈ sweepText category text := by
  obtain ⟨-, rfl⟩ := canonicalString_eq_ok_iff.1 h
  simp only [List.mem_append, List.mem_cons] at hc
  tauto

theorem canonicalString_decodes {room' nonce' text' : Str}
    (h : canonicalString category room nonce text = .ok s)
    (h' : canonicalString category room' nonce' text' = .ok s) :
    room' = room ∧ nonce' = nonce ∧ sweepText category text' = sweepText category text := by
  obtain ⟨⟨hroom, hnonce⟩, rfl⟩ := canonicalString_eq_ok_iff.1 h
  obtain ⟨⟨hroom', hnonce'⟩, heq⟩ := canonicalString_eq_ok_iff.1 h'
  obtain ⟨rfl, hrest⟩ := first_unique (bar_notMem (.inl hroom')) (bar_notMem (.inl hroom)) heq
  obtain ⟨rfl, htext⟩ := first_unique (bar_notMem (.inr hnonce')) (bar_notMem (.inr hnonce)) hrest
  exact ⟨rfl, rfl, htext⟩

variable (hcat : Documented category)

include hcat

theorem canonicalString_encodes (h : canonicalString category room nonce text = .ok s) :
    (encodeUtf8 s).isSome := by
  obtain ⟨⟨hroom, hnonce⟩, -⟩ := canonicalString_eq_ok_iff.1 h
  have hpart : ∀ {part : Str} {c : CodePoint}, matchesRoom part ∨ matchesNonce part → c ∈ part →
      isSurrogate c = false := by
    intro part c hpart hc
    rcases isRoomChar_or_newline hpart hc with hchar | rfl
    · exact isSurrogate_of_ascii (ascii_of_isRoomChar hchar)
    · decide
  refine encodeUtf8_isSome fun c hc => ?_
  rcases mem_canonicalString h hc with hc | hc | rfl | hc
  · exact hpart (.inl hroom) hc
  · exact hpart (.inr hnonce) hc
  · decide
  · exact isSurrogate_of_mem_sweepText hcat hc

theorem canonicalString_sweepText (h : canonicalString category room nonce text = .ok s) :
    canonicalString category room nonce (sweepText category text) = .ok s := by
  rw [canonicalString_eq_ok_iff, sweepText_sweepText hcat]
  exact canonicalString_eq_ok_iff.1 h

/-- **A single line** comes of a room and a nonce that do not end in a newline. -/
theorem canonicalString_singleLine_iff (h : canonicalString category room nonce text = .ok s) :
    (∀ c ∈ s, (category c).breaksLine = false) ↔
      room.getLast? ≠ some (ofChar '\n') ∧ nonce.getLast? ≠ some (ofChar '\n') := by
  obtain ⟨⟨hroom, hnonce⟩, hs⟩ := canonicalString_eq_ok_iff.1 h
  rw [Ne, Ne, ← newline_mem_iff (.inl hroom), ← newline_mem_iff (.inr hnonce)]
  constructor
  · intro hline
    have hnewline : ofChar '\n' ∉ s := by
      intro hmem
      have hbreaks := hline _ hmem
      rw [category_newline hcat] at hbreaks
      cases hbreaks
    rw [← hs] at hnewline
    simp only [List.mem_append, List.mem_cons, not_or] at hnewline
    exact ⟨hnewline.1, hnewline.2.2.1⟩
  · rintro ⟨hroomLine, hnonceLine⟩ c hc
    rcases mem_canonicalString h hc with hc | hc | rfl | hc
    · rcases isRoomChar_or_newline (.inl hroom) hc with hchar | rfl
      · exact breaksLine_of_isRoomChar hcat hchar
      · exact (hroomLine hc).elim
    · rcases isRoomChar_or_newline (.inr hnonce) hc with hchar | rfl
      · exact breaksLine_of_isRoomChar hcat hchar
      · exact (hnonceLine hc).elim
    · rw [category_bar hcat]
      rfl
    · exact breaksLine_of_mem_sweepText hcat hc

/-- **The canonical string is unambiguous** exactly if neither room nor nonce ends in a newline. -/
theorem canonical_iff (h : canonicalString category room nonce text = .ok s) :
    Unambiguous category room nonce text s ↔
      room.getLast? ≠ some (ofChar '\n') ∧ nonce.getLast? ≠ some (ofChar '\n') := by
  rw [← canonicalString_singleLine_iff hcat h]
  constructor
  · intro hlaw
    exact hlaw.singleLine
  · intro hline
    exact ⟨hline, canonicalString_encodes hcat h, canonicalString_sweepText hcat h,
      canonicalString_decodes h⟩

end canonical

/-- The categories of ASCII and of the surrogates; letters beyond. -/
def sampleCategory (c : CodePoint) : Category :=
  if isSurrogate c then .cs else if c.val < 0x80 then asciiCategory c.val else .lo

theorem sampleCategory_documented : Documented sampleCategory where
  ascii c hc := by
    unfold sampleCategory
    rw [isSurrogate_of_ascii hc, if_neg Bool.false_ne_true, if_pos hc]
  surrogate c hc := if_pos hc

/-- The text contains a bar and a newline. -/
theorem canonical_iff_sample : ∃ s, canonicalString sampleCategory (ofString "lobby")
    (ofString "123") (ofString "a|b\nc") = .ok s ∧
      Unambiguous sampleCategory (ofString "lobby") (ofString "123") (ofString "a|b\nc") s := by
  have h : canonicalString sampleCategory (ofString "lobby") (ofString "123")
      (ofString "a|b\nc") = .ok (ofString "lobby|123|a|b c") := by
    refine canonicalString_eq_ok_iff.2 ?_
    decide
  exact ⟨_, h, (canonical_iff sampleCategory_documented h).2 (by decide)⟩

/-- The room ends in a newline. -/
theorem canonicalString_two_lines : ¬∀ (category : CodePoint → Category) (room nonce text s : Str),
    Documented category → canonicalString category room nonce text = .ok s →
      Unambiguous category room nonce text s := by
  intro hclaim
  have h : canonicalString sampleCategory (ofString "lobby\n") (ofString "123") (ofString "hello") =
      .ok (ofString "lobby\n|123|hello") := by
    refine canonicalString_eq_ok_iff.2 ?_
    decide
  have hlaw := hclaim _ _ _ _ _ sampleCategory_documented h
  exact absurd (hlaw.singleLine (ofChar '\n') (by decide)) (by decide)

end Observatory.Canonical
