import Mathlib.Data.List.DropRight
import Mathlib.Tactic.Common

/-!
# Base 64

Three bytes are four characters of the alphabet of URLs; one or two bytes left over are two or three
characters, and a padding up to four.  The decoder is the lenient one: it passes over what is not in
the alphabet and stops at a padding that completes a group.  What was encoded is decoded
(`decode_encode`), also if the padding was taken away and put back (`decode_repad`).
-/

namespace Base64

/-- `A-Z a-z 0-9 - _` -/
def alphabet : List Char :=
  "ABCDEFGHIJKLMNOPQRSTUVWXYZabcdefghijklmnopqrstuvwxyz0123456789-_".toList

def char (v : ℕ) : Char := alphabet.getD v 'A'

/-- The value of a character; `+` and `/` are taken for `-` and `_`. -/
def value (c : Char) : Option ℕ :=
  if c = '+' then some 62 else if c = '/' then some 63 else alphabet.idxOf? c

def padding : Char := '='

/-! ## Encoding -/

def encode : List UInt8 → List Char
  | a :: b :: c :: bs =>
    char (a.toNat / 4) :: char (a.toNat % 4 * 16 + b.toNat / 16) ::
      char (b.toNat % 16 * 4 + c.toNat / 64) :: char (c.toNat % 64) :: encode bs
  | [a, b] =>
    [char (a.toNat / 4), char (a.toNat % 4 * 16 + b.toNat / 16), char (b.toNat % 16 * 4), padding]
  | [a] => [char (a.toNat / 4), char (a.toNat % 4 * 16), padding, padding]
  | [] => []

/-- The characters without the padding. -/
def strip (cs : List Char) : List Char := cs.rdropWhile (· = padding)

/-- The padding is put back. -/
def repad (cs : List Char) : List Char := cs ++ List.replicate ((4 - cs.length % 4) % 4) padding

/-! ## Decoding -/

/-- Decode from position `pos` of a group on, with `left` bits left over and `pads` paddings. -/
def decodeFrom : ℕ → ℕ → ℕ → List Char → Option (List UInt8)
  | pos, _, _, [] => if pos = 0 then some [] else none
  | pos, left, pads, c :: cs =>
    if c = padding then
      if 2 ≤ pos then
        if 4 ≤ pos + (pads + 1) then some [] else decodeFrom pos left (pads + 1) cs
      else decodeFrom pos left pads cs
    else
      match value c, pos with
      | none, _ => decodeFrom pos left pads cs
      | some v, 0 => decodeFrom 1 v 0 cs
      | some v, 1 => (decodeFrom 2 (v % 16) 0 cs).map (UInt8.ofNat (left * 4 + v / 16) :: ·)
      | some v, 2 => (decodeFrom 3 (v % 4) 0 cs).map (UInt8.ofNat (left * 16 + v / 4) :: ·)
      | some v, _ => (decodeFrom 0 0 0 cs).map (UInt8.ofNat (left * 64 + v) :: ·)

/-- The bytes, unless a group is not complete. -/
def decode (cs : List Char) : Option (List UInt8) := decodeFrom 0 0 0 cs

/-! ## Characters -/

theorem char_spec : ∀ v < 64, value (char v) = some v ∧ char v ≠ padding := by decide +kernel

variable {v left pads : ℕ} {bs : List UInt8} {cs : List Char}

theorem value_char (hv : v < 64) : value (char v) = some v := (char_spec v hv).1

theorem char_ne_padding (hv : v < 64) : char v ≠ padding := (char_spec v hv).2

theorem char_mem (v : ℕ) : char v ∈ alphabet := by
  unfold char
  rw [List.getD_eq_getElem?_getD]
  cases hc : alphabet[v]? with
  | none => decide +kernel
  | some c => exact List.mem_of_getElem? hc

theorem decodeFrom_zero (hv : v < 64) :
    decodeFrom 0 left pads (char v :: cs) = decodeFrom 1 v 0 cs := by
  simp only [decodeFrom, char_ne_padding hv, value_char hv, ite_false]

theorem decodeFrom_one (hv : v < 64) : decodeFrom 1 left pads (char v :: cs) =
    (decodeFrom 2 (v % 16) 0 cs).map (UInt8.ofNat (left * 4 + v / 16) :: ·) := by
  simp only [decodeFrom, char_ne_padding hv, value_char hv, ite_false]

theorem decodeFrom_two (hv : v < 64) : decodeFrom 2 left pads (char v :: cs) =
    (decodeFrom 3 (v % 4) 0 cs).map (UInt8.ofNat (left * 16 + v / 4) :: ·) := by
  simp only [decodeFrom, char_ne_padding hv, value_char hv, ite_false]

theorem decodeFrom_three (hv : v < 64) : decodeFrom 3 left pads (char v :: cs) =
    (decodeFrom 0 0 0 cs).map (UInt8.ofNat (left * 64 + v) :: ·) := by
  simp only [decodeFrom, char_ne_padding hv, value_char hv, ite_false]

/-! ## The round trip -/

theorem ofNat_eq {n : ℕ} {a : UInt8} (h : n = a.toNat) : UInt8.ofNat n = a := by
  rw [h, UInt8.ofNat_toNat]

theorem decode_encode (bs : List UInt8) : decode (encode bs) = some bs := by
  unfold decode
  induction bs using encode.induct with
  | case1 a b c bs ih =>
    have ha := a.toNat_lt
    have hb := b.toNat_lt
    have hc := c.toNat_lt
    rw [encode, decodeFrom_zero (by omega), decodeFrom_one (by omega), decodeFrom_two (by omega),
      decodeFrom_three (by omega), ih, ofNat_eq (a := a) (by omega), ofNat_eq (a := b) (by omega),
      ofNat_eq (a := c) (by omega)]
    rfl
  | case2 a b =>
    have ha := a.toNat_lt
    have hb := b.toNat_lt
    rw [encode, decodeFrom_zero (by omega), decodeFrom_one (by omega), decodeFrom_two (by omega),
      ofNat_eq (a := a) (by omega), ofNat_eq (a := b) (by omega)]
    rfl
  | case3 a =>
    have ha := a.toNat_lt
    rw [encode, decodeFrom_zero (by omega), decodeFrom_one (by omega),
      ofNat_eq (a := a) (by omega)]
    rfl
  | case4 => rfl

/-! ## The padding -/

/-- The characters without the padding, group by group. -/
theorem encode_eq_repad (bs : List UInt8) : ∃ cs, encode bs = repad cs ∧
    (∀ c ∈ cs, c ∈ alphabet) ∧ cs.length = (4 * bs.length + 2) / 3 := by
  induction bs using encode.induct with
  | case1 a b c bs ih =>
    obtain ⟨cs, hcs, halpha, hlength⟩ := ih
    have hb := b.toNat_lt
    have hc := c.toNat_lt
    refine ⟨char (a.toNat / 4) :: char (a.toNat % 4 * 16 + b.toNat / 16) ::
      char (b.toNat % 16 * 4 + c.toNat / 64) :: char (c.toNat % 64) :: cs, ?_, ?_, ?_⟩
    · rw [encode, hcs]
      simp only [repad, List.length_cons, List.cons_append]
      congr 6
      omega
    · intro d hd
      simp only [List.mem_cons] at hd
      rcases hd with rfl | rfl | rfl | rfl | hd
      · exact char_mem _
      · exact char_mem _
      · exact char_mem _
      · exact char_mem _
      · exact halpha d hd
    · simp only [List.length_cons]
      omega
  | case2 a b =>
    refine ⟨[char (a.toNat / 4), char (a.toNat % 4 * 16 + b.toNat / 16),
      char (b.toNat % 16 * 4)], rfl, ?_, by simp⟩
    intro d hd
    simp only [List.mem_cons, List.not_mem_nil, or_false] at hd
    rcases hd with rfl | rfl | rfl <;> exact char_mem _
  | case3 a =>
    refine ⟨[char (a.toNat / 4), char (a.toNat % 4 * 16)], rfl, ?_, by simp⟩
    intro d hd
    simp only [List.mem_cons, List.not_mem_nil, or_false] at hd
    rcases hd with rfl | rfl <;> exact char_mem _
  | case4 => exact ⟨[], rfl, fun _ hc => absurd hc List.not_mem_nil, rfl⟩

theorem strip_repad (h : ∀ c ∈ cs, c ∈ alphabet) : strip (repad cs) = cs := by
  have hnot : ∀ c ∈ cs, c ≠ padding := by
    rintro c hc rfl
    exact absurd (h _ hc) (by decide +kernel)
  unfold strip repad
  rw [List.rdropWhile, List.reverse_append, List.reverse_replicate, List.dropWhile_append_of_pos]
  · cases hlast : cs.reverse with
    | nil => rw [List.reverse_eq_nil_iff.1 hlast]; rfl
    | cons c rest =>
      have hc : c ∈ cs := List.mem_reverse.1 (hlast ▸ List.mem_cons_self)
      rw [List.dropWhile_cons_of_neg (by simpa using hnot c hc), ← hlast, List.reverse_reverse]
  · intro c hc
    simpa using List.eq_of_mem_replicate hc

/-- **The round trip without the padding**: what is left of `n` bytes are characters of the alphabet,
of a length that `n` decides. -/
theorem decode_repad (bs : List UInt8) : decode (repad (strip (encode bs))) = some bs ∧
    (∀ c ∈ strip (encode bs), c ∈ alphabet) ∧
    (strip (encode bs)).length = (4 * bs.length + 2) / 3 := by
  obtain ⟨cs, hcs, halpha, hlength⟩ := encode_eq_repad bs
  rw [hcs, strip_repad halpha]
  exact ⟨hcs ▸ decode_encode bs, halpha, hlength⟩

end Base64
