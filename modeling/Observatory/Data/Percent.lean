import Mathlib.Data.List.Basic
import Mathlib.Tactic.Common

/-!
# Percent encoding

Every byte but the unreserved characters is written as a percent sign and two hexadecimal digits, so
that nothing of the text can be taken for a separator.  Reading the escapes back gives the bytes
(`unquote_quote`).
-/

namespace Percent

/-- Letters, digits and `_ . - ~`. -/
def isUnreserved (b : UInt8) : Bool :=
  (0x41 ≤ b.toNat && b.toNat ≤ 0x5A) || (0x61 ≤ b.toNat && b.toNat ≤ 0x7A) ||
    (0x30 ≤ b.toNat && b.toNat ≤ 0x39) || b.toNat ∈ [0x5F, 0x2E, 0x2D, 0x7E]

def hexChar (d : ℕ) : Char := "0123456789ABCDEF".toList.getD d '0'

/-- The value of a digit, in either case. -/
def hexValue (c : Char) : Option ℕ :=
  ("0123456789ABCDEF".toList.idxOf? c).or ("0123456789abcdef".toList.idxOf? c)

/-- `%XX` -/
def escape (b : UInt8) : List Char := ['%', hexChar (b.toNat / 16), hexChar (b.toNat % 16)]

def quoteByte (b : UInt8) : List Char :=
  if isUnreserved b then [Char.ofNat b.toNat] else escape b

def quote (bs : List UInt8) : List Char := bs.flatMap quoteByte

/-- Read the escapes; what is none stands for itself. -/
def unquote : List Char → List UInt8
  | '%' :: x :: y :: cs =>
    match hexValue x, hexValue y with
    | some hi, some lo => UInt8.ofNat (16 * hi + lo) :: unquote cs
    | _, _ => UInt8.ofNat '%'.toNat :: unquote (x :: y :: cs)
  | c :: cs => String.utf8EncodeChar c ++ unquote cs
  | [] => []

theorem hexChar_spec : ∀ d < 16, hexValue (hexChar d) = some d ∧
    hexChar d ∈ "0123456789ABCDEF".toList := by decide +kernel

/-- The characters that a quoted text is made of. -/
def isQuoted (c : Char) : Bool := c.isAlphanum || c ∈ ['_', '.', '-', '~', '%']

/-- An unreserved character is its own byte. -/
theorem unreserved_spec {b : UInt8} (hb : isUnreserved b = true) :
    Char.ofNat b.toNat ≠ '%' ∧ String.utf8EncodeChar (Char.ofNat b.toNat) = [b] ∧
      isQuoted (Char.ofNat b.toNat) = true := by
  have hall : ∀ n < 256, isUnreserved (UInt8.ofNat n) = true →
      Char.ofNat n ≠ '%' ∧ String.utf8EncodeChar (Char.ofNat n) = [UInt8.ofNat n] ∧
        isQuoted (Char.ofNat n) = true := by decide +kernel
  have hspec := hall b.toNat b.toNat_lt
  rw [UInt8.ofNat_toNat] at hspec
  exact hspec hb

theorem unquote_cons {c : Char} {cs : List Char} (hc : c ≠ '%') :
    unquote (c :: cs) = String.utf8EncodeChar c ++ unquote cs := by
  rw [unquote]
  rintro x y rest rfl
  exact absurd rfl hc

theorem unquote_quoteByte (b : UInt8) (cs : List Char) :
    unquote (quoteByte b ++ cs) = b :: unquote cs := by
  unfold quoteByte
  split_ifs with hb
  · obtain ⟨hne, hbyte, -⟩ := unreserved_spec hb
    rw [List.singleton_append, unquote_cons hne, hbyte, List.singleton_append]
  · have hlt := b.toNat_lt
    obtain ⟨hhi, -⟩ := hexChar_spec (b.toNat / 16) (by omega)
    obtain ⟨hlo, -⟩ := hexChar_spec (b.toNat % 16) (by omega)
    simp only [escape, List.cons_append, List.nil_append, unquote, hhi, hlo]
    rw [Nat.div_add_mod, UInt8.ofNat_toNat]

/-- **Reading back what was quoted.** -/
theorem unquote_quote (bs : List UInt8) : unquote (quote bs) = bs := by
  induction bs with
  | nil => rfl
  | cons b bs ih =>
    have hcons : quote (b :: bs) = quoteByte b ++ quote bs := List.flatMap_cons
    rw [hcons, unquote_quoteByte, ih]

theorem isQuoted_of_mem {c : Char} {bs : List UInt8} (hc : c ∈ quote bs) : isQuoted c = true := by
  have hhex : "0123456789ABCDEF".toList.all isQuoted = true := by decide +kernel
  obtain ⟨b, -, hb⟩ := List.mem_flatMap.1 hc
  unfold quoteByte at hb
  split_ifs at hb with hun
  · rw [List.mem_singleton.1 hb]
    exact (unreserved_spec hun).2.2
  · have hlt := b.toNat_lt
    simp only [escape, List.mem_cons, List.not_mem_nil, or_false] at hb
    rcases hb with rfl | rfl | rfl
    · decide
    · exact List.all_eq_true.1 hhex _ (hexChar_spec _ (by omega)).2
    · exact List.all_eq_true.1 hhex _ (hexChar_spec _ (by omega)).2

end Percent
