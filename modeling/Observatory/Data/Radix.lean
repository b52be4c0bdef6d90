import Mathlib.Data.List.TakeWhile
import Mathlib.Data.Nat.Digits.Lemmas

/-!
# Numerals in two bases

A list of digits, most significant first, is written again in another base, and each of its leading
zeros becomes a zero.  So nothing is lost (`rebase_rebase`): the zeros give the length back that the
number does not.  Numbers of one block, the multiples of a power of the base and what lies between
two of them, begin with the same digits (`digits_block`).  A number is also written with a fixed
number of digits, which loses nothing of a number that has no more (`fixed_inj`).
-/

namespace Radix

/-- The digits of a number, most significant first. -/
def digits (b n : ℕ) : List ℕ := (Nat.digits b n).reverse

/-- The number with these digits. -/
def value (b : ℕ) (ds : List ℕ) : ℕ := Nat.ofDigits b ds.reverse

/-- How many zeros a list begins with. -/
def zeros (ds : List ℕ) : ℕ := (ds.takeWhile (· = 0)).length

/-- Digits of base `b` in base `c`, with the leading zeros. -/
def rebase (b c : ℕ) (ds : List ℕ) : List ℕ :=
  List.replicate (zeros ds) 0 ++ digits c (value b ds)

variable {b c n k : ℕ} {ds : List ℕ}

/-- The list does not begin with a zero. -/
def Significant (ds : List ℕ) : Prop := ∀ d ∈ ds.head?, d ≠ 0

@[simp]
theorem value_digits : value b (digits b n) = n := by
  rw [value, digits, List.reverse_reverse, Nat.ofDigits_digits]

theorem lt_of_mem_digits (hb : 1 < b) {d : ℕ} (hd : d ∈ digits b n) : d < b :=
  Nat.digits_lt_base hb (List.mem_reverse.1 hd)

theorem significant_digits : Significant (digits b n) := by
  intro d hd hzero
  rw [digits, List.head?_reverse, Option.mem_def] at hd
  have hn : n ≠ 0 := by
    rintro rfl
    rw [Nat.digits_zero] at hd
    cases hd
  rw [List.getLast?_eq_some_getLast (Nat.digits_ne_nil_iff_ne_zero.2 hn), Option.some.injEq] at hd
  exact Nat.getLast_digit_ne_zero b hn (hd.trans hzero)

theorem digits_value (hb : 1 < b) (hlt : ∀ d ∈ ds, d < b) (hsig : Significant ds) :
    digits b (value b ds) = ds := by
  rw [digits, value, Nat.digits_ofDigits b hb, List.reverse_reverse]
  · intro d hd
    exact hlt d (List.mem_reverse.1 hd)
  · intro hne
    refine hsig _ ?_
    rw [Option.mem_def, ← List.getLast?_reverse, List.getLast?_eq_some_getLast hne]

/-! ## Leading zeros -/

@[simp]
theorem value_zeros_append : value b (List.replicate k 0 ++ ds) = value b ds := by
  rw [value, value, List.reverse_append, List.reverse_replicate, Nat.ofDigits_append_replicate_zero]

theorem zeros_append (hsig : Significant ds) : zeros (List.replicate k 0 ++ ds) = k := by
  have htake : ds.takeWhile (· = 0) = [] := by
    cases ds with
    | nil => rfl
    | cons d ds => exact List.takeWhile_cons_of_neg (by simpa using hsig d rfl)
  rw [zeros, List.takeWhile_append_of_pos (fun d hd => by simpa using List.eq_of_mem_replicate hd),
    htake, List.append_nil, List.length_replicate]

theorem zeros_append_significant (ds : List ℕ) :
    ∃ rest, Significant rest ∧ ds = List.replicate (zeros ds) 0 ++ rest := by
  refine ⟨ds.dropWhile (· = 0), fun d hd => ?_, ?_⟩
  · have hnot := List.head?_dropWhile_not (· = 0) ds
    rw [Option.mem_def.1 hd] at hnot
    simpa using hnot
  · have htake : ds.takeWhile (· = 0) = List.replicate (zeros ds) 0 :=
      List.eq_replicate_of_mem fun d hd => by simpa using List.mem_takeWhile_imp hd
    rw [← htake, List.takeWhile_append_dropWhile]

/-- **Nothing is lost** by a change of the base. -/
theorem rebase_rebase (hb : 1 < b) (hlt : ∀ d ∈ ds, d < b) : rebase c b (rebase b c ds) = ds := by
  obtain ⟨rest, hsig, hds⟩ := zeros_append_significant ds
  have hzeros : zeros (rebase b c ds) = zeros ds := zeros_append significant_digits
  have hvalue : value c (rebase b c ds) = value b ds := by
    rw [rebase, value_zeros_append, value_digits]
  have hrest : digits b (value b ds) = rest := by
    rw [hds, value_zeros_append]
    exact digits_value hb (fun d hd => hlt d (hds ▸ List.mem_append_right _ hd)) hsig
  rw [rebase, hzeros, hvalue, hrest, ← hds]

theorem lt_of_mem_rebase (hc : 1 < c) {d : ℕ} (hd : d ∈ rebase b c ds) : d < c := by
  rcases List.mem_append.1 hd with hd | hd
  · rw [List.eq_of_mem_replicate hd]
    exact Nat.zero_lt_of_lt hc
  · exact lt_of_mem_digits hc hd

theorem rebase_of_significant (hsig : Significant ds) : rebase b c ds = digits c (value b ds) := by
  have hzeros : zeros ds = 0 := zeros_append (k := 0) hsig
  rw [rebase, hzeros, List.replicate_zero, List.nil_append]

/-! ## Blocks -/

/-- **The numbers of a block** have the same digits in front. -/
theorem digits_block {p : ℕ} (hb : 1 < b) (hp : 0 < p) (hle : p * b ^ k ≤ n)
    (hlt : n < (p + 1) * b ^ k) :
    ∃ low, low.length = k ∧ digits b n = digits b p ++ low := by
  obtain ⟨r, rfl⟩ := Nat.exists_eq_add_of_le hle
  have hr : r < b ^ k := by
    rw [Nat.add_mul, Nat.one_mul] at hlt
    omega
  have hlength : (Nat.digits b r).length ≤ k := (Nat.digits_length_le_iff hb r).2 hr
  obtain ⟨pad, hpad⟩ := Nat.exists_eq_add_of_le hlength
  refine ⟨(Nat.digits b r ++ List.replicate pad 0).reverse, ?_, ?_⟩
  · rw [List.length_reverse, List.length_append, List.length_replicate, ← hpad]
  · have hdigits := Nat.digits_append_zeroes_append_digits (n := r) (k := pad) hb hp
    rw [← hpad, Nat.mul_comm, Nat.add_comm] at hdigits
    rw [digits, digits, ← hdigits, List.reverse_append]

theorem length_digits_eq_iff (hb : 1 < b) :
    (digits b n).length = k + 1 ↔ b ^ k ≤ n ∧ n < b ^ (k + 1) := by
  rw [digits, List.length_reverse, ← Nat.lt_digits_length_iff hb, ← Nat.digits_length_le_iff hb]
  omega

/-- The value of numerals with the same digits in front lies in one block. -/
theorem value_append {es : List ℕ} :
    value b (ds ++ es) = value b ds * b ^ es.length + value b es := by
  rw [value, value, value, List.reverse_append, Nat.ofDigits_append, List.length_reverse,
    Nat.mul_comm, Nat.add_comm]

theorem value_lt (hb : 1 < b) (hlt : ∀ d ∈ ds, d < b) : value b ds < b ^ ds.length := by
  rw [value, ← List.length_reverse]
  exact Nat.ofDigits_lt_base_pow_length hb fun d hd => hlt d (List.mem_reverse.1 hd)

/-! ## A fixed number of digits -/

/-- The last `k` digits of a number, zeros included. -/
def fixed (b : ℕ) : ℕ → ℕ → List ℕ
  | 0, _ => []
  | k + 1, n => fixed b k (n / b) ++ [n % b]

@[simp]
theorem length_fixed : ∀ k n, (fixed b k n).length = k
  | 0, _ => rfl
  | k + 1, n => by rw [fixed, List.length_append, length_fixed, List.length_singleton]

theorem lt_of_mem_fixed (hb : 0 < b) {d : ℕ} : ∀ {k n}, d ∈ fixed b k n → d < b
  | k + 1, n, hd => by
    rcases List.mem_append.1 hd with hd | hd
    · exact lt_of_mem_fixed hb hd
    · rw [List.mem_singleton.1 hd]
      exact Nat.mod_lt n hb

/-- **Nothing is lost** of a number with at most `k` digits. -/
theorem fixed_inj : ∀ {k m n}, m < b ^ k → n < b ^ k → fixed b k m = fixed b k n → m = n
  | 0, m, n, hm, hn, _ => by
    rw [Nat.pow_zero, Nat.lt_one_iff] at hm hn
    rw [hm, hn]
  | k + 1, m, n, hm, hn, h => by
    obtain ⟨hfront, hlast⟩ := List.append_inj' h rfl
    have hhigh : m / b = n / b := by
      refine fixed_inj ?_ ?_ hfront
      · exact Nat.div_lt_of_lt_mul (by rwa [← Nat.pow_succ'])
      · exact Nat.div_lt_of_lt_mul (by rwa [← Nat.pow_succ'])
    have hlow : m % b = n % b := (List.cons.inj hlast).1
    rw [← Nat.div_add_mod m b, ← Nat.div_add_mod n b, hhigh, hlow]

end Radix
