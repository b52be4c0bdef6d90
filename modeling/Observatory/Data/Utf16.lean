import Mathlib.Data.List.Chain
import Observatory.Data.JsonText

/-!
# Texts as code units

A text is a list of code points, in which surrogates may stand alone; its code units are those of
UTF-16, so a high surrogate that a low one follows cannot be told from the character they stand for,
and nothing else is lost (`units_inj`).  Texts are quoted in ASCII with one escape for each unit that
is not printable, and the units can be read from that, whatever follows (`quotes_quote`).
-/

namespace Utf16

abbrev CodePoint := Fin 0x110000

abbrev CodeUnit := Fin 0x10000

/-! ## Code units -/

def high (n : ℕ) : CodeUnit := Fin.ofNat _ (0xD800 + n / 0x400)

def low (n : ℕ) : CodeUnit := Fin.ofNat _ (0xDC00 + n % 0x400)

/-- One unit, or two surrogates. -/
def unitsOf (c : CodePoint) : List CodeUnit :=
  if c.val < 0x10000 then [Fin.ofNat _ c.val]
  else [high (c.val - 0x10000), low (c.val - 0x10000)]

def units (s : List CodePoint) : List CodeUnit := s.flatMap unitsOf

def isHigh (n : ℕ) : Bool := 0xD800 ≤ n && n < 0xDC00

def isLow (n : ℕ) : Bool := 0xDC00 ≤ n && n < 0xE000

/-- No low surrogate follows a high one. -/
def Unpaired (s : List CodePoint) : Prop := s.IsChain fun c d => ¬(isHigh c.val ∧ isLow d.val)

section units

variable {s t : List CodePoint} {c d : CodePoint}

theorem high_val {n : ℕ} (h : n < 0x100000) : (high n).val = 0xD800 + n / 0x400 := by
  rw [high, Fin.val_ofNat, Nat.mod_eq_of_lt (by omega)]

theorem low_val (n : ℕ) : (low n).val = 0xDC00 + n % 0x400 := by
  rw [low, Fin.val_ofNat, Nat.mod_eq_of_lt (by omega)]

/-- The units of a character. -/
theorem unitsOf_cases (c : CodePoint) :
    (∃ u : CodeUnit, unitsOf c = [u] ∧ u.val = c.val) ∨
      ∃ u v : CodeUnit, unitsOf c = [u, v] ∧ isHigh u.val ∧ isLow v.val ∧
        c.val = 0x10000 + (u.val - 0xD800) * 0x400 + (v.val - 0xDC00) := by
  unfold unitsOf
  split
  · next hlt => exact .inl ⟨_, rfl, by rw [Fin.val_ofNat, Nat.mod_eq_of_lt hlt]⟩
  · next hge =>
    have hc := c.isLt
    refine .inr ⟨_, _, rfl, ?_, ?_, ?_⟩
    · rw [isHigh, high_val (by omega)]
      simp only [Bool.and_eq_true, decide_eq_true_eq]
      omega
    · rw [isLow, low_val]
      simp only [Bool.and_eq_true, decide_eq_true_eq]
      omega
    · rw [high_val (by omega), low_val]
      omega

theorem units_cons : units (c :: s) = unitsOf c ++ units s := List.flatMap_cons

theorem not_isLow_of_isHigh {n : ℕ} (h : isHigh n) : ¬isLow n := by
  simp only [isHigh, isLow, Bool.and_eq_true, decide_eq_true_eq] at h ⊢
  omega

/-- A low surrogate at the front of the units is one of the text. -/
theorem eq_cons_of_isLow {v : CodeUnit} {us : List CodeUnit} (h : units s = v :: us)
    (hv : isLow v.val) : ∃ c s', s = c :: s' ∧ c.val = v.val := by
  cases s with
  | nil => cases h
  | cons c s =>
    rw [units_cons] at h
    rcases unitsOf_cases c with ⟨u, hu, hval⟩ | ⟨u, u', hu, hhigh, -, -⟩
    · rw [hu] at h
      exact ⟨c, s, rfl, by rw [← hval, (List.cons.inj h).1]⟩
    · rw [hu] at h
      rw [(List.cons.inj h).1] at hhigh
      exact absurd hv (not_isLow_of_isHigh hhigh)

theorem not_pair_of_unpaired (hs : Unpaired (c :: s)) {v : CodeUnit} {us : List CodeUnit}
    (hc : isHigh c.val) (h : units s = v :: us) : ¬isLow v.val := by
  intro hv
  obtain ⟨d, s', rfl, hd⟩ := eq_cons_of_isLow h hv
  exact (List.isChain_cons_cons.1 hs).1 ⟨hc, hd ▸ hv⟩

/-- **A text without pairs** can be told from its code units. -/
theorem units_inj (hs : Unpaired s) (ht : Unpaired t) (h : units s = units t) : s = t := by
  have hne : ∀ c s, units (c :: s) ≠ [] := by
    intro c s hnil
    rw [units_cons] at hnil
    rcases unitsOf_cases c with ⟨u, hu, -⟩ | ⟨u, v, hu, -⟩ <;> rw [hu] at hnil <;> cases hnil
  induction s generalizing t with
  | nil =>
    cases t with
    | nil => rfl
    | cons d t => exact absurd h.symm (hne d t)
  | cons c s ih =>
    cases t with
    | nil => exact absurd h (hne c s)
    | cons d t =>
      have htails : unitsOf c = unitsOf d → units s = units t := by
        intro hcd
        rw [units_cons, units_cons, hcd] at h
        exact List.append_cancel_left h
      have htail : c = d → unitsOf c = unitsOf d → c :: s = d :: t := by
        intro hcd hunits
        have htail : s = t := ih hs.tail ht.tail (htails hunits)
        rw [hcd, htail]
      rw [units_cons, units_cons] at h
      rcases unitsOf_cases c with ⟨u, hu, hc⟩ | ⟨u, v, hu, hhigh, hlow, hc⟩ <;>
        rcases unitsOf_cases d with ⟨u', hu', hd⟩ | ⟨u', v', hu', hhigh', hlow', hd⟩ <;>
        rw [hu, hu'] at h
      · have huu := (List.cons.inj h).1
        exact htail (Fin.ext (by rw [← hc, huu, hd])) (by rw [hu, hu', huu])
      · obtain ⟨huu, hrest⟩ := List.cons.inj h
        exact absurd hlow' (not_pair_of_unpaired hs (by rw [← hc, huu]; exact hhigh') hrest)
      · obtain ⟨huu, hrest⟩ := List.cons.inj h
        exact absurd hlow (not_pair_of_unpaired ht (by rw [← hd, ← huu]; exact hhigh) hrest.symm)
      · obtain ⟨huu, hrest⟩ := List.cons.inj h
        have hvv := (List.cons.inj hrest).1
        exact htail (Fin.ext (by rw [hc, hd, huu, hvv])) (by rw [hu, hu', huu, hvv])

end units

/-! ## Quoting -/

/-- The escapes of two characters. -/
def shortEscapes : List (ℕ × Char) :=
  [(0x5C, '\\'), (0x22, '"'), (0x08, 'b'), (0x0C, 'f'), (0x0A, 'n'), (0x0D, 'r'), (0x09, 't')]

/-- The four digits of a unit. -/
def hex4 (n : ℕ) : List Char :=
  [n / 0x1000, n / 0x100 % 0x10, n / 0x10 % 0x10, n % 0x10].map Nat.digitChar

def escape (u : CodeUnit) : List Char :=
  match shortEscapes.lookup u.val with
  | some c => ['\\', c]
  | none => if 0x20 ≤ u.val ∧ u.val ≤ 0x7E then [Char.ofNat u.val] else '\\' :: 'u' :: hex4 u.val

def quote (us : List CodeUnit) : List Char := '"' :: (us.flatMap escape ++ ['"'])

section quote

variable {u v : CodeUnit} {us vs : List CodeUnit} {r r' : List Char}

def hexVal (c : Char) : ℕ := if c.isDigit then c.toNat - '0'.toNat else c.toNat - 'a'.toNat + 10

/-- What undoes one escape. -/
def unescape : List Char → Option (ℕ × List Char)
  | '\\' :: c :: r =>
    match c, r with
    | 'u', a :: b :: c :: d :: r =>
      some (hexVal a * 0x1000 + hexVal b * 0x100 + hexVal c * 0x10 + hexVal d, r)
    | c, r => (shortEscapes.find? fun e => e.2 = c).map fun e => (e.1, r)
  | c :: r => some (c.toNat, r)
  | [] => none

theorem hexVal_digitChar : ∀ n < 16, hexVal n.digitChar = n := by
  decide

theorem shortEscape_mem {n : ℕ} {c : Char} (h : shortEscapes.lookup n = some c) :
    (n, c) ∈ shortEscapes := by
  obtain ⟨before, after, hsplit, -⟩ := List.lookup_eq_some_iff.1 h
  exact hsplit ▸ by simp

theorem unescape_short : ∀ e ∈ shortEscapes, ∀ r, unescape ('\\' :: e.2 :: r) = some (e.1, r) := by
  simp [shortEscapes, unescape]

theorem unescape_plain {c : Char} (h : c ≠ '\\') : unescape (c :: r) = some (c.toNat, r) := by
  unfold unescape
  split <;> simp_all

theorem toNat_ofNat_plain {n : ℕ} (h : 0x20 ≤ n ∧ n ≤ 0x7E) : (Char.ofNat n).toNat = n := by
  unfold Char.ofNat
  rw [dif_pos (.inl (by omega))]
  rfl

theorem unescape_escape (u : CodeUnit) (r : List Char) :
    unescape (escape u ++ r) = some (u.val, r) := by
  unfold escape
  split
  · next c hshort => exact unescape_short _ (shortEscape_mem hshort) r
  · next hshort =>
    split
    · next hplain =>
      have hne : Char.ofNat u.val ≠ '\\' := by
        intro heq
        rw [← toNat_ofNat_plain hplain, heq] at hshort
        cases hshort
      rw [List.singleton_append, unescape_plain hne, toNat_ofNat_plain hplain]
    · have hu := u.isLt
      have hlt : ∀ n, n % 0x10 < 16 := fun n => Nat.mod_lt n (by decide)
      have hdigits : hexVal (Nat.digitChar (u.val / 0x1000)) * 0x1000 +
          hexVal (Nat.digitChar (u.val / 0x100 % 0x10)) * 0x100 +
          hexVal (Nat.digitChar (u.val / 0x10 % 0x10)) * 0x10 +
          hexVal (Nat.digitChar (u.val % 0x10)) = u.val := by
        rw [hexVal_digitChar _ (by omega), hexVal_digitChar _ (hlt _), hexVal_digitChar _ (hlt _),
          hexVal_digitChar _ (hlt _)]
        omega
      exact congrArg (fun n => some (n, r)) hdigits

theorem escape_append_inj (h : escape u ++ r = escape v ++ r') : u = v ∧ r = r' := by
  have hread := congrArg unescape h
  rw [unescape_escape, unescape_escape] at hread
  obtain ⟨huv, hr⟩ := Prod.mk.inj (Option.some.inj hread)
  exact ⟨Fin.ext huv, hr⟩

/-- The quotation mark is escaped. -/
theorem escape_eq_cons (u : CodeUnit) : ∃ c cs, escape u = c :: cs ∧ c ≠ '"' := by
  unfold escape
  split
  · exact ⟨_, _, rfl, by decide⟩
  · next hshort =>
    split
    · next hplain =>
      refine ⟨_, _, rfl, fun heq => ?_⟩
      rw [← toNat_ofNat_plain hplain, heq] at hshort
      cases hshort
    · exact ⟨_, _, rfl, by decide⟩

theorem quote_append_inj (h : quote us ++ r = quote vs ++ r') : us = vs ∧ r = r' := by
  have htail : us.flatMap escape ++ '"' :: r = vs.flatMap escape ++ '"' :: r' := by
    simpa [quote] using h
  clear h
  induction us generalizing vs with
  | nil =>
    cases vs with
    | nil => exact ⟨rfl, (List.cons.inj htail).2⟩
    | cons v vs =>
      obtain ⟨c, cs, hc, hne⟩ := escape_eq_cons v
      rw [List.flatMap_cons, hc] at htail
      exact absurd (List.cons.inj htail).1.symm hne
  | cons u us ih =>
    cases vs with
    | nil =>
      obtain ⟨c, cs, hc, hne⟩ := escape_eq_cons u
      rw [List.flatMap_cons, hc] at htail
      exact absurd (List.cons.inj htail).1 hne
    | cons v vs =>
      rw [List.flatMap_cons, List.flatMap_cons, List.append_assoc, List.append_assoc] at htail
      obtain ⟨huv, hrest⟩ := escape_append_inj htail
      obtain ⟨hus, hr⟩ := ih hrest
      exact ⟨by rw [huv, hus], hr⟩

/-- **Quoted units can be read**, whatever follows. -/
theorem quotes_quote : JsonText.Value.Quotes quote where
  opens _ := ⟨_, rfl⟩
  reads _ _ _ _ := quote_append_inj

end quote

end Utf16
