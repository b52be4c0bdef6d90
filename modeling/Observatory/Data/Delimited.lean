import Mathlib.Data.List.Infix
import Mathlib.Tactic.Common

/-!
# Text between two markers

A text over any alphabet, an opening and a closing marker.  `d.Encloses t p i` says that the
position `i` of `t` lies strictly inside the pair `p`: an opening marker, then a stretch without
any marker, then a closing marker.

The markers of a `Delimiters` cannot overlap, neither with themselves nor with each other.  Two
marks in a text are therefore apart (`Marked.apart`), a position lies inside at most one pair
(`Encloses.unique`), one that belongs to a marker lies inside none (`not_encloses_of_marked`), and
marking off a stretch without markers puts each of its positions inside exactly one pair, whatever
surrounds it (`existsUnique_encloses`).
-/

namespace Delimited

variable {α : Type*}

/-- **What stands before the first `b`** is determined, and what stands after it. -/
theorem first_unique {b : α} : ∀ {x x' y y' : List α}, b ∉ x → b ∉ x' →
    x ++ b :: y = x' ++ b :: y' → x = x' ∧ y = y'
  | [], [], _, _, _, _, h => ⟨rfl, (List.cons.inj h).2⟩
  | [], c :: x', _, _, _, hx', h => by
    obtain ⟨rfl, -⟩ := List.cons.inj h
    exact (hx' List.mem_cons_self).elim
  | c :: x, [], _, _, hx, _, h => by
    obtain ⟨rfl, -⟩ := List.cons.inj h
    exact (hx List.mem_cons_self).elim
  | c :: x, d :: x', y, y', hx, hx', h => by
    obtain ⟨rfl, htail⟩ := List.cons.inj h
    obtain ⟨rfl, rfl⟩ := first_unique (fun hc => hx (List.mem_cons_of_mem c hc))
      (fun hc => hx' (List.mem_cons_of_mem c hc)) htail
    exact ⟨rfl, rfl⟩

/-- An opening and a closing marker, neither of which can begin inside an occurrence of either. -/
structure Delimiters (α : Type*) where
  opening : List α
  closing : List α
  apart : ∀ m ∈ [opening, closing], ∀ m' ∈ [opening, closing], ∀ k < m.length, 0 < k →
    ¬m.drop k <+: m' ∧ ¬m' <+: m.drop k
  differ : ¬opening <+: closing ∧ ¬closing <+: opening

/-- `m` occurs in `t` at the position `i`. -/
def At (m t : List α) (i : ℕ) : Prop := m <+: t.drop i

theorem at_append (a m b : List α) : At m (a ++ m ++ b) a.length := by
  unfold At
  rw [List.append_assoc, List.drop_left]
  exact List.prefix_append m b

theorem at_of_eq {a m b t : List α} (h : t = a ++ m ++ b) : At m t a.length := by
  rw [h]
  exact at_append a m b

/-- An occurrence inside a stretch of the text is an occurrence in the stretch. -/
theorem At.infix {m a s b : List α} {i : ℕ} (h : At m (a ++ s ++ b) i) (hlo : a.length ≤ i)
    (hhi : i + m.length ≤ a.length + s.length) : m <:+: s := by
  unfold At at h
  obtain ⟨j, rfl⟩ := Nat.exists_eq_add_of_le hlo
  have hj : j ≤ s.length := by omega
  rw [List.append_assoc, ← List.drop_drop, List.drop_left, List.drop_append_of_le_length hj] at h
  have hpre : m <+: s.drop j := by
    refine List.prefix_of_prefix_length_le h (List.prefix_append _ _) ?_
    rw [List.length_drop]
    omega
  exact hpre.isInfix.trans (List.drop_suffix j s).isInfix

/-- A marker without the letter `c` that occurs in a text between two `c` occurs in the text. -/
theorem infix_of_guarded {c : α} {m s : List α} (hc : c ∉ m) (h : m <:+: c :: (s ++ [c])) :
    m <:+: s := by
  rcases List.infix_cons_iff.1 h with hpre | hin
  · cases m with
    | nil => exact List.nil_infix
    | cons b m =>
      obtain ⟨rfl, -⟩ := List.cons_prefix_cons.1 hpre
      exact absurd List.mem_cons_self hc
  · rcases List.infix_concat_iff.1 hin with hsuf | hin
    · obtain ⟨x, hx⟩ := hsuf
      rcases List.eq_nil_or_concat m with rfl | ⟨m, b, rfl⟩
      · exact List.nil_infix
      · rw [List.concat_eq_append, ← List.append_assoc] at hx
        obtain ⟨-, heq⟩ := List.append_inj' hx rfl
        rw [List.singleton_inj.1 heq] at hc
        exact absurd (by simp) hc
    · exact hin

theorem exists_at_of_infix {m s : List α} (h : m <:+: s) :
    ∃ i, i + m.length ≤ s.length ∧ ∀ a b, At m (a ++ s ++ b) (a.length + i) := by
  obtain ⟨x, y, rfl⟩ := h
  refine ⟨x.length, ?_, fun a b => ?_⟩
  · rw [List.length_append, List.length_append]
    omega
  · have hsplit : a ++ (x ++ m ++ y) ++ b = (a ++ x) ++ m ++ (y ++ b) := by
      simp only [List.append_assoc]
    rw [hsplit, ← List.length_append]
    exact at_append _ _ _

namespace Delimiters

variable (d : Delimiters α) {t : List α} {i j : ℕ}

/-- A marker stands at the position `i`. -/
def Marked (t : List α) (i : ℕ) (m : List α) : Prop :=
  m ∈ [d.opening, d.closing] ∧ At m t i

/-- No marker occurs in `t`. -/
def Unmarked (t : List α) : Prop := ∀ m ∈ [d.opening, d.closing], ¬m <:+: t

instance [DecidableEq α] (t : List α) : Decidable (d.Unmarked t) :=
  inferInstanceAs (Decidable (∀ m ∈ [d.opening, d.closing], ¬m <:+: t))

variable {d} in
/-- **Two markers of one text are apart.** -/
theorem Marked.apart {m m' : List α} (h : d.Marked t i m) (h' : d.Marked t j m') (hlt : i < j) :
    i + m.length ≤ j := by
  by_contra hover
  obtain ⟨k, rfl⟩ := Nat.exists_eq_add_of_le hlt.le
  have hk : k < m.length := by omega
  have hdrop : m.drop k <+: t.drop (i + k) := by
    rw [← List.drop_drop]
    exact h.2.drop k
  obtain ⟨hnot, hnot'⟩ := d.apart m h.1 m' h'.1 k hk (by omega)
  rcases List.prefix_or_prefix_of_prefix hdrop h'.2 with hpre | hpre
  · exact hnot hpre
  · exact hnot' hpre

variable {d} in
/-- One position holds one marker. -/
theorem Marked.same {m m' : List α} (h : d.Marked t i m) (h' : d.Marked t i m') : m = m' := by
  have hpre := List.prefix_or_prefix_of_prefix h.2 h'.2
  obtain ⟨hnot, hnot'⟩ := d.differ
  rcases List.mem_pair.1 h.1 with rfl | rfl <;> rcases List.mem_pair.1 h'.1 with rfl | rfl
  · rfl
  · exact absurd (hpre.resolve_left hnot) hnot'
  · exact absurd (hpre.resolve_left hnot') hnot
  · rfl

/-- `p.1` and `p.2` are the places of an opening and of a closing marker with no marker between
them. -/
structure Pair (t : List α) (p : ℕ × ℕ) : Prop where
  opens : d.Marked t p.1 d.opening
  closes : d.Marked t p.2 d.closing
  order : p.1 + d.opening.length ≤ p.2
  unmarked : ∀ k m, d.Marked t k m → p.1 < k → p.2 ≤ k

/-- The position `i` of `t` lies strictly inside the pair `p`. -/
structure Encloses (t : List α) (p : ℕ × ℕ) (i : ℕ) : Prop where
  pair : d.Pair t p
  after : p.1 + d.opening.length ≤ i
  before : i < p.2

variable {d}

theorem opening_ne_nil (d : Delimiters α) : d.opening ≠ [] := by
  intro h
  exact d.differ.1 (h ▸ List.nil_prefix)

/-- **A position lies inside at most one pair.** -/
theorem Encloses.unique {p q : ℕ × ℕ} (h : d.Encloses t p i) (h' : d.Encloses t q i) : p = q := by
  have hpos := List.length_pos_iff.2 d.opening_ne_nil
  have hopen : ∀ {p q : ℕ × ℕ}, d.Encloses t p i → d.Encloses t q i → ¬p.1 < q.1 := by
    intro p q hp hq hlt
    -- the later opening marker would stand inside the earlier pair
    have hle := hp.pair.unmarked _ _ hq.pair.opens hlt
    have := hq.after
    have := hp.before
    omega
  have hfst : p.1 = q.1 := le_antisymm (not_lt.1 (hopen h' h)) (not_lt.1 (hopen h h'))
  have hclose : ∀ {p q : ℕ × ℕ}, d.Encloses t p i → d.Encloses t q i → p.2 ≤ q.2 := by
    intro p q hp hq
    refine hp.pair.unmarked _ _ hq.pair.closes ?_
    have := hp.after
    have := hq.before
    omega
  exact Prod.ext hfst (le_antisymm (hclose h h') (hclose h' h))

/-- **A position that belongs to a marker lies inside no pair.** -/
theorem not_encloses_of_marked {p : ℕ × ℕ} {m : List α} (hm : d.Marked t j m) (hlo : j ≤ i)
    (hhi : i < j + m.length) : ¬d.Encloses t p i := by
  intro h
  have hafter := h.after
  have hbefore := h.before
  rcases lt_trichotomy j p.1 with hlt | heq | hlt
  · have := hm.apart h.pair.opens hlt
    omega
  · rw [heq] at hm
    rw [hm.same h.pair.opens] at hhi
    omega
  · have := h.pair.unmarked _ _ hm hlt
    omega

/-- An opening marker, a stretch without markers and a closing marker are a pair wherever they
stand. -/
theorem pair_of_unmarked {a mid b : List α} (hmid : d.Unmarked mid)
    (ht : t = a ++ d.opening ++ mid ++ d.closing ++ b) :
    d.Pair t (a.length, a.length + d.opening.length + mid.length) := by
  have hopens : d.Marked t a.length d.opening := by
    refine ⟨List.mem_cons_self, ?_⟩
    have hsplit : t = a ++ d.opening ++ (mid ++ d.closing ++ b) := by
      simp only [ht, List.append_assoc]
    exact at_of_eq hsplit
  have hcloses : d.Marked t (a.length + d.opening.length + mid.length) d.closing := by
    refine ⟨List.mem_cons_of_mem _ List.mem_cons_self, ?_⟩
    rw [← List.length_append, ← List.length_append]
    exact at_of_eq ht
  refine ⟨hopens, hcloses, Nat.le_add_right _ _, fun k m hm hlt => ?_⟩
  by_contra hbetween
  -- a marker that begins between the two lies between them, since markers are apart
  have hlo := hopens.apart hm hlt
  have hhi := hm.apart hcloses (not_le.1 hbetween)
  have hsplit : t = (a ++ d.opening) ++ mid ++ (d.closing ++ b) := by
    simp only [ht, List.append_assoc]
  rw [← List.length_append] at hlo
  have hin : m <:+: mid := by
    have hat := hm.2
    rw [hsplit] at hat
    refine At.infix hat hlo ?_
    rw [List.length_append]
    omega
  exact hmid m hm.1 hin

/-- **What is marked off lies inside exactly one pair**, whatever stands around it. -/
theorem existsUnique_encloses {a mid b : List α} (hmid : d.Unmarked mid)
    (ht : t = a ++ d.opening ++ mid ++ d.closing ++ b) (hlo : a.length + d.opening.length ≤ i)
    (hhi : i < a.length + d.opening.length + mid.length) : ∃! p, d.Encloses t p i := by
  have hp : d.Encloses t (a.length, a.length + d.opening.length + mid.length) i :=
    ⟨pair_of_unmarked hmid ht, hlo, hhi⟩
  exact ⟨_, hp, fun q hq => hq.unique hp⟩

end Delimiters

end Delimited
