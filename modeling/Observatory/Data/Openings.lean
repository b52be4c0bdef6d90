import Mathlib.Data.List.Forall2
import Observatory.Data.Matches

/-!
# Openings

What a substitution finds in a text that others have gone over before.  Where every string that is
put in ends with the same mark, a stretch of the new text without the mark that runs to the end of
some pieces has come through as it was (`kept_of_notMem`); so has, anywhere, a string of a shape
that fits on no part of what is put in (`kept_of_fits`).  A stretch that begins with such a string
and runs on to a given place was there before, or something was put in after its beginning
(`Runs.back`); and of a copy of a string that ends at a given place, what stands after the last mark
was there (`Ends.back`).

A copy of `w ++ t` that no match cuts is taken with its end, or comes through whole
(`passes_of_not_cuts`).
-/

namespace Regex

variable {α : Type}

/-- The characters of a string, each by what it may be. -/
abbrev Shape (α : Type) := List (α → Bool)

def Fits (t : Shape α) (y : List α) : Prop := List.Forall₂ (fun p c => p c = true) t y

/-- A string of the shape stands in the text. -/
def Occurs (t : Shape α) (x : List α) : Prop := ∃ y, Fits t y ∧ y <:+: x

def Opened (ts : List (Shape α)) (x : List α) : Prop := ∃ t ∈ ts, Occurs t x

/-- What a rule puts in. -/
def Rule.puts (s : Rule α) : List (List α) := s.filterMap Portion.put

/-- No string of the shape has a part of `new` in it if it stands in a text in which `new`, with the
mark `g` at its end, has been put in. -/
structure Apart (g : α) (t : Shape α) (new : List α) : Prop where
  last : new.getLast? = some g
  avoids : ∀ p ∈ t, p g = false
  start : ∀ t', t' <:+ t → t' ≠ [] → ∀ y, y <+: new → ¬Fits t' y
  inside : ¬Occurs t new

/-! ## Shapes -/

section shapes

variable {t : Shape α} {x y : List α} {g : α} {new : List α}

instance (t : Shape α) (y : List α) : Decidable (Fits t y) :=
  inferInstanceAs (Decidable (List.Forall₂ (fun p c => p c = true) t y))

theorem Fits.length_eq (h : Fits t y) : t.length = y.length := List.Forall₂.length_eq h

theorem Fits.mem (h : Fits t y) {c : α} (hc : c ∈ y) : ∃ p ∈ t, p c = true := by
  induction h with
  | nil => cases hc
  | @cons p d t y hp h ih =>
    rcases List.mem_cons.1 hc with rfl | hc
    · exact ⟨p, List.mem_cons_self, hp⟩
    · obtain ⟨p', hp', hfits⟩ := ih hc
      exact ⟨p', List.mem_cons_of_mem p hp', hfits⟩

theorem Fits.ne_nil (h : Fits t y) (ht : t ≠ []) : y ≠ [] := by
  rintro rfl
  exact ht (List.length_eq_zero_iff.1 h.length_eq)

theorem Fits.split {a b : List α} (h : Fits t (a ++ b)) :
    ∃ t₁ t₂, t = t₁ ++ t₂ ∧ Fits t₁ a ∧ Fits t₂ b :=
  ⟨_, _, (List.take_append_drop a.length t).symm, List.forall₂_take_append t a b h,
    List.forall₂_drop_append t a b h⟩

theorem Fits.append {t' : Shape α} {z : List α} (h : Fits t y) (h' : Fits t' z) :
    Fits (t ++ t') (y ++ z) := List.rel_append h h'

theorem fits_replicate {p : α → Bool} (h : ∀ c ∈ y, p c = true) {k : ℕ} (hk : y.length = k) :
    Fits (List.replicate k p) y := by
  subst hk
  induction y with
  | nil => exact .nil
  | cons c y ih =>
    exact .cons (h c List.mem_cons_self) (ih fun d hd => h d (List.mem_cons_of_mem c hd))

theorem fits_map {β : Type} {f : β → α → Bool} {ls : List β} :
    Fits (ls.map f) y ↔ List.Forall₂ (fun l c => f l c = true) ls y :=
  List.forall₂_map_left_iff

theorem fits_same [DecidableEq α] : Fits (x.map fun l c => decide (c = l)) y ↔ y = x := by
  rw [fits_map]
  constructor
  · intro h
    induction h with
    | nil => rfl
    | cons hc h ih => rw [of_decide_eq_true hc, ih]
  · rintro rfl
    exact List.forall₂_same.2 fun c _ => decide_eq_true rfl

/-- If the characters of `y` may be more, they still fit. -/
theorem Fits.map_mono {β : Type} {f f' : β → α → Bool} {ls : List β} (h : Fits (ls.map f) y)
    (hle : ∀ l, ∀ c ∈ y, f l c = true → f' l c = true) : Fits (ls.map f') y := by
  rw [fits_map] at h ⊢
  induction h with
  | nil => exact .nil
  | cons hc h ih =>
    exact .cons (hle _ _ List.mem_cons_self hc)
      (ih fun l c hc => hle l c (List.mem_cons_of_mem _ hc))

theorem occurs_iff : Occurs t x ↔ ∃ z ∈ x.tails, Fits t (z.take t.length) := by
  constructor
  · rintro ⟨y, hy, a, b, rfl⟩
    refine ⟨y ++ b, (List.mem_tails _ _).2 ⟨a, by rw [List.append_assoc]⟩, ?_⟩
    rw [hy.length_eq, List.take_left]
    exact hy
  · rintro ⟨z, hz, hfits⟩
    exact ⟨_, hfits, (List.take_prefix _ z).isInfix.trans ((List.mem_tails _ _).1 hz).isInfix⟩

instance (t : Shape α) (x : List α) : Decidable (Occurs t x) :=
  decidable_of_iff _ occurs_iff.symm

instance (ts : List (Shape α)) (x : List α) : Decidable (Opened ts x) :=
  inferInstanceAs (Decidable (∃ t ∈ ts, Occurs t x))

theorem occurs_same [DecidableEq α] : Occurs (y.map fun l c => decide (c = l)) x ↔ y <:+: x := by
  constructor
  · rintro ⟨z, hz, hin⟩
    rwa [fits_same.1 hz] at hin
  · exact fun hin => ⟨y, fits_same.2 rfl, hin⟩

theorem Occurs.mono (h : Occurs t x) (hx : x <:+: y) : Occurs t y := by
  obtain ⟨z, hz, hin⟩ := h
  exact ⟨z, hz, hin.trans hx⟩

theorem Opened.mono {ts : List (Shape α)} (h : Opened ts x) (hx : x <:+: y) : Opened ts y := by
  obtain ⟨t, ht, ho⟩ := h
  exact ⟨t, ht, ho.mono hx⟩

theorem apart_iff [DecidableEq α] : Apart g t new ↔ new.getLast? = some g ∧ (∀ p ∈ t, p g = false) ∧
    (∀ t' ∈ t.tails, t' = [] ∨ ¬Fits t' (new.take t'.length)) ∧ ¬Occurs t new := by
  constructor
  · rintro ⟨hlast, havoids, hstart, hinside⟩
    refine ⟨hlast, havoids, fun t' ht' => or_iff_not_imp_left.2 fun hne => ?_, hinside⟩
    exact hstart t' ((List.mem_tails _ _).1 ht') hne _ (List.take_prefix _ new)
  · rintro ⟨hlast, havoids, hstart, hinside⟩
    refine ⟨hlast, havoids, fun t' ht' hne y hy hfits => ?_, hinside⟩
    refine ((hstart t' ((List.mem_tails _ _).2 ht')).resolve_left hne) ?_
    rw [hfits.length_eq, ← List.prefix_iff_eq_take.1 hy]
    exact hfits

instance [DecidableEq α] (g : α) (t : Shape α) (new : List α) : Decidable (Apart g t new) :=
  decidable_of_iff _ apart_iff.symm

/-- The characters of a shape need only be known as far as they are in `new`. -/
theorem Apart.map_mono {β : Type} {f f' : β → α → Bool} {ls : List β}
    (h : Apart g (ls.map f') new) (hle : ∀ l, ∀ c ∈ new, f l c = true → f' l c = true) :
    Apart g (ls.map f) new where
  last := h.last
  avoids p hp := by
    obtain ⟨l, hl, rfl⟩ := List.mem_map.1 hp
    by_contra hnot
    have htrue := hle l g (List.mem_of_getLast? h.last) (eq_true_of_ne_false hnot)
    rw [h.avoids _ (List.mem_map_of_mem hl)] at htrue
    cases htrue
  start z hz hne y hy hfits := by
    obtain ⟨r, hr⟩ := hz
    obtain ⟨ls₁, ls₂, rfl, rfl, rfl⟩ := List.append_eq_map_iff.1 hr
    refine h.start (ls₂.map f') ⟨ls₁.map f', (List.map_append).symm⟩ ?_ y hy
      (hfits.map_mono fun l c hc => hle l c (hy.subset hc))
    exact fun hnil => hne (by rw [List.map_eq_nil_iff.1 hnil]; rfl)
  inside ho := by
    obtain ⟨y, hy, hin⟩ := ho
    exact h.inside ⟨y, hy.map_mono fun l c hc => hle l c (hin.subset hc), hin⟩

end shapes

/-! ## What comes through -/

section through

variable {ps : List (Piece α)} {a b y : List α} {t : Shape α} {g : α}

/-- All that is put in ends with the mark. -/
def Sealed (g : α) (ps : List (Piece α)) : Prop := ∀ old new, .put old new ∈ ps → new.getLast? = some g

theorem Sealed.of_append_left {ps₁ ps₂ : List (Piece α)} (h : Sealed g (ps₁ ++ ps₂)) :
    Sealed g ps₁ := fun old new hmem => h old new (List.mem_append_left _ hmem)

theorem Sealed.of_append_right {ps₁ ps₂ : List (Piece α)} (h : Sealed g (ps₁ ++ ps₂)) :
    Sealed g ps₂ := fun old new hmem => h old new (List.mem_append_right _ hmem)

/-- The pieces before a place in a copy that comes through. -/
theorem sealed_append_keep {ps : List (Piece α)} {f : List α} (h : Sealed g ps) :
    Sealed g (ps ++ f.map .keep) := by
  intro old new hmem
  rcases List.mem_append.1 hmem with hmem | hmem
  · exact h old new hmem
  · obtain ⟨c, -, hc⟩ := List.mem_map.1 hmem
    cases hc

/-- A place in the new text is between two pieces, or inside something that was put in. -/
theorem split_newText (h : newText ps = a ++ b) :
    (∃ ps₁ ps₂, ps = ps₁ ++ ps₂ ∧ newText ps₁ = a ∧ newText ps₂ = b) ∨
      ∃ ps₁ old n₁ n₂ ps₂, ps = ps₁ ++ .put old (n₁ ++ n₂) :: ps₂ ∧ n₁ ≠ [] ∧ n₂ ≠ [] ∧
        newText ps₁ ++ n₁ = a ∧ n₂ ++ newText ps₂ = b := by
  induction ps generalizing a with
  | nil =>
    obtain ⟨rfl, rfl⟩ := List.append_eq_nil_iff.1 h.symm
    exact .inl ⟨[], [], rfl, rfl, rfl⟩
  | cons p ps ih =>
    by_cases ha : a = []
    · subst ha
      exact .inl ⟨[], p :: ps, rfl, rfl, h⟩
    rw [newText_cons] at h
    rcases List.append_eq_append_iff.1 h with ⟨a', rfl, hrest⟩ | ⟨n, hnew, rfl⟩
    · -- the place is after the piece
      rcases ih hrest with ⟨ps₁, ps₂, rfl, rfl, rfl⟩ | ⟨ps₁, old, n₁, n₂, ps₂, rfl, h₁, h₂, rfl, rfl⟩
      · exact .inl ⟨p :: ps₁, ps₂, rfl, newText_cons p, rfl⟩
      · refine .inr ⟨p :: ps₁, old, n₁, n₂, ps₂, rfl, h₁, h₂, ?_, rfl⟩
        rw [newText_cons, List.append_assoc]
    · by_cases hn : n = []
      · subst hn
        rw [List.append_nil] at hnew
        refine .inl ⟨[p], ps, rfl, ?_, rfl⟩
        rw [newText_cons, newText_nil, List.append_nil, hnew]
      · cases p with
        | keep c =>
          have hlen := congrArg List.length hnew
          have hpos := List.length_pos_iff.2 ha
          have hpos' := List.length_pos_iff.2 hn
          simp only [Piece.new, List.length_singleton, List.length_append] at hlen
          omega
        | put old new =>
          obtain rfl : new = a ++ n := hnew
          exact .inr ⟨[], old, a, n, ps, rfl, ha, hn, rfl, rfl⟩

theorem getLast?_of_append {n₁ n₂ : List α} (h : (n₁ ++ n₂).getLast? = some g) (hn : n₂ ≠ []) :
    g ∈ n₂ := by
  rw [List.getLast?_append_of_ne_nil n₁ hn] at h
  exact List.mem_of_getLast? h

/-- Pieces that make up a text without the mark are kept. -/
theorem eq_keep_of_notMem (hps : Sealed g ps) (hy : g ∉ newText ps) :
    ps = (newText ps).map .keep := by
  induction ps with
  | nil => rfl
  | cons p ps ih =>
    have hsealed : Sealed g ps := fun old new hmem => hps old new (List.mem_cons_of_mem p hmem)
    have hrest := ih hsealed fun hmem => hy (by simp [hmem])
    cases p with
    | keep c => exact congrArg _ hrest
    | put old new =>
      have hg : g ∈ new := List.mem_of_getLast? (hps old new List.mem_cons_self)
      exact (hy (by simp [Piece.new, hg])).elim

/-- **A stretch without the mark at the end** of some pieces has come through. -/
theorem kept_of_notMem (hps : Sealed g ps) (hy : g ∉ y) (h : newText ps = a ++ y) :
    ∃ ps', ps = ps' ++ y.map .keep ∧ newText ps' = a := by
  rcases split_newText h with ⟨ps₁, ps₂, rfl, rfl, rfl⟩ | ⟨ps₁, old, n₁, n₂, ps₂, rfl, -, hn₂, -, rfl⟩
  · exact ⟨ps₁, congrArg _ (eq_keep_of_notMem hps.of_append_right hy), rfl⟩
  · have hlast := hps old _ (List.mem_append_right _ List.mem_cons_self)
    exact (hy (List.mem_append_left _ (getLast?_of_append hlast hn₂))).elim

/-- **A string of a shape** that fits on no part of what is put in has come through. -/
theorem kept_of_fits (hps : ∀ old new, .put old new ∈ ps → Apart g t new) (hy : Fits t y)
    (h : newText ps = a ++ (y ++ b)) :
    ∃ ps₁ ps₂, ps = ps₁ ++ (y.map .keep ++ ps₂) ∧ newText ps₁ = a ∧ newText ps₂ = b := by
  have hmark : Sealed g ps := fun old new hmem => (hps old new hmem).last
  have hg : ∀ old new, .put old new ∈ ps → g ∉ y := by
    intro old new hmem hgy
    obtain ⟨p, hp, htrue⟩ := hy.mem hgy
    rw [(hps old new hmem).avoids p hp] at htrue
    cases htrue
  rcases split_newText h with ⟨ps₁, ps', rfl, rfl, h'⟩ | ⟨ps₁, old, n₁, n₂, ps₂, rfl, -, hn₂, -, h'⟩
  · rcases split_newText h' with ⟨qs, ps₂, rfl, hqs, rfl⟩ |
      ⟨qs, old, n₁, n₂, ps₂, rfl, hn₁, -, hqs, -⟩
    · refine ⟨ps₁, ps₂, ?_, rfl, rfl⟩
      have hkept : qs = y.map .keep := by
        by_cases hput : ∃ old new, .put old new ∈ qs
        · obtain ⟨old, new, hmem⟩ := hput
          have hnot := hg old new (List.mem_append_right _ (List.mem_append_left _ hmem))
          rw [← hqs]
          exact eq_keep_of_notMem hmark.of_append_right.of_append_left (hqs ▸ hnot)
        · have hall : qs.all Piece.isKeep := by
            rw [List.all_eq_true]
            rintro (c | ⟨old, new⟩) hmem
            · rfl
            · exact (hput ⟨old, new, hmem⟩).elim
          have hkeep := eq_keep_of_all hall
          rw [hkeep, newText_keep] at hqs
          rw [hkeep, hqs]
      rw [hkept]
    · -- the string would end inside what is put in
      obtain ⟨t₁, t₂, rfl, -, h₂⟩ := Fits.split (hqs ▸ hy)
      have hput := hps old (n₁ ++ n₂) (by simp)
      refine (hput.start t₂ (List.suffix_append _ _) ?_ n₁ (List.prefix_append _ _) h₂).elim
      rintro rfl
      exact hn₁ (List.length_eq_zero_iff.1 h₂.length_eq.symm)
  · -- the string would begin inside what is put in
    have hput := hps old (n₁ ++ n₂) (by simp)
    rcases List.append_eq_append_iff.1 h' with ⟨r, rfl, -⟩ | ⟨r, rfl, -⟩
    · exact (hg old (n₁ ++ n₂) (by simp)
        (List.mem_append_left _ (getLast?_of_append hput.last hn₂))).elim
    · exact (hput.inside ⟨y, hy, ⟨n₁, r, by simp⟩⟩).elim

/-- A string of a shape that fits on no part of what is put in was there before. -/
theorem occurs_oldText (hps : ∀ old new, .put old new ∈ ps → Apart g t new)
    (h : Occurs t (newText ps)) : Occurs t (oldText ps) := by
  obtain ⟨y, hy, a, b, htext⟩ := h
  rw [List.append_assoc] at htext
  obtain ⟨ps₁, ps₂, rfl, -, -⟩ := kept_of_fits hps hy htext.symm
  exact ⟨y, hy, oldText ps₁, oldText ps₂, by simp⟩

end through

/-! ## What was there before -/

/-- Something begins in the text with a string of one of the shapes, and runs on to its end: what
comes after the string is as `rest` says, or a string of one of the shapes `es`, without the mark,
ends in it. -/
def Runs (g : α) (ts es : List (Shape α)) (rest : List α → Prop) (x : List α) : Prop :=
  ∃ a y z, x = a ++ (y ++ z) ∧ (∃ t ∈ ts, Fits t y) ∧
    (rest z ∨ ∃ e ∈ es, (∀ p ∈ e, p g = false) ∧
      ∃ b o d, Fits e o ∧ x = b ++ (o ++ d) ∧ d.length ≤ z.length)

/-- At the end of the text stands what is left of `r` after some `g`, if not all of `r`. -/
def Ends (g : α) (r x : List α) : Prop :=
  ∃ w r', r = w ++ r' ∧ r' ≠ [] ∧ (w = [] ∨ w.getLast? = some g) ∧ r' <:+ x

theorem Ends.suffix {g : α} {r x : List α} (h : Ends g r x) (hg : g ∉ r) : r <:+ x := by
  obtain ⟨w, r', rfl, -, rfl | hw, hsuffix⟩ := h
  · exact hsuffix
  · exact (hg (List.mem_append_left _ (List.mem_of_getLast? hw))).elim

/-- A string of one of the shapes stands before whatever is put in, or is part of what was there. -/
def Shows (os : List (Shape α)) (ps : List (Piece α)) : Prop :=
  ∀ ps₁ old new ps₂, ps = ps₁ ++ .put old new :: ps₂ → ∃ e ∈ os, ∃ b o d, Fits e o ∧
    oldText ps₁ ++ old = b ++ (o ++ d) ∧ d.length ≤ old.length

section back

variable {ps : List (Piece α)} {ts es os : List (Shape α)} {rest : List α → Prop} {g : α}
  {x r : List α}

theorem Shows.of_append {ps₂ : List (Piece α)} (h : Shows os (ps ++ ps₂)) : Shows os ps := by
  rintro qs old new qs' rfl
  exact h qs old new (qs' ++ ps₂) (by simp)

/-- Something is put in, and a string of one of the shapes is there. -/
theorem Shows.opened (h : Shows os ps) {old new : List α} (hmem : .put old new ∈ ps) :
    Opened os (oldText ps) := by
  obtain ⟨ps₁, ps₂, rfl⟩ := List.append_of_mem hmem
  obtain ⟨e, he, b, o, d, ho, heq, -⟩ := h ps₁ old new ps₂ rfl
  refine ⟨e, he, o, ho, b, d ++ oldText ps₂, ?_⟩
  rw [oldText_append, oldText_cons, Piece.old, ← List.append_assoc (oldText ps₁), heq]
  simp

/-- Nothing is put in, or something is. -/
theorem eq_keep_or (ps : List (Piece α)) :
    ps = (oldText ps).map .keep ∨ ∃ ps₁ old new ps₂, ps = ps₁ ++ .put old new :: ps₂ := by
  induction ps with
  | nil => exact .inl rfl
  | cons p ps ih =>
    cases p with
    | put old new => exact .inr ⟨[], old, new, ps, rfl⟩
    | keep c =>
      rcases ih with hkeep | ⟨ps₁, old, new, ps₂, rfl⟩
      · exact .inl (congrArg _ hkeep)
      · exact .inr ⟨.keep c :: ps₁, old, new, ps₂, rfl⟩

/-- What has been opened after a substitution was open before, or is opened by it. -/
theorem Opened.back (hps : Shows os ps) (h : Opened es (newText ps)) :
    Opened (os ++ es) (oldText ps) := by
  rcases eq_keep_or ps with hkeep | ⟨ps₁, old, new, ps₂, heq⟩
  · obtain ⟨e, he, hocc⟩ := h
    rw [hkeep, newText_keep] at hocc
    exact ⟨e, List.mem_append_right _ he, hocc⟩
  · obtain ⟨e, he, hocc⟩ := hps.opened (heq ▸ List.mem_append_right _ List.mem_cons_self)
    exact ⟨e, List.mem_append_left _ he, hocc⟩

/-- **What runs to the end of the new text** did so before, or something was put in on the way. -/
theorem Runs.back (hshows : Shows os ps) (hts : ∀ t ∈ ts, t ≠ [] ∧
    ∀ old new, .put old new ∈ ps → Apart g t new) (hsealed : Sealed g ps)
    (hos : ∀ e ∈ os, ∀ p ∈ e, p g = false) (h : Runs g ts es rest (newText ps)) :
    Runs g ts (os ++ es) rest (oldText ps) := by
  obtain ⟨a, y, z, hx, ⟨t, ht, hy⟩, hrest⟩ := h
  obtain ⟨ps₁, ps₂, rfl, rfl, rfl⟩ := kept_of_fits (hts t ht).2 hy hx
  refine ⟨oldText ps₁, y, oldText ps₂, by simp, ⟨t, ht, hy⟩, ?_⟩
  rcases eq_keep_or ps₂ with hkeep | ⟨qs, old, new, qs', rfl⟩
  · have hz : newText ps₂ = oldText ps₂ := by
      conv_lhs => rw [hkeep, newText_keep]
    rw [hz] at hrest
    rcases hrest with hrest | ⟨e, he, havoids, b, o, d, ho, heq, hd⟩
    · exact .inl hrest
    · -- the string ends in what has been kept, and is kept itself
      have hends : d <:+ newText (ps₁ ++ (y.map .keep ++ ps₂)) := ⟨b ++ o, by rw [heq]; simp⟩
      have hends' : oldText ps₂ <:+ newText (ps₁ ++ (y.map .keep ++ ps₂)) :=
        ⟨newText ps₁ ++ y, by simp [hz]⟩
      obtain ⟨m, hm⟩ := List.suffix_of_suffix_length_le hends hends' hd
      refine .inr ⟨e, List.mem_append_right _ he, havoids, ?_⟩
      have hbefore : newText (ps₁ ++ (y ++ m).map .keep) = b ++ o := by
        have hwhole : newText (ps₁ ++ (y ++ m).map .keep) ++ d = b ++ o ++ d := by
          rw [List.append_assoc b, ← heq]
          simp [hz, ← hm]
        exact List.append_cancel_right hwhole
      have hg : g ∉ o := by
        intro hgo
        obtain ⟨p, hp, htrue⟩ := ho.mem hgo
        rw [havoids p hp] at htrue
        cases htrue
      have hsealed' : Sealed g (ps₁ ++ (y ++ m).map .keep) := by
        intro old new hmem
        rcases List.mem_append.1 hmem with hmem | hmem
        · exact hsealed old new (List.mem_append_left _ hmem)
        · obtain ⟨c, -, hc⟩ := List.mem_map.1 hmem
          cases hc
      obtain ⟨ps', hps', -⟩ := kept_of_notMem hsealed' hg hbefore
      refine ⟨oldText ps', o, d, ho, ?_, hd⟩
      have hold := congrArg oldText hps'
      rw [oldText_append, oldText_append, oldText_keep, oldText_keep] at hold
      rw [oldText_append, oldText_append, oldText_keep, ← hm, ← List.append_assoc y,
        ← List.append_assoc, hold, List.append_assoc]
  · obtain ⟨e, he, b, o, d, ho, heq, hd⟩ := hshows (ps₁ ++ (y.map .keep ++ qs)) old new qs' (by simp)
    refine .inr ⟨e, List.mem_append_left _ he, hos e he, b, o, d ++ oldText qs', ho, ?_, ?_⟩
    · have hold := congrArg (· ++ oldText qs') heq
      simp only [oldText_append, oldText_keep, List.append_assoc] at hold
      simp only [oldText_append, oldText_keep, oldText_cons, Piece.old]
      exact hold
    · simp only [List.length_append, oldText_append, oldText_cons, Piece.old]
      omega

/-- **What ends the new text** ended the old one, as far as it stands after the last mark. -/
theorem Ends.back (hps : Sealed g ps) {f : List α} (hf : f ≠ []) (h : Ends g r (newText ps ++ f)) :
    Ends g r (oldText ps ++ f) := by
  obtain ⟨w, r', rfl, hne, hw, hsuffix⟩ := h
  induction ps using List.reverseRecOn generalizing f with
  | nil => exact ⟨w, r', rfl, hne, hw, hsuffix⟩
  | append_singleton ps p ih =>
    by_cases hlen : r'.length ≤ f.length
    · refine ⟨w, r', rfl, hne, hw, ?_⟩
      have hin : r' <:+ f := List.suffix_of_suffix_length_le hsuffix (List.suffix_append _ _) hlen
      exact hin.trans (List.suffix_append _ _)
    · cases p with
      | keep c =>
        have happend : ∀ x : List α, x ++ [c] ++ f = x ++ (c :: f) := fun x => by simp
        have hold : oldText (ps ++ [.keep c]) ++ f = oldText ps ++ (c :: f) := by
          rw [oldText_append, oldText_cons, oldText_nil, Piece.old, List.append_nil, happend]
        have hnew : newText (ps ++ [.keep c]) ++ f = newText ps ++ (c :: f) := by
          rw [newText_append, newText_cons, newText_nil, Piece.new, List.append_nil, happend]
        rw [hold]
        rw [hnew] at hsuffix
        exact ih hps.of_append_left (List.cons_ne_nil c f) hsuffix
      | put old new =>
        -- the mark is inside of `r'`, just before `f`
        obtain ⟨m, rfl⟩ : f <:+ r' := List.suffix_of_suffix_length_le
          (List.suffix_append _ _) hsuffix (Nat.le_of_not_le hlen)
        have hm : m ≠ [] := by
          rintro rfl
          exact hlen (by simp)
        refine ⟨w ++ m, f, by simp, hf, .inr ?_, List.suffix_append _ _⟩
        obtain ⟨z, hz⟩ := hsuffix
        rw [← List.append_assoc] at hz
        have hzm : z ++ m = newText (ps ++ [.put old new]) := List.append_cancel_right hz
        have hlast : (newText (ps ++ [.put old new])).getLast? = some g := by
          have hnew := hps old new (by simp)
          rw [newText_append, newText_cons, newText_nil, Piece.new, List.append_nil,
            List.getLast?_append, hnew]
          rfl
        rw [← hzm, List.getLast?_append_of_ne_nil _ hm] at hlast
        rw [List.getLast?_append_of_ne_nil _ hm, hlast]

end back

/-! ## Cutting a copy -/

/-- A match takes the front of the copy of `w ++ t` that stands between `u` and `v`, or a part of
it, and nothing of `t`. -/
def Cuts (s : Rule α) (u w t v : List α) : Prop :=
  ∃ ps₁ old new ps₂ f c, s.pieces (u ++ (w ++ t) ++ v) = ps₁ ++ .put old new :: ps₂ ∧
    w = f ++ c ∧ f ≠ [] ∧ oldText ps₁ ++ old = u ++ f

/-- A match cuts the copy, and its end comes through. -/
def Leaves (s : Rule α) (u w t v : List α) : Prop :=
  Cuts s u w t v ∧ ∃ u' v', Passes t (s.pieces (u ++ (w ++ t) ++ v)) (u ++ w) v u' v'

section cuts

variable {s : Rule α} {u w t v u' v' : List α} {ps : List (Piece α)}

theorem kept_of_uncut (h : oldText ps = u ++ w) (hcut : ∀ ps₁ old new ps₂ f c,
    ps = ps₁ ++ .put old new :: ps₂ → w = f ++ c → f ≠ [] → oldText ps₁ ++ old ≠ u ++ f) :
    ∃ ps', ps = ps' ++ w.map .keep ∧ oldText ps' = u := by
  induction ps using List.reverseRecOn generalizing w with
  | nil =>
    obtain ⟨rfl, rfl⟩ := List.append_eq_nil_iff.1 h.symm
    exact ⟨[], rfl, rfl⟩
  | append_singleton ps p ih =>
    rcases List.eq_nil_or_concat w with rfl | ⟨w, c, rfl⟩
    · exact ⟨_, (List.append_nil _).symm, h.trans (List.append_nil u)⟩
    rw [oldText_append, oldText_cons, oldText_nil, List.append_nil] at h
    cases p with
    | put old new =>
      exact (hcut ps old new [] _ [] rfl (List.append_nil _).symm (by simp) h).elim
    | keep d =>
      rw [Piece.old, List.concat_eq_append, ← List.append_assoc] at h
      obtain ⟨hold, hd⟩ := List.append_inj' h rfl
      obtain rfl := List.cons.inj hd |>.1
      obtain ⟨ps', rfl, hps'⟩ := ih hold fun ps₁ old new ps₂ f c' heq hw hf => by
        refine hcut ps₁ old new (ps₂ ++ [.keep d]) f (c' ++ [d]) (by rw [heq]; simp) ?_ hf
        rw [hw, List.concat_eq_append, List.append_assoc]
      exact ⟨ps', by simp, hps'⟩

/-- **Where nothing is cut** the end comes through with what it belongs to. -/
theorem passes_of_not_cuts (hcut : ¬Cuts s u w t v)
    (h : Passes t (s.pieces (u ++ (w ++ t) ++ v)) (u ++ w) v u' v') :
    ∃ u₁, u' = u₁ ++ w ∧ Passes (w ++ t) (s.pieces (u ++ (w ++ t) ++ v)) u v u₁ v' := by
  obtain ⟨ps₁, ps₂, heq, hold, rfl, rfl, rfl⟩ := h
  obtain ⟨ps', rfl, rfl⟩ := kept_of_uncut hold fun qs old new qs' f c hps hw hf htext =>
    hcut ⟨qs, old, new, qs' ++ (t.map .keep ++ ps₂), f, c, by rw [heq, hps]; simp, hw, hf, htext⟩
  exact ⟨newText ps', by simp, ps', ps₂, by rw [heq]; simp, rfl, rfl, rfl, rfl⟩

/-- What a rule of a single part leaves of a text has no match where it begins. -/
theorem Rule.scan_keep {re : Re α} {new : List α} {n : ℕ} {prev : Option α} {x : List α} {c : α}
    {ps₁ ps₂ : List (Piece α)} (hn : x.length ≤ n)
    (h : Rule.scan [⟨re, some new⟩] n prev x = ps₁ ++ .keep c :: ps₂) :
    ∃ prev', ∀ z ∈ (Rule.run [⟨re, some new⟩] prev' (c :: oldText ps₂)).head?,
      (oldText ps₂).length < z.2.length := by
  induction n generalizing prev x ps₁ with
  | zero =>
    obtain rfl := List.length_eq_zero_iff.1 (Nat.le_zero.1 hn)
    cases ps₁ <;> cases h
  | succ n ih =>
    cases x with
    | nil => cases ps₁ <;> cases h
    | cons d x =>
      have hkept : (∀ z ∈ (Rule.run [⟨re, some new⟩] prev (d :: x)).head?, x.length < z.2.length) →
          .keep d :: Rule.scan [⟨re, some new⟩] n (some d) x = ps₁ ++ .keep c :: ps₂ →
          ∃ prev', ∀ z ∈ (Rule.run [⟨re, some new⟩] prev' (c :: oldText ps₂)).head?,
            (oldText ps₂).length < z.2.length := by
        intro hlong heq
        cases ps₁ with
        | cons q ps₁ =>
          obtain ⟨rfl, hrest⟩ := List.cons.inj heq
          exact ih (Nat.le_of_succ_le_succ hn) hrest
        | nil =>
          obtain ⟨hd, rfl⟩ := List.cons.inj heq
          cases hd
          rw [Rule.oldText_scan (Nat.le_of_succ_le_succ hn)]
          exact ⟨prev, hlong⟩
      rw [Rule.scan] at h
      split at h
      · next ms y hrun =>
        split at h
        · next hlen =>
          obtain ⟨z, -, hms⟩ := Rule.head_run_singleton hrun
          obtain ⟨rfl, -⟩ := Prod.mk.inj hms
          cases ps₁ with
          | nil => cases h
          | cons q ps₁ =>
            obtain ⟨-, hrest⟩ := List.cons.inj h
            exact ih (hlen.trans (Nat.le_of_succ_le_succ hn)) hrest
        · next hlong =>
          refine hkept (fun z hz => ?_) h
          rw [hrun] at hz
          cases hz
          exact Nat.lt_of_not_le hlong
      · next hrun =>
        refine hkept (fun z hz => ?_) h
        rw [hrun] at hz
        cases hz

/-- **A string does not come whole** through its own substitution. -/
theorem not_passes_whole [DecidableEq α] {x new : List α} (hx : x ≠ []) :
    ¬Passes x ((Rule.replacing x new).pieces (u ++ x ++ v)) u v u' v' := by
  rintro ⟨ps₁, ps₂, heq, -, rfl, -, -⟩
  cases x with
  | nil => exact hx rfl
  | cons c x =>
    rw [Rule.pieces, Rule.replacing, List.map_cons, List.append_assoc ps₁, List.cons_append] at heq
    obtain ⟨prev, hlong⟩ := Rule.scan_keep le_rfl heq
    have hrun : (Rule.replacing (c :: x) new).run prev
        (c :: oldText (x.map .keep ++ ps₂)) = [([.put (c :: x) new], oldText ps₂)] := by
      rw [Rule.run_replacing, oldText_append, oldText_keep, if_pos ⟨oldText ps₂, rfl⟩]
      simp
    have hlt := hlong ([.put (c :: x) new], oldText ps₂) (by
      rw [show Rule.run [⟨Re.literal (c :: x), some new⟩] prev
        (c :: oldText (x.map .keep ++ ps₂)) = _ from hrun]
      rfl)
    simp only [oldText_append, oldText_keep, List.length_append] at hlt
    omega

/-- **What is cut does not come through whole.** -/
theorem Cuts.not_passes (ht : t ≠ []) (h : Cuts s u w t v) :
    ¬Passes (w ++ t) (s.pieces (u ++ (w ++ t) ++ v)) u v u' v' := by
  obtain ⟨qs₁, old, new, qs₂, f, c, heq, rfl, hf, hold⟩ := h
  rintro ⟨ps₁, ps₂, hps, rfl, -, -, -⟩
  have hpos := List.length_pos_iff.2 hf
  have hpos' := List.length_pos_iff.2 ht
  have hsplit : ps₁ ++ ((f ++ c ++ t).map .keep ++ ps₂) = (qs₁ ++ [.put old new]) ++ qs₂ := by
    rw [← List.append_assoc, ← hps, heq]
    simp
  have hend : (oldText (qs₁ ++ [.put old new])).length = (oldText ps₁).length + f.length := by
    rw [oldText_append, oldText_cons, oldText_nil, Piece.old, List.append_nil, hold,
      List.length_append]
  rcases List.append_eq_append_iff.1 hsplit with ⟨as, has, hrest⟩ | ⟨as, rfl, -⟩
  · rcases List.append_eq_append_iff.1 hrest with ⟨bs, rfl, -⟩ | ⟨bs, hkeep, -⟩
    · -- the match would end behind the copy
      rw [has] at hend
      simp only [oldText_append, oldText_keep, List.length_append] at hend
      omega
    · rcases List.eq_nil_or_concat as with rfl | ⟨as, p, rfl⟩
      · rw [has, List.append_nil] at hend
        omega
      · -- or with something that is kept
        rw [List.concat_eq_append, ← List.append_assoc] at has
        obtain ⟨-, hp⟩ := List.append_inj' has rfl
        cases hp
        have hmem : Piece.put old new ∈ (f ++ c ++ t).map Piece.keep := by
          rw [hkeep]
          simp
        obtain ⟨d, -, hd⟩ := List.mem_map.1 hmem
        cases hd
  · -- or before it
    simp only [oldText_append, List.length_append] at hend
    omega

end cuts

/-! ## Going into a copy -/

/-- A match begins in the copy of `w` with `g` behind it, and takes the `g`. -/
def Enters (s : Rule α) (u w : List α) (g : α) (v : List α) : Prop :=
  ∃ ps₁ old new ps₂ f c d, s.pieces (u ++ (w ++ [g]) ++ v) = ps₁ ++ .put old new :: ps₂ ∧
    w = f ++ c ∧ f ≠ [] ∧ oldText ps₁ = u ++ f ∧ old = c ++ g :: d

/-- **A copy comes through whole or is taken whole**, or a match ends or begins in it. -/
theorem passes_or_crossed {s : Rule α} {u w v : List α} {g : α} :
    (∃ u' v', Passes (w ++ [g]) (s.pieces (u ++ (w ++ [g]) ++ v)) u v u' v') ∨
      Takes (s.pieces (u ++ (w ++ [g]) ++ v)) u (w ++ [g]) ∨ Cuts s u w [g] v ∨
        Enters s u w g v := by
  have hold : oldText (s.pieces (u ++ (w ++ [g]) ++ v)) = (u ++ w) ++ g :: v := by
    rw [Rule.oldText_pieces]
    simp
  rcases passes_or_takes hold with ⟨u', v', hpass⟩ | ⟨ps₁, old, new, ps₂, y, hps, htext, d, hd⟩
  · by_cases hcut : Cuts s u w [g] v
    · exact .inr (.inr (.inl hcut))
    · obtain ⟨u₁, -, hwhole⟩ := passes_of_not_cuts hcut hpass
      exact .inl ⟨u₁, v', hwhole⟩
  · rcases List.append_eq_append_iff.1 htext with ⟨x, rfl, hy⟩ | ⟨x, hps₁, hy⟩
    · -- the match begins before the copy, or with it
      refine .inr (.inl ⟨ps₁, old, new, ps₂, x, hps, rfl, d, ?_⟩)
      rw [← hd, hy]
      simp
    · cases x with
      | nil =>
        rw [List.nil_append] at hy
        refine .inr (.inl ⟨ps₁, old, new, ps₂, [], hps, by simpa using hps₁, d, ?_⟩)
        rw [← hd, hy]
        simp
      | cons e x =>
        refine .inr (.inr (.inr ⟨ps₁, old, new, ps₂, e :: x, y, d, hps, hy, List.cons_ne_nil e x,
          hps₁, ?_⟩))
        rw [← hd]
        simp

/-! ## Rules with their openings -/

/-- A rule, with shapes of strings that its matches begin with, shapes of which it shows one where
it puts something in, and how it may cut what stands between two texts, if rules that show the given
shapes come before it. -/
structure Profile (α : Type) where
  rule : Rule α
  begins : List (Shape α)
  openings : List (Shape α)
  crosses : List (Shape α) → List α → List α → Prop

/-- If `k` may cut after `s` has gone over the text, it may cut with `s` before it. -/
def Profile.After (w t : List α) (s k : Profile α) : Prop :=
  ∀ es u v u' v', Passes (w ++ t) (s.rule.pieces (u ++ (w ++ t) ++ v)) u v u' v' →
    k.crosses es u' v' → k.crosses (s.openings ++ es) u v

section profiles

variable {w t u v : List α}

/-- **No rule cuts a copy** that none may cut in the text as it is at the start, and one of them
does not let it through. -/
theorem not_stays_of_profiles {ks : List (Profile α)} {rest : List (Rule α)}
    (hcuts : ∀ k ∈ ks, ∀ u v, Leaves k.rule u w t v → k.crosses [] u v)
    (hafter : ks.Pairwise (Profile.After w t))
    (htakes : ∃ k ∈ ks, ∀ u v u' v',
      ¬Passes (w ++ t) (k.rule.pieces (u ++ (w ++ t) ++ v)) u v u' v')
    (hguard : ∀ before k after, ks = before ++ k :: after →
      ¬k.crosses (before.flatMap Profile.openings) u v) :
    ¬Stays t (ks.map Profile.rule ++ rest) (u ++ w) v := by
  induction ks generalizing u v with
  | nil =>
    obtain ⟨k, hk, -⟩ := htakes
    cases hk
  | cons s ks ih =>
    rintro ⟨u', v', hpass, hstays⟩
    have hcontext : u ++ w ++ t ++ v = u ++ (w ++ t) ++ v := by rw [List.append_assoc u w t]
    rw [hcontext] at hpass
    have huncut : ¬Cuts s.rule u w t v := fun hcut =>
      hguard [] s ks rfl (hcuts s List.mem_cons_self u v ⟨hcut, u', v', hpass⟩)
    obtain ⟨u₁, rfl, hwhole⟩ := passes_of_not_cuts huncut hpass
    obtain ⟨hbefore, hafter⟩ := List.pairwise_cons.1 hafter
    refine ih (fun k hk => hcuts k (List.mem_cons_of_mem s hk)) hafter ?_ ?_ hstays
    · obtain ⟨k, hk, hnot⟩ := htakes
      rcases List.mem_cons.1 hk with rfl | hk
      · exact (hnot _ _ _ _ hwhole).elim
      · exact ⟨k, hk, hnot⟩
    · rintro before k after rfl hcross
      refine hguard (s :: before) k after rfl ?_
      rw [List.flatMap_cons]
      exact hbefore k (List.mem_append_right _ List.mem_cons_self) _ u v u₁ v' hwhole hcross

/-- **No part of a copy stays** if no rule cuts it or goes into it from the text as it is at the
start, and the rules that follow leave no part of it. -/
theorem not_stays_part {ks : List (Profile α)} {rest : List (Rule α)} {g c : α} {a b : List α}
    {R : List α → Prop} (hpart : w ++ [g] = a ++ [c] ++ b)
    (hcuts : ∀ k ∈ ks, ∀ u v, Cuts k.rule u w [g] v → k.crosses [] u v)
    (hafter : ks.Pairwise (Profile.After w [g]))
    (henters : ∀ k ∈ ks, ∀ u v, Enters k.rule u w g v → R u)
    (hback : ∀ k ∈ ks, ∀ u v u' v',
      Passes (w ++ [g]) (k.rule.pieces (u ++ (w ++ [g]) ++ v)) u v u' v' → R u' → R u)
    (hrest : ∀ u v, ¬R u → ¬Stays [c] rest (u ++ a) (b ++ v))
    (hguard : ∀ before k after, ks = before ++ k :: after →
      ¬k.crosses (before.flatMap Profile.openings) u v) (hR : ¬R u) :
    ¬Stays [c] (ks.map Profile.rule ++ rest) (u ++ a) (b ++ v) := by
  induction ks generalizing u v with
  | nil => exact hrest u v hR
  | cons s ks ih =>
    rintro ⟨u', v', hpass, hstays⟩
    have hcontext : u ++ a ++ [c] ++ (b ++ v) = u ++ (w ++ [g]) ++ v := by
      rw [hpart]
      simp
    rw [hcontext] at hpass
    rcases @passes_or_crossed α s.rule u w v g with ⟨u₁, v₁, hwhole⟩ | htakes | hcut | henter
    · obtain ⟨hbefore, hafter⟩ := List.pairwise_cons.1 hafter
      have hmem : ∀ {k}, k ∈ ks → k ∈ s :: ks := fun hk => List.mem_cons_of_mem s hk
      have hsame : Passes [c] (s.rule.pieces (u ++ (w ++ [g]) ++ v)) (u ++ a) (b ++ v) (u₁ ++ a)
          (b ++ v₁) := by
        have hwhole' := hwhole
        rw [hpart] at hwhole' ⊢
        exact hwhole'.part
      obtain ⟨rfl, rfl⟩ := hsame.unique (List.cons_ne_nil c []) hpass
      refine ih (fun k hk => hcuts k (hmem hk)) hafter (fun k hk => henters k (hmem hk))
        (fun k hk => hback k (hmem hk)) ?_ (fun hR' => hR (hback s List.mem_cons_self _ _ _ _ hwhole hR'))
        hstays
      rintro before k after rfl hcross
      refine hguard (s :: before) k after rfl ?_
      rw [List.flatMap_cons]
      exact hbefore k (List.mem_append_right _ List.mem_cons_self) _ u v u₁ v₁ hwhole hcross
    · rw [hpart] at htakes hpass
      exact htakes.not_passes (List.cons_ne_nil c []) hpass
    · exact hguard [] s ks rfl (hcuts s List.mem_cons_self u v hcut)
    · exact hR (henters s List.mem_cons_self u v henter)

end profiles

end Regex
