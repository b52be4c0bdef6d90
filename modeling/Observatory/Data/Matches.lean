import Observatory.Data.Regex

/-!
# What a substitution finds

The results of an expression read back constructor by constructor (`Re.mem_run_seq`,
`Re.mem_run_many`), and which of them is preferred (`Re.head_run_seq`, `Re.head_run_many`).  A
string that stands in a text is taken by a substitution (`Takes`) if a match puts something in the
place of all of it; none of its characters comes through then (`Takes.not_passes`).  To show that a
string is taken it is enough to look at the matches that begin before it and at one that must be
there (`Rule.scan_takes`).  What is put anywhere belongs to a preferred match
(`Rule.scan_put`).
-/

namespace Regex

variable {α : Type}

/-! ## Results -/

namespace Re

variable {prev : Option α} {x : List α} {y : List α × List α} {a b : Re α}

theorem mem_run_one {p : α → Bool} : y ∈ (Re.one p).run prev x ↔
    ∃ c, p c = true ∧ y.1 = [c] ∧ x = c :: y.2 := by
  obtain ⟨m, rest⟩ := y
  cases x with
  | nil => simp [run]
  | cons c x =>
    by_cases hc : p c
    · simp only [run, if_pos hc, List.mem_singleton, Prod.mk.injEq, List.cons.injEq]
      constructor
      · rintro ⟨rfl, rfl⟩
        exact ⟨c, hc, rfl, rfl, rfl⟩
      · rintro ⟨d, -, rfl, rfl, rfl⟩
        exact ⟨rfl, rfl⟩
    · simp only [run, if_neg hc, List.not_mem_nil, false_iff, List.cons.injEq]
      rintro ⟨d, hd, -, rfl, -⟩
      exact hc hd

theorem mem_run_seq : y ∈ (Re.seq a b).run prev x ↔ ∃ y₁ ∈ a.run prev x,
    ∃ y₂ ∈ b.run (y₁.1.getLast?.or prev) y₁.2, y = (y₁.1 ++ y₂.1, y₂.2) := by
  simp only [run, List.mem_flatMap, List.mem_map, eq_comm]

theorem mem_run_alt : y ∈ (Re.alt a b).run prev x ↔ y ∈ a.run prev x ∨ y ∈ b.run prev x :=
  List.mem_append

theorem mem_run_opt : y ∈ (Re.opt a).run prev x ↔ y ∈ a.run prev x ∨ y = ([], x) := by
  rw [run, List.mem_append, List.mem_singleton]

theorem mem_run_boundary {word : α → Bool} (h : y ∈ (Re.boundary word).run prev x) :
    y = ([], x) ∧ prev.any word ≠ x.head?.any word := by
  simp only [run] at h
  split at h
  · cases h
  · next hne => exact ⟨List.mem_singleton.1 h, hne⟩

theorem le_length_takeWhile_iff {p : α → Bool} {k : ℕ} :
    k ≤ (x.takeWhile p).length ↔ k ≤ x.length ∧ ∀ c ∈ x.take k, p c = true := by
  induction x generalizing k with
  | nil => simp
  | cons c x ih =>
    cases k with
    | zero => simp
    | succ k =>
      by_cases hc : p c
      · simp [hc, ih]
      · simp [hc]

/-- A run of characters is any stretch of them that is long enough and not too long. -/
theorem mem_run_many {p : α → Bool} {lo : ℕ} {hi : Option ℕ} :
    y ∈ (Re.many p lo hi).run prev x ↔ y.1 ++ y.2 = x ∧ (∀ c ∈ y.1, p c = true) ∧
      lo ≤ y.1.length ∧ ∀ n ∈ hi, y.1.length ≤ n := by
  obtain ⟨m, rest⟩ := y
  have hmost : ∀ k, k ≤ hi.elim (x.takeWhile p).length (min (x.takeWhile p).length) ↔
      (k ≤ x.length ∧ ∀ c ∈ x.take k, p c = true) ∧ ∀ n ∈ hi, k ≤ n := by
    intro k
    cases hi with
    | none => simp [le_length_takeWhile_iff]
    | some n =>
      rw [Option.elim_some, Nat.le_min, le_length_takeWhile_iff]
      simp
  simp only [run, List.mem_map, List.mem_range, List.splitAt_eq, Prod.mk.injEq]
  generalize hi.elim (x.takeWhile p).length (min (x.takeWhile p).length) = most at hmost ⊢
  constructor
  · rintro ⟨i, hi', rfl, rfl⟩
    obtain ⟨⟨hlen, hall⟩, hbound⟩ := (hmost _).1 (Nat.sub_le most i)
    rw [List.length_take, Nat.min_eq_left hlen]
    exact ⟨List.take_append_drop _ _, hall, by omega, hbound⟩
  · rintro ⟨rfl, hall, hlo, hbound⟩
    have hle := (hmost m.length).2 ⟨⟨by simp, by rwa [List.take_left]⟩, hbound⟩
    refine ⟨most - m.length, by omega, ?_, ?_⟩
    · rw [Nat.sub_sub_self hle, List.take_left]
    · rw [Nat.sub_sub_self hle, List.drop_left]

/-- Of a sequence that matches, some result of the first part is followed by the preferred one of
the second. -/
theorem head_run_seq (h : ((Re.seq a b).run prev x).head? = some y) : ∃ y₁ ∈ a.run prev x,
    ∃ y₂, (b.run (y₁.1.getLast?.or prev) y₁.2).head? = some y₂ ∧ y = (y₁.1 ++ y₂.1, y₂.2) := by
  simp only [run] at h
  generalize a.run prev x = ys at h
  induction ys with
  | nil => cases h
  | cons y₁ ys ih =>
    rw [List.flatMap_cons] at h
    cases hb : b.run (y₁.1.getLast?.or prev) y₁.2 with
    | nil =>
      rw [hb] at h
      obtain ⟨y', hy', hrest⟩ := ih h
      exact ⟨y', List.mem_cons_of_mem _ hy', hrest⟩
    | cons y₂ ys₂ =>
      rw [hb] at h
      cases h
      exact ⟨y₁, List.mem_cons_self, y₂, by rw [hb]; rfl, rfl⟩

theorem drop_length_takeWhile {p : α → Bool} :
    x.drop (x.takeWhile p).length = x.dropWhile p := by
  have hdrop := @List.drop_left α (x.takeWhile p) (x.dropWhile p)
  rwa [List.takeWhile_append_dropWhile] at hdrop

/-- As many as there are. -/
theorem head_run_many {p : α → Bool} {lo : ℕ}
    (h : ((Re.many p lo none).run prev x).head? = some y) :
    y = (x.takeWhile p, x.dropWhile p) := by
  have hle : (x.takeWhile p).length + 1 - lo ≠ 0 := by
    intro hzero
    simp only [run, Option.elim_none, hzero] at h
    cases h
  obtain ⟨k, hk⟩ := Nat.exists_eq_succ_of_ne_zero hle
  simp only [run, Option.elim_none, hk, List.range_succ_eq_map, List.map_cons, Nat.sub_zero,
    List.head?_cons, Option.some.injEq] at h
  rw [← h, List.splitAt_eq, Prod.mk.injEq]
  constructor
  · exact List.prefix_iff_eq_take.1 (List.takeWhile_prefix p) |>.symm
  · exact drop_length_takeWhile

/-- What follows is no such character. -/
theorem head?_of_head_run_many {p : α → Bool} {lo : ℕ}
    (h : ((Re.many p lo none).run prev x).head? = some y) : ∀ c ∈ y.2.head?, p c = false := by
  rw [head_run_many h]
  intro c hc
  have hnot := List.head?_dropWhile_not p x
  rw [Option.mem_def.1 hc] at hnot
  exact hnot

theorem run_opt_ne_nil : (Re.opt a).run prev x ≠ [] := by
  rw [run]
  exact List.append_ne_nil_of_right_ne_nil _ (List.cons_ne_nil _ _)

/-- Before something that always matches the preferred result is taken. -/
theorem head_run_seq_of_total (hb : ∀ prev x, b.run prev x ≠ [])
    (h : ((Re.seq a b).run prev x).head? = some y) : ∃ y₁, (a.run prev x).head? = some y₁ ∧
      ∃ y₂, (b.run (y₁.1.getLast?.or prev) y₁.2).head? = some y₂ ∧ y = (y₁.1 ++ y₂.1, y₂.2) := by
  simp only [run] at h
  cases ha : a.run prev x with
  | nil =>
    rw [ha] at h
    cases h
  | cons y₁ ys =>
    rw [ha, List.flatMap_cons] at h
    cases hrest : b.run (y₁.1.getLast?.or prev) y₁.2 with
    | nil => exact (hb _ _ hrest).elim
    | cons y₂ ys₂ =>
      rw [hrest] at h
      cases h
      exact ⟨y₁, rfl, y₂, by rw [hrest]; rfl, rfl⟩

theorem mem_run_alts {r : Re α} {rs : List (Re α)} :
    y ∈ (alts r rs).run prev x ↔ ∃ r' ∈ r :: rs, y ∈ r'.run prev x := by
  induction rs generalizing r with
  | nil => simp [alts]
  | cons r' rs ih => rw [alts, mem_run_alt, ih, List.exists_mem_cons_iff (a := r)]

theorem mem_run_seqs_nil {m rest : List α} :
    (m, rest) ∈ (seqs []).run prev x ↔ m = [] ∧ x = rest := by
  simp [seqs, run, eq_comm]

/-- A sequence matches part by part. -/
theorem mem_run_seqs_cons {r : Re α} {rs : List (Re α)} {m rest : List α} :
    (m, rest) ∈ (seqs (r :: rs)).run prev x ↔ ∃ m₁ mid m₂, m = m₁ ++ m₂ ∧
      (m₁, mid) ∈ r.run prev x ∧ (m₂, rest) ∈ (seqs rs).run (m₁.getLast?.or prev) mid := by
  rw [seqs, mem_run_seq]
  constructor
  · rintro ⟨⟨m₁, mid⟩, h₁, ⟨m₂, rest'⟩, h₂, heq⟩
    cases heq
    exact ⟨m₁, mid, m₂, rfl, h₁, h₂⟩
  · rintro ⟨m₁, mid, m₂, rfl, h₁, h₂⟩
    exact ⟨(m₁, mid), h₁, (m₂, rest), h₂, rfl⟩

theorem run_seqs_singleton {r : Re α} : (seqs [r]).run prev x = r.run prev x := by
  simp [seqs, run]

/-- The least length of a match. -/
def least : Re α → ℕ
  | .eps | .opt _ | .boundary _ => 0
  | .one _ => 1
  | .seq a b => a.least + b.least
  | .alt a b => min a.least b.least
  | .many _ lo _ => lo

theorem least_le {r : Re α} (h : y ∈ r.run prev x) : r.least ≤ y.1.length := by
  induction r generalizing prev x y with
  | eps | opt | boundary => exact Nat.zero_le _
  | one p =>
    obtain ⟨c, -, hy, -⟩ := mem_run_one.1 h
    rw [hy]
    exact le_rfl
  | seq a b iha ihb =>
    obtain ⟨y₁, h₁, y₂, h₂, rfl⟩ := mem_run_seq.1 h
    rw [List.length_append]
    exact Nat.add_le_add (iha h₁) (ihb h₂)
  | alt a b iha ihb =>
    rcases mem_run_alt.1 h with h | h
    · exact (Nat.min_le_left _ _).trans (iha h)
    · exact (Nat.min_le_right _ _).trans (ihb h)
  | many p lo hi => exact (mem_run_many.1 h).2.2.1

/-- The preferred result of a sequence ends in the preferred result of its last parts. -/
theorem head_run_seqs_append {rs rs' : List (Re α)}
    (h : ((seqs (rs ++ rs')).run prev x).head? = some y) : ∃ prev' x' y',
      ((seqs rs').run prev' x').head? = some y' ∧ y'.1 <:+ y.1 ∧ y'.2 = y.2 := by
  induction rs generalizing prev x y with
  | nil => exact ⟨prev, x, y, h, List.suffix_refl _, rfl⟩
  | cons r rs ih =>
    obtain ⟨y₁, -, y₂, h₂, rfl⟩ := head_run_seq h
    obtain ⟨prev', x', y', h', hsuffix, hrest⟩ := ih h₂
    exact ⟨prev', x', y', h', hsuffix.trans (List.suffix_append _ _), hrest⟩

/-- The character is part of no match. -/
def avoids (c : α) : Re α → Bool
  | .eps | .boundary _ => true
  | .one p | .many p _ _ => !p c
  | .seq a b | .alt a b => a.avoids c && b.avoids c
  | .opt a => a.avoids c

theorem notMem_of_avoids {c : α} {r : Re α} (hr : r.avoids c) (h : y ∈ r.run prev x) :
    c ∉ y.1 := by
  induction r generalizing prev x y with
  | eps =>
    rw [List.mem_singleton.1 h]
    exact List.not_mem_nil
  | one p =>
    obtain ⟨d, hd, hy, -⟩ := mem_run_one.1 h
    rw [hy, List.mem_singleton]
    rintro rfl
    simp [avoids, hd] at hr
  | seq a b iha ihb =>
    obtain ⟨y₁, h₁, y₂, h₂, rfl⟩ := mem_run_seq.1 h
    simp only [avoids, Bool.and_eq_true] at hr
    rw [List.mem_append, not_or]
    exact ⟨iha hr.1 h₁, ihb hr.2 h₂⟩
  | alt a b iha ihb =>
    simp only [avoids, Bool.and_eq_true] at hr
    rcases mem_run_alt.1 h with h | h
    · exact iha hr.1 h
    · exact ihb hr.2 h
  | opt a iha =>
    rcases mem_run_opt.1 h with h | rfl
    · exact iha hr h
    · exact List.not_mem_nil
  | many p lo hi =>
    obtain ⟨-, hall, -⟩ := mem_run_many.1 h
    intro hc
    simp [avoids, hall c hc] at hr
  | boundary word =>
    rw [(mem_run_boundary h).1]
    exact List.not_mem_nil

end Re

/-! ## Matches of a rule -/

namespace Rule

variable {s : Rule α} {portion : Portion α} {prev : Option α} {x : List α}
  {z : List (Piece α) × List α}

theorem mem_run_nil {ps : List (Piece α)} {rest : List α} :
    (ps, rest) ∈ run [] prev x ↔ ps = [] ∧ x = rest := by
  simp [run, eq_comm]

/-- A rule matches part by part. -/
theorem mem_run_cons {ps : List (Piece α)} {rest : List α} :
    (ps, rest) ∈ run (portion :: s) prev x ↔ ∃ m mid ps', ps = portion.pieces m ++ ps' ∧
      (m, mid) ∈ portion.re.run prev x ∧ (ps', rest) ∈ run s (m.getLast?.or prev) mid := by
  simp only [run, List.mem_flatMap, List.mem_map]
  constructor
  · rintro ⟨⟨m, mid⟩, h₁, ⟨ps', rest'⟩, h₂, heq⟩
    cases heq
    exact ⟨m, mid, ps', rfl, h₁, h₂⟩
  · rintro ⟨m, mid, ps', rfl, h₁, h₂⟩
    exact ⟨(m, mid), h₁, (ps', rest), h₂, rfl⟩

theorem head_run_cons (h : (run (portion :: s) prev x).head? = some z) :
    ∃ y ∈ portion.re.run prev x, ∃ z', (run s (y.1.getLast?.or prev) y.2).head? = some z' ∧
      z = (portion.pieces y.1 ++ z'.1, z'.2) := by
  simp only [run] at h
  generalize portion.re.run prev x = ys at h
  induction ys with
  | nil => cases h
  | cons y ys ih =>
    rw [List.flatMap_cons] at h
    cases hs : run s (y.1.getLast?.or prev) y.2 with
    | nil =>
      rw [hs] at h
      obtain ⟨y', hy', hrest⟩ := ih h
      exact ⟨y', List.mem_cons_of_mem _ hy', hrest⟩
    | cons z' zs =>
      rw [hs] at h
      cases h
      exact ⟨y, List.mem_cons_self, z', by rw [hs]; rfl, rfl⟩

/-- The preferred match of a rule that ends in a single part is preferred there. -/
theorem head_run_singleton (h : (run [portion] prev x).head? = some z) :
    ∃ y, (portion.re.run prev x).head? = some y ∧ z = (portion.pieces y.1, y.2) := by
  simp only [run, List.map_cons, List.map_nil, List.append_nil] at h
  cases hy : portion.re.run prev x with
  | nil =>
    rw [hy] at h
    cases h
  | cons y ys =>
    rw [hy, List.flatMap_cons] at h
    cases h
    exact ⟨y, rfl, rfl⟩

end Rule

/-! ## Strings that are taken -/

/-- Something is put in the place of all of the `t` that stands after `u`. -/
def Takes (ps : List (Piece α)) (u t : List α) : Prop :=
  ∃ ps₁ old new ps₂ y, ps = ps₁ ++ .put old new :: ps₂ ∧ oldText ps₁ ++ y = u ∧ y ++ t <+: old

section takes

variable {ps ps' : List (Piece α)} {t t' u v u' v' a b : List α}

theorem Takes.append_right (h : Takes ps u t) : Takes (ps ++ ps') u t := by
  obtain ⟨ps₁, old, new, ps₂, y, rfl, hu, ht⟩ := h
  exact ⟨ps₁, old, new, ps₂ ++ ps', y, by simp, hu, ht⟩

theorem Takes.append_left (h : Takes ps u t) : Takes (ps' ++ ps) (oldText ps' ++ u) t := by
  obtain ⟨ps₁, old, new, ps₂, y, rfl, rfl, ht⟩ := h
  refine ⟨ps' ++ ps₁, old, new, ps₂, y, by simp, ?_, ht⟩
  rw [oldText_append, List.append_assoc]

/-- A part of what is taken is taken. -/
theorem Takes.part (h : Takes ps u (a ++ t ++ b)) : Takes ps (u ++ a) t := by
  obtain ⟨ps₁, old, new, ps₂, y, hps, rfl, hold⟩ := h
  refine ⟨ps₁, old, new, ps₂, y ++ a, hps, by rw [List.append_assoc], ?_⟩
  refine List.IsPrefix.trans ?_ hold
  exact ⟨b, by simp⟩

/-- What stands behind some pieces is not taken by them. -/
theorem Takes.of_append (h : Takes (ps ++ ps') (oldText ps ++ u) t) (ht : t ≠ []) :
    Takes ps' u t := by
  obtain ⟨ps₁, old, new, ps₂, y, heq, hu, hold⟩ := h
  have hlen := congrArg List.length hu
  have hlong := hold.length_le
  have hpos := List.length_pos_iff.2 ht
  simp only [List.length_append] at hlen hlong
  rcases List.append_eq_append_iff.1 heq with ⟨qs, rfl, rfl⟩ | ⟨qs, rfl, hrest⟩
  · rw [oldText_append, List.append_assoc] at hu
    exact ⟨qs, old, new, ps₂, y, rfl, List.append_cancel_left hu, hold⟩
  · cases qs with
    | nil =>
      rw [List.append_nil] at hu
      exact ⟨[], old, new, ps₂, y, hrest.symm, List.append_cancel_left hu, hold⟩
    | cons q qs =>
      obtain ⟨rfl, -⟩ := List.cons.inj hrest
      simp only [oldText_append, oldText_cons, List.length_append, Piece.old] at hlen
      omega

/-- **Nothing of what is taken comes through.** -/
theorem Takes.not_passes (h : Takes ps u (a ++ t ++ b)) (ht : t ≠ []) :
    ¬Passes t ps (u ++ a) v u' v' := by
  obtain ⟨ps₁, old, new, ps₂, y, rfl, rfl, hold⟩ := h
  rintro ⟨qs₁, qs₂, heq, hqs, -, -, -⟩
  have hpos := List.length_pos_iff.2 ht
  have hlong := hold.length_le
  have hlen := congrArg List.length hqs
  simp only [List.length_append] at hlong hlen
  rw [List.append_assoc] at heq
  rcases List.append_eq_append_iff.1 heq with ⟨qs, rfl, hrest⟩ | ⟨qs, rfl, hrest⟩
  · -- the copy would begin where something is put, or after it
    cases qs with
    | nil =>
      cases t with
      | nil => exact ht rfl
      | cons c t => cases hrest
    | cons q qs =>
      obtain ⟨rfl, -⟩ := List.cons.inj hrest
      simp only [oldText_append, oldText_cons, List.length_append, Piece.old] at hlen
      omega
  · -- the copy would begin before it
    cases qs with
    | nil =>
      cases t with
      | nil => exact ht rfl
      | cons c t => cases hrest
    | cons q qs =>
      cases t with
      | nil => exact ht rfl
      | cons c t =>
        obtain ⟨rfl, -⟩ := List.cons.inj hrest
        simp only [oldText_append, oldText_cons, List.length_append, Piece.old,
          List.length_singleton] at hlen
        omega

/-- A part of a copy comes through with it. -/
theorem Passes.part (h : Passes (a ++ t ++ b) ps u v u' v') :
    Passes t ps (u ++ a) (b ++ v) (u' ++ a) (b ++ v') := by
  obtain ⟨ps₁, ps₂, rfl, rfl, rfl, rfl, rfl⟩ := h
  refine ⟨ps₁ ++ a.map .keep, b.map .keep ++ ps₂, ?_, ?_, ?_, ?_, ?_⟩
  · simp only [List.map_append, List.append_assoc]
  all_goals simp

/-- What comes through stands before what is put in, or behind it. -/
theorem Passes.beside {old new : List α} (h : Passes t (ps ++ .put old new :: ps') u v u' v') :
    t <:+: oldText ps ∨ t <:+: oldText ps' := by
  obtain ⟨qs, qs', heq, -⟩ := h
  rw [List.append_assoc] at heq
  rcases List.append_eq_append_iff.1 heq with ⟨as, rfl, hrest⟩ | ⟨as, rfl, hrest⟩
  · cases as with
    | nil =>
      cases t with
      | nil => exact .inl List.nil_infix
      | cons c t => cases hrest
    | cons a as =>
      obtain ⟨-, rfl⟩ := List.cons.inj hrest
      exact .inr ⟨oldText as, oldText qs', by simp⟩
  · rcases List.append_eq_append_iff.1 hrest with ⟨bs, rfl, -⟩ | ⟨bs, hkeep, hput⟩
    · exact .inl ⟨oldText qs, oldText bs, by simp⟩
    · cases bs with
      | nil =>
        rw [List.append_nil] at hkeep
        exact .inl ⟨oldText qs, [], by simp [← hkeep]⟩
      | cons b bs =>
        obtain ⟨rfl, -⟩ := List.cons.inj hput
        have hmem : Piece.put old new ∈ t.map Piece.keep := by simp [hkeep]
        obtain ⟨c, -, hc⟩ := List.mem_map.1 hmem
        cases hc

/-- A copy comes through in one place. -/
theorem Passes.unique {u'' v'' : List α} (ht : t ≠ []) (h : Passes t ps u v u' v')
    (h' : Passes t ps u v u'' v'') : u' = u'' ∧ v' = v'' := by
  obtain ⟨ps₁, ps₂, rfl, hu, hv, rfl, rfl⟩ := h
  obtain ⟨qs₁, qs₂, heq, hu', hv', rfl, rfl⟩ := h'
  cases t with
  | nil => exact (ht rfl).elim
  | cons c t =>
    have hlen := congrArg List.length (hu.trans hu'.symm)
    rw [List.append_assoc, List.append_assoc] at heq
    rcases List.append_eq_append_iff.1 heq with ⟨qs, rfl, hrest⟩ | ⟨qs, rfl, hrest⟩
    · cases qs with
      | nil =>
        rw [List.nil_append] at hrest
        obtain rfl := List.append_cancel_left hrest
        simp
      | cons q qs =>
        obtain ⟨rfl, -⟩ := List.cons.inj hrest
        simp only [oldText_append, oldText_cons, List.length_append, Piece.old,
          List.length_singleton] at hlen
        omega
    · cases qs with
      | nil =>
        rw [List.nil_append] at hrest
        obtain rfl := List.append_cancel_left hrest
        simp
      | cons q qs =>
        obtain ⟨rfl, -⟩ := List.cons.inj hrest
        simp only [oldText_append, oldText_cons, List.length_append, Piece.old,
          List.length_singleton] at hlen
        omega

/-- **A character comes through, or it is taken.** -/
theorem passes_or_takes {c : α} (h : oldText ps = u ++ c :: v) :
    (∃ u' v', Passes [c] ps u v u' v') ∨ Takes ps u [c] := by
  induction ps generalizing u with
  | nil => cases u <;> cases h
  | cons p ps ih =>
    rw [oldText_cons] at h
    rcases List.append_eq_append_iff.1 h with ⟨x, rfl, hrest⟩ | ⟨x, hold, hrest⟩
    · -- it stands after the piece
      rcases ih hrest with ⟨u', v', hpass⟩ | htakes
      · exact .inl ⟨_, _, hpass.cons p⟩
      · have happend := @Takes.append_left α _ [p] _ _ htakes
        rw [oldText_cons, oldText_nil, List.append_nil] at happend
        exact .inr happend
    · cases x with
      | nil =>
        rw [List.append_nil] at hold
        subst hold
        rcases @ih [] hrest.symm with ⟨u', v', hpass⟩ | htakes
        · have hcons := hpass.cons p
          rw [List.append_nil] at hcons
          exact .inl ⟨_, _, hcons⟩
        · have happend := @Takes.append_left α _ [p] _ _ htakes
          rw [oldText_cons, oldText_nil, List.append_nil, List.append_nil] at happend
          exact .inr happend
      | cons d x =>
        obtain ⟨rfl, rfl⟩ := List.cons.inj hrest
        cases p with
        | keep d =>
          cases u with
          | nil =>
            obtain ⟨rfl, rfl⟩ := List.cons.inj hold
            exact .inl ⟨[], newText ps, [], ps, rfl, rfl, rfl, rfl, rfl⟩
          | cons e u =>
            obtain ⟨-, hnil⟩ := List.cons.inj hold
            cases u <;> cases hnil
        | put old new =>
          refine .inr ⟨[], old, new, ps, u, rfl, rfl, ?_⟩
          rw [← show Piece.old (.put old new) = old from rfl, hold]
          exact ⟨x, by simp⟩

end takes

/-! ## Matches on the way -/

namespace Rule

variable {s : Rule α} {prev : Option α} {t : List α}

/-- **A string is taken** if some match begins where `q` does, and all matches that begin before
the string and do not end before `q` take it. -/
theorem scan_takes {n : ℕ} {p q h : List α} (hn : (p ++ q).length ≤ n) (hq : q ≠ [])
    (hthere : ∀ prev, ∃ m rest, (s.run prev q).head? = some (m, rest) ∧ rest.length < q.length)
    (hmatch : ∀ z, z <:+ p → ∀ prev m rest, (s.run prev (z ++ q)).head? = some (m, rest) →
      (oldText m).length ≤ z.length ∨ Takes m (z ++ h) t) :
    Takes (s.scan n prev (p ++ q)) (p ++ h) t := by
  induction n generalizing p prev with
  | zero =>
    have hlen := List.length_pos_iff.2 hq
    simp only [List.length_append] at hn
    omega
  | succ n ih =>
    -- a match that takes the string
    have htakes : ∀ {c x m rest}, p ++ q = c :: x → (s.run prev (c :: x)).head? = some (m, rest) →
        rest.length ≤ x.length → Takes m (p ++ h) t →
          Takes (s.scan (n + 1) prev (c :: x)) (p ++ h) t := by
      intro c x m rest heq hrun hlen htakes
      rw [scan_match hrun hlen]
      exact htakes.append_right
    cases p with
    | nil =>
      obtain ⟨m, rest, hrun, hlen⟩ := hthere prev
      cases q with
      | nil => exact (hq rfl).elim
      | cons c x =>
        have hold : oldText m ++ rest = c :: x := oldText_of_mem_run (List.mem_of_head? hrun)
        rcases hmatch [] (List.suffix_refl _) prev m rest hrun with hshort | htake
        · rw [List.length_eq_zero_iff.1 (Nat.le_zero.1 hshort), List.nil_append] at hold
          rw [hold] at hlen
          omega
        · exact htakes rfl hrun (Nat.le_of_lt_succ hlen) htake
    | cons c p =>
      have hkeep : Takes (.keep c :: s.scan n (some c) (p ++ q)) (c :: p ++ h) t := by
        have hrest := @ih (some c) p (Nat.le_of_succ_le_succ hn) fun z hz =>
          hmatch z (hz.trans (List.suffix_cons c p))
        have happend := @Takes.append_left α _ [.keep c] _ _ hrest
        exact happend
      rw [List.cons_append]
      cases hrun : (s.run prev (c :: (p ++ q))).head? with
      | none =>
        rw [scan_none (List.head?_eq_none_iff.1 hrun)]
        exact hkeep
      | some z =>
        obtain ⟨m, rest⟩ := z
        by_cases hlen : rest.length ≤ (p ++ q).length
        · have hold := oldText_of_mem_run (List.mem_of_head? hrun)
          rcases hmatch (c :: p) (List.suffix_refl _) prev m rest hrun with hshort | htake
          · -- a match that ends before
            obtain ⟨p', hp'⟩ : oldText m <+: c :: p :=
              List.prefix_of_prefix_length_le ⟨rest, hold⟩ ⟨q, rfl⟩ hshort
            have hrest : rest = p' ++ q := by
              rw [← List.cons_append, ← hp', List.append_assoc] at hold
              exact List.append_cancel_left hold
            subst hrest
            rw [scan_match hrun hlen, ← hp', List.append_assoc]
            refine Takes.append_left (@ih _ p' ?_ fun z hz =>
              hmatch z (hz.trans ⟨oldText m, hp'⟩))
            exact hlen.trans (Nat.le_of_succ_le_succ hn)
          · exact htakes rfl hrun hlen htake
        · have hscan : s.scan (n + 1) prev (c :: (p ++ q)) =
              .keep c :: s.scan n (some c) (p ++ q) := by
            rw [scan, hrun]
            exact if_neg hlen
          rw [hscan]
          exact hkeep

/-- **A scan comes to a place between two pieces**, or a match that begins before goes on there. -/
theorem scan_split {n : ℕ} {u y : List α} (hn : (u ++ y).length ≤ n) :
    (∃ ps k prev', s.scan n prev (u ++ y) = ps ++ s.scan k prev' y ∧ oldText ps = u ∧
      y.length ≤ k) ∨
    ∃ ps z prev' m rest k prev'', s.scan n prev (u ++ y) = ps ++ (m ++ s.scan k prev'' rest) ∧
      u = oldText ps ++ z ∧ z ≠ [] ∧ (s.run prev' (z ++ y)).head? = some (m, rest) ∧
        z.length < (oldText m).length ∧ rest.length ≤ k := by
  induction n generalizing u prev with
  | zero =>
    have hnil : u ++ y = [] := List.length_eq_zero_iff.1 (Nat.le_zero.1 hn)
    obtain ⟨rfl, rfl⟩ := List.append_eq_nil_iff.1 hnil
    exact .inl ⟨[], 0, prev, rfl, rfl, le_rfl⟩
  | succ n ih =>
    cases u with
    | nil => exact .inl ⟨[], n + 1, prev, rfl, rfl, hn⟩
    | cons c u =>
      have hlater : ∀ {qs : List (Piece α)} {u' : List α} {prev' : Option α},
          s.scan (n + 1) prev (c :: u ++ y) = qs ++ s.scan n prev' (u' ++ y) →
          c :: u = oldText qs ++ u' → (u' ++ y).length ≤ n →
            (∃ ps k prev', s.scan (n + 1) prev (c :: u ++ y) = ps ++ s.scan k prev' y ∧
              oldText ps = c :: u ∧ y.length ≤ k) ∨
            ∃ ps z prev' m rest k prev'',
              s.scan (n + 1) prev (c :: u ++ y) = ps ++ (m ++ s.scan k prev'' rest) ∧
                c :: u = oldText ps ++ z ∧ z ≠ [] ∧
                  (s.run prev' (z ++ y)).head? = some (m, rest) ∧
                    z.length < (oldText m).length ∧ rest.length ≤ k := by
        intro qs u' prev' hscan hu hlen
        rcases @ih prev' u' hlen with ⟨ps, k, p', heq, hold, hk⟩ |
          ⟨ps, z, p', m, rest, k, p'', heq, hold, hz, hrun, hlong, hk⟩
        · refine .inl ⟨qs ++ ps, k, p', by rw [hscan, heq, List.append_assoc], ?_, hk⟩
          rw [oldText_append, hold, hu]
        · refine .inr ⟨qs ++ ps, z, p', m, rest, k, p'', by rw [hscan, heq, List.append_assoc], ?_,
            hz, hrun, hlong, hk⟩
          rw [oldText_append, List.append_assoc, ← hold, hu]
      have hshort : (u ++ y).length ≤ n := Nat.le_of_succ_le_succ hn
      cases hrun : (s.run prev (c :: (u ++ y))).head? with
      | none =>
        exact @hlater [.keep c] u _ (scan_none (List.head?_eq_none_iff.1 hrun)) rfl hshort
      | some x =>
        obtain ⟨m, rest⟩ := x
        by_cases hlen : rest.length ≤ (u ++ y).length
        · have hold : oldText m ++ rest = c :: u ++ y := oldText_of_mem_run (List.mem_of_head? hrun)
          have hscan := scan_match hrun hlen (n := n)
          by_cases hlong : (c :: u).length < (oldText m).length
          · exact .inr ⟨[], c :: u, prev, m, rest, n, _, hscan, rfl, List.cons_ne_nil c u, hrun,
              hlong, hlen.trans hshort⟩
          · -- the match ends before the place
            obtain ⟨u', hu'⟩ : oldText m <+: c :: u :=
              List.prefix_of_prefix_length_le ⟨rest, hold⟩ ⟨y, rfl⟩ (Nat.le_of_not_lt hlong)
            have hrest : rest = u' ++ y := by
              rw [← hu', List.append_assoc] at hold
              exact List.append_cancel_left hold
            subst hrest
            exact hlater hscan hu'.symm (hlen.trans hshort)
        · have hscan : s.scan (n + 1) prev (c :: (u ++ y)) =
              .keep c :: s.scan n (some c) (u ++ y) := by
            rw [scan, hrun]
            exact if_neg hlen
          exact @hlater [.keep c] u _ hscan rfl hshort

/-- Among what is kept only one thing is put in. -/
theorem one_put {m₁ m₂ : List (Piece α)} {old new old' new' a b : List α}
    (h : m₁ ++ .put old new :: m₂ = a.map .keep ++ .put old' new' :: b.map .keep) :
    m₁ = a.map .keep ∧ old = old' ∧ new = new' ∧ m₂ = b.map .keep := by
  induction a generalizing m₁ with
  | nil =>
    cases m₁ with
    | nil =>
      obtain ⟨hput, hrest⟩ := List.cons.inj h
      cases hput
      exact ⟨rfl, rfl, rfl, hrest⟩
    | cons q m₁ =>
      obtain ⟨-, hrest⟩ := List.cons.inj h
      have hmem : Piece.put old new ∈ b.map Piece.keep := by
        rw [← hrest]
        simp
      obtain ⟨c, -, hc⟩ := List.mem_map.1 hmem
      cases hc
  | cons c a ih =>
    cases m₁ with
    | nil =>
      obtain ⟨hput, -⟩ := List.cons.inj h
      cases hput
    | cons q m₁ =>
      obtain ⟨rfl, hrest⟩ := List.cons.inj h
      obtain ⟨rfl, hsame⟩ := ih hrest
      exact ⟨rfl, hsame⟩

/-- **What is put in belongs to a preferred match.** -/
theorem scan_put_pieces {n : ℕ} {x old new : List α} {ps₁ ps₂ : List (Piece α)} (hn : x.length ≤ n)
    (h : s.scan n prev x = ps₁ ++ .put old new :: ps₂) :
    ∃ p x' prev' m rest m₁ m₂ qs, x = p ++ x' ∧ prev' = p.getLast?.or prev ∧
      (s.run prev' x').head? = some (m, rest) ∧ m = m₁ ++ .put old new :: m₂ ∧
      ps₁ = qs ++ m₁ ∧ oldText qs = p ∧ oldText ps₂ = oldText m₂ ++ rest := by
  induction n generalizing prev x ps₁ with
  | zero =>
    have hmem : Piece.put old new ∈ x.map Piece.keep := by
      have hscan : s.scan 0 prev x = x.map .keep := by
        cases x <;> rfl
      rw [← hscan, h]
      simp
    obtain ⟨c, -, hc⟩ := List.mem_map.1 hmem
    cases hc
  | succ n ih =>
    cases x with
    | nil =>
      rw [scan] at h
      exact (List.append_ne_nil_of_right_ne_nil _ (List.cons_ne_nil _ _) h.symm).elim
    | cons c x =>
      -- what is found in the rest of the text
      have hlater : ∀ {ms prev' x'} {qs : List (Piece α)}, oldText ms ++ x' = c :: x →
          prev' = (oldText ms).getLast?.or prev → x'.length ≤ n →
          s.scan n prev' x' = qs ++ .put old new :: ps₂ → ps₁ = ms ++ qs →
          ∃ p x' prev' m rest m₁ m₂ qs, c :: x = p ++ x' ∧ prev' = p.getLast?.or prev ∧
            (s.run prev' x').head? = some (m, rest) ∧ m = m₁ ++ .put old new :: m₂ ∧
            ps₁ = qs ++ m₁ ∧ oldText qs = p ∧ oldText ps₂ = oldText m₂ ++ rest := by
        rintro ms prev' x' qs hx rfl hlen hscan rfl
        obtain ⟨p, x'', prev'', m, rest, m₁, m₂, qs, rfl, rfl, hrun, hm, rfl, rfl, hrest⟩ :=
          ih hlen hscan
        refine ⟨oldText (ms ++ qs), x'', _, m, rest, m₁, m₂, ms ++ qs, ?_, ?_, hrun, hm,
          (List.append_assoc ..).symm, rfl, hrest⟩
        · rw [← hx, oldText_append, List.append_assoc]
        · rw [oldText_append, List.getLast?_append, Option.or_assoc]
      have hkept : .keep c :: s.scan n (some c) x = ps₁ ++ .put old new :: ps₂ →
          ∃ p x' prev' m rest m₁ m₂ qs, c :: x = p ++ x' ∧ prev' = p.getLast?.or prev ∧
            (s.run prev' x').head? = some (m, rest) ∧ m = m₁ ++ .put old new :: m₂ ∧
            ps₁ = qs ++ m₁ ∧ oldText qs = p ∧ oldText ps₂ = oldText m₂ ++ rest := by
        intro heq
        cases ps₁ with
        | nil => cases heq
        | cons q qs =>
          obtain ⟨rfl, htail⟩ := List.cons.inj heq
          exact @hlater [.keep c] (some c) x qs rfl rfl (Nat.le_of_succ_le_succ hn) htail rfl
      rw [scan] at h
      split at h
      · next ms y hrun =>
        split at h
        · next hlen =>
          have hold := oldText_of_mem_run (List.mem_of_head? hrun)
          rcases List.append_eq_append_iff.1 h with ⟨qs, rfl, hscan⟩ | ⟨qs, hms, htail⟩
          · exact hlater hold rfl (hlen.trans (Nat.le_of_succ_le_succ hn)) hscan rfl
          · cases qs with
            | nil =>
              rw [List.append_nil] at hms
              subst hms
              exact @hlater ms _ y [] hold rfl (hlen.trans (Nat.le_of_succ_le_succ hn)) htail.symm
                (List.append_nil _).symm
            | cons q qs =>
              -- in the match that begins here
              obtain ⟨rfl, rfl⟩ := List.cons.inj htail
              refine ⟨[], c :: x, prev, ms, y, ps₁, qs, [], rfl, rfl, hrun, hms, rfl, rfl, ?_⟩
              have hrest : oldText (qs ++ s.scan n ((oldText ms).getLast?.or prev) y) =
                  oldText qs ++ y := by
                rw [oldText_append, oldText_scan (hlen.trans (Nat.le_of_succ_le_succ hn))]
              exact hrest
        · exact hkept h
      · exact hkept h

theorem scan_put {n : ℕ} {x old new : List α} {ps₁ ps₂ : List (Piece α)} (hn : x.length ≤ n)
    (h : s.scan n prev x = ps₁ ++ .put old new :: ps₂) :
    ∃ p x' prev' m rest m₁ m₂, x = p ++ x' ∧ prev' = p.getLast?.or prev ∧
      (s.run prev' x').head? = some (m, rest) ∧ m = m₁ ++ .put old new :: m₂ ∧
      oldText ps₁ = p ++ oldText m₁ ∧ oldText ps₂ = oldText m₂ ++ rest := by
  obtain ⟨p, x', prev', m, rest, m₁, m₂, qs, hx, hprev, hrun, hm, rfl, rfl, hrest⟩ :=
    scan_put_pieces hn h
  exact ⟨_, x', prev', m, rest, m₁, m₂, hx, hprev, hrun, hm, oldText_append, hrest⟩

end Rule

/-! ## Texts that are left alone -/

/-- Nothing is put in. -/
def Piece.isKeep : Piece α → Bool
  | .keep _ => true
  | .put .. => false

/-- No match. -/
def Rule.untouched (s : Rule α) (x : List α) : Bool := (s.pieces x).all Piece.isKeep

theorem eq_keep_of_all {ps : List (Piece α)} (h : ps.all Piece.isKeep) :
    ps = (oldText ps).map .keep := by
  induction ps with
  | nil => rfl
  | cons p ps ih =>
    rw [List.all_cons, Bool.and_eq_true] at h
    cases p with
    | keep c => exact congrArg _ (ih h.2)
    | put old new => cases h.1

section untouched

variable {t u v : List α}

theorem passes_of_untouched {s : Rule α} (h : s.untouched (u ++ t ++ v)) :
    Passes t (s.pieces (u ++ t ++ v)) u v u v := by
  have hpieces := eq_keep_of_all h
  rw [Rule.oldText_pieces] at hpieces
  rw [hpieces]
  refine ⟨u.map .keep, v.map .keep, by simp, ?_, ?_, ?_, ?_⟩
  all_goals simp

theorem stays_append_iff (ht : t ≠ []) {ss ss' : List (Rule α)}
    (h : ss.all fun s => s.untouched (u ++ t ++ v)) :
    Stays t (ss ++ ss') u v ↔ Stays t ss' u v := by
  induction ss with
  | nil => rfl
  | cons s ss ih =>
    rw [List.all_cons, Bool.and_eq_true] at h
    have hpass := passes_of_untouched h.1
    rw [← ih h.2]
    constructor
    · rintro ⟨u', v', hpass', hstays⟩
      obtain ⟨rfl, rfl⟩ := hpass.unique ht hpass'
      exact hstays
    · exact fun hstays => ⟨u, v, hpass, hstays⟩

theorem untouched_iff {s : Rule α} {x : List α} :
    s.untouched x ↔ ∀ old new, .put old new ∉ s.pieces x := by
  rw [Rule.untouched, List.all_eq_true]
  constructor
  · intro h old new hmem
    exact absurd (h _ hmem) Bool.false_ne_true
  · intro h a ha
    cases a with
    | keep c => rfl
    | put old new => exact (h old new ha).elim

end untouched

/-- What is put in is what was there. -/
def Idle (ps : List (Piece α)) : Prop := ∀ a ∈ ps, a.new = a.old

theorem Idle.newText {ps : List (Piece α)} (h : Idle ps) : newText ps = oldText ps := by
  induction ps with
  | nil => rfl
  | cons a ps ih =>
    rw [newText_cons, oldText_cons, h a List.mem_cons_self,
      ih fun a ha => h a (List.mem_cons_of_mem _ ha)]

/-- Nothing to change for any substitution. -/
def Settled (ss : List (Rule α)) (x : List α) : Prop := ∀ s ∈ ss, Idle (s.pieces x)

theorem Settled.subAll_eq {ss : List (Rule α)} {x : List α} (h : Settled ss x) : subAll ss x = x := by
  induction ss with
  | nil => rfl
  | cons s ss ih =>
    have hsub : s.sub x = x := (h s List.mem_cons_self).newText.trans (s.oldText_pieces x)
    rw [subAll, List.foldl_cons, hsub]
    exact ih fun s hs => h s (List.mem_cons_of_mem _ hs)

end Regex
