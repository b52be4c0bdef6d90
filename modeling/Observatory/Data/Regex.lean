import Mathlib.Data.List.Infix

/-!
# Substitution with regular expressions

Backtracking matching, with all the results of an expression in the order in which they are tried,
and the substitution of every match from the left.  A match is made of parts, each of which is kept
or has something put in its place.

After any number of substitutions a given string stands in the text just if one of its copies has
come through: one that was there at the start, or one that a substitution has completed with what it
put in (`infix_subAll_iff`).
-/

namespace Regex

variable {α : Type}

inductive Re (α : Type) where
  | eps
  | one (p : α → Bool)
  | seq (a b : Re α)
  | alt (a b : Re α)
  /-- once rather than not at all -/
  | opt (a : Re α)
  /-- as often as possible, at least `lo` times, and at most `hi` times if that is given -/
  | many (p : α → Bool) (lo : Nat) (hi : Option Nat)
  /-- the edge of a word -/
  | boundary (word : α → Bool)

/-- What an expression can match at the start of a text, and what is left of the text then; the
preferred matches come first.  The character before the text is `prev`. -/
def Re.run : Re α → Option α → List α → List (List α × List α)
  | .eps, _, x => [([], x)]
  | .one p, _, x =>
    match x with
    | c :: x => if p c then [([c], x)] else []
    | [] => []
  | .seq a b, prev, x =>
    (a.run prev x).flatMap fun y =>
      (b.run (y.1.getLast?.or prev) y.2).map fun z => (y.1 ++ z.1, z.2)
  | .alt a b, prev, x => a.run prev x ++ b.run prev x
  | .opt a, prev, x => a.run prev x ++ [([], x)]
  | .many p lo hi, _, x =>
    let most := (x.takeWhile p).length
    let most := hi.elim most (min most)
    (List.range (most + 1 - lo)).map fun i => x.splitAt (most - i)
  | .boundary word, prev, x => if prev.any word = x.head?.any word then [] else [([], x)]

namespace Re

def seqs : List (Re α) → Re α
  | [] => .eps
  | r :: rs => .seq r (seqs rs)

def alts : Re α → List (Re α) → Re α
  | r, [] => r
  | r, r' :: rs => .alt r (alts r' rs)

variable [DecidableEq α]

def char (c : α) : Re α := .one (· = c)

def literal (x : List α) : Re α := seqs (x.map char)

end Re

/-- A part of a match; it is kept, or something is put in its place. -/
structure Portion (α : Type) where
  re : Re α
  put : Option (List α) := none

/-- An expression with its replacement. -/
abbrev Rule (α : Type) := List (Portion α)

/-- What a substitution does to a piece of a text. -/
inductive Piece (α : Type) where
  | keep (c : α)
  | put (old new : List α)

namespace Piece

def old : Piece α → List α
  | keep c => [c]
  | put old _ => old

def new : Piece α → List α
  | keep c => [c]
  | put _ new => new

end Piece

/-- The text before a substitution. -/
def oldText (ps : List (Piece α)) : List α := ps.flatMap Piece.old

/-- The text after it. -/
def newText (ps : List (Piece α)) : List α := ps.flatMap Piece.new

def Portion.pieces (portion : Portion α) (x : List α) : List (Piece α) :=
  match portion.put with
  | none => x.map .keep
  | some new => [.put x new]

namespace Rule

/-- The matches of a rule at the start of a text. -/
def run : Rule α → Option α → List α → List (List (Piece α) × List α)
  | [], _, x => [([], x)]
  | portion :: s, prev, x =>
    (portion.re.run prev x).flatMap fun y =>
      (run s (y.1.getLast?.or prev) y.2).map fun z => (portion.pieces y.1 ++ z.1, z.2)

/-- Every match from the left; a match of nothing does not count. -/
def scan (s : Rule α) : Nat → Option α → List α → List (Piece α)
  | 0, _, x => x.map .keep
  | _ + 1, _, [] => []
  | n + 1, prev, c :: x =>
    match (s.run prev (c :: x)).head? with
    | some (ps, y) =>
      if y.length ≤ x.length then ps ++ s.scan n ((oldText ps).getLast?.or prev) y
      else .keep c :: s.scan n (some c) x
    | none => .keep c :: s.scan n (some c) x

def pieces (s : Rule α) (x : List α) : List (Piece α) := s.scan x.length none x

/-- `new` in the place of a string. -/
def replacing [DecidableEq α] (x new : List α) : Rule α := [⟨.literal x, some new⟩]

/-- `re.sub` -/
def sub (s : Rule α) (x : List α) : List α := newText (s.pieces x)

end Rule

/-- One substitution after the other. -/
def subAll (ss : List (Rule α)) (x : List α) : List α := ss.foldl (fun x s => s.sub x) x

/-! ## Pieces -/

section pieces

variable {ps ps' : List (Piece α)} {x : List α}

@[simp] theorem oldText_nil : oldText ([] : List (Piece α)) = [] := rfl

@[simp] theorem oldText_cons (a : Piece α) : oldText (a :: ps) = a.old ++ oldText ps :=
  List.flatMap_cons

@[simp] theorem oldText_append : oldText (ps ++ ps') = oldText ps ++ oldText ps' :=
  List.flatMap_append

@[simp] theorem newText_nil : newText ([] : List (Piece α)) = [] := rfl

@[simp] theorem newText_cons (a : Piece α) : newText (a :: ps) = a.new ++ newText ps :=
  List.flatMap_cons

@[simp] theorem newText_append : newText (ps ++ ps') = newText ps ++ newText ps' :=
  List.flatMap_append

@[simp] theorem oldText_keep : oldText (x.map .keep) = x := by
  induction x with
  | nil => rfl
  | cons c x ih => rw [List.map_cons, oldText_cons, ih]; rfl

@[simp] theorem newText_keep : newText (x.map .keep) = x := by
  induction x with
  | nil => rfl
  | cons c x ih => rw [List.map_cons, newText_cons, ih]; rfl

theorem Re.append_of_mem_run {r : Re α} {prev : Option α} {y : List α × List α}
    (h : y ∈ r.run prev x) : y.1 ++ y.2 = x := by
  induction r generalizing prev x y with
  | eps =>
    rw [List.mem_singleton.1 h]
    rfl
  | one p =>
    cases x with
    | nil => cases h
    | cons c x =>
      simp only [Re.run] at h
      split at h
      · rw [List.mem_singleton.1 h]
        rfl
      · cases h
  | seq a b iha ihb =>
    obtain ⟨z, hz, hmem⟩ := List.mem_flatMap.1 h
    obtain ⟨z', hz', rfl⟩ := List.mem_map.1 hmem
    rw [← iha hz, ← ihb hz', List.append_assoc]
  | alt a b iha ihb =>
    rcases List.mem_append.1 h with h | h
    · exact iha h
    · exact ihb h
  | opt a iha =>
    rcases List.mem_append.1 h with h | h
    · exact iha h
    · rw [List.mem_singleton.1 h]
      rfl
  | many p lo hi =>
    obtain ⟨i, -, rfl⟩ := List.mem_map.1 h
    rw [List.splitAt_eq]
    exact List.take_append_drop _ x
  | boundary word =>
    simp only [Re.run] at h
    split at h
    · cases h
    · rw [List.mem_singleton.1 h]
      rfl

theorem Portion.oldText_pieces (portion : Portion α) : oldText (portion.pieces x) = x := by
  unfold Portion.pieces
  split
  · exact oldText_keep
  · exact List.append_nil x

theorem Rule.oldText_of_mem_run {s : Rule α} {prev : Option α} {y : List (Piece α) × List α}
    (h : y ∈ s.run prev x) : oldText y.1 ++ y.2 = x := by
  induction s generalizing prev x y with
  | nil =>
    rw [List.mem_singleton.1 h]
    rfl
  | cons portion s ih =>
    obtain ⟨z, hz, hmem⟩ := List.mem_flatMap.1 h
    obtain ⟨z', hz', rfl⟩ := List.mem_map.1 hmem
    have hportion := Re.append_of_mem_run hz
    rw [oldText_append, Portion.oldText_pieces, List.append_assoc, ih hz', hportion]

theorem Rule.scan_match {s : Rule α} {n : Nat} {prev : Option α} {c : α} {y : List α}
    (h : (s.run prev (c :: x)).head? = some (ps, y)) (hlen : y.length ≤ x.length) :
    s.scan (n + 1) prev (c :: x) = ps ++ s.scan n ((oldText ps).getLast?.or prev) y := by
  rw [Rule.scan, h]
  exact if_pos hlen

theorem Rule.scan_none {s : Rule α} {n : Nat} {prev : Option α} {c : α}
    (h : s.run prev (c :: x) = []) :
    s.scan (n + 1) prev (c :: x) = .keep c :: s.scan n (some c) x := by
  rw [Rule.scan, h]
  rfl

theorem Rule.oldText_scan {s : Rule α} {n : Nat} {prev : Option α} (hn : x.length ≤ n) :
    oldText (s.scan n prev x) = x := by
  induction n generalizing prev x with
  | zero => exact oldText_keep
  | succ n ih =>
    cases x with
    | nil => rfl
    | cons c x =>
      have hkept : oldText (.keep c :: s.scan n (some c) x) = c :: x := by
        rw [oldText_cons, ih (Nat.le_of_succ_le_succ hn)]
        rfl
      rw [Rule.scan]
      split
      · next ps y hmatch =>
        split
        · next hshort =>
          rw [oldText_append, ih (hshort.trans (Nat.le_of_succ_le_succ hn))]
          exact Rule.oldText_of_mem_run (List.mem_of_head? hmatch)
        · exact hkept
      · exact hkept

/-- The pieces of a text make up the text. -/
theorem Rule.oldText_pieces (s : Rule α) (x : List α) : oldText (s.pieces x) = x :=
  Rule.oldText_scan le_rfl

end pieces

/-! ## Copies of a string -/

/-- A copy of `t` stands between `u` and `v`, and comes through a substitution: it stands between
`u'` and `v'` afterwards. -/
def Passes (t : List α) (ps : List (Piece α)) (u v u' v' : List α) : Prop :=
  ∃ ps₁ ps₂, ps = ps₁ ++ t.map .keep ++ ps₂ ∧ oldText ps₁ = u ∧ oldText ps₂ = v ∧
    newText ps₁ = u' ∧ newText ps₂ = v'

/-- A copy of `t` stands between `u'` and `v'` after a substitution, and something that was put in
is part of it. -/
def Completed (t : List α) (ps : List (Piece α)) (u' v' : List α) : Prop :=
  newText ps = u' ++ t ++ v' ∧ ∃ ps₁ old new ps₂, ps = ps₁ ++ .put old new :: ps₂ ∧
    (newText ps₁).length < u'.length + t.length ∧ u'.length < (newText ps₁).length + new.length

/-- The copy of `t` between `u` and `v` comes through all substitutions. -/
def Stays (t : List α) : List (Rule α) → List α → List α → Prop
  | [], _, _ => True
  | s :: ss, u, v => ∃ u' v', Passes t (s.pieces (u ++ t ++ v)) u v u' v' ∧ Stays t ss u' v'

section copies

variable {t u v u' v' : List α} {ps : List (Piece α)}

theorem Passes.old (h : Passes t ps u v u' v') : oldText ps = u ++ t ++ v := by
  obtain ⟨ps₁, ps₂, rfl, rfl, rfl, -, -⟩ := h
  rw [oldText_append, oldText_append, oldText_keep]

theorem Passes.new (h : Passes t ps u v u' v') : newText ps = u' ++ t ++ v' := by
  obtain ⟨ps₁, ps₂, rfl, -, -, rfl, rfl⟩ := h
  rw [newText_append, newText_append, newText_keep]

theorem Passes.cons (a : Piece α) (h : Passes t ps u v u' v') :
    Passes t (a :: ps) (a.old ++ u) v (a.new ++ u') v' := by
  obtain ⟨ps₁, ps₂, rfl, rfl, rfl, rfl, rfl⟩ := h
  exact ⟨a :: ps₁, ps₂, rfl, oldText_cons a, rfl, newText_cons a, rfl⟩

theorem Completed.cons (a : Piece α) (h : Completed t ps u' v') :
    Completed t (a :: ps) (a.new ++ u') v' := by
  obtain ⟨htext, ps₁, old, new, ps₂, rfl, hstart, hend⟩ := h
  refine ⟨by rw [newText_cons, htext, List.append_assoc, List.append_assoc, List.append_assoc],
    a :: ps₁, old, new, ps₂, rfl, ?_, ?_⟩
  · rw [newText_cons, List.length_append, List.length_append]
    omega
  · rw [newText_cons, List.length_append, List.length_append]
    omega

/-- A copy that begins with a kept character. -/
theorem copy_keep {c : α} (ht : t ≠ []) (htext : newText ps = t ++ v')
    (h : (∃ u v, Passes t ps u v [] v') ∨ Completed t ps [] v') :
    (∃ u v, Passes (c :: t) (.keep c :: ps) u v [] v') ∨
      Completed (c :: t) (.keep c :: ps) [] v' := by
  have hcons : newText (.keep c :: ps) = c :: t ++ v' := by
    rw [newText_cons, htext]
    rfl
  rcases h with ⟨u, v, ps₁, ps₂, rfl, rfl, rfl, hnil, rfl⟩ |
    ⟨-, ps₁, old, new, ps₂, rfl, hstart, -⟩
  · cases ps₁ with
    | nil => exact .inl ⟨[], oldText ps₂, [], ps₂, rfl, rfl, rfl, rfl, rfl⟩
    | cons a ps₁ =>
      -- something was put in without leaving a character, between `c` and the rest
      cases a with
      | keep d => cases hnil
      | put old new =>
        refine .inr ⟨hcons, [.keep c], old, new, _, rfl, ?_, ?_⟩
        · have hpos := List.length_pos_iff.2 ht
          show 1 < 0 + (t.length + 1)
          omega
        · exact Nat.lt_add_right _ Nat.one_pos
  · refine .inr ⟨hcons, .keep c :: ps₁, old, new, ps₂, rfl, ?_, ?_⟩
    · simp only [newText_cons, List.length_append, List.length_cons, Piece.new, List.length_nil] at *
      omega
    · simp only [newText_cons, List.length_append, Piece.new, List.length_cons, List.length_nil]
      omega

/-- **Where a copy comes from**: it has come through, or it has been completed. -/
theorem copy_cases (ht : t ≠ []) (h : newText ps = u' ++ t ++ v') :
    (∃ u v, Passes t ps u v u' v') ∨ Completed t ps u' v' := by
  induction ps generalizing u' t with
  | nil =>
    have hnil : t = [] := by simp_all
    exact (ht hnil).elim
  | cons a ps ih =>
    by_cases hlen : a.new.length ≤ u'.length
    · -- the copy begins later
      obtain ⟨u'', rfl⟩ : a.new <+: u' :=
        List.prefix_of_prefix_length_le ⟨newText ps, (newText_cons a).symm⟩
          ⟨t ++ v', by rw [h, List.append_assoc]⟩ hlen
      have hrest : newText ps = u'' ++ t ++ v' := by
        rw [newText_cons, List.append_assoc, List.append_assoc] at h
        rw [List.append_cancel_left h, List.append_assoc]
      rcases ih ht hrest with ⟨u, v, hpass⟩ | hcomp
      · exact .inl ⟨_, _, hpass.cons a⟩
      · exact .inr (hcomp.cons a)
    · cases a with
      | put old new =>
        have hpos := List.length_pos_iff.2 ht
        refine .inr ⟨h, [], old, new, ps, rfl, ?_, ?_⟩
        · rw [newText_nil, List.length_nil]
          omega
        · rw [newText_nil, List.length_nil, Nat.zero_add]
          exact not_le.1 hlen
      | keep c =>
        obtain rfl : u' = [] := List.length_eq_zero_iff.1 (Nat.lt_one_iff.1 (not_le.1 hlen))
        cases t with
        | nil => exact (ht rfl).elim
        | cons d t =>
          obtain ⟨rfl, htext⟩ := List.cons.inj h
          by_cases hnil : t = []
          · subst hnil
            exact .inl ⟨[], oldText ps, [], ps, rfl, rfl, rfl, rfl, htext⟩
          · exact copy_keep hnil htext (ih hnil htext)

theorem subAll_append {before after : List (Rule α)} {s : Rule α} {x : List α} :
    subAll (before ++ s :: after) x = subAll after (s.sub (subAll before x)) := by
  rw [subAll, List.foldl_append, List.foldl_cons]
  rfl

theorem Stays.infix {ss : List (Rule α)} (h : Stays t ss u v) :
    t <:+: subAll ss (u ++ t ++ v) := by
  induction ss generalizing u v with
  | nil => exact ⟨u, v, rfl⟩
  | cons s ss ih =>
    obtain ⟨u', v', hpass, hstays⟩ := h
    have hsub : s.sub (u ++ t ++ v) = u' ++ t ++ v' := hpass.new
    rw [subAll, List.foldl_cons, hsub]
    exact ih hstays

/-- Some copy of `t` that a substitution completes comes through the later ones. -/
def CompletedCopy (t : List α) (ss : List (Rule α)) (x : List α) : Prop :=
  ∃ before s after u v, ss = before ++ s :: after ∧
    Completed t (s.pieces (subAll before x)) u v ∧ Stays t after u v

/-- Some copy of `t` that is there comes through. -/
def OriginalCopy (t : List α) (ss : List (Rule α)) (x : List α) : Prop :=
  ∃ u v, x = u ++ t ++ v ∧ Stays t ss u v

/-- **What is left of a string** after substitutions are the copies that have come through. -/
theorem infix_subAll_iff (ht : t ≠ []) {ss : List (Rule α)} {x : List α} :
    t <:+: subAll ss x ↔ OriginalCopy t ss x ∨ CompletedCopy t ss x := by
  constructor
  · induction ss generalizing x with
    | nil =>
      rintro ⟨u, v, rfl⟩
      exact .inl ⟨u, v, rfl, trivial⟩
    | cons s ss ih =>
      intro h
      rcases ih h with ⟨u', v', hsub, hstays⟩ | ⟨before, s', after, u, v, rfl, hcomp, hstays⟩
      · rcases copy_cases ht hsub with ⟨u, v, hpass⟩ | hcomp
        · have hx : x = u ++ t ++ v := (Rule.oldText_pieces s x).symm.trans hpass.old
          exact .inl ⟨u, v, hx, u', v', hx ▸ hpass, hstays⟩
        · exact .inr ⟨[], s, ss, u', v', rfl, hcomp, hstays⟩
      · exact .inr ⟨s :: before, s', after, u, v, rfl, hcomp, hstays⟩
  · rintro (⟨u, v, rfl, hstays⟩ | ⟨before, s, after, u, v, rfl, hcomp, hstays⟩)
    · exact hstays.infix
    · have hsub : s.sub (subAll before x) = u ++ t ++ v := hcomp.1
      rw [subAll_append, hsub]
      exact hstays.infix

end copies

/-! ## Replacing one string -/

section replacing

variable [DecidableEq α] {x y new : List α} {prev : Option α}

theorem Re.run_literal : (Re.literal x).run prev y =
    if x <+: y then [(x, y.drop x.length)] else [] := by
  induction x generalizing prev y with
  | nil => rw [if_pos (List.nil_prefix)]; rfl
  | cons c x ih =>
    cases y with
    | nil =>
      rw [if_neg (by simp)]
      rfl
    | cons d y =>
      have hstep : (Re.literal (c :: x)).run prev (d :: y) =
          (if decide (d = c) = true then [([d], y)] else []).flatMap fun z =>
            ((Re.literal x).run (z.1.getLast?.or prev) z.2).map fun z' => (z.1 ++ z'.1, z'.2) := rfl
      rw [hstep]
      by_cases hd : d = c
      · subst hd
        by_cases hx : x <+: y
        · simp [ih, hx]
        · simp [ih, hx]
      · have hne : ¬(c :: x <+: d :: y) := fun h => hd (List.cons_prefix_cons.1 h).1.symm
        simp [hd, hne]

theorem Rule.run_replacing : (Rule.replacing x new).run prev y =
    if x <+: y then [([.put x new], y.drop x.length)] else [] := by
  unfold replacing
  rw [Rule.run, Re.run_literal]
  by_cases hx : x <+: y
  · simp [hx, Rule.run, Portion.pieces]
  · simp [hx]

/-- Up to its first copy of the string a text is left alone. -/
theorem Rule.scan_replacing (hx : x ≠ []) {u v : List α} {n : Nat}
    (hn : (u ++ x ++ v).length ≤ n)
    (hfirst : ∀ a b, u ++ x = a ++ x ++ b → b = []) :
    ∃ ps, (Rule.replacing x new).scan n prev (u ++ x ++ v) =
      u.map .keep ++ .put x new :: ps := by
  induction u generalizing n prev with
  | nil =>
    cases x with
    | nil => exact (hx rfl).elim
    | cons c x =>
      cases n with
      | zero => cases hn
      | succ n =>
        have hrun : ((Rule.replacing (c :: x) new).run prev (c :: (x ++ v))).head? =
            some ([.put (c :: x) new], v) := by
          rw [Rule.run_replacing, if_pos ⟨v, rfl⟩]
          simp
        exact ⟨_, Rule.scan_match hrun (by simp)⟩
  | cons c u ih =>
    cases n with
    | zero => cases hn
    | succ n =>
      have hno : ¬(x <+: c :: (u ++ x ++ v)) := by
        intro hprefix
        obtain ⟨b, hb⟩ : x <+: c :: u ++ x := by
          refine List.prefix_of_prefix_length_le hprefix ⟨v, rfl⟩ ?_
          rw [List.length_append]
          omega
        have hnil := hfirst [] b (by rw [List.nil_append, hb])
        rw [hnil, List.append_nil] at hb
        have hlen := congrArg List.length hb
        rw [List.length_append, List.length_cons] at hlen
        omega
      have hrun : (Rule.replacing x new).run prev (c :: (u ++ x ++ v)) = [] := by
        rw [Rule.run_replacing, if_neg hno]
      obtain ⟨ps, hps⟩ := @ih (some c) n (Nat.le_of_succ_le_succ hn) fun a b hab =>
        hfirst (c :: a) b (by rw [List.cons_append, hab]; rfl)
      exact ⟨ps, (Rule.scan_none hrun).trans (congrArg _ hps)⟩

end replacing

end Regex
