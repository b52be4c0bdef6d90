import Mathlib.Algebra.GroupWithZero.Nat
import Mathlib.Data.List.Find
import Observatory.Data.Matches

/-!
# Weighing what a substitution does

Characters have weights, and so have some strings, the marks, each of which counts as one wherever
it stands.  A substitution that cuts through no mark lowers the weight of a text by what it lowers
the weights of the strings it puts something in the place of (`Scale.weigh_newText`).  If every
substitution of several lowers what it changes, then no change is undone by a later one: a text that
they leave as it is, taken together, is one in which none of them changes anything
(`subAll_eq_iff`).
-/

namespace Regex

variable {α : Type}

/-- Weights of characters and of marks, strings between an opener and a closer. -/
structure Scale (α : Type) where
  opener : α
  closer : α
  marks : List (List α)
  char : α → ℕ
  mark : List α → ℕ
  opener_ne_closer : opener ≠ closer
  shape : ∀ m ∈ marks, ∃ body, m = opener :: (body ++ [closer]) ∧ opener ∉ body ∧ closer ∉ body
  char_pos : ∀ c, 0 < char c
  mark_pos : ∀ m ∈ marks, 0 < mark m

namespace Scale

variable {k : Scale α} {x y u v t a b m : List α} {c : α}

/-! ## Cuts -/

/-- A mark begins before the cut between `x` and `y` and ends behind it. -/
def Straddles (k : Scale α) (x y : List α) : Prop :=
  ∃ m ∈ k.marks, ∃ a b, m = a ++ b ∧ a ≠ [] ∧ b ≠ [] ∧ a <:+ x ∧ b <+: y

/-- The two parts of a mark. -/
theorem parts_of_mark (hm : m ∈ k.marks) (h : m = a ++ b) (ha : a ≠ []) (hb : b ≠ []) :
    (k.opener ∈ a ∧ k.closer ∉ a) ∧ k.opener ∉ b ∧ k.closer ∈ b := by
  obtain ⟨body, hbody, hopener, hcloser⟩ := k.shape m hm
  rw [hbody] at h
  cases a with
  | nil => exact (ha rfl).elim
  | cons d a =>
    obtain ⟨rfl, hrest⟩ := List.cons.inj h
    rcases List.append_eq_append_iff.1 hrest with ⟨z, rfl, hz⟩ | ⟨z, rfl, rfl⟩
    · -- the closer would stand in the first part
      cases z with
      | nil =>
        rw [List.append_nil]
        obtain rfl : b = [k.closer] := hz.symm
        simp [hcloser, k.opener_ne_closer, k.opener_ne_closer.symm]
      | cons e z =>
        obtain ⟨-, hnil⟩ := List.cons.inj hz
        exact (hb (List.append_eq_nil_iff.1 hnil.symm).2).elim
    · simp only [List.mem_append, not_or] at hopener hcloser
      simp [hcloser.1, hopener.2, k.opener_ne_closer, k.opener_ne_closer.symm]

theorem Straddles.mono (h : k.Straddles x y) (hx : x <:+ u) (hy : y <+: v) :
    k.Straddles u v := by
  obtain ⟨m, hm, a, b, rfl, ha, hb, hax, hby⟩ := h
  exact ⟨_, hm, a, b, rfl, ha, hb, hax.trans hx, hby.trans hy⟩

/-- No mark begins before a string that is part of none and has no closer. -/
theorem not_straddles_of_prefix (hpart : ∀ m ∈ k.marks, ¬t <:+: m) (hcloser : k.closer ∉ t)
    (ht : t <+: y) : ¬k.Straddles x y := by
  rintro ⟨m, hm, a, b, rfl, ha, hb, -, hby⟩
  rcases List.prefix_or_prefix_of_prefix ht hby with htb | hbt
  · exact hpart _ hm (htb.isInfix.trans (List.suffix_append a b).isInfix)
  · exact hcloser (hbt.subset (parts_of_mark hm rfl ha hb).2.2)

theorem not_straddles_of_suffix (hpart : ∀ m ∈ k.marks, ¬t <:+: m) (hopener : k.opener ∉ t)
    (ht : t <:+ x) : ¬k.Straddles x y := by
  rintro ⟨m, hm, a, b, rfl, ha, hb, hax, -⟩
  rcases List.suffix_or_suffix_of_suffix ht hax with hta | hat
  · exact hpart _ hm (hta.isInfix.trans (List.prefix_append a b).isInfix)
  · exact hopener (hat.subset (parts_of_mark hm rfl ha hb).1.1)

/-- Behind a character of no mark, and behind a closer, no mark is cut. -/
theorem not_straddles_of_last (hc : c = k.closer ∨ ∀ m ∈ k.marks, c ∉ m)
    (hx : x.getLast? = some c) : ¬k.Straddles x y := by
  rintro ⟨m, hm, a, b, rfl, ha, hb, ⟨z, rfl⟩, -⟩
  have hmem : c ∈ a := by
    rw [List.getLast?_append_of_ne_nil _ ha] at hx
    exact List.mem_of_getLast? hx
  rcases hc with rfl | hc
  · exact (parts_of_mark hm rfl ha hb).1.2 hmem
  · exact hc _ hm (List.mem_append_left b hmem)

theorem not_straddles_of_head (hc : c = k.opener ∨ ∀ m ∈ k.marks, c ∉ m)
    (hy : y.head? = some c) : ¬k.Straddles x y := by
  rintro ⟨m, hm, a, b, rfl, ha, hb, -, ⟨z, rfl⟩⟩
  have hmem : c ∈ b := by
    rw [List.head?_append_of_ne_nil _ hb] at hy
    exact List.mem_of_head? hy
  rcases hc with rfl | hc
  · exact (parts_of_mark hm rfl ha hb).2.1 hmem
  · exact hc _ hm (List.mem_append_right a hmem)

/-- A mark that begins before a cut ends before it. -/
theorem prefix_of_not_straddles (h : ¬k.Straddles x y) (hm : m ∈ k.marks) (hx : x ≠ [])
    (hpre : m <+: x ++ y) : m <+: x := by
  rcases List.prefix_or_prefix_of_prefix hpre (List.prefix_append x y) with hmx | ⟨b, rfl⟩
  · exact hmx
  · by_cases hb : b = []
    · rw [hb, List.append_nil]
    · exact (h ⟨_, hm, x, b, rfl, hx, hb, List.suffix_refl x,
        (List.prefix_append_right_inj x).1 hpre⟩).elim

theorem not_straddles_nil : ¬k.Straddles x [] := by
  rintro ⟨m, -, a, b, -, -, hb, -, hby⟩
  exact hb (List.prefix_nil.1 hby)

/-- No mark is cut where the string begins or ends, wherever it stands. -/
structure Closed (k : Scale α) (new : List α) : Prop where
  before : ∀ u v, ¬k.Straddles u (new ++ v)
  after : ∀ u v, ¬k.Straddles (u ++ new) v

theorem Closed.of_ends {d : α} (hc : c = k.opener ∨ ∀ m ∈ k.marks, c ∉ m)
    (hd : d = k.closer ∨ ∀ m ∈ k.marks, d ∉ m) (hhead : x.head? = some c)
    (hlast : x.getLast? = some d) : k.Closed x where
  before u v := not_straddles_of_head hc (by rw [List.head?_append, hhead]; rfl)
  after u v := not_straddles_of_last hd (by rw [List.getLast?_append, hlast]; rfl)

/-! ## Weights -/

variable [DecidableEq α]

/-- The weight without the first `n` characters. -/
def weighFrom (k : Scale α) : ℕ → List α → ℕ
  | _, [] => 0
  | n + 1, _ :: x => k.weighFrom n x
  | 0, c :: x =>
    match k.marks.find? (· <+: c :: x) with
    | some m => k.mark m + k.weighFrom (m.length - 1) x
    | none => k.char c + k.weighFrom 0 x

def weigh (k : Scale α) (x : List α) : ℕ := k.weighFrom 0 x

@[simp] theorem weigh_nil : k.weigh [] = 0 := rfl

theorem weighFrom_eq {n : ℕ} : k.weighFrom n x = k.weigh (x.drop n) := by
  induction x generalizing n with
  | nil => cases n <;> rfl
  | cons c x ih =>
    cases n with
    | zero => rfl
    | succ n => exact ih

/-- A text begins with a mark or a character. -/
theorem weigh_cases (c : α) (x : List α) :
    (∃ m ∈ k.marks, ∃ y, c :: x = m ++ y ∧ k.weigh (c :: x) = k.mark m + k.weigh y) ∨
      k.weigh (c :: x) = k.char c + k.weigh x := by
  rw [weigh, weighFrom]
  split
  · next m hfind =>
    have hm := List.mem_of_find?_eq_some hfind
    obtain ⟨y, hy⟩ : m <+: c :: x := by simpa using List.find?_some hfind
    obtain ⟨body, rfl, -, -⟩ := k.shape m hm
    obtain ⟨-, hx⟩ := List.cons.inj hy
    refine .inl ⟨_, hm, y, hy.symm, ?_⟩
    rw [weighFrom_eq, List.length_cons, Nat.add_sub_cancel, ← hx]
    exact congrArg _ (congrArg k.weigh List.drop_left)
  · exact .inr rfl

theorem eq_nil_of_weigh (h : k.weigh x = 0) : x = [] := by
  cases x with
  | nil => rfl
  | cons c x =>
    rcases weigh_cases c x with ⟨m, hm, y, -, hy⟩ | hy
    · have hpos := k.mark_pos m hm
      omega
    · have hpos := k.char_pos c
      omega

theorem weigh_cons (hc : c ≠ k.opener) : k.weigh (c :: x) = k.char c + k.weigh x := by
  rcases @weigh_cases α k _ c x with ⟨m, hm, y, hy, -⟩ | h
  · obtain ⟨body, rfl, -, -⟩ := k.shape m hm
    exact (hc (List.cons.inj hy).1).elim
  · exact h

/-- A text without openers has no marks. -/
theorem weigh_append_of_notMem (h : k.opener ∉ x) :
    k.weigh (x ++ y) = (x.map k.char).sum + k.weigh y := by
  induction x with
  | nil => simp
  | cons c x ih =>
    rw [List.mem_cons, not_or] at h
    rw [List.cons_append, weigh_cons (Ne.symm h.1), ih h.2, List.map_cons, List.sum_cons,
      Nat.add_assoc]

/-- **Between marks** a text can be weighed in two parts. -/
theorem weigh_append (h : ¬k.Straddles x y) : k.weigh (x ++ y) = k.weigh x + k.weigh y := by
  have hfrom : ∀ n ≤ x.length, k.weighFrom n (x ++ y) = k.weighFrom n x + k.weigh y := by
    induction x with
    | nil =>
      intro n hn
      obtain rfl := Nat.le_zero.1 hn
      exact (Nat.zero_add _).symm
    | cons c x ih =>
      intro n hn
      have hlater := ih fun hs => h (hs.mono (List.suffix_cons c x) (List.prefix_refl y))
      cases n with
      | succ n => exact hlater n (Nat.le_of_succ_le_succ hn)
      | zero =>
        have hfind : k.marks.find? (· <+: c :: (x ++ y)) = k.marks.find? (· <+: c :: x) := by
          refine List.find?_congr fun m hm => decide_eq_decide.2 ⟨fun hpre => ?_, fun hpre => ?_⟩
          · exact prefix_of_not_straddles h hm (List.cons_ne_nil c x) hpre
          · exact hpre.trans (List.prefix_append (c :: x) y)
        rw [List.cons_append, weighFrom, weighFrom, hfind]
        split
        · next m hm =>
          have hpre : m <+: c :: x := by simpa using List.find?_some hm
          have hlen := hpre.length_le
          rw [hlater _ (by simpa using hlen), Nat.add_assoc]
        · rw [hlater 0 (Nat.zero_le _), Nat.add_assoc]
  exact hfrom 0 (Nat.zero_le _)

/-! ## Substitutions -/

/-- Between `u` and `v`, `old` can be weighed by itself, and it weighs more than what is put in its
place unless that is the same. -/
structure Lowers (k : Scale α) (u old new v : List α) : Prop where
  before : ¬k.Straddles u (old ++ v)
  after : ¬k.Straddles (u ++ old) v
  closed : k.Closed new
  lower : new = old ∨ k.weigh new < k.weigh old

variable {ps : List (Piece α)}

theorem Lowers.mono {old new : List α} (h : k.Lowers (u ++ x) old new v) :
    k.Lowers x old new v where
  before hs := h.before (hs.mono (List.suffix_append u x) (List.prefix_refl _))
  after hs := h.after (hs.mono ⟨u, by rw [List.append_assoc]⟩ (List.prefix_refl v))
  closed := h.closed
  lower := h.lower

theorem Lowers.weigh_old {old new : List α} (h : k.Lowers u old new v) :
    k.weigh (u ++ (old ++ v)) = k.weigh u + (k.weigh old + k.weigh v) := by
  rw [weigh_append h.before, weigh_append fun hs =>
    h.after (hs.mono (List.suffix_append u old) (List.prefix_refl v))]

theorem Lowers.weigh_new {old new y : List α} (h : k.Lowers u old new v) :
    k.weigh (u ++ (new ++ y)) = k.weigh u + (k.weigh new + k.weigh y) := by
  rw [weigh_append (h.closed.before u y), weigh_append fun hs =>
    h.closed.after u y (hs.mono (List.suffix_append u new) (List.prefix_refl y))]

/-- **A substitution that lowers what it changes** lowers the weight of the text, or it changes
nothing. -/
theorem weigh_newText (h : ∀ ps₁ old new ps₂, ps = ps₁ ++ .put old new :: ps₂ →
    k.Lowers (oldText ps₁) old new (oldText ps₂)) :
    k.weigh (newText ps) ≤ k.weigh (oldText ps) ∧
      (k.weigh (newText ps) = k.weigh (oldText ps) → Idle ps) := by
  -- what is kept first waits for the next string that is put in
  have hkept : ∀ x, (∀ ps₁ old new ps₂, x.map .keep ++ ps = ps₁ ++ .put old new :: ps₂ →
      k.Lowers (oldText ps₁) old new (oldText ps₂)) →
        k.weigh (x ++ newText ps) ≤ k.weigh (x ++ oldText ps) ∧
          (k.weigh (x ++ newText ps) = k.weigh (x ++ oldText ps) → Idle ps) := by
    clear h
    induction ps with
    | nil =>
      intro x h
      exact ⟨le_rfl, fun _ a ha => (List.not_mem_nil ha).elim⟩
    | cons a ps ih =>
      intro x h
      cases a with
      | keep c =>
        obtain ⟨hle, heq⟩ := ih (x ++ [c]) fun ps₁ old new ps₂ hps => h ps₁ old new ps₂ (by
          rw [← hps, List.map_append, List.append_assoc]
          rfl)
        simp only [List.append_assoc, List.singleton_append] at hle heq
        refine ⟨hle, fun hw a ha => ?_⟩
        rcases List.mem_cons.1 ha with rfl | ha
        · rfl
        · exact heq hw a ha
      | put old new =>
        have hlow := h (x.map .keep) old new ps rfl
        rw [oldText_keep] at hlow
        obtain ⟨hle, heq⟩ := ih [] fun ps₁ old' new' ps₂ hps => by
          have hlater := h (x.map .keep ++ .put old new :: ps₁) old' new' ps₂ (by
            rw [List.append_assoc, List.cons_append, ← hps]
            rfl)
          rw [oldText_append, oldText_cons, ← List.append_assoc] at hlater
          exact hlater.mono
        simp only [List.nil_append] at hle heq
        have hold : k.weigh (x ++ oldText (.put old new :: ps)) =
            k.weigh x + (k.weigh old + k.weigh (oldText ps)) := hlow.weigh_old
        have hnew : k.weigh (x ++ newText (.put old new :: ps)) =
            k.weigh x + (k.weigh new + k.weigh (newText ps)) := hlow.weigh_new
        rw [hold, hnew]
        rcases hlow.lower with rfl | hlower
        · refine ⟨by omega, fun hw a ha => ?_⟩
          rcases List.mem_cons.1 ha with rfl | ha
          · rfl
          · exact heq (by omega) a ha
        · exact ⟨by omega, fun hw => by omega⟩
  have hnil := hkept [] fun ps₁ old new ps₂ hps => h ps₁ old new ps₂ hps
  simpa only [List.nil_append] using hnil

end Scale

section rules

variable [DecidableEq α] {k : Scale α} {s : Rule α} {ss : List (Rule α)} {x : List α}

/-- Every preferred match puts one string in, and that lowers the weight. -/
def Rule.Lowers (k : Scale α) (s : Rule α) : Prop :=
  ∀ prev x m rest, (s.run prev x).head? = some (m, rest) → ∃ a old new b,
    m = a.map .keep ++ .put old new :: b.map .keep ∧
      ∀ u, k.Lowers (u ++ a) old new (b ++ rest)

theorem Rule.Lowers.of_match {re : Re α} {new : List α}
    (h : ∀ prev x y, (re.run prev x).head? = some y → ∀ u, k.Lowers u y.1 new y.2) :
    Rule.Lowers k [⟨re, some new⟩] := by
  intro prev x m rest hrun
  obtain ⟨y, hy, heq⟩ := head_run_singleton hrun
  cases heq
  exact ⟨[], y.1, new, [], rfl, fun u => h prev x y hy (u ++ [])⟩

/-- What is kept before does not matter. -/
theorem Rule.Lowers.keep {re : Re α} (h : s.Lowers k) : Rule.Lowers k (⟨re, none⟩ :: s) := by
  intro prev x m rest hrun
  obtain ⟨y, -, ⟨m', rest'⟩, hlater, heq⟩ := head_run_cons hrun
  cases heq
  obtain ⟨a, old, new, b, rfl, hlow⟩ := h _ _ _ _ hlater
  refine ⟨y.1 ++ a, old, new, b, ?_, fun u => ?_⟩
  · rw [List.map_append, List.append_assoc]
    rfl
  · rw [← List.append_assoc]
    exact hlow (u ++ y.1)

theorem Rule.Lowers.weigh_sub (h : s.Lowers k) (x : List α) : k.weigh (s.sub x) ≤ k.weigh x ∧
    (k.weigh (s.sub x) = k.weigh x → Idle (s.pieces x)) := by
  have hpieces := @Scale.weigh_newText α k _ (s.pieces x) fun ps₁ old new ps₂ hps => by
    obtain ⟨p, x', prev', m, rest, m₁, m₂, -, -, hrun, hm, hold, hrest⟩ := scan_put le_rfl hps
    obtain ⟨a, old', new', b, hm', hlow⟩ := h _ _ _ _ hrun
    obtain ⟨rfl, rfl, rfl, rfl⟩ := one_put (hm.symm.trans hm')
    rw [hold, hrest, oldText_keep, oldText_keep]
    exact hlow p
  rwa [Rule.oldText_pieces] at hpieces

theorem weigh_subAll_le (h : ∀ s ∈ ss, s.Lowers k) : k.weigh (subAll ss x) ≤ k.weigh x := by
  induction ss generalizing x with
  | nil => exact le_rfl
  | cons s ss ih =>
    exact (ih fun s hs => h s (List.mem_cons_of_mem _ hs)).trans
      ((h s List.mem_cons_self).weigh_sub x).1

/-- **No change is undone**: substitutions that lower what they change either lower the weight of a
text or have nothing to change in it. -/
theorem settled_of_weigh_subAll (h : ∀ s ∈ ss, s.Lowers k)
    (hx : k.weigh (subAll ss x) = k.weigh x) : Settled ss x := by
  induction ss with
  | nil =>
    rintro s ⟨⟩
  | cons s ss ih =>
    have hlater : ∀ s ∈ ss, s.Lowers k := fun s hs => h s (List.mem_cons_of_mem _ hs)
    obtain ⟨hle, heq⟩ := (h s List.mem_cons_self).weigh_sub x
    have hrest : k.weigh (subAll (s :: ss) x) ≤ k.weigh (s.sub x) := weigh_subAll_le hlater
    have hidle := heq (le_antisymm hle (hx ▸ hrest))
    have hsub : s.sub x = x := hidle.newText.trans (s.oldText_pieces x)
    rw [subAll, List.foldl_cons, hsub] at hx
    intro s' hs'
    rcases List.mem_cons.1 hs' with rfl | hs'
    · exact hidle
    · exact ih hlater hx s' hs'

/-- **Repeated substitution comes to an end.** -/
theorem exists_settled (h : ∀ s ∈ ss, s.Lowers k) (x : List α) :
    ∃ n, Settled ss ((subAll ss)^[n] x) := by
  generalize hw : k.weigh x = w
  induction w using Nat.strong_induction_on generalizing x with
  | _ w ih =>
    by_cases hx : k.weigh (subAll ss x) = k.weigh x
    · exact ⟨0, settled_of_weigh_subAll h hx⟩
    · obtain ⟨n, hn⟩ := ih _ (hw ▸ lt_of_le_of_ne (weigh_subAll_le h) hx) (subAll ss x) rfl
      exact ⟨n + 1, hn⟩

end rules

end Regex
