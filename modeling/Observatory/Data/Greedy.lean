import Mathlib.Algebra.BigOperators.Group.List.Basic
import Mathlib.Data.List.Induction
import Mathlib.Order.MinMax

/-!
# Greedy selection

Candidates come one after the other, and each is taken if it fits what has been taken before it.
What has been taken from a prefix never changes again, so a property of the selection is kept by
every single choice (`select_induct`), and why a candidate was left out is said by the selection from
the candidates before it (`select_split`).

`Quotas` are the choice by two budgets: one for everything, from which some candidates are exempt,
and one for the candidates that are limited.
-/

namespace Greedy

variable {α β M : Type*} {l l₁ l₂ taken : List α} {a : α}

section select

variable {fits : List α → α → Bool} {P : List α → Prop}

/-- One choice. -/
def choose (fits : List α → α → Bool) (taken : List α) (a : α) : List α :=
  if fits taken a then taken ++ [a] else taken

def select (fits : List α → α → Bool) (l : List α) : List α := l.foldl (choose fits) []

theorem choose_pos (h : fits taken a = true) : choose fits taken a = taken ++ [a] := if_pos h

theorem choose_neg (h : ¬ fits taken a = true) : choose fits taken a = taken := if_neg h

theorem select_append : select fits (l₁ ++ l₂) = l₂.foldl (choose fits) (select fits l₁) :=
  List.foldl_append

theorem select_concat : select fits (l ++ [a]) = choose fits (select fits l) a := select_append

/-- What is taken stays, and the rest comes from the candidates. -/
theorem foldl_choose (fits : List α → α → Bool) (taken l : List α) :
    ∃ l', l.foldl (choose fits) taken = taken ++ l' ∧ l'.Sublist l := by
  induction l generalizing taken with
  | nil => exact ⟨[], (List.append_nil taken).symm, .slnil⟩
  | cons a l ih =>
    obtain ⟨l', hl', hsub⟩ := ih (choose fits taken a)
    rw [List.foldl_cons, hl']
    by_cases h : fits taken a = true
    · rw [choose_pos h, List.append_assoc]
      exact ⟨a :: l', rfl, hsub.cons_cons a⟩
    · rw [choose_neg h]
      exact ⟨l', rfl, hsub.cons a⟩

theorem select_sublist : (select fits l).Sublist l := by
  obtain ⟨l', hl', hsub⟩ := foldl_choose fits [] l
  rw [select, hl']
  exact hsub

/-- **An invariant of the choices** holds of the selection. -/
theorem foldl_choose_induct (h : P taken)
    (hstep : ∀ taken, ∀ a ∈ l, P taken → fits taken a = true → P (taken ++ [a])) :
    P (l.foldl (choose fits) taken) := by
  induction l generalizing taken with
  | nil => exact h
  | cons a l ih =>
    refine ih ?_ fun taken b hb => hstep taken b (List.mem_cons_of_mem a hb)
    by_cases hfits : fits taken a = true
    · rw [choose_pos hfits]
      exact hstep taken a List.mem_cons_self h hfits
    · rw [choose_neg hfits]
      exact h

theorem select_induct (h : P [])
    (hstep : ∀ taken, ∀ a ∈ l, P taken → fits taken a = true → P (taken ++ [a])) :
    P (select fits l) := foldl_choose_induct h hstep

/-- What always fits is taken. -/
theorem mem_select (ha : a ∈ l) (h : ∀ taken, fits taken a = true) : a ∈ select fits l := by
  obtain ⟨l₁, l₂, rfl⟩ := List.append_of_mem ha
  obtain ⟨l', hl', -⟩ := foldl_choose fits (choose fits (select fits l₁) a) l₂
  rw [select_append, List.foldl_cons, hl', choose_pos (h _)]
  exact List.mem_append_left l' List.mem_concat_self

/-- **Why a candidate is left out**: it did not fit what was taken before it. -/
theorem select_split (h : a ∉ select fits (l₁ ++ a :: l₂)) :
    fits (select fits l₁) a = false ∧
      ∃ l', select fits (l₁ ++ a :: l₂) = select fits l₁ ++ l' ∧ l'.Sublist l₂ := by
  obtain ⟨l', hl', hsub⟩ := foldl_choose fits (choose fits (select fits l₁) a) l₂
  rw [select_append, List.foldl_cons] at h ⊢
  by_cases hfits : fits (select fits l₁) a = true
  · rw [hl', choose_pos hfits] at h
    exact absurd (List.mem_append_left l' List.mem_concat_self) h
  · rw [hl', choose_neg hfits]
    exact ⟨Bool.eq_false_iff.2 hfits, l', rfl, hsub⟩

/-- The choices only depend on what they look at. -/
theorem select_map {fits' : List β → β → Bool} {f : α → β}
    (hf : ∀ taken a, fits' (taken.map f) (f a) = fits taken a) :
    select fits' (l.map f) = (select fits l).map f := by
  induction l using List.reverseRecOn with
  | nil => rfl
  | append_singleton l a ih =>
    rw [List.map_append, List.map_cons, List.map_nil, select_concat, select_concat, ih, choose,
      choose, hf]
    split
    · rw [List.map_append, List.map_cons, List.map_nil]
    · rfl

end select

/-! ## Quotas -/

/-- Two budgets: `budget` for all but the exempt candidates, `cap` for the limited ones. -/
structure Quotas (α M : Type*) where
  cost : α → M
  limited : α → Bool
  exempt : α → Bool
  budget : M
  cap : M

namespace Quotas

variable [AddCommMonoid M] {q : Quotas α M}

def total (q : Quotas α M) (l : List α) : M := (l.map q.cost).sum

/-- What the limited ones cost. -/
def spent (q : Quotas α M) (l : List α) : M := q.total (l.filter q.limited)

@[simp] theorem total_nil : q.total [] = 0 := rfl

@[simp] theorem total_append : q.total (l₁ ++ l₂) = q.total l₁ + q.total l₂ := by
  rw [total, List.map_append, List.sum_append]
  rfl

@[simp] theorem total_singleton : q.total [a] = q.cost a := by
  rw [total, List.map_singleton, List.sum_singleton]

@[simp] theorem spent_nil : q.spent [] = 0 := rfl

theorem spent_concat : q.spent (l ++ [a]) = q.spent l + if q.limited a then q.cost a else 0 := by
  rw [spent, List.filter_append, total_append]
  congr 1
  by_cases h : q.limited a = true
  · rw [if_pos h, List.filter_cons_of_pos h, List.filter_nil, total_singleton]
  · rw [if_neg h, List.filter_cons_of_neg h, List.filter_nil, total_nil]

variable [LinearOrder M]

/-- The candidate breaks neither quota. -/
def admits (q : Quotas α M) (taken : List α) (a : α) : Bool :=
  (!q.limited a || q.spent taken + q.cost a ≤ q.cap) &&
    (q.exempt a || q.total taken + q.cost a ≤ q.budget)

theorem admits_iff : q.admits taken a = true ↔
    (q.limited a = true → q.spent taken + q.cost a ≤ q.cap) ∧
      (q.exempt a = false → q.total taken + q.cost a ≤ q.budget) := by
  rw [admits, Bool.and_eq_true, Bool.or_eq_true, Bool.or_eq_true, decide_eq_true_eq,
    decide_eq_true_eq, Bool.not_eq_true']
  cases q.limited a <;> cases q.exempt a <;> simp

theorem admits_eq_false_iff : q.admits taken a = false ↔
    (q.limited a = true ∧ q.cap < q.spent taken + q.cost a) ∨
      (q.exempt a = false ∧ q.budget < q.total taken + q.cost a) := by
  rw [← Bool.not_eq_true, admits_iff, not_and_or, Classical.not_imp, Classical.not_imp, not_le,
    not_le]

/-- What is selected by the quotas. -/
def pack (q : Quotas α M) (l : List α) : List α := select q.admits l

/-- **The limited ones keep to their quota.** -/
theorem spent_pack (hcap : 0 ≤ q.cap) : q.spent (q.pack l) ≤ q.cap := by
  refine select_induct (P := fun taken => q.spent taken ≤ q.cap) hcap fun taken a _ h hfits => ?_
  rw [spent_concat]
  by_cases hlim : q.limited a = true
  · rw [if_pos hlim]
    exact (admits_iff.1 hfits).1 hlim
  · rw [if_neg hlim, add_zero]
    exact h

/-- **The whole keeps to the budget, or is no more than the exempt ones**, if these come first. -/
theorem total_pack (h₁ : ∀ a ∈ l₁, q.exempt a = true) (h₂ : ∀ a ∈ l₂, q.exempt a = false) :
    q.total (q.pack (l₁ ++ l₂)) ≤ max q.budget (q.total ((q.pack (l₁ ++ l₂)).filter q.exempt)) := by
  have hbase : (q.pack l₁).filter q.exempt = q.pack l₁ :=
    List.filter_eq_self.2 fun a ha => h₁ a (select_sublist.subset ha)
  rw [pack, select_append]
  refine foldl_choose_induct
    (P := fun taken => q.total taken ≤ max q.budget (q.total (taken.filter q.exempt))) ?_ ?_
  · change q.total (q.pack l₁) ≤ max q.budget (q.total ((q.pack l₁).filter q.exempt))
    rw [hbase]
    exact le_max_right _ _
  · intro taken a ha _ hfits
    rw [total_append, total_singleton]
    exact le_max_of_le_left ((admits_iff.1 hfits).2 (h₂ a ha))

/-- What is exempt and not limited is taken. -/
theorem mem_pack (ha : a ∈ l) (hexempt : q.exempt a = true) (hlim : q.limited a = false) :
    a ∈ q.pack l := by
  refine mem_select ha fun taken => admits_iff.2 ⟨fun h => ?_, fun h => ?_⟩
  · rw [hlim] at h
    cases h
  · rw [hexempt] at h
    cases h

/-- What the quotas do not look at does not matter. -/
theorem pack_map {f : α → α} (hcost : ∀ a, q.cost (f a) = q.cost a)
    (hlim : ∀ a, q.limited (f a) = q.limited a) (hexempt : ∀ a, q.exempt (f a) = q.exempt a) :
    q.pack (l.map f) = (q.pack l).map f := by
  have htotal : ∀ l : List α, q.total (l.map f) = q.total l := by
    intro l
    simp only [total, List.map_map, Function.comp_def, hcost]
  have hspent : ∀ l : List α, q.spent (l.map f) = q.spent l := by
    intro l
    simp only [spent, List.filter_map, Function.comp_def, hlim, htotal]
  refine select_map fun taken a => ?_
  simp only [admits, hcost, hlim, hexempt, htotal, hspent]

end Quotas

end Greedy
