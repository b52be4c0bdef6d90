import Mathlib.Data.List.Count
import Mathlib.Tactic.SplitIfs

/-!
# Counting rows

Rows are only added to a table and written in place.  If no row that has a property loses it, the
number of rows that have it does not fall, and it rises with every row that gains it.
-/

namespace Counting

variable {α : Type*} {p : α → Bool} {l l' : List α}

/-- Every row with the property is still there and still has it. -/
def Keeps (p : α → Bool) (l l' : List α) : Prop :=
  ∀ (i : Nat) (x : α), l[i]? = some x → p x = true → ∃ x', l'[i]? = some x' ∧ p x' = true

theorem Keeps.refl (l : List α) : Keeps p l l := fun _ x hx hp => ⟨x, hx, hp⟩

/-- The rows behind the first one. -/
theorem Keeps.tail {x x' : α} (h : Keeps p (x :: l) (x' :: l')) : Keeps p l l' :=
  fun i y hy hp => h (i + 1) y hy hp

theorem Keeps.head {x x' : α} (h : Keeps p (x :: l) (x' :: l')) (hx : p x = true) :
    p x' = true := by
  obtain ⟨y, hy, hp⟩ := h 0 x rfl hx
  cases hy
  exact hp

theorem Keeps.countP_le (h : Keeps p l l') : l.countP p ≤ l'.countP p := by
  induction l generalizing l' with
  | nil => exact Nat.zero_le _
  | cons x l ih =>
    cases l' with
    | nil =>
      refine Nat.le_of_eq (List.countP_eq_zero.2 fun y hy hp => ?_)
      obtain ⟨i, hi⟩ := List.mem_iff_getElem?.1 hy
      obtain ⟨y', hy', -⟩ := h i y hi hp
      cases hy'
    | cons x' l' =>
      rw [List.countP_cons, List.countP_cons]
      refine Nat.add_le_add (ih h.tail) ?_
      split_ifs with hx hx'
      · exact Nat.le_refl _
      · exact absurd (h.head hx) hx'
      · exact Nat.zero_le 1
      · exact Nat.le_refl _

/-- **One more** row has the property. -/
theorem Keeps.countP_lt {i : Nat} {x x' : α} (h : Keeps p l l') (hx : l[i]? = some x)
    (hp : p x = false) (hx' : l'[i]? = some x') (hp' : p x' = true) :
    l.countP p < l'.countP p := by
  induction l generalizing l' i with
  | nil => cases hx
  | cons y l ih =>
    cases l' with
    | nil => cases hx'
    | cons y' l' =>
      rw [List.countP_cons, List.countP_cons]
      cases i with
      | zero =>
        cases hx
        cases hx'
        rw [if_neg (by rw [hp]; exact Bool.false_ne_true), if_pos hp']
        exact Nat.lt_succ_of_le h.tail.countP_le
      | succ i =>
        refine Nat.add_lt_add_of_lt_of_le (ih h.tail hx hx') ?_
        split_ifs with hy hy'
        · exact Nat.le_refl _
        · exact absurd (h.head hy) hy'
        · exact Nat.zero_le 1
        · exact Nat.le_refl _

end Counting
