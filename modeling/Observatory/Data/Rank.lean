import Mathlib.Data.List.Pairwise
import Mathlib.Data.List.Sort

/-!
# The first few of a sorted list

`l.countP (lt · x)` is the rank of `x` in `l`: how many elements come before it.  In a list sorted
by a strict order the first `n` elements are the ones of rank below `n` (`mem_take_iff_rank`), and
the rank does not depend on how the list is arranged, so the elements a query with a limit returns
are known without sorting anything.  Insertion sort is stable, hence what it sorts is sorted by the
key first and by the place in the list second (`pairwise_insertionSort_stable`).
-/

namespace Rank

variable {α : Type*} {lt : α → α → Prop} {l : List α} {x : α} {n : Nat}

/-- **The first `n` of a sorted list** have rank below `n`. -/
theorem mem_take_iff_rank [DecidableRel lt] (hsorted : l.Pairwise lt)
    (hasymm : ∀ y z, lt y z → ¬lt z y) :
    x ∈ l.take n ↔ x ∈ l ∧ l.countP (fun y => lt y x) < n := by
  induction l generalizing n with
  | nil => simp
  | cons y l ih =>
    obtain ⟨hy, hl⟩ := List.pairwise_cons.1 hsorted
    have hirrefl : ¬lt y y := fun h => hasymm y y h h
    cases n with
    | zero => simp
    | succ n =>
      by_cases hx : x ∈ l
      · -- the head comes before everything that follows it
        have hcount : (y :: l).countP (fun z => lt z x) = l.countP (fun z => lt z x) + 1 :=
          List.countP_cons_of_pos (decide_eq_true (hy x hx))
        have hne : x ≠ y := by
          rintro rfl
          exact hirrefl (hy x hx)
        rw [hcount, List.take_succ_cons, List.mem_cons, List.mem_cons, ih hl]
        constructor
        · rintro (heq | ⟨hmem, hlt⟩)
          · exact absurd heq hne
          · exact ⟨.inr hmem, by omega⟩
        · rintro ⟨-, hlt⟩
          exact .inr ⟨hx, by omega⟩
      · rw [List.take_succ_cons, List.mem_cons, List.mem_cons]
        constructor
        · rintro (rfl | hmem)
          · refine ⟨.inl rfl, ?_⟩
            have hnone : (x :: l).countP (fun z => lt z x) = 0 := by
              rw [List.countP_eq_zero]
              intro z hz
              rw [decide_eq_true_eq]
              rcases List.mem_cons.1 hz with rfl | hz
              · exact hirrefl
              · exact hasymm x z (hy z hz)
            omega
          · exact absurd (List.mem_of_mem_take hmem) hx
        · rintro ⟨heq | hmem, -⟩
          · exact .inl heq
          · exact absurd hmem hx

section stable

variable {r before : α → α → Prop} [DecidableRel r]

theorem pairwise_orderedInsert_stable [Std.Total r] [IsTrans α r] {a : α}
    (ha : ∀ y ∈ l, before a y)
    (hl : l.Pairwise fun x y => r x y ∧ (r y x → before x y)) :
    (l.orderedInsert r a).Pairwise fun x y => r x y ∧ (r y x → before x y) := by
  induction l with
  | nil => exact List.pairwise_singleton _ _
  | cons y l ih =>
    obtain ⟨hy, hl⟩ := List.pairwise_cons.1 hl
    rw [List.orderedInsert_cons]
    split
    · next hay =>
      refine List.pairwise_cons.2 ⟨fun z hz => ?_, List.pairwise_cons.2 ⟨hy, hl⟩⟩
      refine ⟨?_, fun _ => ha z hz⟩
      rcases List.mem_cons.1 hz with rfl | hz
      · exact hay
      · exact IsTrans.trans _ _ _ hay (hy z hz).1
    · next hay =>
      refine List.pairwise_cons.2 ⟨fun z hz => ?_, ih (fun z hz => ha z (.tail _ hz)) hl⟩
      rcases (List.mem_orderedInsert r).1 hz with rfl | hz
      · exact ⟨(Std.Total.total y z).resolve_right hay, fun h => absurd h hay⟩
      · exact hy z hz

/-- **Insertion sort is stable.** -/
theorem pairwise_insertionSort_stable [Std.Total r] [IsTrans α r] (hl : l.Pairwise before) :
    (l.insertionSort r).Pairwise fun x y => r x y ∧ (r y x → before x y) := by
  induction l with
  | nil => exact .nil
  | cons a l ih =>
    obtain ⟨ha, hl⟩ := List.pairwise_cons.1 hl
    exact pairwise_orderedInsert_stable (fun y hy => ha y ((List.mem_insertionSort r).1 hy)) (ih hl)

end stable

/-! ## The least by a key -/

section least

variable {β : Type*} [LinearOrder β] {key : α → β}

instance total_key : Std.Total fun x y => key x ≤ key y := ⟨fun _ _ => le_total _ _⟩

instance isTrans_key : IsTrans α fun x y => key x ≤ key y := ⟨fun _ _ _ => le_trans⟩

/-- The `n` elements with the least keys. -/
def least (key : α → β) (n : Nat) (l : List α) : List α :=
  (l.insertionSort fun x y => key x ≤ key y).take n

theorem mem_of_mem_least (hx : x ∈ least key n l) : x ∈ l :=
  (List.mem_insertionSort _).1 (List.mem_of_mem_take hx)

theorem length_least : (least key n l).length = min n l.length := by
  rw [least, List.length_take, List.length_insertionSort]

theorem nodup_least (hl : l.Nodup) : (least key n l).Nodup :=
  ((List.perm_insertionSort _ l).nodup_iff.2 hl).sublist (List.take_sublist _ _)

/-- **What is left out** has no smaller key. -/
theorem le_of_notMem_least {y : α} (hx : x ∈ least key n l) (hy : y ∈ l)
    (hnot : y ∉ least key n l) : key x ≤ key y := by
  have hsorted := List.pairwise_insertionSort (fun x y => key x ≤ key y) l
  rw [← List.take_append_drop n (l.insertionSort _), List.pairwise_append] at hsorted
  refine hsorted.2.2 x hx y ?_
  have hmem := (List.mem_insertionSort fun x y => key x ≤ key y).2 hy
  rw [← List.take_append_drop n (l.insertionSort _)] at hmem
  exact (List.mem_append.1 hmem).resolve_left hnot

theorem map_least : (least key n l).map key = least (fun d => d) n (l.map key) := by
  have hsorted : ((l.insertionSort fun x y => key x ≤ key y).map key).Pairwise (· ≤ ·) :=
    List.pairwise_map.2 (List.pairwise_insertionSort _ l)
  have hperm : ((l.insertionSort fun x y => key x ≤ key y).map key).Perm
      ((l.map key).insertionSort (· ≤ ·)) :=
    ((List.perm_insertionSort _ l).map key).trans (List.perm_insertionSort _ _).symm
  rw [least, List.map_take,
    List.Perm.eq_of_pairwise' hsorted (List.pairwise_insertionSort _ _) hperm]
  rfl

/-- The least keys do not depend on how the list is arranged. -/
theorem least_of_perm {l l' : List β} (h : l.Perm l') :
    least (fun d => d) n l = least (fun d => d) n l' := by
  have hperm : (l.insertionSort (· ≤ ·)).Perm (l'.insertionSort (· ≤ ·)) :=
    (List.perm_insertionSort _ l).trans (h.trans (List.perm_insertionSort _ l').symm)
  have hsame := List.Perm.eq_of_pairwise' (List.pairwise_insertionSort (· ≤ ·) l)
    (List.pairwise_insertionSort (· ≤ ·) l') hperm
  exact congrArg (List.take n) hsame

/-- Sorted both ways, a list has one key only. -/
theorem all_eq_of_sorted (hup : l.Pairwise fun x y => key x ≤ key y)
    (hdown : l.Pairwise fun x y => key y ≤ key x) : ∀ x ∈ l, ∀ y ∈ l, key x = key y := by
  have heq : l.Pairwise fun x y => key x = key y :=
    (hup.and hdown).imp fun h => le_antisymm h.1 h.2
  have hsymm : Std.Symm fun x y => key x = key y := ⟨fun _ _ h => h.symm⟩
  exact List.Pairwise.forall_of_forall (fun _ _ => rfl) heq

end least

end Rank
