import Mathlib.Data.List.Dedup
import Mathlib.Data.List.Perm.Subperm
import Mathlib.Order.Lattice
import Mathlib.Tactic.Common

/-!
# Reading a list by offsets

A list, newest first, is read in pages that are named by their offset, while new entries are put in
front of it.  A page can then show an entry for the second time, but a reader who goes on at the end
of the page that was shown never passes one over: what has not been seen of the entries there were
at the start is still ahead (`Ahead.turn`, `Ahead.grow`).

A query that sorts its rows newest first does put the new ones in front, if they are newer than all
the others (`NewestFirst.append`).
-/

namespace Offsets

variable {α κ : Type*} {old l more : List α} {seen seen' : α → Prop} {o o' n : Nat} {x : α}

/-- The entries from `o` on, at most `n` of them. -/
def page (o n : Nat) (l : List α) : List α := (l.drop o).take n

theorem page_sublist : (page o n l).Sublist l := (List.take_sublist ..).trans (List.drop_sublist ..)

theorem mem_page_or_drop (h : x ∈ l.drop o) : x ∈ page o n l ∨ x ∈ l.drop (o + n) := by
  rw [← List.take_append_drop n (l.drop o), List.mem_append, List.drop_drop] at h
  exact h

/-- The old entries have been seen, or stand in `l` from `o` on. -/
def Ahead (old : List α) (seen : α → Prop) (l : List α) (o : Nat) : Prop :=
  ∀ x ∈ old, seen x ∨ x ∈ l.drop o

namespace Ahead

theorem refl : Ahead l seen l 0 := fun _ h => .inr h

/-- New entries come in front. -/
theorem grow (h : Ahead old seen l o) : Ahead old seen (more ++ l) o := by
  intro x hx
  refine (h x hx).imp_right fun hd => ?_
  rw [List.drop_append]
  exact List.mem_append_right _ ((List.drop_sublist_drop_left l (Nat.sub_le ..)).subset hd)

theorem back (h : Ahead old seen l o) (hle : o' ≤ o) : Ahead old seen l o' :=
  fun x hx => (h x hx).imp_right fun hd => (List.drop_sublist_drop_left l hle).subset hd

theorem mono (h : Ahead old seen l o) (hseen : ∀ x, seen x → seen' x) : Ahead old seen' l o :=
  fun x hx => (h x hx).imp_left (hseen x)

/-- A page is shown. -/
theorem turn (h : Ahead old seen l o) (hseen : ∀ x, seen x → seen' x)
    (hpage : ∀ x ∈ page o n l, seen' x) : Ahead old seen' l (o + n) := by
  intro x hx
  rcases h x hx with hs | hd
  · exact .inl (hseen x hs)
  · exact (mem_page_or_drop hd).imp_left (hpage x)

/-- What has not been seen fits behind the offset. -/
theorem missed_le (h : Ahead old seen l o) {missed : List α} (hnodup : missed.Nodup)
    (hold : missed ⊆ old) (hmissed : ∀ x ∈ missed, ¬ seen x) : missed.length ≤ l.length - o := by
  have hsub : missed ⊆ l.drop o := fun x hx => (h x (hold hx)).resolve_left (hmissed x hx)
  calc missed.length ≤ (l.drop o).length := (hnodup.subperm hsub).length_le
    _ = l.length - o := List.length_drop

end Ahead

/-! ## Newest first -/

variable [LinearOrder κ] {key : α → κ} {order : List α → List α}

/-- `ORDER BY key DESC`; entries of one key come in any order. -/
structure NewestFirst (key : α → κ) (order : List α → List α) : Prop where
  perm : ∀ l, (order l).Perm l
  sorted : ∀ l, (order l).Pairwise fun x y => key y ≤ key x

namespace NewestFirst

theorem strict (h : NewestFirst key order) (hkeys : l.Pairwise (key · ≠ key ·)) :
    (order l).Pairwise fun x y => key y < key x := by
  have hne : (order l).Pairwise (key · ≠ key ·) :=
    (h.perm l).symm.pairwise hkeys (fun hxy => hxy.symm)
  exact hne.imp₂ (fun _ _ hne hle => lt_of_le_of_ne hle hne.symm) (h.sorted l)

/-- **What is newer comes in front.** -/
theorem append (h : NewestFirst key order) (hl : l.Pairwise (key · ≠ key ·))
    (hmore : more.Pairwise (key · ≠ key ·)) (hnewer : ∀ x ∈ l, ∀ y ∈ more, key x < key y) :
    order (l ++ more) = order more ++ order l := by
  have hkeys : (l ++ more).Pairwise (key · ≠ key ·) :=
    List.pairwise_append.2 ⟨hl, hmore, fun x hx y hy => ne_of_lt (hnewer x hx y hy)⟩
  have hparts : (order more ++ order l).Pairwise fun x y => key y < key x := by
    refine List.pairwise_append.2 ⟨h.strict hmore, h.strict hl, fun y hy x hx => ?_⟩
    exact hnewer x ((h.perm l).mem_iff.1 hx) y ((h.perm more).mem_iff.1 hy)
  have hperm : (order (l ++ more)).Perm (order more ++ order l) :=
    calc (order (l ++ more)).Perm (l ++ more) := h.perm _
      List.Perm _ (more ++ l) := List.perm_append_comm
      List.Perm _ (order more ++ order l) := ((h.perm more).append (h.perm l)).symm
  exact hperm.eq_of_pairwise (fun _ _ _ _ hxy hyx => absurd hxy (lt_asymm hyx))
    (h.strict hkeys) hparts

end NewestFirst

end Offsets
