import Mathlib.Order.Lattice
import Mathlib.Data.List.Infix
import Mathlib.Tactic.Common

/-!
# Reading a log from a cursor

A log is a list in increasing order of a key.  Who reads it keeps as a cursor the key of the last
entry it has read, and asks for the entries after that.

The entries after the cursor of a reader are the entries it has not read (`after_cursor`), so
whatever it reads in one go, and however the log grows in between, all it has read is at every
moment a beginning of the entries that come after its first cursor (`read_more`, `read_grown`).
-/

namespace Paging

variable {α κ : Type*} {key : α → κ} {c : κ} {log read more : List α}

/-- The cursor after reading `read` from `c` on. -/
def cursor (key : α → κ) (c : κ) (read : List α) : κ := read.getLast?.elim c key

@[simp] theorem cursor_nil : cursor key c [] = c := rfl

@[simp] theorem cursor_concat (x : α) : cursor key c (read ++ [x]) = key x := by
  unfold cursor
  rw [List.getLast?_concat, Option.elim_some]

variable [LinearOrder κ]

/-- The entries of the log after `c`. -/
def after (key : α → κ) (c : κ) (log : List α) : List α := log.filter fun x => c < key x

theorem mem_after {x : α} : x ∈ after key c log ↔ x ∈ log ∧ c < key x := by
  unfold after
  rw [List.mem_filter, decide_eq_true_iff]

@[simp] theorem after_append : after key c (log ++ more) = after key c log ++ after key c more :=
  List.filter_append _ _

theorem pairwise_after (h : log.Pairwise (key · < key ·)) :
    (after key c log).Pairwise (key · < key ·) := h.filter _

/-- Every entry read has a key up to the cursor. -/
theorem le_cursor (h : read.Pairwise (key · < key ·)) : ∀ x ∈ read, key x ≤ cursor key c read := by
  intro x hx
  rcases List.eq_nil_or_concat read with rfl | ⟨init, y, rfl⟩
  · cases hx
  · rw [List.concat_eq_append] at h hx ⊢
    rw [cursor_concat]
    rcases List.mem_append.1 hx with hx | hx
    · exact ((List.pairwise_append.1 h).2.2 x hx y List.mem_cons_self).le
    · rw [List.mem_singleton.1 hx]

/-- What is read next lies after the cursor. -/
theorem cursor_lt {x : α} (hsorted : log.Pairwise (key · < key ·))
    (hread : read ++ x :: more <+: after key c log) : cursor key c read < key x := by
  have hx : c < key x := (mem_after.1 (hread.subset (by simp))).2
  rcases List.eq_nil_or_concat read with rfl | ⟨init, y, rfl⟩
  · exact hx
  · rw [List.concat_eq_append] at hread ⊢
    rw [cursor_concat]
    have hinc := (pairwise_after hsorted).sublist hread.sublist
    exact (List.pairwise_append.1 hinc).2.2 y (by simp) x List.mem_cons_self

/-- **The cursor points at what has not been read.** -/
theorem after_cursor (hsorted : log.Pairwise (key · < key ·))
    (hread : read ++ more = after key c log) : after key (cursor key c read) log = more := by
  have hinc : (read ++ more).Pairwise (key · < key ·) := hread ▸ pairwise_after hsorted
  obtain ⟨hr, -, hapart⟩ := List.pairwise_append.1 hinc
  rcases List.eq_nil_or_concat read with rfl | ⟨init, y, rfl⟩
  · exact hread.symm
  rw [List.concat_eq_append] at hread hapart hr ⊢
  have hy : y ∈ init ++ [y] := List.mem_append_right _ List.mem_cons_self
  have hlt : c < key y := (mem_after.1 (hread ▸ List.mem_append_left _ hy)).2
  -- the entries after `y` are the entries after `c` that come after `y`
  have hsplit : after key (key y) log = after key (key y) (after key c log) := by
    unfold after
    rw [List.filter_filter]
    apply List.filter_congr
    intro x _
    by_cases hx : key y < key x
    · simp [hx, hlt.trans hx]
    · simp [hx]
  rw [cursor_concat, hsplit, ← hread, after_append]
  have hnone : after key (key y) (init ++ [y]) = [] := by
    apply List.filter_eq_nil_iff.2
    intro x hx
    have hle := le_cursor (c := c) hr x hx
    rw [cursor_concat] at hle
    simp [hle]
  have hall : after key (key y) more = more := by
    apply List.filter_eq_self.2
    intro x hx
    exact decide_eq_true (hapart y hy x hx)
  rw [hnone, hall, List.nil_append]

/-- **A page continues what has been read.** -/
theorem read_more (hsorted : log.Pairwise (key · < key ·)) (hread : read <+: after key c log)
    (n : Nat) : read ++ (after key (cursor key c read) log).take n <+: after key c log := by
  obtain ⟨more, hmore⟩ := hread
  rw [after_cursor hsorted hmore, ← hmore, List.prefix_append_right_inj]
  exact List.take_prefix n more

/-- What has been read stays a beginning of the log as the log grows. -/
theorem read_grown (hread : read <+: after key c log) (more : List α) :
    read <+: after key c (log ++ more) := by
  rw [after_append]
  exact hread.trans (List.prefix_append _ _)

end Paging
