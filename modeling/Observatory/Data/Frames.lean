import Mathlib.Data.List.Infix
import Mathlib.Tactic.Common

/-!
# A stream of frames and its reader

A stream is a sequence of frames, each followed by a separator.  Its reader receives the stream in
pieces that may end anywhere: it keeps what it has received in a buffer, and takes a frame off the
front as long as the separator occurs.

What has been received and what is still to come are together the frames not taken yet.  As long
as no separator begins inside a frame, the reader takes the next of these frames and leaves the
rest (`take_frame`), whatever the pieces were, and it stops only within the frame that is next
(`stream_of_indexOf_none`).  A text of lines is such a frame when two line ends separate the
frames (`framed_lines`).
-/

namespace Frames

variable {α : Type*} {sep f : List α}

/-- No separator begins inside `f`, not even one that the separator after `f` completes. -/
def Framed (sep f : List α) : Prop := ∀ i < f.length, ¬sep <+: (f ++ sep).drop i

/-- The text of a sequence of frames. -/
def stream (sep : List α) (fs : List (List α)) : List α := fs.flatMap (· ++ sep)

@[simp] theorem stream_nil : stream sep [] = [] := rfl

@[simp] theorem stream_cons (f : List α) (fs : List (List α)) :
    stream sep (f :: fs) = f ++ sep ++ stream sep fs := rfl

@[simp] theorem stream_append (fs gs : List (List α)) :
    stream sep (fs ++ gs) = stream sep fs ++ stream sep gs := List.flatMap_append

/-- In a text that begins with a frame and its separator, no separator begins before the end of
the frame. -/
theorem Framed.not_prefix {rest : List α} (hf : Framed sep f) {i : Nat} (hi : i < f.length) :
    ¬sep <+: (f ++ sep ++ rest).drop i := by
  intro hpre
  apply hf i hi
  rw [List.drop_append_of_le_length (by rw [List.length_append]; omega)] at hpre
  apply List.prefix_of_prefix_length_le hpre (List.prefix_append _ _)
  rw [List.length_drop, List.length_append]
  omega

/-! ## Frames of lines -/

variable {c : α}

/-- **Lines make a frame** when two line ends separate the frames: no line is empty, so the second
of two line ends cannot stand inside the text. -/
theorem framed_lines {lines : List (List α)} (hlines : ∀ l ∈ lines, l ≠ [] ∧ c ∉ l) :
    Framed [c, c] ([c].intercalate lines) := by
  induction lines with
  | nil =>
    intro i hi
    exact absurd hi (Nat.not_lt_zero i)
  | cons l lines ih =>
    obtain ⟨⟨hne, hc⟩, hmore⟩ := List.forall_mem_cons.1 hlines
    intro i hi hpre
    -- inside the first line the letter at `i` is not a line end
    have hinside : l.length ≤ i := by
      by_contra hlt
      rw [not_le] at hlt
      obtain ⟨s, hs⟩ : ∃ s, [c].intercalate (l :: lines) ++ [c, c] = l ++ s := by
        cases lines with
        | nil => exact ⟨[c, c], by rw [List.intercalate_singleton]⟩
        | cons l' lines =>
          exact ⟨_, by rw [List.intercalate_cons_cons, List.append_assoc, List.append_assoc]⟩
      rw [hs, List.drop_append_of_le_length hlt.le, List.drop_eq_getElem_cons hlt,
        List.cons_append, List.cons_prefix_cons] at hpre
      exact hc (hpre.1 ▸ List.getElem_mem hlt)
    cases lines with
    | nil =>
      rw [List.intercalate_singleton] at hi
      omega
    | cons l' lines =>
      rw [List.intercalate_cons_cons] at hi hpre
      obtain ⟨j, rfl⟩ := Nat.exists_eq_add_of_le hinside
      rw [List.append_assoc, List.append_assoc, ← List.drop_drop, List.drop_left] at hpre
      simp only [List.length_append, List.length_singleton] at hi
      cases j with
      | zero =>
        -- the line end after the first line is followed by a letter of the next one
        obtain ⟨⟨hne', hc'⟩, -⟩ := List.forall_mem_cons.1 hmore
        obtain ⟨b, l'', rfl⟩ := List.exists_cons_of_ne_nil hne'
        have hb : b ≠ c := by
          intro heq
          exact hc' (heq ▸ List.mem_cons_self)
        cases lines with
        | nil => simp [List.intercalate_singleton, List.cons_prefix_cons, hb.symm] at hpre
        | cons l₂ lines => simp [List.intercalate_cons_cons, List.cons_prefix_cons, hb.symm] at hpre
      | succ j =>
        rw [List.singleton_append, List.drop_succ_cons] at hpre
        exact ih hmore j (by omega) hpre

/-! ## The reader -/

variable [DecidableEq α] {t : List α}

/-- Where `sep` occurs first in a text. -/
def indexOf (sep t : List α) : Option Nat := t.tails.findIdx? sep.isPrefixOf

theorem indexOf_eq_some_iff {i : Nat} : indexOf sep t = some i ↔
    i ≤ t.length ∧ sep <+: t.drop i ∧ ∀ j < i, ¬sep <+: t.drop j := by
  unfold indexOf
  rw [List.findIdx?_eq_some_iff_getElem]
  simp only [List.length_tails, List.getElem_tails, List.isPrefixOf_iff_prefix]
  constructor
  · intro ⟨hi, hpre, hfirst⟩
    exact ⟨Nat.le_of_lt_succ hi, hpre, hfirst⟩
  · intro ⟨hi, hpre, hfirst⟩
    exact ⟨Nat.lt_succ_of_le hi, hpre, hfirst⟩

theorem indexOf_eq_none_iff : indexOf sep t = none ↔ ∀ i ≤ t.length, ¬sep <+: t.drop i := by
  unfold indexOf
  rw [List.findIdx?_eq_none_iff]
  constructor
  · intro h i _ hpre
    have hno := h (t.drop i) ((List.mem_tails _ _).2 (List.drop_suffix i t))
    rw [List.isPrefixOf_iff_prefix.2 hpre] at hno
    cases hno
  · intro h s hs
    rw [List.mem_tails] at hs
    obtain ⟨i, hi, rfl⟩ : ∃ i ≤ t.length, s = t.drop i :=
      ⟨t.length - s.length, Nat.sub_le _ _, List.suffix_iff_eq_drop.1 hs⟩
    apply Bool.eq_false_iff.2
    intro hpre
    exact h i hi (List.isPrefixOf_iff_prefix.1 hpre)

/-- **The reader takes the next frame.**  If what is in the buffer and what is to come are the
frames not taken yet, the text before the first separator in the buffer is the first of them, and
the others are what is left. -/
theorem take_frame {buf later : List α} {fs : List (List α)} {i : Nat} (hsep : sep ≠ [])
    (hfs : ∀ f ∈ fs, Framed sep f) (hbuf : buf ++ later = stream sep fs)
    (hi : indexOf sep buf = some i) :
    ∃ gs, fs = buf.take i :: gs ∧ buf.drop (i + sep.length) ++ later = stream sep gs := by
  obtain ⟨hle, hpre, hfirst⟩ := indexOf_eq_some_iff.1 hi
  have hroom : i + sep.length ≤ buf.length := by
    have hlen := hpre.length_le
    rw [List.length_drop] at hlen
    omega
  cases fs with
  | nil =>
    obtain ⟨hnil, -⟩ := List.append_eq_nil_iff.1 hbuf
    rw [hnil, List.drop_nil] at hpre
    exact absurd (List.prefix_nil.1 hpre) hsep
  | cons f gs =>
    have hf := hfs f List.mem_cons_self
    rw [stream_cons] at hbuf
    -- the separator cannot begin inside the frame, and it stands right after it
    have hge : f.length ≤ i := by
      by_contra hlt
      have hno : ¬sep <+: (f ++ sep ++ stream sep gs).drop i := hf.not_prefix (Nat.lt_of_not_le hlt)
      apply hno
      rw [← hbuf, List.drop_append_of_le_length hle]
      exact hpre.trans (List.prefix_append _ _)
    have hi : i = f.length := by
      by_contra hne
      apply hfirst f.length (by omega)
      have hafter : buf.drop f.length ++ later = sep ++ stream sep gs := by
        rw [← List.drop_append_of_le_length (by omega), hbuf, List.append_assoc, List.drop_left]
      apply List.prefix_of_prefix_length_le (hafter ▸ List.prefix_append _ _)
        (List.prefix_append _ later)
      rw [List.length_drop]
      omega
    subst hi
    refine ⟨gs, ?_, ?_⟩
    · have htake := congrArg (List.take f.length) hbuf
      rw [List.take_append_of_le_length hle, List.append_assoc, List.take_left] at htake
      rw [htake]
    · have hdrop := congrArg (List.drop (f.length + sep.length)) hbuf
      rw [List.drop_append_of_le_length hroom, ← List.length_append, List.drop_left] at hdrop
      rw [← List.length_append]
      exact hdrop

/-- **The reader waits only for what is still to come.**  With no separator in a buffer that holds
all the text there is, no frame is left to take. -/
theorem stream_of_indexOf_none {fs : List (List α)} (h : indexOf sep (stream sep fs) = none) :
    fs = [] := by
  cases fs with
  | nil => rfl
  | cons f fs =>
    exfalso
    apply indexOf_eq_none_iff.1 h f.length
    · rw [stream_cons, List.length_append, List.length_append]
      omega
    · rw [stream_cons, List.append_assoc, List.drop_left]
      exact List.prefix_append _ _

end Frames
