import Mathlib.Algebra.Order.Group.Basic
import Mathlib.Data.List.Infix
import Mathlib.Tactic.Abel

/-!
# Windows of time

A log of times can be limited in two ways.  `recent` keeps the entries of the last `W` units of
time, so its length is how often something happened within a sliding window; a log that loses old
entries on the way stands for the whole one (`StandsFor`).  `streak` counts, from the newest entry
backwards, as long as every entry comes less than `W` after the one before it: this is what a
counter shows that is forgotten once nothing has happened for `W`.  Entries can be sparse enough
for every window (`Sparse`) and yet follow each other in one long streak.
-/

namespace Window

variable {T : Type*} [AddCommGroup T] [LinearOrder T] {W now now' t : T} {log log' : List T} {n : Nat}

/-- The entries younger than `W`. -/
def recent (W now : T) (log : List T) : List T := log.filter fun t => now - t < W

@[simp] theorem recent_nil : recent W now [] = [] := rfl

@[simp] theorem recent_append : recent W now (log ++ log') = recent W now log ++ recent W now log' :=
  List.filter_append ..

theorem recent_sublist : (recent W now log).Sublist log := List.filter_sublist

@[simp] theorem mem_recent : t ∈ recent W now log ↔ t ∈ log ∧ now - t < W := by
  simp [recent]

/-- What is old stays old. -/
theorem recent_recent [IsOrderedAddMonoid T] (h : now ≤ now') : recent W now' (recent W now log) = recent W now' log := by
  unfold recent
  rw [List.filter_filter]
  refine List.filter_congr fun t _ => ?_
  by_cases hlt : now' - t < W
  · have hlt' : now - t < W := (sub_le_sub_right h t).trans_lt hlt
    simp [hlt, hlt']
  · simp [hlt]

/-- From `now` on, what `kept` has lost of `log` is old. -/
def StandsFor (W now : T) (kept log : List T) : Prop :=
  ∀ ⦃now' : T⦄, now ≤ now' → recent W now' kept = recent W now' log

namespace StandsFor

variable {kept : List T}

theorem refl : StandsFor W now log log := fun _ _ => rfl

theorem mono (h : StandsFor W now kept log) (hle : now ≤ now') : StandsFor W now' kept log :=
  fun _ hlater => h (hle.trans hlater)

theorem recent_eq (h : StandsFor W now kept log) : recent W now kept = recent W now log := h le_rfl

/-- The old entries are not missed, -/
theorem prune [IsOrderedAddMonoid T] (h : StandsFor W now kept log) :
    StandsFor W now (recent W now kept) log := by
  intro now' hlater
  rw [recent_recent hlater]
  exact h hlater

/-- and whatever is added is added to both. -/
theorem append (h : StandsFor W now kept log) : StandsFor W now (kept ++ log') (log ++ log') := by
  intro now' hlater
  rw [recent_append, h hlater, recent_append]

end StandsFor

/-- No half-open interval of length `W` contains more than `n` entries. -/
def Sparse (W : T) (n : Nat) (log : List T) : Prop :=
  ∀ a, (log.countP fun t => a ≤ t ∧ t < a + W) ≤ n

theorem Sparse.sublist (h : Sparse W n log) (hsub : log'.Sublist log) : Sparse W n log' :=
  fun a => (hsub.countP_le).trans (h a)

/-- A sparse log has few recent entries. -/
theorem Sparse.length_recent [IsOrderedAddMonoid T] (h : Sparse W n log)
    (hsorted : log.Pairwise (· ≤ ·)) (hnow : ∀ t ∈ log, t ≤ now) : (recent W now log).length ≤ n := by
  cases hrecent : recent W now log with
  | nil => exact Nat.zero_le n
  | cons a rest =>
    -- the oldest recent entry opens an interval with all of them
    have hsub : (a :: rest).Sublist log := hrecent ▸ recent_sublist
    have hmem : ∀ t ∈ a :: rest, t ∈ log ∧ now - t < W := by
      intro t ht
      exact mem_recent.1 (hrecent ▸ ht)
    have hle : ∀ t ∈ a :: rest, a ≤ t := by
      intro t ht
      rcases List.mem_cons.1 ht with rfl | ht
      · exact le_rfl
      · exact (List.pairwise_cons.1 (hsorted.sublist hsub)).1 t ht
    have hlt : ∀ t ∈ a :: rest, t < a + W := by
      intro t ht
      have hyoung : now < W + a := sub_lt_iff_lt_add.1 (hmem a List.mem_cons_self).2
      rw [add_comm] at hyoung
      exact (hnow t (hmem t ht).1).trans_lt hyoung
    have hall : (a :: rest).countP (fun t => a ≤ t ∧ t < a + W) = (a :: rest).length :=
      List.countP_eq_length.2 fun t ht => decide_eq_true ⟨hle t ht, hlt t ht⟩
    rw [← hall]
    exact hsub.countP_le.trans (h a)

/-- A log stays sparse if the next entry finds room among the recent ones. -/
theorem Sparse.concat [IsOrderedAddMonoid T] (h : Sparse W n log) (hfew : (recent W now log).length < n) :
    Sparse W n (log ++ [now]) := by
  intro a
  rw [List.countP_append, List.countP_singleton]
  by_cases hin : a ≤ now ∧ now < a + W
  · -- what else is in the interval is recent
    have hle : (log.countP fun t => a ≤ t ∧ t < a + W) ≤ log.countP fun t => now - t < W := by
      refine List.countP_mono_left fun t _ ht => ?_
      obtain ⟨hat, -⟩ := of_decide_eq_true ht
      refine decide_eq_true ?_
      exact (sub_le_sub_left hat now).trans_lt (sub_lt_iff_lt_add'.2 hin.2)
    rw [if_pos (decide_eq_true hin)]
    rw [recent, ← List.countP_eq_length_filter] at hfew
    omega
  · rw [if_neg (by simpa using hin), Nat.add_zero]
    exact h a

/-! ## Streaks -/

/-- How many entries, newest first, each come less than `W` after the next. -/
def streak (W : T) : List T → Nat
  | [] => 0
  | [_] => 1
  | t :: t' :: log => if t - t' < W then streak W (t' :: log) + 1 else 1

/-- The recent entries are part of the streak. -/
theorem length_recent_le_streak [IsOrderedAddMonoid T] (hsorted : log.Pairwise (· ≥ ·))
    (hnow : ∀ t ∈ log, t ≤ now) : (recent W now log).length ≤ streak W log := by
  induction log with
  | nil => exact le_rfl
  | cons t log ih =>
    obtain ⟨hle, hsorted'⟩ := List.pairwise_cons.1 hsorted
    have hrest := ih hsorted' fun t' ht' => hnow t' (List.mem_cons_of_mem _ ht')
    have hone : (recent W now (t :: log)).length ≤ (recent W now log).length + 1 := by
      rw [← List.singleton_append, recent_append, List.length_append, Nat.add_comm]
      exact Nat.add_le_add_left recent_sublist.length_le _
    cases log with
    | nil => exact hone
    | cons t' log =>
      rw [streak]
      split
      · exact hone.trans (Nat.succ_le_succ hrest)
      · next hgap =>
        -- after a gap nothing is recent any more
        have hnone : recent W now (t' :: log) = [] := by
          refine List.filter_eq_nil_iff.2 fun u hu => ?_
          have hut : u ≤ t' := by
            rcases List.mem_cons.1 hu with rfl | hu
            · exact le_rfl
            · exact (List.pairwise_cons.1 hsorted').1 u hu
          have hold : W ≤ now - u :=
            (not_lt.1 hgap).trans (sub_le_sub (hnow t List.mem_cons_self) hut)
          simpa using hold
        rwa [hnone] at hone

/-- Every entry comes less than `W` after the next. -/
abbrev Tight (W : T) (log : List T) : Prop := log.IsChain fun t t' => t - t' < W

/-- A streak is a tight part of the log, -/
theorem exists_tight (W : T) (log : List T) :
    ∃ block, block <+: log ∧ Tight W block ∧ block.length = streak W log := by
  induction log with
  | nil => exact ⟨[], List.prefix_rfl, .nil, rfl⟩
  | cons t log ih =>
    cases log with
    | nil => exact ⟨[t], List.prefix_rfl, .singleton t, rfl⟩
    | cons t' log =>
      rw [streak]
      split
      · next hlt =>
        obtain ⟨block, hpre, htight, hlen⟩ := ih
        have hne : block ≠ [] := by
          rintro rfl
          rw [List.length_nil] at hlen
          cases log with
          | nil => cases hlen
          | cons t'' log =>
            rw [streak] at hlen
            split at hlen <;> cases hlen
        obtain ⟨b, block, rfl⟩ := List.exists_cons_of_ne_nil hne
        obtain ⟨rfl, -⟩ := List.cons_prefix_cons.1 hpre
        refine ⟨t :: b :: block, List.cons_prefix_cons.2 ⟨rfl, hpre⟩, ?_, ?_⟩
        · exact List.isChain_cons_cons.2 ⟨hlt, htight⟩
        · rw [List.length_cons, hlen]
      · exact ⟨[t], List.cons_prefix_cons.2 ⟨rfl, List.nil_prefix⟩, .singleton t, rfl⟩

/-- and no tight part that starts with the newest entry is longer. -/
theorem length_le_streak {block : List T} (hpre : block <+: log) (htight : Tight W block) :
    block.length ≤ streak W log := by
  induction log generalizing block with
  | nil => rw [List.prefix_nil.1 hpre]; exact le_rfl
  | cons t log ih =>
    cases block with
    | nil => exact Nat.zero_le _
    | cons b block =>
      obtain ⟨rfl, hrest⟩ := List.cons_prefix_cons.1 hpre
      cases block with
      | nil =>
        cases log with
        | nil => exact le_rfl
        | cons t' log =>
          rw [streak]
          split
          · exact Nat.succ_le_succ (Nat.zero_le _)
          · exact le_rfl
      | cons b' block =>
        cases log with
        | nil => cases List.prefix_nil.1 hrest
        | cons t' log =>
          obtain ⟨hlt, htight⟩ := List.isChain_cons_cons.1 htight
          have hlen := ih hrest htight
          obtain ⟨rfl, -⟩ := List.cons_prefix_cons.1 hrest
          rw [streak, if_pos hlt]
          exact Nat.succ_le_succ hlen

/-- **Streaks and tight blocks.**  No streak was ever longer than `n` just if no tight block of the
log is. -/
theorem streak_le_iff :
    (∀ past, past <:+ log → streak W past ≤ n) ↔
      ∀ block, block <:+: log → Tight W block → block.length ≤ n := by
  constructor
  · rintro h block ⟨newer, older, rfl⟩ htight
    have hsuf : block ++ older <:+ newer ++ block ++ older := by
      rw [List.append_assoc]
      exact List.suffix_append newer _
    exact (length_le_streak (List.prefix_append block older) htight).trans (h _ hsuf)
  · intro h past hsuf
    obtain ⟨block, hpre, htight, hlen⟩ := exists_tight W past
    rw [← hlen]
    exact h block (hpre.isInfix.trans hsuf.isInfix) htight

/-! ## Entries with a distance -/

/-- Every entry, the newest first, comes more than `W` after those behind it. -/
def Spaced (W : T) (log : List T) : Prop := log.Pairwise fun t t' => t' + W < t

/-- **A log with a distance** takes its time. -/
theorem Spaced.length_nsmul [IsOrderedAddMonoid T] {a : T} (h : Spaced W (t :: log))
    (hlow : ∀ t' ∈ t :: log, a ≤ t') : log.length • W ≤ t - a := by
  induction log generalizing t with
  | nil =>
    rw [List.length_nil, zero_nsmul]
    exact sub_nonneg.2 (hlow t List.mem_cons_self)
  | cons t' log ih =>
    obtain ⟨hfirst, hrest⟩ := List.pairwise_cons.1 h
    have hnext := ih hrest fun x hx => hlow x (List.mem_cons_of_mem t hx)
    have hgap : W ≤ t - t' := le_sub_iff_add_le'.2 (hfirst t' List.mem_cons_self).le
    calc (t' :: log).length • W = log.length • W + W := by rw [List.length_cons, succ_nsmul]
      _ ≤ (t' - a) + (t - t') := add_le_add hnext hgap
      _ = t - a := by abel

end Window
