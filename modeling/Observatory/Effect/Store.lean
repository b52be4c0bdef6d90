import Mathlib.Data.List.Pairwise
import Mathlib.Logic.Function.Basic

/-!
# A table under read committed

`Store ι R` is a table with rows of type `R`: the committed rows in the order of their commits, and
the rows that open transactions have written, each with its owner in `ι`.  A transaction sees the
committed rows and its own (`visible`); a commit makes its rows the newest committed ones, a
rollback forgets them.  `blocked` is a unique constraint: a row cannot be written while another one
that clashes with it is committed or might still be.

`Locks κ ι` are exclusive locks on keys in `κ` that last to the end of the transaction.
-/

namespace Effect

variable {ι κ R : Type*} [DecidableEq ι]

structure Store (ι R : Type*) where
  committed : List R := []
  pending : List (ι × R) := []

namespace Store

/-- The rows `p` has written and not committed. -/
def own (s : Store ι R) (p : ι) : List R := (s.pending.filter (·.1 = p)).map (·.2)

/-- What a statement of `p` sees. -/
def visible (s : Store ι R) (p : ι) : List R := s.committed ++ s.own p

def insert (s : Store ι R) (p : ι) (x : R) : Store ι R :=
  { s with pending := s.pending ++ [(p, x)] }

def rollback (s : Store ι R) (p : ι) : Store ι R :=
  { s with pending := s.pending.filter (·.1 ≠ p) }

def commit (s : Store ι R) (p : ι) : Store ι R :=
  { s.rollback p with committed := s.visible p }

/-- A row that clashes with `x` is committed, or written by a transaction that may commit it. -/
def blocked (clash : R → R → Bool) (s : Store ι R) (x : R) : Bool :=
  s.committed.any (clash x) || s.pending.any fun y => clash x y.2

variable {s : Store ι R} {p q : ι} {x : R}

omit [DecidableEq ι] in
@[simp] theorem committed_insert : (s.insert p x).committed = s.committed := rfl

@[simp] theorem committed_rollback : (s.rollback p).committed = s.committed := rfl

@[simp] theorem committed_commit : (s.commit p).committed = s.visible p := rfl

@[simp] theorem own_insert_self : (s.insert p x).own p = s.own p ++ [x] := by
  unfold own insert
  rw [List.filter_append, List.map_append]
  simp

theorem own_insert_of_ne (h : q ≠ p) : (s.insert p x).own q = s.own q := by
  unfold own insert
  rw [List.filter_append, List.map_append]
  simp [Ne.symm h]

@[simp] theorem own_rollback_self : (s.rollback p).own p = [] := by
  unfold own rollback
  rw [List.filter_filter, List.map_eq_nil_iff, List.filter_eq_nil_iff]
  rintro ⟨q, y⟩ -
  simp

theorem own_rollback_of_ne (h : q ≠ p) : (s.rollback p).own q = s.own q := by
  unfold own rollback
  rw [List.filter_filter]
  refine congrArg _ (List.filter_congr ?_)
  rintro ⟨q', y⟩ -
  by_cases hq : q' = q
  · simp [hq, h]
  · simp [hq]

@[simp] theorem own_commit_self : (s.commit p).own p = [] := own_rollback_self

theorem own_commit_of_ne (h : q ≠ p) : (s.commit p).own q = s.own q := own_rollback_of_ne h

/-- A row is in the table for `p` alone until it is committed. -/
theorem visible_insert_self : (s.insert p x).visible p = s.visible p ++ [x] := by
  unfold visible
  rw [own_insert_self, committed_insert, List.append_assoc]

/-- The only open transaction commits the only row it has written. -/
theorem commit_insert (h : s.pending = []) :
    (s.insert p x).commit p = ⟨s.committed ++ [x], []⟩ := by
  simp [commit, visible, rollback, own, insert, h]

theorem visible_of_own_nil (h : s.own p = []) : s.visible p = s.committed := by
  unfold visible
  rw [h, List.append_nil]

/-! ### Unique constraints -/

section unique

variable {clash : R → R → Bool}

/-- The rows of the table, committed or not. -/
def all (s : Store ι R) : List R := s.committed ++ s.pending.map (·.2)

/-- No two rows of the table clash. -/
def Unique (clash : R → R → Bool) (s : Store ι R) : Prop :=
  s.all.Pairwise fun x y => clash x y = false

theorem own_sublist : (s.own p).Sublist (s.pending.map (·.2)) := List.filter_sublist.map _

theorem mem_all_of_own (h : x ∈ s.own p) : x ∈ s.all :=
  List.mem_append_right _ (own_sublist.subset h)

omit [DecidableEq ι] in
theorem blocked_eq_false : blocked clash s x = false ↔ ∀ y ∈ s.all, clash x y = false := by
  unfold blocked all
  simp only [Bool.or_eq_false_iff, List.any_eq_false, List.mem_append, List.mem_map, Bool.not_eq_true]
  constructor
  · rintro ⟨hcommitted, hpending⟩ y (hy | ⟨z, hz, rfl⟩)
    · exact hcommitted y hy
    · exact hpending z hz
  · intro h
    exact ⟨fun y hy => h y (.inl hy), fun z hz => h z.2 (.inr ⟨z, hz, rfl⟩)⟩

/-- A row that is not blocked clashes with none that its transaction sees. -/
theorem any_visible_eq_false (hfree : blocked clash s x = false) :
    (s.visible p).any (clash x) = false := by
  have hall := blocked_eq_false.1 hfree
  rw [List.any_eq_false]
  intro y hy
  rw [Bool.not_eq_true]
  rcases List.mem_append.1 hy with hy | hy
  · exact hall y (List.mem_append_left _ hy)
  · exact hall y (mem_all_of_own hy)

omit [DecidableEq ι] in
/-- **A row that is not blocked keeps the constraint.** -/
theorem Unique.insert (h : s.Unique clash) (hsymm : ∀ x y, clash x y = clash y x)
    (hfree : blocked clash s x = false) (p : ι) : (s.insert p x).Unique clash := by
  have hall : (s.insert p x).all = s.all ++ [x] := by
    unfold all Store.insert
    rw [List.map_append, List.append_assoc]
    rfl
  unfold Unique
  rw [hall, List.pairwise_append]
  refine ⟨h, List.pairwise_singleton _ _, fun y hy z hz => ?_⟩
  rw [List.mem_singleton.1 hz, hsymm]
  exact blocked_eq_false.1 hfree y hy

theorem mem_own : x ∈ s.own p ↔ (p, x) ∈ s.pending := by
  unfold own
  rw [List.mem_map]
  constructor
  · rintro ⟨⟨q, y⟩, hmem, rfl⟩
    obtain ⟨hmem, hq⟩ := List.mem_filter.1 hmem
    rw [← of_decide_eq_true hq]
    exact hmem
  · intro hmem
    exact ⟨(p, x), List.mem_filter.2 ⟨hmem, decide_eq_true rfl⟩, rfl⟩

/-- **Rows of different transactions do not clash.** -/
theorem Unique.own {y : R} (h : s.Unique clash) (hsymm : ∀ x y, clash x y = clash y x)
    (hx : x ∈ s.own p) (hy : y ∈ s.own q) (hne : p ≠ q) : clash x y = false := by
  have hpending := List.pairwise_map.1 (List.pairwise_append.1 h).2.1
  have hsym : Std.Symm fun z z' : ι × R => clash z.2 z'.2 = false :=
    ⟨fun z z' hz => (hsymm z'.2 z.2).trans hz⟩
  refine hpending.forall (mem_own.1 hx) (mem_own.1 hy) fun heq => hne ?_
  exact congrArg Prod.fst heq

/-- A committed row clashes with none that a transaction has written. -/
theorem Unique.committed_own {y : R} (h : s.Unique clash) (hx : x ∈ s.committed)
    (hy : y ∈ s.own p) : clash x y = false :=
  (List.pairwise_append.1 h).2.2 x hx y (own_sublist.subset hy)

/-- A commit keeps the rows of the table. -/
theorem all_commit : (s.commit p).all.Perm s.all := by
  unfold all commit visible rollback own
  rw [List.append_assoc]
  refine List.Perm.append_left _ ?_
  rw [← List.map_append]
  refine List.Perm.map _ ?_
  have hsplit := List.filter_append_perm (fun y : ι × R => decide (y.1 = p)) s.pending
  simpa using hsplit

theorem Unique.commit (h : s.Unique clash) (hsymm : ∀ x y, clash x y = clash y x) (p : ι) :
    (s.commit p).Unique clash := by
  refine List.Pairwise.perm h all_commit.symm fun {x y} hxy => ?_
  rw [hsymm]
  exact hxy

theorem all_rollback : (s.rollback p).all.Sublist s.all := by
  unfold all rollback
  exact (List.filter_sublist.map _).append_left _

theorem Unique.rollback (h : s.Unique clash) (p : ι) : (s.rollback p).Unique clash :=
  List.Pairwise.sublist all_rollback h

end unique

end Store

/-! ## Locks -/

/-- Who holds the lock on a key. -/
abbrev Locks (κ ι : Type*) := κ → Option ι

namespace Locks

/-- `p` can have the lock on `k`: nobody else holds it. -/
def free (l : Locks κ ι) (p : ι) (k : κ) : Bool :=
  match l k with
  | none => true
  | some q => q = p

def acquire [DecidableEq κ] (l : Locks κ ι) (p : ι) (k : κ) : Locks κ ι :=
  Function.update l k (some p)

/-- The end of the transaction of `p`. -/
def release (l : Locks κ ι) (p : ι) : Locks κ ι := fun k => if l k = some p then none else l k

variable {l : Locks κ ι} {p q : ι} {k : κ}

theorem free_iff : l.free p k = true ↔ ∀ q, l k = some q → q = p := by
  unfold free
  cases h : l k with
  | none => simp
  | some q => simp

omit [DecidableEq ι] in
theorem acquire_other [DecidableEq κ] {k' : κ} (h : k' ≠ k) : l.acquire p k k' = l k' :=
  Function.update_of_ne h _ _

omit [DecidableEq ι] in
@[simp] theorem acquire_self [DecidableEq κ] : l.acquire p k k = some p := Function.update_self ..

/-- **A release frees one's own locks only.** -/
theorem release_of_ne (h : q ≠ p) : l.release p k = some q ↔ l k = some q := by
  unfold release
  split
  · next hp =>
    constructor
    · intro hn
      cases hn
    · intro hq
      rw [hp] at hq
      exact absurd (Option.some.inj hq).symm h
  · rfl

end Locks

end Effect
