import Observatory.Effect.Store

/-!
# Rows under locks

A table whose rows are written under the exclusive lock of their key, held to the end of the
transaction (`Guarded`).  What a transaction sees of a key that it holds changes with its own writes
only (`Guarded.seen_commit_holder`), so it is enough to compare a row with the rows that its writer
sees: any relation between the successive rows of a key is then one between the committed rows, in
the order of the commits (`Chained`).
-/

namespace Effect.Store

variable {ι κ R : Type*} [DecidableEq ι] [DecidableEq κ] {key : R → κ} {s : Store ι R}
  {l : Locks κ ι} {p q : ι} {k : κ} {x : R} {rel : R → R → Prop}

/-- The committed rows of a key, the newest last. -/
def rows (key : R → κ) (s : Store ι R) (k : κ) : List R := s.committed.filter (key · = k)

/-- The rows of a key that `p` sees. -/
def seen (key : R → κ) (s : Store ι R) (p : ι) (k : κ) : List R :=
  (s.visible p).filter (key · = k)

/-- A row that is not committed is under the lock of its transaction. -/
def Guarded (key : R → κ) (s : Store ι R) (l : Locks κ ι) : Prop :=
  ∀ p, ∀ x ∈ s.own p, l (key x) = some p

theorem seen_eq : s.seen key p k = s.rows key k ++ (s.own p).filter (key · = k) :=
  List.filter_append ..

omit [DecidableEq ι] in
theorem rows_insert : (s.insert p x).rows key k = s.rows key k := rfl

@[simp] theorem rows_rollback : (s.rollback p).rows key k = s.rows key k := rfl

@[simp] theorem rows_commit : (s.commit p).rows key k = s.seen key p k := rfl

theorem seen_insert_self :
    (s.insert p x).seen key p k = s.seen key p k ++ if key x = k then [x] else [] := by
  rw [seen, visible_insert_self, List.filter_append, seen]
  by_cases hk : key x = k
  · simp only [List.filter_cons, hk, decide_true, if_true, List.filter_nil]
  · simp only [List.filter_cons, hk, decide_false, Bool.false_eq_true, if_false,
      List.filter_nil]

theorem seen_insert_of_ne (h : q ≠ p) : (s.insert p x).seen key q k = s.seen key q k := by
  rw [seen_eq, seen_eq, own_insert_of_ne h, rows_insert]

theorem seen_rollback_self : (s.rollback p).seen key p k = s.rows key k := by
  rw [seen_eq, own_rollback_self, List.filter_nil, List.append_nil, rows_rollback]

theorem seen_rollback_of_ne (h : q ≠ p) : (s.rollback p).seen key q k = s.seen key q k := by
  rw [seen_eq, seen_eq, own_rollback_of_ne h, rows_rollback]

theorem mem_all_of_seen (h : x ∈ s.seen key p k) : x ∈ s.all ∧ key x = k := by
  obtain ⟨hmem, hk⟩ := List.mem_filter.1 h
  refine ⟨?_, of_decide_eq_true hk⟩
  rcases List.mem_append.1 hmem with hcommitted | hown
  · exact List.mem_append_left _ hcommitted
  · exact mem_all_of_own hown

theorem rows_sublist_seen : (s.rows key k).Sublist (s.seen key p k) := by
  rw [seen_eq]
  exact List.sublist_append_left _ _

namespace Guarded

theorem own_eq_nil (h : Guarded key s l) (hl : l k ≠ some p) :
    (s.own p).filter (key · = k) = [] := by
  refine List.filter_eq_nil_iff.2 fun x hx hk => hl ?_
  rw [← of_decide_eq_true hk]
  exact h p x hx

/-- Without the lock, a transaction sees what is committed. -/
theorem seen_eq_rows (h : Guarded key s l) (hl : l k ≠ some p) :
    s.seen key p k = s.rows key k := by
  rw [seen_eq, h.own_eq_nil hl, List.append_nil]

/-- **The holder of a key** sees no other transaction's commit. -/
theorem seen_commit_holder (h : Guarded key s l) (hl : l k = some q) :
    (s.commit p).seen key q k = s.seen key q k := by
  by_cases hq : q = p
  · subst hq
    rw [seen_eq, own_commit_self, List.filter_nil, List.append_nil, rows_commit]
  · have hp : l k ≠ some p := by
      rw [hl]
      exact fun heq => hq (Option.some.inj heq)
    rw [seen_eq, rows_commit, own_commit_of_ne hq, h.seen_eq_rows hp, ← seen_eq]

theorem seen_commit_of_not_holder (h : Guarded key s l) (hl : l k ≠ some q) :
    (s.commit p).seen key q k = s.seen key p k := by
  by_cases hq : q = p
  · subst hq
    rw [seen_eq, own_commit_self, List.filter_nil, List.append_nil, rows_commit]
  · rw [seen_eq, rows_commit, own_commit_of_ne hq, h.own_eq_nil hl, List.append_nil]

theorem acquire (h : Guarded key s l) (hfree : l.free p k) : Guarded key s (l.acquire p k) := by
  intro q x hx
  have hq := h q x hx
  by_cases hk : key x = k
  · rw [hk] at hq ⊢
    rw [Locks.acquire_self, Locks.free_iff.1 hfree q hq]
  · rw [Locks.acquire_other hk]
    exact hq

omit [DecidableEq κ] in
theorem insert (h : Guarded key s l) (hl : l (key x) = some p) : Guarded key (s.insert p x) l := by
  intro q y hy
  by_cases hq : q = p
  · subst hq
    rw [own_insert_self, List.mem_append, List.mem_singleton] at hy
    rcases hy with hy | rfl
    · exact h q y hy
    · exact hl
  · rw [own_insert_of_ne hq] at hy
    exact h q y hy

omit [DecidableEq κ] in
theorem rollback (h : Guarded key s l) : Guarded key (s.rollback p) (l.release p) := by
  intro q x hx
  have hq : q ≠ p := by
    rintro rfl
    rw [own_rollback_self] at hx
    cases hx
  rw [own_rollback_of_ne hq] at hx
  exact (Locks.release_of_ne hq).2 (h q x hx)

omit [DecidableEq κ] in
theorem commit (h : Guarded key s l) : Guarded key (s.commit p) (l.release p) := h.rollback

end Guarded

/-- The successive rows of a key are related, and each row is written under its lock. -/
structure Chained (rel : R → R → Prop) (key : R → κ) (s : Store ι R) (l : Locks κ ι) : Prop where
  guarded : Guarded key s l
  seen : ∀ p k, (s.seen key p k).Pairwise rel
  rows : ∀ k, (s.rows key k).Pairwise rel

namespace Chained

theorem acquire (h : Chained rel key s l) (hfree : l.free p k) :
    Chained rel key s (l.acquire p k) := ⟨h.guarded.acquire hfree, h.seen, h.rows⟩

/-- **A row is written**: its writer holds the key and relates it to what it sees. -/
theorem insert (h : Chained rel key s l) (hl : l (key x) = some p)
    (hx : ∀ y ∈ s.seen key p (key x), rel y x) : Chained rel key (s.insert p x) l := by
  refine ⟨h.guarded.insert hl, fun q k => ?_, h.rows⟩
  by_cases hq : q = p
  · subst hq
    rw [seen_insert_self]
    split
    · next hk =>
      subst hk
      refine List.pairwise_append.2 ⟨h.seen q _, List.pairwise_singleton _ _, fun y hy z hz => ?_⟩
      rw [List.mem_singleton.1 hz]
      exact hx y hy
    · rw [List.append_nil]
      exact h.seen q k
  · rw [seen_insert_of_ne hq]
    exact h.seen q k

theorem rollback (h : Chained rel key s l) : Chained rel key (s.rollback p) (l.release p) := by
  refine ⟨h.guarded.rollback, fun q k => ?_, h.rows⟩
  by_cases hq : q = p
  · subst hq
    rw [seen_rollback_self]
    exact h.rows k
  · rw [seen_rollback_of_ne hq]
    exact h.seen q k

theorem commit (h : Chained rel key s l) : Chained rel key (s.commit p) (l.release p) := by
  refine ⟨h.guarded.commit, fun q k => ?_, fun k => h.seen p k⟩
  by_cases hl : l k = some q
  · rw [h.guarded.seen_commit_holder hl]
    exact h.seen q k
  · rw [h.guarded.seen_commit_of_not_holder hl]
    exact h.seen p k

end Chained

end Effect.Store
