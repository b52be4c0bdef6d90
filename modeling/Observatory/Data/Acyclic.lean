import Mathlib.Logic.Relation

/-!
# Graphs that grow

A graph without cycles stays without cycles when an edge is added that leaves a vertex no edge
enters (`Acyclic.insert`).  So if no vertex is ever left after it has been entered, no cycle comes
about, whatever the edges are.
-/

namespace Graph

open Relation

variable {α : Type*} {r r' : α → α → Prop} {a b x y : α}

/-- No path leads back to where it began. -/
def Acyclic (r : α → α → Prop) : Prop := ∀ x, ¬TransGen r x x

/-- `r'` has at most the edge from `a` to `b` more than `r`. -/
def Inserts (r r' : α → α → Prop) (a b : α) : Prop := ∀ x y, r' x y → r x y ∨ (x = a ∧ y = b)

theorem Inserts.not_entered (h : Inserts r r' a b) (hne : a ≠ b) (hfresh : ∀ x, ¬r x a)
    (hpath : TransGen r' x y) : y ≠ a := by
  have hedge : ∀ {x y}, r' x y → y ≠ a := by
    rintro x y hxy rfl
    rcases h x y hxy with hold | ⟨-, rfl⟩
    · exact hfresh x hold
    · exact hne rfl
  cases hpath with
  | single hxy => exact hedge hxy
  | tail _ hzy => exact hedge hzy

/-- A path that does not begin with the new edge does not use it. -/
theorem Inserts.path (h : Inserts r r' a b) (hne : a ≠ b) (hfresh : ∀ x, ¬r x a)
    (hpath : TransGen r' x y) (hx : x ≠ a) : TransGen r x y := by
  have hedge : ∀ {x y}, r' x y → x ≠ a → r x y := fun hxy hx =>
    (h _ _ hxy).resolve_right fun heq => hx heq.1
  induction hpath with
  | single hxy => exact .single (hedge hxy hx)
  | tail hxz hzy ih => exact ih.tail (hedge hzy (h.not_entered hne hfresh hxz))

/-- **An edge out of a vertex that has not been entered** closes no cycle. -/
theorem Acyclic.insert (hr : Acyclic r) (h : Inserts r r' a b) (hne : a ≠ b)
    (hfresh : ∀ x, ¬r x a) : Acyclic r' := by
  intro x hcycle
  exact hr x (h.path hne hfresh hcycle (h.not_entered hne hfresh hcycle))

end Graph
