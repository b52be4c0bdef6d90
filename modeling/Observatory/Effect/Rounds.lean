import Mathlib.Algebra.BigOperators.Intervals
import Mathlib.Algebra.Order.BigOperators.Group.Finset
import Observatory.Effect.Protocol

/-!
# Loops with a given number of rounds

`for i in range(n): ...`, where a round leaves the loop with a result, raises, or goes on with new
values of the loop's variables; `done` follows the last round.  A trace of the loop is made of the
traces of its rounds (`exec_rounds`), so what every round costs at most bounds what the loop costs
(`Rounds.cost_le`), and `wp_rounds` is the rule of the loop's invariant.  `wp_foldlM` is the rule of
a loop over a list.
-/

namespace Effect

variable {S : Sig} {ε α β σ : Type}

namespace Prog

/-- `left` rounds from the number `i` on. -/
def rounds (body : ℕ → β → Prog S ε (β ⊕ α)) (done : β → Prog S ε α) : ℕ → ℕ → β → Prog S ε α
  | 0, _, b => done b
  | left + 1, i, b => (body i b).bind fun x => x.elim (rounds body done left (i + 1)) .ret

/-- A trace of the loop, round by round. -/
inductive Rounds (body : ℕ → β → Prog S ε (β ⊕ α)) (done : β → Prog S ε α) :
    ℕ → ℕ → β → List (Performed S) → Except ε α → Prop
  | spent {i : ℕ} {b : β} {t : List (Performed S)} {r : Except ε α} (h : Exec (done b) t r) :
    Rounds body done 0 i b t r
  | ended {left i : ℕ} {b : β} {t : List (Performed S)} {a : α}
    (h : Exec (body i b) t (.ok (.inr a))) : Rounds body done (left + 1) i b t (.ok a)
  | raised {left i : ℕ} {b : β} {t : List (Performed S)} {x : ε}
    (h : Exec (body i b) t (.error x)) : Rounds body done (left + 1) i b t (.error x)
  | again {left i : ℕ} {b b' : β} {t t' : List (Performed S)} {r : Except ε α}
    (h : Exec (body i b) t (.ok (.inl b'))) (rest : Rounds body done left (i + 1) b' t' r) :
    Rounds body done (left + 1) i b (t ++ t') r

variable {body : ℕ → β → Prog S ε (β ⊕ α)} {done : β → Prog S ε α} {left i : ℕ} {b : β}
  {t : List (Performed S)} {r : Except ε α}

/-- **The trace of a loop** is made of the traces of its rounds. -/
theorem exec_rounds : Exec (rounds body done left i b) t r ↔ Rounds body done left i b t r := by
  induction left generalizing i b t with
  | zero =>
    refine ⟨.spent, fun h => ?_⟩
    cases h with
    | spent h => exact h
  | succ left ih =>
    rw [rounds, exec_bind]
    constructor
    · rintro (⟨x, t₁, t₂, rfl, h₁, h₂⟩ | ⟨x, rfl, h⟩)
      · cases x with
        | inl b' => exact .again h₁ (ih.1 h₂)
        | inr a =>
          obtain ⟨rfl, rfl⟩ := exec_ret.1 h₂
          rw [List.append_nil]
          exact .ended h₁
      · exact .raised h
    · intro h
      cases h with
      | @ended _ _ _ _ a h =>
        exact .inl ⟨.inr a, t, [], (List.append_nil t).symm, h, exec_ret.2 ⟨rfl, rfl⟩⟩
      | @raised _ _ _ _ x h => exact .inr ⟨x, rfl, h⟩
      | @again _ _ _ b' t₁ t₂ _ h rest => exact .inl ⟨.inl b', t₁, t₂, rfl, h, ih.2 rest⟩

/-! ## The cost of a trace -/

section cost

variable {M : Type} [AddCommMonoid M]

/-- What the operations of a trace cost together. -/
def cost (f : Performed S → M) (t : List (Performed S)) : M := (t.map f).sum

variable {f : Performed S → M}

@[simp] theorem cost_nil : cost f ([] : List (Performed S)) = 0 := rfl

@[simp] theorem cost_cons {e : Performed S} : cost f (e :: t) = f e + cost f t := by
  rw [cost, List.map_cons, List.sum_cons, cost]

@[simp] theorem cost_append {t' : List (Performed S)} :
    cost f (t ++ t') = cost f t + cost f t' := by
  rw [cost, List.map_append, List.sum_append, cost, cost]

/-- The automaton that adds up the cost. -/
def spending (f : Performed S → M) : Protocol S M where
  allows _ _ := True
  next m o r := m + f ⟨o, r⟩

@[simp] theorem next_spending {m : M} {o : S.Op} {a : S.Result o} :
    (spending f).next m o a = m + f ⟨o, a⟩ := rfl

theorem after_spending {m : M} : (spending f).after m t = m + cost f t := by
  induction t generalizing m with
  | nil => exact (add_zero m).symm
  | cons e t ih =>
    refine ih.trans ?_
    rw [cost_cons, ← add_assoc]
    rfl

/-- A bound that is proved along the program. -/
theorem cost_le_of_wp [LE M] {p : Prog S ε α} {bound : M} (h : Exec p t r)
    (hp : wp (spending f) p (fun _ m => m ≤ bound) 0) : cost f t ≤ bound := by
  have hpost := (h.sound hp).2
  rwa [after_spending, zero_add] at hpost

/-- **What a loop costs**: no more than its rounds together. -/
theorem Rounds.cost_le [PartialOrder M] [IsOrderedAddMonoid M] {B : ℕ → M}
    (h : Rounds body done left i b t r)
    (hbody : ∀ j b t r, Exec (body j b) t r → cost f t ≤ B j)
    (hdone : ∀ b t r, Exec (done b) t r → cost f t ≤ 0) (hB : ∀ j, 0 ≤ B j) :
    cost f t ≤ ∑ j ∈ Finset.Ico i (i + left), B j := by
  induction h with
  | spent h =>
    rw [Nat.add_zero, Finset.Ico_self, Finset.sum_empty]
    exact hdone _ _ _ h
  | @ended left i b t a h =>
    rw [Finset.sum_eq_sum_Ico_succ_bot (by omega)]
    refine (hbody _ _ _ _ h).trans (le_add_of_nonneg_right ?_)
    exact Finset.sum_nonneg fun j _ => hB j
  | @raised left i b t x h =>
    rw [Finset.sum_eq_sum_Ico_succ_bot (by omega)]
    refine (hbody _ _ _ _ h).trans (le_add_of_nonneg_right ?_)
    exact Finset.sum_nonneg fun j _ => hB j
  | @again left i b b' t t' r h rest ih =>
    have hlast : i + (left + 1) = i + 1 + left := by omega
    rw [Finset.sum_eq_sum_Ico_succ_bot (by omega), cost_append, hlast]
    exact add_le_add (hbody _ _ _ _ h) ih

end cost

/-! ## The invariant of a loop -/

/-- What a round must end with: the invariant for the next one, or what the loop ends with. -/
def roundPost (I : ℕ → β → σ → Prop) (Q : Except ε α → σ → Prop) (i : ℕ) :
    Except ε (β ⊕ α) → σ → Prop
  | .ok (.inl b), g => I (i + 1) b g
  | .ok (.inr a), g => Q (.ok a) g
  | .error x, g => Q (.error x) g

/-- **The rule of the loop.** -/
theorem wp_rounds {T : Protocol S σ} {I : ℕ → β → σ → Prop} {Q : Except ε α → σ → Prop} {g : σ}
    (hbody : ∀ j b g, j < i + left → I j b g → wp T (body j b) (roundPost I Q j) g)
    (hdone : ∀ b g, I (i + left) b g → wp T (done b) Q g) (hI : I i b g) :
    wp T (rounds body done left i b) Q g := by
  induction left generalizing i b g with
  | zero => exact hdone b g hI
  | succ left ih =>
    rw [rounds, wp_bind]
    refine wp_mono ?_ (hbody i b g (by omega) hI)
    rintro (x | x | a) g' hpost
    · exact hpost
    · refine ih (fun j b g hj => hbody j b g (by omega)) (fun b g hlast => hdone b g ?_) hpost
      rwa [Nat.add_right_comm, Nat.add_assoc] at hlast
    · exact hpost

/-- What the body of a loop over a list must end with, after the elements `done`. -/
def elemPost {γ : Type} (I : List γ → β → σ → Prop) (Q : Except ε β → σ → Prop) (done : List γ) :
    Except ε β → σ → Prop
  | .ok b, g => I done b g
  | .error x, g => Q (.error x) g

/-- **The rule of a loop over a list**, with an invariant of what has been gone through. -/
theorem wp_foldlM {γ : Type} {T : Protocol S σ} {f : β → γ → Prog S ε β} {xs : List γ}
    {I : List γ → β → σ → Prop} {Q : Except ε β → σ → Prop} {g : σ}
    (hbody : ∀ done x b g, done ++ [x] <+: xs → I done b g →
      wp T (f b x) (elemPost I Q (done ++ [x])) g)
    (hdone : ∀ b g, I xs b g → Q (.ok b) g) (hI : I [] b g) : wp T (xs.foldlM f b) Q g := by
  have hrest : ∀ (rest done : List γ) b g, done ++ rest = xs → I done b g →
      wp T (rest.foldlM f b) Q g := by
    intro rest
    induction rest with
    | nil =>
      intro done b g hxs hI
      rw [List.append_nil] at hxs
      exact hdone b g (hxs ▸ hI)
    | cons x rest ih =>
      intro done b g hxs hI
      have hnext : done ++ [x] ++ rest = xs := (List.append_cons done x rest).symm.trans hxs
      refine wp_bind.2 (wp_mono ?_ (hbody done x b g ⟨rest, hnext⟩ hI))
      rintro (e | b') g' hpost
      · exact hpost
      · exact ih (done ++ [x]) b' g' hnext hpost
  exact hrest xs [] b g (List.nil_append xs) hI

end Prog

end Effect
