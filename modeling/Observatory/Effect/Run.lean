import Observatory.Effect.Protocol

/-!
# Runs of one program

`Prog.Exec` reads a program against any answers; here the answers come from a world.  `exec` says
what an operation does in a world, given what the outside decides about it.  A run of a program is
a trace of the program (`Exec`) along which the world steps (`Steps`), so that facts about the
program and facts about the world are proved apart.  `Prog.drive` computes runs.
-/

namespace Effect

variable {S : Sig} {W Ch ε α : Type}

/-- Along the trace, the world steps from `w` to `w'`. -/
inductive Steps (exec : W → Ch → (o : S.Op) → W × S.Result o) :
    W → List (Performed S) → W → Prop where
  | nil (w : W) : Steps exec w [] w
  | cons {w w' : W} {t : List (Performed S)} (ch : Ch) (o : S.Op)
      (h : Steps exec (exec w ch o).1 t w') : Steps exec w (⟨o, (exec w ch o).2⟩ :: t) w'

variable {exec : W → Ch → (o : S.Op) → W × S.Result o} {w w' : W} {t t' : List (Performed S)}

/-- The world steps along a trace piece by piece. -/
theorem steps_append :
    Steps exec w (t ++ t') w' ↔ ∃ w₁, Steps exec w t w₁ ∧ Steps exec w₁ t' w' := by
  constructor
  · intro h
    induction t generalizing w with
    | nil => exact ⟨w, .nil w, h⟩
    | cons e t ih =>
      rw [List.cons_append] at h
      cases h with
      | cons ch o h =>
        obtain ⟨w₁, h₁, h₂⟩ := ih h
        exact ⟨w₁, .cons ch o h₁, h₂⟩
  · rintro ⟨w₁, h₁, h₂⟩
    induction h₁ with
    | nil w => exact h₂
    | cons ch o h ih => exact .cons ch o (ih h₂)

namespace Prog

/-- `Runs p w t r w'`: from the world `w`, `p` performs `t`, ends with `r` and leaves `w'`. -/
structure Runs (exec : W → Ch → (o : S.Op) → W × S.Result o) (p : Prog S ε α) (w : W)
    (t : List (Performed S)) (r : Except ε α) (w' : W) : Prop where
  trace : Exec p t r
  world : Steps exec w t w'

/-- Run a program, the outside deciding as listed. -/
def drive (exec : W → Ch → (o : S.Op) → W × S.Result o) :
    Prog S ε α → W → List Ch → Option (List (Performed S) × Except ε α × W)
  | .ret a, w, _ => some ([], .ok a, w)
  | .raise x, w, _ => some ([], .error x, w)
  | .op _ _, _, [] => none
  | .op o k, w, ch :: chs =>
    let (w₁, res) := exec w ch o
    ((k res).drive exec w₁ chs).map fun (t, r, w') => (⟨o, res⟩ :: t, r, w')

theorem runs_of_drive {p : Prog S ε α} {chs : List Ch} {r : Except ε α} {w w' : W}
    {t : List (Performed S)} (h : p.drive exec w chs = some (t, r, w')) : p.Runs exec w t r w' := by
  induction p generalizing w chs t with
  | ret a =>
    cases h
    exact ⟨.ret a, .nil _⟩
  | raise x =>
    cases h
    exact ⟨.raise x, .nil _⟩
  | op o k ih =>
    cases chs with
    | nil => cases h
    | cons ch chs =>
      obtain ⟨⟨t₁, r₁, w₁⟩, hrest, heq⟩ := Option.map_eq_some_iff.1 h
      cases heq
      obtain ⟨htrace, hworld⟩ := ih _ hrest
      exact ⟨.op htrace, .cons ch o hworld⟩

/-- **Sequencing**: the first part raises, or it returns and the second goes on. -/
theorem runs_bind {β : Type} {p : Prog S ε α} {f : α → Prog S ε β} {r : Except ε β} :
    (p.bind f).Runs exec w t r w' ↔
      (∃ a t₁ t₂ w₁, t = t₁ ++ t₂ ∧ p.Runs exec w t₁ (.ok a) w₁ ∧ (f a).Runs exec w₁ t₂ r w') ∨
        ∃ x, r = .error x ∧ p.Runs exec w t (.error x) w' := by
  constructor
  · rintro ⟨htrace, hworld⟩
    rcases exec_bind.1 htrace with ⟨a, t₁, t₂, rfl, h₁, h₂⟩ | ⟨x, rfl, hx⟩
    · obtain ⟨w₁, hw₁, hw₂⟩ := steps_append.1 hworld
      exact .inl ⟨a, t₁, t₂, w₁, rfl, ⟨h₁, hw₁⟩, ⟨h₂, hw₂⟩⟩
    · exact .inr ⟨x, rfl, hx, hworld⟩
  · rintro (⟨a, t₁, t₂, w₁, rfl, ⟨h₁, hw₁⟩, ⟨h₂, hw₂⟩⟩ | ⟨x, rfl, hx, hworld⟩)
    · exact ⟨exec_bind.2 (.inl ⟨a, t₁, t₂, rfl, h₁, h₂⟩), steps_append.2 ⟨w₁, hw₁, hw₂⟩⟩
    · exact ⟨exec_bind.2 (.inr ⟨x, rfl, hx⟩), hworld⟩

end Prog

end Effect
