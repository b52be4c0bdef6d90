import Mathlib.Data.List.Basic

/-!
# Past-time modalities

A history lists what happened, newest first.  Its entries are judged together with the history
before them: `Once P` says that `P` held of some entry, `Historically P` that it held of every one,
and `Since P Q` that `Q` held of some entry and `P` of every later one.  All three are defined by
recursion on the history, so an invariant that speaks of the past is proved one entry at a time.
-/

namespace Effect

variable {α : Type*} {P P' Q Q' : List α → α → Prop} {h : List α} {e : α}

/-- `P` held at some point. -/
def Once (P : List α → α → Prop) : List α → Prop
  | [] => False
  | e :: h => P h e ∨ Once P h

/-- `P` held at every point. -/
def Historically (P : List α → α → Prop) : List α → Prop
  | [] => True
  | e :: h => P h e ∧ Historically P h

/-- `Q` held at some point, and `P` ever since. -/
def Since (P Q : List α → α → Prop) : List α → Prop
  | [] => False
  | e :: h => Q h e ∨ (P h e ∧ Since P Q h)

@[simp] theorem once_nil : ¬Once P [] := id

@[simp] theorem once_cons : Once P (e :: h) ↔ P h e ∨ Once P h := Iff.rfl

@[simp] theorem historically_nil : Historically P ([] : List α) := trivial

@[simp] theorem historically_cons : Historically P (e :: h) ↔ P h e ∧ Historically P h := Iff.rfl

@[simp] theorem since_nil : ¬Since P Q [] := id

@[simp] theorem since_cons : Since P Q (e :: h) ↔ Q h e ∨ (P h e ∧ Since P Q h) := Iff.rfl

theorem Once.cons (e : α) (ho : Once P h) : Once P (e :: h) := .inr ho

theorem Once.mono (hP : ∀ h e, P h e → P' h e) (ho : Once P h) : Once P' h := by
  induction h with
  | nil => exact ho
  | cons e h ih => exact ho.imp (hP h e) ih

/-- The point where `P` held, with everything around it. -/
theorem once_iff : Once P h ↔ ∃ newer e older, h = newer ++ e :: older ∧ P older e := by
  constructor
  · intro ho
    induction h with
    | nil => exact ho.elim
    | cons e h ih =>
      rcases ho with hP | ho
      · exact ⟨[], e, h, rfl, hP⟩
      · obtain ⟨newer, e', older, rfl, hP⟩ := ih ho
        exact ⟨e :: newer, e', older, rfl, hP⟩
  · rintro ⟨newer, e, older, rfl, hP⟩
    induction newer with
    | nil => exact .inl hP
    | cons e' newer ih => exact .inr ih

theorem Historically.mono (hP : ∀ h e, P h e → P' h e) (hh : Historically P h) :
    Historically P' h := by
  induction h with
  | nil => trivial
  | cons e h ih => exact ⟨hP h e hh.1, ih hh.2⟩

theorem Historically.and (hP : Historically P h) (hQ : Historically Q h) :
    Historically (fun h e => P h e ∧ Q h e) h := by
  induction h with
  | nil => trivial
  | cons e h ih => exact ⟨⟨hP.1, hQ.1⟩, ih hP.2 hQ.2⟩

theorem Since.once (hs : Since P Q h) : Once Q h := by
  induction h with
  | nil => exact hs
  | cons e h ih => exact hs.imp_right fun hs => ih hs.2

instance decidableOnce [∀ h e, Decidable (P h e)] : ∀ h, Decidable (Once P h)
  | [] => .isFalse id
  | e :: h =>
    have := decidableOnce h
    inferInstanceAs (Decidable (P h e ∨ Once P h))

instance decidableHistorically [∀ h e, Decidable (P h e)] : ∀ h, Decidable (Historically P h)
  | [] => .isTrue trivial
  | e :: h =>
    have := decidableHistorically h
    inferInstanceAs (Decidable (P h e ∧ Historically P h))

instance decidableSince [∀ h e, Decidable (P h e)] [∀ h e, Decidable (Q h e)] :
    ∀ h, Decidable (Since P Q h)
  | [] => .isFalse id
  | e :: h =>
    have := decidableSince h
    inferInstanceAs (Decidable (Q h e ∨ (P h e ∧ Since P Q h)))

end Effect
