import Observatory.Model.ToolRegistry
import Mathlib.Tactic.Common
import Mathlib.Tactic.Tauto

/-!
# Arguments that fit a schema

What a call lets through is what passes `isinstance` for every declared property
(`call_invokes_iff`).  That is more than what fits the schema: `isinstance` takes booleans for
integers, and a schema without properties takes anything.  It is also less: an argument named like a
parameter of `call` never arrives.
-/

namespace Observatory.ToolRegistry

/-- The JSON types a property can be declared with. -/
def declaredTypes : List String := ["string", "integer", "object"]

/-- A JSON value of a type; a boolean is no integer. -/
def HasType (type : String) (v : Json) : Prop :=
  type = "string" ∧ (∃ t, v = .text t) ∨ type = "integer" ∧ (∃ i, v = .int i) ∨
    type = "object" ∧ ∃ kvs, v = .obj kvs

/-- Every property has one of the three types. -/
def Declares (schema : Schema) : Prop :=
  ∀ kp ∈ schema.props, ∃ type ∈ declaredTypes, kp.2 = property type

/-- Everything required is given, and everything given is declared and has its type. -/
def Fits (schema : Schema) (kw : Dict) : Prop :=
  (∀ r ∈ schema.required, (kw.get r).isSome) ∧
    ∀ kv ∈ kw, ∃ type, schema.props.lookup kv.1 = some (property type) ∧ HasType type kv.2

/-- The `isinstance` check of a type. -/
def passes (type : String) (v : Json) : Bool :=
  if type = "string" then isStr v else if type = "integer" then isInt v else isDict v

/-- Everything required is given, and what is declared has its type as far as `isinstance` tells. -/
def Passes (schema : Schema) (kw : Dict) : Prop :=
  (∀ r ∈ schema.required, (kw.get r).isSome) ∧
    ∀ kv ∈ kw, (schema.props.lookup kv.1 = none → schema.props = []) ∧
      ∀ type, schema.props.lookup kv.1 = some (property type) → passes type kv.2 = true

/-- An argument is named like a parameter of `call`. -/
def NamedLikeOwn (kw : Dict) : Prop := ∃ kv ∈ kw, kv.1 ∈ ownParameters

/-- A boolean is given for an integer. -/
def BooleanForInteger (schema : Schema) (kw : Dict) : Prop :=
  ∃ kv ∈ kw, schema.props.lookup kv.1 = some (property "integer") ∧ ∃ b, kv.2 = .bool b

/-- Arguments are given though none is declared. -/
def GivenUndeclared (schema : Schema) (kw : Dict) : Prop := schema.props = [] ∧ kw ≠ []

section types

variable {schema : Schema} {kw : Dict} {reg : Registry} {name : String}

theorem forM_eq_ok {α ε : Type} {f : α → Except ε Unit} {xs : List α} :
    xs.forM f = .ok () ↔ ∀ x ∈ xs, f x = .ok () := by
  induction xs with
  | nil => exact iff_of_true rfl fun _ h => absurd h List.not_mem_nil
  | cons x xs ih =>
    rw [List.forall_mem_cons, ← ih]
    show (f x >>= fun _ => xs.forM f) = .ok () ↔ _
    cases hx : f x with
    | error e => exact iff_of_false (fun h => by cases h) fun h => by cases h.1
    | ok u => exact ⟨fun h => ⟨rfl, h⟩, fun h => h.2⟩

theorem type_of_lookup (hdecl : Declares schema) {k : String} {p : Property}
    (h : schema.props.lookup k = some p) : ∃ type ∈ declaredTypes, p = property type := by
  have hmem : (k, p) ∈ schema.props := by
    obtain ⟨l₁, l₂, heq, -⟩ := List.lookup_eq_some_iff.1 h
    rw [heq]
    simp
  exact hdecl _ hmem

theorem property_inj {type type' : String} (h : property type = property type') : type = type' :=
  Option.some.inj (congrArg Property.type h)

/-- What has its type passes the check, and what passes has its type unless it is a boolean. -/
theorem hasType_iff {type : String} (htype : type ∈ declaredTypes) {v : Json} :
    HasType type v ↔ passes type v = true ∧ ¬(type = "integer" ∧ ∃ b, v = .bool b) := by
  simp only [declaredTypes, List.mem_cons, List.not_mem_nil, or_false] at htype
  rcases htype with rfl | rfl | rfl <;> cases v <;> simp [HasType, passes, isStr, isInt, isDict]

theorem checkRequired_eq_ok {r : String} :
    checkRequired name kw r = .ok () ↔ (kw.get r).isSome = true := by
  unfold checkRequired
  cases kw.get r <;> simp

theorem checkArgument_eq_ok (hdecl : Declares schema) {k : String} {v : Json} :
    checkArgument name schema.props k v = .ok () ↔
      (schema.props.lookup k = none → schema.props = []) ∧
        ∀ type, schema.props.lookup k = some (property type) → passes type v = true := by
  unfold checkArgument
  cases hk : schema.props.lookup k with
  | none => simp
  | some p =>
    obtain ⟨type, htype, rfl⟩ := type_of_lookup hdecl hk
    have hself : (∀ type', some (property type) = some (property type') → passes type' v = true) ↔
        passes type v = true :=
      ⟨fun h => h type rfl, fun h type' heq => property_inj (Option.some.inj heq) ▸ h⟩
    rw [hself]
    simp only [declaredTypes, List.mem_cons, List.not_mem_nil, or_false] at htype
    rcases htype with rfl | rfl | rfl <;> simp [property, passes]

/-- **What a call lets through.** -/
theorem call_invokes_iff (hreg : reg.lookup name = some schema) (hdecl : Declares schema) :
    call reg name kw = .ok ⟨name, kw⟩ ↔ ¬NamedLikeOwn kw ∧ Passes schema kw := by
  have hown : (kw.any fun kv => kv.1 ∈ ownParameters) = true ↔ NamedLikeOwn kw := by
    rw [List.any_eq_true]
    simp [NamedLikeOwn]
  unfold call
  rw [hreg]
  by_cases hnamed : NamedLikeOwn kw
  · rw [if_pos (hown.2 hnamed)]
    exact iff_of_false (fun h => by cases h) fun h => h.1 hnamed
  rw [if_neg fun h => hnamed (hown.1 h), Passes]
  have hrequired : (∀ r ∈ schema.required, (kw.get r).isSome = true) ↔
      schema.required.forM (checkRequired name kw) = .ok () := by
    rw [forM_eq_ok]
    exact forall₂_congr fun r _ => checkRequired_eq_ok.symm
  have harguments : (∀ kv ∈ kw, (schema.props.lookup kv.1 = none → schema.props = []) ∧
      ∀ type, schema.props.lookup kv.1 = some (property type) → passes type kv.2 = true) ↔
      (kw.forM fun kv => checkArgument name schema.props kv.1 kv.2) = .ok () := by
    rw [forM_eq_ok]
    exact forall₂_congr fun kv _ => (checkArgument_eq_ok hdecl).symm
  rw [hrequired, harguments, and_iff_right hnamed]
  show (schema.required.forM (checkRequired name kw) >>= fun _ =>
    (kw.forM fun kv => checkArgument name schema.props kv.1 kv.2) >>= fun _ =>
      (.ok ⟨name, kw⟩ : Except LibError Invocation)) = .ok ⟨name, kw⟩ ↔ _
  cases schema.required.forM (checkRequired name kw) with
  | error x => exact iff_of_false (fun h => by cases h) fun h => by cases h.1
  | ok u =>
    cases kw.forM fun kv => checkArgument name schema.props kv.1 kv.2 with
    | error x => exact iff_of_false (fun h => by cases h) fun h => by cases h.2
    | ok u' => exact iff_of_true rfl ⟨rfl, rfl⟩

/-- **What fits** passes, without a boolean for an integer and without anything undeclared. -/
theorem fits_iff (hdecl : Declares schema) : Fits schema kw ↔
    Passes schema kw ∧ ¬BooleanForInteger schema kw ∧ ¬GivenUndeclared schema kw := by
  constructor
  · rintro ⟨hrequired, hargs⟩
    refine ⟨⟨hrequired, fun kv hkv => ?_⟩, ?_, ?_⟩
    · obtain ⟨type, hlook, htype⟩ := hargs kv hkv
      obtain ⟨type', hdecl', heq⟩ := type_of_lookup hdecl hlook
      obtain rfl := property_inj heq
      refine ⟨fun hnone => ?_, fun type' hlook' => ?_⟩
      · rw [hlook] at hnone
        cases hnone
      · rw [hlook] at hlook'
        obtain rfl := property_inj (Option.some.inj hlook')
        exact ((hasType_iff hdecl').1 htype).1
    · rintro ⟨kv, hkv, hlook, hbool⟩
      obtain ⟨type, hlook', htype⟩ := hargs kv hkv
      rw [hlook] at hlook'
      obtain rfl := property_inj (Option.some.inj hlook')
      exact ((hasType_iff (by decide)).1 htype).2 ⟨rfl, hbool⟩
    · rintro ⟨hempty, hkw⟩
      obtain ⟨kv, rest, rfl⟩ := List.exists_cons_of_ne_nil hkw
      obtain ⟨type, hlook, -⟩ := hargs kv List.mem_cons_self
      rw [hempty] at hlook
      cases hlook
  · rintro ⟨⟨hrequired, hargs⟩, hbool, hundeclared⟩
    refine ⟨hrequired, fun kv hkv => ?_⟩
    obtain ⟨hnone, hpass⟩ := hargs kv hkv
    cases hlook : schema.props.lookup kv.1 with
    | none => exact (hundeclared ⟨hnone hlook, List.ne_nil_of_mem hkv⟩).elim
    | some p =>
      obtain ⟨type, htype, rfl⟩ := type_of_lookup hdecl hlook
      refine ⟨type, rfl, (hasType_iff htype).2 ⟨hpass type hlook, ?_⟩⟩
      rintro ⟨rfl, hb⟩
      exact hbool ⟨kv, hkv, hlook, hb⟩

end types

/-- **Arguments are accepted exactly when they fit**, unless arguments that pass the checks hold a
boolean for an integer or are given to a schema without properties, or arguments that fit are named
like a parameter of `call`. -/
theorem call_iff_fits_iff (reg : Registry) (name : String) (schema : Schema) (kw : Dict)
    (hreg : reg.lookup name = some schema) (hdecl : Declares schema) :
    (call reg name kw = .ok ⟨name, kw⟩ ↔ Fits schema kw) ↔
      ¬(Passes schema kw ∧ (¬NamedLikeOwn kw ∧ (BooleanForInteger schema kw ∨
          GivenUndeclared schema kw) ∨
        NamedLikeOwn kw ∧ ¬BooleanForInteger schema kw ∧ ¬GivenUndeclared schema kw)) := by
  rw [call_invokes_iff hreg hdecl, fits_iff hdecl]
  tauto

/-- A call of the default tools with the arguments they declare. -/
theorem call_iff_fits_iff_read : call defaultRegistry "technocore_read" [("since", .int 5)] =
    .ok ⟨"technocore_read", [("since", .int 5)]⟩ ↔
      Fits ⟨"technocore_read", "Technocore room/event reader (optional, requires TECHNOCORE_ENABLED)",
        some ⟨some [("room", property "string"), ("since", property "integer")], none⟩⟩
        [("since", .int 5)] := by
  refine (call_iff_fits_iff defaultRegistry "technocore_read" _ [("since", .int 5)] rfl ?_).2 ?_
  · intro kp hkp
    simp only [Schema.props, Option.bind_some, Option.getD_some, List.mem_cons, List.not_mem_nil,
      or_false] at hkp
    rcases hkp with rfl | rfl
    · exact ⟨"string", by decide, rfl⟩
    · exact ⟨"integer", by decide, rfl⟩
  · rintro ⟨-, ⟨-, ⟨kv, hkv, -, b, hb⟩ | ⟨hempty, -⟩⟩ | ⟨⟨kv, hkv, hown⟩, -⟩⟩
    · cases List.mem_singleton.1 hkv
      cases hb
    · cases hempty
    · cases List.mem_singleton.1 hkv
      exact absurd hown (by decide)

/-- `since=true` is called with, though a boolean is no integer. -/
theorem boolean_called : ¬∀ (reg : Registry) (name : String) (schema : Schema) (kw : Dict),
    reg.lookup name = some schema → Declares schema →
      (call reg name kw = .ok ⟨name, kw⟩ ↔ Fits schema kw) := by
  intro h
  let schema : Schema := ⟨"technocore_read", "", some ⟨some [("since", property "integer")], none⟩⟩
  have hdecl : Declares schema := by
    intro kp hkp
    cases List.mem_singleton.1 hkp
    exact ⟨"integer", by decide, rfl⟩
  obtain ⟨-, hfits⟩ := (h [("technocore_read", schema)] "technocore_read" schema
    [("since", .bool true)] rfl hdecl).1 rfl
  obtain ⟨type, hlook, htype⟩ := hfits _ (List.mem_singleton_self _)
  obtain rfl := property_inj (Option.some.inj hlook)
  exact ((hasType_iff (by decide)).1 htype).2 ⟨rfl, true, rfl⟩

end Observatory.ToolRegistry
