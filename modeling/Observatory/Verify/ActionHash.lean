import Observatory.Model.ActionHash

/-!
# What a hash is bound to

If SHA-256 collides nowhere, a hash stands for the class, the target and the payload of an action,
up to the order of fields, as far as JSON can tell their texts: the canonical JSON has the code units
of UTF-16, so a high surrogate that a low one follows becomes the character they stand for.  Among
texts with different code units nothing is mixed up (`actionHash_binds_iff`).
-/

namespace Observatory.ActionHash

open Canonical (Str ofString)
open JsonText JsonText.Value
open Utf16 (units)

variable {sha256 : ByteArray → String} {v w : Value Str}

/-! ## Canonical JSON -/

theorem canonicalJson_eq :
    canonicalJson v = String.ofList (write Utf16.quote (v.sorted.mapText units)) := by
  rw [canonicalJson, write_mapText]

/-- The canonical JSON stands for the sorted value in UTF-16. -/
theorem canonicalJson_eq_iff : canonicalJson v = canonicalJson w ↔
    v.sorted.mapText units = w.sorted.mapText units := by
  rw [canonicalJson_eq, canonicalJson_eq, String.ofList_inj]
  exact ⟨write_inj Utf16.quotes_quote, fun h => by rw [h]⟩

/-- **Up to the order of fields**, where texts have different code units. -/
theorem canonicalJson_eq_iff_same {S : Str → Prop}
    (hS : ∀ s t, S s → S t → units s = units t → s = t) (hv : v.Texts S) (hdistinct : v.Distinct)
    (hw : w.Texts S) : canonicalJson v = canonicalJson w ↔ v.Same w := by
  rw [canonicalJson_eq_iff, ← sorted_eq_iff_same hdistinct]
  exact ⟨mapText_inj_on hS (texts_sorted hv) (texts_sorted hw), fun h => by rw [h]⟩

theorem canonicalJson_str {s t : Str} :
    canonicalJson (.str s) = canonicalJson (.str t) ↔ units s = units t := by
  rw [canonicalJson_eq_iff]
  exact ⟨fun h => str.inj h, fun h => congrArg str h⟩

/-- Three fields, of which the last is written before the second. -/
theorem canonicalJson_three {k₁ k₂ k₃ : Str} (h₁ : k₁ < k₂) (h₂ : k₂ < k₃)
    {v₁ v₂ v₃ w₁ w₂ w₃ : Value Str} :
    canonicalJson (.obj [(k₁, v₁), (k₃, v₃), (k₂, v₂)]) =
        canonicalJson (.obj [(k₁, w₁), (k₃, w₃), (k₂, w₂)]) ↔
      canonicalJson v₁ = canonicalJson w₁ ∧ canonicalJson v₂ = canonicalJson w₂ ∧
        canonicalJson v₃ = canonicalJson w₃ := by
  have hsorted : ∀ v₁ v₂ v₃ : Value Str, byKey [(k₁, v₁), (k₃, v₃), (k₂, v₂)] =
      [(k₁, v₁), (k₂, v₂), (k₃, v₃)] := by
    intro v₁ v₂ v₃
    simp [byKey, List.orderedInsert, h₁.le, h₂.not_ge]
  simp only [canonicalJson_eq_iff, sorted_obj, mapText_obj, hsorted]
  simp

/-! ## Hashes -/

section hashes

variable {c t c' t' : Str} {p p' : Value Str}

/-- **What a hash stands for.** -/
theorem actionHash_eq_iff (hsha : Function.Injective sha256) :
    actionHash sha256 c t p = actionHash sha256 c' t' p' ↔
      units c = units c' ∧ units t = units t' ∧ canonicalJson p = canonicalJson p' := by
  unfold actionHash
  rw [hsha.eq_iff, String.toUTF8_eq_toByteArray, String.toUTF8_eq_toByteArray,
    String.toByteArray_inj, canonicalJson_three (by decide) (by decide), canonicalJson_str,
    canonicalJson_str]
  exact and_congr_right fun _ => and_comm

/-- Over texts of `S`, equal hashes are those of equal actions, up to the order of fields. -/
def Binds (sha256 : ByteArray → String) (S : Str → Prop) : Prop :=
  ∀ (c t : Str) (p : Value Str) (c' t' : Str) (p' : Value Str),
    S c → S t → p.Texts S → p.Distinct → S c' → S t' → p'.Texts S → p'.Distinct →
      (actionHash sha256 c t p = actionHash sha256 c' t' p' ↔ c = c' ∧ t = t' ∧ p.Same p')

theorem binds_of_units_inj (hsha : Function.Injective sha256) {S : Str → Prop}
    (hS : ∀ s t, S s → S t → units s = units t → s = t) : Binds sha256 S := by
  intro c t p c' t' p' hc ht hp hdistinct hc' ht' hp' _
  rw [actionHash_eq_iff hsha, canonicalJson_eq_iff_same hS hp hdistinct hp']
  constructor
  · rintro ⟨hclass, htarget, hsame⟩
    exact ⟨hS c c' hc hc' hclass, hS t t' ht ht' htarget, hsame⟩
  · rintro ⟨rfl, rfl, hsame⟩
    exact ⟨rfl, rfl, hsame⟩

/-- Two texts with the same code units can stand for each other, as a class. -/
theorem units_inj_of_binds (hsha : Function.Injective sha256) {S : Str → Prop}
    (h : Binds sha256 S) : ∀ s t, S s → S t → units s = units t → s = t := by
  intro s t hs ht hunits
  have hempty : (Value.obj []).Texts S ∧ (Value.obj ([] : List (Str × Value Str))).Distinct :=
    ⟨texts_obj.2 fun kv hkv => absurd hkv List.not_mem_nil,
      distinct_obj.2 ⟨List.nodup_nil, fun kv hkv => absurd hkv List.not_mem_nil⟩⟩
  have hhash : actionHash sha256 s s (.obj []) = actionHash sha256 t s (.obj []) :=
    (actionHash_eq_iff hsha).2 ⟨hunits, rfl, rfl⟩
  exact ((h s s _ t s _ hs hs hempty.1 hempty.2 ht hs hempty.1 hempty.2).1 hhash).1

/-- The hash of a new approval is bound to the action, the tool and the arguments. -/
theorem createHash_eq_iff (hsha : Function.Injective sha256) {S : Str → Prop}
    (hS : ∀ s t, S s → S t → units s = units t → s = t) {actionId tool actionId' tool' : Str}
    {arguments arguments' : List (Str × Value Str)}
    (htexts : ∀ s ∈ [actionId, tool, c, t, actionId', tool', c', t'], S s)
    (harguments : (Value.obj arguments).Texts S) (hdistinct : (Value.obj arguments).Distinct)
    (harguments' : (Value.obj arguments').Texts S) :
    createHash sha256 actionId tool arguments c t =
        createHash sha256 actionId' tool' arguments' c' t' ↔
      actionId = actionId' ∧ tool = tool' ∧ (Value.obj arguments).Same (.obj arguments') ∧
        c = c' ∧ t = t' := by
  have hunits : ∀ s ∈ [actionId, tool, c, t, actionId', tool', c', t'],
      ∀ s' ∈ [actionId, tool, c, t, actionId', tool', c', t'], units s = units s' ↔ s = s' :=
    fun s hs s' hs' => ⟨hS s s' (htexts s hs) (htexts s' hs'), fun h => by rw [h]⟩
  unfold createHash
  rw [actionHash_eq_iff hsha, canonicalJson_three (by decide) (by decide), canonicalJson_str,
    canonicalJson_str, canonicalJson_eq_iff_same hS harguments hdistinct harguments',
    hunits c (by simp) c' (by simp), hunits t (by simp) t' (by simp),
    hunits actionId (by simp) actionId' (by simp), hunits tool (by simp) tool' (by simp)]
  tauto

end hashes

/-- **A hash is bound to its action** just if no two of the texts have the same code units. -/
theorem actionHash_binds_iff (hsha : Function.Injective sha256) (S : Str → Prop) :
    Binds sha256 S ↔ ∀ s t, S s → S t → units s = units t → s = t :=
  ⟨units_inj_of_binds hsha, binds_of_units_inj hsha⟩

section samples

/-- A hash without collisions. -/
def spelled (b : ByteArray) : String :=
  String.ofList (b.data.toList.map fun x => Char.ofNat x.toNat)

theorem spelled_injective : Function.Injective spelled := by
  have hchar : Function.Injective fun x : UInt8 => Char.ofNat x.toNat := by
    intro x y h
    have hval : ∀ x : UInt8, (Char.ofNat x.toNat).toNat = x.toNat := by
      intro x
      have hx := x.toNat_lt
      unfold Char.ofNat
      rw [dif_pos (.inl (by omega))]
      rfl
    exact UInt8.toNat_inj.1 (by rw [← hval x, ← hval y]; exact congrArg Char.toNat h)
  intro a b h
  have hlist := List.map_injective_iff.2 hchar (String.ofList_injective h)
  exact ByteArray.ext (Array.ext' hlist)

/-- Among texts without pairs of surrogates. -/
theorem actionHash_binds_iff_sample : Binds spelled Utf16.Unpaired :=
  (actionHash_binds_iff spelled_injective Utf16.Unpaired).2 fun _ _ => Utf16.units_inj

/-- The payload of a message. -/
def message (text : Str) : Value Str := .obj [(ofString "text", .str text)]

theorem message_accepted (text : Str) :
    (message text).Texts (fun _ => True) ∧ (message text).Distinct := by
  rw [message, texts_obj, distinct_obj, List.forall_mem_singleton, List.forall_mem_singleton]
  exact ⟨⟨trivial, trivial⟩, List.nodup_singleton _, trivial⟩

/-- A high surrogate with a low one is hashed as the character they stand for. -/
theorem actionHash_collides : ¬∀ sha256 : ByteArray → String, Function.Injective sha256 →
    Binds sha256 fun _ => True := by
  intro hclaim
  have hhash : actionHash spelled (ofString "PUBLIC_WRITE") (ofString "/r/lobby")
      (message [0xD83D, 0xDE00]) = actionHash spelled (ofString "PUBLIC_WRITE")
        (ofString "/r/lobby") (message [0x1F600]) :=
    (actionHash_eq_iff spelled_injective).2 ⟨rfl, rfl, canonicalJson_eq_iff.2 rfl⟩
  have hpair := message_accepted [0xD83D, 0xDE00]
  have hface := message_accepted [0x1F600]
  obtain ⟨-, -, hsame⟩ := (hclaim spelled spelled_injective _ _ _ _ _ _ trivial trivial hpair.1
    hpair.2 trivial trivial hface.1 hface.2).1 hhash
  have hsorted := sorted_eq_of_same hpair.2 hsame
  cases hsorted

end samples

end Observatory.ActionHash
