import Mathlib.Data.List.Nodup
import Mathlib.Data.List.Perm.Basic

/-!
# Grouping by a key

The members of a list put together by their keys, the keys in a given order.  Members with the same
key keep the order they had.
-/

namespace Grouping

variable {α β κ : Type*} [DecidableEq κ] {key : α → κ} {keys : List κ} {l : List α}

/-- The members with a key of `keys`, key by key. -/
def groups (key : α → κ) (keys : List κ) (l : List α) : List α :=
  keys.flatMap fun k => l.filter (key · = k)

/-- **Grouping reorders.** -/
theorem groups_perm (h : keys.Nodup) : (groups key keys l).Perm (l.filter (key · ∈ keys)) := by
  induction keys with
  | nil =>
    simp [groups]
  | cons k keys ih =>
    obtain ⟨hk, hkeys⟩ := List.nodup_cons.1 h
    have hfirst : (l.filter (key · ∈ k :: keys)).filter (key · = k) = l.filter (key · = k) := by
      rw [List.filter_filter]
      refine List.filter_congr fun a _ => ?_
      by_cases ha : key a = k
      · simp [ha]
      · simp [ha]
    have hrest : (l.filter (key · ∈ k :: keys)).filter (!key · = k) =
        l.filter (key · ∈ keys) := by
      rw [List.filter_filter]
      refine List.filter_congr fun a _ => ?_
      by_cases ha : key a = k
      · simp [ha, hk]
      · simp [ha]
    have hsplit := List.filter_append_perm (key · = k) (l.filter (key · ∈ k :: keys))
    rw [hfirst, hrest] at hsplit
    refine List.Perm.trans ?_ hsplit
    rw [groups, List.flatMap_cons]
    exact (ih hkeys).append_left _

theorem mem_groups {a : α} : a ∈ groups key keys l ↔ a ∈ l ∧ key a ∈ keys := by
  simp only [groups, List.mem_flatMap, List.mem_filter, decide_eq_true_eq]
  constructor
  · rintro ⟨k, hk, ha, rfl⟩
    exact ⟨ha, hk⟩
  · rintro ⟨ha, hk⟩
    exact ⟨key a, hk, ha, rfl⟩

/-- **The order of the groups**, and the one within a group. -/
theorem groups_pairwise {R : α → α → Prop} (h : keys.Nodup) (hl : l.Pairwise R) :
    (groups key keys l).Pairwise fun a b =>
      keys.idxOf (key a) < keys.idxOf (key b) ∨ key a = key b ∧ R a b := by
  refine List.pairwise_flatMap.2 ⟨fun k _ => ?_, ?_⟩
  · have hsame : ∀ a ∈ l.filter (key · = k), key a = k := by
      intro a ha
      exact of_decide_eq_true (List.mem_filter.1 ha).2
    refine (hl.sublist List.filter_sublist).imp_of_mem fun ha hb hab => ?_
    exact .inr ⟨(hsame _ ha).trans (hsame _ hb).symm, hab⟩
  · refine List.pairwise_iff_getElem.2 fun i j hi hj hij a ha b hb => ?_
    have hka : key a = keys[i] := of_decide_eq_true (List.mem_filter.1 ha).2
    have hkb : key b = keys[j] := of_decide_eq_true (List.mem_filter.1 hb).2
    rw [hka, hkb, h.idxOf_getElem, h.idxOf_getElem]
    exact .inl hij

theorem groups_map {key' : β → κ} {f : α → β} (hf : ∀ a, key' (f a) = key a) :
    groups key' keys (l.map f) = (groups key keys l).map f := by
  simp only [groups, List.map_flatMap, List.filter_map, Function.comp_def, hf]

/-- Where a property never comes back once it is lost, the members with it come first. -/
theorem split_of_pairwise {p : α → Bool} (h : l.Pairwise fun a b => p b = true → p a = true) :
    ∃ l₁ l₂, l = l₁ ++ l₂ ∧ (∀ a ∈ l₁, p a = true) ∧ ∀ a ∈ l₂, p a = false := by
  induction l with
  | nil => exact ⟨[], [], rfl, by simp, by simp⟩
  | cons a l ih =>
    obtain ⟨ha, hl⟩ := List.pairwise_cons.1 h
    cases hp : p a with
    | true =>
      obtain ⟨l₁, l₂, rfl, h₁, h₂⟩ := ih hl
      exact ⟨a :: l₁, l₂, rfl, List.forall_mem_cons.2 ⟨hp, h₁⟩, h₂⟩
    | false =>
      refine ⟨[], a :: l, rfl, by simp, List.forall_mem_cons.2 ⟨hp, fun b hb => ?_⟩⟩
      rw [Bool.eq_false_iff]
      intro hpb
      rw [ha b hb hpb] at hp
      cases hp

theorem nodup_eraseDups [BEq α] [LawfulBEq α] : (l : List α) → l.eraseDups.Nodup
  | [] => List.nodup_nil
  | a :: l => by
    rw [List.eraseDups_cons, List.nodup_cons]
    refine ⟨fun ha => ?_, nodup_eraseDups (l.filter fun b => !b == a)⟩
    simpa using (List.mem_filter.1 (List.mem_eraseDups.1 ha)).2
termination_by l => l.length
decreasing_by exact Nat.lt_succ_of_le (List.length_filter_le _ _)

end Grouping
