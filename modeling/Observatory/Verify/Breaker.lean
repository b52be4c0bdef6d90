import Observatory.Data.Window
import Observatory.Model.Breaker
import Observatory.Model.Coordinator
import Mathlib.Algebra.Order.Ring.Rat
import Mathlib.Data.List.DropRight
import Mathlib.Data.List.Induction

/-!
# A breaker that forgets nothing needed

The breaker drops failures on the way, those that are old and with a reset all of a key.  What it
holds for a key stands for the failures since the last reset (`after_standsFor`), so the recent ones
among these decide whether it opens.  A breaker that prunes nothing (`recordKeeping`) holds just
these failures, and the other keys do not come into it (`after_filter`).
-/

namespace Observatory

open Window

namespace Breaker

/-! ## The failures since the last reset -/

/-- When the call records a failure of `key`. -/
def Op.failureOf (key : String) : Op → Option Seconds
  | .recordFailure key' now => if key' = key then some now else none
  | .reset _ => none

/-- The failures of `key` since its last reset, oldest first. -/
def sinceReset (key : String) (ops : List Op) : List Seconds :=
  (ops.rtakeWhile fun op => op ≠ .reset key).filterMap (Op.failureOf key)

section sinceReset

variable {key : String} {now : Seconds} {op : Op} {ops : List Op}

@[simp] theorem sinceReset_recordFailure :
    sinceReset key (ops ++ [.recordFailure key now]) = sinceReset key ops ++ [now] := by
  rw [sinceReset, List.rtakeWhile_concat_pos _ _ _ (by simp), List.filterMap_append]
  simp [sinceReset, Op.failureOf]

@[simp] theorem sinceReset_reset : sinceReset key (ops ++ [.reset key]) = [] := by
  rw [sinceReset, List.rtakeWhile_concat_neg _ _ _ (by simp), List.filterMap_nil]

theorem sinceReset_other (hkey : op.key ≠ key) :
    sinceReset key (ops ++ [op]) = sinceReset key ops := by
  have hne : op ≠ .reset key := by
    rintro rfl
    exact hkey rfl
  have hnone : op.failureOf key = none := by
    cases op with
    | recordFailure key' now => exact if_neg hkey
    | reset key' => rfl
  rw [sinceReset, List.rtakeWhile_concat_pos _ _ _ (by simpa using hne), List.filterMap_append]
  simp [sinceReset, hnone]

end sinceReset

/-! ## What the breaker holds -/

/-- The failures the breaker holds for `key`. -/
def held (b : Breaker) (key : String) : List Seconds := (b.failures key).getD []

section held

variable {b b' : Breaker} {key : String} {now cooldown : Seconds} {threshold : Int} {op : Op}

@[simp] theorem fresh_threshold : (fresh threshold cooldown).threshold = threshold := rfl

@[simp] theorem fresh_cooldown : (fresh threshold cooldown).cooldown = cooldown := rfl

theorem recordFailure_held : (b.recordFailure key now).1.held key =
    recent b.cooldown now (b.held key) ++ [now] := by
  simp [recordFailure, held, recent]

theorem recordFailure_opens : (b.recordFailure key now).2 = true ↔
    b.threshold ≤ (recent b.cooldown now (b.held key)).length + 1 := by
  simp [recordFailure, held, recent]

theorem reset_held : (b.reset key).held key = [] := by
  simp [reset, held]

theorem step_other (hkey : op.key ≠ key) : (b.step op).failures key = b.failures key := by
  cases op with
  | recordFailure key' now => exact Function.update_of_ne (Ne.symm hkey) _ _
  | reset key' => exact Function.update_of_ne (Ne.symm hkey) _ _

/-- A call sees of the failures only those of its key. -/
theorem step_self (hcooldown : b.cooldown = b'.cooldown)
    (hsame : b.failures op.key = b'.failures op.key) :
    (b.step op).failures op.key = (b'.step op).failures op.key := by
  cases op with
  | recordFailure key now =>
    rw [Op.key] at hsame
    simp [step, Op.key, recordFailure, hsame, hcooldown]
  | reset key => simp [step, Op.key, reset]

@[simp] theorem step_threshold : (b.step op).threshold = b.threshold := by
  cases op <;> rfl

@[simp] theorem step_cooldown : (b.step op).cooldown = b.cooldown := by
  cases op <;> rfl

end held

/-! ## Runs -/

section runs

variable {b : Breaker} {key : String} {now cooldown : Seconds} {threshold : Int} {op : Op}
  {ops : List Op}

theorem after_concat : after b (ops ++ [op]) = (after b ops).step op := by
  rw [after, List.foldl_append]
  rfl

@[simp] theorem after_threshold : (after b ops).threshold = b.threshold := by
  induction ops using List.reverseRecOn with
  | nil => rfl
  | append_singleton ops op ih => rw [after_concat, step_threshold, ih]

@[simp] theorem after_cooldown : (after b ops).cooldown = b.cooldown := by
  induction ops using List.reverseRecOn with
  | nil => rfl
  | append_singleton ops op ih => rw [after_concat, step_cooldown, ih]

theorem readings_recordFailure :
    readings (ops ++ [.recordFailure key now]) = readings ops ++ [now] := by
  simp [readings, Op.reading]

/-- No reading is later than the last one. -/
theorem readings_le (h : (readings (ops ++ [.recordFailure key now])).Pairwise (· ≤ ·)) :
    (readings ops).Pairwise (· ≤ ·) ∧ ∀ t ∈ readings ops, t ≤ now := by
  rw [readings_recordFailure] at h
  obtain ⟨hsorted, -, hle⟩ := List.pairwise_append.1 h
  exact ⟨hsorted, fun t ht => hle t ht now List.mem_cons_self⟩

theorem readings_sublist : (readings ops).Sublist (readings (ops ++ [op])) :=
  (List.sublist_append_left ops [op]).filterMap _

/-- **What the breaker holds** for a key stands for the failures since the last reset. -/
theorem after_standsFor (hsorted : (readings ops).Pairwise (· ≤ ·))
    (hnow : ∀ t ∈ readings ops, t ≤ now) :
    StandsFor cooldown now ((after (fresh threshold cooldown) ops).held key)
      (sinceReset key ops) := by
  induction ops using List.reverseRecOn generalizing now with
  | nil => exact .refl
  | append_singleton ops op ih =>
    have hsorted' := hsorted.sublist readings_sublist
    rw [after_concat]
    by_cases hkey : op.key = key
    · subst hkey
      cases op with
      | recordFailure key t =>
        -- the list is pruned at `t`, which is no later than `now`
        obtain ⟨-, hle⟩ := readings_le hsorted
        have ht : t ≤ now := hnow t (by rw [readings_recordFailure]; simp)
        have hkept := (ih hsorted' hle).prune
        rw [Op.key, sinceReset_recordFailure, step, recordFailure_held, after_cooldown]
        exact hkept.append.mono ht
      | reset key =>
        rw [Op.key, sinceReset_reset, step, reset_held]
        exact .refl
    · have hheld : ((after (fresh threshold cooldown) ops).step op).held key =
          (after (fresh threshold cooldown) ops).held key := by
        rw [held, step_other hkey, held]
      rw [hheld, sinceReset_other hkey]
      exact ih hsorted' fun t ht => hnow t (readings_sublist.subset ht)

/-- The other keys do not come into it. -/
theorem after_filter :
    (after b (ops.filter fun op => op.key = key)).failures key = (after b ops).failures key := by
  induction ops using List.reverseRecOn with
  | nil => rfl
  | append_singleton ops op ih =>
    rw [List.filter_append, after_concat]
    by_cases hkey : op.key = key
    · rw [List.filter_cons_of_pos (by simpa using hkey), List.filter_nil, after_concat]
      subst hkey
      exact step_self (by simp) ih
    · rw [List.filter_cons_of_neg (by simpa using hkey), List.filter_nil, List.append_nil, ih,
        step_other hkey]

/-- The breaker opens on as many recent failures as there are since the last reset. -/
theorem opens_iff (h : (readings (ops ++ [.recordFailure key now])).Pairwise (· ≤ ·)) :
    ((after (fresh threshold cooldown) ops).recordFailure key now).2 = true ↔
      threshold ≤ (recent cooldown now (sinceReset key ops)).length + 1 := by
  obtain ⟨hsorted, hle⟩ := readings_le h
  have hkept := @after_standsFor key now cooldown threshold ops hsorted hle
  rw [recordFailure_opens, after_threshold, after_cooldown, fresh_threshold, fresh_cooldown,
    hkept.recent_eq]

theorem recordFailure_congr {b' : Breaker} (hthreshold : b.threshold = b'.threshold)
    (hcooldown : b.cooldown = b'.cooldown) (hsame : b.failures key = b'.failures key) :
    (b.recordFailure key now).2 = (b'.recordFailure key now).2 := by
  simp [recordFailure, hthreshold, hcooldown, hsame]

end runs

/-! ## Pruning -/

/-- `record_failure` if no failure were ever dropped. -/
def recordKeeping (b : Breaker) (key : String) (now : Seconds) : Breaker × Bool :=
  ({ b with failures := Function.update b.failures key (some (b.held key ++ [now])) },
    b.threshold ≤ (recent b.cooldown now (b.held key) ++ [now]).length)

def stepKeeping (b : Breaker) : Op → Breaker
  | .recordFailure key now => (b.recordKeeping key now).1
  | .reset key => b.reset key

/-- What is kept after a series of calls. -/
def afterKeeping (b : Breaker) (ops : List Op) : Breaker := ops.foldl stepKeeping b

section pruning

variable {b : Breaker} {key : String} {now cooldown : Seconds} {threshold : Int} {op : Op}
  {ops : List Op}

theorem afterKeeping_concat : afterKeeping b (ops ++ [op]) = (afterKeeping b ops).stepKeeping op := by
  rw [afterKeeping, List.foldl_append]
  rfl

theorem afterKeeping_terms : (afterKeeping b ops).threshold = b.threshold ∧
    (afterKeeping b ops).cooldown = b.cooldown := by
  induction ops using List.reverseRecOn with
  | nil => exact ⟨rfl, rfl⟩
  | append_singleton ops op ih =>
    rw [afterKeeping_concat]
    cases op <;> exact ih

theorem stepKeeping_other (hkey : op.key ≠ key) :
    (b.stepKeeping op).failures key = b.failures key := by
  cases op with
  | recordFailure key' now => exact Function.update_of_ne (Ne.symm hkey) _ _
  | reset key' => exact Function.update_of_ne (Ne.symm hkey) _ _

/-- Without pruning the failures since the last reset are what is held. -/
theorem afterKeeping_held :
    (afterKeeping (fresh threshold cooldown) ops).held key = sinceReset key ops := by
  induction ops using List.reverseRecOn with
  | nil => rfl
  | append_singleton ops op ih =>
    rw [afterKeeping_concat]
    by_cases hkey : op.key = key
    · subst hkey
      cases op with
      | recordFailure key t =>
        rw [Op.key] at ih ⊢
        rw [sinceReset_recordFailure, ← ih]
        simp [stepKeeping, recordKeeping, held]
      | reset key =>
        rw [Op.key, sinceReset_reset]
        exact reset_held
    · rw [held, stepKeeping_other hkey, sinceReset_other hkey, ← ih, held]

theorem keeping_opens_iff :
    ((afterKeeping (fresh threshold cooldown) ops).recordKeeping key now).2 = true ↔
      threshold ≤ (recent cooldown now (sinceReset key ops)).length + 1 := by
  obtain ⟨hthreshold, hcooldown⟩ := @afterKeeping_terms (fresh threshold cooldown) ops
  rw [recordKeeping, decide_eq_true_iff, hthreshold, hcooldown, fresh_threshold, fresh_cooldown,
    afterKeeping_held, List.length_append, List.length_singleton, Nat.cast_add, Nat.cast_one]

end pruning

/-! ## The breaker of the coordinator -/

/-- A call on the breaker of the coordinator. -/
def coordinatorStep (b : CircuitBreaker) : Op → CircuitBreaker
  | .recordFailure key now => (b.recordFailure key now).1
  | .reset key => b.reset key

section coordinator

variable {b : Breaker} {key : String} {now : Seconds} {op : Op} {ops : List Op}

theorem held_update (b : Breaker) (key : String) (log : Option (List Seconds)) :
    held { b with failures := Function.update b.failures key log } =
      Function.update b.held key (log.getD []) := by
  funext key'
  by_cases hkey : key' = key
  · subst hkey
    simp [held]
  · simp [held, Function.update_of_ne hkey]

/-- With the defaults it is the coordinator's breaker. -/
theorem recordFailure_default (hthreshold : b.threshold = CircuitBreaker.threshold)
    (hcooldown : b.cooldown = CircuitBreaker.cooldown) :
    ((b.recordFailure key now).1.held, (b.recordFailure key now).2) =
      CircuitBreaker.recordFailure b.held key now := by
  rw [recordFailure, held_update, hcooldown, hthreshold, CircuitBreaker.recordFailure]
  simp [held, CircuitBreaker.threshold]
  omega

theorem held_after_default : (after {} ops).held = ops.foldl coordinatorStep fun _ => [] := by
  induction ops using List.reverseRecOn with
  | nil => rfl
  | append_singleton ops op ih =>
    rw [after_concat, List.foldl_append, ← ih, List.foldl_cons, List.foldl_nil]
    cases op with
    | recordFailure key now =>
      exact congrArg Prod.fst (recordFailure_default after_threshold after_cooldown)
    | reset key => exact held_update _ key none

/-- Within a run a failure opens the breaker just if it is at least the fifth of its tool within
half a minute and since the tool last succeeded. -/
theorem coordinator_opens_iff (h : (readings (ops ++ [.recordFailure key now])).Pairwise (· ≤ ·)) :
    (CircuitBreaker.recordFailure (ops.foldl coordinatorStep fun _ => []) key now).2 = true ↔
      5 ≤ (recent 30 now (sinceReset key ops)).length + 1 := by
  rw [← held_after_default, ← recordFailure_default after_threshold after_cooldown]
  have hopens := @opens_iff key now 30 5 ops h
  exact hopens.trans (by omega)

end coordinator

/-- **The breaker is a sliding window.**  A failure opens it just if there are at least `threshold`
failures of its key since the last reset, itself included, that are younger than the cooldown;
neither the calls for other keys nor what is pruned make a difference. -/
theorem opens_iff_window {threshold : Int} {cooldown now : Seconds} {key : String} {ops : List Op}
    (h : (readings (ops ++ [.recordFailure key now])).Pairwise (· ≤ ·)) :
    (((after (fresh threshold cooldown) ops).recordFailure key now).2 = true ↔
      threshold ≤ (recent cooldown now (sinceReset key ops)).length + 1) ∧
    (0 < cooldown → (((after (fresh threshold cooldown) ops).recordFailure key now).2 = true ↔
      threshold ≤
        (recent cooldown now (sinceReset key (ops ++ [.recordFailure key now]))).length)) ∧
    ((after (fresh threshold cooldown) (ops.filter fun op => op.key = key)).recordFailure key now).2 =
      ((after (fresh threshold cooldown) ops).recordFailure key now).2 ∧
    ((afterKeeping (fresh threshold cooldown) ops).recordKeeping key now).2 =
      ((after (fresh threshold cooldown) ops).recordFailure key now).2 := by
  refine ⟨opens_iff h, ?_, ?_, ?_⟩
  · intro hcooldown
    have hself : recent cooldown now [now] = [now] :=
      List.filter_cons_of_pos (by simpa using hcooldown)
    rw [opens_iff h, sinceReset_recordFailure, recent_append, hself, List.length_append,
      List.length_singleton, Nat.cast_add, Nat.cast_one]
  · exact recordFailure_congr (by simp) (by simp) after_filter
  · rw [Bool.eq_iff_iff, keeping_opens_iff, opens_iff h]

/-- A second failure within half a minute, after a reset and an older failure of another key. -/
theorem opens_iff_window_two : ((after (fresh 2 30) [.recordFailure "fetch" 0, .reset "fetch",
    .recordFailure "fetch" 1, .recordFailure "post" 10, .recordFailure "fetch" 35]).recordFailure
      "fetch" 40).2 = true := by
  refine (opens_iff_window ?_).1.2 ?_
  · decide
  · decide +kernel

end Breaker

end Observatory
