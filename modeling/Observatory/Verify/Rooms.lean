import Observatory.Model.Rooms
import Mathlib.Algebra.BigOperators.Pi
import Mathlib.Algebra.Order.Monoid.Prod
import Mathlib.Data.Rat.Cast.Order

/-!
# Reading a room carefully

Whatever the server answers, `read_room` validates the host before each of its requests, asks for
one and the same page, and stops at the first answer that is no 429 (`Careful`).  It makes at most
one request more than there are retries, and never pauses after the last one, so the time it can
spend waiting is bounded before it starts (`readRoom_careful`).
-/

namespace Observatory.Rooms

open Effect Effect.Prog
open Canonical (Str)

/-! ## The pause -/

section pause

variable {uni : Evaluator.Unicode} {float : Float} {r : Response}

theorem seconds_bounds {s : Str} {v : ℚ} (h : seconds float s = some v) : 0 < v ∧ v < 3600 := by
  unfold seconds at h
  split at h
  · split_ifs at h with hv
    cases h
    exact hv
  · cases h

/-- **The pause is positive** and less than an hour, whatever the server sends. -/
theorem parseRetryAfter_bounds :
    0 < parseRetryAfter uni float r ∧ parseRetryAfter uni float r < 3600 := by
  unfold parseRetryAfter
  simp only
  generalize hbody : (numberIn uni r.text).bind (seconds float) = inBody
  generalize hheader : (if r.retryAfter = [] then none else
    seconds float (Outbox.strip uni.isSpace r.retryAfter)) = inHeader
  cases inBody with
  | some v =>
    obtain ⟨s, -, hs⟩ := Option.bind_eq_some_iff.1 hbody
    exact seconds_bounds hs
  | none =>
    cases inHeader with
    | some v =>
      split_ifs at hheader
      exact seconds_bounds hheader
    | none => norm_num

end pause

/-! ## The discipline -/

/-- What one call has seen. -/
structure Seen where
  /-- the host has been validated since the last request -/
  validated : Bool := false
  /-- the last answer -/
  answer : Option Response := none

/-- Nothing has been answered but that it was too much. -/
def Seen.Waiting (g : Seen) : Prop := ∀ r, g.answer = some r → r.statusCode = 429

/-- One page is asked for, from a host that has just been validated, until it arrives; the cursor
moves with what has arrived. -/
def Careful (env : Env) (room : String) (since wait : Int) : Protocol Net Seen where
  allows g
    | .validateBaseHost => g.Waiting
    | .get room' since' wait' =>
      room' = room ∧ since' = since ∧ wait' = wait ∧ g.validated = true ∧ g.Waiting
    | .uniform _ => g.Waiting
    | .sleep s => 0 < s ∧ g.Waiting
    | .advanceCursor room' data =>
      room' = room ∧ ∃ r, g.answer = some r ∧ accepted env room since r = .ok data
  next g
    | .validateBaseHost, .ok _ => { g with validated := true }
    | .get .., .ok r => ⟨false, some r⟩
    | .get .., .error _ => ⟨false, none⟩
    | _, _ => g

section careful

variable {env : Env} {room : String} {since wait : Int} {session : Bool} {attempt : ℕ} {g : Seen}

/-- What a call returns is what has arrived. -/
def Arrived (env : Env) (room : String) (since : Int) : Except PyExc Dict → Seen → Prop
  | .ok data, g => ∃ r, g.answer = some r ∧ accepted env room since r = .ok data
  | .error _, _ => True

theorem round_careful (hg : g.Waiting) :
    (round env room since wait session attempt).wp (Careful env room since wait)
      (roundPost (fun _ _ g => g.Waiting) (Arrived env room since) attempt) g := by
  refine wp_bind.2 (wp_call.2 ⟨hg, fun _ => ?_, fun _ => trivial⟩)
  refine wp_bind.2 (wp_attempt.2 (wp_call.2 ⟨⟨rfl, rfl, rfl, rfl, hg⟩, fun r => ?_, fun x => ?_⟩))
  · -- an answer
    have hwait : r.statusCode = 429 → (⟨false, some r⟩ : Seen).Waiting := by
      intro hr r' hr'
      cases hr'
      exact hr
    simp only [bindPost_ok]
    split_ifs with hr hlast
    · exact wp_bind.2 (wp_call.2 ⟨hwait hr, fun _ => trivial, fun _ => trivial⟩)
    · refine wp_bind.2 (wp_call.2 ⟨hwait hr, fun jitter => ?_, fun _ => trivial⟩)
      have hpos : 0 < min (parseRetryAfter env.uni env.float r + jitter.1) 30 :=
        lt_min (add_pos_of_pos_of_nonneg parseRetryAfter_bounds.1 jitter.2.1) (by norm_num)
      exact wp_bind.2 (wp_call.2 ⟨⟨hpos, hwait hr⟩, fun _ => hwait hr, fun _ => trivial⟩)
    all_goals
      refine wp_bind.2 ?_
      rw [wp_ofExcept]
      cases hdata : accepted env room since r with
      | error x => trivial
      | ok data => ?_
      have harrived : Arrived env room since (.ok data) ⟨false, some r⟩ := ⟨r, rfl, hdata⟩
    · exact wp_bind.2 (wp_swallow.2 (wp_call.2
        ⟨⟨rfl, r, rfl, hdata⟩, fun _ => harrived, fun _ => harrived⟩))
    · exact harrived
  · -- no answer
    have hnone : (⟨false, none⟩ : Seen).Waiting := by
      intro r hr
      cases hr
    simp only [bindPost_ok]
    split_ifs with hlast
    · trivial
    · refine wp_bind.2 (wp_call.2 ⟨hnone, fun jitter => ?_, fun _ => trivial⟩)
      have hpos : (0 : ℚ) < 1 / 5 * 2 ^ attempt + jitter.1 :=
        add_pos_of_pos_of_nonneg (by positivity) jitter.2.1
      exact wp_bind.2 (wp_call.2 ⟨⟨hpos, hnone⟩, fun _ => hnone, fun _ => trivial⟩)

theorem readRoom_wp : (readRoom env room since wait session).wp
    (Careful env room since (clampWait wait)) (Arrived env room since) {} := by
  unfold readRoom
  split_ifs with hroom
  · trivial
  · refine wp_rounds (I := fun _ _ g => g.Waiting) (fun j b g _ hg => round_careful hg)
      (fun b g _ => trivial) ?_
    intro r hr
    cases hr

/-! ## What a call costs -/

/-- A request counts one, a pause its seconds. -/
def spent (e : Performed Net) : ℕ × ℚ :=
  match e.op with
  | .get .. => (1, 0)
  | .sleep s => (0, s)
  | _ => 0

/-- The longest pause after an attempt; there is none after the last one. -/
def longest (env : Env) (attempt : ℕ) : ℚ :=
  if attempt = env.maxRetries then 0 else max 30 (1 / 5 * 2 ^ attempt + 3 / 20)

theorem longest_nonneg : 0 ≤ longest env attempt := by
  unfold longest
  split_ifs
  · exact le_rfl
  · exact le_max_of_le_left (by norm_num)

theorem le_longest {s : ℚ} (hlast : ¬(attempt : Int) = env.maxRetries)
    (hs : s ≤ 30 ∨ s ≤ 1 / 5 * 2 ^ attempt + 3 / 20) : s ≤ longest env attempt := by
  rw [longest, if_neg hlast]
  exact le_max_iff.2 hs

theorem round_spent : (round env room since wait session attempt).wp (spending spent)
    (fun _ m => m ≤ (1, longest env attempt)) 0 := by
  have hzero : (0 : ℕ × ℚ) ≤ (1, longest env attempt) := ⟨Nat.zero_le 1, longest_nonneg⟩
  have hone : ((1, 0) : ℕ × ℚ) ≤ (1, longest env attempt) := ⟨le_rfl, longest_nonneg⟩
  have hpause : ∀ s : ℚ, s ≤ longest env attempt →
      ((1, 0) + (0, s) : ℕ × ℚ) ≤ (1, longest env attempt) := by
    intro s hs
    rw [Prod.mk_add_mk, zero_add]
    exact ⟨le_rfl, hs⟩
  refine wp_bind.2 (wp_call.2 ⟨trivial, fun _ => ?_, fun _ => ?_⟩)
  swap
  · simpa only [bindPost_error, next_spending, spent, add_zero] using hzero
  refine wp_bind.2 (wp_attempt.2 (wp_call.2 ⟨trivial, fun r => ?_, fun x => ?_⟩))
  · simp only [bindPost_ok, next_spending, spent, add_zero, zero_add]
    split_ifs with hr hlast
    · exact wp_bind.2 (wp_call.2 ⟨trivial, fun _ => by simpa [spent] using hone,
        fun _ => by simpa [spent] using hone⟩)
    · refine wp_bind.2 (wp_call.2 ⟨trivial, fun jitter => ?_, fun _ => ?_⟩)
      swap
      · simpa [spent] using hone
      have hs := le_longest hlast
        (.inl (min_le_right (parseRetryAfter env.uni env.float r + jitter.1) 30))
      refine wp_bind.2 (wp_call.2 ⟨trivial, fun _ => ?_, fun _ => ?_⟩)
      · simpa [spent] using hpause _ hs
      · simpa [spent] using hpause _ hs
    all_goals
      refine wp_bind.2 ?_
      rw [wp_ofExcept]
      cases accepted env room since r with
      | error x => exact hone
      | ok data => ?_
    · exact wp_bind.2 (wp_swallow.2 (wp_call.2 ⟨trivial, fun _ => by simpa [spent] using hone,
        fun _ => by simpa [spent] using hone⟩))
    · exact hone
  · simp only [bindPost_ok, next_spending, spent, add_zero, zero_add]
    split_ifs with hlast
    · exact hone
    · refine wp_bind.2 (wp_call.2 ⟨trivial, fun jitter => ?_, fun _ => ?_⟩)
      swap
      · simpa [spent] using hone
      have hs := le_longest hlast (.inr (add_le_add_right jitter.2.2 (1 / 5 * 2 ^ attempt)))
      refine wp_bind.2 (wp_call.2 ⟨trivial, fun _ => ?_, fun _ => ?_⟩)
      · simpa [spent] using hpause _ hs
      · simpa [spent] using hpause _ hs

theorem sum_longest : ∑ j ∈ Finset.range (env.maxRetries + 1).toNat, longest env j =
    ∑ j ∈ Finset.range env.maxRetries.toNat, max 30 (1 / 5 * 2 ^ j + 3 / 20) := by
  have hrange : ∀ {n : ℕ}, n ≤ env.maxRetries.toNat → ∑ j ∈ Finset.range n, longest env j =
      ∑ j ∈ Finset.range n, max 30 (1 / 5 * 2 ^ j + 3 / 20) := by
    intro n hn
    refine Finset.sum_congr rfl fun j hj => ?_
    have hj := Finset.mem_range.1 hj
    rw [longest, if_neg (by omega)]
  by_cases hneg : env.maxRetries < 0
  · have hnone : (env.maxRetries + 1).toNat = env.maxRetries.toNat := by omega
    rw [hnone, hrange le_rfl]
  · have hlast : (env.maxRetries + 1).toNat = env.maxRetries.toNat + 1 := by omega
    have hcast : ((env.maxRetries.toNat : ℕ) : Int) = env.maxRetries := by omega
    rw [hlast, Finset.sum_range_succ, hrange le_rfl, longest, if_pos hcast, add_zero]

/-- The cost of the whole loop. -/
theorem readRoom_spent {t : List (Performed Net)} {r : Except PyExc Dict}
    (h : Exec (readRoom env room since wait session) t r) :
    cost spent t ≤ ((env.maxRetries + 1).toNat,
      ∑ j ∈ Finset.range env.maxRetries.toNat, max 30 (1 / 5 * 2 ^ j + 3 / 20)) := by
  unfold readRoom at h
  split_ifs at h
  · obtain ⟨rfl, -⟩ := exec_raise.1 h
    have hpauses : (0 : ℚ) ≤
        ∑ j ∈ Finset.range env.maxRetries.toNat, max 30 (1 / 5 * 2 ^ j + 3 / 20) :=
      Finset.sum_nonneg fun j _ => le_max_of_le_left (by norm_num)
    exact ⟨Nat.zero_le _, hpauses⟩
  · have hcost := (exec_rounds.1 h).cost_le (f := spent) (B := fun j => (1, longest env j))
      (fun j b t r hr => cost_le_of_wp hr round_spent)
      (fun b t r hr => by rw [(exec_raise.1 hr).1, cost_nil])
      (fun j => ⟨Nat.zero_le 1, longest_nonneg⟩)
    rw [Nat.zero_add, ← Finset.range_eq_Ico] at hcost
    refine ⟨hcost.1.trans_eq ?_, hcost.2.trans_eq ?_⟩
    · rw [Prod.fst_sum, Finset.sum_const, Finset.card_range, smul_eq_mul, mul_one]
    · rw [Prod.snd_sum, sum_longest]

/-- **Reading a room.**  Only a room of a valid name is asked for; each request follows a validation
of the host and asks for the same page, nothing is asked after an answer that is no 429, and what is
returned is that answer.  There is at most one request more than retries, and the pauses together
are bounded whatever the server answers. -/
theorem readRoom_careful {t : List (Performed Net)} {r : Except PyExc Dict}
    (h : Exec (readRoom env room since wait session) t r) :
    (t ≠ [] → AgentScorer.matchesRoom room = true) ∧
      (Careful env room since (clampWait wait)).Admits {} t ∧
      Arrived env room since r ((Careful env room since (clampWait wait)).after {} t) ∧
      (cost spent t).1 ≤ (env.maxRetries + 1).toNat ∧
      (cost spent t).2 ≤
        ∑ j ∈ Finset.range env.maxRetries.toNat, max 30 (1 / 5 * 2 ^ j + 3 / 20) := by
  obtain ⟨hadmits, harrived⟩ := h.sound readRoom_wp
  obtain ⟨hrequests, hpauses⟩ := readRoom_spent h
  refine ⟨fun ht => ?_, hadmits, harrived, hrequests, hpauses⟩
  by_contra hroom
  unfold readRoom at h
  rw [if_pos (by simpa using hroom)] at h
  exact ht (exec_raise.1 h).1

end careful

/-! ### A server that refuses -/

def plainUnicode : Evaluator.Unicode where
  isDecimal c := 0x30 ≤ c.val && c.val ≤ 0x39
  isSpace c := c.val = 0x20
  ignoreCase c l := c = l

def plainEnv : Env where
  uni := plainUnicode
  float _ := none
  textOf _ := ""

/-- Every request is refused, and the random numbers are as small as they can be. -/
def refusing : (o : Op) → Net.Result o
  | .validateBaseHost => .ok ()
  | .get .. => .ok { statusCode := 429 }
  | .uniform hi => if h : 0 ≤ hi then .ok ⟨0, le_rfl, h⟩ else .error ⟨"ValueError", ""⟩
  | .sleep _ => .ok ()
  | .advanceCursor .. => .ok ()

/-- Three requests and two pauses of a second. -/
theorem readRoom_careful_refused :
    let t := ((readRoom plainEnv "lobby" 7 99 true).play refusing).1
    (cost spent t).1 = 3 ∧ (cost spent t).2 = 2 ∧
      (Careful plainEnv "lobby" 7 10).Admits {} t ∧ (cost spent t).1 ≤ 3 := by
  have hcareful := readRoom_careful (exec_play refusing (readRoom plainEnv "lobby" 7 99 true))
  exact ⟨by decide +kernel, by decide +kernel, hcareful.2.1, hcareful.2.2.2.1⟩

end Observatory.Rooms
