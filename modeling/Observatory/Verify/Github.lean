import Mathlib.Algebra.BigOperators.Pi
import Mathlib.Algebra.Order.Monoid.Prod
import Mathlib.Data.Rat.Cast.Order
import Observatory.Model.Github

/-!
# What a server can make the GitHub reader do

However the server answers, `_get_json_stream` asks for one URL of the API host, a bounded number of
times, reads a bounded number of bytes of each answer and pauses for a bounded time.  What it
returns is the JSON of a whole body of the last answer, which passed all checks (`Careful`,
`repoActivity_careful`).
-/

namespace Observatory.Github

open Effect Effect.Prog

/-! ## The discipline -/

/-- What one call has seen. -/
structure Seen where
  validated : Bool := false
  /-- how many requests there have been -/
  requests : ℕ := 0
  /-- the last answer -/
  answer : Option Response := none
  /-- what has been read of its body -/
  body : List UInt8 := []
  /-- nothing of it is left -/
  ended : Bool := false

/-- The host is validated first; then the URL is asked for, as often as there may be retries, and
only the body of an answer that passes the checks is read, as far as the limit.  No pause follows
the last request. -/
def Careful (env : Env) (allowed : Option Request) : Protocol Net Seen where
  allows g
    | .validateHost host => host = apiHost ∧ g.requests = 0
    | .stream req => allowed = some req ∧ g.validated = true ∧ g.requests < env.maxRetries + 1
    | .chunk => (∃ resp, g.answer = some resp ∧ checkHead env resp = .ok ()) ∧
        g.body.length ≤ env.maxBytes ∧ g.ended = false
    | .sleep delay => delay ≠ .inf ∧ g.requests < env.maxRetries + 1
  next g
    | .validateHost _, .ok _ => { g with validated := true }
    | .stream _, .ok resp => ⟨g.validated, g.requests + 1, some resp, [], false⟩
    | .stream _, .error _ => { g with requests := g.requests + 1, answer := none }
    | .chunk, .ok (some b) => { g with body := g.body ++ b.1 }
    | .chunk, .ok none => { g with ended := true }
    | _, _ => g

section careful

variable {env : Env} {req : Request} {attempt : ℕ} {g : Seen}

/-- The JSON is that of the whole body of the last answer; it asks for another try only if there
was none left. -/
structure Arrived (env : Env) (data : Json) (g : Seen) (resp : Response) : Prop where
  answer : g.answer = some resp
  head : checkHead env resp = .ok ()
  last : resp.throttled = true → g.requests = env.maxRetries + 1
  ended : g.ended = true
  size : g.body.length ≤ env.maxBytes
  parsed : parse env g.body = .ok data

/-- What a call ends with. -/
def Returns (env : Env) : Except LibError Json → Seen → Prop
  | .ok data, g => ∃ resp, Arrived env data g resp
  | .error _, _ => True

/-- An answer whose body is being read. -/
def reading (n : ℕ) (resp : Response) (body : List UInt8) : Seen := ⟨true, n, some resp, body, false⟩

variable {n : ℕ} {resp : Response}

theorem readBody_careful {Q : Except LibError (List UInt8) → Seen → Prop} {allowed : Option Request}
    (hhead : checkHead env resp = .ok ())
    (hok : ∀ body, body.length ≤ env.maxBytes → Q (.ok body) ⟨true, n, some resp, body, true⟩)
    (herr : ∀ x body, Q (.error x) (reading n resp body)) :
    (readBody env).wp (Careful env allowed) Q (reading n resp []) := by
  refine wp_bind.2 (wp_rounds (I := fun _ chunks g => g = reading n resp (chunks.flatMap (·.1)) ∧
    (chunks.flatMap (·.1)).length ≤ env.maxBytes) ?_ ?_ ⟨rfl, Nat.zero_le _⟩)
  · rintro j chunks g - ⟨rfl, hsize⟩
    refine wp_bind.2 (wp_call.2 ⟨⟨⟨resp, rfl, hhead⟩, hsize, rfl⟩, fun b => ?_, fun x => herr x _⟩)
    cases b with
    | none => exact hok _ hsize
    | some b =>
      have hmore : (chunks ++ [b]).flatMap (·.1) = chunks.flatMap (·.1) ++ b.1 := by
        rw [List.flatMap_append, List.flatMap_singleton]
      simp only [bindPost_ok]
      split_ifs with hlarge
      · exact herr _ _
      · refine ⟨?_, Nat.le_of_not_lt hlarge⟩
        rw [hmore]
        rfl
  · rintro chunks g ⟨rfl, -⟩
    exact herr _ _

/-- What one request ends with. -/
def Answered (env : Env) (attempt : ℕ) : Except LibError (Option Json) → Seen → Prop
  | .ok (some data), g => ∃ resp, Arrived env data g resp
  | .ok none, g => g.validated = true ∧ g.requests = attempt + 1 ∧ attempt < env.maxRetries
  | .error _, g => g.validated = true ∧ g.requests = attempt + 1

theorem request_careful (hattempt : attempt < env.maxRetries + 1) (hvalid : g.validated = true)
    (hcount : g.requests = attempt) :
    (request env req attempt).wp (Careful env (some req)) (Answered env attempt) g := by
  have hallowed : (Careful env (some req)).allows g (.stream req) := by
    refine ⟨rfl, hvalid, ?_⟩
    rwa [hcount]
  obtain ⟨v, m, a, body, ended⟩ := g
  obtain rfl : v = true := hvalid
  obtain rfl : m = attempt := hcount
  refine wp_bind.2 (wp_call.2 ⟨hallowed, fun resp => ?_, fun x => ⟨rfl, rfl⟩⟩)
  simp only [bindPost_ok]
  split_ifs with hagain
  · -- another try is asked for
    have hdelay : resp.delay env ≠ .inf := by
      unfold Response.delay
      cases (env.float (resp.retryAfter.getD "2")).getD (.num 2) <;> simp [Float.atMost30]
    refine wp_bind.2 (wp_call.2 ⟨⟨hdelay, ?_⟩, fun _ => ⟨rfl, rfl, hagain.2⟩, fun x => ⟨rfl, rfl⟩⟩)
    have hnext : ((m + 1 : ℕ) : Int) = m + 1 := Int.natCast_succ m
    exact hnext ▸ Int.add_lt_add_right hagain.2 1
  · refine wp_bind.2 ?_
    rw [wp_ofExcept]
    cases hhead : checkHead env resp with
    | error x => exact ⟨rfl, rfl⟩
    | ok _ =>
      refine wp_bind.2 (readBody_careful (n := m + 1) hhead (fun body hsize => ?_)
        fun x body => ⟨rfl, rfl⟩)
      refine wp_bind.2 ?_
      rw [wp_ofExcept]
      cases hparsed : parse env body with
      | error x => exact ⟨rfl, rfl⟩
      | ok data =>
        refine ⟨resp, rfl, hhead, fun hthrottled => ?_, rfl, hsize, hparsed⟩
        have hlast : ¬(m : Int) < env.maxRetries := fun h => hagain ⟨hthrottled, h⟩
        have hnext : ((m + 1 : ℕ) : Int) = m + 1 := Int.natCast_succ m
        exact hnext.trans (by omega)

theorem round_careful {last : Option LibError} (hattempt : attempt < env.maxRetries + 1)
    (hvalid : g.validated = true) (hcount : g.requests = attempt) :
    (round env req attempt last).wp (Careful env (some req))
      (roundPost (fun j _ g => g.validated = true ∧ g.requests = j) (Returns env) attempt) g := by
  refine wp_bind.2 (wp_attempt.2 (wp_mono ?_ (request_careful hattempt hvalid hcount)))
  rintro (x | _ | data) g hanswered
  · simp only [bindPost_ok]
    split_ifs with hagain
    · refine wp_bind.2 (wp_call.2 ⟨⟨(fun h => by cases h), ?_⟩, fun _ => hanswered, fun _ => trivial⟩)
      have hnext : (g.requests : Int) = attempt + 1 :=
        (congrArg Nat.cast hanswered.2).trans (Int.natCast_succ attempt)
      exact hnext ▸ Int.add_lt_add_right hagain.2 1
    · trivial
  · exact ⟨hanswered.1, hanswered.2.1⟩
  · exact hanswered

theorem getJsonStream_careful (hfirst : g.requests = 0) :
    (getJsonStream env req).wp (Careful env (some req)) (Returns env) g := by
  refine wp_bind.2 (wp_call.2 ⟨⟨rfl, hfirst⟩, fun _ => ?_, fun _ => trivial⟩)
  refine wp_rounds (I := fun j _ g => g.validated = true ∧ g.requests = j) ?_ ?_ ⟨rfl, hfirst⟩
  · rintro j last g hj ⟨hvalid, hcount⟩
    exact round_careful (by omega) hvalid hcount
  · exact fun last g _ => trivial

/-! ### The readers -/

/-- What a reader returns was made of what has arrived. -/
def Made {α : Type} (env : Env) (make : Json → Except LibError α) : Except LibError α → Seen → Prop
  | .ok a, g => ∃ data resp, Arrived env data g resp ∧ make data = .ok a
  | .error _, _ => True

theorem reader_wp {α : Type} {request : Option Request} {refusal : LibError}
    {make : Json → Except LibError α} :
    (reader env request refusal make).wp (Careful env request) (Made env make) {} := by
  refine wp_bind.2 (wp_call.2 ⟨⟨rfl, rfl⟩, fun _ => ?_, fun _ => trivial⟩)
  cases request with
  | none => trivial
  | some req =>
    refine wp_bind.2 (wp_mono ?_ (getJsonStream_careful rfl))
    rintro (x | data) g harrived
    · trivial
    · obtain ⟨resp, harrived⟩ := harrived
      simp only [bindPost_ok, wp_ofExcept]
      cases hmade : make data with
      | error x => trivial
      | ok a => exact ⟨data, resp, harrived, hmade⟩

end careful

/-! ## What a call costs -/

/-- The pause that a delay makes. -/
def Float.seconds : Float → ℚ
  | num q => max q 0
  | _ => 0

/-- A request counts one, a piece of a body its bytes, a pause its seconds. -/
def spent : Performed Net → ℕ × ℕ × ℚ
  | ⟨.stream _, _⟩ => (1, 0, 0)
  | ⟨.chunk, .ok (some b)⟩ => (0, b.1.length, 0)
  | ⟨.sleep delay, .ok _⟩ => (0, 0, delay.seconds)
  | _ => 0

section cost

variable {env : Env} {req : Request} {attempt : ℕ}

/-- The longest pause after an attempt; there is none after the last one. -/
def longest (env : Env) (attempt : ℕ) : ℚ :=
  if attempt < env.maxRetries then max 30 (1 / 2 * 2 ^ attempt) else 0

/-- What one attempt costs at most. -/
def most (env : Env) (attempt : ℕ) : ℕ × ℕ × ℚ := (1, env.maxBytes + 8192, longest env attempt)

theorem longest_nonneg : 0 ≤ longest env attempt := by
  unfold longest
  split_ifs
  · exact le_max_of_le_left (by norm_num)
  · exact le_rfl

theorem seconds_atMost30 (x : Float) : x.atMost30.seconds ≤ 30 := by
  cases x with
  | num q => exact max_le (min_le_right q 30) (by norm_num)
  | inf => norm_num [Float.atMost30, Float.seconds]
  | negInf => norm_num [Float.atMost30, Float.seconds]
  | nan => norm_num [Float.atMost30, Float.seconds]

/-- A request with what has been read of its answer, and no pause yet. -/
def asked (bytes : ℕ) : ℕ × ℕ × ℚ := (1, bytes, 0)

theorem asked_le_most {bytes : ℕ} (h : bytes ≤ env.maxBytes + 8192) :
    asked bytes ≤ most env attempt := ⟨le_rfl, h, longest_nonneg⟩

theorem readBody_spent {Q : Except LibError (List UInt8) → ℕ × ℕ × ℚ → Prop}
    (hQ : ∀ r bytes, bytes ≤ env.maxBytes + 8192 → Q r (asked bytes)) :
    (readBody env).wp (spending spent) Q (asked 0) := by
  refine wp_bind.2 (wp_rounds (I := fun _ chunks m => m = asked (chunks.flatMap (·.1)).length ∧
    (chunks.flatMap (·.1)).length ≤ env.maxBytes) ?_ ?_ ⟨rfl, Nat.zero_le _⟩)
  · rintro j chunks m - ⟨rfl, hsize⟩
    have hsame : ∀ r, Q r (asked (chunks.flatMap (·.1)).length) := fun r => hQ r _ (by omega)
    refine wp_bind.2 (wp_call.2 ⟨trivial, fun b => ?_, fun x => ?_⟩)
    · cases b with
      | none =>
        simp only [bindPost_ok, next_spending, spent, add_zero]
        exact hsame _
      | some b =>
        have hnext : (spending spent).next (asked (chunks.flatMap (·.1)).length) .chunk
            (.ok (some b)) = asked ((chunks ++ [b]).flatMap (·.1)).length := by
          rw [List.flatMap_append, List.flatMap_singleton, List.length_append]
          exact congrArg₂ Prod.mk rfl (congrArg₂ Prod.mk rfl (add_zero 0))
        simp only [bindPost_ok, hnext]
        split_ifs with hlarge
        · refine hQ _ _ ?_
          rw [List.flatMap_append, List.flatMap_singleton, List.length_append]
          exact Nat.add_le_add hsize b.2.2
        · exact ⟨rfl, Nat.le_of_not_lt hlarge⟩
    · simp only [bindPost_error, next_spending, spent, add_zero]
      exact hsame _
  · rintro chunks m ⟨rfl, hsize⟩
    exact hQ _ _ (by omega)

/-- What one request costs: a pause is made only if another try is to come. -/
def Paid (env : Env) (attempt : ℕ) : Except LibError (Option Json) → ℕ × ℕ × ℚ → Prop
  | .ok _, m => m ≤ most env attempt
  | .error _, m => ∃ bytes ≤ env.maxBytes + 8192, m = asked bytes

theorem asked_paused {bytes : ℕ} {s : ℚ} (h : bytes ≤ env.maxBytes + 8192)
    (hs : s ≤ longest env attempt) : asked bytes + (0, 0, s) ≤ most env attempt := by
  refine ⟨le_rfl, h, ?_⟩
  rwa [asked, Prod.snd_add, Prod.snd_add, zero_add]

theorem request_spent : (request env req attempt).wp (spending spent) (Paid env attempt) 0 := by
  have hstart : (0 : ℕ × ℕ × ℚ) + (1, 0, 0) = asked 0 := zero_add _
  refine wp_bind.2 (wp_call.2 ⟨trivial, fun resp => ?_, fun x => ?_⟩)
  swap
  · simp only [bindPost_error, next_spending, spent, hstart]
    exact ⟨0, Nat.zero_le _, rfl⟩
  simp only [bindPost_ok, next_spending, spent, hstart]
  split_ifs with hagain
  · refine wp_bind.2 (wp_call.2 ⟨trivial, fun _ => ?_, fun x => ?_⟩)
    · refine asked_paused (Nat.zero_le _) ?_
      rw [longest, if_pos hagain.2]
      exact le_max_of_le_left (seconds_atMost30 _)
    · simp only [bindPost_error, next_spending, spent, add_zero]
      exact ⟨0, Nat.zero_le _, rfl⟩
  · refine wp_bind.2 ?_
    rw [wp_ofExcept]
    cases checkHead env resp with
    | error x => exact ⟨0, Nat.zero_le _, rfl⟩
    | ok _ =>
      refine wp_bind.2 (readBody_spent fun r bytes hbytes => ?_)
      cases r with
      | error x => exact ⟨bytes, hbytes, rfl⟩
      | ok body =>
        refine wp_bind.2 ?_
        rw [wp_ofExcept]
        cases parse env body with
        | error x => exact ⟨bytes, hbytes, rfl⟩
        | ok data => exact asked_le_most hbytes

theorem round_spent {last : Option LibError} : (round env req attempt last).wp (spending spent)
    (fun _ m => m ≤ most env attempt) 0 := by
  refine wp_bind.2 (wp_attempt.2 (wp_mono ?_ request_spent))
  rintro (x | _ | data) m hpaid
  · obtain ⟨bytes, hbytes, rfl⟩ := hpaid
    simp only [bindPost_ok]
    split_ifs with hagain
    · refine wp_bind.2 (wp_call.2 ⟨trivial, fun _ => ?_, fun x => ?_⟩)
      · refine asked_paused hbytes ?_
        have hpos : (0 : ℚ) ≤ 1 / 2 * 2 ^ attempt :=
          mul_nonneg (by norm_num) (pow_nonneg (by norm_num) attempt)
        rw [longest, if_pos hagain.2, Float.seconds, max_eq_left hpos]
        exact le_max_right _ _
      · simp only [bindPost_error, next_spending, spent, add_zero]
        exact asked_le_most hbytes
    · exact asked_le_most hbytes
  · exact hpaid
  · exact hpaid

theorem sum_longest : ∑ j ∈ Finset.range (env.maxRetries + 1).toNat, longest env j =
    ∑ j ∈ Finset.range env.maxRetries.toNat, max 30 (1 / 2 * 2 ^ j) := by
  have hrange : ∀ {n : ℕ}, n ≤ env.maxRetries.toNat → ∑ j ∈ Finset.range n, longest env j =
      ∑ j ∈ Finset.range n, max 30 (1 / 2 * 2 ^ j) := by
    intro n hn
    refine Finset.sum_congr rfl fun j hj => ?_
    have hj := Finset.mem_range.1 hj
    rw [longest, if_pos (by omega)]
  by_cases hneg : env.maxRetries < 0
  · have hnone : (env.maxRetries + 1).toNat = env.maxRetries.toNat := by omega
    rw [hnone, hrange le_rfl]
  · have hlast : (env.maxRetries + 1).toNat = env.maxRetries.toNat + 1 := by omega
    rw [hlast, Finset.sum_range_succ, hrange le_rfl, longest, if_neg (by omega), add_zero]

/-- All attempts together. -/
theorem sum_most : ∑ j ∈ Finset.range (env.maxRetries + 1).toNat, most env j =
    ((env.maxRetries + 1).toNat, (env.maxRetries + 1).toNat * (env.maxBytes + 8192),
      ∑ j ∈ Finset.range env.maxRetries.toNat, max 30 (1 / 2 * 2 ^ j)) := by
  refine Prod.ext ?_ (Prod.ext ?_ ?_)
  · rw [Prod.fst_sum]
    exact (Finset.sum_const 1).trans (by rw [Finset.card_range, smul_eq_mul, mul_one])
  · rw [Prod.snd_sum, Prod.fst_sum]
    exact (Finset.sum_const _).trans (by rw [Finset.card_range, smul_eq_mul])
  · rw [Prod.snd_sum, Prod.snd_sum]
    exact sum_longest

theorem zero_le_most : 0 ≤ most env attempt := ⟨Nat.zero_le _, Nat.zero_le _, longest_nonneg⟩

theorem spent_validateHost {host : String} {res : Net.Result (.validateHost host)} :
    spent ⟨.validateHost host, res⟩ = 0 := rfl

/-- Validating the host costs nothing. -/
theorem spent_validated {α : Type} {host : String} {f : Unit → Proc α} {t : List (Performed Net)}
    {r : Except LibError α} {bound : ℕ × ℕ × ℚ}
    (h : Exec ((perform (.validateHost host)).bind f) t r) (hbound : 0 ≤ bound)
    (hf : ∀ t, Exec (f ()) t r → cost spent t ≤ bound) : cost spent t ≤ bound := by
  rcases exec_bind.1 h with ⟨_, t₁, t₂, rfl, h₁, h₂⟩ | ⟨x, rfl, h₁⟩
  · rw [exec_call_ok.1 h₁, cost_append, cost_cons, cost_nil, spent_validateHost, zero_add, zero_add]
    exact hf t₂ h₂
  · obtain ⟨a, -, hr⟩ | ⟨y, rfl, -⟩ := exec_call.1 h₁
    · cases hr
    · rwa [cost_cons, cost_nil, spent_validateHost, zero_add]

theorem sum_nonneg : 0 ≤ ∑ j ∈ Finset.range (env.maxRetries + 1).toNat, most env j :=
  Finset.sum_nonneg fun _ _ => zero_le_most

theorem getJsonStream_spent {t : List (Performed Net)} {r : Except LibError Json}
    (h : Exec (getJsonStream env req) t r) :
    cost spent t ≤ ∑ j ∈ Finset.range (env.maxRetries + 1).toNat, most env j := by
  refine spent_validated h sum_nonneg fun t h => ?_
  have hcost := (exec_rounds.1 h).cost_le (f := spent) (B := most env)
    (fun j last t r hr => cost_le_of_wp hr round_spent)
    (fun last t r hr => by rw [(exec_raise.1 hr).1, cost_nil]) fun j => zero_le_most
  rwa [Nat.zero_add, ← Finset.range_eq_Ico] at hcost

end cost

variable {env : Env}

/-- **Reading from GitHub.**  Whatever the server answers, a reader validates the host once, before
its first request, asks for nothing but its one URL, reads no body whose head fails a check, and returns what it makes of the
whole body of the last answer.  How often it asks, how many bytes it reads and how long it pauses
is bounded before it starts. -/
theorem reader_careful {α : Type} {request : Option Request} {refusal : LibError}
    {make : Json → Except LibError α} {t : List (Performed Net)} {r : Except LibError α}
    (h : Exec (reader env request refusal make) t r) :
    (Careful env request).Admits {} t ∧ Made env make r ((Careful env request).after {} t) ∧
      cost spent t ≤
        ((env.maxRetries + 1).toNat, (env.maxRetries + 1).toNat * (env.maxBytes + 8192),
          ∑ j ∈ Finset.range env.maxRetries.toNat, max 30 (1 / 2 * 2 ^ j)) := by
  obtain ⟨hadmits, hmade⟩ := h.sound reader_wp
  refine ⟨hadmits, hmade, ?_⟩
  rw [← sum_most]
  refine spent_validated h sum_nonneg fun t h => ?_
  cases request with
  | none =>
    obtain ⟨rfl, -⟩ := exec_raise.1 h
    exact sum_nonneg
  | some req =>
    rcases exec_bind.1 h with ⟨data, t₁, t₂, rfl, h₁, h₂⟩ | ⟨x, -, h₁⟩
    · obtain ⟨rfl, -⟩ := exec_ofExcept.1 h₂
      rw [List.append_nil]
      exact getJsonStream_spent h₁
    · exact getJsonStream_spent h₁

/-! ### The last request of the hour -/

def plainEnv : Env where
  lib :=
    { lower := id
      urlparse := fun _ => .error ⟨"ValueError", ""⟩
      urljoin := fun _ _ => .error ⟨"ValueError", ""⟩
      int := fun _ => none
      loads := fun _ => .error ⟨"JSONDecodeError", ""⟩
      decode := fun _ => "" }
  float _ := none
  isTransport _ := false

/-- Every answer is good, and says that no further request is free. -/
def lastFree : (o : Op) → Net.Result o
  | .validateHost _ => .ok ()
  | .stream _ => .ok { statusCode := 200, remaining := some "0" }
  | .chunk => .ok none
  | .sleep _ => .ok ()

/-- The first two answers are thrown away, with two pauses of two seconds. -/
theorem reader_careful_lastFree :
    let t := ((repoActivity plainEnv "owner/name").play lastFree).1
    cost spent t = (3, 0, 4) ∧
      (Careful plainEnv (requestFor "owner/name" "" [])).Admits {} t ∧
      cost spent t ≤ (3, 3 * (2000000 + 8192), 60) := by
  obtain ⟨hadmits, -, hcost⟩ :=
    reader_careful (exec_play lastFree (repoActivity plainEnv "owner/name"))
  have hpauses : ∑ j ∈ Finset.range plainEnv.maxRetries.toNat, max (30 : ℚ) (1 / 2 * 2 ^ j) = 60 := by
    decide +kernel
  rw [hpauses] at hcost
  exact ⟨by decide +kernel, hadmits, hcost⟩

end Observatory.Github
