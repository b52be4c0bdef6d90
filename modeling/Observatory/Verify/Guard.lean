import Observatory.Model.Guard
import Observatory.Verify.Admission

/-!
# What the guard lets through

The requests that are counted are calls of the limiter (`run_eq`), so for every address the guard
lets no more through in a minute than the limit.  The address is what a header says, and one that
has not been seen yet is always let through (`guard_limits`).
-/

namespace Observatory.Guard

open Window
open RateLimiter

section guard

variable {strip : String → String} {cfg : Settings} {requests before : List (Request × Connection)}
  {s : RateLimiter × Store} {r : Request} {conn : Connection} {key ip : String}

/-- The limiter is asked. -/
def Request.isCounted (cfg : Settings) (r : Request) : Bool :=
  !r.isExempt && (bodyCheck cfg r.contentLength).isNone

/-- The calls of the limiter. -/
def calls (strip : String → String) (cfg : Settings) (requests : List (Request × Connection)) :
    List (Call × Connection) :=
  (requests.filter (·.1.isCounted cfg)).map fun x => (callOf strip cfg x.1, x.2)

/-- The times at which requests from `ip` have been let through, the exempt ones apart. -/
def passedTimes (strip : String → String) (ip : String) (log : List (Request × Outcome)) :
    List Seconds :=
  (log.filter fun x => !x.1.isExempt && x.2 = .passed && x.1.ip strip = ip).map (·.1.now)

theorem keyOf_inj {ip ip' : String} : keyOf ip = keyOf ip' ↔ ip = ip' := by
  simp [keyOf]

theorem guard_counted (h : r.isCounted cfg = true) : guard strip cfg s r conn =
    ((check s (callOf strip cfg r) conn).1,
      if (check s (callOf strip cfg r) conn).2 then .passed else .limited) := by
  unfold Request.isCounted at h
  rw [Bool.and_eq_true, Bool.not_eq_true', Option.isNone_iff_eq_none] at h
  unfold guard
  rw [h.1, h.2]
  rfl

/-- What is not counted leaves the limiter alone; if it is not exempt, it does not pass. -/
theorem guard_uncounted (h : r.isCounted cfg = false) : (guard strip cfg s r conn).1 = s ∧
    (r.isExempt = false → (guard strip cfg s r conn).2 ≠ .passed) := by
  unfold guard
  cases hexempt : r.isExempt with
  | true => exact ⟨rfl, fun hfalse => absurd hfalse (by decide)⟩
  | false =>
    unfold Request.isCounted at h
    rw [hexempt] at h
    cases hbody : bodyCheck cfg r.contentLength with
    | none =>
      rw [hbody] at h
      cases h
    | some outcome =>
      refine ⟨rfl, fun _ hpassed => ?_⟩
      -- the check of the length lets nothing pass by itself
      unfold bodyCheck at hbody
      split_ifs at hbody
      split at hbody
      · cases hbody
        cases hpassed
      · split_ifs at hbody
        cases hbody
        cases hpassed

theorem run_concat (x : Request × Connection) :
    run strip cfg (requests ++ [x]) = step strip cfg (run strip cfg requests) x :=
  List.foldl_concat ..

theorem calls_concat (x : Request × Connection) : calls strip cfg (requests ++ [x]) =
    calls strip cfg requests ++
      if x.1.isCounted cfg then [(callOf strip cfg x.1, x.2)] else [] := by
  unfold calls
  rw [List.filter_append, List.map_append]
  split <;> simp [*]

theorem passedTimes_concat (log : List (Request × Outcome)) (x : Request × Outcome) :
    passedTimes strip ip (log ++ [x]) = passedTimes strip ip log ++
      if x.1.isExempt = false ∧ x.2 = .passed ∧ x.1.ip strip = ip then [x.1.now] else [] := by
  unfold passedTimes
  rw [List.filter_append, List.map_append]
  split <;> simp_all [and_assoc]

/-- **The guard is its limiter**: what it lets through of an address is what the limiter allows. -/
theorem run_eq (ip : String) :
    (run strip cfg requests).1 = after fresh (calls strip cfg requests) ∧
    passedTimes strip ip (run strip cfg requests).2 =
      allowedTimes (keyOf ip) (RateLimiter.answers fresh (calls strip cfg requests)) := by
  induction requests using List.reverseRecOn with
  | nil => exact ⟨rfl, rfl⟩
  | append_singleton requests x ih =>
    obtain ⟨r, conn⟩ := x
    obtain ⟨hstate, hpassed⟩ := ih
    rw [run_concat, calls_concat]
    simp only [step]
    rw [passedTimes_concat]
    cases hcounted : r.isCounted cfg with
    | true =>
      have hexempt : r.isExempt = false := by
        unfold Request.isCounted at hcounted
        simp_all
      rw [if_pos rfl, after_concat, answers_concat, allowedTimes_concat, guard_counted hcounted,
        hstate, hpassed]
      refine ⟨rfl, congrArg _ ?_⟩
      have hkey : (callOf strip cfg r).key = keyOf ip ↔ r.ip strip = ip := keyOf_inj
      simp only [hexempt, hkey, true_and]
      cases (check (after fresh (calls strip cfg requests)) (callOf strip cfg r) conn).2 with
      | true => simp [callOf]
      | false => simp
    | false =>
      obtain ⟨hsame, hnot⟩ :
          (guard strip cfg (run strip cfg requests).1 r conn).1 = (run strip cfg requests).1 ∧
            (r.isExempt = false →
              (guard strip cfg (run strip cfg requests).1 r conn).2 ≠ .passed) :=
        guard_uncounted hcounted
      rw [if_neg (by decide), List.append_nil, hsame, hstate, hpassed,
        if_neg fun h => hnot h.1 (hstate ▸ h.2.1), List.append_nil]
      exact ⟨rfl, rfl⟩

/-! ## The limit -/

theorem calls_sublist : ((calls strip cfg requests).map Prod.snd).Sublist (requests.map Prod.snd) := by
  unfold calls
  rw [List.map_map]
  exact List.filter_sublist.map _

theorem calls_sameTerms (key : String) : SameTerms key cfg.rateLimitPerMinute 60
    ((calls strip cfg requests).map Prod.fst) := by
  intro q hq _
  obtain ⟨x, hx, rfl⟩ := List.mem_map.1 hq
  obtain ⟨y, -, rfl⟩ := List.mem_map.1 hx
  exact ⟨rfl, rfl⟩

theorem calls_sorted (h : requests.Pairwise fun x y => x.1.now ≤ y.1.now) :
    (timesOf key ((calls strip cfg requests).map Prod.fst)).Pairwise (· ≤ ·) := by
  unfold timesOf calls
  rw [List.map_map, List.pairwise_map]
  refine List.Pairwise.filter _ (List.pairwise_map.2 ?_)
  exact h.filter _

/-! ## A new address -/

theorem check_other {q : Call} (h : q.key ≠ key) :
    (check s q conn).1.1.mem key = s.1.mem key ∧ (check s q conn).1.2 key = s.2 key := by
  have hhit : s.2.hit q.now q.key q.windowSeconds key = s.2 key :=
    Function.update_of_ne (Ne.symm h) _ _
  unfold check
  simp only
  split
  · exact ⟨congrFun (getRedis_mem s.1) key, hhit⟩
  · refine ⟨?_, ?_⟩
    · rw [checkMemory_other (Ne.symm h), getRedis_mem]
    · split
      · exact hhit
      · rfl

/-- What is never asked for is never counted. -/
theorem after_other {qs : List (Call × Connection)} (h : ∀ x ∈ qs, x.1.key ≠ key) :
    (after fresh qs).1.mem key = [] ∧ (after fresh qs).2 key = none := by
  induction qs using List.reverseRecOn with
  | nil => exact ⟨rfl, rfl⟩
  | append_singleton qs x ih =>
    obtain ⟨q, conn⟩ := x
    have hother : (check (after fresh qs) q conn).1.1.mem key = (after fresh qs).1.mem key ∧
        (check (after fresh qs) q conn).1.2 key = (after fresh qs).2 key :=
      check_other (h (q, conn) (by simp))
    rw [after_concat, hother.1, hother.2]
    exact ih fun x hx => h x (List.mem_append_left _ hx)

theorem check_new {q : Call} (hmem : s.1.mem q.key = []) (hstore : s.2 q.key = none)
    (hlimit : 1 ≤ q.limit) : (check s q conn).2 = true := by
  by_cases hserved : (s.1.getRedis conn).redis = true ∧ conn.answered = true
  · rw [check_redis hserved.1 hserved.2, Store.incr, hstore]
    exact decide_eq_true hlimit
  · have hmemory : (s.1.getRedis conn).redis = false ∨ conn.answered = false := by
      rwa [not_and_or, Bool.not_eq_true, Bool.not_eq_true] at hserved
    have hcheck := check_memory (q := q) hmemory
    rw [congrArg Prod.snd hcheck, checkMemory_allowed, getRedis_mem, hmem, recent_nil]
    exact hlimit

/-- **What the guard lets through.**  With Redis there for all requests or for none, it lets no more
than the limit through for an address in any minute.  But the address is the one that the request
names, and unless the limit is nothing, the first request to name an address is let through if its
length is. -/
theorem guard_limits (hsorted : requests.Pairwise fun x y => x.1.now ≤ y.1.now) :
    (OnRedis (requests.map Prod.snd) ∨ InMemory (requests.map Prod.snd) →
      ∀ ip, ∀ a : Seconds, (passedTimes strip ip (run strip cfg requests).2).countP (fun t =>
        a ≤ t ∧ t < a + (60 : Int)) ≤ cfg.rateLimitPerMinute.toNat) ∧
    (1 ≤ cfg.rateLimitPerMinute → ∀ r conn, r.isCounted cfg = true →
      (∀ x ∈ requests, x.1.ip strip ≠ r.ip strip) →
        (guard strip cfg (run strip cfg requests).1 r conn).2 = .passed) := by
  refine ⟨fun hserved ip a => ?_, fun hlimit r conn hcounted hnew => ?_⟩
  · rw [(run_eq ip).2]
    have hsub : (calls strip cfg requests).map Prod.snd ⊆ requests.map Prod.snd :=
      calls_sublist.subset
    refine sparse_allowed ?_ (calls_sameTerms (keyOf ip)) (calls_sorted hsorted) a
    refine hserved.imp (fun h conn hconn => h conn (hsub hconn)) fun h => ?_
    exact h.imp (fun h conn hconn => h conn (hsub hconn)) fun h conn hconn => h conn (hsub hconn)
  · rw [guard_counted hcounted, (run_eq (r.ip strip)).1]
    have hother : ∀ x ∈ calls strip cfg requests, x.1.key ≠ (callOf strip cfg r).key := by
      intro x hx heq
      obtain ⟨y, hy, rfl⟩ := List.mem_map.1 hx
      exact hnew y (List.mem_of_mem_filter hy) (keyOf_inj.1 heq)
    obtain ⟨hmem, hstore⟩ := after_other hother
    rw [check_new hmem hstore hlimit]
    rfl

/-- A request from an address. -/
def requestFrom (ip : String) : Request := { path := "/api/v1/runs", client := some ip, now := 0 }

/-- Two requests at once, when one a minute is let through, and one from elsewhere. -/
theorem guard_limits_one :
    (passedTimes id "10.0.0.1" (run id { rateLimitPerMinute := 1 }
      [(requestFrom "10.0.0.1", {}), (requestFrom "10.0.0.1", {})]).2).countP (fun t =>
        (0 : Seconds) ≤ t ∧ t < 0 + (60 : Int)) ≤ Int.toNat 1 ∧
    (guard id { rateLimitPerMinute := 1 } (run id { rateLimitPerMinute := 1 }
      [(requestFrom "10.0.0.1", {}), (requestFrom "10.0.0.1", {})]).1 (requestFrom "10.0.0.2") {}).2 =
        .passed := by
  obtain ⟨hlimit, hnew⟩ := @guard_limits id { rateLimitPerMinute := 1 }
    [(requestFrom "10.0.0.1", {}), (requestFrom "10.0.0.1", {})] (by simp)
  refine ⟨hlimit (.inl ?_) "10.0.0.1" 0, hnew (by decide) _ _ (by decide +kernel) ?_⟩
  · simp [OnRedis]
  · intro x hx
    have hip : x.1.ip id = "10.0.0.1" := by
      simp only [List.mem_cons, List.not_mem_nil, or_false, or_self] at hx
      rw [hx]
      decide +kernel
    rw [hip]
    decide +kernel

end guard

end Observatory.Guard
