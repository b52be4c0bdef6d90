import Observatory.Verify.RateLimit

/-!
# Never too many calls

A call that is allowed finds room among the recent ones that were allowed, by either backend
(`room_of_allowed`): in memory these are what is counted, and in Redis they are part of the streak.
So no window holds more than `limit` allowed calls.  A limiter that forgets nothing
(`checkKeeping`) gives the same answers as the one in memory, which prunes its lists.
-/

namespace Observatory

open Window

namespace RateLimiter

/-- The calls for `key` are made with one limit and one window. -/
def SameTerms (key : String) (limit window : Int) (calls : List Call) : Prop :=
  ∀ q ∈ calls, q.key = key → q.limit = limit ∧ q.windowSeconds = window

/-! ## Room for a call -/

section room

variable {s : RateLimiter × Store} {key : String} {limit window : Int}
  {calls : List (Call × Connection)} {q : Call} {conn : Connection}

theorem SameTerms.init {calls : List Call} (h : SameTerms key limit window (calls ++ [q])) :
    SameTerms key limit window calls := fun x hx => h x (List.mem_append_left _ hx)

theorem SameTerms.last {calls : List Call} (h : SameTerms key limit window (calls ++ [q]))
    (hq : q.key = key) : q.limit = limit ∧ q.windowSeconds = window := h q (by simp) hq

theorem answers_fst (s : RateLimiter × Store) (calls : List (Call × Connection)) :
    (answers s calls).map Prod.fst = calls.map Prod.fst := by
  induction calls generalizing s with
  | nil => rfl
  | cons x calls ih =>
    obtain ⟨q, conn⟩ := x
    rw [answers, List.map_cons, ih, List.map_cons]

theorem allowedTimes_sublist (s : RateLimiter × Store) (calls : List (Call × Connection)) :
    (allowedTimes key (answers s calls)).Sublist (timesOf key (calls.map Prod.fst)) := by
  rw [← answers_fst s calls]
  exact ((List.filter_sublist.map Prod.fst).filter _).map _

/-- With a negative limit nothing is allowed. -/
theorem check_negative (hlimit : q.limit < 0) : (check s q conn).2 = false := by
  by_cases hserved : (s.1.getRedis conn).redis = true ∧ conn.answered = true
  · rw [check_redis hserved.1 hserved.2]
    exact decide_eq_false (by omega)
  · have hmem : (s.1.getRedis conn).redis = false ∨ conn.answered = false := by
      rwa [not_and_or, Bool.not_eq_true, Bool.not_eq_true] at hserved
    have hcheck := check_memory (q := q) hmem
    rw [congrArg Prod.snd hcheck, ← Bool.not_eq_true, checkMemory_allowed]
    omega

/-- **A call that is allowed finds room** among the recent of the allowed ones. -/
theorem room_of_allowed (hserved : OnRedis ((calls ++ [(q, conn)]).map Prod.snd) ∨
      InMemory ((calls ++ [(q, conn)]).map Prod.snd))
    (hterms : SameTerms q.key limit window ((calls ++ [(q, conn)]).map Prod.fst))
    (hsorted : (timesOf q.key ((calls ++ [(q, conn)]).map Prod.fst)).Pairwise (· ≤ ·))
    (hwindow : 0 < window) (hallowed : (check (after fresh calls) q conn).2 = true) :
    (recent (window : Seconds) q.now (allowedTimes q.key (answers fresh calls))).length <
      limit.toNat := by
  have hlast : q.limit = limit ∧ q.windowSeconds = window := by
    rw [List.map_append] at hterms
    exact hterms.last rfl
  rcases lt_or_ge limit 0 with hneg | hnonneg
  · rw [check_negative (by rw [hlast.1]; exact hneg)] at hallowed
    cases hallowed
  obtain ⟨n, rfl⟩ := Int.eq_ofNat_of_zero_le hnonneg
  rw [Int.toNat_natCast]
  rcases hserved with hon | hmem
  · rw [List.map_append] at hon hterms
    obtain ⟨hclient, hans⟩ : conn.client = true ∧ conn.answered = true := hon _ (by simp)
    have hcounted : (after fresh calls).2.incr q.now q.key =
        streak (window : Seconds) (q.now :: (timesOf q.key (calls.map Prod.fst)).reverse) :=
      (@counted q.key n window calls hon.init hterms.init).incr
    rw [check_redis (redis_ready hon.init hclient) hans, hcounted, hlast.1] at hallowed
    have hstreak := Int.ofNat_le.1 (of_decide_eq_true hallowed)
    rw [List.map_append, List.map_singleton, timesOf_concat, if_pos rfl] at hsorted
    have hdesc : (q.now :: (timesOf q.key (calls.map Prod.fst)).reverse).Pairwise (· ≥ ·) := by
      rw [← List.reverse_concat, List.pairwise_reverse]
      exact hsorted
    have hnow : ∀ t ∈ q.now :: (timesOf q.key (calls.map Prod.fst)).reverse, t ≤ q.now := by
      intro t ht
      rcases List.mem_cons.1 ht with rfl | ht
      · exact le_rfl
      · exact (List.pairwise_cons.1 hdesc).1 t ht
    have hrecent := (length_recent_le_streak hdesc hnow (W := (window : Seconds))).trans hstreak
    -- the call itself is recent
    have hself : q.now - q.now < (window : Seconds) := by
      rw [sub_self]
      exact Int.cast_pos.2 hwindow
    rw [recent, List.filter_cons_of_pos (by simpa using hself), List.length_cons,
      List.filter_reverse, List.length_reverse] at hrecent
    exact ((allowedTimes_sublist fresh calls).filter _).length_le.trans_lt hrecent
  · exact (allowed_iff hmem hterms hsorted).1 hallowed

/-- **No window holds more than the limit** of the allowed calls. -/
theorem sparse_allowed (hserved : OnRedis (calls.map Prod.snd) ∨ InMemory (calls.map Prod.snd))
    (hterms : SameTerms key limit window (calls.map Prod.fst))
    (hsorted : (timesOf key (calls.map Prod.fst)).Pairwise (· ≤ ·)) :
    Sparse (window : Seconds) limit.toNat (allowedTimes key (answers fresh calls)) := by
  rcases lt_or_ge 0 window with hwindow | hwindow
  · induction calls using List.reverseRecOn with
    | nil =>
      intro a
      exact Nat.zero_le _
    | append_singleton calls x ih =>
      obtain ⟨q, conn⟩ := x
      have hserved' : OnRedis (calls.map Prod.snd) ∨ InMemory (calls.map Prod.snd) := by
        rw [List.map_append] at hserved
        exact hserved.imp (fun h => h.init) fun h => h.init
      have hterms' : SameTerms key limit window (calls.map Prod.fst) := by
        rw [List.map_append] at hterms
        exact hterms.init
      have hsorted' : (timesOf key (calls.map Prod.fst)).Pairwise (· ≤ ·) := by
        rw [List.map_append, List.map_singleton, timesOf_concat] at hsorted
        exact (List.pairwise_append.1 hsorted).1
      have hsparse := ih hserved' hterms' hsorted'
      rw [answers_concat, allowedTimes_concat]
      by_cases hcall : q.key = key ∧ (check (after fresh calls) q conn).2 = true
      · obtain ⟨rfl, hallowed⟩ := hcall
        rw [if_pos ⟨rfl, hallowed⟩]
        exact hsparse.concat (room_of_allowed hserved hterms hsorted hwindow hallowed)
      · rw [if_neg hcall, List.append_nil]
        exact hsparse
  · -- there is nothing in the interval
    intro a
    have hnone : ∀ t : Seconds, ¬(a ≤ t ∧ t < a + (window : Seconds)) := by
      rintro t ⟨hle, hlt⟩
      have hcast : (window : Seconds) ≤ 0 := Int.cast_nonpos.2 hwindow
      linarith
    rw [List.countP_eq_zero.2 fun t _ => by simpa using hnone t]
    exact Nat.zero_le _

end room

/-! ## Pruning -/

/-- The check in memory if no timestamp were ever dropped. -/
def checkKeeping (mem : String → List Seconds) (q : Call) : (String → List Seconds) × Bool :=
  if (recent (q.windowSeconds : Seconds) q.now (mem q.key)).length < q.limit then
    (Function.update mem q.key (mem q.key ++ [q.now]), true)
  else (mem, false)

/-- What is kept after a series of calls. -/
def afterKeeping (calls : List Call) : String → List Seconds :=
  calls.foldl (fun mem q => (checkKeeping mem q).1) fun _ => []

/-- Every call with its answer. -/
def answersKeeping (mem : String → List Seconds) : List Call → List (Call × Bool)
  | [] => []
  | q :: rest => (q, (checkKeeping mem q).2) :: answersKeeping (checkKeeping mem q).1 rest

section pruning

variable {key : String} {limit window : Int} {calls : List (Call × Connection)} {q : Call}
  {conn : Connection} {mem : String → List Seconds}

theorem afterKeeping_concat (calls : List Call) :
    afterKeeping (calls ++ [q]) = (checkKeeping (afterKeeping calls) q).1 := by
  rw [afterKeeping, List.foldl_append]
  rfl

theorem answersKeeping_concat (calls : List Call) :
    answersKeeping mem (calls ++ [q]) = answersKeeping mem calls ++
      [(q, (checkKeeping (calls.foldl (fun mem q => (checkKeeping mem q).1) mem) q).2)] := by
  induction calls generalizing mem with
  | nil => rfl
  | cons x calls ih =>
    rw [List.cons_append, answersKeeping, ih, answersKeeping, List.cons_append]
    rfl

theorem checkKeeping_allowed : (checkKeeping mem q).2 = true ↔
    (recent (q.windowSeconds : Seconds) q.now (mem q.key)).length < q.limit := by
  unfold checkKeeping
  split <;> simp [*]

theorem checkKeeping_self : (checkKeeping mem q).1 q.key =
    mem q.key ++ if (checkKeeping mem q).2 = true then [q.now] else [] := by
  unfold checkKeeping
  split <;> simp

theorem checkKeeping_other (hkey : key ≠ q.key) : (checkKeeping mem q).1 key = mem key := by
  unfold checkKeeping
  split
  · exact Function.update_of_ne hkey _ _
  · rfl

/-- The two limiters answer the next call alike if they hold the same recent timestamps. -/
theorem check_eq_keeping (hmem : InMemory ((calls ++ [(q, conn)]).map Prod.snd))
    (hsame : recent (q.windowSeconds : Seconds) q.now ((after fresh calls).1.mem q.key) =
      recent (q.windowSeconds : Seconds) q.now (mem q.key)) :
    (check (after fresh calls) q conn).2 = (checkKeeping mem q).2 := by
  have hcheck := check_memory (q := q) hmem.last
  rw [congrArg Prod.snd hcheck, Bool.eq_iff_iff, checkMemory_allowed, getRedis_mem, hsame,
    checkKeeping_allowed]

/-- **What is dropped is not missed**: both limiters hold the same recent timestamps. -/
theorem standsFor_keeping {now : Seconds} (hmem : InMemory (calls.map Prod.snd))
    (hterms : SameTerms key limit window (calls.map Prod.fst))
    (hsorted : (timesOf key (calls.map Prod.fst)).Pairwise (· ≤ ·))
    (hnow : ∀ t ∈ timesOf key (calls.map Prod.fst), t ≤ now) :
    StandsFor (window : Seconds) now ((after fresh calls).1.mem key)
      (afterKeeping (calls.map Prod.fst) key) := by
  induction calls using List.reverseRecOn generalizing now with
  | nil => exact .refl
  | append_singleton calls x ih =>
    obtain ⟨q, conn⟩ := x
    have hcheck := check_memory (q := q) hmem.last
    have hanswer := @check_eq_keeping calls q conn (afterKeeping (calls.map Prod.fst)) hmem
    rw [List.map_append] at hmem hterms hsorted hnow ⊢
    rw [List.map_singleton, timesOf_concat] at hsorted hnow
    obtain ⟨hsorted', -, hle⟩ := List.pairwise_append.1 hsorted
    rw [List.map_singleton, after_concat, afterKeeping_concat, congrArg Prod.fst hcheck]
    by_cases hkey : q.key = key
    · subst hkey
      have hlast : ∀ t ∈ timesOf q.key (calls.map Prod.fst), t ≤ q.now := by
        intro t ht
        exact hle t ht q.now (by simp)
      have hq : q.now ≤ now := hnow q.now (by simp)
      have hkept := ih hmem.init hterms.init hsorted' hlast
      have hanswer := hanswer (by rw [(hterms.last rfl).2]; exact hkept.recent_eq)
      rw [checkMemory_self, checkKeeping_self, getRedis_mem, ← hanswer, congrArg Prod.snd hcheck,
        (hterms.last rfl).2]
      exact hkept.prune.append.mono hq
    · rw [checkMemory_other (Ne.symm hkey), checkKeeping_other (Ne.symm hkey), getRedis_mem]
      exact ih hmem.init hterms.init hsorted' fun t ht => hnow t (by simp [ht])

/-- Both limiters answer the calls for a key alike. -/
theorem answers_eq_keeping (hmem : InMemory (calls.map Prod.snd))
    (hterms : SameTerms key limit window (calls.map Prod.fst))
    (hsorted : (timesOf key (calls.map Prod.fst)).Pairwise (· ≤ ·)) :
    (answers fresh calls).filter (fun x => x.1.key = key) =
      (answersKeeping (fun _ => []) (calls.map Prod.fst)).filter fun x => x.1.key = key := by
  induction calls using List.reverseRecOn with
  | nil => rfl
  | append_singleton calls x ih =>
    obtain ⟨q, conn⟩ := x
    have hanswer := @check_eq_keeping calls q conn (afterKeeping (calls.map Prod.fst)) hmem
    rw [List.map_append] at hmem hterms hsorted ⊢
    rw [List.map_singleton, timesOf_concat] at hsorted
    obtain ⟨hsorted', -, hle⟩ := List.pairwise_append.1 hsorted
    rw [List.map_singleton, answers_concat, answersKeeping_concat, List.filter_append,
      List.filter_append, ih hmem.init hterms.init hsorted']
    by_cases hkey : q.key = key
    · subst hkey
      have hsame := standsFor_keeping hmem.init hterms.init hsorted' fun t ht =>
        hle t ht q.now (by simp)
      rw [hanswer (by rw [(hterms.last rfl).2]; exact hsame.recent_eq)]
      rfl
    · simp [hkey]

end pruning

/-- **The limiter never over-admits.**  For a key with one limit and one window, whatever is called
in between, no half-open interval of the window's length holds more than the limit of its allowed
calls; and what is pruned in memory makes no difference. -/
theorem never_over_admits {key : String} {limit window : Int} {served : List (Call × Connection)}
    (hterms : SameTerms key limit window (served.map Prod.fst))
    (hsorted : (timesOf key (served.map Prod.fst)).Pairwise (· ≤ ·)) :
    (OnRedis (served.map Prod.snd) ∨ InMemory (served.map Prod.snd) →
      ∀ a : Seconds, ((allowedTimes key (answers fresh served)).countP fun t =>
        a ≤ t ∧ t < a + window) ≤ limit.toNat) ∧
      (InMemory (served.map Prod.snd) →
        (answers fresh served).filter (fun x => x.1.key = key) =
          (answersKeeping (fun _ => []) (served.map Prod.fst)).filter fun x => x.1.key = key) :=
  ⟨fun hserved => sparse_allowed hserved hterms hsorted,
    fun hmem => answers_eq_keeping hmem hterms hsorted⟩

/-- Two calls at once, when one a minute is allowed. -/
theorem never_over_admits_one : ((allowedTimes "ip" (answers fresh
    [(⟨"ip", 1, 60, 0⟩, ({} : Connection)), (⟨"ip", 1, 60, 0⟩, {})])).countP fun t =>
      (0 : Seconds) ≤ t ∧ t < 0 + ((60 : Int) : Seconds)) ≤ Int.toNat 1 := by
  refine (@never_over_admits "ip" 1 60 _ ?_ ?_).1 (.inl ?_) 0
  · simp [SameTerms]
  · simp [timesOf]
  · simp [OnRedis]

end RateLimiter

end Observatory
