import Observatory.Data.Window
import Observatory.Model.RateLimit
import Mathlib.Algebra.Order.Ring.Rat
import Mathlib.Data.List.Chain
import Mathlib.Data.List.Induction
import Mathlib.Tactic.Linarith

/-!
# Clients within the limit

The two backends of the limiter count differently.  In memory a call is allowed while fewer than
`limit` of the allowed calls are recent (`kept_standsFor`), so a client whose calls are sparse is never
refused.  In Redis every call renews the time of the counter, refused or not, so the counter shows
the current streak (`counted`): a steady client that always comes back before the window is over is
refused in the end, however slow it is.
-/

namespace Observatory

open Window

namespace RateLimiter

section calls

variable {s : RateLimiter × Store} {calls : List (Call × Connection)} {q : Call} {conn : Connection}

theorem after_concat : after s (calls ++ [(q, conn)]) = (check (after s calls) q conn).1 := by
  rw [after, List.foldl_append]
  rfl

theorem answers_concat : answers s (calls ++ [(q, conn)]) =
    answers s calls ++ [(q, (check (after s calls) q conn).2)] := by
  induction calls generalizing s with
  | nil => rfl
  | cons x calls ih =>
    rw [List.cons_append, answers, ih, answers, List.cons_append]
    rfl

theorem check_redis (hredis : (s.1.getRedis conn).redis = true) (hans : conn.answered = true) :
    check s q conn = ((s.1.getRedis conn, s.2.hit q.now q.key q.windowSeconds),
      decide (s.2.incr q.now q.key ≤ q.limit)) := by
  simp [check, hredis, hans]

theorem check_memory (hmem : (s.1.getRedis conn).redis = false ∨ conn.answered = false) :
    ((check s q conn).1.1, (check s q conn).2) =
      (s.1.getRedis conn).checkMemory q.now q.key q.limit q.windowSeconds := by
  have hnot : ((s.1.getRedis conn).redis && conn.answered) = false := by
    rcases hmem with hredis | hans
    · rw [hredis, Bool.false_and]
    · rw [hans, Bool.and_false]
  rw [check, hnot]
  rfl

@[simp] theorem getRedis_mem (rl : RateLimiter) : (rl.getRedis conn).mem = rl.mem := by
  unfold getRedis
  split <;> rfl

theorem getRedis_of_redis {rl : RateLimiter} (h : rl.redis = true) : rl.getRedis conn = rl := by
  simp [getRedis, h]

end calls

section memory

variable {rl : RateLimiter} {now : Seconds} {key key' : String} {limit window : Int}

theorem checkMemory_refuses
    (h : limit ≤ (recent (window : Seconds) now (rl.mem key)).length) :
    rl.checkMemory now key limit window = ({ rl with
      mem := Function.update rl.mem key (recent (window : Seconds) now (rl.mem key)) }, false) :=
  if_pos h

theorem checkMemory_allows
    (h : (recent (window : Seconds) now (rl.mem key)).length < limit) :
    rl.checkMemory now key limit window = ({ rl with
      mem := Function.update rl.mem key (recent (window : Seconds) now (rl.mem key) ++ [now]) },
      true) :=
  if_neg (not_le.2 h)

theorem checkMemory_allowed : (rl.checkMemory now key limit window).2 = true ↔
    (recent (window : Seconds) now (rl.mem key)).length < limit := by
  rcases lt_or_ge ((recent (window : Seconds) now (rl.mem key)).length : Int) limit with hlt | hge
  · simp [checkMemory_allows hlt, hlt]
  · simp [checkMemory_refuses hge, hge]

theorem checkMemory_self : (rl.checkMemory now key limit window).1.mem key =
    recent (window : Seconds) now (rl.mem key) ++
      if (rl.checkMemory now key limit window).2 = true then [now] else [] := by
  rcases lt_or_ge ((recent (window : Seconds) now (rl.mem key)).length : Int) limit with hlt | hge
  · simp [checkMemory_allows hlt]
  · simp [checkMemory_refuses hge]

theorem checkMemory_other (hkey : key' ≠ key) :
    (rl.checkMemory now key limit window).1.mem key' = rl.mem key' := by
  rcases lt_or_ge ((recent (window : Seconds) now (rl.mem key)).length : Int) limit with hlt | hge
  · simp [checkMemory_allows hlt, Function.update_of_ne hkey]
  · simp [checkMemory_refuses hge, Function.update_of_ne hkey]

end memory

/-! ## Schedules -/

/-- The times of the calls for `key`. -/
def timesOf (key : String) (calls : List Call) : List Seconds :=
  (calls.filter (·.key = key)).map (·.now)

/-- The calls for `key` are made with one limit and one window. -/
def Uniform (key : String) (limit : Nat) (window : Int) (calls : List Call) : Prop :=
  ∀ q ∈ calls, q.key = key → q.limit = limit ∧ q.windowSeconds = window

/-- Redis serves every call. -/
def OnRedis (conns : List Connection) : Prop :=
  ∀ conn ∈ conns, conn.client = true ∧ conn.answered = true

/-- Redis serves no call: there is no client, or no pipeline gets an answer. -/
def InMemory (conns : List Connection) : Prop :=
  (∀ conn ∈ conns, conn.client = false) ∨ ∀ conn ∈ conns, conn.answered = false

/-- All calls for `key` are allowed. -/
def AllAllowed (key : String) (calls : List (Call × Connection)) : Prop :=
  ∀ x ∈ answers fresh calls, x.1.key = key → x.2 = true

section schedules

variable {key : String} {limit : Nat} {window : Int} {calls : List (Call × Connection)} {q : Call}
  {conn : Connection}

theorem timesOf_concat (calls : List Call) : timesOf key (calls ++ [q]) =
    timesOf key calls ++ if q.key = key then [q.now] else [] := by
  unfold timesOf
  rw [List.filter_append, List.map_append]
  split <;> simp [*]

theorem Uniform.init {calls : List Call} (h : Uniform key limit window (calls ++ [q])) :
    Uniform key limit window calls := fun x hx => h x (List.mem_append_left _ hx)

theorem Uniform.last {calls : List Call} (h : Uniform key limit window (calls ++ [q]))
    (hq : q.key = key) : q.limit = limit ∧ q.windowSeconds = window := h q (by simp) hq

theorem allAllowed_concat : AllAllowed key (calls ++ [(q, conn)]) ↔ AllAllowed key calls ∧
    (q.key = key → (check (after fresh calls) q conn).2 = true) := by
  simp [AllAllowed, answers_concat, or_imp, forall_and]

/-! ## Redis -/

/-- What Redis holds after calls at the times `past`, the newest first. -/
def Counted (window : Int) : List Seconds → Option Counter → Prop
  | [], x => x = none
  | t :: past, x => x = some ⟨streak (window : Seconds) (t :: past), t + window⟩

theorem Counted.incr {store : Store} {past : List Seconds} {now : Seconds}
    (h : Counted window past (store key)) :
    store.incr now key = streak (window : Seconds) (now :: past) := by
  cases past with
  | nil =>
    rw [Store.incr, show store key = none from h]
    rfl
  | cons t past =>
    have hlt : now < t + (window : Seconds) ↔ now - t < window := by
      rw [sub_lt_iff_lt_add, add_comm]
    simp only [Store.incr, show store key = _ from h, streak, hlt]

theorem OnRedis.init {conns : List Connection} (h : OnRedis (conns ++ [conn])) : OnRedis conns :=
  fun x hx => h x (List.mem_append_left _ hx)

theorem redis_ready (hon : OnRedis (calls.map Prod.snd)) (hclient : conn.client = true) :
    ((after fresh calls).1.getRedis conn).redis = true := by
  induction calls using List.reverseRecOn generalizing conn with
  | nil => exact hclient
  | append_singleton calls x ih =>
    obtain ⟨q, conn'⟩ := x
    rw [List.map_append] at hon
    obtain ⟨hclient', hans⟩ : conn'.client = true ∧ conn'.answered = true := hon _ (by simp)
    have hready := ih hon.init hclient'
    rw [after_concat, check_redis hready hans]
    rw [getRedis_of_redis hready]
    exact hready

/-- **In Redis the streak is counted.** -/
theorem counted (hon : OnRedis (calls.map Prod.snd))
    (huniform : Uniform key limit window (calls.map Prod.fst)) :
    Counted window (timesOf key (calls.map Prod.fst)).reverse ((after fresh calls).2 key) := by
  induction calls using List.reverseRecOn with
  | nil => exact rfl
  | append_singleton calls x ih =>
    obtain ⟨q, conn⟩ := x
    rw [List.map_append] at hon huniform
    obtain ⟨hclient, hans⟩ : conn.client = true ∧ conn.answered = true := hon _ (by simp)
    have hcounted := ih hon.init huniform.init
    rw [after_concat, check_redis (redis_ready hon.init hclient) hans, List.map_append,
      List.map_singleton, timesOf_concat]
    dsimp only [Store.hit]
    by_cases hkey : q.key = key
    · subst hkey
      rw [Function.update_self, if_pos rfl, List.reverse_concat, hcounted.incr,
        (huniform.last rfl).2]
      exact rfl
    · rw [Function.update_of_ne (Ne.symm hkey), if_neg hkey, List.append_nil]
      exact hcounted

/-- Redis allows every call just if no streak ever gets longer than the limit. -/
theorem allAllowed_redis (hon : OnRedis (calls.map Prod.snd))
    (huniform : Uniform key limit window (calls.map Prod.fst)) :
    AllAllowed key calls ↔ ∀ past, past <:+ (timesOf key (calls.map Prod.fst)).reverse →
      streak (window : Seconds) past ≤ limit := by
  induction calls using List.reverseRecOn with
  | nil =>
    constructor
    · intro _ past hpast
      rw [List.suffix_nil.1 hpast]
      exact Nat.zero_le limit
    · rintro - x ⟨⟩
  | append_singleton calls x ih =>
    obtain ⟨q, conn⟩ := x
    rw [List.map_append] at hon huniform
    obtain ⟨hclient, hans⟩ : conn.client = true ∧ conn.answered = true := hon _ (by simp)
    rw [allAllowed_concat, ih hon.init huniform.init, List.map_append, List.map_singleton,
      timesOf_concat, check_redis (redis_ready hon.init hclient) hans]
    by_cases hkey : q.key = key
    · subst hkey
      rw [if_pos rfl, List.reverse_concat, (counted hon.init huniform.init).incr,
        (huniform.last rfl).1]
      simp only [List.suffix_cons_iff, or_imp, forall_and, forall_eq, decide_eq_true_eq,
        Int.ofNat_le, forall_const]
      exact and_comm
    · rw [if_neg hkey, List.append_nil]
      simp [hkey]

/-! ## Memory -/

theorem InMemory.init {conns : List Connection} (h : InMemory (conns ++ [conn])) :
    InMemory conns :=
  h.imp (fun h x hx => h x (List.mem_append_left _ hx)) fun h x hx =>
    h x (List.mem_append_left _ hx)

theorem check_getRedis (q : Call) (conn : Connection) (s : RateLimiter × Store) :
    (check s q conn).1.1.redis = (s.1.getRedis conn).redis ∧
      (check s q conn).1.1.redisTried = (s.1.getRedis conn).redisTried := by
  unfold check checkMemory
  dsimp only
  split
  · exact ⟨rfl, rfl⟩
  · split <;> exact ⟨rfl, rfl⟩

/-- Without a client there is never a client. -/
theorem redis_absent (hclient : ∀ x ∈ calls, x.2.client = false) (hconn : conn.client = false) :
    ((after fresh calls).1.getRedis conn).redis = false := by
  induction calls using List.reverseRecOn generalizing conn with
  | nil => exact hconn
  | append_singleton calls x ih =>
    obtain ⟨q, conn'⟩ := x
    have hclient' : conn'.client = false := hclient (q, conn') (by simp)
    have hredis := ih (fun x hx => hclient x (List.mem_append_left _ hx)) hclient'
    obtain ⟨hsame, -⟩ := check_getRedis q conn' (after fresh calls)
    rw [after_concat, getRedis]
    split
    · exact hconn
    · rw [hsame, hredis]

theorem InMemory.last (h : InMemory ((calls ++ [(q, conn)]).map Prod.snd)) :
    ((after fresh calls).1.getRedis conn).redis = false ∨ conn.answered = false := by
  rcases h with hclient | hans
  · left
    refine redis_absent (fun x hx => hclient x.2 ?_) (hclient conn (by simp))
    exact List.mem_map_of_mem (List.mem_append_left _ hx)
  · exact .inr (hans conn (by simp))

/-- The times of the calls for `key` that were allowed. -/
def allowedTimes (key : String) (answers : List (Call × Bool)) : List Seconds :=
  timesOf key ((answers.filter Prod.snd).map Prod.fst)

theorem allowedTimes_concat (answers : List (Call × Bool)) (allowed : Bool) :
    allowedTimes key (answers ++ [(q, allowed)]) = allowedTimes key answers ++
      if q.key = key ∧ allowed = true then [q.now] else [] := by
  unfold allowedTimes
  rw [List.filter_append, List.map_append]
  cases allowed with
  | false => simp
  | true => simpa using timesOf_concat _

/-- **In memory the recent of the allowed calls are kept**, whatever has been pruned. -/
theorem kept_standsFor {now : Seconds} (hmem : InMemory (calls.map Prod.snd))
    (huniform : Uniform key limit window (calls.map Prod.fst))
    (hsorted : (timesOf key (calls.map Prod.fst)).Pairwise (· ≤ ·))
    (hnow : ∀ t ∈ timesOf key (calls.map Prod.fst), t ≤ now) :
    StandsFor (window : Seconds) now ((after fresh calls).1.mem key)
      (allowedTimes key (answers fresh calls)) := by
  induction calls using List.reverseRecOn generalizing now with
  | nil => exact .refl
  | append_singleton calls x ih =>
    obtain ⟨q, conn⟩ := x
    have hcheck := check_memory (q := q) hmem.last
    rw [List.map_append] at hmem huniform hsorted hnow
    rw [after_concat, answers_concat, allowedTimes_concat, congrArg Prod.fst hcheck,
      congrArg Prod.snd hcheck]
    rw [List.map_singleton, timesOf_concat] at hsorted hnow
    obtain ⟨hsorted', -, hle⟩ := List.pairwise_append.1 hsorted
    by_cases hkey : q.key = key
    · subst hkey
      have hlast : ∀ t ∈ timesOf q.key (calls.map Prod.fst), t ≤ q.now := by
        intro t ht
        exact hle t ht q.now (by simp)
      have hq : q.now ≤ now := hnow q.now (by simp)
      have hkept := (ih hmem.init huniform.init hsorted' hlast).prune
      rw [checkMemory_self, getRedis_mem, (huniform.last rfl).2]
      simp only [true_and]
      exact hkept.append.mono hq
    · rw [checkMemory_other (Ne.symm hkey), getRedis_mem, if_neg fun h => hkey h.1, List.append_nil]
      exact ih hmem.init huniform.init hsorted' fun t ht => hnow t (by simp [ht])

/-- **In memory a call is allowed** while fewer than `limit` of the allowed ones are recent. -/
theorem allowed_iff (hmem : InMemory ((calls ++ [(q, conn)]).map Prod.snd))
    (huniform : Uniform q.key limit window ((calls ++ [(q, conn)]).map Prod.fst))
    (hsorted : (timesOf q.key ((calls ++ [(q, conn)]).map Prod.fst)).Pairwise (· ≤ ·)) :
    (check (after fresh calls) q conn).2 = true ↔
      (recent (window : Seconds) q.now (allowedTimes q.key (answers fresh calls))).length <
        limit := by
  have hcheck := check_memory (q := q) hmem.last
  rw [List.map_append] at hmem huniform hsorted
  rw [List.map_singleton, timesOf_concat, if_pos rfl] at hsorted
  obtain ⟨hsorted', -, hle⟩ := List.pairwise_append.1 hsorted
  have hkept := kept_standsFor hmem.init huniform.init hsorted' fun t ht =>
    hle t ht q.now (by simp)
  rw [congrArg Prod.snd hcheck, checkMemory_allowed, getRedis_mem, (huniform.last rfl).1,
    (huniform.last rfl).2, hkept.recent_eq]
  exact Int.ofNat_lt

theorem allowedTimes_of_allAllowed (hall : AllAllowed key calls) :
    allowedTimes key (answers fresh calls) = timesOf key (calls.map Prod.fst) := by
  induction calls using List.reverseRecOn with
  | nil => rfl
  | append_singleton calls x ih =>
    obtain ⟨q, conn⟩ := x
    obtain ⟨hall', hlast⟩ := allAllowed_concat.1 hall
    rw [answers_concat, allowedTimes_concat, ih hall', List.map_append, List.map_singleton,
      timesOf_concat]
    by_cases hkey : q.key = key
    · simp [hkey, hlast hkey]
    · simp [hkey]

/-- In memory a client within the limit is never refused. -/
theorem allAllowed_memory (hlimit : 1 ≤ limit) (hmem : InMemory (calls.map Prod.snd))
    (huniform : Uniform key limit window (calls.map Prod.fst))
    (hsorted : (timesOf key (calls.map Prod.fst)).Pairwise (· ≤ ·))
    (hsparse : Sparse (window : Seconds) limit (timesOf key (calls.map Prod.fst))) :
    AllAllowed key calls := by
  induction calls using List.reverseRecOn with
  | nil => rintro x ⟨⟩
  | append_singleton calls x ih =>
    obtain ⟨q, conn⟩ := x
    have hsub : (timesOf key (calls.map Prod.fst)).Sublist
        (timesOf key ((calls ++ [(q, conn)]).map Prod.fst)) := by
      rw [List.map_append, List.map_singleton, timesOf_concat]
      exact List.sublist_append_left _ _
    have hall : AllAllowed key calls := by
      refine ih ?_ ?_ (hsorted.sublist hsub) (hsparse.sublist hsub)
      · rw [List.map_append] at hmem
        exact hmem.init
      · rw [List.map_append] at huniform
        exact huniform.init
    refine allAllowed_concat.2 ⟨hall, ?_⟩
    rintro rfl
    rw [allowed_iff hmem huniform hsorted, allowedTimes_of_allAllowed hall]
    rw [List.map_append, List.map_singleton, timesOf_concat, if_pos rfl] at hsorted hsparse
    have hle : ∀ t ∈ timesOf q.key (calls.map Prod.fst), t ≤ q.now := fun t ht =>
      (List.pairwise_append.1 hsorted).2.2 t ht q.now (by simp)
    have hnow : ∀ t ∈ timesOf q.key (calls.map Prod.fst) ++ [q.now], t ≤ q.now := by
      intro t ht
      rcases List.mem_append.1 ht with ht | ht
      · exact hle t ht
      · exact (List.mem_singleton.1 ht).le
    have hfew := hsparse.length_recent hsorted hnow
    rcases lt_or_ge 0 (window : Seconds) with hpos | hneg
    · -- the call itself is one of the recent ones
      have hself : recent (window : Seconds) q.now [q.now] = [q.now] := by simp [recent, hpos]
      rw [recent_append, hself, List.length_append] at hfew
      exact hfew
    · have hnone : recent (window : Seconds) q.now (timesOf q.key (calls.map Prod.fst)) = [] := by
        refine List.filter_eq_nil_iff.2 fun t ht => ?_
        have hge : 0 ≤ q.now - t := sub_nonneg.2 (hle t ht)
        simpa using hneg.trans hge
      rw [hnone]
      exact hlimit

end schedules

/-- **Clients within the limit.**  A client whose calls for a key are so sparse that no window holds
more than the limit is allowed every time, by either backend, just if no more than `limit` of them
in a row each come before the window of the last is over. -/
theorem sparse_allowed_iff {key : String} {limit : Nat} {window : Int} {calls : List Call}
    (hlimit : 1 ≤ limit) (huniform : Uniform key limit window calls)
    (hsorted : (timesOf key calls).Pairwise (· ≤ ·))
    (hsparse : Sparse (window : Seconds) limit (timesOf key calls)) :
    (∀ served : List (Call × Connection), served.map Prod.fst = calls →
      (OnRedis (served.map Prod.snd) ∨ InMemory (served.map Prod.snd)) → AllAllowed key served) ↔
      ∀ block, block <:+: timesOf key calls →
        (block.IsChain fun t t' => t' - t < (window : Seconds)) → block.length ≤ limit := by
  have hblocks : (∀ past, past <:+ (timesOf key calls).reverse →
      streak (window : Seconds) past ≤ limit) ↔ ∀ block, block <:+: timesOf key calls →
        (block.IsChain fun t t' => t' - t < (window : Seconds)) → block.length ≤ limit := by
    rw [streak_le_iff]
    constructor
    · intro h block hin htight
      rw [← List.length_reverse]
      exact h _ (List.reverse_infix.2 hin) (List.isChain_reverse.2 htight)
    · intro h block hin htight
      rw [← List.length_reverse]
      refine h _ ?_ (List.isChain_reverse.2 ?_)
      · rwa [← List.reverse_infix, List.reverse_reverse]
      · exact htight
  rw [← hblocks]
  constructor
  · intro hall
    have hcalls : (calls.map fun q => (q, ({} : Connection))).map Prod.fst = calls := by
      simp [Function.comp_def]
    have hon : OnRedis ((calls.map fun q => (q, ({} : Connection))).map Prod.snd) := by
      simp [OnRedis]
    have hserved := hall _ hcalls (.inl hon)
    rw [allAllowed_redis hon (by rwa [hcalls]), hcalls] at hserved
    exact hserved
  · rintro hstreak served rfl (hon | hmem)
    · exact (allAllowed_redis hon huniform).2 hstreak
    · exact allAllowed_memory hlimit hmem huniform hsorted hsparse

/-- Two calls a minute apart, when two a minute are allowed. -/
theorem sparse_allowed_iff_two :
    AllAllowed "ip" [(⟨"ip", 2, 60, 0⟩, ({} : Connection)), (⟨"ip", 2, 60, 60⟩, {})] := by
  have huniform : Uniform "ip" 2 60 [⟨"ip", 2, 60, 0⟩, ⟨"ip", 2, 60, 60⟩] := by simp [Uniform]
  refine (sparse_allowed_iff (by decide) huniform (by simp [timesOf]) ?_).2 ?_ _ rfl (.inl ?_)
  · exact fun a => List.countP_le_length
  · exact fun block hin _ => hin.length_le
  · simp [OnRedis]

/-- A call every forty seconds, when two a minute are allowed. -/
def steady : List Call := [⟨"ip", 2, 60, 0⟩, ⟨"ip", 2, 60, 40⟩, ⟨"ip", 2, 60, 80⟩]

theorem steady_sparse : Sparse ((60 : Int) : Seconds) 2 (timesOf "ip" steady) := by
  intro a
  show List.countP _ [0, 40, 80] ≤ 2
  rcases lt_or_ge 0 a with hpos | hneg
  · -- the first call is too early
    rw [List.countP_cons_of_neg (by simpa using fun h => absurd hpos (not_lt.2 h))]
    exact List.countP_le_length
  · -- the last call is too late
    have hlate : ¬(80 : Seconds) < a + 60 := by
      push Not
      linarith
    rw [show ([0, 40, 80] : List Seconds) = [0, 40] ++ [80] from rfl, List.countP_append,
      List.countP_singleton]
    simp only [Int.cast_ofNat, hlate, and_false, decide_false, Bool.false_eq_true, ite_false]
    exact List.countP_le_length

/-- Redis refuses the third call of a client that stays within the limit. -/
theorem steady_refused : ¬∀ (key : String) (limit : Nat) (window : Int)
    (served : List (Call × Connection)), 1 ≤ limit →
    Uniform key limit window (served.map Prod.fst) →
    (timesOf key (served.map Prod.fst)).Pairwise (· ≤ ·) →
    Sparse (window : Seconds) limit (timesOf key (served.map Prod.fst)) →
    (OnRedis (served.map Prod.snd) ∨ InMemory (served.map Prod.snd)) → AllAllowed key served := by
  intro hclaim
  have hallowed := hclaim "ip" 2 60 (steady.map fun q => (q, {})) (by decide)
    (by simp [Uniform, steady]) (by norm_num [timesOf, steady]) steady_sparse
    (.inl (by simp [OnRedis, steady]))
  have hrefused : (⟨"ip", 2, 60, 80⟩, false) ∈ answers fresh (steady.map fun q => (q, {})) := by
    decide +kernel
  cases hallowed _ hrefused rfl

end RateLimiter

end Observatory
