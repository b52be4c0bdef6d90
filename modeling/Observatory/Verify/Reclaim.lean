import Observatory.Model.Reclaim
import Mathlib.Data.List.Nodup
import Mathlib.Tactic.Common

/-!
# Reclaiming without XAUTOCLAIM

`XAUTOCLAIM` looks for idle entries and stops after `count` of them (`xautoclaim_messages`); the
fallback lists `count` entries and claims the idle ones among those (`reclaim_messages`).  They
return the same just if the limit does not cut anything off (`fallback_agrees_iff`).
-/

namespace Observatory.Reclaim

/-- Idle for long enough. -/
def Pending.isIdle (minIdle : Time) (x : Pending) : Bool := minIdle ≤ x.idle

section lists

variable {α β : Type} {p : α → Bool} {f : α → β} {xs : List α} {n : Nat}

/-- Taking before and after filtering is the same if everything taken passes, or if nothing that
passes is cut off. -/
theorem take_filter_eq_iff : ((xs.filter p).take n).map f = ((xs.take n).filter p).map f ↔
    (∀ x ∈ xs.take n, p x = true) ∨ ∀ x ∈ xs.drop n, p x = false := by
  have hsplit : xs.filter p = (xs.take n).filter p ++ (xs.drop n).filter p := by
    rw [← List.filter_append, List.take_append_drop]
  have hlen : ((xs.take n).filter p).length ≤ n :=
    (List.length_filter_le p _).trans (List.length_take_le n xs)
  constructor
  · intro h
    rw [or_iff_not_imp_right]
    intro hcut
    -- something that passes is cut off, so `n` elements have passed before it
    have hne : (xs.drop n).filter p ≠ [] := by
      intro hnil
      refine hcut fun x hx => ?_
      simpa using List.filter_eq_nil_iff.1 hnil x hx
    have hfull : ((xs.take n).filter p).length = n := by
      have hle := congrArg List.length h
      rw [hsplit, List.length_map, List.length_map, List.length_take, List.length_append] at hle
      have hpos := List.length_pos_iff.2 hne
      omega
    have hall : ((xs.take n).filter p).length = (xs.take n).length :=
      le_antisymm (List.length_filter_le p _) ((List.length_take_le n xs).trans hfull.ge)
    exact List.length_filter_eq_length_iff.1 hall
  · intro h
    refine congrArg (List.map f) ?_
    rcases h with hall | hnone
    · have hself : (xs.take n).filter p = xs.take n := List.filter_eq_self.2 hall
      rw [hsplit, hself]
      rcases le_or_gt n xs.length with hle | hlt
      · exact List.take_left' (List.length_take_of_le hle)
      · rw [List.drop_eq_nil_of_le hlt.le, List.filter_nil, List.append_nil, List.take_take,
          min_self]
    · have hnil : (xs.drop n).filter p = [] := by
        refine List.filter_eq_nil_iff.2 fun x hx => ?_
        simp [hnone x hx]
      rw [hsplit, hnil, List.append_nil, List.take_of_length_le hlen]

end lists

section claiming

variable {client : Client} {consumer : Nat} {minIdle : Time} {count : Nat} {ps qs : List Pending}
  {x : Pending}

/-- The entries of a pending list have ids of their own. -/
def Distinct (ps : List Pending) : Prop := (ps.map (·.id)).Nodup

theorem distinct_cons : Distinct (x :: ps) ↔ (∀ y ∈ ps, y.id ≠ x.id) ∧ Distinct ps := by
  simp only [Distinct, List.map_cons, List.nodup_cons, List.mem_map, not_exists, not_and]

theorem xautoclaim_messages : (xautoclaim consumer minIdle ps count).2 =
    ((ps.filter (·.isIdle minIdle)).take count).map Pending.message := by
  induction ps generalizing count with
  | nil => cases count <;> rfl
  | cons x ps ih =>
    cases count with
    | zero => rfl
    | succ count =>
      rw [xautoclaim]
      by_cases hidle : minIdle ≤ x.idle
      · have hpass : x.isIdle minIdle = true := decide_eq_true hidle
        rw [if_pos hidle, List.filter_cons_of_pos hpass]
        exact congrArg _ ih
      · have hfail : ¬x.isIdle minIdle = true := fun h => hidle (of_decide_eq_true h)
        rw [if_neg hidle, List.filter_cons_of_neg hfail]
        exact ih

theorem xclaim_ids {id : EntryId} :
    (xclaim consumer minIdle id ps).1.map (·.id) = ps.map (·.id) := by
  unfold xclaim
  rw [List.map_map]
  refine List.map_congr_left fun x _ => ?_
  dsimp only [Function.comp_apply]
  split <;> rfl

/-- A claim leaves the other entries alone. -/
theorem mem_xclaim_of_ne {id : EntryId} (hx : x ∈ ps) (hne : x.id ≠ id) :
    x ∈ (xclaim consumer minIdle id ps).1 :=
  List.mem_map.2 ⟨x, hx, if_neg fun h => hne h.1⟩

/-- What a claim of an idle entry returns. -/
theorem xclaim_messages (hps : Distinct ps) (hx : x ∈ ps) (hidle : minIdle ≤ x.idle) :
    (xclaim consumer minIdle x.id ps).2 = [x.message] := by
  have hself : (ps.filter fun y => y.id = x.id ∧ minIdle ≤ y.idle) = [x] := by
    induction ps with
    | nil => cases hx
    | cons y ps ih =>
      obtain ⟨hy, hps'⟩ := distinct_cons.1 hps
      rcases List.mem_cons.1 hx with rfl | hx
      · have hnone : (ps.filter fun y => y.id = x.id ∧ minIdle ≤ y.idle) = [] := by
          refine List.filter_eq_nil_iff.2 fun z hz => ?_
          simp [hy z hz]
        rw [List.filter_cons, if_pos (by simpa using hidle), hnone]
      · rw [List.filter_cons_of_neg (by simp [Ne.symm (hy x hx)])]
        exact ih hps' hx
  unfold xclaim
  rw [hself]
  rfl

/-- **The fallback claims the idle ones of what is listed.** -/
theorem reclaim_messages (hclient : ∀ id, client.xclaim id = true) (hps : Distinct ps)
    (hqs : Distinct qs) (hsub : ∀ x ∈ qs, x ∈ ps) :
    (reclaim client consumer minIdle (qs.map fun x => ⟨x.id, x.idle⟩) ps).2 =
      some ((qs.filter (·.isIdle minIdle)).map Pending.message) := by
  induction qs generalizing ps with
  | nil => rfl
  | cons x qs ih =>
    obtain ⟨hx, hqs'⟩ := distinct_cons.1 hqs
    have hsub' : ∀ y ∈ qs, y ∈ ps := fun y hy => hsub y (List.mem_cons_of_mem _ hy)
    rw [List.map_cons, reclaim]
    by_cases hidle : minIdle ≤ x.idle
    · have hclaimed := @xclaim_messages consumer _ _ _ hps (hsub x List.mem_cons_self) hidle
      have hrest := @ih (xclaim consumer minIdle x.id ps).1 (by unfold Distinct; rwa [xclaim_ids])
        hqs' fun y hy => mem_xclaim_of_ne (hsub' y hy) (hx y hy)
      have hpass : x.isIdle minIdle = true := decide_eq_true hidle
      rw [if_pos hidle, if_pos (hclient x.id), List.filter_cons_of_pos hpass]
      dsimp only
      rw [hrest, hclaimed]
      rfl
    · have hfail : ¬x.isIdle minIdle = true := fun h => hidle (of_decide_eq_true h)
      rw [if_neg hidle, List.filter_cons_of_neg hfail]
      exact ih hps hqs' hsub'

end claiming

/-- **The fallback agrees with XAUTOCLAIM** just if the first `count` entries are all idle, or none
is idle after them. -/
theorem fallback_agrees_iff {ps : List Pending} (consumer : Nat) (minIdle : Time) (count : Nat)
    (hps : Distinct ps) :
    (claimPending { xautoclaim := false } consumer minIdle count ps).2 =
        (claimPending {} consumer minIdle count ps).2 ↔
      (∀ x ∈ ps.take count, minIdle ≤ x.idle) ∨ ∀ x ∈ ps.drop count, x.idle < minIdle := by
  have htake : Distinct (ps.take count) := hps.sublist ((List.take_sublist count ps).map _)
  have hfallback : (claimPending { xautoclaim := false } consumer minIdle count ps).2 =
      ((ps.take count).filter (·.isIdle minIdle)).map Pending.message := by
    have hlisted := @reclaim_messages { xautoclaim := false } consumer minIdle ps (ps.take count)
      (fun _ => rfl) hps htake fun x hx => List.mem_of_mem_take hx
    show Option.getD (reclaim _ consumer minIdle (xpendingRange ps count) ps).2 [] = _
    unfold xpendingRange
    rw [hlisted]
    rfl
  have hauto : (claimPending {} consumer minIdle count ps).2 =
      ((ps.filter (·.isIdle minIdle)).take count).map Pending.message := xautoclaim_messages
  rw [hfallback, hauto, eq_comm]
  have hiff := @take_filter_eq_iff _ _ (·.isIdle minIdle) Pending.message ps count
  simpa only [Pending.isIdle, decide_eq_true_eq, decide_eq_false_iff_not, not_le] using hiff

/-! ## An entry behind another -/

/-- An entry that has just been delivered, and one that has been pending for a minute. -/
def recentThenOld : List Pending := [⟨0, 0, 0, .missing⟩, ⟨1, 0, 60000, .missing⟩]

/-- Two entries that have been pending for a minute, and one between them that has not. -/
def oldAround : List Pending := [⟨0, 0, 60000, .missing⟩, ⟨1, 0, 0, .missing⟩, ⟨2, 0, 90000, .missing⟩]

/-- Asked for one entry, both find the first; asked for two, the fallback misses the last. -/
theorem fallback_agrees_iff_around :
    (claimPending { xautoclaim := false } 1 30000 1 oldAround).2 =
      (claimPending {} 1 30000 1 oldAround).2 ∧
    (claimPending { xautoclaim := false } 1 30000 2 oldAround).2 ≠
      (claimPending {} 1 30000 2 oldAround).2 := by
  have hdistinct : (oldAround.map (·.id)).Nodup := by decide
  constructor
  · exact (fallback_agrees_iff 1 30000 1 hdistinct).2 (.inl (by decide))
  · intro hagree
    rcases (fallback_agrees_iff 1 30000 2 hdistinct).1 hagree with hidle | hrest
    · exact absurd (hidle ⟨1, 0, 0, .missing⟩ (by simp [oldAround])) (by decide)
    · exact absurd (hrest ⟨2, 0, 90000, .missing⟩ (by simp [oldAround])) (by decide)

/-- The recent entry hides the old one. -/
theorem recent_hides_old : (claimPending { xautoclaim := false } 1 30000 1 recentThenOld).2 ≠
    (claimPending {} 1 30000 1 recentThenOld).2 := by
  intro h
  have hlen := congrArg List.length h
  exact absurd hlen (by decide)

/-! ## The worker's queue -/

theorem find?_filterMap {α β : Type} {f : α → Option β} {p : α → Bool} {q : β → Bool}
    (hf : ∀ x, p x = true ↔ ∃ y, f x = some y ∧ q y = true) (xs : List α) :
    ((xs.filterMap f).filter q).head? = (xs.find? p).bind f := by
  induction xs with
  | nil => rfl
  | cons x xs ih =>
    cases hx : f x with
    | none =>
      have hp : p x = false := by
        rw [← Bool.not_eq_true, hf]
        rintro ⟨y, hy, -⟩
        rw [hx] at hy
        cases hy
      rw [List.filterMap_cons_none hx, ih, List.find?_cons_of_neg (by simp [hp])]
    | some y =>
      rw [List.filterMap_cons_some hx]
      by_cases hq : q y
      · have hp : p x = true := (hf x).2 ⟨y, hx, hq⟩
        rw [List.filter_cons_of_pos hq, List.find?_cons_of_pos hp, Option.bind_some, hx]
        rfl
      · have hp : p x = false := by
          rw [← Bool.not_eq_true, hf]
          rintro ⟨y', hy', hq'⟩
          rw [hx] at hy'
          cases hy'
          exact hq hq'
        rw [List.filter_cons_of_neg hq, ih, List.find?_cons_of_neg (by simp [hp])]

/-- With a count of one `XAUTOCLAIM` is what the worker's queue does. -/
theorem claimPending_eq_xautoclaim (q : Redis) (consumer : Nat) (now minIdle : Time) :
    (q.claimPending consumer now minIdle).2.toList =
      (xautoclaim consumer minIdle (pendingOf q now) 1).2 := by
  have hfirst : q.first (Redis.idle now minIdle) = (q.stream.zipIdx.find? fun y =>
      q.evicted ≤ y.2 && Redis.idle now minIdle y.1).map fun y => (y.2, y.1) := rfl
  rw [xautoclaim_messages, List.take_one]
  unfold pendingOf
  rw [find?_filterMap (p := fun y => q.evicted ≤ y.2 && Redis.idle now minIdle y.1)]
  · unfold Redis.claimPending
    rw [hfirst]
    cases hfound : q.stream.zipIdx.find? fun y =>
        q.evicted ≤ y.2 && Redis.idle now minIdle y.1 with
    | none => rfl
    | some y =>
      obtain ⟨x, e⟩ := y
      have hp := List.find?_some hfound
      simp only [Bool.and_eq_true, decide_eq_true_eq, Redis.idle] at hp
      cases hd : x.delivery with
      | pending consumer' since => simp [hd, hp.1, Pending.message]
      | new => simp [hd] at hp
      | acked => simp [hd] at hp
  · rintro ⟨x, e⟩
    cases hd : x.delivery with
    | pending consumer' since =>
      by_cases he : q.evicted ≤ e
      · simp [Redis.idle, hd, he, Pending.isIdle]
      · simp [hd, he]
    | new => simp [Redis.idle, hd]
    | acked => simp [Redis.idle, hd]

end Observatory.Reclaim
