import Observatory.Model.Evaluator

/-!
# The heuristic score

None of the patterns asks for the edge of a word, so what is found in a text is found in every text
that contains it, and the score is the highest of what is found (`maxScore_le_iff`).  The tier of a
result is the tier of its score, and its dimensions stay between 0 and 100.
-/

namespace Observatory.Evaluator

open Canonical (Str CodePoint)
open Regex

/-! ## Tiers and scores -/

theorem tierFromScore_mem (score : Int) : tierFromScore score ∈ validTiers := by
  unfold tierFromScore validTiers
  split
  · simp
  · split
    · simp
    · split <;> simp

theorem severity_tierFromScore (score : Int) : severity (tierFromScore score) =
    if 80 ≤ score then 3 else if 55 ≤ score then 2 else if 30 ≤ score then 1 else 0 := by
  unfold tierFromScore
  split_ifs <;> rfl

/-- A higher score has no milder tier. -/
theorem severity_mono {score score' : Int} (h : score ≤ score') :
    severity (tierFromScore score) ≤ severity (tierFromScore score') := by
  rw [severity_tierFromScore, severity_tierFromScore]
  split_ifs <;> omega

/-- The score of every dimension is one. -/
def Dimensions.InRange (d : Dimensions) : Prop := ∀ x ∈ d.toList, 0 ≤ x ∧ x ≤ 100

instance (d : Dimensions) : Decidable d.InRange := inferInstanceAs (Decidable (∀ x ∈ _, _))

theorem Dimensions.inRange_iff {d : Dimensions} : d.InRange ↔
    (0 ≤ d.intent ∧ d.intent ≤ 100) ∧ (0 ≤ d.safety ∧ d.safety ≤ 100) ∧
      (0 ≤ d.quality ∧ d.quality ≤ 100) ∧ (0 ≤ d.value ∧ d.value ≤ 100) ∧
      0 ≤ d.risk ∧ d.risk ≤ 100 := by
  simp [InRange, toList]

/-! ## What is found -/

section found

variable {uni : Unicode} {text : Str} {hit : String × Int}

theorem edgeless_of_mem {pat : Re CodePoint × String × Int} (h : pat ∈ heuristicPatterns uni) :
    pat.1.edgeless := by
  have hall : (heuristicPatterns uni).all (·.1.edgeless) = true := by rfl
  exact List.all_eq_true.1 hall pat h

theorem pattern_score {pat : Re CodePoint × String × Int} (h : pat ∈ heuristicPatterns uni) :
    10 ≤ pat.2.2 ∧ pat.2.2 ≤ 100 := by
  have hall : (heuristicPatterns uni).all (fun pat => 10 ≤ pat.2.2 ∧ pat.2.2 ≤ 100) = true := by rfl
  exact of_decide_eq_true (List.all_eq_true.1 hall pat h)

theorem mem_found : hit ∈ found uni text ↔
    ∃ pat ∈ heuristicPatterns uni, pat.1.search none text = true ∧ pat.2 = hit := by
  unfold found
  rw [List.mem_filterMap]
  constructor
  · rintro ⟨pat, hpat, h⟩
    obtain ⟨hsearch, heq⟩ := Option.ite_none_right_eq_some.1 h
    exact ⟨pat, hpat, hsearch, Option.some.inj heq⟩
  · rintro ⟨pat, hpat, hsearch, rfl⟩
    exact ⟨pat, hpat, if_pos hsearch⟩

/-- What is found in a text is found in a longer one. -/
theorem found_pad (a b : Str) (h : hit ∈ found uni text) : hit ∈ found uni (a ++ text ++ b) := by
  obtain ⟨pat, hpat, hsearch, heq⟩ := mem_found.1 h
  exact mem_found.2 ⟨pat, hpat, Re.search_pad (edgeless_of_mem hpat) a b hsearch, heq⟩

theorem found_score (h : hit ∈ found uni text) : 10 ≤ hit.2 ∧ hit.2 ≤ 100 := by
  obtain ⟨pat, hpat, -, rfl⟩ := mem_found.1 h
  exact pattern_score hpat

theorem foldl_max_le_iff {hits : List (String × Int)} {score bound : Int} :
    hits.foldl (fun score hit => max score hit.2) score ≤ bound ↔
      score ≤ bound ∧ ∀ hit ∈ hits, hit.2 ≤ bound := by
  induction hits generalizing score with
  | nil => simp
  | cons hit hits ih =>
    rw [List.foldl_cons, ih, max_le_iff, List.forall_mem_cons, and_assoc]

/-- **The score is the highest of what is found**, at least 10, and 25 for a long text. -/
theorem maxScore_le_iff {bound : Int} : maxScore uni text ≤ bound ↔
    10 ≤ bound ∧ (∀ hit ∈ found uni text, hit.2 ≤ bound) ∧ (isLong text = true → 25 ≤ bound) := by
  unfold maxScore
  dsimp only
  split
  · next hlong =>
    rw [max_le_iff, foldl_max_le_iff]
    simp [hlong, and_assoc]
  · next hlong =>
    rw [foldl_max_le_iff]
    simp [hlong]

theorem maxScore_range : 10 ≤ maxScore uni text ∧ maxScore uni text ≤ 100 := by
  constructor
  · exact (maxScore_le_iff.1 le_rfl).1
  · refine maxScore_le_iff.2 ⟨by decide, fun hit h => (found_score h).2, fun _ => by decide⟩

theorem isLong_pad (a b : Str) (h : isLong text = true) : isLong (a ++ text ++ b) = true := by
  simp only [isLong, decide_eq_true_eq, List.length_append] at *
  omega

theorem maxScore_pad (a b : Str) : maxScore uni text ≤ maxScore uni (a ++ text ++ b) := by
  obtain ⟨hten, hfound, hlong⟩ := maxScore_le_iff.1 (@le_rfl _ _ (maxScore uni (a ++ text ++ b)))
  exact maxScore_le_iff.2 ⟨hten, fun hit h => hfound hit (found_pad a b h),
    fun h => hlong (isLong_pad a b h)⟩

/-- Without a label there is nothing to score. -/
theorem maxScore_of_no_label (h : (matchedLabels uni text).dedup = []) : maxScore uni text = 10 := by
  rw [List.dedup_eq_nil, matchedLabels, List.append_eq_nil_iff, List.map_eq_nil_iff] at h
  have hshort : isLong text = false := by
    cases hlong : isLong text with
    | false => rfl
    | true =>
      rw [hlong] at h
      cases h.2
  unfold maxScore
  rw [h.1, hshort]
  rfl

end found

/-! ## The dimensions -/

section dimensions

variable {score : Int} {dims : Dimensions}

theorem distribute_inRange (hscore : 10 ≤ score ∧ score ≤ 100) (h : dims.InRange) (m : String) :
    (distribute score dims m).InRange := by
  rw [Dimensions.inRange_iff] at h
  unfold distribute
  split_ifs <;> rw [Dimensions.inRange_iff] <;> dsimp only <;> omega

theorem foldl_distribute_inRange (hscore : 10 ≤ score ∧ score ≤ 100) (labels : List String)
    (h : dims.InRange) : (labels.foldl (distribute score) dims).InRange := by
  induction labels generalizing dims with
  | nil => exact h
  | cons m labels ih => exact ih (distribute_inRange hscore h m)

end dimensions

/-! ## Results -/

section results

variable (uni : Unicode) (text : Str)

theorem heuristicEvaluate_score : (heuristicEvaluate uni text).score =
    if isBlank uni text then 5 else maxScore uni text := by
  unfold heuristicEvaluate
  dsimp only
  split
  · rfl
  · split
    · rfl
    · next hlabels => exact (maxScore_of_no_label (not_not.1 hlabels)).symm

theorem heuristicEvaluate_tier :
    (heuristicEvaluate uni text).tier = tierFromScore (heuristicEvaluate uni text).score := by
  unfold heuristicEvaluate
  dsimp only
  split
  · rfl
  · split <;> rfl

theorem heuristicEvaluate_dimensions : (heuristicEvaluate uni text).dimensions.InRange := by
  have hempty : Dimensions.InRange ⟨5, 5, 10, 10, 5⟩ := by decide
  have hbenign : Dimensions.InRange ⟨5, 5, 5, 5, 10⟩ := by decide
  have hstart : Dimensions.InRange ⟨0, 0, 10, 10, 0⟩ := by decide
  unfold heuristicEvaluate
  dsimp only
  split
  · exact hempty
  · split
    · have hscore := @maxScore_range uni text
      have hdims := foldl_distribute_inRange hscore (matchedLabels uni text).dedup hstart
      split
      · rw [Dimensions.inRange_iff] at hdims ⊢
        dsimp only
        omega
      · exact hdims
    · exact hbenign

theorem heuristicEvaluate_score_range :
    0 ≤ (heuristicEvaluate uni text).score ∧ (heuristicEvaluate uni text).score ≤ 100 := by
  rw [heuristicEvaluate_score]
  have hscore := @maxScore_range uni text
  split <;> omega

/-- **Padding cannot lower the score.** -/
theorem heuristicEvaluate_score_pad (a b : Str) :
    (heuristicEvaluate uni text).score ≤ (heuristicEvaluate uni (a ++ text ++ b)).score := by
  rw [heuristicEvaluate_score, heuristicEvaluate_score]
  have hpad := @maxScore_pad uni text a b
  have hten := (@maxScore_range uni (a ++ text ++ b)).1
  by_cases hblank : isBlank uni text
  · rw [if_pos hblank]
    split <;> omega
  · -- the longer text is not blank either
    have hblank' : ¬ isBlank uni (a ++ text ++ b) := by
      intro h
      rw [isBlank, List.all_append, List.all_append, Bool.and_eq_true, Bool.and_eq_true] at h
      exact hblank h.1.2
    rwa [if_neg hblank, if_neg hblank']

end results

/-- **Padding cannot lower the heuristic risk**, and every result is consistent. -/
theorem padding_keeps_risk (uni : Unicode) :
    (∀ a s b : Str,
      (heuristicEvaluate uni s).score ≤ (heuristicEvaluate uni (a ++ s ++ b)).score ∧
        severity (heuristicEvaluate uni s).tier ≤
          severity (heuristicEvaluate uni (a ++ s ++ b)).tier) ∧
      ∀ text : Str,
        (heuristicEvaluate uni text).tier = tierFromScore (heuristicEvaluate uni text).score ∧
          (heuristicEvaluate uni text).dimensions.InRange := by
  constructor
  · intro a s b
    have hscore := heuristicEvaluate_score_pad uni s a b
    refine ⟨hscore, ?_⟩
    rw [heuristicEvaluate_tier, heuristicEvaluate_tier]
    exact severity_mono hscore
  · intro text
    exact ⟨heuristicEvaluate_tier uni text, heuristicEvaluate_dimensions uni text⟩

end Observatory.Evaluator
