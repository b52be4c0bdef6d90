import Observatory.Verify.Heuristic

/-!
# High scores and alerts

An evaluation is sound if its parts are in range and its tier is no milder than the tier of its
score; then every row with a score of 55 or more is alerted about (`notifies_of_severe`).  The
heuristic is sound.  Of a model's answer the code checks that the tier is a valid one, not that it
fits the score, so that an answer that is milder than its own score stays so.
-/

namespace Observatory.Evaluator

open Canonical (Str CodePoint ofString)

/-! ## Rows -/

section rows

variable {F : Type} {py : Python F} {poller : AgentScorer.Python} {r : Result} {t : Str}

theorem toChar?_ofChar (c : Char) : Canonical.toChar? (Canonical.ofChar c) = some c :=
  dif_pos (show (Canonical.ofChar c).val.isValidChar from c.valid)

theorem readable_ofString (s : String) : readable (ofString s) = s := by
  unfold readable ofString
  rw [List.map_map]
  have hid : (fun c => (Canonical.toChar? c).getD '\uFFFD') ∘ Canonical.ofChar = id := by
    funext c
    rw [Function.comp_apply, toChar?_ofChar]
    rfl
  rw [hid, List.map_id, String.ofList_toList]

theorem readable_valid (h : t ∈ validTiers) : ofString (readable t) = t := by
  have hnamed : ∃ s, t = ofString s := by
    simp only [validTiers, List.mem_cons, List.not_mem_nil, or_false] at h
    rcases h with rfl | rfl | rfl | rfl <;> exact ⟨_, rfl⟩
  obtain ⟨s, rfl⟩ := hnamed
  rw [readable_ofString]

theorem capitals_of_valid (h : t ∈ validTiers) : ∀ c ∈ t, 0x41 ≤ c.val ∧ c.val ≤ 0x5A := by
  have hall : validTiers.all (fun t => t.all fun c => 0x41 ≤ c.val ∧ c.val ≤ 0x5A) = true := by rfl
  intro c hc
  exact of_decide_eq_true (List.all_eq_true.1 (List.all_eq_true.1 hall t h) c hc)

theorem alerts_of_severe (h : t ∈ validTiers) (hsevere : 2 ≤ severity t) : t ∈ alertTiers := by
  have hall : validTiers.all (fun t => 2 ≤ severity t → t ∈ alertTiers) = true := by rfl
  exact of_decide_eq_true (List.all_eq_true.1 hall t h) hsevere

/-- What the poller writes of a result. -/
theorem rowOf_result (hstr : ∀ s, poller.str (.str s) = s) (htier : r.tier ∈ validTiers)
    {room : String} {seq : Int} {msg : Dict} {row : AgentScorer.AgentEvaluation}
    (h : AgentScorer.rowOf poller room seq msg r.toDict = .ok row) :
    row.score = r.score ∧ ofString row.tier = r.tier := by
  have hscore : AgentScorer.toInt poller (AgentScorer.orElse
      (AgentScorer.getD r.toDict "score" (.int 0)) (.int 0)) = .ok r.score := by
    show AgentScorer.toInt poller (if (r.score != 0) = true then .int r.score else .int 0) = _
    split
    · rfl
    · next hzero =>
      have hzero : r.score = 0 := by simpa using hzero
      rw [hzero]
      rfl
  have htext : readable r.tier ≠ "" := by
    intro hempty
    have hnil := readable_valid htier
    rw [hempty] at hnil
    rw [← hnil] at htier
    exact absurd htier (by decide)
  have hrow : poller.str (AgentScorer.orElse (AgentScorer.getD r.toDict "tier" (.str "SAFE"))
      (.str "SAFE")) = readable r.tier := by
    show poller.str (if (readable r.tier != "") = true then .str (readable r.tier) else _) = _
    rw [if_pos (bne_iff_ne.2 htext), hstr]
  unfold AgentScorer.rowOf at h
  rw [hscore] at h
  cases h
  refine ⟨rfl, ?_⟩
  dsimp only
  rw [hrow, readable_valid htier]

/-- A severe tier passes the gate. -/
theorem notifies_of_severe (hpy : py.Documented) (h : t ∈ validTiers) (hsevere : 2 ≤ severity t) :
    notifies py t = true := by
  unfold notifies
  rw [hpy t (capitals_of_valid h)]
  exact decide_eq_true (alerts_of_severe h hsevere)

end rows

/-! ## Sound results -/

/-- The tier is no milder than that of the score. -/
def Evaluation.Severe (e : Evaluation) : Prop :=
  severity (tierFromScore e.score) ≤ severity e.tier

/-- Everything is in range, no tier is too mild, and every row with a high score is alerted about. -/
structure Result.Sound {F : Type} (py : Python F) (poller : AgentScorer.Python) (r : Result) :
    Prop where
  score : 0 ≤ r.score ∧ r.score ≤ 100
  dimensions : r.dimensions.InRange
  tier : r.tier ∈ validTiers
  severe : r.Severe
  alerted : ∀ room seq msg row, AgentScorer.rowOf poller room seq msg r.toDict = .ok row →
    55 ≤ row.score → notifies py (ofString row.tier) = true

section sound

variable {F : Type} {py : Python F} {poller : AgentScorer.Python}

/-- The alert follows from the rest. -/
theorem Result.sound_of_severe (hpy : py.Documented) (hstr : ∀ s, poller.str (.str s) = s)
    {r : Result} (hscore : 0 ≤ r.score ∧ r.score ≤ 100) (hdims : r.dimensions.InRange)
    (htier : r.tier ∈ validTiers) (hsevere : r.Severe) : r.Sound py poller := by
  refine ⟨hscore, hdims, htier, hsevere, ?_⟩
  intro room seq msg row hrow hhigh
  obtain ⟨hs, ht⟩ := rowOf_result hstr htier hrow
  rw [ht]
  refine notifies_of_severe hpy htier (le_trans ?_ hsevere)
  rw [severity_tierFromScore]
  split_ifs <;> omega

/-- **The heuristic is sound.** -/
theorem heuristic_sound (hpy : py.Documented) (hstr : ∀ s, poller.str (.str s) = s)
    (uni : Unicode) (text model : Str) :
    Result.Sound py poller { heuristicEvaluate uni text with model } := by
  refine Result.sound_of_severe hpy hstr (heuristicEvaluate_score_range uni text)
    (heuristicEvaluate_dimensions uni text) ?_ ?_
  · dsimp only
    rw [heuristicEvaluate_tier]
    exact tierFromScore_mem _
  · show severity _ ≤ severity _
    dsimp only
    rw [heuristicEvaluate_tier]

end sound

/-! ## Answers -/

section answers

variable {F : Type} {py : Python F} {raw : Raw F} {e : Evaluation}

theorem clamp_range (score : Int) : 0 ≤ clamp score ∧ clamp score ≤ 100 := by
  unfold clamp
  omega

theorem intOr_range {fallback default : Int} {key : String} (h : 0 ≤ fallback ∧ fallback ≤ 100) :
    0 ≤ intOr py fallback default raw key ∧ intOr py fallback default raw key ≤ 100 := by
  unfold intOr
  split
  · next v _ =>
    cases toInt py v with
    | none => exact h
    | some i => exact clamp_range i
  · exact h

theorem scoreOf_range : 0 ≤ scoreOf py raw ∧ scoreOf py raw ≤ 100 := intOr_range (by decide)

/-- What becomes of an answer whose tier can be read. -/
theorem normalizeLlmResult_of_tier {t : Str} (h : tierOf py raw = .ok t) :
    ∃ e, normalizeLlmResult py raw = .ok e ∧ e.score = scoreOf py raw ∧
      e.tier = (if t ∈ validTiers then t else tierFromScore e.score) ∧ e.dimensions.InRange := by
  cases raw with
  | obj kvs =>
    refine ⟨_, by unfold normalizeLlmResult; rw [h]; rfl, rfl, rfl, ?_⟩
    have hscore := @scoreOf_range F py (.obj kvs)
    have hhalf : 0 ≤ scoreOf py (.obj kvs) / 2 ∧ scoreOf py (.obj kvs) / 2 ≤ 100 := by omega
    exact Dimensions.inRange_iff.2 ⟨intOr_range hhalf, intOr_range hhalf, intOr_range hhalf,
      intOr_range hhalf, intOr_range hhalf⟩
  | _ => cases h

/-- What an answer that is used has been. -/
theorem tierOf_of_normalizeLlmResult (h : normalizeLlmResult py raw = .ok e) :
    ∃ t, tierOf py raw = .ok t := by
  cases raw with
  | obj kvs => exact ⟨_, rfl⟩
  | _ => cases h

/-- The answer gives a valid tier that is milder than that of its score. -/
def Understates (py : Python F) (raw : Raw F) : Prop :=
  ∃ t, tierOf py raw = .ok t ∧ t ∈ validTiers ∧ severity t < severity (tierFromScore (scoreOf py raw))

theorem severe_iff (h : normalizeLlmResult py raw = .ok e) : e.Severe ↔ ¬Understates py raw := by
  obtain ⟨t, ht⟩ := tierOf_of_normalizeLlmResult h
  obtain ⟨e', he', hscore, htier, -⟩ := normalizeLlmResult_of_tier ht
  obtain rfl : e' = e := Except.ok.inj (he'.symm.trans h)
  unfold Evaluation.Severe Understates
  rw [htier, hscore]
  by_cases hvalid : t ∈ validTiers
  · rw [if_pos hvalid]
    constructor
    · rintro hle ⟨t', ht', -, hlt⟩
      obtain rfl : t' = t := Except.ok.inj (ht'.symm.trans ht)
      omega
    · intro hnot
      by_contra hlt
      exact hnot ⟨t, ht, hvalid, not_le.1 hlt⟩
  · rw [if_neg hvalid]
    refine iff_of_true le_rfl ?_
    rintro ⟨t', ht', hvalid', -⟩
    obtain rfl : t' = t := Except.ok.inj (ht'.symm.trans ht)
    exact hvalid hvalid'

theorem normalizeLlmResult_valid (h : normalizeLlmResult py raw = .ok e) :
    (0 ≤ e.score ∧ e.score ≤ 100) ∧ e.dimensions.InRange ∧ e.tier ∈ validTiers := by
  obtain ⟨t, ht⟩ := tierOf_of_normalizeLlmResult h
  obtain ⟨e', he', hscore, htier, hdims⟩ := normalizeLlmResult_of_tier ht
  obtain rfl : e' = e := Except.ok.inj (he'.symm.trans h)
  refine ⟨by rw [hscore]; exact scoreOf_range, hdims, ?_⟩
  rw [htier]
  split
  · assumption
  · exact tierFromScore_mem _

end answers

/-! ## Evaluations -/

section evaluations

variable {F : Type}

/-- What a model is asked and what it answers: nothing if none is asked or its response is not as
expected. -/
def answerTo (py : Python F) (cfg : Settings) (chat : Str → Except LibError (Raw F))
    (m : Message) : Option (Raw F) :=
  if isMock py cfg then none else (chat (buildUserPrompt m) >>= parsedOf py).toOption

/-- **No high score escapes the alert** unless a model's answer understates its own score. -/
theorem sound_iff_not_understated (py : Python F) (poller : AgentScorer.Python) (uni : Unicode)
    (cfg : Settings) (chat : Str → Except LibError (Raw F)) (m : Message) (hpy : py.Documented)
    (hstr : ∀ s, poller.str (.str s) = s) :
    (evaluateAgentMessage py uni cfg chat m).Sound py poller ↔
      ∀ raw ∈ answerTo py cfg chat m, ¬Understates py raw := by
  unfold evaluateAgentMessage answerTo
  dsimp only
  by_cases hmock : isMock py cfg
  · rw [if_pos hmock, if_pos hmock]
    exact iff_of_true (heuristic_sound hpy hstr uni _ _) fun _ h => absurd h (Option.not_mem_none _)
  rw [if_neg hmock, if_neg hmock]
  cases hparsed : chat (buildUserPrompt m) >>= parsedOf py with
  | error x =>
    exact iff_of_true (heuristic_sound hpy hstr uni _ _) fun _ h => absurd h (Option.not_mem_none _)
  | ok raw =>
    have hbind : ((.ok raw : Except LibError (Raw F)) >>= normalizeLlmResult py) =
        normalizeLlmResult py raw := rfl
    rw [hbind]
    simp only [Except.toOption, Option.mem_def, Option.some.injEq, forall_eq']
    cases hnorm : normalizeLlmResult py raw with
    | error x =>
      refine iff_of_true (heuristic_sound hpy hstr uni _ _) ?_
      rintro ⟨t, ht, -⟩
      obtain ⟨e, he, -⟩ := normalizeLlmResult_of_tier ht
      rw [hnorm] at he
      cases he
    | ok e =>
      obtain ⟨hscore, hdims, htier⟩ := normalizeLlmResult_valid hnorm
      rw [← severe_iff hnorm]
      exact ⟨fun h => h.severe, fun h => Result.sound_of_severe hpy hstr hscore hdims htier h⟩

end evaluations

/-! ## A mild tier with a high score -/

def capital (c : CodePoint) : CodePoint :=
  if h : 0x61 ≤ c.val ∧ c.val ≤ 0x7A then ⟨c.val - 0x20, by omega⟩ else c

/-- Python on the texts of an answer. -/
def answerPython : Python Unit where
  intOfFloat _ := none
  floatTruthy _ := true
  intOfStr _ := none
  str
    | .str s => s
    | _ => []
  upper s := s.map capital
  lower s := s
  strip s := s
  loads _ := .error ⟨"JSONDecodeError", ""⟩

def answerPoller : AgentScorer.Python where
  str
    | .text (.str s) => s
    | _ => ""
  intOfStr _ := none
  strip s := s

def answerUnicode : Unicode where
  isDecimal c := 0x30 ≤ c.val && c.val ≤ 0x39
  isSpace c := c.val = 0x20
  ignoreCase c l := capital l = c

theorem answerPython_documented : answerPython.Documented := by
  intro s h
  have hid : ∀ c ∈ s, capital c = id c := by
    intro c hc
    exact dif_neg (by have := h c hc; omega)
  exact (List.map_congr_left hid).trans (List.map_id s)

/-- A response with an answer. -/
def responseWith (score : Int) (tier : String) : Raw Unit :=
  let answer := .obj [(ofString "score", .int score), (ofString "tier", .str (ofString tier))]
  .obj [(ofString "choices", .list [.obj [(ofString "message", .obj [(ofString "content", answer)])]])]

def openaiSettings : Settings where
  llmProvider := ofString "openai_compatible"
  llmBaseUrl := ofString "http://llm"
  llmModel := []

theorem sound_iff_not_understated_at : (evaluateAgentMessage answerPython answerUnicode
    openaiSettings (fun _ => .ok (responseWith 90 "dangerous")) ⟨ofString "hi", [], none, []⟩).Sound
      answerPython answerPoller := by
  refine (sound_iff_not_understated answerPython answerPoller answerUnicode openaiSettings
    (fun _ => .ok (responseWith 90 "dangerous")) ⟨ofString "hi", [], none, []⟩
    answerPython_documented fun _ => rfl).2 ?_
  rintro raw hraw ⟨t, ht, -, hlt⟩
  cases hraw
  cases ht
  exact absurd hlt (by decide)

/-- An answer with a score of 90 that calls itself safe is taken as it is: nobody is alerted. -/
theorem not_sound_of_safe_answer : ¬(evaluateAgentMessage answerPython answerUnicode
    openaiSettings (fun _ => .ok (responseWith 90 "SAFE")) ⟨ofString "hi", [], none, []⟩).Sound
      answerPython answerPoller := by
  intro h
  exact absurd h.severe (show ¬severity (tierFromScore 90) ≤ severity tierSafe by decide)

end Observatory.Evaluator
