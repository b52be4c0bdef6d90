import Mathlib.Algebra.Order.BigOperators.Group.List
import Observatory.Verify.Packing
import Observatory.Verify.Redaction

/-!
# The size of the prompt

The budget of `assemble` counts the contents of the segments, each divided by four and rounded down.
The prompt also has a heading for every segment and a blank line between two of them
(`renderPrompt_length`), and it is the sum of the lengths that is divided by four.  So the prompt
fits exactly when what the budget leaves unused makes up for that (`prompt_fits_iff`).
-/

namespace Observatory.ContextAssembler

open Greedy

/-! ## Lengths -/

theorem renderPrompt_length (l : List ContextSegment) : (renderPrompt l).length =
    (l.map fun s => (heading s).length + s.content.length).sum + 2 * (l.length - 1) := by
  have hpart : ∀ s, (part s).length = (heading s).length + s.content.length :=
    fun s => String.length_append _ _
  induction l with
  | nil => rfl
  | cons s l ih =>
    cases l with
    | nil =>
      rw [renderPrompt, List.map_singleton, String.intercalate_singleton, hpart]
      rfl
    | cons s' l =>
      have hne : (s' :: l).map part ≠ [] := List.cons_ne_nil _ _
      unfold renderPrompt at ih ⊢
      rw [List.map_cons, String.intercalate_cons_of_ne_nil hne, String.length_append,
        String.length_append, ih, hpart]
      have hsep : "\n\n".length = 2 := rfl
      simp only [List.map_cons, List.sum_cons, List.length_cons, hsep]
      omega

theorem estimateTokens_le_iff {text : String} {n : Int} (hn : 1 ≤ n) :
    estimateTokens none text ≤ n ↔ (text.length : Int) ≤ 4 * n + 3 := by
  unfold estimateTokens
  dsimp only
  omega

/-! ## What the budget does not count -/

/-- The length of a heading, for a segment with the reason it was added with. -/
def overhead (s : ContextSegment) : Nat :=
  2 * s.segmentType.length + 38 + if s.containsUntrustedInput then 12 else 0

/-- The characters a segment puts into the prompt beyond four for each of its tokens. -/
def uncounted (s : ContextSegment) : Int :=
  overhead s + s.content.length - 4 * s.tokenCount

section adds

variable {redact : String → String} {tiktoken : Option (String → Nat)} {asm : ContextAssembler}
  {maxTokens : Int} {redactor : Option (String → String)} {adds : List (Time × Addition)}

theorem heading_newSegment (now : Time) (a : Addition) :
    (heading (asm.newSegment redact tiktoken now a)).length =
      overhead (asm.newSegment redact tiktoken now a) := by
  have hopen : "### ".length = 4 := rfl
  have hmark : " [UNTRUSTED]".length = 12 := rfl
  have hempty : "".length = 0 := rfl
  have hreason : " (".length = 2 ∧ "katman ".length = 7 ∧ " -> bütçe kurallı seçim".length = 23 ∧
      ")\n".length = 2 := ⟨rfl, rfl, rfl, rfl⟩
  obtain ⟨hparen, hlayer, hrule, hclose⟩ := hreason
  unfold heading overhead newSegment
  dsimp only
  simp only [String.length_append]
  split
  · omega
  · omega

/-- The assembler after some additions. -/
def added (redact : String → String) (tiktoken : Option (String → Nat)) (maxTokens : Int)
    (redactor : Option (String → String)) (adds : List (Time × Addition)) : ContextAssembler :=
  adds.foldl (fun asm x => asm.add redact tiktoken x.1 x.2) (create maxTokens redactor)

theorem added_eq_built : added redact tiktoken maxTokens redactor adds =
    built redact tiktoken maxTokens redactor (adds.map fun x => .add x.1 x.2) := by
  rw [built, List.foldl_map]
  rfl

theorem added_segments : (added redact tiktoken maxTokens redactor adds).segments =
    adds.map fun x => (create maxTokens redactor).newSegment redact tiktoken x.1 x.2 := by
  have hadds : Call.assemble ∉ adds.map fun x : Time × Addition => Call.add x.1 x.2 := by simp
  rw [added_eq_built, built_given redact tiktoken maxTokens redactor _ hadds, given,
    List.filterMap_map]
  exact congrFun List.filterMap_eq_map adds

/-- Every segment was made by `add`. -/
theorem exists_newSegment {s : ContextSegment}
    (hs : s ∈ (added redact tiktoken maxTokens redactor adds).segments) :
    ∃ (asm : ContextAssembler) (now : Time) (a : Addition),
      s = asm.newSegment redact tiktoken now a := by
  rw [added_segments] at hs
  obtain ⟨x, -, rfl⟩ := List.mem_map.1 hs
  exact ⟨_, x.1, x.2, rfl⟩

theorem mem_segments_of_taken {s : Placed} (hs : s ∈ asm.taken) : s.1 ∈ asm.segments := by
  have hmem := allInOrder_canonical.all.subset (select_sublist.subset hs)
  exact List.fst_mem_of_mem_zipIdx hmem

/-- The lengths of the parts, counted through their tokens. -/
theorem parts_length {l : List Placed} (hl : ∀ s ∈ l, (heading s.1).length = overhead s.1) :
    (((l.map Prod.fst).map fun s => (heading s).length + s.content.length).sum : Int) =
      4 * tokens l + (l.map fun s => uncounted s.1).sum := by
  induction l with
  | nil => rfl
  | cons s l ih =>
    obtain ⟨hs, hl⟩ := List.forall_mem_cons.1 hl
    have ih := ih hl
    simp only [tokens, List.map_cons, List.sum_cons, Nat.cast_add, uncounted] at ih ⊢
    omega

/-- **The prompt's length**: four characters for each token, what the tokens do not count, and the
blank lines. -/
theorem prompt_length : ((added redact tiktoken maxTokens redactor adds).assemble.2.2.length : Int) =
    4 * tokens (added redact tiktoken maxTokens redactor adds).taken +
      ((added redact tiktoken maxTokens redactor adds).taken.map fun s => uncounted s.1).sum +
      2 * ((added redact tiktoken maxTokens redactor adds).taken.length - 1 : Nat) := by
  generalize hasm : added redact tiktoken maxTokens redactor adds = asm
  have hheading : ∀ s ∈ asm.taken, (heading s.1).length = overhead s.1 := by
    intro s hs
    have hmem := mem_segments_of_taken hs
    rw [← hasm] at hmem
    obtain ⟨asm', now, a, hs'⟩ := exists_newSegment hmem
    rw [hs']
    exact heading_newSegment now a
  have hrender : asm.assemble.2.2 = renderPrompt (asm.taken.map Prod.fst) := by
    rw [← assemble_ordered]
    rfl
  rw [hrender, renderPrompt_length, List.length_map, Nat.cast_add, parts_length hheading]
  push_cast
  rfl

theorem tokenCount_nonneg {s : ContextSegment}
    (hs : s ∈ (added redact tiktoken maxTokens redactor adds).segments) : 0 ≤ s.tokenCount := by
  obtain ⟨asm, now, a, rfl⟩ := exists_newSegment hs
  unfold newSegment estimateTokens
  dsimp only
  split
  · omega
  · omega

/-- Leaving out critical segments costs nothing. -/
theorem criticalTokens_taken_le :
    criticalTokens (added redact tiktoken maxTokens redactor adds).taken ≤
      criticalTokens (added redact tiktoken maxTokens redactor adds).segments.zipIdx := by
  generalize hasm : added redact tiktoken maxTokens redactor adds = asm
  have hperm : (asm.segments.zipIdx.filter (isCritical ·.1)).Perm
      ((allInOrder asm.segments).filter (isCritical ·.1)) :=
    (allInOrder_canonical.all.symm).filter _
  have hsub : (asm.taken.filter (isCritical ·.1)).Sublist
      ((allInOrder asm.segments).filter (isCritical ·.1)) := select_sublist.filter _
  unfold criticalTokens tokens
  rw [(hperm.map _).sum_eq]
  refine (hsub.map _).sum_le_sum fun n hn => ?_
  obtain ⟨s, hs, rfl⟩ := List.mem_map.1 hn
  have hmem := allInOrder_canonical.all.subset (List.mem_filter.1 hs).1
  have hsegment : s.1 ∈ (added redact tiktoken maxTokens redactor adds).segments := by
    rw [hasm]
    exact List.fst_mem_of_mem_zipIdx hmem
  exact tokenCount_nonneg hsegment

theorem budgetOf_added : 1024 ≤ (added redact tiktoken maxTokens redactor adds).budgetOf := by
  rw [added_eq_built]
  exact built_budget redact tiktoken maxTokens redactor _

/-- **The prompt fits exactly when the unused budget makes up for what is not counted.**  If the
critical segments fit, so do all contents that are taken; whether the prompt does is decided by its
headings, its blank lines and the remainders of the divisions. -/
theorem prompt_fits_iff
    (hcritical : criticalTokens (added redact none maxTokens redactor adds).segments.zipIdx ≤
      (added redact none maxTokens redactor adds).budgetOf) :
    let asm := added redact none maxTokens redactor adds
    tokens asm.taken ≤ asm.budgetOf ∧
      (estimateTokens none asm.assemble.2.2 ≤ asm.budgetOf ↔
        (asm.taken.map fun s => uncounted s.1).sum + 2 * (asm.taken.length - 1 : Nat) ≤
          4 * (asm.budgetOf - tokens asm.taken) + 3) := by
  intro asm
  have hbudget : 1024 ≤ asm.budgetOf := budgetOf_added
  have hpacked : Packed asm.budgetOf (allInOrder asm.segments) asm.taken :=
    taken_packed (by omega)
  have hcrit : criticalTokens asm.taken ≤ asm.budgetOf := criticalTokens_taken_le.trans hcritical
  refine ⟨hpacked.total.trans (max_le (le_refl _) hcrit), ?_⟩
  have hlength : (asm.assemble.2.2.length : Int) = 4 * tokens asm.taken +
      (asm.taken.map fun s => uncounted s.1).sum + 2 * (asm.taken.length - 1 : Nat) :=
    prompt_length
  rw [estimateTokens_le_iff (by omega), hlength]
  constructor
  · intro h
    omega
  · intro h
    omega

/-- Critical segments are all taken. -/
theorem taken_perm (hcrit : ∀ s ∈ asm.segments, isCritical s = true)
    (hplain : ∀ s ∈ asm.segments, s.containsUntrustedInput = false) :
    asm.taken.Perm asm.segments.zipIdx := by
  have hcanonical : Canonical asm.segments (allInOrder asm.segments) := allInOrder_canonical
  refine List.Perm.trans ?_ hcanonical.all
  have hnodup := allInOrder_nodup asm.segments
  have hsub : asm.taken.Sublist (allInOrder asm.segments) := select_sublist
  refine (List.perm_ext_iff_of_nodup (hnodup.sublist hsub) hnodup).2 fun s => ?_
  refine ⟨fun hs => hsub.subset hs, fun hs => ?_⟩
  have hmem : s.1 ∈ asm.segments := List.fst_mem_of_mem_zipIdx (hcanonical.all.subset hs)
  exact Quotas.mem_pack hs (hcrit s.1 hmem) (hplain s.1 hmem)

end adds

/-- `redact` without any value from the environment. -/
def plainRedact (text : String) : String :=
  String.ofList (Redaction.redact Redaction.ascii [] text.toList)

/-- A goal in a window of the usual size. -/
def goalAdded : ContextAssembler :=
  added plainRedact none 60000 none [(0, { segmentType := "task_goal", content := "Summarise the room." })]

theorem prompt_fits_iff_goal :
    tokens goalAdded.taken ≤ goalAdded.budgetOf ∧
      (estimateTokens none goalAdded.assemble.2.2 ≤ goalAdded.budgetOf ↔
        (goalAdded.taken.map fun s => uncounted s.1).sum +
            2 * (goalAdded.taken.length - 1 : Nat) ≤
          4 * (goalAdded.budgetOf - tokens goalAdded.taken) + 3) :=
  prompt_fits_iff (by decide +kernel)

/-! ### Many short policies -/

/-- A short policy, added some times in the smallest window. -/
def policiesAdded (n : Nat) : ContextAssembler :=
  added plainRedact none 0 none
    (List.replicate n (0, { segmentType := "system_policy", content := "Be brief." }))

/-- The segment of the policy. -/
def policy : ContextSegment :=
  (create 0 none).newSegment plainRedact none 0
    { segmentType := "system_policy", content := "Be brief." }

theorem plainRedact_policy : plainRedact "Be brief." = "Be brief." := by decide +kernel

theorem policy_tokens : policy.tokenCount = 2 := by
  have hcontent : policy.tokenCount = estimateTokens none (plainRedact "Be brief.") := rfl
  rw [hcontent, plainRedact_policy]
  rfl

theorem policy_uncounted : uncounted policy = 65 := by
  have hcontent : policy.content = "Be brief." := plainRedact_policy
  have htype : policy.segmentType = "system_policy" := rfl
  have hplain : policy.containsUntrustedInput = false := rfl
  rw [uncounted, overhead, hcontent, policy_tokens, htype, hplain]
  rfl

theorem policies_segments (n : Nat) : (policiesAdded n).segments = List.replicate n policy := by
  rw [policiesAdded, added_segments, List.map_replicate]
  rfl

/-- A sum over policies. -/
theorem policies_sum (f : ContextSegment → Int) {l : List Placed} {n : Nat}
    (hl : l.Perm (List.replicate n policy).zipIdx) :
    (l.map fun s => f s.1).sum = n * f policy := by
  have hfst : ((List.replicate n policy).zipIdx.map fun s => f s.1) =
      List.replicate n (f policy) := by
    change (List.replicate n policy).zipIdx.map (f ∘ Prod.fst) = _
    rw [← List.map_map, List.zipIdx_map_fst, List.map_replicate]
  rw [(hl.map _).sum_eq, hfst, List.sum_replicate, nsmul_eq_mul]

/-- **The policies fit, and their prompt does not**: the headings do not count. -/
theorem prompt_exceeds :
    criticalTokens (policiesAdded 55).segments.zipIdx ≤ (policiesAdded 55).budgetOf ∧
      ¬ estimateTokens none (policiesAdded 55).assemble.2.2 ≤ (policiesAdded 55).budgetOf := by
  have hbudget : (policiesAdded 55).budgetOf = 1024 := rfl
  have hsegments := policies_segments 55
  have hall : ∀ s ∈ (policiesAdded 55).segments, s = policy := by
    intro s hs
    rw [hsegments] at hs
    exact List.eq_of_mem_replicate hs
  have hcrit : ∀ s ∈ (policiesAdded 55).segments, isCritical s = true := by
    intro s hs
    rw [hall s hs]
    rfl
  have htaken : (policiesAdded 55).taken.Perm (List.replicate 55 policy).zipIdx :=
    hsegments ▸ taken_perm hcrit fun s hs => by rw [hall s hs]; rfl
  have hlength : ((policiesAdded 55).assemble.2.2.length : Int) =
      4 * tokens (policiesAdded 55).taken +
        ((policiesAdded 55).taken.map fun s => uncounted s.1).sum +
        2 * ((policiesAdded 55).taken.length - 1 : Nat) := prompt_length
  have htokens : ∀ {l : List Placed}, l.Perm (List.replicate 55 policy).zipIdx →
      tokens l = 110 := by
    intro l hl
    rw [tokens, policies_sum (·.tokenCount) hl, policy_tokens]
    rfl
  constructor
  · have hfilter : (policiesAdded 55).segments.zipIdx.filter (isCritical ·.1) =
        (policiesAdded 55).segments.zipIdx :=
      List.filter_eq_self.2 fun s hs => hcrit s.1 (List.fst_mem_of_mem_zipIdx hs)
    rw [hbudget, criticalTokens, hfilter, hsegments, htokens (List.Perm.refl _)]
    decide
  · have hcount : (policiesAdded 55).taken.length = 55 := by
      rw [htaken.length_eq, List.length_zipIdx, List.length_replicate]
    rw [hbudget, estimateTokens_le_iff (by decide), hlength, htokens htaken,
      policies_sum uncounted htaken, policy_uncounted, hcount]
    decide

end Observatory.ContextAssembler
