import Observatory.Data.Greedy
import Observatory.Data.Grouping
import Observatory.Model.Context

/-!
# What `assemble` takes

`assemble` goes through the segments in one order (`Canonical`) and takes those that break neither
of two quotas: its loop is the greedy packing of `Data/Greedy.lean` (`layout_refines`).  What the
quotas are worth follows from the packing and from the place of the critical types, which come first
in the order.
-/

namespace Observatory.ContextAssembler

open Greedy Grouping

/-- A segment with its place in `segments`. -/
abbrev Placed := ContextSegment × Nat

def typeOf (s : Placed) : String := s.1.segmentType

/-- `system_policy` and `task_goal` are not subject to the budget. -/
def isCritical (s : ContextSegment) : Bool := ["system_policy", "task_goal"].contains s.segmentType

/-! ## The order -/

/-- The order of the candidates: the types of `SEQUENCE` in turn and each type as it was added,
then the others by falling relevance. -/
structure Canonical (segments : List ContextSegment) (order : List Placed) : Prop where
  all : order.Perm segments.zipIdx
  sorted : ∃ sequenced others, order = sequenced ++ others ∧
    (∀ s ∈ sequenced, typeOf s ∈ layerSequence) ∧ (∀ s ∈ others, typeOf s ∉ layerSequence) ∧
    (sequenced.Pairwise fun s s' =>
      layerSequence.idxOf (typeOf s) < layerSequence.idxOf (typeOf s') ∨
        typeOf s = typeOf s' ∧ s.2 < s'.2) ∧
    others.Pairwise fun s s' => s'.1.relevanceScore ≤ s.1.relevanceScore

/-- `allInOrder` on segments with their places. -/
def inOrder (indexed : List Placed) : List Placed :=
  let rest := indexed.filter (fun s => !layerSequence.contains s.1.segmentType)
  groups typeOf layerSequence indexed ++
    (groups typeOf (rest.map typeOf).eraseDups rest).insertionSort
      fun s s' => s.1.relevanceScore ≥ s'.1.relevanceScore

theorem allInOrder_eq (segments : List ContextSegment) :
    allInOrder segments = inOrder segments.zipIdx := rfl

theorem layerSequence_nodup : layerSequence.Nodup := by decide

section order

variable {indexed : List Placed} {segments : List ContextSegment}

theorem inOrder_perm : (inOrder indexed).Perm indexed := by
  have hsequenced : (groups typeOf layerSequence indexed).Perm
      (indexed.filter (typeOf · ∈ layerSequence)) := groups_perm layerSequence_nodup
  have hothers : ∀ rest : List Placed,
      (groups typeOf (rest.map typeOf).eraseDups rest).Perm rest := by
    intro rest
    refine (groups_perm (nodup_eraseDups _)).trans ?_
    rw [List.filter_eq_self.2]
    intro s hs
    exact decide_eq_true (List.mem_eraseDups.2 (List.mem_map_of_mem hs))
  have hfilter : indexed.filter (fun s => !layerSequence.contains s.1.segmentType) =
      indexed.filter fun s => !decide (typeOf s ∈ layerSequence) :=
    List.filter_congr fun s _ => by rw [List.contains_eq_mem, typeOf]
  refine (hsequenced.append ((List.perm_insertionSort _ _).trans (hothers _))).trans ?_
  rw [hfilter]
  exact List.filter_append_perm _ _

theorem places_pairwise : segments.zipIdx.Pairwise fun s s' => s.2 < s'.2 := by
  have hmap : (segments.zipIdx.map Prod.snd).Pairwise (· < ·) := by
    rw [List.zipIdx_map_snd]
    exact List.pairwise_lt_range'
  exact List.pairwise_map.1 hmap

theorem allInOrder_canonical : Canonical segments (allInOrder segments) := by
  refine ⟨inOrder_perm, _, _, rfl, fun s hs => (mem_groups.1 hs).2, fun s hs => ?_, ?_, ?_⟩
  · have hrest := (mem_groups.1 ((List.perm_insertionSort _ _).subset hs)).1
    simpa [typeOf] using (List.mem_filter.1 hrest).2
  · exact groups_pairwise layerSequence_nodup places_pairwise
  · exact List.pairwise_insertionSort _ _

/-- No two candidates have one place. -/
theorem Canonical.places_nodup {order : List Placed} (h : Canonical segments order) :
    (order.map Prod.snd).Nodup := by
  refine (h.all.map Prod.snd).nodup_iff.2 ?_
  rw [List.zipIdx_map_snd]
  exact List.nodup_range'

/-- The critical types are the first two of the sequence. -/
theorem isCritical_iff {s : Placed} :
    isCritical s.1 = true ↔ layerSequence.idxOf (typeOf s) < 2 := by
  rw [isCritical, typeOf, List.contains_iff_mem]
  generalize s.1.segmentType = t
  by_cases hpolicy : t = "system_policy"
  · subst hpolicy
    decide
  by_cases hgoal : t = "task_goal"
  · subst hgoal
    decide
  have hidx : layerSequence.idxOf t = List.idxOf t (layerSequence.drop 2) + 2 := by
    have hne : ("system_policy" == t) = false := beq_false_of_ne (Ne.symm hpolicy)
    have hne' : ("task_goal" == t) = false := beq_false_of_ne (Ne.symm hgoal)
    change List.idxOf t ("system_policy" :: "task_goal" :: layerSequence.drop 2) = _
    rw [List.idxOf_cons, List.idxOf_cons, hne, hne', cond_false, cond_false]
  constructor
  · intro hmem
    rcases List.mem_pair.1 hmem with rfl | rfl
    · exact absurd rfl hpolicy
    · exact absurd rfl hgoal
  · intro hlt
    omega

/-- The critical segments come first. -/
theorem Canonical.critical_first {order : List Placed} (h : Canonical segments order) :
    ∃ first rest, order = first ++ rest ∧ (∀ s ∈ first, isCritical s.1 = true) ∧
      ∀ s ∈ rest, isCritical s.1 = false := by
  obtain ⟨sequenced, others, rfl, hin, hout, hseq, -⟩ := h.sorted
  have hothers : ∀ s ∈ others, isCritical s.1 = false := by
    intro s hs
    rw [Bool.eq_false_iff]
    intro hcrit
    have hidx := isCritical_iff.1 hcrit
    rw [List.idxOf_eq_length (hout s hs)] at hidx
    exact absurd hidx (by decide)
  obtain ⟨first, rest, rfl, hfirst, hrest⟩ := split_of_pairwise (p := fun s => isCritical s.1)
    (hseq.imp fun {s s'} hss' hcrit => by
      rw [isCritical_iff] at hcrit ⊢
      rcases hss' with hlt | ⟨heq, -⟩
      · exact hlt.trans hcrit
      · rw [heq]
        exact hcrit)
  refine ⟨first, rest ++ others, List.append_assoc .., hfirst, fun s hs => ?_⟩
  rcases List.mem_append.1 hs with hs | hs
  · exact hrest s hs
  · exact hothers s hs

end order

/-! ## The loop -/

/-- The two quotas of `assemble`. -/
def quotas (budget : Int) : Quotas Placed Int where
  cost s := s.1.tokenCount
  limited s := s.1.containsUntrustedInput
  exempt s := isCritical s.1
  budget := budget
  cap := budget / 4

theorem untrustedBudget_eq (budget : Int) :
    ((budget : Rat) * untrustedBudgetRatio).floor = budget / 4 := by
  have hratio : (budget : Rat) * untrustedBudgetRatio = (budget : Rat) / ((4 : Nat) : Rat) := by
    rw [untrustedBudgetRatio, mul_one_div]
    rfl
  rw [hratio]
  exact Rat.floor_intCast_div_natCast budget 4

/-- The loop has gone through the candidates `seen`. -/
structure Layout.Refines (budget : Int) (l : Layout) (seen : List Placed) : Prop where
  used : l.used = (quotas budget).total ((quotas budget).pack seen)
  untrustedUsed : l.untrustedUsed = (quotas budget).spent ((quotas budget).pack seen)
  ordered : l.ordered = ((quotas budget).pack seen).map Prod.fst
  skipped : ∀ k ∈ l.skipped, ∃ s ∈ seen, s.2 = k.1 ∧ s ∉ (quotas budget).pack seen

section loop

variable {budget : Int} {l : Layout} {seen order : List Placed} {s : Placed}

/-- A candidate that is passed over. -/
theorem Layout.Refines.pass (h : l.Refines budget seen) (hs : s ∉ seen)
    (hfits : (quotas budget).admits ((quotas budget).pack seen) s = false) (reason : String) :
    Layout.Refines budget { l with skipped := l.skipped ++ [(s.2, reason)] } (seen ++ [s]) := by
  have hpack : (quotas budget).pack (seen ++ [s]) = (quotas budget).pack seen :=
    select_concat.trans (choose_neg (Bool.eq_false_iff.1 hfits))
  refine ⟨hpack ▸ h.used, hpack ▸ h.untrustedUsed, hpack ▸ h.ordered, fun k hk => ?_⟩
  rw [hpack]
  rcases List.mem_append.1 hk with hk | hk
  · obtain ⟨s', hs', hplace, hout⟩ := h.skipped k hk
    exact ⟨s', List.mem_append_left _ hs', hplace, hout⟩
  · obtain rfl := List.mem_singleton.1 hk
    exact ⟨s, List.mem_concat_self, rfl, fun hmem => hs (select_sublist.subset hmem)⟩

/-- A candidate that is taken. -/
theorem Layout.Refines.take (h : l.Refines budget seen) (hs : s ∉ seen)
    (hfits : (quotas budget).admits ((quotas budget).pack seen) s = true) :
    Layout.Refines budget
      { used := l.used + s.1.tokenCount
        untrustedUsed :=
          if s.1.containsUntrustedInput then l.untrustedUsed + s.1.tokenCount else l.untrustedUsed
        ordered := l.ordered ++ [s.1]
        skipped := l.skipped } (seen ++ [s]) := by
  have hpack : (quotas budget).pack (seen ++ [s]) = (quotas budget).pack seen ++ [s] :=
    select_concat.trans (choose_pos hfits)
  refine ⟨?_, ?_, ?_, fun k hk => ?_⟩
  · rw [hpack, Quotas.total_append, Quotas.total_singleton, ← h.used]
    rfl
  · rw [hpack, Quotas.spent_concat, ← h.untrustedUsed]
    change (if s.1.containsUntrustedInput = true then _ else _) =
      l.untrustedUsed + if s.1.containsUntrustedInput = true then s.1.tokenCount else 0
    split
    · rfl
    · rw [add_zero]
  · rw [hpack, List.map_append, ← h.ordered]
    rfl
  · obtain ⟨s', hs', hplace, hout⟩ := h.skipped k hk
    refine ⟨s', List.mem_append_left _ hs', hplace, ?_⟩
    rw [hpack]
    intro hmem
    rcases List.mem_append.1 hmem with hmem | hmem
    · exact hout hmem
    · rw [List.mem_singleton.1 hmem] at hs'
      exact hs hs'

/-- **One turn of the loop is one choice.** -/
theorem Layout.Refines.place (h : l.Refines budget seen) (hs : s ∉ seen) :
    Layout.Refines budget (l.place budget (budget / 4) s) (seen ++ [s]) := by
  unfold Layout.place
  by_cases hcap : s.1.containsUntrustedInput = true ∧
      l.untrustedUsed + s.1.tokenCount > budget / 4
  · rw [if_pos hcap]
    refine h.pass hs (Quotas.admits_eq_false_iff.2 (.inl ⟨hcap.1, ?_⟩)) _
    rw [← h.untrustedUsed]
    exact hcap.2
  rw [if_neg hcap]
  by_cases hbudget : l.used + s.1.tokenCount > budget ∧
      ¬["system_policy", "task_goal"].contains s.1.segmentType
  · rw [if_pos hbudget]
    refine h.pass hs (Quotas.admits_eq_false_iff.2 (.inr ⟨?_, ?_⟩)) _
    · exact Bool.eq_false_iff.2 hbudget.2
    · rw [← h.used]
      exact hbudget.1
  rw [if_neg hbudget]
  refine h.take hs (Quotas.admits_iff.2 ⟨fun hlim => ?_, fun hexempt => ?_⟩)
  · rw [← h.untrustedUsed]
    exact not_lt.1 fun hlt => hcap ⟨hlim, hlt⟩
  · rw [← h.used]
    exact not_lt.1 fun hlt => hbudget ⟨hlt, Bool.eq_false_iff.1 hexempt⟩

/-- **The loop is the packing.** -/
theorem foldl_place_refines (hnodup : order.Nodup) :
    Layout.Refines budget (order.foldl (Layout.place budget (budget / 4)) ⟨0, 0, [], []⟩) order := by
  induction order using List.reverseRecOn with
  | nil => exact ⟨rfl, rfl, rfl, fun k hk => by cases hk⟩
  | append_singleton order s ih =>
    rw [List.foldl_concat]
    have hsplit := List.nodup_append.1 hnodup
    refine (ih hsplit.1).place fun hs => ?_
    exact hsplit.2.2 s hs s List.mem_cons_self rfl

end loop

/-! ## Assembling again -/

/-- What `markSkipped` makes of the segment at a place. -/
def remark (skipped : List (Nat × String)) (s : Placed) : Placed :=
  (skipped.foldl (fun seg k => if k.1 = s.2 then { seg with includedReason := k.2 } else seg) s.1,
    s.2)

section again

variable {budget : Int} {skipped : List (Nat × String)} {indexed : List Placed}

theorem zipIdx_modify (segments : List ContextSegment) (i : Nat)
    (f : ContextSegment → ContextSegment) : (segments.modify i f).zipIdx =
      segments.zipIdx.map fun s => (if i = s.2 then f s.1 else s.1, s.2) := by
  refine List.ext_getElem? fun j => ?_
  rw [List.getElem?_map, List.getElem?_zipIdx, List.getElem?_zipIdx, List.getElem?_modify]
  cases segments[j]? with
  | none => rfl
  | some seg => simp

theorem markSkipped_zipIdx (segments : List ContextSegment) :
    (markSkipped segments skipped).zipIdx = segments.zipIdx.map (remark skipped) := by
  unfold markSkipped
  induction skipped generalizing segments with
  | nil => exact (List.map_id _).symm
  | cons k skipped ih =>
    rw [List.foldl_cons, ih, zipIdx_modify, List.map_map]
    rfl

/-- Only the reason is written. -/
theorem remark_fields (skipped : List (Nat × String)) (s : Placed) :
    ∃ reason, remark skipped s = ({ s.1 with includedReason := reason }, s.2) := by
  obtain ⟨seg, i⟩ := s
  unfold remark
  induction skipped generalizing seg with
  | nil => exact ⟨seg.includedReason, rfl⟩
  | cons k skipped ih =>
    rw [List.foldl_cons]
    split
    · exact ih { seg with includedReason := k.2 }
    · exact ih seg

theorem remark_of_forall_ne {s : Placed} (h : ∀ k ∈ skipped, k.1 ≠ s.2) :
    remark skipped s = s := by
  unfold remark
  induction skipped with
  | nil => rfl
  | cons k skipped ih =>
    obtain ⟨hk, hrest⟩ := List.forall_mem_cons.1 h
    rw [List.foldl_cons, if_neg hk]
    exact ih hrest

theorem typeOf_remark (s : Placed) : typeOf (remark skipped s) = typeOf s := by
  obtain ⟨reason, h⟩ := remark_fields skipped s
  rw [h]
  rfl

theorem inOrder_remark :
    inOrder (indexed.map (remark skipped)) = (inOrder indexed).map (remark skipped) := by
  have hrest : ∀ l : List Placed,
      (l.map (remark skipped)).filter (fun s => !layerSequence.contains s.1.segmentType) =
        (l.filter fun s => !layerSequence.contains s.1.segmentType).map (remark skipped) := by
    intro l
    rw [List.filter_map]
    congr 1
    refine List.filter_congr fun s _ => ?_
    exact congrArg (fun t => !layerSequence.contains t) (typeOf_remark s)
  have htypes : ∀ l : List Placed, (l.map (remark skipped)).map typeOf = l.map typeOf := by
    intro l
    rw [List.map_map]
    exact List.map_congr_left fun s _ => typeOf_remark s
  unfold inOrder
  dsimp only
  rw [hrest, htypes, groups_map typeOf_remark, groups_map typeOf_remark, List.map_append]
  congr 1
  refine (List.map_insertionSort _ _ _ _ fun s _ s' _ => ?_).symm
  obtain ⟨reason, h⟩ := remark_fields skipped s
  obtain ⟨reason', h'⟩ := remark_fields skipped s'
  rw [h, h']

theorem pack_remark : (quotas budget).pack (indexed.map (remark skipped)) =
    ((quotas budget).pack indexed).map (remark skipped) := by
  refine Quotas.pack_map (fun s => ?_) (fun s => ?_) fun s => ?_
  all_goals
    obtain ⟨reason, h⟩ := remark_fields skipped s
    rw [h]
    rfl

end again

/-! ## The result -/

section assembled

variable {asm : ContextAssembler}

def budgetOf (asm : ContextAssembler) : Int := asm.maxTokens - outputReserveTokens

/-- What the quotas allow of the candidates. -/
def taken (asm : ContextAssembler) : List Placed :=
  (quotas asm.budgetOf).pack (allInOrder asm.segments)

theorem allInOrder_nodup (segments : List ContextSegment) : (allInOrder segments).Nodup :=
  List.Nodup.of_map Prod.snd allInOrder_canonical.places_nodup

theorem layout_refines (asm : ContextAssembler) :
    Layout.Refines asm.budgetOf asm.layout (allInOrder asm.segments) := by
  unfold layout
  dsimp only
  rw [untrustedBudget_eq]
  exact foldl_place_refines (allInOrder_nodup asm.segments)

theorem assemble_ordered (asm : ContextAssembler) :
    asm.assemble.2.1 = asm.taken.map Prod.fst := (layout_refines asm).ordered

/-- What was taken keeps its reason. -/
theorem remark_taken {s : Placed} (hs : s ∈ asm.taken) : remark asm.layout.skipped s = s := by
  refine remark_of_forall_ne fun k hk hplace => ?_
  obtain ⟨s', hs', hplace', hout⟩ := (layout_refines asm).skipped k hk
  have hsame : s' = s :=
    List.inj_on_of_nodup_map allInOrder_canonical.places_nodup hs' (select_sublist.subset hs)
      (hplace'.trans hplace)
  exact hout (hsame ▸ hs)

/-- **Assembling again changes nothing.** -/
theorem assemble_again (asm : ContextAssembler) : asm.assemble.1.assemble.2 = asm.assemble.2 := by
  have horder : allInOrder asm.assemble.1.segments =
      (allInOrder asm.segments).map (remark asm.layout.skipped) := by
    rw [allInOrder_eq, allInOrder_eq, ← inOrder_remark, ← markSkipped_zipIdx]
    rfl
  have htaken : asm.assemble.1.taken = asm.taken := by
    have hpack : asm.assemble.1.taken = asm.taken.map (remark asm.layout.skipped) := by
      rw [taken, horder]
      exact pack_remark
    rw [hpack]
    exact (List.map_congr_left fun s hs => remark_taken hs).trans (List.map_id _)
  have hordered : asm.assemble.1.assemble.2.1 = asm.assemble.2.1 := by
    rw [assemble_ordered, htaken, ← assemble_ordered]
  exact Prod.ext hordered (congrArg renderPrompt hordered)

/-- The tokens of a list of candidates. -/
def tokens (l : List Placed) : Int := (l.map (·.1.tokenCount)).sum

def untrustedTokens (l : List Placed) : Int := tokens (l.filter (·.1.containsUntrustedInput))

def criticalTokens (l : List Placed) : Int := tokens (l.filter (isCritical ·.1))

/-- `taken` is what the quotas leave of the candidates. -/
structure Packed (budget : Int) (order taken : List Placed) : Prop where
  sublist : taken.Sublist order
  critical : ∀ s ∈ order, isCritical s.1 = true → s.1.containsUntrustedInput = false → s ∈ taken
  untrusted : untrustedTokens taken ≤ budget / 4
  total : tokens taken ≤ max budget (criticalTokens taken)
  /-- what is left out broke its quota when its turn came -/
  leftOut : ∀ before s after, order = before ++ s :: after → s ∉ taken →
    ∃ earlier later, taken = earlier ++ later ∧ earlier.Sublist before ∧ later.Sublist after ∧
      (s.1.containsUntrustedInput = true ∧
          budget / 4 < untrustedTokens earlier + s.1.tokenCount ∨
        isCritical s.1 = false ∧ budget < tokens earlier + s.1.tokenCount)

theorem taken_packed (hbudget : 0 ≤ asm.budgetOf) :
    Packed asm.budgetOf (allInOrder asm.segments) asm.taken := by
  have hcanonical : Canonical asm.segments (allInOrder asm.segments) := allInOrder_canonical
  obtain ⟨first, rest, horder, hfirst, hrest⟩ := hcanonical.critical_first
  refine ⟨select_sublist, fun s hs hcrit hplain => Quotas.mem_pack hs hcrit hplain, ?_, ?_, ?_⟩
  · exact Quotas.spent_pack (q := quotas asm.budgetOf) (Int.ediv_nonneg hbudget (by decide))
  · have htotal := Quotas.total_pack (q := quotas asm.budgetOf) hfirst hrest
    rw [← horder] at htotal
    exact htotal
  · intro before s after hsplit hs
    rw [taken, hsplit] at hs ⊢
    obtain ⟨hout, later, htaken, hlater⟩ := select_split hs
    exact ⟨_, later, htaken, select_sublist, hlater, Quotas.admits_eq_false_iff.1 hout⟩

/-! ### Every assembler -/

/-- What is done with an assembler. -/
inductive Call where
  | add (now : Time) (a : Addition)
  | assemble

variable (redact : String → String) (tiktoken : Option (String → Nat))

def call (asm : ContextAssembler) : Call → ContextAssembler
  | .add now a => asm.add redact tiktoken now a
  | .assemble => asm.assemble.1

/-- The assembler after some calls. -/
def built (maxTokens : Int) (redactor : Option (String → String)) (calls : List Call) :
    ContextAssembler := calls.foldl (call redact tiktoken) (create maxTokens redactor)

theorem call_maxTokens (asm : ContextAssembler) (c : Call) :
    (call redact tiktoken asm c).maxTokens = asm.maxTokens := by
  cases c with
  | add now a => rfl
  | assemble => rfl

theorem built_maxTokens (maxTokens : Int) (redactor : Option (String → String))
    (calls : List Call) : (built redact tiktoken maxTokens redactor calls).maxTokens =
      max (outputReserveTokens + 1024) maxTokens := by
  unfold built
  induction calls using List.reverseRecOn with
  | nil => rfl
  | append_singleton calls c ih => rw [List.foldl_concat, call_maxTokens, ih]

theorem call_redactor (asm : ContextAssembler) (c : Call) :
    (call redact tiktoken asm c).redactor = asm.redactor := by
  cases c with
  | add now a => rfl
  | assemble => rfl

theorem built_redactor (maxTokens : Int) (redactor : Option (String → String))
    (calls : List Call) : (built redact tiktoken maxTokens redactor calls).redactor = redactor := by
  unfold built
  induction calls using List.reverseRecOn with
  | nil => rfl
  | append_singleton calls c ih => rw [List.foldl_concat, call_redactor, ih]

/-- The segment that a call adds. -/
def Call.segment? (asm : ContextAssembler) : Call → Option ContextSegment
  | .add now a => some (asm.newSegment redact tiktoken now a)
  | .assemble => none

/-- The segments that the `add` calls give. -/
def given (maxTokens : Int) (redactor : Option (String → String)) (calls : List Call) :
    List ContextSegment :=
  calls.filterMap (Call.segment? redact tiktoken (create maxTokens redactor))

/-- A segment but for its reason, which `assemble` writes over if it passes the segment over. -/
def unreasoned (s : ContextSegment) : ContextSegment := { s with includedReason := "" }

theorem markSkipped_unreasoned (segments : List ContextSegment) (skipped : List (Nat × String)) :
    (markSkipped segments skipped).map unreasoned = segments.map unreasoned := by
  have hfst : ∀ l : List ContextSegment, l = l.zipIdx.map Prod.fst := fun l =>
    (List.zipIdx_map_fst 0 l).symm
  rw [hfst (markSkipped segments skipped), markSkipped_zipIdx, List.map_map, List.map_map]
  conv_rhs => rw [hfst segments, List.map_map]
  refine List.map_congr_left fun s _ => ?_
  obtain ⟨reason, h⟩ := remark_fields skipped s
  simp only [Function.comp_apply, h, unreasoned]

/-- Only the redactor of an assembler goes into a new segment. -/
theorem newSegment_congr {asm' : ContextAssembler} (h : asm.redactor = asm'.redactor) (now : Time)
    (a : Addition) :
    asm.newSegment redact tiktoken now a = asm'.newSegment redact tiktoken now a := by
  unfold newSegment scrub
  rw [h]

/-- The segments are those that were added, in that order, -/
theorem built_unreasoned (maxTokens : Int) (redactor : Option (String → String))
    (calls : List Call) : (built redact tiktoken maxTokens redactor calls).segments.map unreasoned =
      (given redact tiktoken maxTokens redactor calls).map unreasoned := by
  unfold given
  induction calls using List.reverseRecOn with
  | nil => rfl
  | append_singleton calls c ih =>
    have hredactor := built_redactor redact tiktoken maxTokens redactor calls
    have hlast : built redact tiktoken maxTokens redactor (calls ++ [c]) =
        call redact tiktoken (built redact tiktoken maxTokens redactor calls) c :=
      List.foldl_concat ..
    rw [hlast, List.filterMap_append, List.map_append, ← ih]
    cases c with
    | add now a =>
      have hnew := @newSegment_congr (built redact tiktoken maxTokens redactor calls) redact tiktoken
        (create maxTokens redactor) hredactor now a
      change (_ ++ [_]).map unreasoned = _
      rw [hnew, List.map_append]
      rfl
    | assemble =>
      refine (markSkipped_unreasoned _ _).trans ?_
      exact (List.append_nil _).symm

/-- with the reasons they were added with until something is assembled. -/
theorem built_given (maxTokens : Int) (redactor : Option (String → String)) (calls : List Call)
    (hadds : Call.assemble ∉ calls) : (built redact tiktoken maxTokens redactor calls).segments =
      given redact tiktoken maxTokens redactor calls := by
  unfold given
  induction calls using List.reverseRecOn with
  | nil => rfl
  | append_singleton calls c ih =>
    rw [List.mem_append, not_or] at hadds
    have hredactor := built_redactor redact tiktoken maxTokens redactor calls
    have hlast : built redact tiktoken maxTokens redactor (calls ++ [c]) =
        call redact tiktoken (built redact tiktoken maxTokens redactor calls) c :=
      List.foldl_concat ..
    rw [hlast, List.filterMap_append, ← ih hadds.1]
    cases c with
    | add now a =>
      have hnew := @newSegment_congr (built redact tiktoken maxTokens redactor calls) redact tiktoken
        (create maxTokens redactor) hredactor now a
      change _ ++ [_] = _
      rw [hnew]
      rfl
    | assemble => exact absurd List.mem_cons_self hadds.2

/-- There is always something to spend. -/
theorem built_budget (maxTokens : Int) (redactor : Option (String → String))
    (calls : List Call) : 1024 ≤ (built redact tiktoken maxTokens redactor calls).budgetOf := by
  rw [budgetOf, built_maxTokens, outputReserveTokens]
  omega

/-- **Context packing respects its quotas**, whatever was added and assembled before: it packs the
segments that were added, and assembling again gives the same segments and the same prompt. -/
theorem assemble_packed (maxTokens : Int) (redactor : Option (String → String))
    (calls : List Call) :
    let asm := built redact tiktoken maxTokens redactor calls
    let segments := given redact tiktoken maxTokens redactor calls
    (asm.segments.map unreasoned = segments.map unreasoned ∧
      (Call.assemble ∉ calls → asm.segments = segments)) ∧
    (∃ order taken, Canonical asm.segments order ∧ asm.assemble.2.1 = taken.map Prod.fst ∧
      Packed asm.budgetOf order taken) ∧ asm.assemble.1.assemble.2 = asm.assemble.2 := by
  intro asm segments
  have hbudget : 1024 ≤ asm.budgetOf := built_budget redact tiktoken maxTokens redactor calls
  refine ⟨⟨built_unreasoned redact tiktoken maxTokens redactor calls,
    built_given redact tiktoken maxTokens redactor calls⟩,
    ⟨allInOrder asm.segments, asm.taken, allInOrder_canonical, assemble_ordered asm, ?_⟩,
    assemble_again asm⟩
  exact taken_packed (by omega)

end assembled

/-- A message from outside that is too long for its quota comes before the goal. -/
def roomCalls : List Call :=
  [.add 0 { segmentType := "untrusted", content := "We meet at noon.", untrusted := true }, .assemble,
    .add 0 { segmentType := "task_goal", content := "Summarise the room." }]

theorem assemble_packed_room :
    let asm := built id (some fun _ => 300) 0 none roomCalls
    asm.segments.map (·.segmentType) = ["untrusted", "task_goal"] ∧
    ∃ order taken, Canonical asm.segments order ∧ asm.assemble.2.1 = taken.map Prod.fst ∧
      Packed asm.budgetOf order taken ∧ untrustedTokens taken ≤ 256 ∧ taken.length = 1 := by
  intro asm
  obtain ⟨⟨hsegments, -⟩, ⟨order, taken, horder, htaken, hpacked⟩, -⟩ :=
    assemble_packed id (some fun _ => 300) 0 none roomCalls
  have htypes := congrArg (List.map (·.segmentType)) hsegments
  simp only [List.map_map] at htypes
  refine ⟨htypes, order, taken, horder, htaken, hpacked, hpacked.untrusted, ?_⟩
  have hlen : asm.assemble.2.1.length = 1 := by decide +kernel
  rw [htaken, List.length_map] at hlen
  exact hlen

end Observatory.ContextAssembler
