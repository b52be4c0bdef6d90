import Mathlib.Algebra.BigOperators.Group.List.Lemmas
import Mathlib.Algebra.GroupWithZero.Nat
import Mathlib.Data.List.Sort
import Observatory.Model.Evaluations

/-!
# No evaluation is passed over

Who turns the pages of the list from its first one on sees every evaluation that was there when it
began, however many the scorer commits in the meantime: they come in front, so a page may show
again what the page before it has shown, but it passes nothing over (`Walk`).  The one way to miss
an evaluation is the last page: Next is disabled by a count, and what is committed between the count
and the page pushes as many off the end (`evaluations_paged`).
-/

namespace Observatory.Evaluations

open Offsets (page Ahead NewestFirst mem_page_or_drop page_sublist)

namespace World

variable (env : Env)

/-- The rows the page asks for, as the list has them. -/
def rows (w : World) : List Evaluation := env.order (w.evaluations.filter (w.wanted env))

/-- The items on the screen. -/
def screen (w : World) : List Item := (w.shown.map Page.items).getD []

end World

/-- The filter stays. -/
def Action.keepsFilter : Action → Bool
  | .setTier _ | .setRoom _ | .clear => false
  | _ => true

/-- No two rows have one time. -/
def Apart (rows : List Evaluation) : Prop := rows.Pairwise fun x y => x.evaluatedAt ≠ y.evaluatedAt

/-- What is committed is newer than all that was. -/
def InOrder : List Evaluation → List Action → Prop
  | _, [] => True
  | tb, .commit new :: acts =>
    Apart new ∧ (∀ x ∈ tb, ∀ y ∈ new, x.evaluatedAt < y.evaluatedAt) ∧ InOrder (tb ++ new) acts
  | tb, _ :: acts => InOrder tb acts

section walk

variable {env : Env} {old : List Evaluation} {items more : List Item} {w : World}

/-- A row of the table that is asked for. -/
def Real (env : Env) (w : World) (item : Item) : Prop :=
  ∃ e ∈ w.evaluations, w.wanted env e = true ∧ itemOf env e = item

/-- What a page that is answered at the offset of `w` promises. -/
structure Page.Fits (env : Env) (old : List Evaluation) (items : List Item) (w : World)
    (p : Page) : Prop where
  real : ∀ item ∈ p.items, Real env w item
  total_le : p.total ≤ (w.rows env).length
  total_of_nil : p.items = [] → p.total ≤ w.offset
  ahead : Ahead old (fun e => itemOf env e ∈ items ∨ itemOf env e ∈ p.items) (w.rows env)
    (w.offset + World.limit)

def Fetch.Sound (env : Env) (old : List Evaluation) (items : List Item) (w : World) : Fetch → Prop
  | .counted rows => rows <+: w.evaluations
  | .answered p | .loaded p => p.Fits env old items w
  | .sent | .failed => True

/-- **A reader of the list** who has seen the `items`, of the `old` rows that were there when it
began. -/
structure Walk (env : Env) (old : List Evaluation) (items : List Item) (w : World) : Prop where
  apart : Apart w.evaluations
  real : ∀ item ∈ items, Real env w item
  ahead : Ahead old (fun e => itemOf env e ∈ items) (w.rows env) w.offset
  fetch : w.fetch.Sound env old items w

/-! ## What is on the screen -/

theorem screen_loaded {p : Page} (h : w.fetch = .loaded p) : w.screen = p.items := by
  simp [World.screen, World.shown, h]

theorem loaded_of_shown {p : Page} (h : w.shown = some p) : w.fetch = .loaded p := by
  unfold World.shown at h
  split at h
  · rename_i q hq
    cases h
    exact hq
  · cases h

theorem Page.Fits.widen {p : Page} (h : p.Fits env old items w) :
    p.Fits env old (items ++ more) w where
  __ := h
  ahead := h.ahead.mono fun _ he => he.imp_left (List.mem_append_left _)

/-- What is on the screen has been seen. -/
theorem Walk.show (h : Walk env old items w) : Walk env old (items ++ w.screen) w where
  apart := h.apart
  real := by
    intro item hitem
    rcases List.mem_append.1 hitem with hitem | hitem
    · exact h.real item hitem
    · cases hp : w.shown with
      | none =>
        rw [World.screen, hp] at hitem
        cases hitem
      | some p =>
        have hfits := h.fetch
        rw [loaded_of_shown hp] at hfits
        rw [screen_loaded (loaded_of_shown hp)] at hitem
        exact hfits.real item hitem
  ahead := h.ahead.mono fun _ => List.mem_append_left _
  fetch := by
    have hfetch := h.fetch
    cases hf : w.fetch with
    | sent | failed => trivial
    | counted rows =>
      rw [hf] at hfetch
      exact hfetch
    | answered p | loaded p =>
      rw [hf] at hfetch
      exact hfetch.widen

/-! ## New rows -/

section commit

variable {new : List Evaluation}

/-- The table with the new rows. -/
abbrev World.with (w : World) (new : List Evaluation) : World :=
  { w with evaluations := w.evaluations ++ new }

theorem Apart.filter {rows : List Evaluation} (h : Apart rows) (f : Evaluation → Bool) :
    Apart (rows.filter f) := List.Pairwise.filter f h

/-- **New rows come in front.** -/
theorem rows_with (horder : NewestFirst Evaluation.evaluatedAt env.order)
    (hw : Apart w.evaluations) (hnew : Apart new)
    (hnewer : ∀ x ∈ w.evaluations, ∀ y ∈ new, x.evaluatedAt < y.evaluatedAt) :
    (w.with new).rows env = env.order (new.filter (w.wanted env)) ++ w.rows env := by
  unfold World.rows
  rw [← horder.append (hw.filter _) (hnew.filter _), ← List.filter_append]
  · rfl
  · intro x hx y hy
    exact hnewer x (List.mem_filter.1 hx).1 y (List.mem_filter.1 hy).1

theorem Real.with {item : Item} (h : Real env w item) : Real env (w.with new) item := by
  obtain ⟨e, he, hwanted, rfl⟩ := h
  exact ⟨e, List.mem_append_left _ he, hwanted, rfl⟩

theorem Page.Fits.with {p : Page} {front : List Evaluation} (h : p.Fits env old items w)
    (hrows : (w.with new).rows env = front ++ w.rows env) :
    p.Fits env old items (w.with new) where
  real item hitem := (h.real item hitem).with
  total_le := by
    rw [hrows, List.length_append]
    exact h.total_le.trans (Nat.le_add_left ..)
  total_of_nil := h.total_of_nil
  ahead := by
    rw [hrows]
    exact h.ahead.grow

theorem Walk.with (h : Walk env old items w)
    (horder : NewestFirst Evaluation.evaluatedAt env.order) (hnew : Apart new)
    (hnewer : ∀ x ∈ w.evaluations, ∀ y ∈ new, x.evaluatedAt < y.evaluatedAt) :
    Walk env old items (w.with new) := by
  have hrows := rows_with horder h.apart hnew hnewer
  refine ⟨?_, fun item hitem => (h.real item hitem).with, ?_, ?_⟩
  · exact List.pairwise_append.2
      ⟨h.apart, hnew, fun x hx y hy => ne_of_lt (hnewer x hx y hy)⟩
  · rw [hrows]
    exact h.ahead.grow
  · have hfetch := h.fetch
    show w.fetch.Sound env old items (w.with new)
    cases hf : w.fetch with
    | sent | failed => trivial
    | counted rows =>
      rw [hf] at hfetch
      exact hfetch.trans (List.prefix_append ..)
    | answered p | loaded p =>
      rw [hf] at hfetch
      exact hfetch.with hrows

end commit

/-! ## A request -/

/-- The `WHERE` of the page's request. -/
theorem wanted_eq (w : World) :
    w.wanted env = selects env (World.query w.tier) (World.query (env.trim w.room)) := rfl

/-- **What the endpoint answers fits.** -/
theorem fits_answer (h : Walk env old items w)
    (horder : NewestFirst Evaluation.evaluatedAt env.order) {counted : List Evaluation}
    (hcounted : counted <+: w.evaluations) :
    (agentEvaluations env counted w.evaluations (World.query w.tier)
      (World.query (env.trim w.room)) World.limit w.offset).Fits env old items w := by
  have hitems : (agentEvaluations env counted w.evaluations (World.query w.tier)
      (World.query (env.trim w.room)) World.limit w.offset).items =
      (page w.offset World.limit (w.rows env)).map (itemOf env) := by
    simp [agentEvaluations, World.rows, World.limit, wanted_eq]
  have htotal : (counted.filter (w.wanted env)).length ≤ (w.rows env).length := by
    calc (counted.filter (w.wanted env)).length
        ≤ (w.evaluations.filter (w.wanted env)).length :=
          (hcounted.sublist.filter _).length_le
      _ = (w.rows env).length := (horder.perm _).length_eq.symm
  refine ⟨?_, htotal, ?_, ?_⟩
  · rw [hitems]
    intro item hitem
    obtain ⟨e, he, rfl⟩ := List.mem_map.1 hitem
    obtain ⟨hmem, hwanted⟩ := List.mem_filter.1 ((horder.perm _).mem_iff.1 (page_sublist.subset he))
    exact ⟨e, hmem, hwanted, rfl⟩
  · rw [hitems]
    intro hnil
    have hempty : page w.offset World.limit (w.rows env) = [] := List.map_eq_nil_iff.1 hnil
    have hlength := congrArg List.length hempty
    rw [page, List.length_take, List.length_drop, List.length_nil] at hlength
    have hlimit : World.limit = 20 := rfl
    exact htotal.trans (by omega)
  · rw [hitems]
    refine h.ahead.turn (fun _ => .inl) fun e he => .inr ?_
    exact List.mem_map_of_mem he

/-- The request goes on. -/
theorem Walk.refetch (h : Walk env old items w) {f : Fetch} (hf : f.Sound env old items w) :
    Walk env old items { w with fetch := f } := by
  refine ⟨h.apart, h.real, h.ahead, ?_⟩
  cases f with
  | sent | failed => trivial
  | counted rows => exact hf
  | answered p | loaded p => exact ⟨hf.real, hf.total_le, hf.total_of_nil, hf.ahead⟩

theorem Walk.goTo {o : Nat} (h : Walk env old items w)
    (ho : Ahead old (fun e => itemOf env e ∈ items) (w.rows env) o) :
    Walk env old items (w.goTo w.tier w.room o) := by
  unfold World.goTo
  split
  · exact h
  · exact ⟨h.apart, h.real, ho, trivial⟩

@[simp] theorem goTo_evaluations (tier room : String) (o : Nat) :
    (w.goTo tier room o).evaluations = w.evaluations := by
  unfold World.goTo
  split <;> rfl

theorem loaded_of_canNext (h : w.canNext = true) : ∃ p, w.fetch = .loaded p := by
  unfold World.canNext at h
  cases hs : w.shown with
  | none =>
    rw [hs] at h
    cases h
  | some p => exact ⟨p, loaded_of_shown hs⟩

/-- **A step** keeps the reader. -/
theorem Walk.step (horder : NewestFirst Evaluation.evaluatedAt env.order)
    (h : Walk env old items w) (hscreen : w.screen ⊆ items) {a : Action} {acts : List Action}
    (hin : InOrder w.evaluations (a :: acts)) (ha : a.keepsFilter = true) :
    Walk env old items (w.step env a) ∧ InOrder (w.step env a).evaluations acts := by
  have hfetch := h.fetch
  cases a with
  | commit new =>
    obtain ⟨hnew, hnewer, hin⟩ := hin
    exact ⟨h.with horder hnew hnewer, hin⟩
  | count =>
    simp only [World.step]
    split
    · exact ⟨h.refetch List.prefix_rfl, hin⟩
    · exact ⟨h, hin⟩
  | select =>
    simp only [World.step]
    split
    · rename_i counted hf
      rw [hf] at hfetch
      exact ⟨h.refetch (fits_answer h horder hfetch), hin⟩
    · exact ⟨h, hin⟩
  | arrive =>
    simp only [World.step]
    split
    · rename_i p hf
      rw [hf] at hfetch
      exact ⟨h.refetch hfetch, hin⟩
    · exact ⟨h, hin⟩
  | fail =>
    simp only [World.step]
    split
    · exact ⟨h, hin⟩
    · exact ⟨h.refetch trivial, hin⟩
  | reload => exact ⟨h.refetch trivial, hin⟩
  | previous =>
    simp only [World.step]
    split
    · rw [goTo_evaluations]
      exact ⟨h.goTo (h.ahead.back (Nat.sub_le ..)), hin⟩
    · exact ⟨h, hin⟩
  | next =>
    simp only [World.step]
    split
    · rename_i hnext
      obtain ⟨p, hf⟩ := loaded_of_canNext hnext
      rw [hf] at hfetch
      rw [screen_loaded hf] at hscreen
      -- all that the page shows has been seen
      have hon : Ahead old (fun e => itemOf env e ∈ items) (w.rows env)
          (w.offset + World.limit) := hfetch.ahead.mono fun _ he => he.elim id (hscreen ·)
      rw [goTo_evaluations]
      exact ⟨h.goTo hon, hin⟩
    · exact ⟨h, hin⟩
  | setTier tier => cases ha
  | setRoom room => cases ha
  | clear => cases ha

/-- **A run** keeps the reader. -/
theorem Walk.run (horder : NewestFirst Evaluation.evaluatedAt env.order) {acts : List Action}
    (h : Walk env old items w) (hin : InOrder w.evaluations acts)
    (hacts : ∀ a ∈ acts, a.keepsFilter = true) :
    Walk env old (items ++ w.seen env acts) (w.run env acts) := by
  induction acts generalizing items w with
  | nil => exact h.show
  | cons a acts ih =>
    obtain ⟨hstep, hrest⟩ := h.show.step horder
      (List.subset_append_right ..) hin (hacts a List.mem_cons_self)
    have hrun := ih hstep hrest fun a ha => hacts a (List.mem_cons_of_mem _ ha)
    rw [List.append_assoc] at hrun
    exact hrun

/-- On the last page, the offset is not below the total. -/
theorem total_le_of_last {p : Page} (h : p.Fits env old items w) (hf : w.fetch = .loaded p)
    (hlast : w.canNext = false) : p.total ≤ w.offset + World.limit := by
  unfold World.canNext World.shown at hlast
  rw [hf] at hlast
  simp only [Option.any_some, Bool.and_eq_false_iff, Bool.not_eq_false', decide_eq_false_iff_not,
    List.isEmpty_iff, not_lt] at hlast
  rcases hlast with hnil | hle
  · exact (h.total_of_nil hnil).trans (Nat.le_add_right ..)
  · exact hle

theorem screen_subset_seen (acts : List Action) :
    (w.run env acts).screen ⊆ w.seen env acts := by
  induction acts generalizing w with
  | nil => exact List.Subset.refl _
  | cons a acts ih => exact List.Subset.trans ih (List.subset_append_right ..)

/-- **No evaluation is passed over.**  A run of the page from its first request for a filter on
shows rows of that filter only.  When there is no page to turn to, the rows that it asked for at the
start and has not shown are at most as many as have been committed since the last count. -/
theorem evaluations_paged (horder : NewestFirst Evaluation.evaluatedAt env.order) {w : World}
    {acts : List Action} (hapart : Apart w.evaluations) (hoffset : w.offset = 0)
    (hsent : w.fetch = .sent) (hin : InOrder w.evaluations acts)
    (hfilter : ∀ a ∈ acts, a.keepsFilter = true) :
    (∀ item ∈ w.seen env acts, Real env (w.run env acts) item) ∧
    ∀ p, (w.run env acts).shown = some p → (w.run env acts).canNext = false →
      ∀ missed : List Evaluation, missed.Nodup →
        (∀ e ∈ missed, e ∈ w.evaluations ∧ w.wanted env e = true ∧
          itemOf env e ∉ w.seen env acts) →
        missed.length + p.total ≤
          (w.run env acts).evaluations.countP ((w.run env acts).wanted env) := by
  have hwalk : Walk env (w.rows env) [] w := by
    refine ⟨hapart, by simp, ?_, ?_⟩
    · rw [hoffset]
      exact Ahead.refl
    · rw [hsent]
      trivial
  have hrun := hwalk.run horder hin hfilter
  rw [List.nil_append] at hrun
  refine ⟨hrun.real, fun p hp hlast missed hnodup hmissed => ?_⟩
  have hf := loaded_of_shown hp
  have hfits := hrun.fetch
  rw [hf] at hfits
  have hscreen : p.items ⊆ w.seen env acts := screen_loaded hf ▸ screen_subset_seen acts
  have hahead : Ahead (w.rows env) (fun e => itemOf env e ∈ w.seen env acts)
      ((w.run env acts).rows env) ((w.run env acts).offset + World.limit) :=
    hfits.ahead.mono fun _ he => he.elim id (hscreen ·)
  have hold : missed ⊆ w.rows env := fun e he =>
    (horder.perm _).mem_iff.2 (List.mem_filter.2 ⟨(hmissed e he).1, (hmissed e he).2.1⟩)
  have hmissed_le := hahead.missed_le hnodup hold fun e he => (hmissed e he).2.2
  have htotal := total_le_of_last hfits hf hlast
  have hlength : ((w.run env acts).rows env).length =
      (w.run env acts).evaluations.countP ((w.run env acts).wanted env) := by
    rw [List.countP_eq_length_filter]
    exact (horder.perm _).length_eq
  have hle := hfits.total_le
  omega

end walk

/-! ## A walk through two pages -/

/-- Times as they are, and rows in the order of their times. -/
def plain : Env where
  strip := id
  upper := id
  trim := id
  isoformat t := toString t
  order := List.insertionSort fun x y => y.evaluatedAt ≤ x.evaluatedAt

theorem newestFirst_plain : NewestFirst Evaluation.evaluatedAt plain.order where
  perm := List.perm_insertionSort _
  sorted := List.pairwise_insertionSort _

/-- The evaluation of the message `n` of one room. -/
def numbered (n : Nat) : Evaluation where
  room := "lobby"
  seq := n
  globalSeq := n
  nick := "a"
  did := none
  text := ""
  rawJson := []
  score := 0
  tier := "RISKY"
  reason := ""
  dimensions := .null
  model := ""
  id := n
  evaluatedAt := n
  createdAt := n

/-- While the first page is read, a row is committed. -/
def twoPages : List Action :=
  [.count, .select, .commit [numbered 21], .arrive, .next, .count, .select, .arrive]

/-- One row more than a page has room for. -/
def crowded : World := { evaluations := (List.range 21).map numbered, tier := "RISKY" }

theorem evaluations_paged_two :
    (∀ item ∈ crowded.seen plain twoPages, Real plain (crowded.run plain twoPages) item) ∧
    itemOf plain (numbered 0) ∈ crowded.seen plain twoPages := by
  have hapart : Apart crowded.evaluations := by
    unfold Apart
    decide
  have hin : InOrder crowded.evaluations twoPages :=
    ⟨List.pairwise_singleton .., by decide, trivial⟩
  obtain ⟨hreal, hpaged⟩ := evaluations_paged newestFirst_plain hapart rfl rfl hin (by decide)
  refine ⟨hreal, ?_⟩
  have htotal : (crowded.run plain twoPages).shown.map Page.total = some 22 := by decide +kernel
  obtain ⟨p, hp, htotal⟩ := Option.map_eq_some_iff.1 htotal
  have hcount : (crowded.run plain twoPages).evaluations.countP
      ((crowded.run plain twoPages).wanted plain) = 22 := by decide +kernel
  have hlast : (crowded.run plain twoPages).canNext = false := by decide +kernel
  by_contra hunseen
  have hle := hpaged p hp hlast [numbered 0] (List.nodup_singleton _) fun e he => by
    rw [List.mem_singleton.1 he]
    exact ⟨List.mem_map_of_mem (by decide), by decide, hunseen⟩
  rw [List.length_singleton, htotal, hcount] at hle
  omega

/-! ## The statistics -/

section stats

variable {rows : List Evaluation} {byTier : List (String × Nat)}

/-- Every tier of the rows has its count. -/
structure Tallies (rows : List Evaluation) (byTier : List (String × Nat)) : Prop where
  nodup : (byTier.map Prod.fst).Nodup
  covers : ∀ e ∈ rows, e.tier ∈ byTier.map Prod.fst
  count : ∀ t n, (t, n) ∈ byTier → n = rows.countP (·.tier = t)
  sum : (byTier.map Prod.snd).sum = rows.length

theorem tallies_groupByTier : Tallies rows (groupByTier rows) := by
  have hfst : (groupByTier rows).map Prod.fst = (rows.map (·.tier)).dedup := by
    rw [groupByTier, List.map_map]
    exact List.map_id _
  refine ⟨hfst ▸ List.nodup_dedup _, fun e he => ?_, fun t n h => ?_, ?_⟩
  · rw [hfst, List.mem_dedup]
    exact List.mem_map_of_mem he
  · obtain ⟨t', -, heq⟩ := List.mem_map.1 h
    cases heq
    rfl
  · have hsum := List.sum_map_count_dedup_eq_length (rows.map (·.tier))
    rw [List.length_map] at hsum
    rw [groupByTier, List.map_map, ← hsum]
    refine congrArg List.sum (List.map_congr_left fun t _ => ?_)
    rw [List.count, List.countP_map]
    exact List.countP_congr fun e _ => by simp

/-- A tier without rows gets 0. -/
theorem Tallies.setDefault (h : Tallies rows byTier) (k : String) :
    Tallies rows (setDefault byTier k) := by
  unfold Evaluations.setDefault
  split
  · exact h
  · rename_i hk
    refine ⟨?_, fun e he => ?_, fun t n hmem => ?_, ?_⟩
    · rw [List.map_append, List.nodup_append]
      refine ⟨h.nodup, List.nodup_singleton _, fun t ht t' ht' heq => hk ?_⟩
      rw [heq, List.mem_singleton.1 ht'] at ht
      exact ht
    · rw [List.map_append]
      exact List.mem_append_left _ (h.covers e he)
    · rcases List.mem_append.1 hmem with hmem | hmem
      · exact h.count t n hmem
      · cases List.mem_singleton.1 hmem
        refine (List.countP_eq_zero.2 fun e he htier => hk ?_).symm
        exact of_decide_eq_true htier ▸ h.covers e he
    · rw [List.map_append, List.sum_append, h.sum]
      rfl

theorem Tallies.foldl (h : Tallies rows byTier) (ks : List String) :
    Tallies rows (ks.foldl Evaluations.setDefault byTier) := by
  induction ks generalizing byTier with
  | nil => exact h
  | cons k ks ih => exact ih (h.setDefault k)

theorem tallies_stats (counted rows : List Evaluation) :
    Tallies rows (agentEvaluationsStats counted rows).byTier := by
  unfold agentEvaluationsStats
  simp only
  exact tallies_groupByTier.foldl _

/-- **The statistics agree with the list**: the counts add up to the total, and each is the total of
the list of its tier. -/
theorem stats_agree (env : Env) (limit offset : Int) :
    Tallies rows (agentEvaluationsStats rows rows).byTier ∧
    ∀ t n, (t, n) ∈ (agentEvaluationsStats rows rows).byTier → t ≠ "" →
      env.upper (env.strip t) = t →
      (agentEvaluations env rows rows (some t) none limit offset).total = n := by
  have h := tallies_stats rows rows
  refine ⟨h, fun t n hmem hne hclean => ?_⟩
  have htotal : (agentEvaluations env rows rows (some t) none limit offset).total =
      (rows.filter (selects env (some t) none)).length := rfl
  rw [htotal, h.count t n hmem, List.countP_eq_length_filter]
  refine congrArg List.length (List.filter_congr fun e _ => ?_)
  simp [selects, given, hclean, hne, eq_comm, beq_eq_decide]

end stats

end Observatory.Evaluations
