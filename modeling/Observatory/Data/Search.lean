import Observatory.Data.Matches

/-!
# Searching

Whether an expression matches somewhere in a text (`Re.search`).  If it does not look at the edges
of words, what stands around a match does not matter, so that a text in which it is found can be
extended on both sides (`Re.search_pad`).
-/

namespace Regex.Re

variable {α : Type}

/-- There is a match somewhere. -/
def search (r : Re α) : Option α → List α → Bool
  | prev, [] => !(r.run prev []).isEmpty
  | prev, c :: x => !(r.run prev (c :: x)).isEmpty || r.search (some c) x

/-- No edge of a word is asked for. -/
def edgeless : Re α → Bool
  | .eps | .one _ | .many .. => true
  | .seq a b | .alt a b => a.edgeless && b.edgeless
  | .opt a => a.edgeless
  | .boundary _ => false

variable {r : Re α} {prev prev' : Option α} {x : List α}

/-- A match stays one if something follows, whatever stands before it. -/
theorem mem_run_append (hr : r.edgeless) (post : List α) {m rest : List α}
    (h : (m, rest) ∈ r.run prev x) : (m, rest ++ post) ∈ r.run prev' (x ++ post) := by
  induction r generalizing prev prev' x m rest with
  | eps =>
    cases List.mem_singleton.1 h
    exact List.mem_singleton_self _
  | one p =>
    obtain ⟨c, hc, hm, hx⟩ := mem_run_one.1 h
    exact mem_run_one.2 ⟨c, hc, hm, by rw [hx]; rfl⟩
  | seq a b iha ihb =>
    simp only [edgeless, Bool.and_eq_true] at hr
    obtain ⟨⟨m₁, mid⟩, h₁, ⟨m₂, rest'⟩, h₂, heq⟩ := mem_run_seq.1 h
    obtain ⟨rfl, rfl⟩ := Prod.mk.inj heq
    exact mem_run_seq.2 ⟨(m₁, mid ++ post), iha hr.1 h₁, (m₂, _), ihb hr.2 h₂, rfl⟩
  | alt a b iha ihb =>
    simp only [edgeless, Bool.and_eq_true] at hr
    rcases mem_run_alt.1 h with h | h
    · exact mem_run_alt.2 (.inl (iha hr.1 h))
    · exact mem_run_alt.2 (.inr (ihb hr.2 h))
  | opt a iha =>
    rcases mem_run_opt.1 h with h | h
    · exact mem_run_opt.2 (.inl (iha hr h))
    · cases h
      exact mem_run_opt.2 (.inr rfl)
  | many p lo hi =>
    obtain ⟨hx, hall, hlo, hhi⟩ := mem_run_many.1 h
    refine mem_run_many.2 ⟨?_, hall, hlo, hhi⟩
    rw [← hx, List.append_assoc]
  | boundary word => cases hr

theorem search_iff : r.search prev x = true ↔
    ∃ u v m, x = u ++ v ∧ m ∈ r.run (u.getLast?.or prev) v := by
  have hne : ∀ {l : List (List α × List α)}, (!l.isEmpty) = true ↔ ∃ m, m ∈ l := by
    intro l
    cases l with
    | nil => simp
    | cons m l => exact ⟨fun _ => ⟨m, List.mem_cons_self⟩, fun _ => rfl⟩
  induction x generalizing prev with
  | nil =>
    rw [search, hne]
    constructor
    · rintro ⟨m, hm⟩
      exact ⟨[], [], m, rfl, hm⟩
    · rintro ⟨u, v, m, hx, hm⟩
      obtain ⟨rfl, rfl⟩ := List.append_eq_nil_iff.1 hx.symm
      exact ⟨m, hm⟩
  | cons c x ih =>
    rw [search, Bool.or_eq_true, hne]
    constructor
    · rintro (⟨m, hm⟩ | h)
      · exact ⟨[], c :: x, m, rfl, hm⟩
      · obtain ⟨u, v, m, rfl, hm⟩ := ih.1 h
        refine ⟨c :: u, v, m, rfl, ?_⟩
        rwa [List.getLast?_cons, Option.some_or, ← Option.or_some]
    · rintro ⟨u, v, m, hx, hm⟩
      cases u with
      | nil =>
        cases hx
        exact .inl ⟨m, hm⟩
      | cons d u =>
        obtain ⟨rfl, rfl⟩ := List.cons.inj hx
        rw [List.getLast?_cons, Option.some_or, ← Option.or_some] at hm
        exact .inr (ih.2 ⟨u, v, m, rfl, hm⟩)

/-- **What is found in a text is found in a longer one.** -/
theorem search_pad (hr : r.edgeless) (pre post : List α) (h : r.search prev x = true) :
    r.search prev' (pre ++ x ++ post) = true := by
  obtain ⟨u, v, m, rfl, hm⟩ := search_iff.1 h
  refine search_iff.2 ⟨pre ++ u, v ++ post, (m.1, m.2 ++ post), ?_, mem_run_append hr post hm⟩
  simp only [List.append_assoc]

/-- **Where no match begins** need not be searched. -/
theorem search_skip (hr : r.edgeless) {pre : List α}
    (hdead : ∀ c ∈ pre, ∀ prev y, r.run prev (c :: y) = []) :
    r.search prev (pre ++ x) = r.search prev' x := by
  refine Bool.eq_iff_iff.2 ⟨fun h => ?_, fun h => ?_⟩
  · obtain ⟨u, v, m, hx, hm⟩ := search_iff.1 h
    rcases List.append_eq_append_iff.1 hx with ⟨u', rfl, rfl⟩ | ⟨w, rfl, rfl⟩
    · have hmem := @mem_run_append _ _ _ (u'.getLast?.or prev') _ hr [] m.1 m.2 hm
      rw [List.append_nil] at hmem
      exact search_iff.2 ⟨u', v, _, rfl, hmem⟩
    · cases w with
      | nil =>
        have hmem := @mem_run_append _ _ _ prev' _ hr [] m.1 m.2 hm
        rw [List.append_nil] at hmem
        exact search_iff.2 ⟨[], x, _, rfl, hmem⟩
      | cons c w =>
        have hc : c ∈ u ++ c :: w := List.mem_append_right u List.mem_cons_self
        have hnone := hdead c hc (u.getLast?.or prev) (w ++ x)
        rw [List.cons_append, hnone] at hm
        cases hm
  · have hpad := @search_pad _ _ _ prev _ hr pre [] h
    rwa [List.append_nil] at hpad

end Regex.Re
