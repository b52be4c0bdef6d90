import Observatory.Data.Openings

/-!
# How a rule may cut a string

Three kinds of rules, and what must be in a text for one of them to take the front of a string that
stands in it and leave the end.  One runs on from a name to a place where it stops (`running`), one
matches an expression without the mark that ends what is put in (`matching`), and one replaces a
string (`literal`).  Each says so of the text as it is before other rules have gone over it.
-/

namespace Regex

variable {α : Type}

/-- The expression matches the string in some text. -/
def Re.Admits (r : Re α) (z : List α) : Prop := ∃ prev x, (z, x) ∈ r.run prev (z ++ x)

theorem Re.admits_of_mem {r : Re α} {prev : Option α} {x z rest : List α}
    (h : (z, rest) ∈ r.run prev x) : r.Admits z := by
  refine ⟨prev, rest, ?_⟩
  rw [Re.append_of_mem_run h]
  exact h

/-! ## What is put in -/

theorem Rule.mem_puts_of_run {s : Rule α} {prev : Option α} {x old new : List α}
    {y : List (Piece α) × List α} (h : y ∈ s.run prev x) (hmem : .put old new ∈ y.1) :
    new ∈ s.puts := by
  induction s generalizing prev x y with
  | nil =>
    rw [List.mem_singleton.1 h] at hmem
    cases hmem
  | cons portion s ih =>
    obtain ⟨ps, rest⟩ := y
    obtain ⟨m, mid, ps', rfl, -, hrest⟩ := Rule.mem_run_cons.1 h
    rw [puts, List.mem_filterMap]
    rcases List.mem_append.1 hmem with hmem | hmem
    · refine ⟨portion, List.mem_cons_self, ?_⟩
      unfold Portion.pieces at hmem
      split at hmem
      · obtain ⟨c, -, hc⟩ := List.mem_map.1 hmem
        cases hc
      · next new' hput =>
        cases List.mem_singleton.1 hmem
        exact hput
    · obtain ⟨portion', hportion, hput⟩ := List.mem_filterMap.1 (ih hrest hmem)
      exact ⟨portion', List.mem_cons_of_mem _ hportion, hput⟩

theorem Rule.mem_puts {s : Rule α} {x old new : List α} (h : .put old new ∈ s.pieces x) :
    new ∈ s.puts := by
  obtain ⟨ps₁, ps₂, hps⟩ := List.append_of_mem h
  obtain ⟨p, x', prev, m, rest, m₁, m₂, -, -, hrun, rfl, -, -⟩ := Rule.scan_put le_rfl hps
  exact Rule.mem_puts_of_run (List.mem_of_head? hrun)
    (List.mem_append_right m₁ List.mem_cons_self)

theorem Rule.mem_puts_of_eq {s : Rule α} {x old new : List α} {ps₁ ps₂ : List (Piece α)}
    (h : s.pieces x = ps₁ ++ .put old new :: ps₂) : new ∈ s.puts := by
  have hmem : .put old new ∈ s.pieces x := by
    rw [h]
    exact List.mem_append_right _ List.mem_cons_self
  exact Rule.mem_puts hmem

/-- What a rule of a single part puts in the place of. -/
theorem Rule.put_of_single {re : Re α} {new old new' x : List α} {ps₁ ps₂ : List (Piece α)}
    (h : Rule.pieces [⟨re, some new⟩] x = ps₁ ++ .put old new' :: ps₂) :
    ∃ x', x = oldText ps₁ ++ x' ∧
      (Rule.run [⟨re, some new⟩] (oldText ps₁).getLast? x').head? =
        some ([.put old new'], oldText ps₂) ∧
      (re.run (oldText ps₁).getLast? x').head? = some (old, oldText ps₂) := by
  obtain ⟨p, x', prev, m, rest, m₁, m₂, hx, rfl, hrun, hm, hold₁, hold₂⟩ := Rule.scan_put le_rfl h
  obtain ⟨y, hy, hpieces⟩ := Rule.head_run_singleton hrun
  obtain ⟨hput, rfl⟩ := Prod.mk.inj hpieces
  obtain ⟨rfl, rfl, -, rfl⟩ := @Rule.one_put α m₁ m₂ old new' y.1 new [] [] (hm.symm.trans hput)
  rw [List.map_nil, oldText_nil, List.append_nil] at hold₁
  rw [List.map_nil, oldText_nil, List.nil_append] at hold₂
  rw [Option.or_none, ← hold₁] at hy hrun
  rw [hold₂]
  exact ⟨x', by rw [hold₁, hx], hrun.trans (by rw [hm]; rfl), hy⟩

/-- What a rule puts in the place of behind a part that it keeps. -/
theorem Rule.put_of_pair {re re' : Re α} {new old new' x : List α} {ps₁ ps₂ : List (Piece α)}
    (h : Rule.pieces [⟨re, none⟩, ⟨re', some new⟩] x = ps₁ ++ .put old new' :: ps₂) :
    ∃ qs y prev x' prev' mid, ps₁ = qs ++ y.map .keep ∧ (y, mid) ∈ re.run prev x' ∧
      (re'.run prev' mid).head? = some (old, oldText ps₂) := by
  obtain ⟨p, x', prev, m, rest, m₁, m₂, qs, hx, -, hrun, hm, rfl, -, hold₂⟩ :=
    Rule.scan_put_pieces le_rfl h
  obtain ⟨⟨y, mid⟩, hy, z', hz', hpieces⟩ := Rule.head_run_cons hrun
  obtain ⟨z, hz, rfl⟩ := Rule.head_run_singleton hz'
  obtain ⟨hput, rfl⟩ := Prod.mk.inj hpieces
  obtain ⟨rfl, rfl, -, rfl⟩ :=
    @Rule.one_put α m₁ m₂ old new' z.1 new y [] (hm.symm.trans hput)
  rw [List.map_nil, oldText_nil, List.nil_append] at hold₂
  exact ⟨qs, y, prev, x', _, mid, rfl, hy, by rw [hz, hold₂]⟩

/-! ## The kinds of rules -/

/-- Whatever the rule puts in, a string of one of the shapes comes before, with what `rest` matches
up to the end of what is replaced, and the rule stops there. -/
def Found (s : Rule α) (ts : List (Shape α)) (rest : Re α) (stops : α → α → Bool) (short : Prop) :
    Prop :=
  ∀ x ps₁ old new ps₂, s.pieces x = ps₁ ++ .put old new :: ps₂ → ∃ a y z,
    oldText ps₁ ++ old = a ++ (y ++ z) ∧ (∃ t ∈ ts, Fits t y) ∧ rest.Admits z ∧
      (∀ l ∈ (oldText ps₁ ++ old).getLast?, ∀ n ∈ (oldText ps₂).head?, stops l n = true) ∧
      (short → z.length ≤ old.length)

theorem Found.shows {s : Rule α} {ts : List (Shape α)} {rest : Re α} {stops : α → α → Bool}
    (h : Found s ts rest stops True) (x : List α) : Shows ts (s.pieces x) := by
  intro ps₁ old new ps₂ hps
  obtain ⟨a, y, z, htext, ⟨t, ht, hy⟩, -, -, hlen⟩ := h x ps₁ old new ps₂ hps
  exact ⟨t, ht, a, y, z, hy, htext, hlen trivial⟩

theorem Shows.opened_of_put {s : Rule α} {ts : List (Shape α)} {x old new : List α}
    (hs : Shows ts (s.pieces x)) (hmem : .put old new ∈ s.pieces x) : Opened ts x := by
  have hopened := hs.opened hmem
  rwa [Rule.oldText_pieces] at hopened

theorem Found.opened_of_put {s : Rule α} {ts : List (Shape α)} {rest : Re α} {stops : α → α → Bool}
    {short : Prop} (hs : Found s ts rest stops short) {x old new : List α}
    (hmem : .put old new ∈ s.pieces x) : Opened ts x := by
  obtain ⟨ps₁, ps₂, hps⟩ := List.append_of_mem hmem
  obtain ⟨a, y, z, htext, ⟨t, ht, hy⟩, -⟩ := hs x ps₁ old new ps₂ hps
  refine ⟨t, ht, y, hy, a, z ++ oldText ps₂, ?_⟩
  calc a ++ y ++ (z ++ oldText ps₂) = oldText ps₁ ++ old ++ oldText ps₂ := by rw [htext]; simp
    _ = oldText (s.pieces x) := by rw [hps]; simp [Piece.old]
    _ = x := Rule.oldText_pieces s x

/-- A string of one of the shapes stands right before whatever is put in. -/
def Follows (s : Rule α) (ts : List (Shape α)) : Prop :=
  ∀ x ps₁ old new ps₂, s.pieces x = ps₁ ++ .put old new :: ps₂ →
    ∃ t ∈ ts, ∃ y, Fits t y ∧ y <:+ newText ps₁

section pair

variable {re re' : Re α} {new : List α} {ts : List (Shape α)}

theorem found_of_pair {stops : α → α → Bool} (hname : ∀ prev x y mid, (y, mid) ∈ re.run prev x →
    ∃ a y', y = a ++ y' ∧ ∃ t ∈ ts, Fits t y') (hpos : 0 < re'.least)
    (hstops : ∀ prev x old rest, (re'.run prev x).head? = some (old, rest) →
      ∀ l ∈ old.getLast?, ∀ n ∈ rest.head?, stops l n = true) :
    Found [⟨re, none⟩, ⟨re', some new⟩] ts re' stops True := by
  intro x ps₁ old new' ps₂ hps
  obtain ⟨qs, y, prev, x', prev', mid, rfl, hy, hrun⟩ := Rule.put_of_pair hps
  obtain ⟨a, y', rfl, hfits⟩ := hname _ _ _ _ hy
  have hmem := List.mem_of_head? hrun
  have hne : old ≠ [] := List.length_pos_iff.1 (hpos.trans_le (Re.least_le hmem))
  refine ⟨oldText qs ++ a, y', old, by simp, hfits, Re.admits_of_mem hmem, ?_, fun _ => le_rfl⟩
  rw [List.getLast?_append_of_ne_nil _ hne]
  exact hstops _ _ _ _ hrun

theorem follows_of_pair (hname : ∀ prev x y mid, (y, mid) ∈ re.run prev x →
    ∃ a y', y = a ++ y' ∧ ∃ t ∈ ts, Fits t y') :
    Follows [⟨re, none⟩, ⟨re', some new⟩] ts := by
  intro x ps₁ old new' ps₂ hps
  obtain ⟨qs, y, prev, x', prev', mid, rfl, hy, -⟩ := Rule.put_of_pair hps
  obtain ⟨a, y', rfl, t, ht, hfits⟩ := hname _ _ _ _ hy
  exact ⟨t, ht, y', hfits, newText qs ++ a, by simp⟩

end pair

/-- A string of one of the shapes stands right before whatever is put in, or what is replaced begins
with it, and `rest` matches what is left. -/
def Led (s : Rule α) (ts : List (Shape α)) (rest : Re α) : Prop :=
  ∀ x ps₁ old new ps₂, s.pieces x = ps₁ ++ .put old new :: ps₂ → ∃ a y e z,
    (∃ t ∈ ts, Fits t y) ∧ oldText ps₁ ++ e = a ++ y ∧ e <:+ y ∧ old = e ++ z ∧ rest.Admits z

theorem led_of_pair {re re' : Re α} {new : List α} {ts : List (Shape α)}
    (hname : ∀ prev x y mid, (y, mid) ∈ re.run prev x →
      ∃ a y', y = a ++ y' ∧ ∃ t ∈ ts, Fits t y') : Led [⟨re, none⟩, ⟨re', some new⟩] ts re' := by
  intro x ps₁ old new' ps₂ hps
  obtain ⟨qs, y, prev, x', prev', mid, rfl, hy, hrun⟩ := Rule.put_of_pair hps
  obtain ⟨a, y', rfl, hfits⟩ := hname _ _ _ _ hy
  exact ⟨oldText qs ++ a, y', [], old, hfits, by simp, List.nil_suffix, rfl,
    Re.admits_of_mem (List.mem_of_head? hrun)⟩

/-- A string of one of the shapes ends in the copy of `w`, and `rest` matches what follows up to
the `g` behind it and more. -/
def Leads (ts : List (Shape α)) (rest : Re α) (u w : List α) (g : α) : Prop :=
  ∃ a y f c d, w = f ++ c ∧ f ≠ [] ∧ u ++ f = a ++ y ∧ (∃ t ∈ ts, Fits t y) ∧
    rest.Admits (c ++ g :: d)

/-- A string of one of the shapes is part of every match. -/
def Re.Contains (re : Re α) (ts : List (Shape α)) : Prop :=
  ∀ prev x y rest, (y, rest) ∈ re.run prev x → ∃ t ∈ ts, ∃ b o d, Fits t o ∧ y = b ++ (o ++ d)

/-- A rule of a single part shows what is in each of its matches. -/
theorem shows_of_single {re : Re α} {new : List α} {ts : List (Shape α)} (h : re.Contains ts)
    (x : List α) : Shows ts (Rule.pieces [⟨re, some new⟩] x) := by
  intro ps₁ old new' ps₂ hps
  obtain ⟨x', -, -, hrun⟩ := Rule.put_of_single hps
  obtain ⟨t, ht, b, o, d, ho, rfl⟩ := h _ _ _ _ (List.mem_of_head? hrun)
  refine ⟨t, ht, oldText ps₁ ++ b, o, d, ho, by simp, ?_⟩
  simp only [List.length_append]
  omega

namespace Profile

/-- The rule runs from a string of one of the shapes into the string, and stops in it. -/
def running (g : α) (s : Rule α) (ts os : List (Shape α)) (rest : Re α) (stops : α → α → Bool)
    (w t : List α) : Profile α where
  rule := s
  begins := ts
  openings := os
  crosses es u _ := ∃ f c, w = f ++ c ∧ f ≠ [] ∧
    (∀ l ∈ f.getLast?, ∀ n ∈ (c ++ t).head?, stops l n = true) ∧ Runs g ts es rest.Admits (u ++ f)

/-- The rule has a match that ends in the string: between what stands there, if no rule that comes
before has anything to put next to it. -/
def matching (s : Rule α) (os : List (Shape α)) (w t : List α) : Profile α where
  rule := s
  begins := os
  openings := os
  crosses es u v := ∃ f c, w = f ++ c ∧ f ≠ [] ∧ ∃ a ps prev x, u ++ f = a ++ oldText ps ∧
    (s.run prev (oldText ps ++ (c ++ t ++ x))).head? = some (ps, c ++ t ++ x) ∧
    (prev = a.getLast? ∨ Opened es a) ∧ (x.head? = v.head? ∨ Opened es (u ++ (w ++ t) ++ v))

/-- A copy of `y` ends in the string. -/
def literal [DecidableEq α] (g : α) (y new : List α) (w : List α) : Profile α where
  rule := .replacing y new
  begins := [y.map fun l c => c = l]
  openings := [y.map fun l c => c = l]
  crosses _ u _ := ∃ f c, w = f ++ c ∧ f ≠ [] ∧ Ends g y (u ++ f)

/-- What the rule does in the text as it is, unless a rule that comes before has something to put in
it. -/
def restrict (k : Profile α) (w t : List α) (cuts : List α → List α → Prop) : Profile α where
  rule := k.rule
  begins := k.begins
  openings := k.openings
  crosses es u v := k.crosses es u v ∧ (Opened es (u ++ (w ++ t) ++ v) ∨ cuts u v)

/-- The rule cuts in the text as it is, or a rule that comes before has something to put in it. -/
def exact (k : Profile α) (w t : List α) : Profile α := k.restrict w t (Leaves k.rule · w t ·)

end Profile

/-! ## Cuts -/

section cuts

variable {g : α} {w t u v : List α}

theorem running_of_cuts {s : Rule α} {ts os : List (Shape α)} {rest : Re α} {stops : α → α → Bool}
    {short : Prop} (ht : t ≠ []) (hfound : Found s ts rest stops short) (h : Cuts s u w t v) :
    (Profile.running g s ts os rest stops w t).crosses [] u v := by
  obtain ⟨ps₁, old, new, ps₂, f, c, hps, rfl, hf, hold⟩ := h
  obtain ⟨a, y, z, htext, hy, hz, hstops, -⟩ := hfound _ ps₁ old new ps₂ hps
  have hafter : oldText ps₂ = c ++ t ++ v := by
    have hwhole := Rule.oldText_pieces s (u ++ (f ++ c ++ t) ++ v)
    rw [hps, oldText_append, oldText_cons, Piece.old, ← List.append_assoc, hold] at hwhole
    simpa using hwhole
  refine ⟨f, c, rfl, hf, ?_, a, y, z, by rw [← hold, htext], hy, .inl hz⟩
  rw [hold, hafter, List.getLast?_append_of_ne_nil u hf, List.head?_append_of_ne_nil _
    (List.append_ne_nil_of_right_ne_nil c ht)] at hstops
  exact hstops

theorem matching_of_cuts {re : Re α} {new : List α} {os : List (Shape α)}
    (h : Cuts [⟨re, some new⟩] u w t v) :
    (Profile.matching [⟨re, some new⟩] os w t).crosses [] u v := by
  obtain ⟨ps₁, old, new', ps₂, f, c, hps, rfl, hf, hold⟩ := h
  obtain ⟨x, hx, hrun, hre⟩ := Rule.put_of_single hps
  have hmatch : old ++ oldText ps₂ = x := Re.append_of_mem_run (List.mem_of_head? hre)
  have hend : oldText ps₂ = c ++ t ++ v := by
    have hrest : (u ++ f) ++ (c ++ t ++ v) = (u ++ f) ++ oldText ps₂ := by
      calc (u ++ f) ++ (c ++ t ++ v) = oldText ps₁ ++ x := by rw [← hx]; simp
        _ = (u ++ f) ++ oldText ps₂ := by rw [← hold, List.append_assoc, hmatch]
    exact (List.append_cancel_left hrest).symm
  refine ⟨f, c, rfl, hf, oldText ps₁, [.put old new'], _, v, ?_, ?_, .inl rfl, .inl rfl⟩
  · rw [← hold]
    simp [Piece.old]
  · rw [← hend, oldText_cons, oldText_nil, Piece.old, List.append_nil, hmatch]
    exact hrun

theorem literal_contains [DecidableEq α] {y : List α} :
    (Re.literal y).Contains [y.map fun l c => decide (c = l)] := by
  intro prev x m rest hmem
  refine ⟨_, List.mem_cons_self, [], m, [], fits_same.2 ?_, by simp⟩
  rw [Re.run_literal] at hmem
  split at hmem
  · exact (Prod.mk.inj (List.mem_singleton.1 hmem)).1
  · cases hmem

theorem shows_replacing [DecidableEq α] {y new : List α} (x : List α) :
    Shows [y.map fun l c => decide (c = l)] ((Rule.replacing y new).pieces x) :=
  shows_of_single literal_contains x

theorem untouched_replacing [DecidableEq α] {y new x : List α} (h : ¬y <:+: x) :
    (Rule.replacing y new).untouched x := by
  refine untouched_iff.2 fun old new' hmem => h ?_
  obtain ⟨e, he, ho⟩ := (shows_replacing x).opened_of_put hmem
  rw [List.mem_singleton.1 he] at ho
  exact occurs_same.1 ho

theorem literal_of_cuts [DecidableEq α] {y new : List α} (hy : y ≠ [])
    (h : Cuts (.replacing y new) u w t v) : (Profile.literal g y new w).crosses [] u v := by
  obtain ⟨ps₁, old, new', ps₂, f, c, hps, rfl, hf, hold⟩ := h
  obtain ⟨p, x, prev, m, rest, m₁, m₂, hx, -, hrun, hm, hold₁, -⟩ := Rule.scan_put le_rfl hps
  have hmem := List.mem_of_head? hrun
  rw [Rule.run_replacing] at hmem
  split at hmem
  · cases List.mem_singleton.1 hmem
    obtain ⟨rfl, rfl, -⟩ := @Rule.one_put α m₁ m₂ old new' y new [] [] hm.symm
    rw [List.map_nil, oldText_nil, List.append_nil] at hold₁
    exact ⟨f, c, rfl, hf, [], old, rfl, hy, .inl rfl, p, by rw [← hold, hold₁]⟩
  · cases hmem

/-- Where a rule may cut, there is what its matches begin with. -/
theorem running_opened {s : Rule α} {ts os es : List (Shape α)} {rest : Re α}
    {stops : α → α → Bool} (h : (Profile.running g s ts os rest stops w t).crosses es u v) :
    Opened ts (u ++ w) := by
  obtain ⟨f, c, rfl, -, -, a, y, z, htext, ⟨sh, hsh, hy⟩, -⟩ := h
  refine ⟨sh, hsh, y, hy, a, z ++ c, ?_⟩
  rw [← List.append_assoc u, htext]
  simp

theorem matching_opened {re : Re α} {new : List α} {os es : List (Shape α)} (hre : re.Contains os)
    (h : (Profile.matching [⟨re, some new⟩] os w t).crosses es u v) : Opened os (u ++ w) := by
  obtain ⟨f, c, rfl, -, a, ps, prev, x, htext, hrun, -, -⟩ := h
  obtain ⟨⟨y, rest⟩, hy, hpieces⟩ := Rule.head_run_singleton hrun
  obtain ⟨rfl, -⟩ := Prod.mk.inj hpieces
  rw [Portion.oldText_pieces] at htext
  obtain ⟨sh, hsh, b, o, d, ho, rfl⟩ := hre _ _ _ _ (List.mem_of_head? hy)
  refine ⟨sh, hsh, o, ho, a ++ b, d ++ c, ?_⟩
  rw [← List.append_assoc u, htext]
  simp

end cuts

/-! ## Going into a copy -/

section enters

variable {s : Rule α} {ts : List (Shape α)} {rest : Re α} {u w v : List α} {g : α}

theorem not_enters_of_avoids {re : Re α} {new : List α} (hre : re.avoids g) :
    ¬Enters [⟨re, some new⟩] u w g v := by
  rintro ⟨ps₁, old, new', ps₂, f, c, d, hps, -, -, -, rfl⟩
  obtain ⟨x, -, -, hrun⟩ := Rule.put_of_single hps
  exact Re.notMem_of_avoids hre (List.mem_of_head? hrun) (by simp)

theorem Fits.notMem {t : Shape α} {y : List α} (h : Fits t y) (ht : ∀ p ∈ t, p g = false) :
    g ∉ y := by
  intro hg
  obtain ⟨p, hp, htrue⟩ := h.mem hg
  rw [ht p hp] at htrue
  cases htrue

theorem leads_of_enters (hs : Led s ts rest) (hts : ∀ t ∈ ts, ∀ p ∈ t, p g = false)
    (h : Enters s u w g v) : Leads ts rest u w g := by
  obtain ⟨ps₁, old, new, ps₂, f, c, d, hps, rfl, hf, hold, rfl⟩ := h
  obtain ⟨a, y, e, z, ⟨t, ht, hy⟩, htext, he, hsplit, hz⟩ := hs _ ps₁ _ new ps₂ hps
  have hg : g ∉ e := fun hmem => hy.notMem (hts t ht) (he.subset hmem)
  rcases List.append_eq_append_iff.1 hsplit with ⟨x, rfl, hx⟩ | ⟨x, rfl, rfl⟩
  · cases x with
    | nil =>
      rw [List.nil_append] at hx
      refine ⟨a, y, f ++ c, [], d, by simp, by simp [hf], ?_, ⟨t, ht, hy⟩, ?_⟩
      · rw [← htext, hold, List.append_nil, List.append_assoc]
      · rw [List.nil_append, hx]
        exact hz
    | cons b x =>
      obtain ⟨rfl, -⟩ := List.cons.inj hx
      exact (hg (by simp)).elim
  · refine ⟨a, y, f ++ e, x, d, by simp, by simp [hf], ?_, ⟨t, ht, hy⟩, hz⟩
    rw [← htext, hold, List.append_assoc]

/-- **A name that leads into a copy** did so before. -/
theorem Leads.back {m : α} {u' v' : List α} (hs : ∀ new ∈ s.puts, new.getLast? = some m)
    (hts : ∀ t ∈ ts, ∀ p ∈ t, p m = false)
    (hpass : Passes (w ++ [g]) (s.pieces (u ++ (w ++ [g]) ++ v)) u v u' v')
    (h : Leads ts rest u' w g) : Leads ts rest u w g := by
  obtain ⟨a, y, f, c, d, rfl, hf, htext, ⟨t, ht, hy⟩, hrest⟩ := h
  obtain ⟨ps₁, ps₂, hps, rfl, -, rfl, -⟩ := hpass
  have hin : ∀ {old new}, .put old new ∈ ps₁ →
      .put old new ∈ s.pieces (oldText ps₁ ++ (f ++ c ++ [g]) ++ v) := fun hmem =>
    hps ▸ List.mem_append_left _ (List.mem_append_left _ hmem)
  have hsealed : Sealed m (ps₁ ++ f.map .keep) :=
    sealed_append_keep fun old new hmem => hs new (Rule.mem_puts (hin hmem))
  obtain ⟨ps', hps', -⟩ := kept_of_notMem hsealed (hy.notMem (hts t ht)) (a := a) (by
    rw [newText_append, newText_keep, htext])
  refine ⟨oldText ps', y, f, c, d, rfl, hf, ?_, ⟨t, ht, hy⟩, hrest⟩
  have hold := congrArg oldText hps'
  simpa using hold

end enters

/-! ## Completed copies -/

/-- What is put in contains the copy that it completes, or its beginning is the end of the copy, or
its end the beginning. -/
theorem Completed.overlaps {t u v : List α} {ps : List (Piece α)} (h : Completed t ps u v)
    (hlong : ∀ old new, .put old new ∈ ps → t.length ≤ new.length) :
    ∃ ps₁ old new ps₂, ps = ps₁ ++ .put old new :: ps₂ ∧ (t <:+: new ∨
      (∃ t₁ n, n ≠ [] ∧ t = t₁ ++ n ∧ n <+: new ∧ t₁ <:+ newText ps₁) ∨
        ∃ n t₂, n ≠ [] ∧ t = n ++ t₂ ∧ n <:+ new) := by
  obtain ⟨htext, ps₁, old, new, ps₂, rfl, hstart, hend⟩ := h
  refine ⟨ps₁, old, new, ps₂, rfl, ?_⟩
  have hnew := hlong old new (List.mem_append_right _ List.mem_cons_self)
  rw [newText_append, newText_cons, Piece.new, List.append_assoc] at htext
  rcases List.append_eq_append_iff.1 htext with ⟨r, rfl, hr⟩ | ⟨t₁, hu, hr⟩
  · -- the copy begins in what is put in
    rw [List.length_append] at hend
    obtain ⟨n, rfl⟩ : r <+: new := List.prefix_of_prefix_length_le ⟨t ++ v, hr.symm⟩ ⟨_, rfl⟩ (by omega)
    rw [List.append_assoc] at hr
    rw [List.length_append] at hend
    rcases List.append_eq_append_iff.1 (List.append_cancel_left hr) with ⟨t₂, rfl, -⟩ | ⟨n', rfl, -⟩
    · refine .inr (.inr ⟨n, t₂, ?_, rfl, List.suffix_append _ _⟩)
      rintro rfl
      simp at hend
    · exact .inl ⟨r, n', by simp⟩
  · -- it begins before
    rw [hu, List.length_append] at hstart
    obtain ⟨n, rfl⟩ : t₁ <+: t := List.prefix_of_prefix_length_le ⟨_, hr.symm⟩ ⟨v, rfl⟩ (by omega)
    rw [List.append_assoc] at hr
    rw [List.length_append] at hstart hnew
    refine .inr (.inl ⟨t₁, n, ?_, rfl, ?_, ⟨u, hu.symm⟩⟩)
    · rintro rfl
      simp at hstart
    · exact List.prefix_of_prefix_length_le ⟨v, List.append_cancel_left hr⟩ ⟨_, rfl⟩ (by omega)

/-- No substitution completes a copy. -/
def Uncompleted (t : List α) : List (Rule α) → List α → Prop
  | [], _ => True
  | s :: ss, x => (∀ u v, ¬Completed t (s.pieces x) u v) ∧ Uncompleted t ss (s.sub x)

section completed

variable {t x : List α} {s : Rule α} {ss ss' : List (Rule α)} {g : α} {sh : Shape α}

theorem Uncompleted.append (h : Uncompleted t ss x) (h' : Uncompleted t ss' (subAll ss x)) :
    Uncompleted t (ss ++ ss') x := by
  induction ss generalizing x with
  | nil => exact h'
  | cons s ss ih => exact ⟨h.1, ih h.2 h'⟩

theorem Uncompleted.of_forall (h : ∀ s ∈ ss, ∀ x u v, ¬Completed t (s.pieces x) u v) :
    Uncompleted t ss x := by
  induction ss generalizing x with
  | nil => trivial
  | cons s ss ih =>
    exact ⟨h s List.mem_cons_self x, ih fun s' hs' => h s' (List.mem_cons_of_mem s hs')⟩

theorem Uncompleted.not_completedCopy (h : Uncompleted t ss x) : ¬CompletedCopy t ss x := by
  rintro ⟨before, s, after, u, v, rfl, hcomp, -⟩
  induction before generalizing x with
  | nil => exact h.1 u v hcomp
  | cons s' before ih => exact ih h.2 hcomp

/-- What is put in overlaps no copy, if its end does not begin `t`, its beginning does not end it,
or not after what comes before. -/
theorem not_completed {u v : List α}
    (hputs : ∀ new ∈ s.puts, t.length ≤ new.length ∧ ¬t <:+: new ∧
      ∀ n, n <:+ new → n ≠ [] → ¬n <+: t)
    (hbefore : ∀ ps₁ old new ps₂, s.pieces x = ps₁ ++ .put old new :: ps₂ → ∀ t₁ n, n ≠ [] →
      t = t₁ ++ n → n <+: new → ¬t₁ <:+ newText ps₁) : ¬Completed t (s.pieces x) u v := by
  intro h
  obtain ⟨ps₁, old, new, ps₂, hps, hcases⟩ := h.overlaps fun old new hmem =>
    (hputs new (Rule.mem_puts hmem)).1
  have hmem := Rule.mem_puts_of_eq hps
  rcases hcases with hin | ⟨t₁, n, hn, ht, hpre, hsuf⟩ | ⟨n, t₂, hn, ht, hsuf⟩
  · exact (hputs new hmem).2.1 hin
  · exact hbefore ps₁ old new ps₂ hps t₁ n hn ht hpre hsuf
  · exact (hputs new hmem).2.2 n hsuf hn ⟨t₂, ht.symm⟩

/-- A string of a shape that fits on no part of what is put in was there before. -/
theorem Occurs.back (hs : ∀ new ∈ s.puts, Apart g sh new) (h : Occurs sh (s.sub x)) :
    Occurs sh x := by
  have hback := occurs_oldText (fun old new hmem => hs new (Rule.mem_puts hmem)) h
  rwa [Rule.oldText_pieces] at hback

theorem Occurs.back_all (hss : ∀ s ∈ ss, ∀ new ∈ s.puts, Apart g sh new)
    (h : Occurs sh (subAll ss x)) : Occurs sh x := by
  induction ss generalizing x with
  | nil => exact h
  | cons s ss ih =>
    exact (ih (fun s' hs' => hss s' (List.mem_cons_of_mem s hs')) h).back
      (hss s List.mem_cons_self)

end completed

/-! ## Going back -/

section after

variable {g : α} {w t : List α} {s : Profile α}

theorem after_running {r : Rule α} {ts os : List (Shape α)} {rest : Re α} {stops : α → α → Bool}
    (hshows : ∀ x, Shows s.openings (s.rule.pieces x))
    (havoids : ∀ e ∈ s.openings, ∀ p ∈ e, p g = false)
    (hsealed : ∀ new ∈ s.rule.puts, new.getLast? = some g)
    (hapart : ∀ t ∈ ts, t ≠ [] ∧ ∀ new ∈ s.rule.puts, Apart g t new) :
    s.After w t (.running g r ts os rest stops w t) := by
  rintro es u v u' v' ⟨ps₁, ps₂, hps, rfl, rfl, rfl, rfl⟩ ⟨f, c, rfl, hf, hstops, hruns⟩
  refine ⟨f, c, rfl, hf, hstops, ?_⟩
  have hsplit : s.rule.pieces (oldText ps₁ ++ (f ++ c ++ t) ++ oldText ps₂) =
      (ps₁ ++ f.map .keep) ++ ((c ++ t).map .keep ++ ps₂) := by
    rw [hps]
    simp
  have hin : ∀ {old new}, .put old new ∈ ps₁ ++ f.map .keep → new ∈ s.rule.puts := fun hmem =>
    Rule.mem_puts (hsplit ▸ List.mem_append_left _ hmem)
  have hold : oldText (ps₁ ++ f.map .keep) = oldText ps₁ ++ f := by simp
  have hnew : newText (ps₁ ++ f.map .keep) = newText ps₁ ++ f := by simp
  rw [← hold]
  rw [← hnew] at hruns
  exact hruns.back (hsplit ▸ hshows _ : Shows s.openings ((ps₁ ++ f.map .keep) ++ _)).of_append
    (fun t ht => ⟨(hapart t ht).1, fun old new hmem => (hapart t ht).2 new (hin hmem)⟩)
    (fun old new hmem => hsealed new (hin hmem)) havoids

theorem after_literal [DecidableEq α] {y new : List α}
    (hsealed : ∀ new ∈ s.rule.puts, new.getLast? = some g) :
    s.After w t (.literal g y new w) := by
  rintro es u v u' v' ⟨ps₁, ps₂, hps, rfl, -, rfl, -⟩ ⟨f, c, rfl, hf, hends⟩
  refine ⟨f, c, rfl, hf, hends.back (fun old new hmem => hsealed new ?_) hf⟩
  have hin : .put old new ∈ s.rule.pieces (oldText ps₁ ++ (f ++ c ++ t) ++ v) := by
    rw [hps, List.append_assoc]
    exact List.mem_append_left _ hmem
  exact Rule.mem_puts hin

/-- The character before what has been kept. -/
theorem prev_back {ps : List (Piece α)} {os es : List (Shape α)} {prev : Option α}
    (hshows : Shows os ps) (hsealed : Sealed g ps)
    (h : prev = (newText ps).getLast? ∨ Opened es (newText ps)) :
    prev = (oldText ps).getLast? ∨ Opened (os ++ es) (oldText ps) := by
  rcases h with rfl | h
  · rcases List.eq_nil_or_concat ps with rfl | ⟨ps, p, rfl⟩
    · exact .inl rfl
    cases p with
    | keep c => exact .inl (by simp [Piece.old, Piece.new])
    | put old new =>
      have hput : .put old new ∈ ps.concat (.put old new) := by simp
      obtain ⟨e, he, ho⟩ := hshows.opened hput
      exact .inr ⟨e, List.mem_append_left _ he, ho⟩
  · exact .inr (Opened.back hshows h)

/-- The character after it. -/
theorem follow_back {ps₁ ps₂ : List (Piece α)} {os es : List (Shape α)} {x : List α}
    (hshows : Shows os (ps₁ ++ ps₂))
    (h : x.head? = (newText ps₂).head? ∨ Opened es (newText (ps₁ ++ ps₂))) :
    x.head? = (oldText ps₂).head? ∨ Opened (os ++ es) (oldText (ps₁ ++ ps₂)) := by
  rcases h with h | h
  · cases ps₂ with
    | nil => exact .inl h
    | cons p ps₂ =>
      cases p with
      | keep c => exact .inl h
      | put old new =>
        have hput : .put old new ∈ ps₁ ++ .put old new :: ps₂ := by simp
        obtain ⟨e, he, ho⟩ := hshows.opened hput
        exact .inr ⟨e, List.mem_append_left _ he, ho⟩
  · exact .inr (Opened.back hshows h)

theorem after_matching {re : Re α} {new : List α} {os : List (Shape α)} (hre : re.avoids g)
    (hshows : ∀ x, Shows s.openings (s.rule.pieces x))
    (hsealed : ∀ new ∈ s.rule.puts, new.getLast? = some g) :
    s.After w t (.matching [⟨re, some new⟩] os w t) := by
  rintro es u v u' v' ⟨ps₁, ps₂, hps, rfl, rfl, rfl, rfl⟩
    ⟨f, c, rfl, hf, a, m, prev, x, htext, hrun, hprev, hfollow⟩
  have hall : Shows s.openings (ps₁ ++ (f ++ c ++ t).map .keep ++ ps₂) := hps ▸ hshows _
  have hsealed' : Sealed g (ps₁ ++ f.map .keep) := sealed_append_keep fun old new hmem =>
    hsealed new (Rule.mem_puts (hps ▸ List.mem_append_left _ (List.mem_append_left _ hmem)))
  have hg : g ∉ oldText m := by
    obtain ⟨y, hy, hpieces⟩ := Rule.head_run_singleton hrun
    rw [(Prod.mk.inj hpieces).1, Portion.oldText_pieces]
    exact Re.notMem_of_avoids hre (List.mem_of_head? hy)
  obtain ⟨ps', hps', rfl⟩ := kept_of_notMem hsealed' hg (a := a) (by
    rw [newText_append, newText_keep, htext])
  have hshows' : Shows s.openings ps' := by
    have hfront : Shows s.openings ((ps₁ ++ f.map .keep) ++ ((c ++ t).map .keep ++ ps₂)) := by
      have heq : (ps₁ ++ f.map .keep) ++ ((c ++ t).map .keep ++ ps₂) =
          ps₁ ++ (f ++ c ++ t).map .keep ++ ps₂ := by simp
      rw [heq]
      exact hall
    have hbefore := hfront.of_append
    rw [hps'] at hbefore
    exact hbefore.of_append
  refine ⟨f, c, rfl, hf, oldText ps', m, prev, x, ?_, hrun, ?_, ?_⟩
  · have hold := congrArg oldText hps'
    simpa using hold
  · exact prev_back hshows' (hps' ▸ hsealed').of_append_left hprev
  · have hback := @follow_back α (ps₁ ++ (f ++ c ++ t).map .keep) ps₂ s.openings es x hall
    rw [newText_append, newText_append, newText_keep, oldText_append, oldText_append,
      oldText_keep] at hback
    exact hback hfollow

theorem restrict_of_cuts {k : Profile α} {cuts : List α → List α → Prop} {u v : List α}
    (h : k.crosses [] u v) (hcuts : cuts u v) : (k.restrict w t cuts).crosses [] u v :=
  ⟨h, .inr hcuts⟩

theorem exact_of_leaves {k : Profile α} {u v : List α}
    (h : Cuts k.rule u w t v → k.crosses [] u v) (hleaves : Leaves k.rule u w t v) :
    (k.exact w t).crosses [] u v := ⟨h hleaves.1, .inr hleaves⟩

theorem after_restrict {k : Profile α} {cuts : List α → List α → Prop}
    (hopened : ∀ x old new, .put old new ∈ s.rule.pieces x → Opened s.openings x)
    (h : s.After w t k) : s.After w t (k.restrict w t cuts) := by
  rintro es u v u' v' hpass ⟨hcross, hcut⟩
  refine ⟨h es u v u' v' hpass hcross, ?_⟩
  obtain ⟨ps₁, ps₂, hps, rfl, rfl, rfl, rfl⟩ := hpass
  have hold : oldText (s.rule.pieces (oldText ps₁ ++ (w ++ t) ++ oldText ps₂)) =
      oldText ps₁ ++ (w ++ t) ++ oldText ps₂ := Rule.oldText_pieces _ _
  rcases eq_keep_or (s.rule.pieces (oldText ps₁ ++ (w ++ t) ++ oldText ps₂)) with
    hkeep | ⟨qs, old, new, qs', heq⟩
  · -- nothing has been put in
    rw [hold, hps] at hkeep
    have hall : ∀ {ps : List (Piece α)}, (∀ p ∈ ps, p ∈ ps₁ ++ (w ++ t).map .keep ++ ps₂) →
        newText ps = oldText ps := by
      intro ps hsub
      have hkeep' : ps.all Piece.isKeep := by
        rw [List.all_eq_true]
        intro p hp
        have hmem := hsub p hp
        rw [hkeep] at hmem
        obtain ⟨c, -, rfl⟩ := List.mem_map.1 hmem
        rfl
      rw [eq_keep_of_all hkeep', newText_keep, oldText_keep]
    rw [hall fun p hp => by simp [hp], hall fun p hp => by simp [hp]] at hcut
    rcases hcut with ⟨e, he, ho⟩ | hcut
    · exact .inl ⟨e, List.mem_append_right _ he, ho⟩
    · exact .inr hcut
  · obtain ⟨e, he, ho⟩ := hopened _ old new (heq ▸ List.mem_append_right _ List.mem_cons_self)
    exact .inl ⟨e, List.mem_append_left _ he, ho⟩

end after

end Regex
