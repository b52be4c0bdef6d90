import Observatory.Effect.History
import Observatory.Model.Memory
import Mathlib.Data.List.Infix

/-!
# The life of a memory item

`ItemStep` lists what a call of the service can do to one item, whatever the item was before: two
of the eight methods look at the status first, and rejecting, superseding and expiring do not.
Still no call leads from the retired states back to the ones a search returns.
-/

namespace Observatory

open Effect

/-! ## One call and one item -/

/-- What a call does to the item `id`. -/
inductive ItemStep (now : Time) (id : MemoryId) (item : MemoryItem) :
    MemoryCall → MemoryItem → Prop where
  | same {call : MemoryCall} : ItemStep now id item call item
  | redacted {call : MemoryCall} (content : String) :
      ItemStep now id item call { item with content }
  | approved {auto : Bool} (hs : item.status = .candidate) :
      ItemStep now id item (.approve id auto) { item with
        status := if auto then .autoApproved else .approved, verificationStatus := .verified }
  | rejected : ItemStep now id item (.reject id) { item with status := .rejected }
  | activated (hs : item.status = .approved ∨ item.status = .autoApproved) :
      ItemStep now id item (.markActive id)
        { item with status := .active, verificationStatus := .verified }
  | superseded {newId : MemoryId} (hne : id ≠ newId) :
      ItemStep now id item (.supersede id newId) { item with status := .superseded }
  | expired (hdue : MemoryService.overdue now item = true) :
      ItemStep now id item .expireSweep { item with status := .expired }
  | promoted {threshold : Option Rat} {minRuns completed : Nat} (hs : item.status = .candidate) :
      ItemStep now id item (.autoPromoteCandidates threshold minRuns completed)
        { item with status := .autoApproved, verificationStatus := .verified }

section step

variable {env : MemoryEnv} {now : Time} {db : MemoryDb} {id : MemoryId} {item item' : MemoryItem}

theorem MemoryDb.update_self {f : MemoryItem → MemoryItem} (hrow : db.items[id]? = some item) :
    (db.update id f).items[id]? = some (f item) := by
  simp [MemoryDb.update, hrow]

theorem MemoryDb.update_other {f : MemoryItem → MemoryItem} {id' : MemoryId} (hne : id' ≠ id) :
    (db.update id' f).items[id]? = db.items[id]? := by
  simp [MemoryDb.update, hne]

@[simp] theorem MemoryDb.relate_items (a b : MemoryId) (relation : RelationType) :
    (db.relate a b relation).items = db.items := rfl

/-- An update of one item, as a step of any item. -/
theorem itemStep_update {call : MemoryCall} {f : MemoryItem → MemoryItem} {id' : MemoryId}
    (hrow : db.items[id]? = some item)
    (hstep : id' = id → ItemStep now id item call (f item)) :
    ∃ item', (db.update id' f).items[id]? = some item' ∧ ItemStep now id item call item' := by
  by_cases hid : id' = id
  · subst hid
    exact ⟨_, MemoryDb.update_self hrow, hstep rfl⟩
  · exact ⟨item, by rw [MemoryDb.update_other hid, hrow], .same⟩

/-- An update of all items that meet a condition, as a step of any item. -/
theorem itemStep_map {call : MemoryCall} {test : MemoryItem → Bool} {f : MemoryItem → MemoryItem}
    (hrow : db.items[id]? = some item)
    (hstep : test item = true → ItemStep now id item call (f item)) :
    ∃ item', (db.items.map fun item => if test item then f item else item)[id]? = some item' ∧
      ItemStep now id item call item' := by
  rw [List.getElem?_map, hrow]
  by_cases htest : test item = true
  · exact ⟨_, by rw [Option.map_some, if_pos htest], hstep htest⟩
  · exact ⟨item, by rw [Option.map_some, if_neg htest], .same⟩

/-- The items a search writes back differ in their content. -/
theorem content_foldl (content : String) (found : List (MemoryId × MemoryItem))
    (hrow : db.items[id]? = some { item with content }) :
    ∃ content', (found.foldl (fun db x => db.update x.1 fun item =>
      { item with content := x.2.content }) db).items[id]? =
        some { item with content := content' } := by
  induction found generalizing db content with
  | nil => exact ⟨content, hrow⟩
  | cons x found ih =>
    rw [List.foldl_cons]
    by_cases hid : x.1 = id
    · subst hid
      have hself := MemoryDb.update_self hrow
        (f := fun item => { item with content := x.2.content })
      exact ih x.2.content hself
    · refine ih content ?_
      rw [MemoryDb.update_other hid, hrow]

/-- **What a call can do to an item.** -/
theorem MemoryCall.step (call : MemoryCall) (hrow : db.items[id]? = some item) :
    ∃ item', (call.perform env now db).items[id]? = some item' ∧
      ItemStep now id item call item' := by
  cases call with
  | createCandidate c =>
    have hlt := (List.getElem?_eq_some_iff.1 hrow).1
    refine ⟨item, ?_, .same⟩
    simp only [perform, MemoryService.createCandidate]
    cases storeVector (c.embeddingVector <|> c.embedding) with
    | none => exact hrow
    | some vector =>
      simp only [Option.map_some, Option.getD_some, List.getElem?_append_left hlt, hrow]
  | approve id' auto =>
    simp only [perform, MemoryService.approve]
    split
    · exact ⟨item, hrow, .same⟩
    · next item₀ hrow₀ =>
      split
      · exact ⟨item, hrow, .same⟩
      · next hs =>
        refine itemStep_update hrow fun hid => ?_
        subst hid
        cases hrow.symm.trans hrow₀
        exact .approved (not_not.1 hs)
  | reject id' =>
    simp only [perform, MemoryService.reject]
    split
    · exact ⟨item, hrow, .same⟩
    · refine itemStep_update hrow fun hid => ?_
      subst hid
      exact .rejected
  | markActive id' =>
    simp only [perform, MemoryService.markActive]
    split
    · exact ⟨item, hrow, .same⟩
    · next item₀ hrow₀ =>
      split
      · next hs =>
        refine itemStep_update hrow fun hid => ?_
        subst hid
        cases hrow.symm.trans hrow₀
        exact .activated hs
      · exact ⟨item, hrow, .same⟩
  | supersede oldId newId =>
    simp only [perform, MemoryService.supersede]
    split
    · exact ⟨item, hrow, .same⟩
    · split
      · exact ⟨item, hrow, .same⟩
      · split
        · exact ⟨item, hrow, .same⟩
        · split
          · exact ⟨item, hrow, .same⟩
          · next hne =>
            refine itemStep_update hrow fun hid => ?_
            subst hid
            exact .superseded hne
  | linkContradiction a b =>
    simp only [perform, MemoryService.linkContradiction]
    split
    · exact ⟨item, hrow, .same⟩
    · exact ⟨item, hrow, .same⟩
  | expireSweep => exact itemStep_map hrow fun hdue => .expired hdue
  | autoPromoteCandidates threshold minRuns completed =>
    simp only [perform, MemoryService.autoPromoteCandidates]
    split
    · exact ⟨item, hrow, .same⟩
    · refine itemStep_map hrow fun htest => .promoted ?_
      simp only [MemoryService.promotable, Bool.and_eq_true, decide_eq_true_eq] at htest
      exact htest.1.1
  | search q status limit verifiedOnly allowExpired =>
    obtain ⟨content, hrow'⟩ := content_foldl item.content
      (MemoryService.found env now db q status limit verifiedOnly allowExpired) hrow
    exact ⟨_, hrow', .redacted content⟩

@[simp] theorem MemoryDb.length_update {f : MemoryItem → MemoryItem} :
    (db.update id f).items.length = db.items.length :=
  List.length_modify ..

/-- Only a new candidate makes the table longer. -/
theorem MemoryCall.length_items (call : MemoryCall) :
    (∃ c, call = .createCandidate c) ∨
      (call.perform env now db).items.length = db.items.length := by
  cases call with
  | createCandidate c => exact .inl ⟨c, rfl⟩
  | approve id auto =>
    right
    simp only [perform, MemoryService.approve]
    split
    · rfl
    · split <;> simp
  | reject id =>
    right
    simp only [perform, MemoryService.reject]
    split <;> simp
  | markActive id =>
    right
    simp only [perform, MemoryService.markActive]
    split
    · rfl
    · split <;> simp
  | supersede oldId newId =>
    right
    simp only [perform, MemoryService.supersede]
    repeat' split
    all_goals simp
  | linkContradiction a b =>
    right
    simp only [perform, MemoryService.linkContradiction]
    split <;> simp
  | expireSweep => exact .inr (List.length_map ..)
  | autoPromoteCandidates threshold minRuns completed =>
    right
    simp only [perform, MemoryService.autoPromoteCandidates]
    split
    · rfl
    · exact List.length_map ..
  | search q status limit verifiedOnly allowExpired =>
    right
    simp only [perform, MemoryService.search]
    generalize MemoryService.found env now db q status limit verifiedOnly allowExpired = found
    induction found generalizing db with
    | nil => rfl
    | cons x found ih => rw [List.foldl_cons, ih, MemoryDb.length_update]

/-- An item that was not there before is a candidate. -/
theorem MemoryCall.created (call : MemoryCall) (hnew : db.items[id]? = none)
    (hrow : (call.perform env now db).items[id]? = some item') :
    item'.status = .candidate ∧ item'.verificationStatus = .unverified := by
  have hlen : db.items.length ≤ id := List.getElem?_eq_none_iff.1 hnew
  have hlt := (List.getElem?_eq_some_iff.1 hrow).1
  rcases call.length_items with ⟨c, rfl⟩ | hsame
  · simp only [perform, MemoryService.createCandidate] at hrow
    cases hvector : storeVector (c.embeddingVector <|> c.embedding) with
    | none =>
      rw [hvector] at hrow
      cases hnew.symm.trans hrow
    | some vector =>
      rw [hvector, Option.map_some, Option.map_some, Option.getD_some,
        List.getElem?_append_right hlen, List.getElem?_singleton] at hrow
      split at hrow
      · cases hrow
        exact ⟨rfl, rfl⟩
      · cases hrow
  · exact absurd hlt (by rw [hsame]; exact Nat.not_lt.2 hlen)

end step

/-! ## Runs -/

/-- One call of a run, with the tables before and after it. -/
structure MemoryEvent where
  before : MemoryDb
  now : Time
  call : MemoryCall
  after : MemoryDb

/-- The service has been called so, newest first, and the tables are `db`. -/
inductive Served (env : MemoryEnv) : List MemoryEvent → MemoryDb → Prop where
  | init : Served env [] {}
  | call {h : List MemoryEvent} {db : MemoryDb} (now : Time) (c : MemoryCall)
      (hs : Served env h db) :
      Served env (⟨db, now, c, c.perform env now db⟩ :: h) (c.perform env now db)

namespace MemoryStatus

/-- Out of use for good. -/
def retired : MemoryStatus → Bool
  | rejected | superseded | expired => true
  | _ => false

theorem not_retrievable {s : MemoryStatus} (h : s.retired = true) : s.retrievable = false := by
  cases s <;> first | rfl | cases h

end MemoryStatus

/-- Item `id` was a candidate and was approved. -/
structure Promotes (e : MemoryEvent) (id : MemoryId) : Prop where
  call : (∃ auto, e.call = .approve id auto) ∨
    ∃ threshold minRuns completed, e.call = .autoPromoteCandidates threshold minRuns completed
  candidate : ∃ item, e.before.items[id]? = some item ∧ item.status = .candidate
  approved : ∃ item, e.after.items[id]? = some item ∧
    (item.status = .approved ∨ item.status = .autoApproved)

/-- Item `id` is out of use after the call. -/
def Retires (e : MemoryEvent) (id : MemoryId) : Prop :=
  ∃ item, e.after.items[id]? = some item ∧ item.status.retired = true

section runs

variable {env : MemoryEnv} {h : List MemoryEvent} {db : MemoryDb} {id : MemoryId}
  {item item' : MemoryItem} {now : Time} {call : MemoryCall}

/-- **Retired items stay retired**, though three methods do not look at the status. -/
theorem ItemStep.retired (hstep : ItemStep now id item call item')
    (hret : item.status.retired = true) : item'.status.retired = true := by
  cases hstep with
  | same => exact hret
  | redacted content => exact hret
  | approved hs =>
    rw [hs] at hret
    cases hret
  | rejected => rfl
  | activated hs => rcases hs with hs | hs <;> rw [hs] at hret <;> cases hret
  | superseded hne => rfl
  | expired hdue => rfl
  | promoted hs =>
    rw [hs] at hret
    cases hret

theorem Served.retired (hs : Served env h db) (hret : Once (fun _ e => Retires e id) h) :
    ∃ item, db.items[id]? = some item ∧ item.status.retired = true := by
  induction hs with
  | init => cases hret
  | call now c hs ih =>
    rcases hret with hnow | hbefore
    · exact hnow
    · obtain ⟨item, hrow, hret⟩ := ih hbefore
      obtain ⟨item', hrow', hstep⟩ := c.step hrow
      exact ⟨item', hrow', hstep.retired hret⟩

/-- What makes an item one that a search may return. -/
def Vetted (h : List MemoryEvent) (id : MemoryId) (item : MemoryItem) : Prop :=
  item.status.retrievable = true →
    item.verificationStatus = .verified ∧ Once (fun _ e => Promotes e id) h

theorem Served.vetted (hs : Served env h db) (hrow : db.items[id]? = some item) :
    Vetted h id item := by
  induction hs generalizing item with
  | init => cases hrow
  | @call h db now c hs ih =>
    cases hold : db.items[id]? with
    | none =>
      intro hret
      rw [(c.created hold hrow).1] at hret
      cases hret
    | some item₀ =>
      obtain ⟨item', hrow', hstep⟩ : ∃ item', (c.perform env now db).items[id]? = some item' ∧
          ItemStep now id item₀ c item' := c.step hold
      cases hrow.symm.trans hrow'
      have hbefore : Vetted h id item₀ := ih hold
      cases hstep with
      | same => exact fun hret => (hbefore hret).imp_right .inr
      | redacted content => exact fun hret => (hbefore hret).imp_right .inr
      | approved hstatus =>
        refine fun _ => ⟨rfl, .inl ⟨.inl ⟨_, rfl⟩, ⟨item₀, hold, hstatus⟩, _, hrow, ?_⟩⟩
        split
        · exact .inr rfl
        · exact .inl rfl
      | activated hstatus =>
        have hret₀ : item₀.status.retrievable = true := by
          rcases hstatus with hstatus | hstatus <;> rw [hstatus] <;> rfl
        exact fun _ => ⟨rfl, .inr (hbefore hret₀).2⟩
      | promoted hstatus =>
        exact fun _ => ⟨rfl, .inl ⟨.inr ⟨_, _, _, rfl⟩, ⟨item₀, hold, hstatus⟩, _, hrow, .inr rfl⟩⟩
      | rejected => rintro ⟨⟩
      | superseded hne => rintro ⟨⟩
      | expired hdue => rintro ⟨⟩

/-! ## What the searches return -/

section ilike

variable {same : Char → Char → Bool} {c : Char} {p q s : List Char}

/-- How one character is escaped. -/
def escapeChar (c : Char) : List Char := if c ∈ ['\\', '%', '_'] then ['\\', c] else [c]

theorem escapeIlike_cons : escapeIlike (c :: q) = escapeChar c ++ escapeIlike q := by
  simp only [escapeIlike, replaceChar, List.flatMap_cons, List.flatMap_append, escapeChar]
  congr 1
  by_cases h₁ : c = '\\'
  · subst h₁
    rfl
  by_cases h₂ : c = '%'
  · subst h₂
    rfl
  by_cases h₃ : c = '_'
  · subst h₃
    rfl
  simp [h₁, h₂, h₃]

/-- An escaped character stands for itself. -/
theorem ilike_escapeChar_append : ilike same (escapeChar c ++ p) s =
    match s with
    | [] => false
    | d :: rest => same c d && ilike same p rest := by
  by_cases hspecial : c ∈ ['\\', '%', '_']
  · rw [escapeChar, if_pos hspecial]
    cases s <;> exact rfl
  · rw [escapeChar, if_neg hspecial]
    simp only [List.mem_cons, List.not_mem_nil, or_false, not_or] at hspecial
    obtain ⟨h₁, h₂, h₃⟩ := hspecial
    cases s <;> simp [ilike, h₁]

theorem ilike_escapeChar : ilike same (escapeChar c ++ p) s = true ↔
    ∃ d rest, s = d :: rest ∧ same c d = true ∧ ilike same p rest = true := by
  rw [ilike_escapeChar_append]
  cases s with
  | nil => simp
  | cons d rest => simp

/-- An escaped text stands for itself, in front of a pattern. -/
theorem ilike_escaped_append : ilike same (escapeIlike q ++ p) s = true ↔
    ∃ mid rest, s = mid ++ rest ∧ List.Forall₂ (fun c d => same c d = true) q mid ∧
      ilike same p rest = true := by
  induction q generalizing s with
  | nil =>
    constructor
    · intro h
      exact ⟨[], s, rfl, .nil, h⟩
    · rintro ⟨mid, rest, rfl, hsame, h⟩
      cases hsame
      exact h
  | cons c q ih =>
    rw [escapeIlike_cons, List.append_assoc, ilike_escapeChar]
    constructor
    · rintro ⟨d, rest, rfl, hcd, h⟩
      obtain ⟨mid, rest', rfl, hsame, h'⟩ := ih.1 h
      exact ⟨d :: mid, rest', rfl, .cons hcd hsame, h'⟩
    · rintro ⟨mid, rest, rfl, hsame, h⟩
      cases hsame with
      | cons hcd hsame => exact ⟨_, _, rfl, hcd, ih.2 ⟨_, rest, rfl, hsame, h⟩⟩

/-- **A search finds what contains its text**, wildcards and all. -/
theorem ilike_escapeIlike : ilike same (['%'] ++ escapeIlike q ++ ['%']) s = true ↔
    ∃ before mid after, s = before ++ mid ++ after ∧
      List.Forall₂ (fun c d => same c d = true) q mid := by
  have hany : ∀ t, ilike same ['%'] t = true := by
    intro t
    exact List.any_eq_true.2 ⟨[], by simp, rfl⟩
  have hunfold : ilike same (['%'] ++ escapeIlike q ++ ['%']) s =
      s.tails.any fun rest => ilike same (escapeIlike q ++ ['%']) rest := rfl
  rw [hunfold, List.any_eq_true]
  constructor
  · rintro ⟨t, htail, hmatch⟩
    obtain ⟨before, rfl⟩ := (List.mem_tails _ _).1 htail
    obtain ⟨mid, after, rfl, hsame, -⟩ := ilike_escaped_append.1 hmatch
    exact ⟨before, mid, after, by rw [List.append_assoc], hsame⟩
  · rintro ⟨before, mid, after, rfl, hsame⟩
    refine ⟨mid ++ after, (List.mem_tails _ _).2 ?_, ?_⟩
    · rw [List.append_assoc]
      exact List.suffix_append before _
    · exact ilike_escaped_append.2 ⟨mid, after, rfl, hsame, hany after⟩

end ilike

theorem MemoryDb.mem_rows : (id, item) ∈ db.rows ↔ db.items[id]? = some item := by
  simp [MemoryDb.rows, List.mem_zipIdx_iff_getElem?]

/-- An item that a search for the context returns can be retrieved by its status. -/
theorem retrieveForContext_mem {q : String} {limit : Nat}
    (hmem : (id, item) ∈ (MemoryService.retrieveForContext env now db q limit).2) :
    ∃ item₀, db.items[id]? = some item₀ ∧ item₀.status.retrievable = true ∧
      item₀.verificationStatus = .verified := by
  simp only [MemoryService.retrieveForContext, MemoryService.search, MemoryService.found,
    List.mem_map, Prod.mk.injEq] at hmem
  obtain ⟨⟨id₀, item₀⟩, htake, rfl, rfl⟩ := hmem
  have hsorted := (List.mem_insertionSort _).1 (List.mem_of_mem_take htake)
  obtain ⟨hrow, hmatch⟩ := List.mem_filter.1 ((env.arrange_perm _).mem_iff.1 hsorted)
  refine ⟨item₀, MemoryDb.mem_rows.1 hrow, ?_⟩
  simp only [MemoryService.matching, Option.filter_none, Bool.and_eq_true, decide_eq_true_eq]
    at hmatch
  exact hmatch.1.2

/-- The first query chooses rows that are verified and may be retrieved. -/
theorem vectorQuery_mem {embedding : Embedding} {limit : Nat} {ids : List MemoryId}
    (hquery : MemoryService.vectorQuery env now db embedding limit = some ids) (hid : id ∈ ids) :
    ∃ item₀, db.items[id]? = some item₀ ∧ item₀.status.retrievable = true ∧
      item₀.verificationStatus = .verified := by
  simp only [MemoryService.vectorQuery] at hquery
  split at hquery
  · cases hquery
  cases hquery
  obtain ⟨⟨d, id'⟩, htake, hid⟩ := List.mem_map.1 hid
  obtain rfl : id' = id := hid
  have hranked := (List.mem_insertionSort _).1 (List.mem_of_mem_take htake)
  obtain ⟨⟨v, id₁⟩, hnear, heq⟩ := List.mem_map.1 hranked
  obtain rfl : id₁ = id' := congrArg Prod.snd heq
  obtain ⟨⟨id₀, item₀⟩, hrow₀, hvec⟩ := List.mem_filterMap.1 hnear
  split at hvec
  · next hgood =>
    obtain ⟨v', -, heq'⟩ := Option.map_eq_some_iff.1 hvec
    cases heq'
    have hrow₀ := (env.arrange_perm _).mem_iff.1 hrow₀
    exact ⟨item₀, MemoryDb.mem_rows.1 hrow₀, hgood.2.1, hgood.1⟩
  · cases hvec

theorem vectorSearch_mem {embedding : Embedding} {limit : Nat} {failed : Bool}
    (hmem : (id, item) ∈ MemoryService.vectorSearch env now db embedding limit failed) :
    ∃ item₀, db.items[id]? = some item₀ ∧ item₀.status.retrievable = true ∧
      item₀.verificationStatus = .verified := by
  simp only [MemoryService.vectorSearch] at hmem
  split at hmem
  · cases hmem
  split at hmem
  · cases hmem
  · next ids hquery =>
    split at hmem
    · cases hmem
    obtain ⟨hrow, hids⟩ := List.mem_filter.1 ((env.arrange_perm _).mem_iff.1 hmem)
    exact vectorQuery_mem hquery (of_decide_eq_true hids)

/-- **Rejected memory never comes back.**  Whatever the service has been asked to do, an item in a
retrievable status is verified and was approved as a candidate, and an item that was once rejected,
superseded or expired is returned by neither search. -/
theorem retired_never_returned (hs : Served env h db) :
    (∀ id item, db.items[id]? = some item → Vetted h id item) ∧
      ∀ id, Once (fun _ e => Retires e id) h → ∀ (now : Time) (item : MemoryItem) (limit : Nat),
        (∀ q, (id, item) ∉ (MemoryService.retrieveForContext env now db q limit).2) ∧
          ∀ embedding failed,
            (id, item) ∉ MemoryService.vectorSearch env now db embedding limit failed := by
  refine ⟨fun id item hrow => hs.vetted hrow, fun id hret now item limit => ?_⟩
  obtain ⟨item₁, hrow, hretired⟩ := hs.retired hret
  have hnot : ¬∃ item₀, db.items[id]? = some item₀ ∧ item₀.status.retrievable = true ∧
      item₀.verificationStatus = .verified := by
    rintro ⟨item₀, hrow₀, hretrievable, -⟩
    cases hrow.symm.trans hrow₀
    rw [MemoryStatus.not_retrievable hretired] at hretrievable
    cases hretrievable
  exact ⟨fun q hmem => hnot (retrieveForContext_mem hmem), fun embedding failed hmem =>
    hnot (vectorSearch_mem hmem)⟩

end runs

/-! ## Computed runs -/

/-- The service called at the given times, one call after the other. -/
def MemoryEnv.serve (env : MemoryEnv) : List MemoryEvent → MemoryDb → List (Time × MemoryCall) →
    List MemoryEvent × MemoryDb
  | h, db, [] => (h, db)
  | h, db, (now, c) :: calls =>
    env.serve (⟨db, now, c, c.perform env now db⟩ :: h) (c.perform env now db) calls

theorem Served.serve {env : MemoryEnv} {h : List MemoryEvent} {db : MemoryDb}
    (hs : Served env h db) (calls : List (Time × MemoryCall)) :
    Served env (env.serve h db calls).1 (env.serve h db calls).2 := by
  induction calls generalizing h db with
  | nil => exact hs
  | cons x calls ih => exact ih (hs.call x.1 x.2)

/-- Nothing is secret, and the database keeps its order. -/
def plainEnv : MemoryEnv where
  redact s := s
  threshold := 17 / 20
  same c d := c == d
  distance _ _ := 0
  arrange rows := rows
  arrange_perm rows := .refl rows

/-- An active item is rejected, and a search for its text finds nothing. -/
theorem retired_never_returned_rejected :
    ¬∃ item, (0, item) ∈ (MemoryService.retrieveForContext plainEnv 5 (plainEnv.serve [] {}
      [(0, .createCandidate { content := "text", source := "test" }), (1, .approve 0 false),
        (2, .markActive 0), (3, .reject 0)]).2 "text" 10).2 := by
  rintro ⟨item, hitem⟩
  refine ((retired_never_returned (Served.init.serve _)).2 0 ?_ 5 item 10).1 "text" hitem
  exact .inl ⟨_, rfl, rfl⟩

end Observatory
