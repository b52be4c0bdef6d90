import Observatory.Data.Rank
import Observatory.Verify.Memory

/-!
# What is retrieved

The text of a search is escaped exactly (`search_pattern_iff`).  A search for verified items that is
asked for a status returns items of that status, retrievable or not, for the verification of an item
outlives its status (`verified_search_iff`).  A decision on an item that is neither approved nor
active is answered with success and changes nothing (`decision_effective_iff`).  The vector search
chooses the nearest items and loads them in no particular order (`vector_search_nearest_iff`).
-/

namespace Observatory

open Effect

variable {env : MemoryEnv} {now : Time} {db : MemoryDb} {id : MemoryId} {item : MemoryItem}

/-! ## Patterns -/

/-- **Escaping is exact**: a text matches the pattern of a query just if the query is part of it, up
to the case. -/
theorem search_pattern_iff {fold : Char → Char} (q c : List Char) :
    ilike (fun a b => decide (fold a = fold b)) (['%'] ++ escapeIlike q ++ ['%']) c = true ↔
      ∃ mid, mid <:+: c ∧ mid.map fold = q.map fold := by
  rw [ilike_escapeIlike]
  have hfold : ∀ mid, List.Forall₂ (fun a b => decide (fold a = fold b) = true) q mid ↔
      mid.map fold = q.map fold := by
    intro mid
    simp only [decide_eq_true_eq]
    rw [← List.forall₂_map_left_iff (f := fold) (R := fun a b => a = fold b),
      ← List.forall₂_map_right_iff (f := fold) (R := Eq), List.forall₂_eq_eq_eq, eq_comm]
  constructor
  · rintro ⟨before, mid, after, rfl, hsame⟩
    exact ⟨mid, ⟨before, after, rfl⟩, (hfold mid).1 hsame⟩
  · rintro ⟨mid, ⟨before, after, rfl⟩, hsame⟩
    exact ⟨before, mid, after, rfl, (hfold mid).2 hsame⟩

/-! ## Searches for verified items -/

/-- Verified, and in a status that may be retrieved. -/
def InUse (item : MemoryItem) : Prop :=
  item.verificationStatus = .verified ∧ item.status.retrievable = true

/-- A row that a search returns was there and met its conditions. -/
theorem found_mem {q : String} {status : Option String} {limit : Nat}
    {verifiedOnly allowExpired : Bool} (hmem : (id, item) ∈
      MemoryService.found env now db q status limit verifiedOnly allowExpired) :
    ∃ item₀, db.items[id]? = some item₀ ∧
      MemoryService.matching env now q status verifiedOnly allowExpired item₀ = true ∧
      item = { item₀ with content := env.redact item₀.content } := by
  obtain ⟨⟨id₀, item₀⟩, htake, heq⟩ := List.mem_map.1 hmem
  cases heq
  have hsorted := (List.mem_insertionSort _).1 (List.mem_of_mem_take htake)
  obtain ⟨hrow, hmatch⟩ := List.mem_filter.1 ((env.arrange_perm _).mem_iff.1 hsorted)
  exact ⟨item₀, MemoryDb.mem_rows.1 hrow, hmatch, rfl⟩

/-- All rows that match are returned if the limit allows it. -/
theorem length_found {q : String} {status : Option String} {limit : Nat}
    {verifiedOnly allowExpired : Bool} :
    (MemoryService.found env now db q status limit verifiedOnly allowExpired).length =
      min limit (db.rows.filter fun x =>
        MemoryService.matching env now q status verifiedOnly allowExpired x.2).length := by
  rw [MemoryService.found, List.length_map, List.length_take, List.length_insertionSort,
    (env.arrange_perm _).length_eq]

theorem mem_found {q : String} {status : Option String} {limit : Nat}
    {verifiedOnly allowExpired : Bool} (hrow : db.items[id]? = some item)
    (hmatch : MemoryService.matching env now q status verifiedOnly allowExpired item = true)
    (hlimit : (db.rows.filter fun x => MemoryService.matching env now q status verifiedOnly
      allowExpired x.2).length ≤ limit) :
    (id, { item with content := env.redact item.content }) ∈
      MemoryService.found env now db q status limit verifiedOnly allowExpired := by
  refine List.mem_map.2 ⟨(id, item), ?_, rfl⟩
  rw [List.take_of_length_le]
  · refine (List.mem_insertionSort _).2 ((env.arrange_perm _).mem_iff.2 ?_)
    exact List.mem_filter.2 ⟨MemoryDb.mem_rows.2 hrow, hmatch⟩
  · rwa [List.length_insertionSort, (env.arrange_perm _).length_eq]

theorem status_of_matching {q : String} {s : String} {allowExpired : Bool} (hs : s ≠ "")
    (hmatch : MemoryService.matching env now q (some s) true allowExpired item = true) :
    item.status.value = s ∧ item.verificationStatus = .verified := by
  simp only [MemoryService.matching, Option.filter_some, decide_eq_true hs, if_true,
    Bool.and_eq_true, decide_eq_true_eq] at hmatch
  exact hmatch.1.2

theorem inUse_of_matching {q : String} {status : Option String} {allowExpired : Bool}
    (hs : status.filter (· ≠ "") = none)
    (hmatch : MemoryService.matching env now q status true allowExpired item = true) :
    InUse item := by
  simp only [MemoryService.matching, hs, Bool.and_eq_true, decide_eq_true_eq] at hmatch
  exact ⟨hmatch.1.2.2, hmatch.1.2.1⟩

/-- **A search for verified items returns usable ones** unless it is asked for another status and
there are items of that status that match. -/
theorem verified_search_iff (env : MemoryEnv) (now : Time) (db : MemoryDb) (q : String)
    (status : Option String) (limit : Nat) (allowExpired : Bool) :
    (∀ x ∈ (MemoryService.search env now db q status limit true allowExpired).2, InUse x.2) ↔
      ∀ s, status = some s → s ≠ "" →
        (∃ st : MemoryStatus, st.value = s ∧ st.retrievable = true) ∨ limit = 0 ∨
          ∀ x ∈ db.rows,
            MemoryService.matching env now q status true allowExpired x.2 = false := by
  constructor
  · rintro huse s rfl hs
    by_cases hzero : limit = 0
    · exact .inr (.inl hzero)
    by_cases hnone : ∀ x ∈ db.rows,
        MemoryService.matching env now q (some s) true allowExpired x.2 = false
    · exact .inr (.inr hnone)
    -- some row is returned, and it has the status that is asked for
    have hlen : 0 < (MemoryService.found env now db q (some s) limit true allowExpired).length := by
      rw [length_found]
      refine lt_min (Nat.pos_of_ne_zero hzero) (List.length_pos_iff.2 fun hnil => hnone ?_)
      intro x hx
      exact Bool.eq_false_of_not_eq_true (List.filter_eq_nil_iff.1 hnil x hx)
    obtain ⟨⟨id, item⟩, hmem⟩ := List.exists_mem_of_length_pos hlen
    obtain ⟨item₀, -, hmatch, rfl⟩ := found_mem hmem
    have hret := (huse _ hmem).2
    exact .inl ⟨item₀.status, (status_of_matching hs hmatch).1, hret⟩
  · rintro hcond ⟨id, item⟩ hmem
    obtain ⟨item₀, hrow, hmatch, rfl⟩ := found_mem hmem
    cases hasked : status.filter (· ≠ "") with
    | none =>
      have huse : InUse item₀ := inUse_of_matching hasked hmatch
      exact huse
    | some s =>
      obtain ⟨rfl, hs⟩ := Option.filter_eq_some_iff.1 hasked
      have hs := of_decide_eq_true hs
      obtain ⟨hstatus, hverified⟩ := status_of_matching hs hmatch
      rcases hcond s rfl hs with ⟨st, hst, hret⟩ | rfl | hnone
      · refine ⟨hverified, ?_⟩
        have hsame : item₀.status = st := by
          rw [← hst] at hstatus
          revert hstatus
          cases item₀.status <;> cases st <;> decide
        exact hsame ▸ hret
      · have hlen : 0 < (MemoryService.found env now db q (some s) 0 true allowExpired).length :=
          List.length_pos_of_mem hmem
        rw [length_found, Nat.zero_min] at hlen
        exact (Nat.lt_irrefl 0 hlen).elim
      · rw [hnone _ (MemoryDb.mem_rows.2 hrow)] at hmatch
        cases hmatch

/-- An item is approved, and rejected afterwards. -/
def rejectedLater : List (Time × MemoryCall) :=
  [(0, .createCandidate { content := "text", source := "test" }), (1, .approve 0 false),
    (2, .reject 0)]

/-- A rejected item stays verified, so a search for rejected ones returns it. -/
theorem rejected_returned : ¬∀ (env : MemoryEnv) (h : List MemoryEvent) (db : MemoryDb),
    Served env h db → ∀ (now : Time) (q : String) (status : Option String) (limit : Nat)
      (allowExpired : Bool),
      ∀ x ∈ (MemoryService.search env now db q status limit true allowExpired).2, InUse x.2 := by
  intro hclaim
  have huse := hclaim plainEnv _ _ (Served.init.serve rejectedLater) 3 "text" (some "REJECTED")
    10 false
  have hnone := (huse _ (List.mem_cons_self)).2
  revert hnone
  decide

/-! ## Decisions -/

/-- No transition leads from the status to a usable one. -/
def MemoryStatus.final : MemoryStatus → Bool
  | rejected | superseded | expired | deleted => true
  | _ => false

/-- A decision that is answered with success leaves a usable item, and one that the status does not
allow is refused. -/
structure TakesEffect (db : MemoryDb) (memoryId : Option MemoryId) (d : Dict) : Prop where
  effective : ∀ status, (decideMemory db memoryId d).2 = .ok status → ∃ id item,
    memoryId = some id ∧ (decideMemory db memoryId d).1.items[id]? = some item ∧ InUse item
  refused : ∀ id item, memoryId = some id → db.items[id]? = some item → item.status.final = true →
    ∃ code detail, (decideMemory db memoryId d).2 = .httpError code detail

/-- The item, if there is one, has been approved. -/
def Approved (db : MemoryDb) (memoryId : Option MemoryId) : Prop :=
  ∀ id item, memoryId = some id → db.items[id]? = some item → item.status.retrievable = true

theorem decideMemory_grant {d : Dict} {action : String}
    (hd : Dict.get d "decision" = some (.str action)) (haction : action ∈ ["approve", "activate"])
    (hrow : db.items[id]? = some item) :
    decideMemory db (some id) d = (MemoryService.markActive db id, .ok action) := by
  have hgrant : action = "approve" ∨ action = "activate" := by simpa using haction
  simp only [decideMemory, hrow, hd, Json.str]
  exact if_pos hgrant

/-- What `mark_active` makes of an item. -/
theorem markActive_row (hrow : db.items[id]? = some item) :
    (MemoryService.markActive db id).items[id]? = some
      (if item.status = .approved ∨ item.status = .autoApproved then
        { item with status := .active, verificationStatus := .verified } else item) := by
  simp only [MemoryService.markActive, hrow]
  split
  · exact MemoryDb.update_self hrow
  · exact hrow

theorem MemoryStatus.not_final {s : MemoryStatus} (h : s.retrievable = true) :
    s.final = false := by
  cases s <;> first | rfl | cases h

/-- **A usable item stays usable** as long as no call takes it out of use. -/
theorem ItemStep.inUse {item' : MemoryItem} {call : MemoryCall}
    (hstep : ItemStep now id item call item') (hu : InUse item)
    (hret : item'.status.retired = false) : InUse item' ∧ item'.expiresAt = item.expiresAt := by
  cases hstep with
  | same => exact ⟨hu, rfl⟩
  | redacted content => exact ⟨hu, rfl⟩
  | approved hs =>
    have hnot := hu.2
    rw [hs] at hnot
    cases hnot
  | rejected => cases hret
  | activated hs => exact ⟨⟨rfl, rfl⟩, rfl⟩
  | superseded hne => cases hret
  | expired hdue => cases hret
  | promoted hs => exact ⟨⟨rfl, rfl⟩, rfl⟩

theorem Served.inUse {e : MemoryEvent} {h h' : List MemoryEvent}
    (hs : Served env (h' ++ e :: h) db) (hafter : e.after.items[id]? = some item)
    (hu : InUse item) (hlater : ∀ e' ∈ h', ¬Retires e' id) :
    ∃ item', db.items[id]? = some item' ∧ InUse item' ∧ item'.expiresAt = item.expiresAt := by
  induction h' generalizing db with
  | nil =>
    cases hs with
    | call now c hs => exact ⟨item, hafter, hu, rfl⟩
  | cons e' h' ih =>
    cases hs with
    | @call _ db now c hs =>
      obtain ⟨item₁, hrow, hu₁, hexp⟩ := ih hs fun e' he' => hlater e' (List.mem_cons_of_mem _ he')
      obtain ⟨item₂, hrow₂, hstep⟩ := @MemoryCall.step env now db id item₁ c hrow
      have hret : item₂.status.retired = false := by
        refine Bool.eq_false_of_not_eq_true fun hret => ?_
        exact hlater _ List.mem_cons_self ⟨item₂, hrow₂, hret⟩
      obtain ⟨hu₂, hexp₂⟩ := hstep.inUse hu₁ hret
      exact ⟨item₂, hrow₂, hu₂, hexp₂.trans hexp⟩

theorem Approved.takesEffect {h : List MemoryEvent} (hs : Served env h db)
    {memoryId : Option MemoryId} {d : Dict} {action : String}
    (hd : Dict.get d "decision" = some (.str action)) (haction : action ∈ ["approve", "activate"])
    (happroved : Approved db memoryId) : TakesEffect db memoryId d := by
  cases memoryId with
  | none =>
    refine ⟨fun status hok => ?_, fun id item hid => ?_⟩
    · cases hok
    · cases hid
  | some id =>
    cases hrow : db.items[id]? with
    | none =>
      have hreply : decideMemory db (some id) d = (db, .httpError 404 "kayıt yok") := by
        simp only [decideMemory, hrow]
      refine ⟨fun status hok => ?_, fun id' item hid hrow' => ?_⟩
      · rw [hreply] at hok
        cases hok
      · cases hid
        rw [hrow] at hrow'
        cases hrow'
    | some item =>
      have hret := happroved id item rfl hrow
      have hu : InUse item := ⟨(hs.vetted hrow hret).1, hret⟩
      have hafter := markActive_row hrow
      have hdb : (decideMemory db (some id) d).1 = MemoryService.markActive db id := by
        rw [decideMemory_grant hd haction hrow]
      rw [← hdb] at hafter
      refine ⟨fun status _ => ⟨id, _, rfl, hafter, ?_⟩, fun id' item' hid hrow' hfinal => ?_⟩
      · split
        · exact ⟨rfl, rfl⟩
        · exact hu
      · cases hid
        cases hrow.symm.trans hrow'
        rw [MemoryStatus.not_final hret] at hfinal
        cases hfinal

/-- **A decision takes effect** exactly on approved items; one of those is found from then on as long
as no call takes it out of use and its time has not come. -/
theorem decision_effective_iff {h : List MemoryEvent} (hs : Served env h db)
    (memoryId : Option MemoryId) {d : Dict} {action : String}
    (hd : Dict.get d "decision" = some (.str action))
    (haction : action ∈ ["approve", "activate"]) :
    (TakesEffect db memoryId d ↔ Approved db memoryId) ∧
    (Approved db memoryId → ∀ id item, memoryId = some id → db.items[id]? = some item →
      ∀ now h' db',
        Served env (h' ++ ⟨db, now, .markActive id, (decideMemory db memoryId d).1⟩ :: h) db' →
        (∀ e ∈ h', ¬Retires e id) → ∀ now' q limit,
          (∀ item', db'.items[id]? = some item' →
            MemoryService.unexpired now' item' = true ∧
              ilike env.same (['%'] ++ escapeIlike q.toList ++ ['%']) item'.content.toList = true) →
          (db'.rows.filter fun x =>
            MemoryService.matching env now' q none true false x.2).length ≤ limit →
          ∃ item', (id, item') ∈ (MemoryService.retrieveForContext env now' db' q limit).2) := by
  refine ⟨⟨fun heffect id item hid hrow => ?_, fun happroved =>
    happroved.takesEffect hs hd haction⟩, ?_⟩
  · subst hid
    obtain ⟨id', item', hid, hafter, hu⟩ :=
      heffect.effective action (by rw [decideMemory_grant hd haction hrow])
    cases hid
    rw [decideMemory_grant hd haction hrow, markActive_row hrow] at hafter
    split at hafter
    · next hstatus => rcases hstatus with hstatus | hstatus <;> rw [hstatus] <;> rfl
    · cases hafter
      exact hu.2
  · rintro happroved id item rfl hrow now h' db' hs' hlater now' q limit hmatches hlimit
    obtain ⟨id', item', hid, hafter, hu⟩ := (happroved.takesEffect hs hd haction).effective action
      (by rw [decideMemory_grant hd haction hrow])
    cases hid
    obtain ⟨item₁, hrow₁, hu₁, -⟩ := hs'.inUse hafter hu hlater
    obtain ⟨hunexpired, htext⟩ := hmatches item₁ hrow₁
    refine ⟨_, mem_found hrow₁ ?_ hlimit⟩
    have hnot : item₁.status ≠ .expired := by
      intro hexpired
      have hret := hu₁.2
      rw [hexpired] at hret
      cases hret
    simpa [MemoryService.matching, hunexpired, hu₁.1, hu₁.2, hnot] using htext

/-- An approved item is activated, and found from then on. -/
theorem decision_effective_iff_approved :
    TakesEffect (plainEnv.serve [] {} [(0, .createCandidate { content := "text", source := "test" }),
      (1, .approve 0 false)]).2 (some 0) [("decision", .str "activate")] ∧
    ∃ item, (0, item) ∈ (MemoryService.retrieveForContext plainEnv 5 (plainEnv.serve [] {}
      [(0, .createCandidate { content := "text", source := "test" }), (1, .approve 0 false),
        (2, .markActive 0)]).2 "ex" 10).2 := by
  obtain ⟨hiff, hfound⟩ := decision_effective_iff (@Served.serve plainEnv _ _ .init
    [(0, .createCandidate { content := "text", source := "test" }), (1, .approve 0 false)]) (some 0)
    (d := [("decision", .str "activate")]) rfl (by decide)
  have happroved : Approved (plainEnv.serve [] {} [(0, .createCandidate
      { content := "text", source := "test" }), (1, .approve 0 false)]).2 (some 0) := by
    rintro id item hid hrow
    cases hid
    cases hrow
    rfl
  refine ⟨hiff.2 happroved, hfound happroved 0 _ rfl rfl 2 [] _
    (Served.call 2 (.markActive 0) (Served.init.serve _)) ?_ 5 "ex" 10 ?_ ?_⟩
  · rintro e ⟨⟩
  · rintro item hrow
    cases hrow
    exact ⟨rfl, by decide⟩
  · decide

/-- A candidate is still a candidate after its approval. -/
theorem candidate_not_approved : ¬∀ (env : MemoryEnv) (h : List MemoryEvent) (db : MemoryDb),
    Served env h db → ∀ (memoryId : Option MemoryId) (d : Dict) (action : String),
      Dict.get d "decision" = some (.str action) → action ∈ ["approve", "activate"] →
        TakesEffect db memoryId d := by
  intro hclaim
  have heffect := hclaim plainEnv _ _ (Served.init.serve
    [(0, .createCandidate { content := "text", source := "test" })]) (some 0)
    [("decision", .str "approve")] "approve" rfl (by decide)
  obtain ⟨id, item, hid, hrow, hu⟩ := heffect.effective "approve" rfl
  cases hid
  cases hrow
  cases hu.2

/-! ## The nearest -/

section vector

variable (env : MemoryEnv) (now : Time) (db : MemoryDb) (embedding : Embedding) (limit : Nat)

/-- The database may choose the row for a vector search. -/
def eligible (item : MemoryItem) : Bool :=
  item.verificationStatus = .verified && item.status.retrievable &&
    MemoryService.unexpired now item && item.embeddingVector.isSome

/-- The distance of an item from the query. -/
def distanceTo (item : MemoryItem) : Rat :=
  (item.embeddingVector.map fun v => env.distance v.1 embedding).getD 0

/-- What the first query compares is of one dimension. -/
def Comparable : Prop :=
  ∀ x ∈ db.rows, eligible now x.2 = true → embedding.length = vectorDim

/-- The rows are the nearest eligible ones, as many as there are up to the limit. -/
structure Nearest (rows : List (MemoryId × MemoryItem)) : Prop where
  nodup : rows.Nodup
  eligible : ∀ x ∈ rows, x ∈ db.rows ∧ eligible now x.2 = true
  length : rows.length = min limit (db.rows.countP fun x => Observatory.eligible now x.2)
  nearest : ∀ x ∈ rows, ∀ y ∈ db.rows, Observatory.eligible now y.2 = true → y ∉ rows →
    distanceTo env embedding x.2 ≤ distanceTo env embedding y.2

/-- The nearest first. -/
structure NearestFirst (rows : List (MemoryId × MemoryItem)) : Prop
    extends Nearest env now db embedding limit rows where
  sorted : rows.Pairwise fun x y => distanceTo env embedding x.2 ≤ distanceTo env embedding y.2

/-- The rows that the first query chooses. -/
def chosen : List (MemoryId × MemoryItem) :=
  Rank.least (fun x => distanceTo env embedding x.2) limit
    ((env.arrange db.rows).filter fun x => eligible now x.2)

/-- All the nearest rows are equally near. -/
def Tied : Prop :=
  ∀ d ∈ Rank.least (fun d => d) limit ((db.rows.filter fun x => eligible now x.2).map fun x =>
      distanceTo env embedding x.2),
    ∀ d' ∈ Rank.least (fun d => d) limit ((db.rows.filter fun x => eligible now x.2).map fun x =>
      distanceTo env embedding x.2), d = d'

end vector

section vector

variable {embedding : Embedding} {limit : Nat}

theorem MemoryDb.nodup_rows (db : MemoryDb) : db.rows.Nodup := by
  have hids : db.rows.map Prod.fst = List.range' 0 db.items.length := by
    rw [MemoryDb.rows, List.map_map, ← List.zipIdx_map_snd]
    rfl
  exact List.Nodup.of_map _ (hids ▸ List.nodup_range')

theorem MemoryDb.eq_of_rows {x y : MemoryId × MemoryItem} (hx : x ∈ db.rows) (hy : y ∈ db.rows)
    (hid : x.1 = y.1) : x = y := by
  have hrow := MemoryDb.mem_rows.1 (show (x.1, x.2) ∈ db.rows from hx)
  rw [hid, MemoryDb.mem_rows.1 (show (y.1, y.2) ∈ db.rows from hy)] at hrow
  exact Prod.ext hid (Option.some.inj hrow).symm

/-- The rows the first query compares, with their vectors. -/
theorem near_eq (now : Time) (rows : List (MemoryId × MemoryItem)) {β : Type}
    (f : StoredVector → MemoryId → β) (g : MemoryId × MemoryItem → β)
    (hfg : ∀ x v, x.2.embeddingVector = some v → f v x.1 = g x) :
    ((rows.filterMap fun x =>
      if x.2.verificationStatus = .verified ∧ x.2.status.retrievable ∧
          MemoryService.unexpired now x.2 then
        x.2.embeddingVector.map fun v => (v, x.1)
      else none).map fun y => f y.1 y.2) = (rows.filter fun x => eligible now x.2).map g := by
  induction rows with
  | nil => rfl
  | cons x rows ih =>
    simp only [List.filterMap_cons, List.filter_cons]
    by_cases hgood : x.2.verificationStatus = .verified ∧ x.2.status.retrievable ∧
        MemoryService.unexpired now x.2
    · rw [if_pos hgood]
      cases hv : x.2.embeddingVector with
      | none =>
        have hnot : eligible now x.2 = false := by simp [eligible, hv]
        rw [hnot]
        exact ih
      | some v =>
        have hyes : eligible now x.2 = true := by simp [eligible, hv, hgood]
        rw [hyes]
        exact congrArg₂ _ (hfg x v hv) ih
    · have hnot : eligible now x.2 = false := by
        refine Bool.eq_false_of_not_eq_true fun hyes => hgood ?_
        simp only [eligible, Bool.and_eq_true, decide_eq_true_eq] at hyes
        exact ⟨hyes.1.1.1, hyes.1.1.2, hyes.1.2⟩
      rw [if_neg hgood, hnot]
      exact ih

/-- The dimensions the first query finds. -/
theorem near_lengths (rows : List (MemoryId × MemoryItem)) :
    ((rows.filterMap fun x =>
      if x.2.verificationStatus = .verified ∧ x.2.status.retrievable ∧
          MemoryService.unexpired now x.2 then
        x.2.embeddingVector.map fun v => (v, x.1)
      else none).map fun y : StoredVector × MemoryId => y.1.1.length) =
      (rows.filter fun x => eligible now x.2).map fun _ => vectorDim :=
  near_eq _ rows (fun v _ => v.1.length) (fun _ => vectorDim) fun _ v _ => v.2

/-- The first query raises just for a row of another dimension. -/
theorem comparable_of_vectorQuery {ids : List MemoryId}
    (hquery : MemoryService.vectorQuery env now db embedding limit = some ids) :
    Comparable now db embedding := by
  intro x hx heligible
  simp only [MemoryService.vectorQuery] at hquery
  split at hquery
  · cases hquery
  next hany =>
    have hmem : vectorDim ∈ ((env.arrange db.rows).filter fun x => eligible now x.2).map
        fun _ => vectorDim :=
      List.mem_map.2 ⟨x, List.mem_filter.2 ⟨(env.arrange_perm _).mem_iff.2 hx, heligible⟩, rfl⟩
    rw [← near_lengths] at hmem
    obtain ⟨y, hy, hlen⟩ := List.mem_map.1 hmem
    by_contra hne
    refine hany (List.any_eq_true.2 ⟨y, hy, decide_eq_true ?_⟩)
    rw [hlen]
    exact fun hsame => hne hsame.symm

/-- **What the first query gives**: the rows chosen, if it compares vectors of one dimension. -/
theorem vectorQuery_eq (hdim : Comparable now db embedding) :
    MemoryService.vectorQuery env now db embedding limit =
      some ((chosen env now db embedding limit).map Prod.fst) := by
  have hranked := near_eq now (env.arrange db.rows)
    (fun v id => (env.distance v.1 embedding, id))
    (fun x => (distanceTo env embedding x.2, x.1)) fun x v hv => by simp [distanceTo, hv]
  simp only [MemoryService.vectorQuery]
  rw [if_neg, hranked, ← List.map_insertionSort (r := fun x y : MemoryId × MemoryItem =>
      distanceTo env embedding x.2 ≤ distanceTo env embedding y.2)
    (s := fun x y : Rat × MemoryId => x.1 ≤ y.1) _ _ fun _ _ _ _ => Iff.rfl, ← List.map_take,
    List.map_map]
  · rfl
  · intro hany
    obtain ⟨y, hy, hne⟩ := List.any_eq_true.1 hany
    have hmem := List.mem_map_of_mem (f := fun y : StoredVector × MemoryId => y.1.1.length) hy
    rw [near_lengths] at hmem
    obtain ⟨x, hx, hlen⟩ := List.mem_map.1 hmem
    obtain ⟨hrow, heligible⟩ := List.mem_filter.1 hx
    refine of_decide_eq_true hne ?_
    rw [hdim x ((env.arrange_perm _).mem_iff.1 hrow) heligible]
    exact hlen.symm

/-- What the second query loads. -/
theorem vectorSearch_eq (hdim : Comparable now db embedding) :
    MemoryService.vectorSearch env now db embedding limit false =
      if ((chosen env now db embedding limit).map Prod.fst).isEmpty then [] else
        env.arrange (db.rows.filter fun x =>
          x.1 ∈ (chosen env now db embedding limit).map Prod.fst) := by
  simp only [MemoryService.vectorSearch, vectorQuery_eq hdim, Bool.false_eq_true, if_false]

/-- **The chosen rows are loaded**, in some order. -/
theorem vectorSearch_perm (hdim : Comparable now db embedding) :
    (MemoryService.vectorSearch env now db embedding limit false).Perm
      (chosen env now db embedding limit) := by
  have hrows : ∀ {x}, x ∈ chosen env now db embedding limit → x ∈ db.rows := fun hx =>
    (env.arrange_perm _).mem_iff.1 (List.mem_filter.1 (Rank.mem_of_mem_least hx)).1
  have hnodup : (chosen env now db embedding limit).Nodup :=
    Rank.nodup_least (((env.arrange_perm _).nodup_iff.2 db.nodup_rows).filter _)
  have hload : (db.rows.filter fun x =>
      x.1 ∈ (chosen env now db embedding limit).map Prod.fst).Perm
        (chosen env now db embedding limit) := by
    refine (List.perm_ext_iff_of_nodup (db.nodup_rows.filter _) hnodup).2 fun x => ?_
    rw [List.mem_filter, decide_eq_true_iff, List.mem_map]
    constructor
    · rintro ⟨hx, y, hy, hid⟩
      exact MemoryDb.eq_of_rows (hrows hy) hx hid ▸ hy
    · intro hx
      exact ⟨hrows hx, x, hx, rfl⟩
  rw [vectorSearch_eq hdim]
  split
  · next hempty =>
    have hnil : chosen env now db embedding limit = [] :=
      List.map_eq_nil_iff.1 (List.isEmpty_iff.1 hempty)
    rw [hnil]
  · exact (env.arrange_perm _).trans hload

theorem mem_chosen {x : MemoryId × MemoryItem} (hx : x ∈ chosen env now db embedding limit) :
    x ∈ db.rows ∧ eligible now x.2 = true := by
  obtain ⟨hrow, heligible⟩ := List.mem_filter.1 (Rank.mem_of_mem_least hx)
  exact ⟨(env.arrange_perm _).mem_iff.1 hrow, heligible⟩

/-- **The right rows**: the nearest eligible ones, in whatever order. -/
theorem vectorSearch_nearest (hdim : Comparable now db embedding) :
    Nearest env now db embedding limit
      (MemoryService.vectorSearch env now db embedding limit false) := by
  have hperm := @vectorSearch_perm env now db embedding limit hdim
  have hnodup : (chosen env now db embedding limit).Nodup :=
    Rank.nodup_least (((env.arrange_perm _).nodup_iff.2 db.nodup_rows).filter _)
  refine ⟨hperm.nodup_iff.2 hnodup, fun x hx => mem_chosen (hperm.mem_iff.1 hx), ?_, ?_⟩
  · rw [hperm.length_eq, chosen, Rank.length_least, ← List.countP_eq_length_filter,
      (env.arrange_perm _).countP_eq]
  · intro x hx y hy heligible hnot
    have hy : y ∈ (env.arrange db.rows).filter fun x => eligible now x.2 :=
      List.mem_filter.2 ⟨(env.arrange_perm _).mem_iff.2 hy, heligible⟩
    have hle := Rank.le_of_notMem_least (hperm.mem_iff.1 hx) hy fun hmem =>
      hnot (hperm.mem_iff.2 hmem)
    exact hle

/-- The distances of the rows that are chosen do not depend on the order of the table. -/
theorem map_chosen :
    (chosen env now db embedding limit).map (fun x => distanceTo env embedding x.2) =
      Rank.least (fun d => d) limit ((db.rows.filter fun x => eligible now x.2).map fun x =>
        distanceTo env embedding x.2) := by
  rw [chosen, Rank.map_least]
  exact Rank.least_of_perm (((env.arrange_perm _).filter _).map _)

/-- Ties are the only reason for which any order is a right one. -/
theorem tied_iff (hdim : Comparable now db embedding) : Tied env now db embedding limit ↔
    ∀ x ∈ MemoryService.vectorSearch env now db embedding limit false,
      ∀ y ∈ MemoryService.vectorSearch env now db embedding limit false,
        distanceTo env embedding x.2 = distanceTo env embedding y.2 := by
  rw [Tied, ← map_chosen]
  simp only [List.forall_mem_map, (@vectorSearch_perm env now db embedding limit hdim).mem_iff]

end vector

/-- The database returns the farthest rows first. -/
def MemoryEnv.farthestFirst (env : MemoryEnv) (embedding : Embedding) : MemoryEnv :=
  { env with
    arrange := fun rows => rows.insertionSort fun x y =>
      distanceTo env embedding y.2 ≤ distanceTo env embedding x.2
    arrange_perm := fun rows => List.perm_insertionSort _ rows }

theorem farthestFirst_sorted (env : MemoryEnv) (now : Time) (db : MemoryDb)
    (embedding : Embedding) (limit : Nat) (hdim : Comparable now db embedding) :
    (MemoryService.vectorSearch (env.farthestFirst embedding) now db embedding limit
      false).Pairwise fun x y => distanceTo env embedding y.2 ≤ distanceTo env embedding x.2 := by
  have htotal : Std.Total fun x y : MemoryId × MemoryItem =>
      distanceTo env embedding y.2 ≤ distanceTo env embedding x.2 := ⟨fun _ _ => le_total _ _⟩
  have htrans : IsTrans (MemoryId × MemoryItem) fun x y =>
      distanceTo env embedding y.2 ≤ distanceTo env embedding x.2 :=
    ⟨fun _ _ _ h h' => h'.trans h⟩
  rw [vectorSearch_eq hdim]
  split
  · exact .nil
  · exact List.pairwise_insertionSort _ _

/-- **The nearest come first**, when the first query succeeds, in every order of the second one just
if they are equally near.  They are the nearest in any case. -/
theorem vector_search_nearest_iff (env : MemoryEnv) (now : Time) (db : MemoryDb)
    (embedding : Embedding) (limit : Nat) {ids : List MemoryId}
    (hquery : MemoryService.vectorQuery env now db embedding limit = some ids) :
    Nearest env now db embedding limit
      (MemoryService.vectorSearch env now db embedding limit false) ∧
    ((∀ (arrange : List (MemoryId × MemoryItem) → List (MemoryId × MemoryItem))
        (arrange_perm : ∀ rows, (arrange rows).Perm rows),
        NearestFirst env now db embedding limit (MemoryService.vectorSearch
          { env with arrange, arrange_perm } now db embedding limit false)) ↔
      Tied env now db embedding limit) := by
  have hdim := comparable_of_vectorQuery hquery
  refine ⟨vectorSearch_nearest hdim, fun hfirst => ?_, fun htied arrange arrange_perm => ?_⟩
  · have hup := (hfirst _ (env.farthestFirst embedding).arrange_perm).sorted
    have hdown := farthestFirst_sorted env now db embedding limit hdim
    exact (@tied_iff (env.farthestFirst embedding) now db embedding limit hdim).2
      (Rank.all_eq_of_sorted hup hdown)
  · have hnearest :=
      @vectorSearch_nearest { env with arrange, arrange_perm } now db embedding limit hdim
    refine ⟨⟨hnearest.nodup, hnearest.eligible, hnearest.length, hnearest.nearest⟩, ?_⟩
    have hsame := (@tied_iff { env with arrange, arrange_perm } now db embedding limit hdim).1 htied
    exact List.Pairwise.imp_of_mem (fun hx hy _ => le_of_eq (hsame _ hx _ hy))
      (List.pairwise_of_forall fun _ _ => trivial)

/-- The unit vector along an axis. -/
def axis (i : Nat) : StoredVector := ⟨(List.replicate vectorDim 0).set i 1, by simp⟩

/-- The cosine distance of two unit vectors along the axes. -/
def plainDistance (v w : Embedding) : Rat := if v = w then 0 else 1

/-- Two items are approved, the nearer one last. -/
def nearerLast : List (Time × MemoryCall) :=
  [(0, .createCandidate { content := "far", source := "test", embeddingVector := some (axis 1).1 }),
    (1, .createCandidate
      { content := "near", source := "test", embeddingVector := some (axis 0).1 }),
    (2, .approve 0 false), (3, .approve 1 false)]

/-- A search for the nearest of the two, in any order. -/
theorem vector_search_nearest_one :
    MemoryService.vectorQuery { plainEnv with distance := plainDistance } 4
      (plainEnv.serve [] {} nearerLast).2 (axis 0).1 1 = some [1] ∧
    ∀ (arrange : List (MemoryId × MemoryItem) → List (MemoryId × MemoryItem))
      (arrange_perm : ∀ rows, (arrange rows).Perm rows),
      NearestFirst { plainEnv with distance := plainDistance } 4
        (plainEnv.serve [] {} nearerLast).2 (axis 0).1 1 (MemoryService.vectorSearch
          { plainEnv with distance := plainDistance, arrange, arrange_perm } 4
          (plainEnv.serve [] {} nearerLast).2 (axis 0).1 1 false) := by
  have hquery : MemoryService.vectorQuery { plainEnv with distance := plainDistance } 4
      (plainEnv.serve [] {} nearerLast).2 (axis 0).1 1 = some [1] := by
    decide +kernel
  refine ⟨hquery, (vector_search_nearest_iff _ 4 _ _ 1 hquery).2.2 ?_⟩
  unfold Tied
  decide +kernel

theorem nearerLast_query : MemoryService.vectorQuery { plainEnv with distance := plainDistance } 4
    (plainEnv.serve [] {} nearerLast).2 (axis 0).1 10 = some [1, 0] := by
  decide +kernel

/-- The rows are loaded in the order of the table, the farther one first. -/
theorem farther_first : ¬∀ (env : MemoryEnv) (now : Time) (db : MemoryDb) (embedding : Embedding)
    (limit : Nat) (ids : List MemoryId),
    MemoryService.vectorQuery env now db embedding limit = some ids →
      NearestFirst env now db embedding limit
        (MemoryService.vectorSearch env now db embedding limit false) := by
  intro hclaim
  have hsorted := (hclaim _ 4 _ _ 10 _ nearerLast_query).sorted
  revert hsorted
  decide +kernel

end Observatory
