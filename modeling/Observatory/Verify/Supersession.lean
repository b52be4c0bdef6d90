import Observatory.Data.Acyclic
import Observatory.Verify.Memory

/-!
# What supersedes what

`supersede` looks at nothing but the two ids and the status of the new item, and still the rows it
writes form no cycle: an item that has been superseded is out of use for good, so it is never again
the active one that supersedes another (`MemoryCall.relations_cases`, `Layered.step`).
-/

namespace Observatory

open Effect

/-- There is a row that says that `new` supersedes `old`. -/
def Supersedes (db : MemoryDb) (new old : MemoryId) : Prop :=
  ⟨new, old, .supersedes⟩ ∈ db.relations

section step

variable {env : MemoryEnv} {now : Time} {db : MemoryDb}

/-- A row that a call adds. -/
inductive MemoryDb.Adds (db db' : MemoryDb) : MemoryRelation → Prop where
  | contradicts (a b : MemoryId) : MemoryDb.Adds db db' ⟨a, b, .contradicts⟩
  | supersedes {new old : MemoryId} {item item' : MemoryItem}
      (hnew : db.items[new]? = some item) (hactive : item.status = .active)
      (hold : db'.items[old]? = some item') (hstatus : item'.status = .superseded)
      (hne : new ≠ old) : MemoryDb.Adds db db' ⟨new, old, .supersedes⟩

@[simp] theorem MemoryDb.update_relations (id : MemoryId) (f : MemoryItem → MemoryItem) :
    (db.update id f).relations = db.relations := rfl

theorem MemoryDb.foldl_update_relations {α : Type} (f : α → MemoryId)
    (g : α → MemoryItem → MemoryItem) (xs : List α) :
    (xs.foldl (fun db x => db.update (f x) (g x)) db).relations = db.relations := by
  induction xs generalizing db with
  | nil => rfl
  | cons x xs ih => rw [List.foldl_cons, ih, update_relations]

/-- **What a call writes about two items.** -/
theorem MemoryCall.relations_cases (call : MemoryCall) :
    (call.perform env now db).relations = db.relations ∨
      ∃ row, MemoryDb.Adds db (call.perform env now db) row ∧
        (call.perform env now db).relations = db.relations ++ [row] := by
  cases call with
  | createCandidate c =>
    left
    simp only [perform, MemoryService.createCandidate]
    cases storeVector (c.embeddingVector <|> c.embedding) <;> rfl
  | approve id auto =>
    left
    simp only [perform, MemoryService.approve]
    repeat' split
    all_goals rfl
  | reject id =>
    left
    simp only [perform, MemoryService.reject]
    split <;> rfl
  | markActive id =>
    left
    simp only [perform, MemoryService.markActive]
    repeat' split
    all_goals rfl
  | supersede old new =>
    simp only [perform, MemoryService.supersede]
    split
    · exact .inl rfl
    · next item hnew =>
      split
      · exact .inl rfl
      · next hactive =>
        split
        · exact .inl rfl
        · next item₀ hold =>
          split
          · exact .inl rfl
          · next hne =>
            have hafter := @MemoryDb.update_self (db.relate new old .supersedes) old item₀
              (fun item => { item with status := .superseded }) hold
            exact .inr ⟨_, .supersedes hnew (not_not.1 hactive) hafter rfl (Ne.symm hne), rfl⟩
  | linkContradiction a b =>
    simp only [perform, MemoryService.linkContradiction]
    split
    · exact .inr ⟨_, .contradicts a b, rfl⟩
    · exact .inl rfl
  | expireSweep => exact .inl rfl
  | autoPromoteCandidates threshold minRuns completed =>
    left
    simp only [perform, MemoryService.autoPromoteCandidates]
    split <;> rfl
  | search q status limit verifiedOnly allowExpired =>
    exact .inl (MemoryDb.foldl_update_relations _ _ _)

end step

/-! ## Runs -/

/-- No cycle, and whatever has been superseded is out of use. -/
structure Layered (db : MemoryDb) : Prop where
  acyclic : Graph.Acyclic (Supersedes db)
  retired : ∀ new old, Supersedes db new old →
    ∃ item, db.items[old]? = some item ∧ item.status.retired = true

section runs

variable {env : MemoryEnv} {now : Time} {db : MemoryDb} {h : List MemoryEvent}

theorem Layered.init : Layered {} where
  acyclic x hcycle := by
    cases hcycle with
    | single hedge => cases hedge
    | tail _ hedge => cases hedge
  retired new old hedge := by cases hedge

/-- **Every call keeps the layers.** -/
theorem Layered.step (hl : Layered db) (call : MemoryCall) :
    Layered (call.perform env now db) := by
  -- what was out of use stays so
  have hkept : ∀ old : MemoryId, (∃ item : MemoryItem, db.items[old]? = some item ∧
      item.status.retired = true) → ∃ item : MemoryItem,
        (call.perform env now db).items[old]? = some item ∧ item.status.retired = true := by
    rintro old ⟨item, hrow, hret⟩
    obtain ⟨item', hrow', hstep⟩ := call.step hrow
    exact ⟨item', hrow', hstep.retired hret⟩
  rcases @MemoryCall.relations_cases env now db call with hsame | ⟨row, hadds, hrow⟩
  · have hiff : Supersedes (call.perform env now db) = Supersedes db := by
      unfold Supersedes
      rw [hsame]
    exact ⟨hiff ▸ hl.acyclic, fun new old hedge => hkept old (hl.retired new old (hiff ▸ hedge))⟩
  · have hmem : ∀ new old, Supersedes (call.perform env now db) new old →
        Supersedes db new old ∨ (⟨new, old, .supersedes⟩ : MemoryRelation) = row := by
      intro new old hedge
      unfold Supersedes at hedge
      rw [hrow] at hedge
      exact (List.mem_append.1 hedge).imp_right List.mem_singleton.1
    cases hadds with
    | contradicts a b =>
      have hold : ∀ new old, Supersedes (call.perform env now db) new old →
          Supersedes db new old := fun new old hedge =>
        (hmem new old hedge).resolve_right fun heq => by cases heq
      exact ⟨fun x hcycle => hl.acyclic x (Relation.TransGen.mono hold _ _ hcycle),
        fun new old hedge => hkept old (hl.retired new old (hold new old hedge))⟩
    | @supersedes new old item item' hnew hactive hold hstatus hne =>
      refine ⟨hl.acyclic.insert (a := new) (b := old) ?_ hne ?_, ?_⟩
      · intro x y hedge
        refine (hmem x y hedge).imp_right fun heq => ?_
        cases heq
        exact ⟨rfl, rfl⟩
      · -- the new item is active, hence has not been superseded
        intro x hedge
        obtain ⟨item₀, hrow₀, hret⟩ := hl.retired x new hedge
        cases hnew.symm.trans hrow₀
        rw [hactive] at hret
        cases hret
      · intro x y hedge
        rcases hmem x y hedge with hbefore | heq
        · exact hkept y (hl.retired x y hbefore)
        · cases heq
          exact ⟨item', hold, by rw [hstatus]; rfl⟩

theorem Served.layered (hs : Served env h db) : Layered db := by
  induction hs with
  | init => exact Layered.init
  | call now c hs ih => exact ih.step c

end runs

/-- **The relation of superseding has no cycle**, whatever the service has been asked to do. -/
theorem supersedes_acyclic {env : MemoryEnv} {h : List MemoryEvent} {db : MemoryDb}
    (hs : Served env h db) (id : MemoryId) : ¬Relation.TransGen (Supersedes db) id id :=
  hs.layered.acyclic id

/-- An item is superseded by one that is superseded in turn. -/
def chainOfThree : List (Time × MemoryCall) :=
  ([0, 1, 2].flatMap fun id => [(0, .createCandidate { content := "text", source := "test" }),
    (1, .approve id false), (2, .markActive id)]) ++ [(3, .supersede 0 1), (4, .supersede 1 2)]

theorem supersedes_acyclic_chain :
    Supersedes (plainEnv.serve [] {} chainOfThree).2 1 0 ∧
      Supersedes (plainEnv.serve [] {} chainOfThree).2 2 1 ∧
        ¬Relation.TransGen (Supersedes (plainEnv.serve [] {} chainOfThree).2) 2 2 := by
  refine ⟨?_, ?_, supersedes_acyclic (Served.init.serve _) 2⟩
  · unfold Supersedes
    decide
  · unfold Supersedes
    decide

end Observatory
