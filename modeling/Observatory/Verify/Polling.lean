import Mathlib.Algebra.Order.Group.Int
import Mathlib.Data.Int.Interval
import Observatory.Data.Window
import Observatory.Verify.Holders

/-!
# Polling the sources

Any number of schedulers run `check_sources` side by side.  Each loads the sources, judges them by
several readings of the clock, and commits later, over whatever another scheduler has committed
meanwhile.  What it knows of the sources it is at is followed through its stages (`Surveys`).

A check looks for the task of the clock hour, and a unique index refuses a second one: so no source
gets two runs for one clock hour, however the checks overlap (`Filed.hours_nodup`).  The hour since
the last access is looked up in the loaded row only; accesses keep that distance as long as they are
committed while the row of the source is still the one that was loaded (`Remembers.apart`).
-/

namespace Observatory

open Effect Effect.Machine

/-! ## One access -/

/-- The back-off of the source is over. -/
def Source.Rested (now : Time) (src : Source) : Prop := ∀ t ∈ src.backoffUntil, t ≤ now

/-- The source was accessed more than an hour ago. -/
def Source.Stale (now : Time) (src : Source) : Prop :=
  ∀ la ∈ src.lastAccessedAt, la + Db.hourMs < now

/-- The access enqueues a run. -/
def Db.Access.enqueues (a : Db.Access) : Bool := !a.found

/-- The key of the task of an access. -/
def Db.Access.key (a : Db.Access) : Key := Db.sourceKey a.source a.hour

/-- The task an access enqueues. -/
def Db.Access.task (a : Db.Access) : Task := Db.sourceTask a.source a.loaded a.hour

@[simp] theorem Db.Access.task_key (a : Db.Access) : a.task.idempotencyKey = some a.key := rfl

/-- What the commit of one access does. -/
structure Accessed (db : Db) (a : Db.Access) (db' : Db) : Prop where
  sources : db'.sources = db.sources.modify a.source (Db.accessed a)
  tasks : db'.tasks = db.tasks ++ ([a].filter (·.enqueues)).map (·.task)
  runs : db'.runs.length = db.runs.length + ([a].filter (·.enqueues)).length
  fresh : a.enqueues = true → db.hasTask a.key = false

section one

variable {now : Time} {db db' : Db} {a : Db.Access} {i : SourceId}

theorem addTask_fresh {t : Task} {k : Key} {n : TaskId} (h : db.addTask t = .ok (db', n))
    (hk : t.idempotencyKey = some k) : db.hasTask k = false := by
  unfold Db.addTask at h
  split at h
  · cases h
  · next hno => simpa [hk, Db.hasTask] using hno

theorem accessSource_accessed (h : Db.accessSource now db a = .ok db') : Accessed db a db' := by
  simp only [Db.accessSource] at h
  split at h
  · next hfound =>
    cases h
    refine ⟨rfl, ?_, ?_, ?_⟩
    · simp [Db.Access.enqueues, hfound]
    · simp [Db.Access.enqueues, hfound]
    · simp [Db.Access.enqueues, hfound]
  · next hfound =>
    simp only [bind, Except.bind, pure, Except.pure] at h
    split at h
    · cases h
    · next htask =>
      split at h
      · cases h
      · next hsent =>
        cases h
        have hadded := (Db.addTask_ok htask).1
        have hdb := Db.addMessage_ok hsent
        have hone : [a].filter (·.enqueues) = [a] := by simp [Db.Access.enqueues, hfound]
        refine ⟨?_, ?_, ?_, fun _ => addTask_fresh htask rfl⟩
        · rw [hdb, hadded]
          rfl
        · rw [hdb, hadded, hone]
          rfl
        · rw [hdb, hadded, hone]
          exact List.length_append

theorem hasTask_of_prefix {k : Key} (htasks : db.tasks <+: db'.tasks) (h : db.hasTask k = true) :
    db'.hasTask k = true := by
  obtain ⟨t, hmem, hk⟩ := List.any_eq_true.1 h
  exact List.any_eq_true.2 ⟨t, htasks.subset hmem, hk⟩

/-! ## All accesses -/

/-- What the commit of a check does. -/
structure AccessedAll (db : Db) (accesses : List Db.Access) (db' : Db) : Prop where
  sources : db'.sources = accesses.foldl (fun l a => l.modify a.source (Db.accessed a)) db.sources
  tasks : db'.tasks = db.tasks ++ (accesses.filter (·.enqueues)).map (·.task)
  runs : db'.runs.length = db.runs.length + (accesses.filter (·.enqueues)).length
  fresh : ∀ a ∈ accesses, a.enqueues = true → db.hasTask a.key = false
  keys : ((accesses.filter (·.enqueues)).map (·.key)).Nodup

theorem commitSources_accessed {accesses : List Db.Access}
    (h : db.commitSources now accesses = .ok db') : AccessedAll db accesses db' := by
  unfold Db.commitSources at h
  induction accesses generalizing db with
  | nil =>
    cases h
    exact ⟨rfl, (List.append_nil _).symm, rfl, by simp, List.nodup_nil⟩
  | cons a accesses ih =>
    rw [List.foldlM_cons] at h
    cases hd : Db.accessSource now db a with
    | error x =>
      rw [hd] at h
      cases h
    | ok d =>
      rw [hd] at h
      have hone := accessSource_accessed hd
      have hrest := ih h
      have hsplit : (a :: accesses).filter (·.enqueues) =
          [a].filter (·.enqueues) ++ accesses.filter (·.enqueues) := List.filter_append [a] accesses
      have hgrows : db.tasks <+: d.tasks := hone.tasks ▸ List.prefix_append _ _
      refine ⟨?_, ?_, ?_, ?_, ?_⟩
      · rw [hrest.sources, hone.sources, List.foldl_cons]
      · rw [hrest.tasks, hone.tasks, hsplit, List.map_append, List.append_assoc]
      · rw [hrest.runs, hone.runs, hsplit, List.length_append, Nat.add_assoc]
      · intro b hb hnew
        rcases List.mem_cons.1 hb with rfl | hb
        · exact hone.fresh hnew
        · by_contra hthere
          rw [Bool.not_eq_false] at hthere
          have hstill := hasTask_of_prefix hgrows hthere
          rw [hrest.fresh b hb hnew] at hstill
          cases hstill
      · rw [hsplit, List.map_append]
        refine List.nodup_append.2 ⟨?_, hrest.keys, ?_⟩
        · exact ((List.nodup_singleton a).filter _).map_on (by simp)
        · rintro k hk k' hk' rfl
          -- the first access has left its task, so a later one finds it
          obtain ⟨a', ha', rfl⟩ := List.mem_map.1 hk
          obtain ⟨b, hb, hkey⟩ := List.mem_map.1 hk'
          obtain ⟨hb, hnew⟩ := List.mem_filter.1 hb
          have hthere : d.hasTask a'.key = true := by
            refine List.any_eq_true.2 ⟨a'.task, ?_, by simp⟩
            rw [hone.tasks]
            exact List.mem_append_right _ (List.mem_map.2 ⟨a', ha', rfl⟩)
          rw [← hkey, hrest.fresh b hb hnew] at hthere
          cases hthere

theorem foldl_modify_getElem? {accesses : List Db.Access} (sources : List Source)
    (hnodup : (accesses.map (·.source)).Nodup) :
    (∀ a ∈ accesses, (accesses.foldl (fun l a => l.modify a.source (Db.accessed a)) sources)[a.source]?
      = (sources[a.source]?).map (Db.accessed a)) ∧
    ∀ i, i ∉ accesses.map (·.source) →
      (accesses.foldl (fun l a => l.modify a.source (Db.accessed a)) sources)[i]? = sources[i]? := by
  induction accesses generalizing sources with
  | nil => exact ⟨by simp, fun _ _ => rfl⟩
  | cons a accesses ih =>
    rw [List.map_cons, List.nodup_cons] at hnodup
    obtain ⟨hrow, hother⟩ := ih (sources.modify a.source (Db.accessed a)) hnodup.2
    simp only [List.foldl_cons]
    constructor
    · intro b hb
      rcases List.mem_cons.1 hb with rfl | hb
      · rw [hother _ hnodup.1]
        simp
      · have hne : a.source ≠ b.source := by
          intro heq
          exact hnodup.1 (heq ▸ List.mem_map.2 ⟨b, hb, rfl⟩)
        rw [hrow b hb]
        simp [hne]
    · intro i hi
      rw [List.map_cons, List.mem_cons, not_or] at hi
      rw [hother i hi.2]
      simp [Ne.symm hi.1]

end one

/-! ## The other transactions -/

/-- What every other transaction leaves of sources and tasks. -/
structure Beside (db db' : Db) : Prop where
  sources : db'.sources = db.sources
  tasks : db.tasks <+: db'.tasks

namespace Beside

variable {db db' d : Db} {now : Time} {v : WorkerId}

theorem of_same (hsources : db'.sources = db.sources) (htasks : db'.tasks = db.tasks) :
    Beside db db' := ⟨hsources, htasks ▸ List.prefix_rfl⟩

theorem refl (db : Db) : Beside db db := .of_same rfl rfl

theorem trans (h : Beside db d) (h' : Beside d db') : Beside db db' :=
  ⟨h'.sources.trans h.sources, h.tasks.trans h'.tasks⟩

/-- Before it something may be done that touches neither. -/
theorem after (h : Beside d db') (hsources : d.sources = db.sources) (htasks : d.tasks = db.tasks) :
    Beside db db' := (of_same hsources htasks).trans h

theorem addTask {t : Task} {n : TaskId} (h : db.addTask t = .ok (db', n)) : Beside db db' := by
  rw [(Db.addTask_ok h).1]
  exact ⟨rfl, List.prefix_append _ _⟩

theorem addMessage {m : OutboxMessage} (h : db.addMessage m = .ok db') : Beside db db' := by
  rw [Db.addMessage_ok h]
  exact .of_same rfl rfl

theorem commitOutbox (attempts : List (MessageId × OutboxMessage × Db.Attempt)) (d : Db) :
    Beside d (d.commitOutbox now attempts) := by
  induction attempts generalizing d with
  | nil => exact .refl d
  | cons x attempts ih =>
    have hrest := ih { d with outbox := d.outbox.modify x.1 (Db.attempted now x.2.1 x.2.2) }
    exact hrest.after rfl rfl

theorem recoverRun {x : RunId × Run} (h : Db.recoverRun now db x = .ok db') : Beside db db' := by
  obtain ⟨r, loaded⟩ := x
  simp only [Db.recoverRun, bind, Except.bind, pure, Except.pure] at h
  split at h
  · cases h
    exact .of_same rfl rfl
  · split at h
    · cases h
    · next hsent =>
      cases h
      have hadded := addMessage hsent
      exact ⟨hadded.sources, hadded.tasks⟩

theorem createTask {t : Db.TaskCreate} {hex : Nat} {rep : Db.Reply}
    (h : db.createTask now t hex = .ok (db', rep)) : Beside db db' := by
  simp only [Db.createTask] at h
  split at h
  · cases h
    exact .refl db
  · simp only [bind, Except.bind, pure, Except.pure] at h
    split at h
    · cases h
    · next htask =>
      split at h
      · cases h
      · next hsent =>
        cases h
        exact (addTask htask).trans ((addMessage hsent).after rfl rfl)

theorem retryRun {r : RunId} {clientKey : Text} {rep : Db.Reply}
    (h : db.retryRun now r clientKey = .ok (db', rep)) : Beside db db' := by
  simp only [Db.retryRun] at h
  split at h
  · cases h
    exact .refl db
  · split at h
    · cases h
      exact .refl db
    · split at h
      · cases h
        exact .refl db
      · simp only [bind, Except.bind, pure, Except.pure] at h
        split at h
        · cases h
        · next hsent =>
          cases h
          exact (addMessage hsent).after rfl rfl

/-- **Nothing else writes the sources, and nothing takes a task away.** -/
theorem exec {o : DbOp} (ho : ∀ accesses, o ≠ .commitSources accesses) :
    Beside db (o.exec db now v).1 := by
  cases o with
  | commitSources accesses => exact absurd rfl (ho accesses)
  | openRun r => exact rowWrite_rel rfl (.refl db) (.of_same rfl rfl)
  | claimRun r => exact rowWrite_rel rfl (.refl db) (.of_same rfl rfl)
  | continuation r =>
    refine orRollback_rel (.refl db) fun db' found hok => ?_
    cases continuation_cases hok <;> exact .of_same rfl rfl
  | appendEvent r etype payload =>
    simp only [DbOp.exec, Db.appendRunEventSafe]
    split <;> exact .of_same rfl rfl
  | commitOutbox attempts => exact commitOutbox attempts db
  | commitRecovery rows =>
    refine orRollback'_rel (.refl db) fun db' hok => ?_
    exact foldlM_ok hok (.refl db) fun _ _ _ _ ih hd => ih.trans (recoverRun hd)
  | createTask t hex => exact orRollback_rel (.refl db) fun db' a hok => createTask hok
  | retryRun r clientKey => exact orRollback_rel (.refl db) fun db' a hok => retryRun hok
  | decide approvalId decision user =>
    have hd : ∀ res, DecideCases db now user approvalId decision res → Beside db res.1 := by
      intro res hd
      cases hd <;> exact .of_same rfl rfl
    exact hd _ (decideTransaction_cases db now approvalId decision user)
  | insertTask title prompt => exact ⟨rfl, List.prefix_append _ _⟩
  | _ => exact .of_same rfl rfl

end Beside

/-! ## What a check knows -/

section checks

variable {cfg : Settings}

/-- What `check_sources` knows of the source it is at. -/
def Judging.Known (now : Time) (db : Db) (i : SourceId) (src : Source) : Judging → Prop
  | .backoff => True
  | .stale => src.Rested now
  | .keyed => src.Rested now ∧ src.Stale now
  | .looking hour => src.Rested now ∧ src.Stale now ∧ hour ≤ now / Db.hourMs
  | .marking hour found => src.Rested now ∧ src.Stale now ∧ hour ≤ now / Db.hourMs ∧
      (found = true → db.hasTask (Db.sourceKey i hour) = true)

/-- An access that `check_sources` had reason for. -/
structure Db.Access.Sound (now : Time) (db : Db) (a : Db.Access) : Prop where
  rested : a.loaded.Rested a.accessedAt
  stale : a.loaded.Stale a.accessedAt
  hour : a.hour ≤ a.accessedAt / Db.hourMs
  past : a.accessedAt ≤ now
  found : a.found = true → db.hasTask a.key = true

/-- The source is enabled, in a row that was in the table once. -/
def Loaded (h : History cfg) (i : SourceId) (src : Source) : Prop :=
  src.isEnabled = true ∧ Once (fun _ e => e.before.db.sources[i]? = some src) h

/-- The sources of a check, with the rows they were loaded with. -/
def Check.rows (check : Check) : List (SourceId × Source) :=
  check.accesses.map (fun a => (a.source, a.loaded)) ++ check.todo

structure Surveys (h : History cfg) (w : World) (check : Check) : Prop where
  distinct : (check.rows.map (·.1)).Nodup
  loaded : ∀ x ∈ check.rows, Loaded h x.1 x.2
  accesses : ∀ a ∈ check.accesses, a.Sound w.now w.db
  point : ∀ x ∈ check.todo.head?, check.point.Known w.now w.db x.1 x.2

/-- Every check that is under way knows its sources. -/
def Surveyed (h : History cfg) (w : World) : Prop :=
  ∀ p g check, phaseOf cfg h p = some g → g.stage = .judging check → Surveys h w check

variable {h : History cfg} {w : World} {e : Event cfg} {now now' : Time} {db db' : Db}
  {i : SourceId} {src : Source} {rest : List (SourceId × Source)} {point point' : Judging}
  {accesses : List Db.Access}

theorem Source.Rested.mono (hr : src.Rested now) (hle : now ≤ now') : src.Rested now' :=
  fun t ht => (hr t ht).trans hle

theorem Source.Stale.mono (hs : src.Stale now) (hle : now ≤ now') : src.Stale now' :=
  fun la hla => (hs la hla).trans_le hle

theorem hour_mono {hour : Int} (hhour : hour ≤ now / Db.hourMs) (hle : now ≤ now') :
    hour ≤ now' / Db.hourMs :=
  hhour.trans (Int.ediv_le_ediv (by decide) hle)

theorem Judging.Known.mono (hk : point.Known now db i src) (hle : now ≤ now')
    (htasks : db.tasks <+: db'.tasks) : point.Known now' db' i src := by
  cases point with
  | backoff => trivial
  | stale => exact Source.Rested.mono hk hle
  | keyed => exact ⟨hk.1.mono hle, hk.2.mono hle⟩
  | looking hour => exact ⟨hk.1.mono hle, hk.2.1.mono hle, hour_mono hk.2.2 hle⟩
  | marking hour found =>
    obtain ⟨hrested, hstale, hhour, hfound⟩ := hk
    exact ⟨hrested.mono hle, hstale.mono hle, hour_mono hhour hle,
      fun hf => hasTask_of_prefix htasks (hfound hf)⟩

theorem Db.Access.Sound.mono {a : Db.Access} (ha : a.Sound now db) (hle : now ≤ now')
    (htasks : db.tasks <+: db'.tasks) : a.Sound now' db' :=
  { ha with
    past := ha.past.trans hle
    found := fun hf => hasTask_of_prefix htasks (ha.found hf) }

theorem Surveys.mono {w' : World} {check : Check} (hs : Surveys h w check) (hle : w.now ≤ w'.now)
    (htasks : w.db.tasks <+: w'.db.tasks) : Surveys (e :: h) w' check where
  distinct := hs.distinct
  loaded x hx := ⟨(hs.loaded x hx).1, (hs.loaded x hx).2.cons e⟩
  accesses a ha := (hs.accesses a ha).mono hle htasks
  point x hx := (hs.point x hx).mono hle htasks

/-- The check is at another point with the same source, -/
theorem Surveys.at' (hs : Surveys h w ⟨(i, src) :: rest, point, accesses⟩)
    (hpoint : point'.Known w.now w.db i src) : Surveys h w ⟨(i, src) :: rest, point', accesses⟩ where
  distinct := hs.distinct
  loaded := hs.loaded
  accesses := hs.accesses
  point := by
    rintro x ⟨⟩
    exact hpoint

/-- goes on with the next one, -/
theorem Surveys.skip (hs : Surveys h w ⟨(i, src) :: rest, point, accesses⟩) :
    Surveys h w ⟨rest, .backoff, accesses⟩ := by
  have hsub : (⟨rest, .backoff, accesses⟩ : Check).rows.Sublist
      (⟨(i, src) :: rest, point, accesses⟩ : Check).rows :=
    (List.Sublist.refl _).append (List.sublist_cons_self _ _)
  exact ⟨hs.distinct.sublist (hsub.map _), fun x hx => hs.loaded x (hsub.subset hx), hs.accesses,
    fun _ _ => trivial⟩

/-- or has decided to access this one. -/
theorem Surveys.access (a : Db.Access)
    (hs : Surveys h w ⟨(a.source, a.loaded) :: rest, point, accesses⟩) (ha : a.Sound w.now w.db) :
    Surveys h w ⟨rest, .backoff, accesses ++ [a]⟩ := by
  have hrows : (⟨rest, .backoff, accesses ++ [a]⟩ : Check).rows =
      (⟨(a.source, a.loaded) :: rest, point, accesses⟩ : Check).rows := by
    simp [Check.rows]
  refine ⟨hrows ▸ hs.distinct, hrows ▸ hs.loaded, fun b hb => ?_, fun _ _ => trivial⟩
  rcases List.mem_append.1 hb with hb | hb
  · exact hs.accesses b hb
  · rwa [List.mem_singleton.1 hb]

/-- **The clock is read** for the source the check is at. -/
theorem Surveys.judged (hs : Surveys h w ⟨(i, src) :: rest, point, accesses⟩) :
    Surveys h w (Flow.judged i src rest accesses w.now point) := by
  have hpoint := hs.point (i, src) rfl
  cases point with
  | backoff =>
    simp only [Flow.judged]
    split
    · exact hs.skip
    · next hno =>
      have hrested : src.Rested w.now := by
        intro t ht
        rw [Option.mem_def.1 ht] at hno
        simpa using hno
      exact hs.at' hrested
  | stale =>
    simp only [Flow.judged]
    split
    · next hold =>
      have hstale : src.Stale w.now := by
        intro la hla
        rw [Option.mem_def.1 hla] at hold
        have hlt : Db.hourMs < w.now - la := by simpa using hold
        exact lt_sub_iff_add_lt'.1 hlt
      exact hs.at' ⟨hpoint, hstale⟩
    · exact hs.skip
  | keyed => exact hs.at' ⟨hpoint.1, hpoint.2, le_rfl⟩
  | looking hour => exact hs
  | marking hour found =>
    obtain ⟨hrested, hstale, hhour, hfound⟩ := hpoint
    exact .access ⟨i, src, hour, found, w.now⟩ hs ⟨hrested, hstale, hhour, le_rfl, hfound⟩

theorem selectSources_mem {x : SourceId × Source} (hx : x ∈ db.selectSources) :
    db.sources[x.1]? = some x.2 ∧ x.2.isEnabled = true := by
  obtain ⟨i, src⟩ := x
  simp only [Db.selectSources, List.mem_filterMap] at hx
  obtain ⟨⟨src', j⟩, hmem, heq⟩ := hx
  split at heq
  · next henabled =>
    cases heq
    exact ⟨List.mem_zipIdx_iff_getElem?.1 hmem, henabled⟩
  · cases heq

theorem selectSources_nodup : (db.selectSources.map (·.1)).Nodup := by
  have hids : db.selectSources.map (·.1) =
      (db.sources.zipIdx.filter fun x => x.1.isEnabled).map (·.2) := by
    unfold Db.selectSources
    induction db.sources.zipIdx with
    | nil => rfl
    | cons x rows ih =>
      obtain ⟨src, j⟩ := x
      cases henabled : src.isEnabled <;> simp [henabled, ih]
  rw [hids]
  have hsub : (db.sources.zipIdx.filter fun x => x.1.isEnabled).Sublist db.sources.zipIdx :=
    List.filter_sublist
  refine List.Nodup.sublist (hsub.map _) ?_
  rw [List.zipIdx_map_snd]
  exact List.nodup_range'

/-- A check begins with the sources that are enabled. -/
theorem Surveys.listed {w' : World} :
    Surveys (e :: h) w' { todo := e.before.db.selectSources } where
  distinct := selectSources_nodup
  loaded x hx := by
    obtain ⟨hrow, henabled⟩ := selectSources_mem hx
    exact ⟨henabled, .inl hrow⟩
  accesses a ha := by cases ha
  point x hx := trivial

/-! ## Commits -/

/-- What a check has committed. -/
def accessesOf (e : Event cfg) : List Db.Access :=
  match e.act with
  | .did _ (.db (.commitSources accesses)) (.ok _) _ => accesses
  | _ => []

/-- The event is the commit of a check. -/
def CommitsSources (e : Event cfg) : Prop :=
  ∃ p accesses u stays, e.act = .did p (.db (.commitSources accesses)) (.ok u) stays

theorem accessesOf_eq_nil (hnot : ¬CommitsSources e) : accessesOf e = [] := by
  unfold accessesOf
  split
  · next p accesses u stays act => exact absurd ⟨p, accesses, u, stays, act⟩ hnot
  · rfl

theorem Lawful.accessed (hl : Lawful cfg h w e) (hc : CommitsSources e) :
    AccessedAll w.db (accessesOf e) e.after.db := by
  obtain ⟨p, accesses, u, stays, act⟩ := hc
  have hexec := hl.committed_of_ok act
  simp only [DbOp.exec, DbOp.orRollback'] at hexec
  rw [accessesOf, act]
  cases hcommit : w.db.commitSources w.now accesses with
  | error x =>
    rw [hcommit] at hexec
    cases congrArg Prod.snd hexec
  | ok db' =>
    rw [hcommit] at hexec
    have hdb : db' = e.after.db := congrArg Prod.fst hexec
    exact hdb ▸ commitSources_accessed hcommit

/-- Whatever else happens, sources and tasks stay. -/
theorem Lawful.beside (hl : Lawful cfg h w e) (hnot : ¬CommitsSources e) :
    Beside w.db e.after.db := by
  cases hl.committed with
  | quiet rows => exact rows ▸ .refl w.db
  | beat hb act rows => exact rows ▸ .of_same rfl rfl
  | @transaction p g o stays running allowed act rows =>
    rw [rows]
    by_cases ho : ∃ accesses, o = .commitSources accesses
    · obtain ⟨accesses, rfl⟩ := ho
      rw [DbOp.exec] at act ⊢
      rcases orRollback'_fst w.db (w.db.commitSources w.now accesses) with heq | ⟨db', hok, heq⟩
      · rw [heq]
        exact .refl w.db
      · refine absurd ⟨p, accesses, (), stays, act.trans ?_⟩ hnot
        rw [DbOp.orRollback', hok]
        rfl
    · exact .exec fun accesses heq => ho ⟨accesses, heq⟩

theorem Lawful.tasks_prefix (hl : Lawful cfg h w e) : w.db.tasks <+: e.after.db.tasks := by
  by_cases hc : CommitsSources e
  · rw [(hl.accessed hc).tasks]
    exact List.prefix_append _ _
  · exact (hl.beside hc).tasks

theorem Surveyed.step (hs : Surveyed h w) (hl : Lawful cfg h w e) : Surveyed (e :: h) e.after := by
  intro p g check hg hstage
  have hle := hl.happens.now_le
  have htasks := hl.tasks_prefix
  cases hl.became hg with
  | kept running other => exact (hs p g check running hstage).mono hle htasks
  | started q act phase =>
    subst phase
    cases q <;> cases hstage
  | @did o res g₀ act running step =>
    cases step with
    | logged h₀ => exact (hs p g check running hstage).mono hle htasks
    | dlq h₀ => exact (hs p g check running hstage).mono hle htasks
    | operated h₀ => exact (hs p g check running hstage).mono hle htasks
    | listed h₀ =>
      cases hstage
      cases congrArg Prod.snd (hl.committed_of_ok act)
      exact hl.before ▸ .listed
    | judgedSource h₀ =>
      cases hstage
      obtain rfl := hl.utcnow act
      exact (hs p g₀ _ running h₀).judged.mono hle htasks
    | looked h₀ =>
      cases hstage
      have hfound := congrArg Prod.snd (hl.committed_of_ok act)
      cases hfound
      have hwas := hs p g₀ _ running h₀
      obtain ⟨hrested, hstale, hhour⟩ := hwas.point _ rfl
      refine Surveys.mono (hwas.at' ?_) hle htasks
      exact ⟨hrested, hstale, hhour, id⟩
    | _ => cases hstage

end checks

/-! ## The pace -/

section pace

variable {cfg : Settings} {h : History cfg} {w : World} {e : Event cfg} {i : SourceId}

/-- What a check has enqueued. -/
def enqueued (e : Event cfg) : List Db.Access := (accessesOf e).filter (·.enqueues)

/-- The clock hours source `i` was enqueued for. -/
def enqueuedHours (i : SourceId) (h : History cfg) : List Int :=
  h.flatMap fun e => ((enqueued e).filter (·.source = i)).map (·.hour)

/-- When source `i` was accessed, the last time first. -/
def accessTimes (i : SourceId) (h : History cfg) : List Time :=
  h.flatMap fun e => ((accessesOf e).filter (·.source = i)).map (·.accessedAt)

/-- The row of source `i` is the one it was loaded with when its access is committed. -/
def AsLoaded (i : SourceId) (_ : History cfg) (e : Event cfg) : Prop :=
  ∀ a ∈ accessesOf e, a.source = i → e.before.db.sources[i]? = some a.loaded

/-- When source `i` was accessed last. -/
def World.lastAccess (w : World) (i : SourceId) : Option Time :=
  (w.db.sources[i]?).bind (·.lastAccessedAt)

/-- **A check keeps its pace**: it accesses a source once at most, and for the reasons it had; it
enqueues a task and a run for each access that has not found its task; and afterwards every access has
its task. -/
structure Paced (h : History cfg) (e : Event cfg) : Prop where
  distinct : ((accessesOf e).map (·.source)).Nodup
  due : ∀ a ∈ accessesOf e, Loaded h a.source a.loaded ∧ a.Sound e.before.now e.before.db
  tasks : CommitsSources e → e.after.db.tasks = e.before.db.tasks ++ (enqueued e).map (·.task)
  runs : CommitsSources e →
    e.after.db.runs.length = e.before.db.runs.length + (enqueued e).length
  filed : ∀ a ∈ accessesOf e, e.after.db.hasTask a.key = true

theorem Surveyed.surveys (hs : Surveyed h w) (hl : Lawful cfg h w e) (hc : CommitsSources e) :
    Surveys h w ⟨[], .backoff, accessesOf e⟩ := by
  obtain ⟨p, accesses, u, stays, act⟩ := hc
  obtain ⟨g, hg, hstage⟩ := hl.did act
  have hsurveys := hs p g _ hg hstage
  rw [accessesOf, act]
  exact hsurveys

theorem Surveyed.initial : Surveyed ([] : History cfg) w := by
  intro p g check hg
  cases hg

theorem Surveyed.paced (hs : Surveyed h w) (hl : Lawful cfg h w e) : Paced h e := by
  by_cases hc : CommitsSources e
  · have hsurveys := hs.surveys hl hc
    have hall := hl.accessed hc
    have hdistinct := hsurveys.distinct
    simp only [Check.rows, List.append_nil, List.map_map] at hdistinct
    refine ⟨hdistinct, fun a ha => ⟨?_, ?_⟩, fun _ => ?_, fun _ => ?_, fun a ha => ?_⟩
    · refine hsurveys.loaded (a.source, a.loaded) ?_
      exact List.mem_append_left _ (List.mem_map.2 ⟨a, ha, rfl⟩)
    · rw [hl.before]
      exact hsurveys.accesses a ha
    · rw [hl.before]
      exact hall.tasks
    · rw [hl.before]
      exact hall.runs
    · cases hfound : a.found with
      | true => exact hasTask_of_prefix hl.tasks_prefix ((hsurveys.accesses a ha).found hfound)
      | false =>
        refine List.any_eq_true.2 ⟨a.task, ?_, by simp⟩
        rw [hall.tasks]
        refine List.mem_append_right _ (List.mem_map.2 ⟨a, List.mem_filter.2 ⟨ha, ?_⟩, rfl⟩)
        simp [Db.Access.enqueues, hfound]
  · have hnone := accessesOf_eq_nil hc
    exact ⟨by simp [hnone], by simp [hnone], fun h => absurd h hc, fun h => absurd h hc,
      by simp [hnone]⟩

/-! ### One run an hour -/

/-- The task of every hour a source was enqueued for is there, and no hour counts twice. -/
structure Filed (i : SourceId) (h : History cfg) (w : World) : Prop where
  there : ∀ hour ∈ enqueuedHours i h, w.db.hasTask (Db.sourceKey i hour) = true
  hours_nodup : (enqueuedHours i h).Nodup

theorem Filed.initial : Filed i ([] : History cfg) w := ⟨by simp [enqueuedHours], List.nodup_nil⟩

theorem Filed.step (hf : Filed i h w) (hs : Surveyed h w) (hl : Lawful cfg h w e) :
    Filed i (e :: h) e.after := by
  have hpaced := hs.paced hl
  have hfresh : ∀ a ∈ enqueued e, w.db.hasTask a.key = false := by
    intro a ha
    obtain ⟨ha, hnew⟩ := List.mem_filter.1 ha
    by_cases hc : CommitsSources e
    · exact (hl.accessed hc).fresh a ha hnew
    · rw [accessesOf_eq_nil hc] at ha
      cases ha
  have hkeys : ((enqueued e).map (·.key)).Nodup := by
    by_cases hc : CommitsSources e
    · exact (hl.accessed hc).keys
    · rw [enqueued, accessesOf_eq_nil hc]
      exact List.nodup_nil
  have hsplit : enqueuedHours i (e :: h) =
      ((enqueued e).filter (·.source = i)).map (·.hour) ++ enqueuedHours i h := List.flatMap_cons ..
  have hnew : ∀ hour ∈ ((enqueued e).filter (·.source = i)).map (·.hour),
      ∃ a ∈ enqueued e, a.key = Db.sourceKey i hour := by
    intro hour hmem
    obtain ⟨a, ha, rfl⟩ := List.mem_map.1 hmem
    obtain ⟨ha, hi⟩ := List.mem_filter.1 ha
    exact ⟨a, ha, by rw [← of_decide_eq_true hi, Db.Access.key]⟩
  constructor
  · intro hour hmem
    rw [hsplit] at hmem
    rcases List.mem_append.1 hmem with hmem | hmem
    · obtain ⟨a, ha, hkey⟩ := hnew hour hmem
      rw [← hkey]
      exact hpaced.filed a (List.mem_filter.1 ha).1
    · exact hasTask_of_prefix hl.tasks_prefix (hf.there hour hmem)
  · rw [hsplit]
    refine List.nodup_append.2 ⟨?_, hf.hours_nodup, ?_⟩
    · have hmine : ((enqueued e).filter (·.source = i)).map (·.key) =
          (((enqueued e).filter (·.source = i)).map (·.hour)).map (Db.sourceKey i) := by
        rw [List.map_map]
        refine List.map_congr_left fun a ha => ?_
        have hi := of_decide_eq_true (List.mem_filter.1 ha).2
        rw [Function.comp_apply, ← hi, Db.Access.key]
      exact .of_map _ (hmine ▸ (hkeys.sublist (List.filter_sublist.map _)))
    · rintro hour hmem hour' hmem' rfl
      obtain ⟨a, ha, hkey⟩ := hnew hour hmem
      have hthere := hf.there hour hmem'
      rw [← hkey, hfresh a ha] at hthere
      cases hthere

/-- Different hours take their time. -/
theorem hours_length_le {hours : List Int} {a b : Int} (hnodup : hours.Nodup)
    (hin : ∀ hour ∈ hours, a ≤ hour ∧ hour ≤ b) : hours.length ≤ (b + 1 - a).toNat := by
  rw [← List.toFinset_card_of_nodup hnodup, ← Int.card_Icc]
  refine Finset.card_le_card fun hour hmem => ?_
  exact Finset.mem_Icc.2 (hin hour (List.mem_toFinset.1 hmem))

/-! ### Accesses that see each other -/

/-- The row of the source remembers its last access, and the accesses keep their distance. -/
structure Remembers (i : SourceId) (h : History cfg) (w : World) : Prop where
  last : ∀ t ∈ accessTimes i h, ∃ la, w.lastAccess i = some la ∧ t ≤ la
  spaced : Window.Spaced Db.hourMs (accessTimes i h)

theorem Remembers.initial : Remembers i ([] : History cfg) w :=
  ⟨by simp [accessTimes], List.Pairwise.nil⟩

theorem filter_source {accesses : List Db.Access} {a : Db.Access}
    (hnodup : (accesses.map (·.source)).Nodup) (ha : a ∈ accesses) :
    accesses.filter (·.source = a.source) = [a] := by
  induction accesses with
  | nil => cases ha
  | cons b accesses ih =>
    rw [List.map_cons, List.nodup_cons] at hnodup
    rcases List.mem_cons.1 ha with rfl | ha
    · rw [List.filter_cons_of_pos (by simp), List.cons_eq_cons]
      refine ⟨rfl, List.filter_eq_nil_iff.2 fun b hb heq => ?_⟩
      exact hnodup.1 (List.mem_map.2 ⟨b, hb, of_decide_eq_true heq⟩)
    · rw [List.filter_cons_of_neg ?_, ih hnodup.2 ha]
      intro heq
      exact hnodup.1 (List.mem_map.2 ⟨a, ha, (of_decide_eq_true heq).symm⟩)

/-- A source that is not accessed keeps its row. -/
theorem Surveyed.row_same (hs : Surveyed h w) (hl : Lawful cfg h w e)
    (hno : ∀ a ∈ accessesOf e, a.source ≠ i) : e.after.db.sources[i]? = w.db.sources[i]? := by
  by_cases hc : CommitsSources e
  · rw [(hl.accessed hc).sources]
    refine (foldl_modify_getElem? w.db.sources (hs.paced hl).distinct).2 i fun hmem => ?_
    obtain ⟨a, ha, hi⟩ := List.mem_map.1 hmem
    exact hno a ha hi
  · rw [(hl.beside hc).sources]

/-- **An access** of a row that is still as it was loaded comes more than an hour after the last one,
and leaves its own time. -/
theorem Surveyed.access {a : Db.Access} (hs : Surveyed h w) (hl : Lawful cfg h w e)
    (ha : a ∈ accessesOf e) (hrow : w.db.sources[a.source]? = some a.loaded) :
    (∀ la ∈ w.lastAccess a.source, la + Db.hourMs < a.accessedAt) ∧
      e.after.lastAccess a.source = some a.accessedAt := by
  have hc : CommitsSources e := by
    by_contra hnot
    rw [accessesOf_eq_nil hnot] at ha
    cases ha
  have hstale := ((hs.paced hl).due a ha).2.stale
  have hlast : w.lastAccess a.source = a.loaded.lastAccessedAt := by
    rw [World.lastAccess, hrow]
    rfl
  refine ⟨fun la hla => hstale la (hlast ▸ hla), ?_⟩
  have hnew : some a.accessedAt ≠ a.loaded.lastAccessedAt := by
    intro heq
    have hlt := hstale a.accessedAt heq.symm
    have hhour : (0 : Int) ≤ Db.hourMs := by decide
    exact absurd hlt (not_lt.2 (Int.le_add_of_nonneg_right hhour))
  have hrow' : e.after.db.sources[a.source]? = some (Db.accessed a a.loaded) := by
    rw [(hl.accessed hc).sources,
      (foldl_modify_getElem? w.db.sources (hs.paced hl).distinct).1 a ha, hrow]
    rfl
  have hafter : World.lastAccess e.after a.source =
      (Db.accessed a a.loaded).lastAccessedAt := by
    unfold World.lastAccess
    rw [hrow']
    rfl
  refine hafter.trans ?_
  simp only [Db.accessed, Db.written, if_neg hnew]

theorem Remembers.step (hr : Remembers i h w) (hs : Surveyed h w) (hl : Lawful cfg h w e)
    (hloaded : AsLoaded i h e) : Remembers i (e :: h) e.after := by
  have hsplit : accessTimes i (e :: h) =
      ((accessesOf e).filter (·.source = i)).map (·.accessedAt) ++ accessTimes i h :=
    List.flatMap_cons ..
  by_cases hi : ∃ a ∈ accessesOf e, a.source = i
  · obtain ⟨a, ha, rfl⟩ := hi
    have hrow := hloaded a ha rfl
    rw [hl.before] at hrow
    obtain ⟨hapart, hlast⟩ := hs.access hl ha hrow
    rw [filter_source (hs.paced hl).distinct ha] at hsplit
    have hlater : ∀ t ∈ accessTimes a.source h, t + Db.hourMs < a.accessedAt := by
      intro t ht
      obtain ⟨la, hla, hle⟩ := hr.last t ht
      exact (Int.add_le_add_right hle _).trans_lt (hapart la hla)
    have hcons : accessTimes a.source (e :: h) = a.accessedAt :: accessTimes a.source h := hsplit
    constructor
    · intro t ht
      refine ⟨a.accessedAt, hlast, ?_⟩
      rw [hcons] at ht
      rcases List.mem_cons.1 ht with rfl | ht
      · exact le_rfl
      · have hhour : (0 : Int) ≤ Db.hourMs := by decide
        exact (Int.le_add_of_nonneg_right hhour).trans (hlater t ht).le
    · rw [hcons]
      exact List.pairwise_cons.2 ⟨hlater, hr.spaced⟩
  · push Not at hi
    have hnone : (accessesOf e).filter (·.source = i) = [] :=
      List.filter_eq_nil_iff.2 fun a ha heq => hi a ha (of_decide_eq_true heq)
    have hsame : World.lastAccess e.after i = w.lastAccess i := by
      unfold World.lastAccess
      rw [hs.row_same hl hi]
    have hold : accessTimes i (e :: h) = accessTimes i h := by
      rw [hsplit, hnone]
      rfl
    constructor
    · intro t ht
      rw [hold] at ht
      rw [hsame]
      exact hr.last t ht
    · rw [hold]
      exact hr.spaced

/-- **Sources are polled at a pace.**  In every run of the system, any number of schedulers side by
side, every check keeps its pace, and no source gets two runs for one clock hour; and the accesses of
a source that are committed over the row that was loaded lie more than an hour apart. -/
theorem sources_paced {c : Config (system cfg)} (hc : Reachable cfg anyEvent c) :
    Historically Paced c.hist ∧ ∀ i,
      (enqueuedHours i c.hist).Nodup ∧
      (∀ a b, (∀ hour ∈ enqueuedHours i c.hist, a ≤ hour ∧ hour ≤ b) →
        (enqueuedHours i c.hist).length ≤ (b + 1 - a).toNat) ∧
      (Historically (AsLoaded i) c.hist → Window.Spaced Db.hourMs (accessTimes i c.hist) ∧
        ∀ t times a, accessTimes i c.hist = t :: times → (∀ t' ∈ t :: times, a ≤ t') →
          times.length • Db.hourMs ≤ t - a) := by
  have hpaced : Historically Paced c.hist := by
    exact Reachable.historically (P := Surveyed) (fun w _ => .initial)
      (fun h w e _ hs hl _ => ⟨hs.step hl, hs.paced hl⟩) hc
  refine ⟨hpaced, fun i => ?_⟩
  obtain ⟨-, hfiled, hremembers⟩ := hc.induct
    (P := fun h w => Surveyed h w ∧ Filed i h w ∧
      (Historically (AsLoaded i) h → Remembers i h w))
    (fun w _ => ⟨.initial, .initial, fun _ => .initial⟩)
    fun h w e _ ⟨hs, hf, hr⟩ hl _ =>
      ⟨hs.step hl, hf.step hs hl, fun hloaded => (hr hloaded.2).step hs hl hloaded.1⟩
  refine ⟨hfiled.hours_nodup, fun a b => hours_length_le hfiled.hours_nodup, fun hloaded => ?_⟩
  have hspaced := (hremembers hloaded).spaced
  refine ⟨hspaced, fun t times a htimes hlow => ?_⟩
  exact Window.Spaced.length_nsmul (htimes ▸ hspaced) hlow

end pace

instance {cfg : Settings} (i : SourceId) (h : History cfg) (e : Event cfg) :
    Decidable (AsLoaded i h e) :=
  inferInstanceAs (Decidable (∀ a ∈ accessesOf e, a.source = i → _ = _))

/-- Two schedulers judge a source at the same time, and the commit of the second is refused; a third
polls the source an hour later. -/
def polledTwice : List (Move (system {})) :=
  serve {} 0 .checkSources 11 ++ serve {} 1 .checkSources 11 ++
    [.perform 0 {}, .perform 1 {}, .tick (.advance 3700000)] ++ serve {} 2 .checkSources 14

theorem sources_paced_twice : ∃ c : Config (system {}), accessTimes 0 c.hist = [3700000, 0] ∧
    Historically Paced c.hist ∧ (enqueuedHours 0 c.hist).Nodup ∧
      [(0 : Time)].length • Db.hourMs ≤ 3700000 - 0 := by
  obtain ⟨c, hc, hsee⟩ := reachable_of_run (K := anyEvent)
    (fun c => (accessTimes 0 c.hist, decide (Historically (AsLoaded 0) c.hist)))
    (x := ([3700000, 0], true))
    (World.empty_initial 0 [{ name := "Haberler", sourceType := "rss" }]) polledTwice
    (by decide +kernel)
  obtain ⟨hpaced, hrest⟩ := sources_paced hc
  obtain ⟨hnodup, -, hdistance⟩ := hrest 0
  have htimes : accessTimes 0 c.hist = [3700000, 0] := congrArg Prod.fst hsee
  obtain ⟨-, htakes⟩ := hdistance (of_decide_eq_true (congrArg Prod.snd hsee))
  exact ⟨c, htimes, hpaced, hnodup, htakes 3700000 [0] 0 htimes (by decide)⟩

end Observatory
