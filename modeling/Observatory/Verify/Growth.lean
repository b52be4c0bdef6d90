import Observatory.Verify.Effects

/-!
# Tables only grow

No transaction removes a row, and every run keeps a task that exists.  The rows a recovery has
loaded therefore stay rows of the table until it writes them.
-/

namespace Observatory

/-- Every run has its task. -/
def TasksExist (db : Db) : Prop := ∀ run ∈ db.runs, run.taskId < db.tasks.length

/-- Rows loaded earlier that are still there, with their tasks. -/
def RowsKnown (db : Db) (rows : List (RunId × Run)) : Prop :=
  ∀ x ∈ rows, x.1 < db.runs.length ∧ x.2.taskId < db.tasks.length

/-- What every transaction does for runs and tasks. -/
structure Grows (db db' : Db) : Prop where
  runs : db.runs.length ≤ db'.runs.length
  taskCount : db.tasks.length ≤ db'.tasks.length
  tasks : TasksExist db → TasksExist db'

namespace Grows

variable {db db' db'' : Db}

theorem refl (db : Db) : Grows db db := ⟨le_rfl, le_rfl, id⟩

theorem trans (h : Grows db db') (h' : Grows db' db'') : Grows db db'' :=
  ⟨h.runs.trans h'.runs, h.taskCount.trans h'.taskCount, fun ht => h'.tasks (h.tasks ht)⟩

theorem of_eq (hruns : db'.runs = db.runs) (htasks : db'.tasks = db.tasks) : Grows db db' := by
  refine ⟨by rw [hruns], by rw [htasks], fun ht run hmem => ?_⟩
  rw [htasks]
  exact ht run (hruns ▸ hmem)

theorem congr {d : Db} (h : Grows db d) (hruns : db'.runs = d.runs)
    (htasks : db'.tasks = d.tasks) : Grows db db' :=
  h.trans (of_eq hruns htasks)

/-- A row that is rewritten keeps its task. -/
theorem updateRun (db : Db) (r : RunId) (f : Run → Run) (hf : ∀ run, (f run).taskId = run.taskId) :
    Grows db (db.updateRun r f) := by
  refine ⟨by simp, le_rfl, fun ht run hmem => ?_⟩
  obtain ⟨i, hi⟩ := List.mem_iff_getElem?.1 hmem
  rcases modify_cases hi with ⟨-, hi⟩ | ⟨-, run₀, hi₀, rfl⟩
  · exact ht run (List.mem_iff_getElem?.2 ⟨i, hi⟩)
  · rw [hf]
    exact ht run₀ (List.mem_iff_getElem?.2 ⟨i, hi₀⟩)

/-- A new run of a task that exists. -/
theorem addRun {new : Run} (hnew : new.taskId < db.tasks.length) : Grows db (db.addRun new).1 := by
  refine ⟨by simp [Db.addRun], le_rfl, fun ht run hmem => ?_⟩
  rcases List.mem_append.1 hmem with hmem | hmem
  · exact ht run hmem
  · rwa [List.mem_singleton.1 hmem]

theorem addTask {t : Task} {i : TaskId} (h : db.addTask t = .ok (db', i)) :
    Grows db db' ∧ i < db'.tasks.length := by
  obtain ⟨rfl, rfl⟩ := Db.addTask_ok h
  refine ⟨⟨le_rfl, by simp, fun ht run hmem => ?_⟩, by simp⟩
  exact (ht run hmem).trans (by simp)

theorem addMessage {m : OutboxMessage} (h : db.addMessage m = .ok db') : Grows db db' := by
  rw [Db.addMessage_ok h]
  exact of_eq rfl rfl

theorem addExecution {x : ActionExecution} (h : db.addExecution x = .ok db') : Grows db db' := by
  rw [(Db.addExecution_ok h).1]
  exact of_eq rfl rfl

end Grows

theorem RowsKnown.mono {db db' : Db} {rows : List (RunId × Run)} (h : RowsKnown db rows)
    (hg : Grows db db') : RowsKnown db' rows :=
  fun x hx => ⟨(h x hx).1.trans_le hg.runs, (h x hx).2.trans_le hg.taskCount⟩

section growth

variable {db db' : Db} {now : Time}

theorem recoverRun_grows {x : RunId × Run} (hx : x.2.taskId < db.tasks.length)
    (h : Db.recoverRun now db x = .ok db') : Grows db db' := by
  obtain ⟨r, loaded⟩ := x
  have hfailed : Grows db ((db.updateRun r (Db.recovered now loaded)).appendRunEventInSession now r
      .stuckRecovered [("reason", .str "lease_expired"),
        ("worker_id", (loaded.workerId.map fun w => Json.uuid w).getD .null)]) :=
    (Grows.updateRun db r (Db.recovered now loaded) fun _ => rfl).congr rfl rfl
  simp only [Db.recoverRun] at h
  split at h
  · cases h
    exact hfailed.trans (.of_eq rfl rfl)
  · simp only [bind, Except.bind] at h
    split at h
    · cases h
    · next hsent =>
      cases h
      refine (hfailed.trans (Grows.addRun ?_)).trans ((Grows.addMessage hsent).congr rfl rfl)
      exact hx

theorem accessSource_grows {a : Db.Access} (h : Db.accessSource now db a = .ok db') :
    Grows db db' := by
  simp only [Db.accessSource] at h
  split at h
  · cases h
    exact .of_eq rfl rfl
  · simp only [bind, Except.bind, pure, Except.pure] at h
    split at h
    · cases h
    · next htask =>
      split at h
      · cases h
      · next hsent =>
        cases h
        obtain ⟨hg, hlt⟩ := Grows.addTask htask
        exact (hg.trans (Grows.addRun hlt)).trans ((Grows.addMessage hsent).congr rfl rfl)

theorem createTask_grows {t : Db.TaskCreate} {hex : Nat} {rep : Db.Reply}
    (h : db.createTask now t hex = .ok (db', rep)) : Grows db db' := by
  simp only [Db.createTask] at h
  split at h
  · cases h
    exact .refl db
  · simp only [bind, Except.bind, pure, Except.pure] at h
    split at h
    · cases h
    · next htask =>
      split at h
      · cases h
      · next hsent =>
        cases h
        obtain ⟨hg, hlt⟩ := Grows.addTask htask
        exact (hg.trans (Grows.addRun hlt)).trans (Grows.addMessage hsent)

theorem retryRun_grows {r : RunId} {clientKey : Text} {rep : Db.Reply} (ht : TasksExist db)
    (h : db.retryRun now r clientKey = .ok (db', rep)) : Grows db db' := by
  simp only [Db.retryRun] at h
  split at h
  · cases h
    exact .refl db
  · next run hrun =>
    split at h
    · cases h
      exact .refl db
    · split at h
      · cases h
        exact .refl db
      · simp only [bind, Except.bind, pure, Except.pure] at h
        split at h
        · cases h
        · next hsent =>
          cases h
          refine (Grows.addRun ?_).trans (Grows.addMessage hsent)
          exact ht run (List.mem_of_getElem? hrun)

theorem failIfExecuting_grows (db : Db) (r : RunId) : Grows db (db.failIfExecuting now r) := by
  refine .updateRun db r _ fun run => ?_
  split <;> rfl

theorem completeIfExecuting_grows (db : Db) (r : RunId) :
    Grows db (db.completeIfExecuting now r) := by
  refine .updateRun db r _ fun run => ?_
  split <;> rfl

theorem continuation_grows {r : RunId} {found : Db.Continuation}
    (hc : ContinuationCases db now r db' found) : Grows db db' := by
  cases hc with
  | none => exact .refl db
  | refused => exact .refl db
  | consumed => exact .of_eq rfl rfl
  | pendingExecution => exact .refl db
  | succeeded => exact completeIfExecuting_grows db r
  | failed => exact failIfExecuting_grows db r
  | unrecorded =>
    refine Grows.trans ?_ (failIfExecuting_grows _ r)
    exact .of_eq rfl rfl

theorem decide_grows {approvalId : Text} {decision : String} {user : Option Nat}
    {res : Db × Except LibError (ApprovalId × Approval)}
    (hd : DecideCases db now user approvalId decision res) : Grows db res.1 := by
  cases hd with
  | refused x => exact .refl db
  | expired => exact .of_eq rfl rfl
  | runless => exact .of_eq rfl rfl
  | @approved a appr run happr =>
    refine (Grows.updateRun db appr.runId (ApprovalService.requeued now) fun run => ?_).congr
      rfl rfl
    unfold ApprovalService.requeued
    split <;> rfl
  | @rejected a appr run happr =>
    refine (Grows.updateRun db appr.runId (ApprovalService.rejected now) fun run => ?_).congr
      rfl rfl
    unfold ApprovalService.rejected
    split <;> rfl

/-- **No transaction removes a run or a task, or parts a run from its task.** -/
theorem exec_grows {w : WorkerId} {o : DbOp} (ht : TasksExist db)
    (hrows : ∀ rows, o = .commitRecovery rows → RowsKnown db rows) :
    Grows db (o.exec db now w).1 := by
  cases o with
  | openRun r => exact rowWrite_rel rfl (.refl db) (.updateRun db r _ fun _ => rfl)
  | claimRun r => exact rowWrite_rel rfl (.refl db) (.updateRun db r _ fun _ => rfl)
  | continuation r =>
    refine orRollback_rel (.refl db) fun db' found h => ?_
    exact continuation_grows (continuation_cases h)
  | markAmbiguous r a =>
    refine Grows.trans ?_ (failIfExecuting_grows _ r)
    exact .of_eq rfl rfl
  | continuationSucceeded r a tool args result =>
    refine Grows.trans ?_ (.updateRun _ r (Db.completed now) fun _ => rfl)
    exact .of_eq rfl rfl
  | continuationFailed r a error =>
    refine Grows.trans ?_ (.updateRun _ r (Db.needsReconciliation now) fun _ => rfl)
    exact .of_eq rfl rfl
  | appendEvent r etype payload =>
    refine orRollback'_rel (.refl db) fun db' h => ?_
    unfold Db.appendRunEventSafe at h
    split at h <;> cases h
    exact .of_eq rfl rfl
  | insertPlan => exact .of_eq rfl rfl
  | insertToolCall => exact .of_eq rfl rfl
  | createApproval => exact .of_eq rfl rfl
  | pauseCheck => exact .refl db
  | stopCheck => exact .refl db
  | finalCommit r loaded o => exact .updateRun db r _ fun _ => rfl
  | selectOutbox => exact .refl db
  | commitOutbox attempts =>
    have hfold : ∀ (attempts : List (MessageId × OutboxMessage × Db.Attempt)) (d : Db),
        Grows d (d.commitOutbox now attempts) := by
      intro attempts
      induction attempts with
      | nil => exact .refl
      | cons x attempts ih =>
        refine fun d => Grows.trans ?_ (ih _)
        exact .of_eq rfl rfl
    exact hfold attempts db
  | selectExecuting => exact .refl db
  | commitRecovery rows =>
    refine orRollback'_rel (.refl db) fun db' h => ?_
    refine foldlM_ok h (.refl db) fun d d' x hx ih hd => ih.trans (recoverRun_grows ?_ hd)
    exact (hrows rows rfl x hx).2.trans_le ih.taskCount
  | selectSources => exact .refl db
  | hasTask => exact .refl db
  | commitSources accesses =>
    refine orRollback'_rel (.refl db) fun db' h => ?_
    exact foldlM_ok h (.refl db) fun d d' a _ ih hd => ih.trans (accessSource_grows hd)
  | createTask t hex => exact orRollback_rel (.refl db) fun db' rep h => createTask_grows h
  | loadRun => exact .refl db
  | retryRun r clientKey => exact orRollback_rel (.refl db) fun db' rep h => retryRun_grows ht h
  | decide approvalId decision user =>
    exact decide_grows (decideTransaction_cases db now approvalId decision user)
  | insertTask title prompt =>
    have htask : ∀ t : Task, Grows db { db with tasks := db.tasks ++ [t] } := fun t =>
      ⟨le_rfl, by simp, fun ht run hmem => (ht run hmem).trans (by simp)⟩
    exact (htask _).trans (.addRun (by simp [Db.freshRun]))
  | setControl r loaded request => exact .updateRun db r _ fun _ => Db.controlled_taskId ..
  | resumeRun r loaded => exact .updateRun db r _ fun _ => rfl

end growth

/-- A loaded row is a row, with its task. -/
theorem selectExecuting_mem {db : Db} {x : RunId × Run} (hx : x ∈ db.selectExecuting) :
    db.runs[x.1]? = some x.2 ∧ x.2.status = .executing := by
  obtain ⟨r, run⟩ := x
  simp only [Db.selectExecuting, List.mem_filterMap] at hx
  obtain ⟨⟨run', i⟩, hmem, heq⟩ := hx
  split at heq
  · next hs =>
    cases heq
    exact ⟨List.mem_zipIdx_iff_getElem?.1 hmem, hs⟩
  · cases heq

end Observatory
