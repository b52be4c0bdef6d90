import Observatory.Verify.Phase

/-!
# What each transaction changes

One inversion lemma per table: `run_cases` for the run rows, `approval_cases` for the approvals,
`execution_cases` for the executions.  Every invariant of the system is a case analysis on these;
none unfolds a transaction again.
-/

namespace Observatory

open Effect

section tables

variable {α : Type} {l : List α} {f : α → α} {i j : Nat} {x y : α}

theorem modify_cases (h : (l.modify i f)[j]? = some x) :
    (i ≠ j ∧ l[j]? = some x) ∨ (i = j ∧ ∃ y, l[j]? = some y ∧ x = f y) := by
  rw [List.getElem?_modify] at h
  by_cases hij : i = j
  · subst hij
    obtain ⟨y, hy, rfl⟩ := Option.map_eq_some_iff.1 h
    exact .inr ⟨rfl, y, hy, by simp⟩
  · obtain ⟨y, hy, rfl⟩ := Option.map_eq_some_iff.1 h
    exact .inl ⟨hij, by simpa [hij] using hy⟩

theorem append_cases (h : (l ++ [y])[j]? = some x) :
    l[j]? = some x ∨ (j = l.length ∧ x = y) := by
  rcases Nat.lt_trichotomy j l.length with hj | rfl | hj
  · exact .inl (by rwa [List.getElem?_append_left hj] at h)
  · exact .inr ⟨rfl, by simpa using h.symm⟩
  · rw [List.getElem?_eq_none (by simp; omega)] at h
    cases h

theorem getElem?_append_of_some (h : l[j]? = some x) : (l ++ [y])[j]? = some x := by
  rw [List.getElem?_append_left (List.getElem?_eq_some_iff.1 h).1, h]

theorem getElem?_modify_of_some (h : l[j]? = some x) :
    (l.modify i f)[j]? = some (if i = j then f x else x) := by
  rw [List.getElem?_modify, h]
  split <;> rfl

/-- The newest matching row is a row and matches. -/
theorem newest_some {createdAt : α → Time} {p : α → Bool} {i : Nat}
    (h : newest createdAt p l = some (i, x)) : l[i]? = some x ∧ p x = true := by
  let good : Option (Nat × α) → Prop := fun o => ∀ i x, o = some (i, x) → l[i]? = some x ∧ p x = true
  have hgood : good (newest createdAt p l) := by
    refine List.foldlRecOn l.zipIdx _ (by simp [good]) ?_
    rintro best hbest ⟨x, i⟩ hmem
    have hz : l[i]? = some x := List.mem_zipIdx_iff_getElem?.1 hmem
    dsimp only
    split
    · next hp =>
      have hnew : good (some (i, x)) := by
        intro i' x' h'
        cases h'
        exact ⟨hz, hp⟩
      split
      · exact hnew
      · split
        · exact hnew
        · exact hbest
    · exact hbest
  exact hgood i x h

/-- A fold ends with nothing only if every step leaves it at nothing. -/
theorem foldl_none {β γ : Type} {step : Option β → γ → Option β} {q : γ → Prop} {rows : List γ}
    {best : Option β} (hstep : ∀ best z, step best z = none → best = none ∧ q z)
    (h : rows.foldl step best = none) : best = none ∧ ∀ z ∈ rows, q z := by
  induction rows generalizing best with
  | nil => exact ⟨h, by simp⟩
  | cons z rows ih =>
    obtain ⟨hz, hrest⟩ := ih h
    obtain ⟨hbest, hq⟩ := hstep best z hz
    exact ⟨hbest, List.forall_mem_cons.2 ⟨hq, hrest⟩⟩

/-- No newest row: no row matches. -/
theorem newest_none {createdAt : α → Time} {p : α → Bool} (h : newest createdAt p l = none) :
    ∀ x ∈ l, p x = false := by
  have hrows : ∀ z ∈ l.zipIdx, p z.1 = false := by
    refine (foldl_none ?_ h).2
    rintro best ⟨x, i⟩ hstep
    dsimp only at hstep
    split at hstep
    · split at hstep
      · cases hstep
      · split at hstep
        · cases hstep
        · cases hstep
    · next hp => exact ⟨hstep, by simpa using hp⟩
  intro x hx
  obtain ⟨k, hk, rfl⟩ := List.getElem_of_mem hx
  exact hrows (l[k], k) (List.mem_zipIdx_iff_getElem?.2 (by simp [hk]))

/-- A fold that may fail keeps what each of its steps keeps. -/
theorem foldlM_ok {β ε : Type} {f : β → α → Except ε β} {P : β → Prop} {l : List α} {b b' : β}
    (h : l.foldlM f b = .ok b') (hinit : P b)
    (hstep : ∀ b b' a, a ∈ l → P b → f b a = .ok b' → P b') : P b' := by
  induction l generalizing b with
  | nil =>
    cases h
    exact hinit
  | cons a l ih =>
    rw [List.foldlM_cons] at h
    cases hfa : f b a with
    | error x => rw [hfa] at h; cases h
    | ok b₁ =>
      rw [hfa] at h
      exact ih h (hstep b b₁ a (List.mem_cons_self ..) hinit hfa) fun b b' a ha =>
        hstep b b' a (List.mem_cons_of_mem _ ha)

end tables

/-! ## Frames -/

namespace Db

variable (db : Db)

@[simp] theorem updateRun_runs (r : RunId) (f : Run → Run) :
    (db.updateRun r f).runs = db.runs.modify r f := rfl
@[simp] theorem updateRun_approvals (r : RunId) (f : Run → Run) :
    (db.updateRun r f).approvals = db.approvals := rfl
@[simp] theorem updateRun_executions (r : RunId) (f : Run → Run) :
    (db.updateRun r f).executions = db.executions := rfl
@[simp] theorem updateRun_outbox (r : RunId) (f : Run → Run) :
    (db.updateRun r f).outbox = db.outbox := rfl
@[simp] theorem updateRun_tasks (r : RunId) (f : Run → Run) :
    (db.updateRun r f).tasks = db.tasks := rfl

@[simp] theorem updateApproval_runs (a : ApprovalId) (f : Approval → Approval) :
    (db.updateApproval a f).runs = db.runs := rfl
@[simp] theorem updateApproval_approvals (a : ApprovalId) (f : Approval → Approval) :
    (db.updateApproval a f).approvals = db.approvals.modify a f := rfl
@[simp] theorem updateApproval_executions (a : ApprovalId) (f : Approval → Approval) :
    (db.updateApproval a f).executions = db.executions := rfl
@[simp] theorem updateApproval_outbox (a : ApprovalId) (f : Approval → Approval) :
    (db.updateApproval a f).outbox = db.outbox := rfl

@[simp] theorem updateExecution_runs (a : ApprovalId) (f : ActionExecution → ActionExecution) :
    (db.updateExecution a f).runs = db.runs := rfl
@[simp] theorem updateExecution_approvals (a : ApprovalId) (f : ActionExecution → ActionExecution) :
    (db.updateExecution a f).approvals = db.approvals := rfl
@[simp] theorem updateExecution_outbox (a : ApprovalId) (f : ActionExecution → ActionExecution) :
    (db.updateExecution a f).outbox = db.outbox := rfl

@[simp] theorem append_runs (now : Time) (r : RunId) (etype : EventType) (payload : Dict) :
    (db.appendRunEventInSession now r etype payload).runs = db.runs := rfl
@[simp] theorem append_approvals (now : Time) (r : RunId) (etype : EventType) (payload : Dict) :
    (db.appendRunEventInSession now r etype payload).approvals = db.approvals := rfl
@[simp] theorem append_executions (now : Time) (r : RunId) (etype : EventType) (payload : Dict) :
    (db.appendRunEventInSession now r etype payload).executions = db.executions := rfl
@[simp] theorem append_outbox (now : Time) (r : RunId) (etype : EventType) (payload : Dict) :
    (db.appendRunEventInSession now r etype payload).outbox = db.outbox := rfl

/-! A control request changes the request of a run and nothing else of it. -/

section control

variable (now : Time) (loaded : Run) (request : Option Control) (run : Run)

@[simp] theorem controlled_status : (controlled now loaded request run).status = run.status := by
  unfold controlled
  split <;> rfl

@[simp] theorem controlled_taskId : (controlled now loaded request run).taskId = run.taskId := by
  unfold controlled
  split <;> rfl

@[simp] theorem controlled_workerId :
    (controlled now loaded request run).workerId = run.workerId := by
  unfold controlled
  split <;> rfl

@[simp] theorem controlled_leaseExpiresAt :
    (controlled now loaded request run).leaseExpiresAt = run.leaseExpiresAt := by
  unfold controlled
  split <;> rfl

@[simp] theorem controlled_heartbeatAt :
    (controlled now loaded request run).heartbeatAt = run.heartbeatAt := by
  unfold controlled
  split <;> rfl

/-- It has the request, or had it when it was loaded. -/
theorem controlled_controlRequest :
    (controlled now loaded request run).controlRequest = request ∨
      request = loaded.controlRequest ∧ controlled now loaded request run = run := by
  unfold controlled
  split
  · next h => exact .inr ⟨h, rfl⟩
  · exact .inl rfl

end control

variable {db} {db' : Db}

/-- A message that is added leaves the other tables alone. -/
theorem addMessage_ok {m : OutboxMessage} (h : db.addMessage m = .ok db') :
    db' = { db with outbox := db.outbox ++ [m] } := by
  unfold addMessage at h
  split at h <;> simp_all

theorem addExecution_ok {x : ActionExecution} (h : db.addExecution x = .ok db') :
    db' = { db with executions := db.executions ++ [x] } ∧
      ∀ y ∈ db.executions, y.approvalId ≠ x.approvalId := by
  unfold addExecution at h
  split at h
  · cases h
  · next hno =>
    cases h
    exact ⟨rfl, by simpa using hno⟩

theorem addTask_ok {t : Task} {i : TaskId} (h : db.addTask t = .ok (db', i)) :
    db' = { db with tasks := db.tasks ++ [t] } ∧ i = db.tasks.length := by
  unfold addTask at h
  split at h
  · cases h
  · cases h
    exact ⟨rfl, rfl⟩

end Db

/-! ## Runs -/

/-- What recovery leaves alone in a row it fails. -/
structure Recovered (run run' : Run) : Prop where
  status : run'.status = .failed
  controlRequest : run'.controlRequest = run.controlRequest
  leaseExpiresAt : run'.leaseExpiresAt = run.leaseExpiresAt
  workerId : run'.workerId = run.workerId

/-- A row as `models.Run(...)` makes it. -/
structure Fresh (run : Run) : Prop where
  status : run.status = .queued
  controlRequest : run.controlRequest = none
  leaseExpiresAt : run.leaseExpiresAt = none
  workerId : run.workerId = none

/-- How a transaction of worker `w` changes the row of run `r`. -/
inductive RunWrite (db : Db) (now : Time) (w : WorkerId) (r : RunId) (run : Run) :
    DbOp → Run → Prop where
  | taskNotFound (hs : run.status.isTerminal = false) (ht : db.tasks[run.taskId]? = none) :
      RunWrite db now w r run (.openRun r) (Db.taskNotFound now run)
  | claimed (hc : Db.claimable now run = true) :
      RunWrite db now w r run (.claimRun r) (Db.claimed now w run)
  | settledCompleted (hs : run.status = .executing) :
      RunWrite db now w r run (.continuation r) (Db.completed now run)
  | settledFailed (hs : run.status = .executing) :
      RunWrite db now w r run (.continuation r) (Db.needsReconciliation now run)
  | ambiguous (a : ApprovalId) (hs : run.status = .executing) :
      RunWrite db now w r run (.markAmbiguous r a) (Db.needsReconciliation now run)
  | succeeded (a : ApprovalId) (tool : String) (args : Dict) (result : Json) :
      RunWrite db now w r run (.continuationSucceeded r a tool args result) (Db.completed now run)
  | failed (a : ApprovalId) (error : Dict) :
      RunWrite db now w r run (.continuationFailed r a error) (Db.needsReconciliation now run)
  | committed (loaded : Run) (o : Db.Outcome) :
      RunWrite db now w r run (.finalCommit r loaded o) (Db.committed now loaded o run)
  | recovered {rows : List (RunId × Run)} {run' : Run} (hr : ∃ loaded, (r, loaded) ∈ rows)
      (hrec : Recovered run run') : RunWrite db now w r run (.commitRecovery rows) run'
  | approved {a : ApprovalId} {appr : Approval} (user : Option Nat)
      (happr : db.approvals[a]? = some appr) (hr : appr.runId = r) (hp : appr.status = .pending)
      (hexp : ¬appr.expiresAt < now) (hs : run.status = .waitingApproval)
      (hok : ∃ x, (decideTransaction db now (.uuid a) "approve" user).2 = .ok x) :
      RunWrite db now w r run (.decide (.uuid a) "approve" user)
        (ApprovalService.requeued now run)
  | rejected {a : ApprovalId} {appr : Approval} (user : Option Nat)
      (happr : db.approvals[a]? = some appr) (hr : appr.runId = r) (hp : appr.status = .pending)
      (hexp : ¬appr.expiresAt < now) (hs : run.status = .waitingApproval) :
      RunWrite db now w r run (.decide (.uuid a) "reject" user) (ApprovalService.rejected now run)
  | controlled (loaded : Run) (request : Option Control) :
      RunWrite db now w r run (.setControl r loaded request) (Db.controlled now loaded request run)
  | resumed (loaded : Run) :
      RunWrite db now w r run (.resumeRun r loaded) (Db.resumed now loaded run)

/-- What a row can have been before a transaction: itself, an earlier version, or not there. -/
inductive RunCases (db : Db) (now : Time) (w : WorkerId) (o : DbOp) (r : RunId) (run' : Run) :
    Prop where
  | same (h : db.runs[r]? = some run')
  | write {run : Run} (h : db.runs[r]? = some run) (hw : RunWrite db now w r run o run')
  | fresh (h : db.runs[r]? = none) (hf : Fresh run')

namespace RunCases

variable {db : Db} {now : Time} {w : WorkerId} {o : DbOp} {r : RunId} {run' : Run}

/-- A transaction that updates one row. -/
theorem of_modify {r₀ : RunId} {f : Run → Run}
    (h : (db.runs.modify r₀ f)[r]? = some run')
    (hw : ∀ run, db.runs[r₀]? = some run → f run = run ∨ RunWrite db now w r₀ run o (f run)) :
    RunCases db now w o r run' := by
  rcases modify_cases h with ⟨-, h⟩ | ⟨rfl, run, hrun, rfl⟩
  · exact .same h
  · rcases hw run hrun with heq | hw
    · exact .same (by rw [heq]; exact hrun)
    · exact .write hrun hw

/-- A transaction that adds one row. -/
theorem of_append {new : Run} (h : (db.runs ++ [new])[r]? = some run') (hnew : Fresh new) :
    RunCases db now w o r run' := by
  rcases append_cases h with h | ⟨rfl, rfl⟩
  · exact .same h
  · exact .fresh (by simp) hnew

end RunCases

/-- A refused transaction changes nothing. -/
theorem orRollback_fst {α : Type} (db : Db) (res : Except LibError (Db × α)) :
    (DbOp.orRollback db res).1 = db ∨ ∃ db' a, res = .ok (db', a) ∧
      (DbOp.orRollback db res).1 = db' := by
  rcases res with x | ⟨db', a⟩
  · exact .inl rfl
  · exact .inr ⟨db', a, rfl, rfl⟩

theorem orRollback'_fst (db : Db) (res : Except LibError Db) :
    (DbOp.orRollback' db res).1 = db ∨ ∃ db', res = .ok db' ∧
      (DbOp.orRollback' db res).1 = db' := by
  rcases res with x | db'
  · exact .inl rfl
  · exact .inr ⟨db', rfl, rfl⟩

section relations

variable {R : Db → Db → Prop} {db : Db} {now : Time} {w : WorkerId} {r : RunId} {f : Run → Run}

theorem orRollback_rel {α : Type} {res : Except LibError (Db × α)} (hrefl : R db db)
    (h : ∀ db' a, res = .ok (db', a) → R db db') : R db (DbOp.orRollback db res).1 := by
  rcases orRollback_fst db res with heq | ⟨db', a, hok, heq⟩
  · rw [heq]
    exact hrefl
  · rw [heq]
    exact h db' a hok

theorem orRollback'_rel {res : Except LibError Db} (hrefl : R db db)
    (h : ∀ db', res = .ok db' → R db db') : R db (DbOp.orRollback' db res).1 := by
  rcases orRollback'_fst db res with heq | ⟨db', hok, heq⟩
  · rw [heq]
    exact hrefl
  · rw [heq]
    exact h db' hok

/-- The transactions that write one run row if they write at all. -/
def DbOp.rowWrite (now : Time) (w : WorkerId) : DbOp → Option (RunId × (Run → Run))
  | .openRun r => some (r, Db.taskNotFound now)
  | .claimRun r => some (r, Db.claimed now w)
  | _ => none

theorem rowWrite_fst {o : DbOp} (ho : o.rowWrite now w = some (r, f)) :
    (o.exec db now w).1 = db ∨ (o.exec db now w).1 = db.updateRun r f := by
  cases o with
  | openRun r =>
    cases ho
    simp only [DbOp.exec, DbOp.done, Db.openRun]
    split
    · exact .inl rfl
    · split
      · exact .inl rfl
      · split
        · exact .inl rfl
        · exact .inr rfl
  | claimRun r =>
    cases ho
    simp only [DbOp.exec, DbOp.done, Db.claimRun]
    split
    · exact .inl rfl
    · split
      · exact .inr rfl
      · exact .inl rfl
  | _ => cases ho

theorem rowWrite_rel {o : DbOp} (ho : o.rowWrite now w = some (r, f)) (hrefl : R db db)
    (hwrite : R db (db.updateRun r f)) : R db (o.exec db now w).1 := by
  rcases rowWrite_fst ho with heq | heq
  · rw [heq]
    exact hrefl
  · rw [heq]
    exact hwrite

end relations

theorem freshRun_fresh (now : Time) (t : TaskId) : Fresh (Db.freshRun now t) := ⟨rfl, rfl, rfl, rfl⟩

/-! ### New runs -/

/-- The run a message names. -/
def OutboxMessage.runId? (m : OutboxMessage) : Option RunId := (Body.json (.obj m.payload)).runId?

/-- The key of the message an approval sends its run back with. -/
def approveKey (a : ApprovalId) : Key := [.str "approve:", .uuid a]

/-- The tables invariants speak about are as they were. -/
structure SameTables (db db' : Db) : Prop where
  runs : db'.runs = db.runs
  approvals : db'.approvals = db.approvals
  executions : db'.executions = db.executions
  outbox : db'.outbox = db.outbox

theorem SameTables.refl (db : Db) : SameTables db db := ⟨rfl, rfl, rfl, rfl⟩

/-- A new run together with the message that names it, which is no approval's. -/
structure Enqueued (db db' : Db) : Prop where
  run : ∃ new, Fresh new ∧ db'.runs = db.runs ++ [new]
  message : ∃ m : OutboxMessage, m.runId? = some db.runs.length ∧ m.processed = false ∧
    m.attempts = 0 ∧ (∀ a, m.idempotencyKey ≠ approveKey a) ∧ db'.outbox = db.outbox ++ [m]
  approvals : db'.approvals = db.approvals
  executions : db'.executions = db.executions

section enqueue

variable {db db' : Db} {now : Time}

/-- A run and a message that names it, one after the other. -/
theorem enqueued_of_addMessage {d : Db} {new : Run} {m : OutboxMessage}
    (hd : SameTables db d) (hnew : Fresh new) (hm : m.runId? = some d.runs.length)
    (hp : m.processed = false) (hatt : m.attempts = 0)
    (hkey : ∀ a, m.idempotencyKey ≠ approveKey a)
    (h : (d.addRun new).1.addMessage m = .ok db') : Enqueued db db' := by
  rw [Db.addMessage_ok h]
  exact ⟨⟨new, hnew, by simp [Db.addRun, hd.runs]⟩,
    ⟨m, by rw [hm, hd.runs], hp, hatt, hkey, by simp [Db.addRun, hd.outbox]⟩, hd.approvals,
    hd.executions⟩

theorem Enqueued.congr {d : Db} (h : Enqueued db d) (hd : SameTables d db') : Enqueued db db' := by
  obtain ⟨new, hnew, hruns⟩ := h.run
  obtain ⟨m, hm, hp, hatt, hkey, hout⟩ := h.message
  exact ⟨⟨new, hnew, hd.runs.trans hruns⟩, ⟨m, hm, hp, hatt, hkey, hd.outbox.trans hout⟩,
    hd.approvals.trans h.approvals, hd.executions.trans h.executions⟩

theorem addTask_same {t : Task} {i : TaskId} (h : db.addTask t = .ok (db', i)) :
    SameTables db db' := by
  rw [(Db.addTask_ok h).1]
  exact ⟨rfl, rfl, rfl, rfl⟩

/-- One recovered run: its row fails, and perhaps a new run is enqueued. -/
theorem recoverRun_cases {r : RunId} {loaded : Run}
    (h : Db.recoverRun now db (r, loaded) = .ok db') :
    SameTables (db.updateRun r (Db.recovered now loaded)) db' ∨
      Enqueued (db.updateRun r (Db.recovered now loaded)) db' := by
  simp only [Db.recoverRun] at h
  split at h
  · cases h
    exact .inl ⟨rfl, rfl, rfl, rfl⟩
  · simp only [bind, Except.bind] at h
    split at h
    · cases h
    · next hsent =>
      cases h
      refine .inr ((enqueued_of_addMessage ?_ ?_ ?_ rfl rfl ?_ hsent).congr ⟨rfl, rfl, rfl, rfl⟩)
      · exact ⟨rfl, rfl, rfl, rfl⟩
      · exact ⟨rfl, rfl, rfl, rfl⟩
      · rfl
      · simp [approveKey]

/-- One accessed source: perhaps a run is enqueued. -/
theorem accessSource_cases {a : Db.Access} (h : Db.accessSource now db a = .ok db') :
    SameTables db db' ∨ Enqueued db db' := by
  simp only [Db.accessSource] at h
  split at h
  · cases h
    exact .inl ⟨rfl, rfl, rfl, rfl⟩
  · simp only [bind, Except.bind, pure, Except.pure] at h
    split at h
    · cases h
    · next htask =>
      split at h
      · cases h
      · next hsent =>
        cases h
        exact .inr ((enqueued_of_addMessage (addTask_same htask) (freshRun_fresh _ _) rfl rfl
          rfl (by simp [approveKey]) hsent).congr ⟨rfl, rfl, rfl, rfl⟩)

theorem createTask_cases {t : Db.TaskCreate} {hex : Nat} {rep : Db.Reply}
    (h : db.createTask now t hex = .ok (db', rep)) : SameTables db db' ∨ Enqueued db db' := by
  simp only [Db.createTask] at h
  split at h
  · cases h
    exact .inl (.refl db)
  · simp only [bind, Except.bind, pure, Except.pure] at h
    split at h
    · cases h
    · next htask =>
      split at h
      · cases h
      · next hsent =>
        cases h
        refine .inr (enqueued_of_addMessage (addTask_same htask) (freshRun_fresh _ _) rfl rfl rfl
          (fun a => ?_) hsent)
        dsimp only
        split <;> simp [approveKey]

theorem retryRun_cases {r : RunId} {clientKey : Text} {rep : Db.Reply}
    (h : db.retryRun now r clientKey = .ok (db', rep)) : SameTables db db' ∨ Enqueued db db' := by
  simp only [Db.retryRun] at h
  split at h
  · cases h
    exact .inl (.refl db)
  · split at h
    · cases h
      exact .inl (.refl db)
    · split at h
      · cases h
        exact .inl (.refl db)
      · simp only [bind, Except.bind, pure, Except.pure] at h
        split at h
        · cases h
        · next hsent =>
          cases h
          exact .inr (enqueued_of_addMessage (.refl db) ⟨rfl, rfl, rfl, rfl⟩ rfl rfl rfl
            (by simp [approveKey]) hsent)

end enqueue

/-! ### Recovery and polling -/

section loops

variable {db db' : Db} {now : Time}

/-- The runs of `db'`, compared with those of `db`: some of `rows` are recovered, some are new. -/
structure RunsAfter (db : Db) (rows : List (RunId × Run)) (db' : Db) : Prop where
  grows : db.runs.length ≤ db'.runs.length
  row : ∀ r run', db'.runs[r]? = some run' → db.runs[r]? = some run' ∨
    (∃ run, db.runs[r]? = some run ∧ (∃ loaded, (r, loaded) ∈ rows) ∧ Recovered run run') ∨
    (db.runs[r]? = none ∧ Fresh run')

namespace RunsAfter

variable {rows : List (RunId × Run)}

theorem refl (db : Db) : RunsAfter db rows db := ⟨le_rfl, fun _ _ h => .inl h⟩

theorem congr {d d' : Db} (h : RunsAfter db rows d) (hd : d'.runs = d.runs) :
    RunsAfter db rows d' :=
  ⟨hd ▸ h.grows, fun r run' hr => h.row r run' (hd ▸ hr)⟩

theorem append {new : Run} {d d' : Db} (h : RunsAfter db rows d) (hnew : Fresh new)
    (hd : d'.runs = d.runs ++ [new]) : RunsAfter db rows d' := by
  refine ⟨by rw [hd, List.length_append]; exact Nat.le_add_right_of_le h.grows,
    fun r run' hr => ?_⟩
  rw [hd] at hr
  rcases append_cases hr with hr | ⟨rfl, rfl⟩
  · exact h.row r run' hr
  · exact .inr (.inr ⟨List.getElem?_eq_none h.grows, hnew⟩)

theorem recovered {r : RunId} {loaded : Run} {d d' : Db} (h : RunsAfter db rows d)
    (hmem : (r, loaded) ∈ rows) (hlt : r < db.runs.length)
    (hd : d'.runs = d.runs.modify r (Db.recovered now loaded)) : RunsAfter db rows d' := by
  refine ⟨by rw [hd, List.length_modify]; exact h.grows, fun r' run' hr => ?_⟩
  rw [hd] at hr
  rcases modify_cases hr with ⟨-, hr⟩ | ⟨rfl, run, hrun, rfl⟩
  · exact h.row r' run' hr
  · rcases h.row _ _ hrun with hsame | ⟨run₀, hrun₀, -, hrec⟩ | ⟨hnone, -⟩
    · exact .inr (.inl ⟨run, hsame, ⟨loaded, hmem⟩, ⟨rfl, rfl, rfl, rfl⟩⟩)
    · exact .inr (.inl ⟨run₀, hrun₀, ⟨loaded, hmem⟩,
        ⟨rfl, hrec.controlRequest, hrec.leaseExpiresAt, hrec.workerId⟩⟩)
    · exact absurd hlt (Nat.not_lt.2 (List.getElem?_eq_none_iff.1 hnone))

end RunsAfter

theorem commitRecovery_runs {rows : List (RunId × Run)} (hrows : ∀ x ∈ rows, x.1 < db.runs.length)
    (h : db.commitRecovery now rows = .ok db') : RunsAfter db rows db' := by
  refine foldlM_ok h (.refl db) ?_
  rintro d d' ⟨r, loaded⟩ hmem ih hd
  have hrec : RunsAfter db rows (d.updateRun r (Db.recovered now loaded)) :=
    ih.recovered hmem (hrows _ hmem) rfl
  rcases recoverRun_cases hd with hsame | henq
  · exact hrec.congr hsame.runs
  · obtain ⟨new, hnew, hruns⟩ := henq.run
    exact hrec.append hnew hruns

theorem commitSources_runs {accesses : List Db.Access}
    (h : db.commitSources now accesses = .ok db') : RunsAfter db [] db' := by
  refine foldlM_ok h (.refl db) ?_
  intro d d' a _ ih hd
  rcases accessSource_cases hd with hsame | henq
  · exact ih.congr hsame.runs
  · obtain ⟨new, hnew, hruns⟩ := henq.run
    exact ih.append hnew hruns

end loops

/-! ## Decisions -/

section decisions

open ApprovalService (decided)

/-- The message an approval sends its run back with. -/
def approveMessage (now : Time) (a : ApprovalId) (r : RunId) : OutboxMessage :=
  { payload := [("run_id", .uuid r), ("approval_id", .uuid a)]
    idempotencyKey := approveKey a
    createdAt := now }

/-- What the transaction of a decision comes to. -/
inductive DecideCases (db : Db) (now : Time) (user : Option Nat) :
    Text → String → Db × Except LibError (ApprovalId × Approval) → Prop where
  | refused {approvalId : Text} {decision : String} (x : LibError) :
      DecideCases db now user approvalId decision (db, .error x)
  | expired {a : ApprovalId} {appr : Approval} {decision : String}
      (happr : db.approvals[a]? = some appr) (hp : appr.status = .pending)
      (hexp : appr.expiresAt < now) :
      DecideCases db now user (.uuid a) decision
        (db.updateApproval a ({ · with status := .expired }),
          .error (valueError "onay süresi dolmuş"))
  | runless {a : ApprovalId} {appr : Approval} {decision : String}
      (happr : db.approvals[a]? = some appr) (hp : appr.status = .pending)
      (hexp : ¬appr.expiresAt < now) (hdec : decision = "approve" ∨ decision = "reject")
      (hrun : db.runs[appr.runId]? = none) :
      DecideCases db now user (.uuid a) decision
        (db.updateApproval a (decided decision user), .ok (a, decided decision user appr))
  | approved {a : ApprovalId} {appr : Approval} {run : Run}
      (happr : db.approvals[a]? = some appr) (hp : appr.status = .pending)
      (hexp : ¬appr.expiresAt < now) (hrun : db.runs[appr.runId]? = some run) :
      DecideCases db now user (.uuid a) "approve"
        ({ db with
            approvals := db.approvals.modify a (decided "approve" user)
            runs := db.runs.modify appr.runId (ApprovalService.requeued now)
            outbox := db.outbox ++ [approveMessage now a appr.runId] },
          .ok (a, decided "approve" user appr))
  | rejected {a : ApprovalId} {appr : Approval} {run : Run}
      (happr : db.approvals[a]? = some appr) (hp : appr.status = .pending)
      (hexp : ¬appr.expiresAt < now) (hrun : db.runs[appr.runId]? = some run) :
      DecideCases db now user (.uuid a) "reject"
        ({ db with
            approvals := db.approvals.modify a (decided "reject" user)
            runs := db.runs.modify appr.runId (ApprovalService.rejected now) },
          .ok (a, decided "reject" user appr))

/-- A decision that comes too late marks the approval, and the mark is committed. -/
theorem decideTransaction_late {db : Db} {now : Time} {a : ApprovalId} {appr : Approval}
    {decision : String} {user : Option Nat} (happr : db.approvals[a]? = some appr)
    (hp : appr.status = .pending) (hexp : appr.expiresAt < now) :
    decideTransaction db now (.uuid a) decision user =
      (db.updateApproval a ({ · with status := .expired }),
        .error (valueError "onay süresi dolmuş")) := by
  have hd : ApprovalService.decide db now (.uuid a) decision user =
      (db.updateApproval a ({ · with status := .expired }),
        .error (valueError "onay süresi dolmuş")) := by
    simp [ApprovalService.decide, happr, hp, hexp]
  have hocc : occursIn "süresi dolmuş" (valueError "onay süresi dolmuş").msg = true := by
    simp [occursIn, valueError]
  have hcls : (valueError "onay süresi dolmuş").cls = "ValueError" := rfl
  simp only [decideTransaction, ApprovalService.decideWithContinuation, hd, hocc, hcls,
    true_or, and_self, ite_true]

theorem decideTransaction_cases (db : Db) (now : Time) (approvalId : Text) (decision : String)
    (user : Option Nat) :
    DecideCases db now user approvalId decision
      (decideTransaction db now approvalId decision user) := by
  have hrollback : ∀ x : LibError,
      decideTransaction db now approvalId decision user = (db, .error x) →
      DecideCases db now user approvalId decision
        (decideTransaction db now approvalId decision user) := by
    intro x hx
    rw [hx]
    exact .refused x
  have hrefused : ∀ x, ApprovalService.decide db now approvalId decision user = (db, .error x) →
      DecideCases db now user approvalId decision
        (decideTransaction db now approvalId decision user) := by
    intro x hx
    refine hrollback x ?_
    simp [decideTransaction, ApprovalService.decideWithContinuation, hx]
  cases approvalId with
  | str s => exact hrefused _ rfl
  | hour n => exact hrefused _ rfl
  | uuid a =>
    cases happr : db.approvals[a]? with
    | none => exact hrefused _ (by simp [ApprovalService.decide, happr]; rfl)
    | some appr =>
      by_cases hp : appr.status = .pending
      swap
      · exact hrefused _ (by simp [ApprovalService.decide, happr, hp]; rfl)
      by_cases hexp : appr.expiresAt < now
      · rw [decideTransaction_late happr hp hexp]
        exact .expired happr hp hexp
      by_cases hdec : decision ≠ "approve" ∧ decision ≠ "reject"
      · exact hrefused _ (by simp [ApprovalService.decide, happr, hp, hexp, hdec]; rfl)
      have hdec' : decision = "approve" ∨ decision = "reject" := by tauto
      have hd : ApprovalService.decide db now (.uuid a) decision user =
          (db.updateApproval a (decided decision user), .ok (a, decided decision user appr)) := by
        simp [ApprovalService.decide, happr, hp, hexp, hdec]
      have hrunId : (decided decision user appr).runId = appr.runId := rfl
      cases hrun : db.runs[appr.runId]? with
      | none =>
        simp only [decideTransaction, ApprovalService.decideWithContinuation, hd, hrunId,
          Db.updateApproval_runs, hrun]
        exact .runless happr hp hexp hdec' hrun
      | some run =>
        rcases hdec' with rfl | rfl
        · cases hmsg : ApprovalService.approveRun (db.updateApproval a (decided "approve" user)) now
              a appr.runId with
          | error x =>
            have hcls : x.cls ≠ "ValueError" := by
              rw [ApprovalService.approveRun, Db.addMessage] at hmsg
              split at hmsg
              · cases hmsg
                decide
              · cases hmsg
            refine hrollback x ?_
            simp [decideTransaction, ApprovalService.decideWithContinuation, hd, hrunId, hrun, hmsg,
              hcls]
          | ok db' =>
            have hdb' := Db.addMessage_ok hmsg
            simp only [decideTransaction, ApprovalService.decideWithContinuation, hd, hrunId,
              Db.updateApproval_runs, hrun, ite_true, hmsg]
            rw [hdb']
            exact .approved happr hp hexp hrun
        · simp only [decideTransaction, ApprovalService.decideWithContinuation, hd, hrunId,
            Db.updateApproval_runs, hrun]
          exact .rejected happr hp hexp hrun

end decisions

/-! ## Continuations -/

section continuations

/-- The newest approval of run `r` with status `st`. -/
structure Latest (db : Db) (r : RunId) (st : ApprovalStatus) (a : ApprovalId) (appr : Approval) :
    Prop where
  row : db.approvals[a]? = some appr
  run : appr.runId = r
  status : appr.status = st

/-- No approval of run `r` has status `st`. -/
def NoneWith (db : Db) (r : RunId) (st : ApprovalStatus) : Prop :=
  ∀ appr ∈ db.approvals, appr.runId = r → appr.status ≠ st

/-- The execution a consumption records. -/
def recordedExecution (a : ApprovalId) (r : RunId) (appr : Approval) : ActionExecution :=
  { approvalId := a
    runId := r
    actionId := if appr.payload.actionId = "" then .uuid a else .str appr.payload.actionId
    tool := appr.payload.tool }

/-- What the lookup of `_try_continuation` comes to. -/
inductive ContinuationCases (db : Db) (now : Time) (r : RunId) : Db → Db.Continuation → Prop where
  | none (happ : NoneWith db r .approved) (hcon : NoneWith db r .consumed) :
      ContinuationCases db now r db .none
  | refused {a : ApprovalId} {appr : Approval} (h : Latest db r .approved a appr)
      (hexp : appr.expiresAt < now) : ContinuationCases db now r db (.refused a)
  | consumed {a : ApprovalId} {appr : Approval} (h : Latest db r .approved a appr)
      (hexp : ¬appr.expiresAt < now) (hno : ∀ x ∈ db.executions, x.approvalId ≠ a) :
      ContinuationCases db now r
        { db with
          approvals := db.approvals.modify a ({ · with status := .consumed })
          executions := db.executions ++ [recordedExecution a r appr] }
        (.consumed a appr.payload)
  | pendingExecution {a : ApprovalId} {appr : Approval} {ex : ActionExecution}
      (happ : NoneWith db r .approved) (h : Latest db r .consumed a appr)
      (hex : db.executionOf a = some ex) (hs : ex.status = .pending) :
      ContinuationCases db now r db (.pendingExecution a)
  | succeeded {a : ApprovalId} {appr : Approval} {ex : ActionExecution}
      (happ : NoneWith db r .approved) (h : Latest db r .consumed a appr)
      (hex : db.executionOf a = some ex) (hs : ex.status = .succeeded) :
      ContinuationCases db now r (db.completeIfExecuting now r)
        (.settled a .approvalReplayBlocked "already_succeeded")
  | failed {a : ApprovalId} {appr : Approval} {ex : ActionExecution}
      (happ : NoneWith db r .approved) (h : Latest db r .consumed a appr)
      (hex : db.executionOf a = some ex) (hs : ex.status = .failed ∨ ex.status = .ambiguous) :
      ContinuationCases db now r (db.failIfExecuting now r)
        (.settled a .approvalReplayBlocked ex.status.lower)
  | unrecorded {a : ApprovalId} {appr : Approval} {ex : ActionExecution}
      (happ : NoneWith db r .approved) (h : Latest db r .consumed a appr)
      (hno : ∀ x ∈ db.executions, x.approvalId ≠ a) (hex : ex.approvalId = a)
      (hs : ex.status = .ambiguous) :
      ContinuationCases db now r
        ({ db with executions := db.executions ++ [ex] }.failIfExecuting now r)
        (.settled a .approvalAmbiguous "consumed_no_execution")

variable {db db' : Db} {now : Time} {r : RunId} {found : Db.Continuation}

theorem latest_of_newest {st : ApprovalStatus} {a : ApprovalId} {appr : Approval}
    (h : newest (·.createdAt) (fun a => a.runId = r && a.status = st) db.approvals =
      some (a, appr)) : Latest db r st a appr := by
  obtain ⟨hrow, hp⟩ := newest_some h
  simp only [Bool.and_eq_true, decide_eq_true_eq] at hp
  exact ⟨hrow, hp.1, hp.2⟩

theorem noneWith_of_newest {st : ApprovalStatus}
    (h : newest (·.createdAt) (fun a => a.runId = r && a.status = st) db.approvals = none) :
    NoneWith db r st := by
  intro appr hmem hr hs
  have := newest_none h appr hmem
  simp [hr, hs] at this

theorem continuation_cases (h : db.continuation now r = .ok (db', found)) :
    ContinuationCases db now r db' found := by
  unfold Db.continuation at h
  split at h
  · next a appr hnew =>
    have hl := latest_of_newest hnew
    simp only [ApprovalService.consumeAndRecord, hl.row, hl.status, bind, Except.bind, pure,
      Except.pure] at h
    by_cases hexp : appr.expiresAt < now
    · simp only [hexp, ite_true, reduceCtorEq, ite_false] at h
      cases h
      exact .refused hl hexp
    · simp only [hexp, ite_false, ne_eq, not_true_eq_false] at h
      split at h
      · cases h
      · next heq =>
        split at heq
        · cases heq
        · next hadd =>
          cases heq
          cases h
          obtain ⟨rfl, hno⟩ := Db.addExecution_ok hadd
          exact .consumed hl hexp hno
  · next hnone =>
    have happ := noneWith_of_newest hnone
    split at h
    · next a appr hnew =>
      have hl := latest_of_newest hnew
      unfold Db.settleConsumed at h
      split at h
      · next ex hex =>
        split at h <;> rename_i hs <;> cases h
        · exact .pendingExecution happ hl hex hs
        · exact .succeeded happ hl hex hs
        · exact .failed happ hl hex (.inl hs)
        · exact .failed happ hl hex (.inr hs)
      · simp only [bind, Except.bind, pure, Except.pure] at h
        split at h
        · cases h
        · next hadd =>
          cases h
          obtain ⟨rfl, hno⟩ := Db.addExecution_ok hadd
          exact .unrecorded happ hl hno rfl rfl
    · next hnone' =>
      cases h
      exact .none happ (noneWith_of_newest hnone')

end continuations

/-! ## Run rows, transaction by transaction -/

section runs

variable {db : Db} {now : Time} {w : WorkerId} {r : RunId} {run' : Run}

/-- The rows a recovery is about to write are rows of the table. -/
def RowsExist (db : Db) : DbOp → Prop
  | .commitRecovery rows => ∀ x ∈ rows, x.1 < db.runs.length
  | _ => True

theorem RunCases.of_after {rows : List (RunId × Run)} {db' : Db} (h : RunsAfter db rows db')
    (hr : db'.runs[r]? = some run') : RunCases db now w (.commitRecovery rows) r run' := by
  rcases h.row r run' hr with hsame | ⟨run, hrun, hmem, hrec⟩ | ⟨hnone, hfresh⟩
  · exact .same hsame
  · exact .write hrun (.recovered hmem hrec)
  · exact .fresh hnone hfresh

/-- A new run, or none. -/
theorem RunCases.of_added {o : DbOp} {db' : Db} (h : SameTables db db' ∨ Enqueued db db')
    (hr : db'.runs[r]? = some run') : RunCases db now w o r run' := by
  rcases h with hsame | henq
  · exact .same (hsame.runs ▸ hr)
  · obtain ⟨new, hnew, hruns⟩ := henq.run
    exact .of_append (hruns ▸ hr) hnew

theorem openRun_runs {r₀ : RunId} (h : (db.openRun now r₀).1.runs[r]? = some run') :
    RunCases db now w (.openRun r₀) r run' := by
  unfold Db.openRun at h
  split at h
  · exact .same h
  · next run hrun =>
    split at h
    · exact .same h
    · next hterm =>
      split at h
      · exact .same h
      · next htask =>
        refine .of_modify h fun run₁ hrun₁ => .inr ?_
        cases hrun.symm.trans hrun₁
        exact .taskNotFound (by simpa using hterm) htask

theorem continuation_runs {r₀ : RunId} {db' : Db} {found : Db.Continuation}
    (hc : ContinuationCases db now r₀ db' found) (h : db'.runs[r]? = some run') :
    RunCases db now w (.continuation r₀) r run' := by
  have hfail : (db.runs.modify r₀ fun run =>
      if run.status = .executing then Db.needsReconciliation now run else run)[r]? = some run' →
      RunCases db now w (.continuation r₀) r run' := by
    refine fun h => .of_modify h fun run _ => ?_
    by_cases hs : run.status = .executing
    · rw [if_pos hs]
      exact .inr (.settledFailed hs)
    · exact .inl (if_neg hs)
  cases hc with
  | none => exact .same h
  | refused => exact .same h
  | consumed => exact .same h
  | pendingExecution => exact .same h
  | succeeded =>
    refine .of_modify h fun run _ => ?_
    by_cases hs : run.status = .executing
    · rw [if_pos hs]
      exact .inr (.settledCompleted hs)
    · exact .inl (if_neg hs)
  | failed => exact hfail h
  | unrecorded => exact hfail h

theorem decide_runs {approvalId : Text} {decision : String} {user : Option Nat}
    (h : (decideTransaction db now approvalId decision user).1.runs[r]? = some run') :
    RunCases db now w (.decide approvalId decision user) r run' := by
  have hd := decideTransaction_cases db now approvalId decision user
  generalize hres : decideTransaction db now approvalId decision user = res at hd h
  cases hd with
  | refused x => exact .same h
  | expired => exact .same h
  | runless => exact .same h
  | approved happr hp hexp hrun =>
    refine .of_modify h fun run _ => ?_
    by_cases hs : run.status = .waitingApproval
    · exact .inr (.approved user happr rfl hp hexp hs ⟨_, congrArg Prod.snd hres⟩)
    · exact .inl (by simp [ApprovalService.requeued, hs])
  | rejected happr hp hexp hrun =>
    refine .of_modify h fun run _ => ?_
    by_cases hs : run.status = .waitingApproval
    · exact .inr (.rejected user happr rfl hp hexp hs)
    · exact .inl (by simp [ApprovalService.rejected, hs])

/-- **What a transaction does to a run row**, whatever the transaction. -/
theorem run_cases {o : DbOp} (hrows : RowsExist db o)
    (h : (o.exec db now w).1.runs[r]? = some run') : RunCases db now w o r run' := by
  cases o with
  | openRun r₀ => exact openRun_runs h
  | claimRun r₀ =>
    simp only [DbOp.exec, DbOp.done, Db.claimRun] at h
    split at h
    · exact .same h
    · next run hrun =>
      split at h
      · next hc =>
        refine .of_modify h fun run₁ hrun₁ => .inr ?_
        cases hrun.symm.trans hrun₁
        exact .claimed hc
      · exact .same h
  | continuation r₀ =>
    rcases orRollback_fst db (db.continuation now r₀) with heq | ⟨db', a, hok, heq⟩
    · exact .same (by rwa [DbOp.exec, heq] at h)
    · exact continuation_runs (continuation_cases hok) (by rwa [DbOp.exec, heq] at h)
  | markAmbiguous r₀ a =>
    refine .of_modify h fun run _ => ?_
    by_cases hs : run.status = .executing
    · rw [if_pos hs]
      exact .inr (.ambiguous a hs)
    · exact .inl (if_neg hs)
  | continuationSucceeded r₀ a tool args result =>
    exact .of_modify h fun _ _ => .inr (.succeeded a tool args result)
  | continuationFailed r₀ a error => exact .of_modify h fun _ _ => .inr (.failed a error)
  | appendEvent r₀ etype payload =>
    rcases orRollback'_fst db (db.appendRunEventSafe now r₀ etype payload) with
      heq | ⟨db', hok, heq⟩
    · exact .same (by rwa [DbOp.exec, heq] at h)
    · rw [DbOp.exec, heq] at h
      unfold Db.appendRunEventSafe at hok
      split at hok <;> cases hok
      exact .same h
  | insertPlan => exact .same h
  | insertToolCall => exact .same h
  | createApproval => exact .same h
  | pauseCheck => exact .same h
  | stopCheck => exact .same h
  | finalCommit r₀ loaded o => exact .of_modify h fun _ _ => .inr (.committed loaded o)
  | selectOutbox => exact .same h
  | commitOutbox attempts =>
    have hruns : ∀ (attempts : List (MessageId × OutboxMessage × Db.Attempt)) (d : Db),
        (d.commitOutbox now attempts).runs = d.runs := by
      intro attempts
      induction attempts with
      | nil => exact fun d => rfl
      | cons x attempts ih => exact fun d => ih _
    exact .same (hruns attempts db ▸ h)
  | selectExecuting => exact .same h
  | commitRecovery rows =>
    rcases orRollback'_fst db (db.commitRecovery now rows) with
      heq | ⟨db', hok, heq⟩
    · exact .same (by rwa [DbOp.exec, heq] at h)
    · exact .of_after (commitRecovery_runs hrows hok) (by rwa [DbOp.exec, heq] at h)
  | selectSources => exact .same h
  | hasTask idem => exact .same h
  | commitSources accesses =>
    rcases orRollback'_fst db (db.commitSources now accesses) with heq | ⟨db', hok, heq⟩
    · exact .same (by rwa [DbOp.exec, heq] at h)
    · rw [DbOp.exec, heq] at h
      rcases (commitSources_runs hok).row r run' h with hsame | ⟨_, _, ⟨_, hmem⟩, _⟩ | ⟨hnone, hf⟩
      · exact .same hsame
      · cases hmem
      · exact .fresh hnone hf
  | createTask t hex =>
    rcases orRollback_fst db (db.createTask now t hex) with heq | ⟨db', a, hok, heq⟩
    · exact .same (by rwa [DbOp.exec, heq] at h)
    · exact .of_added (createTask_cases hok) (by rwa [DbOp.exec, heq] at h)
  | loadRun r₀ => exact .same h
  | retryRun r₀ clientKey =>
    rcases orRollback_fst db (db.retryRun now r₀ clientKey) with
      heq | ⟨db', a, hok, heq⟩
    · exact .same (by rwa [DbOp.exec, heq] at h)
    · exact .of_added (retryRun_cases hok) (by rwa [DbOp.exec, heq] at h)
  | decide approvalId decision user =>
    exact decide_runs h
  | insertTask title prompt => exact .of_append h (freshRun_fresh _ _)
  | setControl r₀ loaded request => exact .of_modify h fun _ _ => .inr (.controlled loaded request)
  | resumeRun r₀ loaded => exact .of_modify h fun _ _ => .inr (.resumed loaded)

end runs

/-! ## Approvals and executions -/

section approvals

variable {db : Db} {now : Time} {w : WorkerId}

/-- The tables an operation that is not about approvals leaves as they are. -/
def touchesApprovals : DbOp → Bool
  | .continuation _ | .createApproval .. | .decide .. => true
  | _ => false

def touchesExecutions : DbOp → Bool
  | .continuation _ | .markAmbiguous .. | .continuationSucceeded .. | .continuationFailed .. => true
  | _ => false

theorem commitOutbox_frame (attempts : List (MessageId × OutboxMessage × Db.Attempt)) (d : Db) :
    (d.commitOutbox now attempts).approvals = d.approvals ∧
      (d.commitOutbox now attempts).executions = d.executions := by
  induction attempts generalizing d with
  | nil => exact ⟨rfl, rfl⟩
  | cons x attempts ih => exact ih _

/-- Neither table of approvals is touched. -/
def SameApprovals (db db' : Db) : Prop :=
  db'.approvals = db.approvals ∧ db'.executions = db.executions

theorem SameApprovals.trans {db₁ db₂ db₃ : Db} (h : SameApprovals db₁ db₂)
    (h' : SameApprovals db₂ db₃) : SameApprovals db₁ db₃ :=
  ⟨h'.1.trans h.1, h'.2.trans h.2⟩

theorem SameTables.sameApprovals {db db' : Db} (h : SameTables db db') : SameApprovals db db' :=
  ⟨h.approvals, h.executions⟩

theorem Enqueued.sameApprovals {db db' : Db} (h : Enqueued db db') : SameApprovals db db' :=
  ⟨h.approvals, h.executions⟩

theorem sameApprovals_of_recovered {db db' : Db} {x : RunId × Run}
    (h : Db.recoverRun now db x = .ok db') : SameApprovals db db' := by
  rcases recoverRun_cases h with h | h
  · exact ⟨h.approvals, h.executions⟩
  · exact ⟨h.approvals, h.executions⟩

theorem sameApprovals_of_added {db db' : Db} (h : SameTables db db' ∨ Enqueued db db') :
    SameApprovals db db' :=
  h.elim (·.sameApprovals) (·.sameApprovals)

/-- Only the three operations of the approval service touch approvals or record executions, apart
from the settling of an execution. -/
theorem exec_same {o : DbOp} (happ : touchesApprovals o = false)
    (hexec : touchesExecutions o = false) : SameApprovals db (o.exec db now w).1 := by
  cases o with
  | openRun r => exact rowWrite_rel rfl ⟨rfl, rfl⟩ ⟨rfl, rfl⟩
  | claimRun r => exact rowWrite_rel rfl ⟨rfl, rfl⟩ ⟨rfl, rfl⟩
  | continuation => cases happ
  | createApproval => cases happ
  | decide => cases happ
  | markAmbiguous => cases hexec
  | continuationSucceeded => cases hexec
  | continuationFailed => cases hexec
  | appendEvent r etype payload =>
    simp only [DbOp.exec, Db.appendRunEventSafe]
    split <;> exact ⟨rfl, rfl⟩
  | insertPlan => exact ⟨rfl, rfl⟩
  | insertToolCall => exact ⟨rfl, rfl⟩
  | pauseCheck => exact ⟨rfl, rfl⟩
  | stopCheck => exact ⟨rfl, rfl⟩
  | finalCommit => exact ⟨rfl, rfl⟩
  | selectOutbox => exact ⟨rfl, rfl⟩
  | commitOutbox attempts => exact commitOutbox_frame attempts db
  | selectExecuting => exact ⟨rfl, rfl⟩
  | commitRecovery rows =>
    refine orRollback'_rel ⟨rfl, rfl⟩ fun db' hok => ?_
    refine foldlM_ok hok ⟨rfl, rfl⟩ fun _ _ _ _ ih hd => ?_
    exact ih.trans (sameApprovals_of_recovered hd)
  | selectSources => exact ⟨rfl, rfl⟩
  | hasTask => exact ⟨rfl, rfl⟩
  | commitSources accesses =>
    refine orRollback'_rel ⟨rfl, rfl⟩ fun db' hok => ?_
    refine foldlM_ok hok ⟨rfl, rfl⟩ fun _ _ _ _ ih hd => ?_
    exact ih.trans (sameApprovals_of_added (accessSource_cases hd))
  | createTask t hex =>
    refine orRollback_rel ⟨rfl, rfl⟩ fun db' a hok => ?_
    exact sameApprovals_of_added (createTask_cases hok)
  | loadRun => exact ⟨rfl, rfl⟩
  | retryRun r clientKey =>
    refine orRollback_rel ⟨rfl, rfl⟩ fun db' a hok => ?_
    exact sameApprovals_of_added (retryRun_cases hok)
  | insertTask => exact ⟨rfl, rfl⟩
  | setControl => exact ⟨rfl, rfl⟩
  | resumeRun => exact ⟨rfl, rfl⟩

/-- Settling an execution leaves the approvals alone too. -/
theorem exec_approvals {o : DbOp} (happ : touchesApprovals o = false) :
    (o.exec db now w).1.approvals = db.approvals := by
  by_cases hexec : touchesExecutions o = false
  · exact (exec_same happ hexec).1
  · cases o with
    | markAmbiguous => rfl
    | continuationSucceeded => rfl
    | continuationFailed => rfl
    | continuation => cases happ
    | _ => exact absurd rfl hexec

/-- How a transaction changes an approval. -/
inductive ApprovalWrite (now : Time) (a : ApprovalId) (appr : Approval) : DbOp → Approval → Prop where
  | expired {decision : String} {user : Option Nat} (hp : appr.status = .pending)
      (hexp : appr.expiresAt < now) :
      ApprovalWrite now a appr (.decide (.uuid a) decision user) { appr with status := .expired }
  | decided {decision : String} {user : Option Nat} (hp : appr.status = .pending)
      (hexp : ¬appr.expiresAt < now) (hdec : decision = "approve" ∨ decision = "reject") :
      ApprovalWrite now a appr (.decide (.uuid a) decision user)
        (ApprovalService.decided decision user appr)
  | consumed {r : RunId} (hr : appr.runId = r) (hs : appr.status = .approved)
      (hexp : ¬appr.expiresAt < now) :
      ApprovalWrite now a appr (.continuation r) { appr with status := .consumed }

/-- What an approval can have been before a transaction. -/
inductive ApprovalCases (db : Db) (now : Time) (o : DbOp) (a : ApprovalId) (appr' : Approval) :
    Prop where
  | same (h : db.approvals[a]? = some appr')
  | write {appr : Approval} (h : db.approvals[a]? = some appr)
      (hw : ApprovalWrite now a appr o appr')
  | created {r : RunId} {cls : ActionClass} {payload : ActionPayload} {impact : String}
      (ho : o = .createApproval r cls payload impact) (ha : a = db.approvals.length)
      (hr : appr'.runId = r) (hp : appr'.payload = payload) (hs : appr'.status = .pending)
      (hexp : appr'.expiresAt = now + ApprovalService.ttl)

theorem continuation_approvals {r : RunId} {db' : Db} {found : Db.Continuation} {a : ApprovalId}
    {appr' : Approval} (hc : ContinuationCases db now r db' found)
    (h : db'.approvals[a]? = some appr') : ApprovalCases db now (.continuation r) a appr' := by
  cases hc with
  | none => exact .same h
  | refused => exact .same h
  | pendingExecution => exact .same h
  | succeeded => exact .same h
  | failed => exact .same h
  | unrecorded => exact .same h
  | consumed hl hexp =>
    rcases modify_cases h with ⟨-, h⟩ | ⟨rfl, appr, happr, rfl⟩
    · exact .same h
    · cases hl.row.symm.trans happr
      exact .write happr (.consumed hl.run hl.status hexp)

theorem decide_approvals {approvalId : Text} {decision : String} {user : Option Nat}
    {res : Db × Except LibError (ApprovalId × Approval)} {a : ApprovalId} {appr' : Approval}
    (hd : DecideCases db now user approvalId decision res) (h : res.1.approvals[a]? = some appr') :
    ApprovalCases db now (.decide approvalId decision user) a appr' := by
  have hmodify : ∀ {a₀ : ApprovalId} {appr₀ : Approval} {f : Approval → Approval},
      db.approvals[a₀]? = some appr₀ →
      ApprovalWrite now a₀ appr₀ (.decide (.uuid a₀) decision user) (f appr₀) →
      (db.approvals.modify a₀ f)[a]? = some appr' →
      ApprovalCases db now (.decide (.uuid a₀) decision user) a appr' := by
    intro a₀ appr₀ f happr₀ hw h
    rcases modify_cases h with ⟨-, h⟩ | ⟨rfl, appr, happr, rfl⟩
    · exact .same h
    · cases happr₀.symm.trans happr
      exact .write happr hw
  cases hd with
  | refused x => exact .same h
  | expired happr hp hexp => exact hmodify happr (.expired hp hexp) h
  | runless happr hp hexp hdec => exact hmodify happr (.decided hp hexp hdec) h
  | approved happr hp hexp => exact hmodify happr (.decided hp hexp (.inl rfl)) h
  | rejected happr hp hexp => exact hmodify happr (.decided hp hexp (.inr rfl)) h

/-- **What a transaction does to an approval.** -/
theorem approval_cases {o : DbOp} {a : ApprovalId} {appr' : Approval}
    (h : (o.exec db now w).1.approvals[a]? = some appr') : ApprovalCases db now o a appr' := by
  by_cases happ : touchesApprovals o = false
  · exact .same (exec_approvals happ ▸ h)
  · cases o with
    | continuation r =>
      rcases orRollback_fst db (db.continuation now r) with heq | ⟨db', f, hok, heq⟩
      · exact .same (by rwa [DbOp.exec, heq] at h)
      · exact continuation_approvals (continuation_cases hok) (by rwa [DbOp.exec, heq] at h)
    | createApproval r cls payload impact =>
      rcases append_cases h with h | ⟨rfl, rfl⟩
      · exact .same h
      · exact .created rfl rfl rfl rfl rfl rfl
    | decide approvalId decision user =>
      exact decide_approvals (decideTransaction_cases db now approvalId decision user) h
    | _ => exact absurd rfl happ

/-- Approvals are never deleted. -/
theorem approvals_grow (o : DbOp) :
    db.approvals.length ≤ (o.exec db now w).1.approvals.length := by
  by_cases happ : touchesApprovals o = false
  · rw [exec_approvals happ]
  · cases o with
    | continuation r =>
      rcases orRollback_fst db (db.continuation now r) with heq | ⟨db', f, hok, heq⟩
      · rw [DbOp.exec, heq]
      · rw [DbOp.exec, heq]
        cases continuation_cases hok <;> simp [Db.completeIfExecuting, Db.failIfExecuting]
    | createApproval r cls payload impact =>
      simp [DbOp.exec, DbOp.done, ApprovalService.create]
    | decide approvalId decision user =>
      have hd : ∀ res, DecideCases db now user approvalId decision res →
          db.approvals.length ≤ res.1.approvals.length := by
        intro res hd
        cases hd <;> simp
      exact hd _ (decideTransaction_cases db now approvalId decision user)
    | _ => exact absurd rfl happ

/-- What an execution can have been before a transaction. -/
inductive ExecutionCases (db : Db) (o : DbOp) (ex' : ActionExecution) : Prop where
  | same (h : ex' ∈ db.executions)
  | unsucceeded (hs : ex'.status ≠ .succeeded)
  | succeeded {r : RunId} {tool : String} {args : Dict} {result : Json}
      (ho : o = .continuationSucceeded r ex'.approvalId tool args result)

theorem updateExecution_cases {a : ApprovalId} {f : ActionExecution → ActionExecution}
    {ex' : ActionExecution} (h : ex' ∈ (db.updateExecution a f).executions) :
    ex' ∈ db.executions ∨ ∃ ex ∈ db.executions, ex.approvalId = a ∧ ex' = f ex := by
  obtain ⟨ex, hmem, rfl⟩ := List.mem_map.1 h
  split
  · next ha => exact .inr ⟨ex, hmem, ha, rfl⟩
  · exact .inl hmem

/-- **What a transaction does to an execution.**  Only a continuation that came to its end makes it
SUCCEEDED. -/
theorem execution_cases {o : DbOp} {ex' : ActionExecution}
    (h : ex' ∈ (o.exec db now w).1.executions) : ExecutionCases db o ex' := by
  have hsame : touchesApprovals o = false → touchesExecutions o = false → ex' ∈ db.executions := by
    intro happ hexec
    rwa [(exec_same happ hexec).2] at h
  cases o with
  | continuation r =>
    rcases orRollback_fst db (db.continuation now r) with heq | ⟨db', f, hok, heq⟩
    · exact .same (by rwa [DbOp.exec, heq] at h)
    · rw [DbOp.exec, heq] at h
      cases continuation_cases hok with
      | consumed =>
        rcases List.mem_append.1 h with h | h
        · exact .same h
        · rw [List.mem_singleton.1 h]
          exact .unsucceeded nofun
      | unrecorded happ hlatest hno hex hs =>
        rcases List.mem_append.1 h with h | h
        · exact .same h
        · rw [List.mem_singleton.1 h]
          refine .unsucceeded ?_
          rw [hs]
          exact nofun
      | _ => exact .same h
  | markAmbiguous r a =>
    rcases updateExecution_cases h with h | ⟨ex, -, -, rfl⟩
    · exact .same h
    · exact .unsucceeded nofun
  | continuationSucceeded r a tool args result =>
    rcases updateExecution_cases h with h | ⟨ex, -, rfl, rfl⟩
    · exact .same h
    · exact .succeeded rfl
  | continuationFailed r a error =>
    rcases updateExecution_cases h with h | ⟨ex, -, -, rfl⟩
    · exact .same h
    · exact .unsucceeded nofun
  | createApproval r cls payload impact => exact .same h
  | decide approvalId decision user =>
    have hd : ∀ res, DecideCases db now user approvalId decision res →
        res.1.executions = db.executions := by
      intro res hd
      cases hd <;> rfl
    exact .same (hd _ (decideTransaction_cases db now approvalId decision user) ▸ h)
  | _ => exact .same (hsame rfl rfl)

end approvals

end Observatory
