import Observatory.Verify.Holders

/-!
# Automatic retries

`recover_stuck_runs` gives a run that it finds stuck a successor, or an entry in the DLQ once the
run has been retried three times.  What the transaction commits is computed first
(`commitRecovery_tables`).  It is right about rows that nobody has recovered since they were loaded
(`Faithful`), which one scheduler sees to, and the entries are right because a pass writes them in
between the rows it judges (`Pass.protocol`, `Judges`).  A successor never loses the count it was
made with (`Linked`), so counts go up along a chain of retries, from 1 to at most 3.
-/

namespace Observatory

open Effect Effect.Machine Effect.Prog

namespace Recovery

/-! ## The transaction -/

/-- The loaded rows that get a successor. -/
def retried (rows : List (RunId × Run)) : List (RunId × Run) :=
  rows.filter fun x => x.2.retryCount < 3

/-- The loaded rows that have run out of retries. -/
def exhausted (rows : List (RunId × Run)) : List (RunId × Run) :=
  rows.filter fun x => 3 ≤ x.2.retryCount

/-- The successor of a loaded row. -/
def successor (now : Time) (loaded : Run) : Run :=
  { taskId := loaded.taskId, tokenBudget := loaded.tokenBudget, costBudget := loaded.costBudget,
    retryCount := loaded.retryCount + 1, createdAt := now, updatedAt := now }

/-- The message for the successor `new` of a loaded row. -/
def announcement (now : Time) (x : RunId × Run) (new : RunId) : OutboxMessage :=
  { payload := [("run_id", .uuid new), ("task_id", .uuid x.2.taskId), ("retry_of", .uuid x.1)]
    idempotencyKey := [.str "retry:", .uuid x.1, .str ":", .uuid new]
    createdAt := now
    notBefore := some (now + Db.backoffSec (x.2.retryCount + 1) * 1000) }

/-- The recovered rows. -/
def failedRows (now : Time) (rows : List (RunId × Run)) (runs : List Run) : List Run :=
  rows.foldl (fun runs x => runs.modify x.1 (Db.recovered now x.2)) runs

section transaction

variable {db db' : Db} {now : Time} {rows : List (RunId × Run)} {r r' : RunId} {loaded : Run}

theorem recoverRun_retried (hlt : loaded.retryCount < 3)
    (h : Db.recoverRun now db (r, loaded) = .ok db') :
    db'.runs = db.runs.modify r (Db.recovered now loaded) ++ [successor now loaded] ∧
      db'.outbox = db.outbox ++ [announcement now (r, loaded) db.runs.length] := by
  have hretry : ¬loaded.retryCount + 1 > 3 := by omega
  simp only [Db.recoverRun, if_neg hretry, bind, Except.bind] at h
  split at h
  · cases h
  · next sent hsent =>
    cases h
    unfold Db.addMessage at hsent
    split at hsent
    · cases hsent
    · cases hsent
      refine ⟨rfl, ?_⟩
      simp [Db.addRun, Db.appendRunEventInSession, Db.updateRun, announcement]

theorem recoverRun_exhausted (hge : 3 ≤ loaded.retryCount)
    (h : Db.recoverRun now db (r, loaded) = .ok db') :
    db'.runs = db.runs.modify r (Db.recovered now loaded) ∧ db'.outbox = db.outbox := by
  have hretry : loaded.retryCount + 1 > 3 := by omega
  simp only [Db.recoverRun, if_pos hretry] at h
  cases h
  exact ⟨rfl, rfl⟩

theorem modify_append_left {α : Type} {f : α → α} {l l' : List α} {i : Nat} (h : i < l.length) :
    (l ++ l').modify i f = l.modify i f ++ l' := by
  induction l generalizing i with
  | nil => cases h
  | cons a l ih =>
    cases i with
    | zero => rfl
    | succ i => rw [List.cons_append, List.modify_succ_cons, List.modify_succ_cons,
        ih (Nat.lt_of_succ_lt_succ h), List.cons_append]

theorem length_failedRows (runs : List Run) : (failedRows now rows runs).length = runs.length := by
  induction rows generalizing runs with
  | nil => rfl
  | cons x rows ih =>
    have hone := ih (runs.modify x.1 (Db.recovered now x.2))
    rw [List.length_modify] at hone
    exact hone

/-- Rows that are there are recovered in place. -/
theorem failedRows_append (hrows : ∀ x ∈ rows, x.1 < runs.length) (runs' : List Run) :
    failedRows now rows (runs ++ runs') = failedRows now rows runs ++ runs' := by
  induction rows generalizing runs with
  | nil => rfl
  | cons x rows ih =>
    have hx : x.1 < runs.length := hrows x List.mem_cons_self
    have hmodify : (runs ++ runs').modify x.1 (Db.recovered now x.2) =
        runs.modify x.1 (Db.recovered now x.2) ++ runs' :=
      modify_append_left (hrows x List.mem_cons_self)
    unfold failedRows at ih ⊢
    rw [List.foldl_cons, List.foldl_cons, hmodify]
    refine ih ?_
    intro y hy
    rw [List.length_modify]
    exact hrows y (List.mem_cons_of_mem _ hy)

/-- **What a recovery commits**: the rows fail, and those with retries left get a successor and a
message each, in order. -/
theorem commitRecovery_tables (hrows : ∀ x ∈ rows, x.1 < db.runs.length)
    (h : db.commitRecovery now rows = .ok db') :
    db'.runs = failedRows now rows db.runs ++ (retried rows).map (fun x => successor now x.2) ∧
      db'.outbox = db.outbox ++ ((retried rows).zipIdx db.runs.length).map
        fun x => announcement now x.1 x.2 := by
  induction rows generalizing db with
  | nil =>
    cases h
    simp [failedRows, retried]
  | cons x rows ih =>
    obtain ⟨r, loaded⟩ := x
    unfold Db.commitRecovery at h
    rw [List.foldlM_cons] at h
    obtain ⟨d, hd, h⟩ : ∃ d, Db.recoverRun now db (r, loaded) = .ok d ∧
        d.commitRecovery now rows = .ok db' := by
      cases hd : Db.recoverRun now db (r, loaded) with
      | error x =>
        rw [hd] at h
        cases h
      | ok d =>
        rw [hd] at h
        exact ⟨d, rfl, h⟩
    have hr : r < db.runs.length := hrows _ List.mem_cons_self
    have hrest : ∀ x ∈ rows, x.1 < (db.runs.modify r (Db.recovered now loaded)).length := by
      intro x hx
      rw [List.length_modify]
      exact hrows x (List.mem_cons_of_mem _ hx)
    by_cases hlt : loaded.retryCount < 3
    · obtain ⟨hruns, hout⟩ := recoverRun_retried hlt hd
      have hlen : d.runs.length = db.runs.length + 1 := by
        rw [hruns, List.length_append, List.length_modify]
        rfl
      have hsplit : retried ((r, loaded) :: rows) = (r, loaded) :: retried rows := by
        simp [retried, hlt]
      have hthere : ∀ x ∈ rows, x.1 < d.runs.length := by
        intro x hx
        rw [hlen]
        exact Nat.lt_succ_of_lt (hrows x (List.mem_cons_of_mem _ hx))
      obtain ⟨hruns', hout'⟩ := ih hthere h
      rw [hruns', hout', hlen, hruns, hout, failedRows_append hrest, hsplit]
      refine ⟨?_, ?_⟩
      · simp [failedRows]
      · simp [List.zipIdx_cons]
    · obtain ⟨hruns, hout⟩ := recoverRun_exhausted (Nat.not_lt.1 hlt) hd
      have hsplit : retried ((r, loaded) :: rows) = retried rows := by
        simp [retried, hlt]
      obtain ⟨hruns', hout'⟩ := ih (fun x hx => by rw [hruns]; exact hrest x hx) h
      rw [hruns', hout', hruns, hout, List.length_modify, hsplit]
      exact ⟨rfl, rfl⟩

/-- A message names `r'` as the retry of `r`. -/
def Announces (m : OutboxMessage) (r r' : RunId) : Prop :=
  m.payload.lookup "run_id" = some (.uuid r') ∧ m.payload.lookup "retry_of" = some (.uuid r)

theorem announcement_announces (x : RunId × Run) (new : RunId) :
    Announces (announcement now x new) x.1 new := ⟨rfl, rfl⟩

theorem Announces.inj {m : OutboxMessage} {r₁ r₂ r₁' r₂' : RunId} (h : Announces m r₁ r₁')
    (h' : Announces m r₂ r₂') : r₁ = r₂ ∧ r₁' = r₂' := by
  obtain ⟨hrun, hof⟩ := h
  obtain ⟨hrun', hof'⟩ := h'
  have huuid : ∀ {a b : Nat}, some (Json.uuid a) = some (Json.uuid b) → a = b := by
    intro a b heq
    exact Text.uuid.inj (Json.text.inj (Option.some.inj heq))
  exact ⟨huuid (hof.symm.trans hof'), huuid (hrun.symm.trans hrun')⟩

/-- The rows that were added, by position. -/
theorem commitRecovery_run (hrows : ∀ x ∈ rows, x.1 < db.runs.length)
    (h : db.commitRecovery now rows = .ok db') (j : Nat) :
    db'.runs[db.runs.length + j]? = ((retried rows)[j]?).map fun x => successor now x.2 := by
  rw [(commitRecovery_tables hrows h).1, List.getElem?_append_right (by simp [length_failedRows]),
    length_failedRows, Nat.add_sub_cancel_left, List.getElem?_map]

/-- The messages that were added, by position. -/
theorem commitRecovery_message (hrows : ∀ x ∈ rows, x.1 < db.runs.length)
    (h : db.commitRecovery now rows = .ok db') (j : Nat) :
    db'.outbox[db.outbox.length + j]? =
      ((retried rows)[j]?).map fun x => announcement now x (db.runs.length + j) := by
  rw [(commitRecovery_tables hrows h).2, List.getElem?_append_right (Nat.le_add_right _ _),
    Nat.add_sub_cancel_left, List.getElem?_map, List.getElem?_zipIdx, Option.map_map]
  rfl

/-- Run `r'` is the successor that a recovery of `r` has made: it counts one retry more, at most
three in all, and exactly one message names it, which is to be published later. -/
structure Succeeds (db db' : Db) (now : Time) (r r' : RunId) : Prop where
  fresh : db.runs.length ≤ r'
  counts : ∃ run run', db.runs[r]? = some run ∧ db'.runs[r']? = some run' ∧
    run.retryCount < run'.retryCount ∧ 1 ≤ run'.retryCount ∧ run'.retryCount ≤ 3
  message : ∃ i m, db.outbox.length ≤ i ∧ db'.outbox[i]? = some m ∧ Announces m r r' ∧
    (∃ t, m.notBefore = some t ∧ now < t) ∧
    ∀ i' m', db.outbox.length ≤ i' → db'.outbox[i']? = some m' →
      m'.payload.lookup "run_id" = some (.uuid r') → i' = i

/-- What the recovery needs of the rows it has loaded. -/
structure Faithful (db : Db) (rows : List (RunId × Run)) : Prop where
  nodup : (rows.map Prod.fst).Nodup
  counts : ∀ x ∈ rows, ∃ run, db.runs[x.1]? = some run ∧ run.retryCount = x.2.retryCount

theorem Faithful.there (hf : Faithful db rows) : ∀ x ∈ rows, x.1 < db.runs.length := by
  intro x hx
  obtain ⟨run, hrow, -⟩ := hf.counts x hx
  exact (List.getElem?_eq_some_iff.1 hrow).1

theorem retried_mem {x : RunId × Run} (hx : x ∈ retried rows) : x ∈ rows ∧ x.2.retryCount < 3 := by
  simpa [retried] using hx

/-- A message that was added announces the successor of the row at its position. -/
theorem message_cases (hf : Faithful db rows) (h : db.commitRecovery now rows = .ok db')
    {i : MessageId} {m : OutboxMessage} (hi : db.outbox.length ≤ i)
    (hm : db'.outbox[i]? = some m) : ∃ j x, i = db.outbox.length + j ∧
      (retried rows)[j]? = some x ∧ m = announcement now x (db.runs.length + j) := by
  obtain ⟨j, rfl⟩ := Nat.exists_eq_add_of_le hi
  rw [commitRecovery_message hf.there h] at hm
  obtain ⟨x, hx, rfl⟩ := Option.map_eq_some_iff.1 hm
  exact ⟨j, x, rfl, hx, rfl⟩

/-- The row at position `j` has its successor at position `j`. -/
theorem succeeds_at (hf : Faithful db rows) (h : db.commitRecovery now rows = .ok db')
    {j : Nat} {x : RunId × Run} (hx : (retried rows)[j]? = some x) :
    Succeeds db db' now x.1 (db.runs.length + j) := by
  obtain ⟨hmem, hlt⟩ := retried_mem (List.mem_of_getElem? hx)
  obtain ⟨run, hrow, hcount⟩ := hf.counts x hmem
  have hnew := commitRecovery_run hf.there h j
  have hmsg := commitRecovery_message hf.there h j
  rw [hx] at hnew hmsg
  refine ⟨Nat.le_add_right _ _, ⟨run, _, hrow, hnew, ?_, ?_, ?_⟩, ?_⟩
  · rw [hcount]
    exact Nat.lt_succ_self _
  · exact Nat.succ_pos _
  · exact hlt
  · refine ⟨db.outbox.length + j, _, Nat.le_add_right _ _, hmsg, announcement_announces x _,
      ⟨_, rfl, ?_⟩, ?_⟩
    · have hpos : 0 < Db.backoffSec (x.2.retryCount + 1) :=
        Nat.mul_pos (by decide) (Nat.pow_pos (by decide))
      exact lt_add_of_pos_right now (Int.mul_pos (Int.natCast_pos.2 hpos) (by decide))
    · intro i m hi hm hrun
      obtain ⟨j', x', rfl, -, rfl⟩ := message_cases hf h hi hm
      have hidx : db.runs.length + j' = db.runs.length + j :=
        Text.uuid.inj (Json.text.inj (Option.some.inj hrun))
      rw [Nat.add_left_cancel hidx]

/-- **Every run that a recovery creates** is the successor of a loaded row. -/
theorem created_succeeds (hf : Faithful db rows) (h : db.commitRecovery now rows = .ok db')
    (hnew : db.runs.length ≤ r') (hlt : r' < db'.runs.length) :
    ∃ x ∈ rows, Succeeds db db' now x.1 r' := by
  obtain ⟨j, rfl⟩ := Nat.exists_eq_add_of_le hnew
  have hrow := commitRecovery_run hf.there h j
  rw [List.getElem?_eq_getElem hlt] at hrow
  obtain ⟨x, hx, -⟩ := Option.map_eq_some_iff.1 hrow.symm
  exact ⟨x, (retried_mem (List.mem_of_getElem? hx)).1, succeeds_at hf h hx⟩

/-- Who succeeds a run is found at the run's position. -/
theorem Succeeds.position (hf : Faithful db rows) (h : db.commitRecovery now rows = .ok db')
    (hs : Succeeds db db' now r r') : ∃ j x, r' = db.runs.length + j ∧
      (retried rows)[j]? = some x ∧ x.1 = r := by
  obtain ⟨i, m, hi, hm, hann, -⟩ := hs.message
  obtain ⟨j, x, rfl, hx, rfl⟩ := message_cases hf h hi hm
  obtain ⟨hof, hrun⟩ := hann.inj (announcement_announces x _)
  exact ⟨j, x, hrun, hx, hof.symm⟩

/-- **A row with retries left** gets exactly one successor. -/
theorem retried_succeeds (hf : Faithful db rows) (h : db.commitRecovery now rows = .ok db')
    {x : RunId × Run} (hx : x ∈ rows) (hlt : x.2.retryCount < 3) :
    ∃! r', Succeeds db db' now x.1 r' := by
  have hmem : x ∈ retried rows := by simpa [retried, hx] using hlt
  obtain ⟨j, hj⟩ := List.getElem?_of_mem hmem
  refine ⟨_, succeeds_at hf h hj, ?_⟩
  intro r' hs
  obtain ⟨j', x', rfl, hj', hid⟩ := hs.position hf h
  have hnodup : ((retried rows).map Prod.fst).Nodup :=
    hf.nodup.sublist (List.filter_sublist.map Prod.fst)
  have hlt' : j' < ((retried rows).map Prod.fst).length := by
    rw [List.length_map]
    exact (List.getElem?_eq_some_iff.1 hj').1
  have hsame : ((retried rows).map Prod.fst)[j']? = ((retried rows).map Prod.fst)[j]? := by
    rw [List.getElem?_map, List.getElem?_map, hj, hj']
    exact congrArg some hid
  rw [(List.getElem?_inj hlt' hnodup).1 hsame]

/-- **A row without retries left** gets none. -/
theorem exhausted_succeeds (hf : Faithful db rows) (h : db.commitRecovery now rows = .ok db')
    {x : RunId × Run} (hx : x ∈ rows) (hge : 3 ≤ x.2.retryCount) (r' : RunId) :
    ¬Succeeds db db' now x.1 r' := by
  intro hs
  obtain ⟨j, y, -, hy, hid⟩ := hs.position hf h
  obtain ⟨hmem, hlt⟩ := retried_mem (List.mem_of_getElem? hy)
  have heq : y = x := by
    have hinj := List.inj_on_of_nodup_map hf.nodup
    exact hinj hmem hx hid
  rw [heq] at hlt
  omega

end transaction

/-! ## A pass of the scheduler -/

/-- How far a process is with its recovery. -/
inductive Pass where
  /-- it is no pass of the scheduler -/
  | idle
  /-- nothing loaded yet, only the clock read -/
  | before (clock : Option Time)
  /-- `owed`: the last row picked has run out of retries, and its entry is still to be written -/
  | judging (cutoff : Time) (todo picked : List (RunId × Run)) (owed : Bool)
  | after

namespace Pass

def isIdle : Pass → Bool
  | idle => true
  | _ => false

def allows : Pass → Op → Prop
  | idle, _ => True
  | judging _ _ picked true, o => ∃ r run, picked.getLast? = some (r, run) ∧
    o = .redis (.publishToDlq [("run_id", .uuid r), ("task_id", .uuid run.taskId),
      ("retry_of", .uuid r)] "max_retries_exceeded")
  | judging _ (_ :: _) _ false, o => o = .ext .utcnow
  | judging _ [] picked false, o => o = .db (.commitRecovery picked)
  | before _, .db (.commitRecovery _) | before _, .redis (.publishToDlq ..) => False
  | after, .db (.commitRecovery _) | after, .redis (.publishToDlq ..) => False
  | _, _ => True

def next : Pass → (o : Op) → Sys.Result o → Pass
  | before _, .ext .utcnow, .ok now => before (some now)
  | before (some now), .db .selectExecuting, .ok rows =>
    judging (now - Db.stuckThreshold) rows [] false
  | judging cutoff ((r, run) :: todo) picked false, .ext .utcnow, .ok now =>
    if Db.stuck cutoff now run then
      judging cutoff todo (picked ++ [(r, run)]) (decide (run.retryCount + 1 > 3))
    else judging cutoff todo picked false
  | judging cutoff todo picked true, .redis (.publishToDlq ..), _ =>
    judging cutoff todo picked false
  | judging .., _, _ => after
  | g, _, _ => g

theorem allows_owed (cutoff : Time) (todo : List (RunId × Run)) {picked : List (RunId × Run)}
    {o : Op} :
    allows (judging cutoff todo picked true) o ↔ ∃ r run, picked.getLast? = some (r, run) ∧
      o = .redis (.publishToDlq [("run_id", .uuid r), ("task_id", .uuid run.taskId),
        ("retry_of", .uuid r)] "max_retries_exceeded") := by
  cases todo <;> rfl

theorem next_owed {cutoff : Time} {todo picked : List (RunId × Run)} {payload : Dict}
    {reason : String} (res : Except LibError Unit) :
    next (judging cutoff todo picked true) (.redis (.publishToDlq payload reason)) res =
      judging cutoff todo picked false := by
  cases todo <;> rfl

/-- The order of a pass: every row that was loaded is judged, one that has run out of retries is
written to the DLQ before the next is judged, and the rows found stuck are committed. -/
def protocol : Protocol Sys Pass := ⟨allows, next⟩

/-- Where a request starts. -/
def start : Req → Pass
  | .checkSources => before none
  | _ => idle

end Pass

section conforms

variable {clock : Option Time} {cutoff now : Time}

theorem idle_conforms {α : Type} (p : Proc α) : p.wp Pass.protocol (fun _ _ => True) .idle := by
  induction p with
  | ret a => trivial
  | raise x => trivial
  | op o k ih => exact ⟨trivial, ih⟩

theorem publishAll_before (msgs : List (MessageId × OutboxMessage)) :
    (SchedulerLoop.publishAll now msgs).wp Pass.protocol
      (Ends (fun _ g => g = .before clock) fun _ => True) (.before clock) := by
  induction msgs with
  | nil => exact rfl
  | cons x msgs ih =>
    obtain ⟨i, m⟩ := x
    rw [SchedulerLoop.publishAll]
    split
    · simp only [bind_eq, pure_eq]
      refine Ends.bind (P := fun _ g => g = .before clock) ?_ ?_
      · refine Ends.attempt trivial ?_ ?_
        · exact fun _ => rfl
        · exact fun _ => rfl
      · rintro att g rfl
        refine Ends.bind ih ?_
        rintro atts g rfl
        exact rfl
    · exact ih

theorem publishOutbox_before :
    SchedulerLoop.publishOutbox.wp Pass.protocol
      (Ends (fun _ g => ∃ clock, g = .before clock) fun _ => True) (.before clock) := by
  simp only [SchedulerLoop.publishOutbox, bind_eq, Proc.ext, Proc.db]
  refine Ends.call trivial (fun now => ?_) fun _ => trivial
  refine Ends.call trivial (fun msgs => ?_) fun _ => trivial
  have hpublish := @publishAll_before (some now) now msgs
  refine Ends.bind hpublish ?_
  rintro atts g rfl
  split
  · exact wp_call.2 ⟨trivial, fun _ => ⟨_, rfl⟩, fun _ => trivial⟩
  · exact ⟨_, rfl⟩

/-- All rows are judged, and no entry is owed at the end. -/
theorem selectStuck_judging (rows picked : List (RunId × Run)) :
    (SchedulerLoop.selectStuck cutoff rows).wp Pass.protocol
      (Ends (fun found g => g = .judging cutoff [] (picked ++ found) false) fun _ => True)
      (.judging cutoff rows picked false) := by
  induction rows generalizing picked with
  | nil =>
    rw [SchedulerLoop.selectStuck]
    show _ = _
    rw [List.append_nil]
  | cons x rows ih =>
    obtain ⟨r, run⟩ := x
    have hpicked : (do
        let found ← SchedulerLoop.selectStuck cutoff rows
        return (r, run) :: found : Proc (List (RunId × Run))).wp Pass.protocol
          (Ends (fun found g => g = .judging cutoff [] (picked ++ found) false) fun _ => True)
          (.judging cutoff rows (picked ++ [(r, run)]) false) := by
      refine Ends.bind (ih _) ?_
      rintro found g rfl
      show _ = _
      rw [List.append_assoc]
      rfl
    simp only [SchedulerLoop.selectStuck, bind_eq, Proc.ext]
    refine Ends.call rfl (fun now => ?_) fun _ => trivial
    by_cases hstuck : Db.stuck cutoff now run = true
    · simp only [if_pos hstuck, Pass.protocol, Pass.next]
      by_cases hretry : run.retryCount + 1 > 3
      · simp only [hretry, decide_true]
        refine Ends.bind (P := fun _ g => g = .judging cutoff rows (picked ++ [(r, run)]) false)
          ?_ ?_
        · have howed : (Pass.judging cutoff rows (picked ++ [(r, run)]) true).allows _ :=
            (Pass.allows_owed cutoff rows).2 ⟨r, run, List.getLast?_concat, rfl⟩
          refine wp_swallow.2 (wp_call.2 ⟨howed, ?_, ?_⟩)
          · exact fun u => Pass.next_owed (.ok u)
          · exact fun x => Pass.next_owed (.error x)
        · rintro u g rfl
          exact hpicked
      · simp only [hretry, decide_false]
        exact hpicked
    · simp only [if_neg hstuck, Pass.protocol, Pass.next]
      exact ih picked

theorem judge_after (i : SourceId) (src : Source) :
    (SchedulerLoop.judge i src).wp Pass.protocol (Ends (fun _ g => g = .after) fun _ => True)
      .after := by
  simp only [SchedulerLoop.judge, bind_eq, Proc.ext, Proc.db]
  refine Ends.call trivial (fun now => ?_) fun _ => trivial
  split
  · exact rfl
  refine Ends.call trivial (fun now => ?_) fun _ => trivial
  split
  · refine Ends.call trivial (fun hour => ?_) fun _ => trivial
    refine Ends.call trivial (fun found => ?_) fun _ => trivial
    exact Ends.call trivial (fun now => rfl) fun _ => trivial
  · exact rfl

/-- What follows a recovery judges no run and writes to no DLQ. -/
theorem pollSources_after : SchedulerLoop.pollSources.wp Pass.protocol
    (Ends (fun _ _ => True) fun _ => True) .after := by
  have hselect : ∀ sources, (SchedulerLoop.selectDue sources).wp Pass.protocol
      (Ends (fun _ g => g = .after) fun _ => True) .after := by
    intro sources
    induction sources with
    | nil => exact rfl
    | cons x sources ih =>
      obtain ⟨i, src⟩ := x
      simp only [SchedulerLoop.selectDue, bind_eq]
      refine Ends.bind (judge_after i src) ?_
      rintro found g rfl
      cases found with
      | none => exact ih
      | some a =>
        refine Ends.bind ih ?_
        rintro accesses g rfl
        exact rfl
  simp only [SchedulerLoop.pollSources, bind_eq, Proc.db]
  refine Ends.call trivial (fun sources => ?_) fun _ => trivial
  refine Ends.bind (hselect sources) ?_
  rintro accesses g rfl
  exact wp_call.2 ⟨trivial, fun _ => trivial, fun _ => trivial⟩

/-- **The scheduler keeps to the order of a pass.** -/
theorem checkSources_conforms : SchedulerLoop.checkSources.wp Pass.protocol (fun _ _ => True)
    (.before none) := by
  have hends : SchedulerLoop.checkSources.wp Pass.protocol (Ends (fun _ _ => True) fun _ => True)
      (.before none) := by
    simp only [SchedulerLoop.checkSources, bind_eq]
    refine Ends.bind publishOutbox_before ?_
    rintro u g ⟨clock, rfl⟩
    refine Ends.bind (P := fun _ g => g = .after) ?_ ?_
    · simp only [SchedulerLoop.recoverStuckRuns, bind_eq, Proc.ext, Proc.db]
      refine Ends.call trivial (fun now => ?_) fun _ => trivial
      refine Ends.call trivial (fun rows => ?_) fun _ => trivial
      refine Ends.bind (selectStuck_judging rows []) ?_
      rintro found g rfl
      exact wp_call.2 ⟨rfl, fun _ => rfl, fun _ => trivial⟩
    · rintro u g rfl
      exact pollSources_after
  exact wp_mono (fun _ _ _ => trivial) hends

theorem program_keeps (cfg : Settings) (q : Req) :
    (q.program cfg).wp Pass.protocol (fun _ _ => True) (Pass.start q) := by
  cases q with
  | checkSources => exact checkSources_conforms
  | _ => exact idle_conforms _

end conforms

/-! ### One step of a pass -/

/-- What a pass can do. -/
inductive Advance : Pass → (o : Op) → Sys.Result o → Pass → Prop where
  | idle {o : Op} {res : Sys.Result o} : Advance .idle o res .idle
  | early {clock clock' : Option Time} {o : Op} {res : Sys.Result o}
      (quiet : ∀ payload reason, o ≠ .redis (.publishToDlq payload reason)) :
      Advance (.before clock) o res (.before clock')
  | loaded {now : Time} {rows : List (RunId × Run)} :
      Advance (.before (some now)) (.db .selectExecuting) (.ok rows)
        (.judging (now - Db.stuckThreshold) rows [] false)
  | passed {cutoff now : Time} {x : RunId × Run} {todo picked : List (RunId × Run)} :
      Advance (.judging cutoff (x :: todo) picked false) (.ext .utcnow) (.ok now)
        (.judging cutoff todo picked false)
  | picked {cutoff now : Time} {x : RunId × Run} {todo picked : List (RunId × Run)} :
      Advance (.judging cutoff (x :: todo) picked false) (.ext .utcnow) (.ok now)
        (.judging cutoff todo (picked ++ [x]) (decide (x.2.retryCount + 1 > 3)))
  | written {cutoff : Time} {r : RunId} {run : Run} {todo picked : List (RunId × Run)}
      {res : Except LibError Unit} (last : picked.getLast? = some (r, run)) :
      Advance (.judging cutoff todo picked true)
        (.redis (.publishToDlq [("run_id", .uuid r), ("task_id", .uuid run.taskId),
          ("retry_of", .uuid r)] "max_retries_exceeded")) res (.judging cutoff todo picked false)
  | finished {g : Pass} {o : Op} {res : Sys.Result o} (busy : g.isIdle = false) :
      Advance g o res .after

theorem advance_of_allows {g : Pass} {o : Op} {res : Sys.Result o} (h : g.allows o) :
    Advance g o res (g.next o res) := by
  cases g with
  | idle => exact .idle
  | after => exact .finished rfl
  | before clock =>
    cases o with
    | db o =>
      cases o with
      | commitRecovery rows => exact h.elim
      | selectExecuting =>
        cases clock with
        | none => exact .early (by simp)
        | some now =>
          rcases res with x | rows
          · exact .early (by simp)
          · exact .loaded
      | _ => exact .early (by simp)
    | redis o =>
      cases o with
      | publishToDlq payload reason => exact h.elim
      | _ => exact .early (by simp)
    | ext o =>
      cases o with
      | utcnow =>
        rcases res with x | now
        · exact .early (by simp)
        · exact .early (by simp)
      | _ => exact .early (by simp)
  | judging cutoff todo picked owed =>
    cases owed with
    | true =>
      obtain ⟨r, run, hlast, rfl⟩ := (Pass.allows_owed cutoff todo).1 h
      rw [Pass.next_owed]
      exact .written hlast
    | false =>
      cases todo with
      | nil =>
        obtain rfl : o = _ := h
        exact .finished rfl
      | cons x todo =>
        obtain rfl : o = _ := h
        rcases res with y | now
        · exact .finished rfl
        · rw [Pass.next]
          split
          · exact .picked
          · exact .passed

/-! ### The scheduler's requests -/

/-- The stages of a scheduler. -/
def schedules : Stage → Bool
  | .scheduling | .sweeping _ | .publishing .. | .watching _ | .recovering .. | .polling => true
  | _ => false

section passes

variable {cfg : Settings} {h : History cfg} {w : World} {e : Event cfg} {p p' : Pid}

/-- How far process `p` is with its recovery. -/
abbrev passOf (h : History cfg) (p : Pid) : Option Pass :=
  phase (M := system cfg) Pass.protocol Pass.start h p

/-- An event that is possible for the passes. -/
abbrev Timely (h : History cfg) (w : World) : Event cfg → Prop :=
  Legal (M := system cfg) Pass.protocol Pass.start h w

/-- One scheduler, whose Redis takes every entry of the DLQ. -/
def Supervised (h : History cfg) (e : Event cfg) : Prop :=
  match e.act with
  | .started _ .checkSources _ => ∀ p g, passOf h p = some g → g.isIdle = true
  | .did _ (.redis (.publishToDlq ..)) res _ => res.toBool = true
  | _ => True

/-- How process `p` came to be where it is with its recovery. -/
inductive Went (h : History cfg) (e : Event cfg) (p : Pid) (g' : Pass) : Prop where
  | kept (running : passOf h p = some g') (other : e.act.pid? ≠ some p)
  | started (q : Req) (act : e.act = .started p q true) (start : g' = Pass.start q)
  | did {o : Op} {res : Sys.Result o} {g : Pass} (act : e.act = .did p o res true)
      (running : passOf h p = some g) (step : Advance g o res g')

theorem Timely.went {g' : Pass} (ht : Timely h w e) (hg : passOf (e :: h) p = some g') :
    Went h e p g' := by
  cases ht.moved hg with
  | kept running other => exact .kept running other
  | started q act phase => exact .started q act phase
  | did act running allowed phase =>
    subst phase
    exact .did act running (advance_of_allows allowed)

/-- The stages of a scheduler are reached from its request only. -/
structure Requested (h : History cfg) : Prop where
  schedules : ∀ p g, phaseOf cfg h p = some g → schedules g.stage = true →
    request h p = some .checkSources
  idle : ∀ p, passOf h p = some .idle → request h p ≠ some .checkSources

theorem schedules_step {g g' : Phase} {o : Op} {res : Sys.Result o}
    (step : Flow.Step cfg g o res g') (hs : schedules g'.stage = true) :
    schedules g.stage = true := by
  cases step with
  | sweeping h₀ => rw [h₀]; rfl
  | selected h₀ => rw [h₀]; rfl
  | published h₀ => rw [h₀]; rfl
  | unpublished h₀ => rw [h₀]; rfl
  | swept h₀ => rw [h₀]; rfl
  | watching h₀ => rw [h₀]; rfl
  | loaded h₀ => rw [h₀]; rfl
  | judged h₀ => rw [h₀]; rfl
  | dlq h₀ => exact hs
  | recovered h₀ => rw [h₀]; rfl
  | operated h₀ => exact hs
  | logged h₀ => exact hs
  | _ => cases hs

theorem request_kept (other : e.act.pid? ≠ some p) : request (e :: h) p = request h p := by
  refine request_other fun q stays act => ?_
  rw [act] at other
  exact other rfl

theorem request_did {o : Op} {res : Sys.Result o} {stays : Bool}
    (act : e.act = .did p' o res stays) : request (e :: h) p = request h p := by
  refine request_other fun q stays' act' => ?_
  cases act.symm.trans act'

theorem Requested.step (hr : Requested h) (hl : Lawful cfg h w e) (ht : Timely h w e) :
    Requested (e :: h) := by
  constructor
  · intro p g hg hs
    cases hl.became hg with
    | kept running other =>
      rw [request_kept other]
      exact hr.schedules p g running hs
    | started q act phase =>
      subst phase
      rw [request_started act]
      cases q <;> first | rfl | cases hs
    | did act running step =>
      rw [request_did act]
      exact hr.schedules p _ running (schedules_step step hs)
  · intro p hg
    cases ht.went hg with
    | kept running other =>
      rw [request_kept other]
      exact hr.idle p running
    | started q act start =>
      rw [request_started act]
      rintro ⟨⟩
      cases start
    | did act running step =>
      rw [request_did act]
      cases step
      exact hr.idle p running

/-- Whoever commits a recovery has judged its rows. -/
theorem Requested.commits {rows : List (RunId × Run)} {res : Except LibError Unit} {stays : Bool}
    (hr : Requested h) (hl : Lawful cfg h w e) (ht : Timely h w e)
    (act : e.act = .did p (.db (.commitRecovery rows)) res stays) :
    ∃ cutoff, passOf h p = some (.judging cutoff [] rows false) := by
  obtain ⟨g, hg, allowed⟩ := hl.did act
  have hreq : request h p = some .checkSources := by
    obtain ⟨cutoff, hs⟩ : ∃ cutoff, g.stage = .recovering cutoff [] rows := allowed
    exact hr.schedules p g hg (by rw [hs]; rfl)
  cases ht with
  | @did p o g ch stays running allowed =>
    cases act
    cases g with
    | idle => exact absurd hreq (hr.idle p running)
    | before clock => exact allowed.elim
    | after => exact allowed.elim
    | judging cutoff todo picked owed =>
      cases owed with
      | true =>
        obtain ⟨r, run, -, ho⟩ := (Pass.allows_owed cutoff todo).1 allowed
        cases ho
      | false =>
        cases todo with
        | nil =>
          cases allowed
          exact ⟨cutoff, running⟩
        | cons x todo => cases allowed
  | _ => cases act

/-! ### One pass at a time -/

theorem not_idle_before {g : Pass} (ht : Timely h w e) (hg : passOf (e :: h) p = some g)
    (hbusy : g.isIdle = false) :
    (∃ g₀, passOf h p = some g₀ ∧ g₀.isIdle = false) ∨
      e.act = .started p .checkSources true := by
  cases ht.went hg with
  | kept running other =>
    exact .inl ⟨g, running, hbusy⟩
  | started q act start =>
    subst start
    right
    cases q <;> first | exact act | cases hbusy
  | did act running step =>
    refine .inl ⟨_, running, ?_⟩
    cases step <;> first | rfl | assumption

/-- At most one pass at a time. -/
def SolePass (h : History cfg) : Prop :=
  ∀ p p' g g', passOf h p = some g → passOf h p' = some g' → g.isIdle = false →
    g'.isIdle = false → p = p'

theorem SolePass.step (hs : SolePass h) (ht : Timely h w e) (hK : Supervised h e) :
    SolePass (e :: h) := by
  have halone : ∀ {p}, e.act = .started p .checkSources true → ∀ p' g, passOf h p' = some g →
      g.isIdle = true := by
    intro p act
    simpa [Supervised, act] using hK
  intro p p' g g' hg hg' hbusy hbusy'
  rcases not_idle_before ht hg hbusy with ⟨g₀, hg₀, hb⟩ | act
  · rcases not_idle_before ht hg' hbusy' with ⟨g₁, hg₁, hb'⟩ | act'
    · exact hs p p' g₀ g₁ hg₀ hg₁ hb hb'
    · rw [halone act' p g₀ hg₀] at hb
      cases hb
  · rcases not_idle_before ht hg' hbusy' with ⟨g₁, hg₁, hb'⟩ | act'
    · rw [halone act p' g₁ hg₁] at hb'
      cases hb'
    · cases act.symm.trans act'
      rfl

/-! ### The entries of a pass -/

/-- The run an entry of the DLQ names. -/
def namedRun (payload : Dict) : Option RunId :=
  match payload.lookup "run_id" with
  | some (.text (.uuid r)) => some r
  | _ => none

/-- The runs of the entries that an event has added to the DLQ. -/
def buried (e : Event cfg) : List RunId :=
  (e.after.redis.dlq.drop e.before.redis.dlq.length).filterMap fun x => namedRun x.1

/-- The runs of the entries that process `p` has added since it was started. -/
def entries (h : History cfg) (p : Pid) : List RunId := (course h p).flatMap buried

theorem entries_did {o : Op} {res : Sys.Result o} {stays : Bool}
    (act : e.act = .did p o res stays) : entries (e :: h) p = buried e ++ entries h p := by
  rw [entries, course_did act, List.flatMap_cons, entries]

theorem entries_other (other : e.act.pid? ≠ some p) : entries (e :: h) p = entries h p := by
  rw [entries, course_of_other other, entries]

theorem buried_same (hdlq : e.after.redis.dlq = e.before.redis.dlq) : buried e = [] := by
  rw [buried, hdlq, List.drop_length, List.filterMap_nil]

/-- Only one operation writes the DLQ. -/
theorem buried_quiet {o : Op} {res : Sys.Result o} {stays : Bool} (hl : Lawful cfg h w e)
    (act : e.act = .did p o res stays)
    (quiet : ∀ payload reason, o ≠ .redis (.publishToDlq payload reason)) : buried e = [] := by
  refine buried_same ?_
  cases hl.happens with
  | db => simp
  | ext o ch =>
    cases act
    cases o <;> simp [World.exec]
  | failed => simp
  | redis o trim =>
    cases act
    cases o with
    | publishToDlq payload reason => exact absurd rfl (quiet payload reason)
    | readGroup =>
      simp only [RedisOp.exec, Redis.readGroup, World.settled_redis]
      split <;> rfl
    | claimPending =>
      simp only [RedisOp.exec, Redis.claimPending, World.settled_redis]
      split <;> rfl
    | rpopLegacy =>
      simp only [RedisOp.exec, Redis.rpopLegacy, World.settled_redis]
      split <;> rfl
    | ack entry => simp [RedisOp.exec, Redis.ack]
    | publishToStream payload key => simp [RedisOp.exec, Redis.publishToStream]
  | _ => cases act

theorem buried_written {payload : Dict} {reason : String} {u : Unit} {stays : Bool} {r : RunId}
    (hl : Lawful cfg h w e)
    (act : e.act = .did p (.redis (.publishToDlq payload reason)) (.ok u) stays)
    (hname : namedRun payload = some r) : buried e = [r] := by
  cases hl.happens with
  | redis o trim =>
    cases act
    simp [buried, RedisOp.exec, Redis.publishToDlq, hname]
  | _ => cases act

/-- What is known of a pass that judges its rows: the rows are as they were, and every row picked
that has run out of retries has its entry, but for the last if its entry is owed. -/
structure Judges (h : History cfg) (w : World) (p : Pid) (todo picked : List (RunId × Run))
    (owed : Bool) : Prop where
  rows : Faithful w.db (picked ++ todo)
  owes : owed = true → ∃ settled x, picked = settled ++ [x] ∧ 3 ≤ x.2.retryCount
  entries : entries h p =
    ((exhausted (if owed then picked.dropLast else picked)).map Prod.fst).reverse

structure Accounted (h : History cfg) (w : World) : Prop where
  requested : Requested h
  sole : SolePass h
  early : ∀ p clock, passOf h p = some (.before clock) → entries h p = []
  judges : ∀ p cutoff todo picked owed, passOf h p = some (.judging cutoff todo picked owed) →
    Judges h w p todo picked owed

/-- A recovery is the only one to write the retry counts. -/
theorem retryCount_kept {r : RunId} {run : Run} (hs : Sound h w) (hl : Lawful cfg h w e)
    (hnot : ∀ p rows res stays, e.act ≠ .did p (.db (.commitRecovery rows)) res stays)
    (hrow : w.db.runs[r]? = some run) :
    ∃ run', e.after.db.runs[r]? = some run' ∧ run'.retryCount = run.retryCount := by
  obtain ⟨run', hrow'⟩ := hl.run_kept hs hrow
  refine ⟨run', hrow', ?_⟩
  cases hl.run hs hrow' with
  | same row =>
    cases hrow.symm.trans row
    rfl
  | beaten hb hr act row hrun =>
    cases hrow.symm.trans row
    subst hrun
    unfold Db.beaten
    split <;> rfl
  | fresh running allowed act row hf =>
    rw [hrow] at row
    cases row
  | write running allowed act row hw =>
    cases hrow.symm.trans row
    cases hw with
    | recovered hr hrec => exact absurd act (hnot _ _ _ _)
    | approved =>
      unfold ApprovalService.requeued
      split <;> rfl
    | rejected =>
      unfold ApprovalService.rejected
      split <;> rfl
    | controlled =>
      unfold Db.controlled
      split <;> rfl
    | _ => rfl

theorem Faithful.kept {rows : List (RunId × Run)} (hf : Faithful w.db rows) (hs : Sound h w)
    (hl : Lawful cfg h w e)
    (hnot : ∀ p rows res stays, e.act ≠ .did p (.db (.commitRecovery rows)) res stays) :
    Faithful e.after.db rows := by
  refine ⟨hf.nodup, fun x hx => ?_⟩
  obtain ⟨run, hrow, hcount⟩ := hf.counts x hx
  obtain ⟨run', hrow', hcount'⟩ := retryCount_kept hs hl hnot hrow
  exact ⟨run', hrow', hcount'.trans hcount⟩

theorem Faithful.sublist {db : Db} {rows rows' : List (RunId × Run)} (hf : Faithful db rows)
    (hsub : rows'.Sublist rows) : Faithful db rows' :=
  ⟨hf.nodup.sublist (hsub.map Prod.fst), fun x hx => hf.counts x (hsub.subset hx)⟩

/-- The rows as they are loaded. -/
theorem selectExecuting_faithful (db : Db) : Faithful db db.selectExecuting := by
  constructor
  · have hindex : db.runs.zipIdx.Pairwise fun x y => x.2 < y.2 := by
      have hmap : (db.runs.zipIdx.map Prod.snd).Pairwise (· < ·) := by
        rw [List.zipIdx_map_snd]
        exact List.pairwise_lt_range'
      exact List.pairwise_map.1 hmap
    refine List.pairwise_map.2 (List.pairwise_filterMap.2 (hindex.imp ?_))
    rintro ⟨run, i⟩ ⟨run', i'⟩ hlt x hx x' hx'
    obtain ⟨-, rfl⟩ : run.status = .executing ∧ (i, run) = x := by simpa using hx
    obtain ⟨-, rfl⟩ : run'.status = .executing ∧ (i', run') = x' := by simpa using hx'
    exact hlt.ne
  · intro x hx
    exact ⟨x.2, (selectExecuting_mem hx).1, rfl⟩

theorem exhausted_concat (rows : List (RunId × Run)) (x : RunId × Run) :
    exhausted (rows ++ [x]) = exhausted rows ++ if 3 ≤ x.2.retryCount then [x] else [] := by
  unfold exhausted
  rw [List.filter_append]
  split <;> simp [*]

/-- While a pass judges its rows, nobody commits a recovery. -/
theorem Accounted.no_commit (ha : Accounted h w) (hl : Lawful cfg h w e) (ht : Timely h w e)
    {cutoff : Time} {todo picked : List (RunId × Run)} {owed : Bool}
    (hg : passOf (e :: h) p = some (.judging cutoff todo picked owed)) (p' : Pid)
    (rows : List (RunId × Run)) (res : Except LibError Unit) (stays : Bool) :
    e.act ≠ .did p' (.db (.commitRecovery rows)) res stays := by
  intro act
  obtain ⟨cutoff', hg'⟩ := ha.requested.commits hl ht act
  cases ht.went hg with
  | kept running other =>
    obtain rfl := ha.sole p p' _ _ running hg' rfl rfl
    rw [act] at other
    exact other rfl
  | started q act' start => cases act.symm.trans act'
  | did act' running step =>
    cases act.symm.trans act'
    cases step

theorem Accounted.judges_step (ha : Accounted h w) (hs : Sound h w) (hl : Lawful cfg h w e)
    (ht : Timely h w e) (hK : Supervised h e) {cutoff : Time} {todo picked : List (RunId × Run)}
    {owed : Bool} (hg : passOf (e :: h) p = some (.judging cutoff todo picked owed)) :
    Judges (e :: h) e.after p todo picked owed := by
  have hnot := ha.no_commit hl ht hg
  cases ht.went hg with
  | kept running other =>
    obtain ⟨hrows, howes, hentries⟩ := ha.judges p _ _ _ _ running
    exact ⟨hrows.kept hs hl hnot, howes, by rw [entries_other other, hentries]⟩
  | started q act start => cases q <;> cases start
  | did act running step =>
    cases step with
    | loaded =>
      have hquiet := buried_quiet hl act (by simp)
      obtain rfl : w.db.selectExecuting = todo :=
        Except.ok.inj (congrArg Prod.snd (hl.committed_of_ok act))
      refine ⟨?_, by simp, ?_⟩
      · exact (selectExecuting_faithful w.db).kept hs hl hnot
      · rw [entries_did act, hquiet, ha.early p _ running]
        rfl
    | @passed cutoff now x todo picked =>
      obtain ⟨hrows, howes, hentries⟩ := ha.judges p _ _ _ _ running
      have hquiet := buried_quiet hl act (by simp)
      refine ⟨?_, howes, ?_⟩
      · have hsub : (picked ++ todo).Sublist (picked ++ x :: todo) :=
          (List.sublist_cons_self x todo).append_left picked
        exact (hrows.sublist hsub).kept hs hl hnot
      · rw [entries_did act, hquiet, hentries]
        rfl
    | @picked cutoff now x todo picked =>
      obtain ⟨hrows, howes, hentries⟩ := ha.judges p _ _ _ _ running
      have hquiet := buried_quiet hl act (by simp)
      have hentries' : entries (e :: h) p = ((exhausted picked).map Prod.fst).reverse := by
        rw [entries_did act, hquiet, hentries]
        rfl
      refine ⟨?_, ?_, ?_⟩
      · rw [List.append_assoc]
        exact hrows.kept hs hl hnot
      · intro howed
        exact ⟨picked, x, rfl, Nat.lt_succ_iff.1 (of_decide_eq_true howed)⟩
      · rw [hentries']
        by_cases hretry : x.2.retryCount + 1 > 3
        · rw [if_pos (decide_eq_true hretry), List.dropLast_concat]
        · have hlt : ¬3 ≤ x.2.retryCount := fun hge => hretry (Nat.lt_succ_of_le hge)
          rw [if_neg (by simpa using hretry), exhausted_concat, if_neg hlt, List.append_nil]
    | @written cutoff r run todo picked res last =>
      obtain ⟨hrows, howes, hentries⟩ := ha.judges p _ _ _ _ running
      obtain ⟨settled, x, rfl, hge⟩ := howes rfl
      obtain rfl : x = (r, run) := Option.some.inj (List.getLast?_concat.symm.trans last)
      have hok : res.toBool = true := by simpa [Supervised, act] using hK
      rcases res with y | u
      · cases hok
      have hburied : buried e = [r] := buried_written hl act rfl
      refine ⟨hrows.kept hs hl hnot, by simp, ?_⟩
      rw [entries_did act, hburied, hentries, if_pos rfl, List.dropLast_concat,
        if_neg Bool.false_ne_true, exhausted_concat, if_pos hge, List.map_append,
        List.reverse_append]
      rfl

theorem Accounted.early_step (ha : Accounted h w) (hl : Lawful cfg h w e) (ht : Timely h w e)
    {clock : Option Time} (hg : passOf (e :: h) p = some (.before clock)) :
    entries (e :: h) p = [] := by
  cases ht.went hg with
  | kept running other => rw [entries_other other, ha.early p _ running]
  | started q act start =>
    rw [entries, course_started act]
    rfl
  | did act running step =>
    cases step with
    | early quiet => rw [entries_did act, buried_quiet hl act quiet, ha.early p _ running]; rfl

/-- **The accounts are kept.** -/
theorem Accounted.step (ha : Accounted h w) (hs : Sound h w) (hl : Lawful cfg h w e)
    (ht : Timely h w e) (hK : Supervised h e) : Accounted (e :: h) e.after where
  requested := ha.requested.step hl ht
  sole := ha.sole.step ht hK
  early _ _ hg := ha.early_step hl ht hg
  judges _ _ _ _ _ hg := ha.judges_step hs hl ht hK hg

theorem Accounted.initial (w : World) : Accounted ([] : History cfg) w where
  requested := by
    constructor
    · rintro p g ⟨⟩
    · rintro p ⟨⟩
  sole := by rintro p p' g g' ⟨⟩
  early := by rintro p clock ⟨⟩
  judges := by rintro p cutoff todo picked owed ⟨⟩

/-! ### Every recovery is accounted for -/

/-- What a recovery that commits `rows` has done. -/
structure Settles (h : History cfg) (e : Event cfg) (p : Pid) (rows : List (RunId × Run)) :
    Prop where
  distinct : (rows.map Prod.fst).Nodup
  created : ∀ r', e.before.db.runs.length ≤ r' → r' < e.after.db.runs.length →
    ∃ r ∈ rows.map Prod.fst, Succeeds e.before.db e.after.db e.before.now r r'
  disposed : ∀ r ∈ rows.map Prod.fst,
    ((∃! r', Succeeds e.before.db e.after.db e.before.now r r') ∧ (entries h p).count r = 0) ∨
      ((∀ r', ¬Succeeds e.before.db e.after.db e.before.now r r') ∧ (entries h p).count r = 1)

/-- Every recovery that commits has disposed of each of its rows in one of the two ways. -/
def Settled (h : History cfg) (e : Event cfg) : Prop :=
  ∀ p rows u stays, e.act = .did p (.db (.commitRecovery rows)) (.ok u) stays → Settles h e p rows

theorem commitRecovery_of_ok {rows : List (RunId × Run)} {u : Unit} {stays : Bool}
    (hl : Lawful cfg h w e) (act : e.act = .did p (.db (.commitRecovery rows)) (.ok u) stays) :
    w.db.commitRecovery w.now rows = .ok e.after.db := by
  have hexec := hl.committed_of_ok act
  cases hcommit : w.db.commitRecovery w.now rows with
  | error x =>
    simp only [DbOp.exec, hcommit, DbOp.orRollback', DbOp.orRollback, Except.map] at hexec
    cases congrArg Prod.snd hexec
  | ok db' =>
    simp only [DbOp.exec, hcommit, DbOp.orRollback', DbOp.orRollback, Except.map] at hexec
    exact congrArg Except.ok (congrArg Prod.fst hexec)

/-- A recovery commits as a whole or not at all. -/
theorem commitRecovery_cases {rows : List (RunId × Run)} {res : Except LibError Unit} {stays : Bool}
    (hl : Lawful cfg h w e) (act : e.act = .did p (.db (.commitRecovery rows)) res stays) :
    e.after.db = w.db ∨ w.db.commitRecovery w.now rows = .ok e.after.db := by
  cases hl.committed with
  | quiet same => exact .inl same
  | beat hb act' => cases act.symm.trans act'
  | transaction o stays' running allowed act' same =>
    obtain ⟨rfl, ho, -, -⟩ := Act.did.inj (act.symm.trans act')
    cases ho
    rw [same]
    cases hcommit : w.db.commitRecovery w.now rows with
    | error x =>
      simp only [DbOp.exec, hcommit, DbOp.orRollback', DbOp.orRollback, Except.map, true_or]
    | ok db' =>
      simp only [DbOp.exec, hcommit, DbOp.orRollback', DbOp.orRollback, Except.map, or_true]

theorem count_exhausted {rows : List (RunId × Run)} (hnodup : (rows.map Prod.fst).Nodup)
    {x : RunId × Run} (hx : x ∈ rows) :
    ((exhausted rows).map Prod.fst).reverse.count x.1 = if 3 ≤ x.2.retryCount then 1 else 0 := by
  have hsub : ((exhausted rows).map Prod.fst).Nodup :=
    hnodup.sublist (List.filter_sublist.map Prod.fst)
  rw [List.count_reverse]
  split
  · next hge =>
    refine List.count_eq_one_of_mem hsub (List.mem_map_of_mem ?_)
    simpa [exhausted, hx] using hge
  · next hlt =>
    refine List.count_eq_zero.2 fun hmem => ?_
    obtain ⟨y, hy, hid⟩ := List.mem_map.1 hmem
    obtain ⟨hmem', hge⟩ : y ∈ rows ∧ 3 ≤ y.2.retryCount := by simpa [exhausted] using hy
    obtain rfl : y = x := List.inj_on_of_nodup_map hnodup hmem' hx hid
    exact hlt hge

theorem Accounted.settled (ha : Accounted h w) (hl : Lawful cfg h w e) (ht : Timely h w e) :
    Settled h e := by
  intro p rows u stays act
  obtain ⟨cutoff, hg⟩ := ha.requested.commits hl ht act
  obtain ⟨hrows, -, hentries⟩ := ha.judges p _ _ _ _ hg
  rw [List.append_nil] at hrows
  have hcommit := commitRecovery_of_ok hl act
  rw [if_neg Bool.false_ne_true] at hentries
  obtain rfl := hl.before
  refine ⟨hrows.nodup, ?_, ?_⟩
  · intro r' hnew hlt
    obtain ⟨x, hx, hsucc⟩ := created_succeeds hrows hcommit hnew hlt
    exact ⟨x.1, List.mem_map_of_mem hx, hsucc⟩
  · intro r hr
    obtain ⟨x, hx, rfl⟩ := List.mem_map.1 hr
    have hcount := count_exhausted hrows.nodup hx
    rw [← hentries] at hcount
    by_cases hge : 3 ≤ x.2.retryCount
    · rw [if_pos hge] at hcount
      exact .inr ⟨exhausted_succeeds hrows hcommit hx hge, hcount⟩
    · rw [if_neg hge] at hcount
      exact .inl ⟨retried_succeeds hrows hcommit hx (Nat.lt_of_not_le hge), hcount⟩

/-! ### Chains -/

/-- A recovery that commits has made `r'` with retry count `k'` from `r` with retry count `k`. -/
def Retries (r r' : RunId) (k k' : Nat) (e : Event cfg) : Prop :=
  (∃ p rows u stays, e.act = .did p (.db (.commitRecovery rows)) (.ok u) stays) ∧
    Succeeds e.before.db e.after.db e.before.now r r' ∧
    (∃ run, e.before.db.runs[r]? = some run ∧ run.retryCount = k) ∧
    ∃ run', e.after.db.runs[r']? = some run' ∧ run'.retryCount = k'

/-- `r'` was made by a recovery of `r`. -/
def Retried (h : History cfg) (r r' : RunId) : Prop :=
  Once (fun _ e => ∃ k k', Retries r r' k k' e) h

theorem Retries.lt {r r' : RunId} {k k' : Nat} (hr : Retries r r' k k' e) :
    k < k' ∧ 1 ≤ k' ∧ k' ≤ 3 := by
  obtain ⟨-, hsucc, ⟨run, hrow, rfl⟩, run', hrow', rfl⟩ := hr
  obtain ⟨run₀, run₁, hrow₀, hrow₁, hcounts⟩ := hsucc.counts
  cases hrow.symm.trans hrow₀
  cases hrow'.symm.trans hrow₁
  exact hcounts

theorem failedRows_counts (now : Time) (rows : List (RunId × Run)) {runs : List Run} {r : RunId}
    {run : Run} (hrow : runs[r]? = some run) :
    ∃ run', (failedRows now rows runs)[r]? = some run' ∧ (run'.retryCount = run.retryCount ∨
      ∃ x ∈ rows, x.1 = r ∧ run'.retryCount = x.2.retryCount + 1) := by
  induction rows generalizing runs run with
  | nil => exact ⟨run, hrow, .inl rfl⟩
  | cons x rows ih =>
    have hmodify := getElem?_modify_of_some (f := Db.recovered now x.2) (i := x.1) hrow
    obtain ⟨run', hrow', hcount⟩ := ih hmodify
    refine ⟨run', hrow', ?_⟩
    rcases hcount with hcount | ⟨y, hy, hid, hcount⟩
    · by_cases hid : x.1 = r
      · rw [if_pos hid] at hcount
        exact .inr ⟨x, List.mem_cons_self, hid, hcount⟩
      · rw [if_neg hid] at hcount
        exact .inl hcount
    · exact .inr ⟨y, List.mem_cons_of_mem x hy, hid, hcount⟩

/-- Retry counts never go down. -/
theorem Accounted.counts_le (ha : Accounted h w) (hs : Sound h w) (hl : Lawful cfg h w e)
    (ht : Timely h w e) {r : RunId} {run : Run} (hrow : w.db.runs[r]? = some run) :
    ∃ run', e.after.db.runs[r]? = some run' ∧ run.retryCount ≤ run'.retryCount := by
  by_cases hcommits : ∃ p rows res stays, e.act = .did p (.db (.commitRecovery rows)) res stays
  swap
  · obtain ⟨run', hrow', hcount⟩ := retryCount_kept hs hl (fun p rows res stays act =>
      hcommits ⟨p, rows, res, stays, act⟩) hrow
    exact ⟨run', hrow', hcount.ge⟩
  obtain ⟨p, rows, res, stays, act⟩ := hcommits
  obtain ⟨cutoff, hg⟩ := ha.requested.commits hl ht act
  obtain ⟨hrows, -, -⟩ := ha.judges p _ _ _ _ hg
  rw [List.append_nil] at hrows
  rcases commitRecovery_cases hl act with hsame | hcommit
  · exact ⟨run, by rw [hsame, hrow], le_rfl⟩
  have htables := (commitRecovery_tables hrows.there hcommit).1
  obtain ⟨run', hrow', hcount⟩ := failedRows_counts w.now rows hrow
  refine ⟨run', ?_, ?_⟩
  · rw [htables, List.getElem?_append_left (List.getElem?_eq_some_iff.1 hrow').1]
    exact hrow'
  · rcases hcount with hcount | ⟨x, hx, rfl, hcount⟩
    · exact hcount.ge
    · obtain ⟨run₀, hrow₀, hcount₀⟩ := hrows.counts x hx
      cases hrow.symm.trans hrow₀
      rw [hcount, hcount₀]
      exact Nat.le_succ _

/-- The links that have been made: a successor keeps at least the count it was made with, so the
next link starts from there. -/
structure Linked (h : History cfg) (w : World) : Prop where
  made : ∀ r r' k k', Once (fun _ e => Retries r r' k k' e) h → r < w.db.runs.length ∧
    ∃ run', w.db.runs[r']? = some run' ∧ k' ≤ run'.retryCount
  links : ∀ r r' r'' k k' l l', Once (fun _ e => Retries r r' k k' e) h →
    Once (fun _ e => Retries r' r'' l l' e) h → k' ≤ l

theorem Linked.step (hk : Linked h w) (ha : Accounted h w) (hs : Sound h w) (hl : Lawful cfg h w e)
    (ht : Timely h w e) : Linked (e :: h) e.after := by
  obtain rfl := hl.before
  constructor
  · rintro r r' k k' (hr | ho)
    · obtain ⟨-, -, ⟨run, hrow, -⟩, run', hrow', hcount⟩ := hr
      have hlt := (List.getElem?_eq_some_iff.1 hrow).1
      exact ⟨hlt.trans_le (hs.grows hl).runs, run', hrow', hcount.ge⟩
    · obtain ⟨hlt, run, hrow, hle⟩ := hk.made r r' k k' ho
      obtain ⟨run', hrow', hle'⟩ := ha.counts_le hs hl ht hrow
      exact ⟨hlt.trans_le (hs.grows hl).runs, run', hrow', hle.trans hle'⟩
  · rintro r r' r'' k k' l l' (hr | ho) (hr' | ho')
    · obtain ⟨-, hsucc, -⟩ := hr
      obtain ⟨-, -, ⟨run, hrow, -⟩, -⟩ := hr'
      have hlt := (List.getElem?_eq_some_iff.1 hrow).1
      exact absurd hsucc.fresh (Nat.not_le.2 hlt)
    · obtain ⟨-, hsucc, -⟩ := hr
      exact absurd hsucc.fresh (Nat.not_le.2 (hk.made r' r'' l l' ho').1)
    · obtain ⟨-, run, hrow, hle⟩ := hk.made r r' k k' ho
      obtain ⟨-, -, ⟨run', hrow', hcount⟩, -⟩ := hr'
      cases hrow.symm.trans hrow'
      rw [← hcount]
      exact hle
    · exact hk.links r r' r'' k k' l l' ho ho'

theorem Linked.initial (w : World) : Linked ([] : History cfg) w where
  made := by rintro r r' k k' ⟨⟩
  links := by rintro r r' r'' k k' l l' ⟨⟩

theorem retries_lt {r r' : RunId} {k k' : Nat} (ho : Once (fun _ e => Retries r r' k k' e) h) :
    k < k' ∧ 1 ≤ k' ∧ k' ≤ 3 := by
  obtain ⟨-, e, -, -, hr⟩ := once_iff.1 ho
  exact hr.lt

theorem Retried.counts {r r' : RunId} (hr : Retried h r r') :
    ∃ k k', Once (fun _ e => Retries r r' k k' e) h := by
  obtain ⟨newer, e, older, rfl, k, k', hr⟩ := once_iff.1 hr
  exact ⟨k, k', once_iff.2 ⟨newer, e, older, rfl, hr⟩⟩

/-- Along a chain the counts go up. -/
theorem Linked.chain (hk : Linked h w) {r r' : RunId} {k k' : Nat} {chain : List RunId}
    (hr : Once (fun _ e => Retries r r' k k' e) h)
    (hchain : List.IsChain (Retried h) (r' :: chain)) : chain.length + k' ≤ 3 := by
  induction chain generalizing r r' k k' with
  | nil => simpa using (retries_lt hr).2.2
  | cons r'' chain ih =>
    obtain ⟨hlink, hrest⟩ := List.isChain_cons_cons.1 hchain
    obtain ⟨l, l', hr'⟩ := hlink.counts
    have hup : k' < l' := (hk.links r r' r'' k k' l l' hr hr').trans_lt (retries_lt hr').1
    have hle : chain.length + l' ≤ 3 := ih hr' hrest
    rw [List.length_cons]
    omega

end passes

/-- **Automatic retries terminate.**  Every recovery that commits gives each of its rows one
successor or one entry in the DLQ, and no chain of successors is longer than three. -/
theorem automatic_retries_end {cfg : Settings} {c : Config (system cfg)}
    (hc : Reachable cfg Supervised c) :
    Historically Settled c.hist ∧
      ∀ r chain, List.IsChain (Retried c.hist) (r :: chain) → chain.length ≤ 3 := by
  have hinv : (Accounted c.hist c.world ∧ Linked c.hist c.world) ∧ Historically Settled c.hist := by
    refine hc.induct₂ (program_keeps cfg) (P := fun h w =>
      (Accounted h w ∧ Linked h w) ∧ Historically Settled h) ?_ ?_
    · intro w hw
      exact ⟨⟨.initial w, .initial w⟩, trivial⟩
    · rintro h w e hs ⟨⟨ha, hk⟩, hsettled⟩ hl ht hK
      exact ⟨⟨ha.step hs hl ht hK, hk.step ha hs hl ht⟩, ha.settled hl ht, hsettled⟩
  obtain ⟨⟨-, hk⟩, hsettled⟩ := hinv
  refine ⟨hsettled, fun r chain hchain => ?_⟩
  cases chain with
  | nil => exact Nat.zero_le 3
  | cons r' chain =>
    obtain ⟨hlink, hrest⟩ := List.isChain_cons_cons.1 hchain
    obtain ⟨k, k', hr⟩ := hlink.counts
    have hle := hk.chain hr hrest
    have hpos := (retries_lt hr).2.1
    rw [List.length_cons]
    omega

instance {cfg : Settings} (h : History cfg) (e : Event cfg) : Decidable (Supervised h e) := by
  unfold Supervised
  obtain ⟨before, act, after⟩ := e
  dsimp only
  split
  · exact decidableForallRunning (Q := fun _ (g : Pass) => g.isIdle = true)
  · infer_instance
  · infer_instance

/-- A worker claims its run and crashes, and the run is recovered. -/
def abandoned : List (Move (system {})) :=
  taskPublished {} ++ serve {} 1 .processOne 3 ++
    [.crash 1, .tick (.advance 1000000)] ++ serve {} 2 .checkSources 8

/-- The run has a successor, which counts one retry. -/
theorem automatic_retries_end_abandoned : ∃ c : Config (system {}), Reachable {} Supervised c ∧
    (c.world.db.runs.map (·.retryCount)) = [1, 1] ∧ Historically Settled c.hist ∧
      ∀ r chain, List.IsChain (Retried c.hist) (r :: chain) → chain.length ≤ 3 := by
  obtain ⟨c, hc, hsee⟩ := reachable_of_run (K := Supervised)
    (fun c : Config (system {}) => c.world.db.runs.map (·.retryCount))
    (x := [1, 1]) (World.empty_initial 0 []) abandoned (by rfl)
  exact ⟨c, hc, hsee, automatic_retries_end hc⟩

end Recovery

end Observatory
