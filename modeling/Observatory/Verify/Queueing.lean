import Observatory.Verify.Duplicates
import Observatory.Verify.Publisher

/-!
# Runs that wait in the queue

A run becomes QUEUED in the transaction that adds a message naming it, or by a Telegram command,
which adds to the stream itself and ignores a failure.  The publisher marks a message processed
only when its `XADD` came back, and a worker acknowledges an entry only after it has found or made
the run something else than QUEUED.  So a message or an entry waits for every QUEUED run, as long
as no Telegram command has failed to add one.
-/

namespace Observatory

open Effect Effect.Machine

theorem getElem?_of_prefix {α : Type} {l l' : List α} {i : Nat} {x : α} (h : l <+: l')
    (hx : l[i]? = some x) : l'[i]? = some x := by
  obtain ⟨more, rfl⟩ := h
  rw [List.getElem?_append_left (List.getElem?_eq_some_iff.1 hx).1]
  exact hx

/-! ## Runs and messages -/

/-- Run `r` is QUEUED. -/
def Db.Queued (db : Db) (r : RunId) : Prop := ∃ run, db.runs[r]? = some run ∧ run.status = .queued

/-- A message that names `r` was added, and is unprocessed. -/
def Db.Mailed (db db' : Db) (r : RunId) : Prop :=
  ∃ i m, db.outbox.length ≤ i ∧ db'.outbox[i]? = some m ∧ m.runId? = some r ∧ m.processed = false

/-- Messages are only added, and whichever run became QUEUED has one. -/
structure Mails (db db' : Db) : Prop where
  outbox : db.outbox <+: db'.outbox
  queued : ∀ r, db'.Queued r → db.Queued r ∨ db.Mailed db' r

namespace Mails

variable {db db' db'' : Db} {now : Time}

theorem of_same (hruns : db'.runs = db.runs) (hout : db'.outbox = db.outbox) : Mails db db' := by
  refine ⟨hout ▸ List.prefix_refl _, ?_⟩
  intro r hq
  unfold Db.Queued at hq
  rw [hruns] at hq
  exact .inl hq

theorem refl (db : Db) : Mails db db := of_same rfl rfl

theorem trans (h : Mails db db') (h' : Mails db' db'') : Mails db db'' := by
  refine ⟨h.outbox.trans h'.outbox, ?_⟩
  intro r hq
  rcases h'.queued r hq with hq | ⟨i, m, hi, hm, hname, hnew⟩
  · rcases h.queued r hq with hq | ⟨i, m, hi, hm, hname, hnew⟩
    · exact .inl hq
    · exact .inr ⟨i, m, hi, getElem?_of_prefix h'.outbox hm, hname, hnew⟩
  · exact .inr ⟨i, m, h.outbox.length_le.trans hi, hm, hname, hnew⟩

/-- A row that is written does not become QUEUED. -/
theorem modify {r : RunId} {f : Run → Run} (hruns : db'.runs = db.runs.modify r f)
    (hout : db'.outbox = db.outbox)
    (hf : ∀ run, (f run).status = .queued → run.status = .queued) : Mails db db' := by
  refine ⟨hout ▸ List.prefix_refl _, ?_⟩
  intro r' ⟨run', hrow, hs⟩
  rw [hruns] at hrow
  rcases modify_cases hrow with ⟨-, hrow⟩ | ⟨rfl, run, hold, rfl⟩
  · exact .inl ⟨run', hrow, hs⟩
  · exact .inl ⟨run, hold, hf run hs⟩

theorem of_enqueued (h : Enqueued db db') : Mails db db' := by
  obtain ⟨new, -, hruns⟩ := h.run
  obtain ⟨m, hname, hnew, -, -, hout⟩ := h.message
  refine ⟨hout ▸ List.prefix_append _ _, ?_⟩
  intro r ⟨run, hrow, hs⟩
  rw [hruns] at hrow
  rcases append_cases hrow with hrow | ⟨rfl, rfl⟩
  · exact .inl ⟨run, hrow, hs⟩
  · refine .inr ⟨db.outbox.length, m, le_rfl, ?_, hname, hnew⟩
    rw [hout, List.getElem?_concat_length]

theorem of_added (h : SameTables db db' ∨ Enqueued db db') : Mails db db' := by
  rcases h with h | h
  · exact of_same h.runs h.outbox
  · exact of_enqueued h

theorem of_recovered {x : RunId × Run} (h : Db.recoverRun now db x = .ok db') : Mails db db' := by
  have hfailed : Mails db (db.updateRun x.1 (Db.recovered now x.2)) := by
    refine modify rfl rfl ?_
    intro run hs
    cases hs
  exact hfailed.trans (of_added (recoverRun_cases h))

theorem continuation {r : RunId} {found : Db.Continuation}
    (hc : ContinuationCases db now r db' found) : Mails db db' := by
  have hnever : ∀ (g : Run → Run), (∀ run, (g run).status ≠ .queued) → ∀ run : Run,
      (if run.status = .executing then g run else run).status = .queued →
        run.status = .queued := by
    intro g hg run hs
    split at hs
    · exact absurd hs (hg run)
    · exact hs
  cases hc with
  | none => exact refl db
  | refused => exact refl db
  | consumed => exact of_same rfl rfl
  | pendingExecution => exact refl db
  | succeeded => exact modify rfl rfl (hnever (Db.completed now) fun run hs => by cases hs)
  | failed => exact modify rfl rfl (hnever (Db.needsReconciliation now) fun run hs => by cases hs)
  | unrecorded =>
    exact modify rfl rfl (hnever (Db.needsReconciliation now) fun run hs => by cases hs)

theorem decide (approvalId : Text) (decision : String) (user : Option Nat) :
    Mails db (decideTransaction db now approvalId decision user).1 := by
  have hd := decideTransaction_cases db now approvalId decision user
  generalize decideTransaction db now approvalId decision user = res at hd
  cases hd with
  | refused x => exact refl db
  | expired => exact of_same rfl rfl
  | runless => exact of_same rfl rfl
  | @approved a appr run happr hp hexp hrun =>
    refine ⟨List.prefix_append _ _, ?_⟩
    intro r ⟨run', hrow, hs⟩
    rcases modify_cases hrow with ⟨-, hrow⟩ | ⟨rfl, -⟩
    · exact .inl ⟨run', hrow, hs⟩
    · exact .inr ⟨db.outbox.length, approveMessage now a appr.runId, le_rfl,
        List.getElem?_concat_length, rfl, rfl⟩
  | rejected happr hp hexp hrun =>
    refine modify rfl rfl ?_
    intro run hs
    unfold ApprovalService.rejected at hs
    split at hs
    · cases hs
    · exact hs

end Mails

/-- The transactions that put a run into the queue without a message, or take messages out. -/
def DbOp.byHand : DbOp → Prop
  | .insertTask .. | .resumeRun .. | .commitOutbox _ => True
  | .finalCommit _ _ o => o.status = .queued
  | _ => False

/-- **Every other transaction mails what it queues.** -/
theorem exec_mails {db : Db} {now : Time} {v : WorkerId} {o : DbOp} (ho : ¬o.byHand) :
    Mails db (o.exec db now v).1 := by
  have hwrite : ∀ (r : RunId) (f : Run → Run),
      (∀ run, (f run).status = .queued → run.status = .queued) → Mails db (db.updateRun r f) :=
    fun r f hf => .modify rfl rfl hf
  cases o with
  | openRun r => exact rowWrite_rel rfl (.refl db) (hwrite r _ fun run hs => by cases hs)
  | claimRun r => exact rowWrite_rel rfl (.refl db) (hwrite r _ fun run hs => by cases hs)
  | continuation r =>
    refine orRollback_rel (.refl db) fun db' found hok => ?_
    exact .continuation (continuation_cases hok)
  | markAmbiguous r a =>
    refine .modify rfl rfl ?_
    intro run hs
    split at hs
    · cases hs
    · exact hs
  | continuationSucceeded r a tool args result =>
    exact .modify rfl rfl fun run hs => by cases hs
  | continuationFailed r a error => exact .modify rfl rfl fun run hs => by cases hs
  | appendEvent r etype payload =>
    simp only [DbOp.exec, Db.appendRunEventSafe]
    split
    · exact .of_same rfl rfl
    · exact .refl db
  | insertPlan => exact .of_same rfl rfl
  | insertToolCall => exact .of_same rfl rfl
  | createApproval => exact .of_same rfl rfl
  | pauseCheck => exact .refl db
  | stopCheck => exact .refl db
  | finalCommit r loaded out =>
    refine hwrite r _ ?_
    intro run hs
    simp only [Db.committed, Db.written] at hs
    split at hs
    · exact hs
    · exact absurd hs ho
  | selectOutbox => exact .refl db
  | commitOutbox attempts => exact absurd trivial ho
  | selectExecuting => exact .refl db
  | commitRecovery rows =>
    refine orRollback'_rel (.refl db) fun db' hok => ?_
    exact foldlM_ok hok (.refl db) fun _ _ _ _ ih hd => ih.trans (.of_recovered hd)
  | selectSources => exact .refl db
  | hasTask => exact .refl db
  | commitSources accesses =>
    refine orRollback'_rel (.refl db) fun db' hok => ?_
    exact foldlM_ok hok (.refl db) fun _ _ _ _ ih hd =>
      ih.trans (.of_added (accessSource_cases hd))
  | createTask t hex =>
    refine orRollback_rel (.refl db) fun db' a hok => ?_
    exact .of_added (createTask_cases hok)
  | loadRun => exact .refl db
  | retryRun r clientKey =>
    refine orRollback_rel (.refl db) fun db' a hok => ?_
    exact .of_added (retryRun_cases hok)
  | decide approvalId decision user => exact .decide approvalId decision user
  | insertTask title prompt => exact absurd trivial ho
  | setControl r loaded request =>
    exact hwrite r _ fun run hs => (Db.controlled_status ..).symm.trans hs
  | resumeRun r loaded => exact absurd trivial ho

theorem commitOutbox_runs {now : Time} (attempts : List (MessageId × OutboxMessage × Db.Attempt))
    (db : Db) : (db.commitOutbox now attempts).runs = db.runs := by
  induction attempts generalizing db with
  | nil => rfl
  | cons x attempts ih => exact ih _

/-- What the commit of a publisher does to a message. -/
theorem commitOutbox_message {db : Db} {now : Time}
    {attempts : List (MessageId × OutboxMessage × Db.Attempt)} {i : MessageId} {m : OutboxMessage}
    (hm : db.outbox[i]? = some m) : ∃ m', (db.commitOutbox now attempts).outbox[i]? = some m' ∧
      m'.payload = m.payload ∧
      ((∀ loaded sid, (i, loaded, .published sid) ∉ attempts) → m'.processed = m.processed) := by
  unfold Db.commitOutbox
  induction attempts generalizing db m with
  | nil => exact ⟨m, hm, rfl, fun _ => rfl⟩
  | cons x attempts ih =>
    obtain ⟨j, loaded, att⟩ := x
    rw [List.foldl_cons]
    have hpay : (Db.attempted now loaded att m).payload = m.payload := by cases att <;> rfl
    have hrow : ({ db with outbox := db.outbox.modify j (Db.attempted now loaded att) } :
        Db).outbox[i]? = some (if j = i then Db.attempted now loaded att m else m) :=
      getElem?_modify_of_some hm
    obtain ⟨m', hm', hpay', hproc⟩ := ih hrow
    refine ⟨m', hm', ?_, ?_⟩
    · rw [hpay']
      split
      · exact hpay
      · rfl
    · intro hno
      rw [hproc fun loaded' sid hmem => hno loaded' sid (List.mem_cons_of_mem _ hmem)]
      split
      · rename_i heq
        subst heq
        cases att with
        | published sid => exact absurd List.mem_cons_self (hno loaded sid)
        | failed err => rfl
      · rfl

/-! ## The stream -/

namespace Redis

variable {q : Redis} {n k : EntryId} {x : Entry} {now : Time} {v : WorkerId}

theorem first_some {p : Entry → Bool} (h : q.first p = some (n, x)) :
    q.stream[n]? = some x ∧ p x = true := by
  unfold first at h
  obtain ⟨⟨y, i⟩, hfind, heq⟩ := Option.map_eq_some_iff.1 h
  obtain ⟨rfl, rfl⟩ := Prod.mk.inj heq
  have hmem := List.mem_of_find?_eq_some hfind
  have hp := List.find?_some hfind
  rw [List.mem_zipIdx_iff_getElem?] at hmem
  simp only [Bool.and_eq_true] at hp
  exact ⟨hmem, hp.2⟩

theorem deliver_entry (hx : q.stream[n]? = some x) :
    ∃ x', (q.deliver k v now).stream[n]? = some x' ∧ x'.body = x.body ∧ (x'.delivery = .acked → x.delivery = .acked) := by
  unfold deliver
  refine ⟨_, getElem?_modify_of_some hx, ?_⟩
  split
  · exact ⟨rfl, fun h => by cases h⟩
  · exact ⟨rfl, id⟩

/-- **An entry stays in the stream**, and only its ACK acknowledges it. -/
theorem exec_entry {trim : Nat} {o : RedisOp} (hx : q.stream[n]? = some x) :
    ∃ x', (o.exec q now v trim).1.stream[n]? = some x' ∧ x'.body = x.body ∧
      (x'.delivery = .acked → x.delivery = .acked ∨ o = .ack n) := by
  have hsame : ∃ x', q.stream[n]? = some x' ∧ x'.body = x.body ∧
      (x'.delivery = .acked → x.delivery = .acked ∨ o = .ack n) := ⟨x, hx, rfl, .inl⟩
  have hdelivered : ∀ k, ∃ x', (q.deliver k v now).stream[n]? = some x' ∧ x'.body = x.body ∧
      (x'.delivery = .acked → x.delivery = .acked ∨ o = .ack n) := by
    intro k
    obtain ⟨x', hx', hbody, hacked⟩ := deliver_entry hx
    exact ⟨x', hx', hbody, fun h => .inl (hacked h)⟩
  cases o with
  | readGroup =>
    simp only [RedisOp.exec, readGroup]
    split
    · exact hsame
    · exact hdelivered _
  | claimPending =>
    simp only [RedisOp.exec, claimPending]
    split
    · exact hsame
    · exact hdelivered _
  | ack k =>
    refine ⟨_, getElem?_modify_of_some hx, ?_⟩
    split
    · rename_i heq
      subst heq
      split
      · exact ⟨rfl, .inl⟩
      · exact ⟨rfl, fun _ => .inr rfl⟩
    · exact ⟨rfl, .inl⟩
  | rpopLegacy =>
    simp only [RedisOp.exec, rpopLegacy]
    split <;> exact hsame
  | publishToStream payload key =>
    refine ⟨x, ?_, rfl, .inl⟩
    exact getElem?_append_of_some hx
  | publishToDlq payload reason => exact hsame

/-- What is delivered is an entry of the stream. -/
theorem exec_delivered {trim : Nat} {body : Body}
    (h : (RedisOp.readGroup.exec q now v trim).2 = some (n, body) ∨
      (RedisOp.claimPending.exec q now v trim).2 = some (n, body)) :
    ∃ x, q.stream[n]? = some x ∧ x.body = body := by
  rcases h with h | h
  · simp only [RedisOp.exec, readGroup] at h
    split at h
    · cases h
    · rename_i hfirst
      obtain ⟨rfl, rfl⟩ := Prod.mk.inj (Option.some.inj h)
      exact ⟨_, (first_some hfirst).1, rfl⟩
  · simp only [RedisOp.exec, claimPending] at h
    split at h
    · cases h
    · rename_i hfirst
      obtain ⟨rfl, rfl⟩ := Prod.mk.inj (Option.some.inj h)
      exact ⟨_, (first_some hfirst).1, rfl⟩

end Redis

/-! ## What becomes of a message and of an entry -/

variable {cfg : Settings} {h : History cfg} {w : World} {e : Event cfg} {p : Pid} {r : RunId}

/-- Before its claim of `r`. -/
def Stage.unclaimed (r : RunId) : Stage → Prop
  | received body => body.runId? = some r
  | opened r' _ => r' = r
  | _ => False

/-- Some process has published message `i` and is about to mark it as processed. -/
def Sent (h : History cfg) (i : MessageId) : Prop :=
  ∃ p g todo attempts loaded sid, phaseOf cfg h p = some g ∧ g.stage = .publishing todo attempts ∧
    (i, loaded, .published sid) ∈ attempts

/-- Message `i` names `r`, and nobody has published it and is about to say so. -/
structure Unpublished (h : History cfg) (w : World) (r : RunId) (i : MessageId) : Prop where
  message : ∃ m, w.db.outbox[i]? = some m ∧ m.runId? = some r ∧ m.processed = false
  unsent : ¬Sent h i

/-- Entry `n` names `r` and has no ACK, and nobody who has got it has tried to claim `r`. -/
structure Undelivered (h : History cfg) (w : World) (r : RunId) (n : EntryId) : Prop where
  entry : ∃ x, w.redis.stream[n]? = some x ∧ x.body.runId? = some r ∧ x.delivery ≠ .acked
  handlers : ∀ p g, phaseOf cfg h p = some g → g.entry = some n → g.stage.unclaimed r

/-- What processes hold is there: the entries they have got, the messages they publish. -/
structure Grounded (h : History cfg) (w : World) : Prop where
  entries : ∀ p g n, phaseOf cfg h p = some g → g.entry = some n → n < w.redis.stream.length
  todo : ∀ p g todo attempts, phaseOf cfg h p = some g → g.stage = .publishing todo attempts →
    ∀ i m, (i, m) ∈ todo → ∃ m', w.db.outbox[i]? = some m' ∧ m'.payload = m.payload
  sent : ∀ i, Sent h i → i < w.db.outbox.length

/-- **A message** keeps its payload, and is processed when a process that published it says so. -/
theorem Lawful.message {i : MessageId} {m : OutboxMessage} (hl : Lawful cfg h w e)
    (hm : w.db.outbox[i]? = some m) : ∃ m', e.after.db.outbox[i]? = some m' ∧
      m'.payload = m.payload ∧ (m'.processed = m.processed ∨ Sent h i) := by
  have hsame : e.after.db.outbox = w.db.outbox → ∃ m', e.after.db.outbox[i]? = some m' ∧
      m'.payload = m.payload ∧ (m'.processed = m.processed ∨ Sent h i) := by
    intro hout
    exact ⟨m, hout ▸ hm, rfl, .inl rfl⟩
  cases hl.committed with
  | quiet rows => exact hsame (by rw [rows])
  | beat hb act rows => exact hsame (by rw [rows]; rfl)
  | @transaction p g o stays running allowed act rows =>
    by_cases ho : o.byHand
    · cases o with
      | insertTask => exact hsame (by rw [rows]; rfl)
      | finalCommit => exact hsame (by rw [rows]; rfl)
      | resumeRun => exact hsame (by rw [rows]; rfl)
      | commitOutbox attempts =>
        obtain ⟨m', hm', hpay, hproc⟩ := commitOutbox_message hm
        refine ⟨m', rows ▸ hm', hpay, ?_⟩
        by_cases hno : ∀ loaded sid, (i, loaded, .published sid) ∉ attempts
        · exact .inl (hproc hno)
        · push Not at hno
          obtain ⟨loaded, sid, hmem⟩ := hno
          exact .inr ⟨p, g, [], attempts, loaded, sid, running, allowed, hmem⟩
      | _ => exact ho.elim
    · have hmails : Mails w.db (o.exec w.db w.now p).1 := exec_mails ho
      exact ⟨m, rows ▸ getElem?_of_prefix hmails.outbox hm, rfl, .inl rfl⟩

/-- Some process may acknowledge entry `n`. -/
def Acking (h : History cfg) (n : EntryId) : Prop :=
  ∃ p g, phaseOf cfg h p = some g ∧ Flow.allowsRedis g (.ack n)

/-- **An entry** stays, and is acknowledged by a process that may. -/
theorem Lawful.entry {n : EntryId} {x : Entry} (hl : Lawful cfg h w e)
    (hx : w.redis.stream[n]? = some x) : ∃ x', e.after.redis.stream[n]? = some x' ∧
      x'.body = x.body ∧ (x'.delivery = .acked → x.delivery = .acked ∨ Acking h n) := by
  have hsame : e.after.redis = w.redis → ∃ x', e.after.redis.stream[n]? = some x' ∧
      x'.body = x.body ∧ (x'.delivery = .acked → x.delivery = .acked ∨ Acking h n) := by
    intro heq
    exact ⟨x, heq ▸ hx, rfl, .inl⟩
  cases hl.happens with
  | started => exact hsame (by simp)
  | db => exact hsame (by simp)
  | ext => exact hsame (by simp)
  | failed => exact hsame (by simp)
  | crashed => exact hsame rfl
  | ticked t =>
    apply hsame
    cases t with
    | advance => rfl
    | beat p =>
      simp only [World.tick]
      split <;> rfl
  | @redis p g o trim res stays running allowed hres =>
    obtain ⟨x', hx', hbody, hacked⟩ : ∃ x', (o.exec w.redis w.now p trim).1.stream[n]? = some x' ∧
        x'.body = x.body ∧ (x'.delivery = .acked → x.delivery = .acked ∨ o = .ack n) :=
      Redis.exec_entry hx
    refine ⟨x', by simpa using hx', hbody, ?_⟩
    intro hack
    rcases hacked hack with hold | rfl
    · exact .inl hold
    · exact .inr ⟨p, g, running, allowed⟩

theorem Lawful.stream_le (hl : Lawful cfg h w e) :
    w.redis.stream.length ≤ e.after.redis.stream.length := by
  by_contra hlt
  rw [not_le] at hlt
  obtain ⟨x', hx', -⟩ := hl.entry (List.getElem?_eq_getElem hlt)
  exact absurd (List.getElem?_eq_some_iff.1 hx').1 (lt_irrefl _)

theorem Lawful.delivered {n : EntryId} {body : Body} {stays : Bool} (hl : Lawful cfg h w e)
    (act : e.act = .did p (.redis .readGroup) (.ok (some (n, body))) stays ∨
      e.act = .did p (.redis .claimPending) (.ok (some (n, body))) stays) :
    ∃ x, w.redis.stream[n]? = some x ∧ x.body = body := by
  cases hl.happens with
  | @redis p g o trim res stays running allowed hres =>
    rcases act with act | act
    · cases act
      rcases hres with hres | ⟨x, hx⟩
      · exact Redis.exec_delivered (.inl (Except.ok.inj hres).symm)
      · cases hx
    · cases act
      rcases hres with hres | ⟨x, hx⟩
      · exact Redis.exec_delivered (.inr (Except.ok.inj hres).symm)
      · cases hx
  | _ => rcases act with act | act <;> cases act

/-- How a process came to have entry `n`. -/
inductive Got (h : History cfg) (w : World) (e : Event cfg) (p : Pid) (n : EntryId) (g' : Phase) :
    Prop where
  | kept (running : phaseOf cfg h p = some g')
  | given {x : Entry} (hx : w.redis.stream[n]? = some x) (phase : g' = ⟨some n, .received x.body⟩)
  | did {o : Op} {res : Sys.Result o} {g : Phase} (act : e.act = .did p o res true)
      (running : phaseOf cfg h p = some g) (hn : g.entry = some n) (step : Flow.Step cfg g o res g')

/-- **Who has got an entry** has just been given it, or had it before. -/
theorem Lawful.got {n : EntryId} {g' : Phase} (hl : Lawful cfg h w e)
    (hg : phaseOf cfg (e :: h) p = some g') (hn : g'.entry = some n) : Got h w e p n g' := by
  cases hl.became hg with
  | kept running other => exact .kept running
  | started q act phase =>
    subst phase
    cases q <;> cases hn
  | @did o res g act running step =>
    have hstep := step
    cases step with
    | dropped => cases hn
    | popped => cases hn
    | @read n' body hidle =>
      obtain rfl := Option.some.inj hn
      obtain ⟨x, hx, rfl⟩ := hl.delivered (.inl act)
      exact .given hx rfl
    | @reclaimed n' body hidle =>
      obtain rfl := Option.some.inj hn
      obtain ⟨x, hx, rfl⟩ := hl.delivered (.inr act)
      exact .given hx rfl
    | _ => exact .did act running hn hstep

/-- How a process came to be publishing. -/
inductive Publishing (h : History cfg) (w : World) (e : Event cfg) (p : Pid)
    (todo : List (MessageId × OutboxMessage))
    (attempts : List (MessageId × OutboxMessage × Db.Attempt)) : Prop where
  | kept {g : Phase} (running : phaseOf cfg h p = some g)
      (stage : g.stage = .publishing todo attempts)
  | loaded (htodo : ∀ i m, (i, m) ∈ todo → w.db.outbox[i]? = some m) (hnone : attempts = [])
  | tried {g : Phase} {i : MessageId} {m : OutboxMessage}
      {before : List (MessageId × OutboxMessage × Db.Attempt)} {err : String}
      (running : phaseOf cfg h p = some g) (stage : g.stage = .publishing ((i, m) :: todo) before)
      (heq : attempts = before ++ [(i, m, .failed err)])
  | published {g : Phase} {i : MessageId} {m : OutboxMessage} {sid : EntryId}
      {before : List (MessageId × OutboxMessage × Db.Attempt)}
      (running : phaseOf cfg h p = some g) (stage : g.stage = .publishing ((i, m) :: todo) before)
      (heq : attempts = before ++ [(i, m, .published sid)])
      (act : e.act = .did p (.redis (.publishToStream m.payload (some m.idempotencyKey)))
        (.ok sid) true)
  | reported (htodo : todo = []) (hnone : attempts = [])

theorem Lawful.publishing {g' : Phase} {todo : List (MessageId × OutboxMessage)}
    {attempts : List (MessageId × OutboxMessage × Db.Attempt)} (hl : Lawful cfg h w e)
    (hg : phaseOf cfg (e :: h) p = some g') (hstage : g'.stage = .publishing todo attempts) :
    Publishing h w e p todo attempts := by
  cases hl.became hg with
  | kept running other => exact .kept running hstage
  | started q act phase =>
    subst phase
    cases q <;> cases hstage
  | @did o res g act running step =>
    cases step with
    | @selected now msgs hs =>
      cases hstage
      refine .loaded ?_ rfl
      intro i m hmem
      have hexec := hl.committed_of_ok act
      have hmsgs : w.db.selectOutbox = msgs := Except.ok.inj (congrArg Prod.snd hexec)
      have hin := (List.mem_filter.1 hmem).1
      rw [← hmsgs] at hin
      exact (Db.mem_selectOutbox.1 hin).1
    | published hs =>
      cases hstage
      exact .published running hs rfl act
    | unpublished hs =>
      cases hstage
      exact .tried running hs rfl
    | swept hs =>
      cases hstage
      exact .reported rfl rfl
    | dlq hs => exact .kept running hstage
    | operated hs => exact .kept running hstage
    | logged hs => exact .kept running hstage
    | _ => cases hstage

/-- **Who has published a message** had done so before, or has just done it. -/
theorem Lawful.sent {i : MessageId} (hl : Lawful cfg h w e) (hs : Sent (e :: h) i) :
    Sent h i ∨ ∃ p g m rest attempts sid, phaseOf cfg h p = some g ∧
      g.stage = .publishing ((i, m) :: rest) attempts ∧
      e.act = .did p (.redis (.publishToStream m.payload (some m.idempotencyKey)))
        (.ok sid) true := by
  obtain ⟨p, g', todo, attempts, loaded, sid, hg, hstage, hmem⟩ := hs
  cases hl.publishing hg hstage with
  | kept running stage => exact .inl ⟨p, _, _, _, loaded, sid, running, stage, hmem⟩
  | loaded htodo hnone =>
    rw [hnone] at hmem
    cases hmem
  | tried running stage heq =>
    rw [heq] at hmem
    rcases List.mem_append.1 hmem with hmem | hmem
    · exact .inl ⟨p, _, _, _, loaded, sid, running, stage, hmem⟩
    · cases List.mem_singleton.1 hmem
  | published running stage heq act =>
    rw [heq] at hmem
    rcases List.mem_append.1 hmem with hmem | hmem
    · exact .inl ⟨p, _, _, _, loaded, sid, running, stage, hmem⟩
    · cases List.mem_singleton.1 hmem
      exact .inr ⟨p, _, _, _, _, _, running, stage, act⟩
  | reported htodo hnone =>
    rw [hnone] at hmem
    cases hmem

theorem Grounded.initial : Grounded ([] : History cfg) w where
  entries p g n hg := by cases hg
  todo p g todo attempts hg := by cases hg
  sent i hs := by
    obtain ⟨p, g, todo, attempts, loaded, sid, hg, -⟩ := hs
    cases hg

/-- A message that has been published was in the table before. -/
theorem Grounded.sent_step {i : MessageId} (hb : Grounded h w) (hl : Lawful cfg h w e)
    (hs : Sent (e :: h) i) : i < w.db.outbox.length := by
  rcases hl.sent hs with hold | ⟨p, g, m, rest, attempts, sid, running, stage, act⟩
  · exact hb.sent i hold
  · obtain ⟨m', hm', -⟩ := hb.todo p g _ _ running stage i m List.mem_cons_self
    exact (List.getElem?_eq_some_iff.1 hm').1

theorem Grounded.step (hb : Grounded h w) (hl : Lawful cfg h w e) : Grounded (e :: h) e.after := by
  have hstill : ∀ {i : MessageId} {m m' : OutboxMessage}, w.db.outbox[i]? = some m' →
      m'.payload = m.payload → ∃ m', e.after.db.outbox[i]? = some m' ∧ m'.payload = m.payload := by
    intro i m m' hm' hpay
    obtain ⟨m'', hm'', hpay', -⟩ := hl.message hm'
    exact ⟨m'', hm'', hpay'.trans hpay⟩
  refine ⟨?_, ?_, ?_⟩
  · intro p g n hg hn
    cases hl.got hg hn with
    | kept running => exact (hb.entries p g n running hn).trans_le hl.stream_le
    | given hx phase => exact (List.getElem?_eq_some_iff.1 hx).1.trans_le hl.stream_le
    | did act running hn step => exact (hb.entries p _ n running hn).trans_le hl.stream_le
  · intro p g todo attempts hg hstage i m hmem
    cases hl.publishing hg hstage with
    | kept running stage =>
      obtain ⟨m', hm', hpay⟩ := hb.todo p _ todo attempts running stage i m hmem
      exact hstill hm' hpay
    | loaded htodo hnone => exact hstill (htodo i m hmem) rfl
    | tried running stage heq =>
      obtain ⟨m', hm', hpay⟩ := hb.todo p _ _ _ running stage i m (List.mem_cons_of_mem _ hmem)
      exact hstill hm' hpay
    | published running stage heq act =>
      obtain ⟨m', hm', hpay⟩ := hb.todo p _ _ _ running stage i m (List.mem_cons_of_mem _ hmem)
      exact hstill hm' hpay
    | reported htodo hnone =>
      rw [htodo] at hmem
      cases hmem
  · intro i hs
    obtain ⟨m', hm', -⟩ := hl.message (List.getElem?_eq_getElem (hb.sent_step hl hs))
    exact (List.getElem?_eq_some_iff.1 hm').1

/-! ## One step -/

/-- A run that is QUEUED when it is opened is ready. -/
theorem Db.openRun_queued {db db' : Db} {now : Time} {found : Db.Opened}
    (h : db.openRun now r = (db', found)) (hq : db'.Queued r) :
    ∃ run task, found = .ready run task := by
  obtain ⟨run', hrow, hs⟩ := hq
  unfold Db.openRun at h
  split at h
  · rename_i hnone
    obtain ⟨rfl, -⟩ := Prod.mk.inj h
    rw [hnone] at hrow
    cases hrow
  · rename_i run hrun
    split at h
    · rename_i hterm
      obtain ⟨rfl, -⟩ := Prod.mk.inj h
      cases hrun.symm.trans hrow
      rw [hs] at hterm
      cases hterm
    · split at h
      · obtain ⟨-, rfl⟩ := Prod.mk.inj h
        exact ⟨_, _, rfl⟩
      · obtain ⟨rfl, -⟩ := Prod.mk.inj h
        rw [Db.updateRun_runs, getElem?_modify_of_some hrun, if_pos rfl] at hrow
        obtain rfl := Option.some.inj hrow
        cases hs

/-- A run that is QUEUED has not just been claimed, nor has its claim just been refused. -/
theorem Db.claimRun_queued {db db' : Db} {now : Time} {v : WorkerId} {b : Bool}
    (h : db.claimRun now r v = (db', b)) : ¬db'.Queued r := by
  intro ⟨run', hrow, hs⟩
  unfold Db.claimRun at h
  split at h
  · rename_i hnone
    obtain ⟨rfl, -⟩ := Prod.mk.inj h
    rw [hnone] at hrow
    cases hrow
  · rename_i run hrun
    split at h
    · obtain ⟨rfl, -⟩ := Prod.mk.inj h
      rw [Db.updateRun_runs, getElem?_modify_of_some hrun, if_pos rfl] at hrow
      obtain rfl := Option.some.inj hrow
      cases hs
    · rename_i hno
      obtain ⟨rfl, -⟩ := Prod.mk.inj h
      cases hrun.symm.trans hrow
      apply hno
      simp [Db.claimable, hs]

/-- What ends the time before the claim of `r`, other than an exception. -/
inductive Tries (r : RunId) : (o : Op) → Sys.Result o → Prop where
  | unopened {found : Db.Opened} (hfound : ∀ run task, found ≠ .ready run task) :
      Tries r (.db (.openRun r)) (.ok found)
  | claimed (b : Bool) : Tries r (.db (.claimRun r)) (.ok b)

theorem Flow.Step.before_claim {g g' : Phase} {o : Op} {res : Sys.Result o}
    (hstep : Flow.Step cfg g o res g') (hun : g.stage.unclaimed r) :
    g'.entry = none ∨ g'.stage.unclaimed r ∨ Tries r o res := by
  have helse : ∀ {s : Stage}, g.stage = s → ¬s.unclaimed r →
      g'.entry = none ∨ g'.stage.unclaimed r ∨ Tries r o res := by
    intro s hs hno
    rw [hs] at hun
    exact absurd hun hno
  cases hstep with
  | dropped => exact .inl rfl
  | popped => exact .inl rfl
  | opened hs hr =>
    rw [hs] at hun
    exact .inr (.inl (Option.some.inj (hr.symm.trans hun)))
  | unopened hs hr hfound =>
    rw [hs] at hun
    obtain rfl := Option.some.inj (hr.symm.trans hun)
    exact .inr (.inr (.unopened hfound))
  | claimed hs =>
    rw [hs] at hun
    obtain rfl : _ = r := hun
    exact .inr (.inr (.claimed true))
  | unclaimed hs =>
    rw [hs] at hun
    obtain rfl : _ = r := hun
    exact .inr (.inr (.claimed false))
  | logged hs => exact .inr (.inl hun)
  | operated hs => exact .inr (.inl hun)
  | dlq hs => exact .inr (.inl hun)
  | _ => exact helse (by assumption) id

theorem Lawful.not_tries {o : Op} {res : Sys.Result o} {stays : Bool} (hl : Lawful cfg h w e)
    (act : e.act = .did p o res stays) (hq : e.after.db.Queued r) : ¬Tries r o res := by
  intro htries
  cases htries with
  | @unopened found hfound =>
    have hexec := hl.committed_of_ok act
    have hrows : (w.db.openRun w.now r).1 = e.after.db := congrArg Prod.fst hexec
    have hopen : w.db.openRun w.now r = (e.after.db, found) :=
      Prod.ext hrows (Except.ok.inj (congrArg Prod.snd hexec))
    obtain ⟨run, task, hready⟩ := Db.openRun_queued hopen hq
    exact hfound run task hready
  | claimed b =>
    have hexec := hl.committed_of_ok act
    have hrows : (w.db.claimRun w.now r p).1 = e.after.db := congrArg Prod.fst hexec
    have hclaim : w.db.claimRun w.now r p = (e.after.db, b) :=
      Prod.ext hrows (Except.ok.inj (congrArg Prod.snd hexec))
    exact Db.claimRun_queued hclaim hq

/-- **An entry nobody has dealt with** stays one while its run is QUEUED. -/
theorem Undelivered.step {n : EntryId} (hu : Undelivered h w r n) (hl : Lawful cfg h w e)
    (hq : e.after.db.Queued r) : Undelivered (e :: h) e.after r n := by
  obtain ⟨x, hx, hname, hno⟩ := hu.entry
  refine ⟨?_, ?_⟩
  · obtain ⟨x', hx', hbody, hacked⟩ := hl.entry hx
    refine ⟨x', hx', hbody ▸ hname, ?_⟩
    intro hack
    rcases hacked hack with hold | ⟨p, g, running, hentry, hstage⟩
    · exact hno hold
    · -- who may acknowledge it has tried to claim the run, or found no run to claim
      have hun := hu.handlers p g running hentry
      rcases hstage with hdone | ⟨body, hrec, hnone⟩
      · rw [hdone] at hun
        exact hun
      · rw [hrec] at hun
        have hsome : body.runId? = some r := hun
        rw [hnone] at hsome
        cases hsome
  · intro p g' hg hn
    cases hl.got hg hn with
    | kept running => exact hu.handlers p g' running hn
    | given hx' phase =>
      cases hx.symm.trans hx'
      rw [phase]
      exact hname
    | did act running hgot step =>
      rcases step.before_claim (hu.handlers p _ running hgot) with hnone | hun | htries
      · rw [hnone] at hn
        cases hn
      · exact hun
      · exact absurd htries (hl.not_tries act hq)

/-- A new entry, which nobody has got. -/
theorem Lawful.undelivered {payload : Dict} {key : Option Key} {sid : EntryId} {stays : Bool}
    (hl : Lawful cfg h w e) (hb : Grounded h w)
    (act : e.act = .did p (.redis (.publishToStream payload key)) (.ok sid) stays)
    (hname : (Body.json (.obj payload)).runId? = some r) :
    Undelivered (e :: h) e.after r sid := by
  have hnew : sid = w.redis.stream.length ∧ ∃ x, e.after.redis.stream[sid]? = some x ∧
      x.body = .json (.obj payload) ∧ x.delivery = .new := by
    cases hl.happens with
    | @redis p g o trim res stays running allowed hres =>
      cases act
      rcases hres with hres | ⟨x, hx⟩
      · obtain rfl : sid = w.redis.stream.length := Except.ok.inj hres
        refine ⟨rfl, ⟨.json (.obj payload), key, .new⟩, ?_, rfl, rfl⟩
        rw [World.settled_redis]
        exact List.getElem?_concat_length
      · cases hx
    | _ => cases act
  obtain ⟨rfl, x, hx, hbody, hdel⟩ := hnew
  refine ⟨⟨x, hx, by rw [hbody]; exact hname, by rw [hdel]; decide⟩, ?_⟩
  intro p' g' hg hn
  exfalso
  cases hl.got hg hn with
  | kept running => exact lt_irrefl _ (hb.entries p' g' _ running hn)
  | given hx' phase => exact lt_irrefl _ (List.getElem?_eq_some_iff.1 hx').1
  | did act' running hgot step => exact lt_irrefl _ (hb.entries p' _ _ running hgot)

/-- **A message nobody has published** stays one, or there is an entry for it now. -/
theorem Unpublished.step {i : MessageId} (hu : Unpublished h w r i) (hb : Grounded h w)
    (hl : Lawful cfg h w e) :
    Unpublished (e :: h) e.after r i ∨ ∃ n, Undelivered (e :: h) e.after r n := by
  obtain ⟨m, hm, hname, hnew⟩ := hu.message
  by_cases hsent : Sent (e :: h) i
  · right
    rcases hl.sent hsent with hold | ⟨p, g, loaded, rest, attempts, sid, running, stage, act⟩
    · exact absurd hold hu.unsent
    · -- what was published is the message as it is in the table
      obtain ⟨m', hm', hpay⟩ := hb.todo p g _ _ running stage i loaded List.mem_cons_self
      cases hm.symm.trans hm'
      refine ⟨sid, hl.undelivered hb act ?_⟩
      rw [← hpay]
      exact hname
  · left
    refine ⟨?_, hsent⟩
    obtain ⟨m', hm', hpay, hproc⟩ := hl.message hm
    refine ⟨m', hm', ?_, ?_⟩
    · unfold OutboxMessage.runId? at hname ⊢
      rw [hpay]
      exact hname
    · rcases hproc with hproc | hold
      · exact hproc.trans hnew
      · exact absurd hold hu.unsent

/-! ## Who queued a run -/

/-- `e` puts run `r` into QUEUED. -/
def Queues (e : Event cfg) (r : RunId) : Prop := e.after.db.Queued r ∧ ¬e.before.db.Queued r

/-- The transaction of `/ask`, `/task` or `/resume`, which leaves the enqueueing to an `XADD` of its
own. -/
def ByTelegram (e : Event cfg) : Prop :=
  match e.act with
  | .did _ (.db (.insertTask ..)) .. | .did _ (.db (.resumeRun ..)) .. => True
  | _ => False

/-- An `XADD` naming `r` comes back. -/
def Adds (e : Event cfg) (r : RunId) : Prop :=
  match e.act with
  | .did _ (.redis (.publishToStream payload _)) (.ok _) _ =>
    (Body.json (.obj payload)).runId? = some r
  | _ => False

/-- A Telegram command put run `r` into QUEUED last, and no `XADD` naming `r` has come back
since. -/
def Stranded (h : History cfg) (r : RunId) : Prop :=
  Since (fun _ e => ¬Queues e r ∧ ¬Adds e r) (fun _ e => Queues e r ∧ ByTelegram e) h

/-- **What is added is waited for.** -/
theorem Lawful.added (hl : Lawful cfg h w e) (hb : Grounded h w) (ha : Adds e r) :
    ∃ n, Undelivered (e :: h) e.after r n := by
  unfold Adds at ha
  split at ha
  · rename_i act
    exact ⟨_, hl.undelivered hb act ha⟩
  · exact ha.elim

/-- **What is queued otherwise has its message.** -/
theorem Lawful.mailed (hl : Lawful cfg h w e) (hb : Grounded h w) (hq : Queues e r)
    (ht : ¬ByTelegram e) : ∃ i, Unpublished (e :: h) e.after r i := by
  obtain ⟨hafter, hbefore⟩ := hq
  rw [hl.before] at hbefore
  have hmails : Mails w.db e.after.db → ∃ i, Unpublished (e :: h) e.after r i := by
    intro hm
    rcases hm.queued r hafter with hold | ⟨i, m, hi, hmsg, hname, hnew⟩
    · exact absurd hold hbefore
    · refine ⟨i, ⟨m, hmsg, hname, hnew⟩, ?_⟩
      intro hsent
      exact absurd (hb.sent_step hl hsent) (Nat.not_lt.2 hi)
  cases hl.committed with
  | quiet rows => exact hmails (rows ▸ .refl _)
  | @beat p b hb' act rows =>
    apply hmails
    rw [rows]
    refine .modify rfl rfl ?_
    intro run hs
    unfold Db.beaten at hs
    split at hs <;> exact hs
  | @transaction p g o stays running allowed act rows =>
    by_cases ho : o.byHand
    · exfalso
      cases o with
      | insertTask =>
        apply ht
        unfold ByTelegram
        rw [act]
        trivial
      | resumeRun =>
        apply ht
        unfold ByTelegram
        rw [act]
        trivial
      | finalCommit r' loaded out =>
        obtain ⟨c, -, hlands⟩ := allowed
        have hmem := hlands.reportable
        rw [show out.status = .queued from ho] at hmem
        simp at hmem
      | commitOutbox attempts =>
        obtain ⟨run, hrow, hs⟩ := hafter
        rw [rows] at hrow
        exact hbefore ⟨run, (commitOutbox_runs attempts w.db) ▸ hrow, hs⟩
      | _ => exact ho.elim
    · apply hmails
      rw [rows]
      exact exec_mails ho

/-! ## Runs -/

/-- A run that is QUEUED has its message or its entry, unless Telegram left it stranded. -/
structure Accounted (h : History cfg) (w : World) : Prop where
  backed : Grounded h w
  queued : ∀ r, w.db.Queued r → Stranded h r ∨ (∃ i, Unpublished h w r i) ∨
    ∃ n, Undelivered h w r n

theorem Accounted.initial (hw : World.Initial w) : Accounted ([] : History cfg) w := by
  refine ⟨.initial, ?_⟩
  intro r ⟨run, hrow, hs⟩
  rw [hw.db] at hrow
  cases hrow

theorem Accounted.step (ha : Accounted h w) (hl : Lawful cfg h w e) :
    Accounted (e :: h) e.after := by
  refine ⟨ha.backed.step hl, ?_⟩
  intro r hq
  by_cases hold : w.db.Queued r
  · have hnot : ¬Queues e r := by
      intro hqueues
      apply hqueues.2
      rw [hl.before]
      exact hold
    rcases ha.queued r hold with hstranded | ⟨i, hu⟩ | ⟨n, hu⟩
    · by_cases hadds : Adds e r
      · exact .inr (.inr (hl.added ha.backed hadds))
      · exact .inl (.inr ⟨⟨hnot, hadds⟩, hstranded⟩)
    · rcases hu.step ha.backed hl with hu | hu
      · exact .inr (.inl ⟨i, hu⟩)
      · exact .inr (.inr hu)
    · exact .inr (.inr ⟨n, hu.step hl hq⟩)
  · have hqueues : Queues e r := by
      refine ⟨hq, ?_⟩
      rw [hl.before]
      exact hold
    by_cases ht : ByTelegram e
    · exact .inl (.inl ⟨hqueues, ht⟩)
    · exact .inr (.inl (hl.mailed ha.backed hqueues ht))

/-- **No queued run is lost.**  In every state reached by any order of steps, failures of Redis
commands and crashes, a QUEUED run that Telegram has not left stranded is named by a message that
is not processed, or by an entry that was added to the stream and has no ACK. -/
theorem queued_accounted {c : Config (system cfg)} (hc : Reachable cfg anyEvent c)
    (hq : c.world.db.Queued r) (hnot : ¬Stranded c.hist r) :
    (∃ m ∈ c.world.db.outbox, m.runId? = some r ∧ m.processed = false) ∨
      ∃ x ∈ c.world.redis.stream, x.body.runId? = some r ∧ x.delivery ≠ .acked := by
  have ha : Accounted c.hist c.world :=
    hc.induct (fun w hw => .initial hw) fun h w e _ ha hl _ => ha.step hl
  rcases ha.queued r hq with hstranded | ⟨i, hu⟩ | ⟨n, hu⟩
  · exact absurd hstranded hnot
  · obtain ⟨m, hm, hname, hnew⟩ := hu.message
    exact .inl ⟨m, List.mem_of_getElem? hm, hname, hnew⟩
  · obtain ⟨x, hx, hname, hno⟩ := hu.entry
    exact .inr ⟨x, List.mem_of_getElem? hx, hname, hno⟩

instance (db : Db) (r : RunId) : Decidable (db.Queued r) :=
  decidable_of_iff ((db.runs[r]?).any (·.status = .queued) = true) <| by
    simp [Db.Queued, Option.any_eq_true]

instance (e : Event cfg) (r : RunId) : Decidable (Queues e r) := inferInstanceAs (Decidable (_ ∧ _))

instance (e : Event cfg) : Decidable (ByTelegram e) := by
  unfold ByTelegram
  split <;> infer_instance

instance (e : Event cfg) (r : RunId) : Decidable (Adds e r) := by
  unfold Adds
  split <;> infer_instance

instance (h : History cfg) (r : RunId) : Decidable (Stranded h r) :=
  inferInstanceAs (Decidable (Since _ _ h))

/-- A run that was created and published, and not received yet. -/
theorem queued_accounted_published : ∃ c : Config (system {}), Reachable {} anyEvent c ∧
    c.world.db.Queued 0 ∧ ¬Stranded c.hist 0 ∧
    ((∃ m ∈ c.world.db.outbox, m.runId? = some 0 ∧ m.processed = false) ∨
      ∃ x ∈ c.world.redis.stream, x.body.runId? = some 0 ∧ x.delivery ≠ .acked) := by
  obtain ⟨c, hc, hsee⟩ := reachable_of_run (K := anyEvent)
    (fun c : Config (system {}) => (decide (c.world.db.Queued 0), decide (Stranded c.hist 0)))
    (x := (true, false)) (World.empty_initial 0 []) (taskPublished {}) (by rfl)
  have hq := of_decide_eq_true (congrArg Prod.fst hsee)
  have hnot := of_decide_eq_false (congrArg Prod.snd hsee)
  exact ⟨c, hc, hq, hnot, queued_accounted hc hq hnot⟩

/-- A pass of the publisher whose `XADD` fails. -/
def publishRefused : List (Move (system cfg)) :=
  [.start 0 .checkSources, .perform 0 {}, .perform 0 {},
    .perform 0 { fault := .before ⟨"ConnectionError", ""⟩ }, .perform 0 {}, .crash 0]

/-- The publisher gives up after eleven attempts: the run is QUEUED, its message is passed over,
and nothing was added to the stream. -/
theorem queued_run_lost : ¬ ∀ c : Config (system {}), Reachable {} anyEvent c →
    ∀ r, c.world.db.Queued r →
      (∃ m ∈ c.world.db.outbox, m.runId? = some r ∧ m.processed = false ∧ m.attempts ≤ 10) ∨
        ∃ n x, c.world.redis.evicted ≤ n ∧ c.world.redis.stream[n]? = some x ∧
          x.body.runId? = some r ∧ x.delivery ≠ .acked := by
  obtain ⟨c, hc, hsee⟩ := reachable_of_run (K := anyEvent)
    (fun c : Config (system {}) => (decide (c.world.db.Queued 0),
      c.world.db.outbox.all (10 < ·.attempts), c.world.redis.stream.isEmpty))
    (x := (true, true, true)) (World.empty_initial 0 [])
    (serve {} 0 (.createTask { title := "task", prompt := "prompt" } 0) 2 ++
      (List.replicate 11 publishRefused).flatten) (by rfl)
  simp only [Prod.mk.injEq] at hsee
  obtain ⟨hq, hattempts, hempty⟩ := hsee
  intro hall
  rcases hall c hc 0 (of_decide_eq_true hq) with ⟨m, hm, -, -, hle⟩ | ⟨n, x, -, hx, -⟩
  · have hgt : 10 < m.attempts := of_decide_eq_true (List.all_eq_true.1 hattempts m hm)
    exact absurd hle (Nat.not_le.2 hgt)
  · rw [List.isEmpty_iff.1 hempty] at hx
    cases hx

end Observatory
