import Observatory.Verify.Holders

/-!
# Decisions and the outbox

The tables under any interleaving of transactions: decisions from the web and from Telegram,
consumptions, everything else the system commits, and rollbacks.  The invariant (`Agreed`) counts
the messages that carry an approval's key: one for an approval that is APPROVED or CONSUMED, none
for any other, and none for a row that does not exist yet.  Status edges are read off transaction by
transaction (`Moves`), and since no edge leads back to PENDING it is left at most once.
-/

namespace Observatory

open Effect Effect.Machine

/-! ## Transactions -/

/-- What one transaction makes of the committed rows.  The run an approval is created for is a
foreign key. -/
inductive Transacts (db : Db) : Db → Prop where
  | decide (now : Time) (approvalId : Text) (decision : String) (user : Option Nat) :
      Transacts db (decideTransaction db now approvalId decision user).1
  | consume {now : Time} {a : ApprovalId} {r : RunId} {db' : Db} {out : ApprovalService.Consumed}
      (h : ApprovalService.consumeAndRecord db now a r = .ok (db', out)) : Transacts db db'
  | exec (o : DbOp) (now : Time) (w : WorkerId)
      (hfk : ∀ r cls payload impact, o = .createApproval r cls payload impact →
        r < db.runs.length) :
      Transacts db (o.exec db now w).1
  | heartbeat (now : Time) (r : RunId) (w : WorkerId) : Transacts db (db.heartbeat now r w)
  | rolledBack : Transacts db db

/-- The rows before and after a transaction. -/
structure Change where
  before : Db
  after : Db

/-- A run of transactions, newest first, from tables without approvals. -/
inductive Transactions : List Change → Db → Prop where
  | init {db : Db} (happr : db.approvals = [])
      (hkeys : ∀ m ∈ db.outbox, ∀ a, m.idempotencyKey ≠ approveKey a) : Transactions [] db
  | step {h : List Change} {db db' : Db} (hr : Transactions h db) (ht : Transacts db db') :
      Transactions (⟨db, db'⟩ :: h) db'

/-! ## Approvals -/

/-- The edges of an approval's status. -/
inductive Moves : ApprovalStatus → ApprovalStatus → Prop where
  | approved : Moves .pending .approved
  | rejected : Moves .pending .rejected
  | expired : Moves .pending .expired
  | consumed : Moves .approved .consumed

theorem Moves.ne_pending {s s' : ApprovalStatus} (h : Moves s s') : s' ≠ .pending := by
  cases h <;> exact nofun

/-- What can have happened to approval `a`: it is as it was, it is new and PENDING, or its status
has moved along an edge. -/
inductive ApprovalChange (db : Db) (a : ApprovalId) (appr' : Approval) : Prop where
  | same (h : db.approvals[a]? = some appr')
  | created (h : db.approvals[a]? = none) (hs : appr'.status = .pending)
      (hr : appr'.runId < db.runs.length)
  | moved {appr : Approval} (h : db.approvals[a]? = some appr)
      (hm : Moves appr.status appr'.status) (hr : appr'.runId = appr.runId)

section approvals

variable {db db' : Db} {now : Time} {a : ApprovalId} {appr' : Approval}

theorem ApprovalCases.change {o : DbOp} (hc : ApprovalCases db now o a appr')
    (hfk : ∀ r cls payload impact, o = .createApproval r cls payload impact →
      r < db.runs.length) : ApprovalChange db a appr' := by
  cases hc with
  | same h => exact .same h
  | @created r cls payload impact ho ha hr hp hs hexp =>
    refine .created ?_ hs (hr ▸ hfk r cls payload impact ho)
    rw [ha]
    exact List.getElem?_eq_none le_rfl
  | @write appr h hw =>
    cases hw with
    | expired hp =>
      refine .moved h ?_ rfl
      rw [hp]
      exact .expired
    | decided hp hexp hdec =>
      refine .moved h ?_ rfl
      rw [hp]
      rcases hdec with rfl | rfl
      · exact .approved
      · exact .rejected
    | consumed hr hs =>
      refine .moved h ?_ rfl
      rw [hs]
      exact .consumed

/-- What a consumption leaves. -/
inductive ConsumeCases (db : Db) (now : Time) (a : ApprovalId) : Db → Prop where
  | refused : ConsumeCases db now a db
  | expired {appr : Approval} (h : db.approvals[a]? = some appr) (hs : appr.status = .pending) :
      ConsumeCases db now a (db.updateApproval a ({ · with status := .expired }))
  | consumed {appr : Approval} {x : ActionExecution} (h : db.approvals[a]? = some appr)
      (hs : appr.status = .approved) :
      ConsumeCases db now a
        { db.updateApproval a ({ · with status := .consumed }) with
          executions := db.executions ++ [x] }

theorem consume_cases {r : RunId} {out : ApprovalService.Consumed}
    (h : ApprovalService.consumeAndRecord db now a r = .ok (db', out)) :
    ConsumeCases db now a db' := by
  simp only [ApprovalService.consumeAndRecord] at h
  split at h
  · cases h
    exact .refused
  · next appr happr =>
    split at h
    · split at h
      · next hs =>
        cases h
        exact .expired happr hs
      · cases h
        exact .refused
    · split at h
      · cases h
        exact .refused
      · next hs =>
        split at h
        · cases h
        · next db'' hadd =>
          cases h
          rw [(Db.addExecution_ok hadd).1]
          exact .consumed happr (by simpa using hs)

theorem ConsumeCases.change {a₀ : ApprovalId} (hc : ConsumeCases db now a₀ db')
    (h : db'.approvals[a]? = some appr') : ApprovalChange db a appr' := by
  have hmodify : ∀ {appr : Approval} {f : Approval → Approval}, db.approvals[a₀]? = some appr →
      Moves appr.status (f appr).status → (f appr).runId = appr.runId →
      (db.approvals.modify a₀ f)[a]? = some appr' → ApprovalChange db a appr' := by
    intro appr f happr hm hr h
    rcases modify_cases h with ⟨-, h⟩ | ⟨rfl, appr₁, happr₁, rfl⟩
    · exact .same h
    · cases happr.symm.trans happr₁
      exact .moved happr hm hr
  cases hc with
  | refused => exact .same h
  | expired happr hs => exact hmodify happr (by rw [hs]; exact .expired) rfl h
  | consumed happr hs => exact hmodify happr (by rw [hs]; exact .consumed) rfl h

/-- **What a transaction does to an approval.** -/
theorem Transacts.change (ht : Transacts db db') (h : db'.approvals[a]? = some appr') :
    ApprovalChange db a appr' := by
  cases ht with
  | decide now approvalId decision user =>
    exact (decide_approvals (decideTransaction_cases db now approvalId decision user) h).change nofun
  | consume hc => exact (consume_cases hc).change h
  | exec o now w hfk => exact (approval_cases h).change hfk
  | heartbeat => exact .same h
  | rolledBack => exact .same h

end approvals

/-! ## The outbox -/

namespace Db

/-- The keys of the outbox. -/
def keys (db : Db) : List Key := db.outbox.map (·.idempotencyKey)

/-- How many messages carry the key of approval `a`. -/
def approveCount (db : Db) (a : ApprovalId) : Nat :=
  db.outbox.countP (·.idempotencyKey = approveKey a)

theorem approveCount_eq (db : Db) (a : ApprovalId) :
    db.approveCount a = db.keys.count (approveKey a) := by
  rw [approveCount, keys, List.count, List.countP_map]
  refine List.countP_congr fun m _ => ?_
  simp

end Db

/-- No run is removed, and no message that is added is an approval's. -/
structure Extends (db db' : Db) : Prop where
  runs : db.runs.length ≤ db'.runs.length
  keys : ∃ ks, db'.keys = db.keys ++ ks ∧ ∀ a, approveKey a ∉ ks

namespace Extends

variable {db db' db'' : Db} {now : Time}

theorem of_eq (hruns : db'.runs.length = db.runs.length) (hout : db'.outbox = db.outbox) :
    Extends db db' := by
  refine ⟨hruns.ge, [], ?_, by simp⟩
  rw [Db.keys, hout, Db.keys, List.append_nil]

theorem refl (db : Db) : Extends db db := of_eq rfl rfl

theorem trans (h : Extends db db') (h' : Extends db' db'') : Extends db db'' := by
  obtain ⟨ks, hks, hno⟩ := h.keys
  obtain ⟨ks', hks', hno'⟩ := h'.keys
  refine ⟨h.runs.trans h'.runs, ks ++ ks', by rw [hks', hks, List.append_assoc], fun a => ?_⟩
  rw [List.mem_append]
  exact not_or.2 ⟨hno a, hno' a⟩

theorem updateRun (db : Db) (r : RunId) (f : Run → Run) : Extends db (db.updateRun r f) :=
  of_eq (by simp) rfl

theorem of_same (h : SameTables db db') : Extends db db' := of_eq (by rw [h.runs]) h.outbox

theorem of_enqueued (h : Enqueued db db') : Extends db db' := by
  obtain ⟨new, -, hruns⟩ := h.run
  obtain ⟨m, -, -, -, hkey, hout⟩ := h.message
  refine ⟨by simp [hruns], [m.idempotencyKey], by simp [Db.keys, hout], fun a hmem => ?_⟩
  exact hkey a (List.mem_singleton.1 hmem).symm

theorem of_added (h : SameTables db db' ∨ Enqueued db db') : Extends db db' :=
  h.elim of_same of_enqueued

theorem of_recovered {x : RunId × Run} (h : Db.recoverRun now db x = .ok db') :
    Extends db db' :=
  (updateRun db x.1 (Db.recovered now x.2)).trans (of_added (recoverRun_cases h))

theorem commitOutbox (attempts : List (MessageId × OutboxMessage × Db.Attempt)) (db : Db) :
    Extends db (db.commitOutbox now attempts) := by
  induction attempts generalizing db with
  | nil => exact refl db
  | cons x attempts ih =>
    obtain ⟨i, loaded, att⟩ := x
    refine Extends.trans ?_ (ih _)
    -- an attempt writes other columns
    have hkey : ∀ m, (Db.attempted now loaded att m).idempotencyKey = m.idempotencyKey := by
      intro m
      cases att <;> rfl
    refine ⟨le_rfl, [], ?_, by simp⟩
    rw [List.append_nil]
    refine List.ext_getElem? fun j => ?_
    simp only [Db.keys, List.getElem?_map, List.getElem?_modify]
    cases db.outbox[j]? with
    | none => rfl
    | some m =>
      simp only [Option.map_eq_map, Option.map_some]
      split
      · rw [hkey]
      · rfl

theorem continuation {r : RunId} {found : Db.Continuation}
    (hc : ContinuationCases db now r db' found) : Extends db db' := by
  cases hc with
  | none => exact refl db
  | refused => exact refl db
  | consumed => exact of_eq rfl rfl
  | pendingExecution => exact refl db
  | succeeded => exact updateRun db r _
  | failed => exact updateRun db r _
  | unrecorded => exact of_eq (by simp [Db.failIfExecuting]) rfl

/-- **Only a decision adds the message of an approval.** -/
theorem exec {o : DbOp} {w : WorkerId}
    (hdecide : ∀ approvalId decision user, o ≠ .decide approvalId decision user) :
    Extends db (o.exec db now w).1 := by
  cases o with
  | openRun r => exact rowWrite_rel rfl (refl db) (updateRun db r _)
  | claimRun r => exact rowWrite_rel rfl (refl db) (updateRun db r _)
  | continuation r =>
    refine orRollback_rel (refl db) fun db' found hok => ?_
    exact continuation (continuation_cases hok)
  | markAmbiguous r a =>
    exact of_eq (by simp [DbOp.exec, DbOp.done, Db.markAmbiguous, Db.failIfExecuting]) rfl
  | continuationSucceeded r a tool args result =>
    exact of_eq (by simp [DbOp.exec, DbOp.done, Db.continuationSucceeded]) rfl
  | continuationFailed r a error =>
    exact of_eq (by simp [DbOp.exec, DbOp.done, Db.continuationFailed]) rfl
  | appendEvent r etype payload =>
    simp only [DbOp.exec, Db.appendRunEventSafe]
    split
    · exact of_eq rfl rfl
    · exact refl db
  | insertPlan => exact of_eq rfl rfl
  | insertToolCall => exact of_eq rfl rfl
  | createApproval => exact of_eq rfl rfl
  | pauseCheck => exact refl db
  | stopCheck => exact refl db
  | finalCommit r loaded o => exact updateRun db r _
  | selectOutbox => exact refl db
  | commitOutbox attempts => exact commitOutbox attempts db
  | selectExecuting => exact refl db
  | commitRecovery rows =>
    refine orRollback'_rel (refl db) fun db' hok => ?_
    exact foldlM_ok hok (refl db) fun _ _ _ _ ih hd => ih.trans (of_recovered hd)
  | selectSources => exact refl db
  | hasTask => exact refl db
  | commitSources accesses =>
    refine orRollback'_rel (refl db) fun db' hok => ?_
    exact foldlM_ok hok (refl db) fun _ _ _ _ ih hd => ih.trans (of_added (accessSource_cases hd))
  | createTask t hex =>
    refine orRollback_rel (refl db) fun db' a hok => ?_
    exact of_added (createTask_cases hok)
  | loadRun => exact refl db
  | retryRun r clientKey =>
    refine orRollback_rel (refl db) fun db' a hok => ?_
    exact of_added (retryRun_cases hok)
  | decide approvalId decision user => exact absurd rfl (hdecide approvalId decision user)
  | insertTask title prompt => exact ⟨by simp [DbOp.exec, DbOp.done, Db.insertTask, Db.addRun], [],
      by simp [Db.keys, DbOp.exec, DbOp.done, Db.insertTask, Db.addRun], by simp⟩
  | setControl r loaded request => exact updateRun db r _
  | resumeRun r loaded => exact updateRun db r _

theorem approveCount (h : Extends db db') (a : ApprovalId) :
    db'.approveCount a = db.approveCount a := by
  obtain ⟨ks, hks, hno⟩ := h.keys
  rw [Db.approveCount_eq, Db.approveCount_eq, hks, List.count_append,
    List.count_eq_zero.2 (hno a), Nat.add_zero]

end Extends

/-! ## The joint invariant -/

/-- How many messages an approval has: one if it was approved, consumed or not. -/
def carries : Option Approval → Nat
  | some appr => if appr.status = .approved ∨ appr.status = .consumed then 1 else 0
  | none => 0

/-- **Approvals, runs and outbox agree.** -/
structure Agreed (db : Db) : Prop where
  messages : ∀ a, db.approveCount a = carries db.approvals[a]?
  runs : ∀ (a : ApprovalId) (appr : Approval), db.approvals[a]? = some appr →
    appr.runId < db.runs.length

section agreed

variable {db db' : Db} {now : Time} {a : ApprovalId} {appr : Approval}

theorem carries_modify {f : Approval → Approval} (happr : db.approvals[a]? = some appr)
    (hf : carries (some (f appr)) = carries (some appr)) (b : ApprovalId) :
    carries (db.approvals.modify a f)[b]? = carries db.approvals[b]? := by
  by_cases hb : a = b
  · subst hb
    rw [List.getElem?_modify_eq, happr]
    exact hf
  · rw [List.getElem?_modify_ne _ _ hb]

theorem carries_pending (hs : appr.status = .pending) : carries (some appr) = 0 := by
  simp [carries, hs]

/-- A transaction that adds no approval's message makes no approval APPROVED. -/
theorem carries_exec {o : DbOp} {w : WorkerId}
    (hdecide : ∀ approvalId decision user, o ≠ .decide approvalId decision user) (a : ApprovalId) :
    carries (o.exec db now w).1.approvals[a]? = carries db.approvals[a]? := by
  cases hrow : (o.exec db now w).1.approvals[a]? with
  | none =>
    have hlen : db.approvals.length ≤ (o.exec db now w).1.approvals.length := approvals_grow o
    have hnone : db.approvals[a]? = none :=
      List.getElem?_eq_none (hlen.trans (List.getElem?_eq_none_iff.1 hrow))
    rw [hnone]
  | some appr' =>
    cases approval_cases hrow with
    | same h => rw [h]
    | created ho ha hr hp hs hexp =>
      have hnone : db.approvals[a]? = none := by
        rw [ha]
        exact List.getElem?_eq_none le_rfl
      rw [hnone, carries_pending hs, carries]
    | write h hw =>
      rw [h]
      cases hw with
      | expired => exact absurd rfl (hdecide _ _ _)
      | decided => exact absurd rfl (hdecide _ _ _)
      | consumed hr hs => simp [carries, hs]

theorem Agreed.of_same (h : Agreed db) (hout : db'.outbox = db.outbox)
    (hcarries : ∀ a : ApprovalId, carries db'.approvals[a]? = carries db.approvals[a]?)
    (a : ApprovalId) :
    db'.approveCount a = carries db'.approvals[a]? := by
  rw [hcarries, ← h.messages a, Db.approveCount, hout, Db.approveCount]

theorem approveMessage_count (now : Time) (a b : ApprovalId) (r : RunId) :
    (db.outbox ++ [approveMessage now a r]).countP (·.idempotencyKey = approveKey b) =
      db.approveCount b + if a = b then 1 else 0 := by
  rw [List.countP_append, List.countP_singleton]
  by_cases hab : a = b
  · simp [Db.approveCount, approveMessage, hab]
  · simp [Db.approveCount, approveMessage, approveKey, hab]

theorem Agreed.decided {approvalId : Text} {decision : String} {user : Option Nat}
    {res : Db × Except LibError (ApprovalId × Approval)} (h : Agreed db)
    (hd : DecideCases db now user approvalId decision res) (b : ApprovalId) :
    res.1.approveCount b = carries res.1.approvals[b]? := by
  cases hd with
  | refused x => exact h.messages b
  | @expired a appr _ happr hp =>
    refine h.of_same ?_ ?_ b
    · rfl
    · exact carries_modify happr (by simp [carries, hp])
  | @runless a appr _ happr hp hexp hdec hrun =>
    -- the run is a foreign key, so it is there
    exact absurd (h.runs a appr happr) (by simpa using hrun)
  | @approved a appr run happr hp =>
    change List.countP _ _ = carries (db.approvals.modify a _)[b]?
    rw [approveMessage_count, h.messages b]
    by_cases hab : a = b
    · subst hab
      rw [List.getElem?_modify_eq, happr, carries_pending hp]
      simp [carries, ApprovalService.decided]
    · rw [List.getElem?_modify_ne _ _ hab, if_neg hab, Nat.add_zero]
  | @rejected a appr run happr hp =>
    refine h.of_same ?_ ?_ b
    · rfl
    · exact carries_modify happr (by simp [carries, ApprovalService.decided, hp])

theorem Transacts.runs_grow (ht : Transacts db db') : db.runs.length ≤ db'.runs.length := by
  cases ht with
  | decide now approvalId decision user =>
    exact (decide_grows (decideTransaction_cases db now approvalId decision user)).runs
  | consume h => cases consume_cases h <;> exact le_rfl
  | exec o now w =>
    by_cases hdecide : ∃ approvalId decision user, o = .decide approvalId decision user
    · obtain ⟨approvalId, decision, user, rfl⟩ := hdecide
      exact (decide_grows (decideTransaction_cases db now approvalId decision user)).runs
    · exact (Extends.exec fun x y z heq => hdecide ⟨x, y, z, heq⟩).runs
  | heartbeat now r w => exact (Extends.updateRun db r _).runs
  | rolledBack => exact le_rfl

/-- **Every transaction keeps the agreement.** -/
theorem Agreed.step (h : Agreed db) (ht : Transacts db db') : Agreed db' := by
  refine ⟨?_, fun a appr' hrow => ?_⟩
  · cases ht with
    | decide now approvalId decision user =>
      exact h.decided (decideTransaction_cases db now approvalId decision user)
    | consume hc =>
      cases consume_cases hc with
      | refused => exact h.messages
      | expired happr hs => exact h.of_same rfl (carries_modify happr (by simp [carries, hs]))
      | consumed happr hs => exact h.of_same rfl (carries_modify happr (by simp [carries, hs]))
    | exec o now w =>
      by_cases hdecide : ∃ approvalId decision user, o = .decide approvalId decision user
      · obtain ⟨approvalId, decision, user, rfl⟩ := hdecide
        exact h.decided (decideTransaction_cases db now approvalId decision user)
      · have hno : ∀ x y z, o ≠ .decide x y z := fun x y z heq => hdecide ⟨x, y, z, heq⟩
        intro a
        rw [(Extends.exec hno).approveCount, h.messages, carries_exec hno]
    | heartbeat => exact h.messages
    | rolledBack => exact h.messages
  · refine lt_of_lt_of_le ?_ ht.runs_grow
    cases ht.change hrow with
    | same hold => exact h.runs a appr' hold
    | created hold hs hr => exact hr
    | moved hold hm hr =>
      rw [hr]
      exact h.runs a _ hold

end agreed

/-! ## Runs of transactions -/

/-- Approval `a` leaves PENDING. -/
def Leaves (a : ApprovalId) (c : Change) : Prop :=
  ∃ appr, c.before.approvals[a]? = some appr ∧ appr.status = .pending ∧
    ∀ appr', c.after.approvals[a]? = some appr' → appr'.status ≠ .pending

/-- What holds after the transactions `h`, with the rows `db`. -/
structure DecisionsAgree (h : List Change) (db : Db) : Prop where
  /-- statuses move along the edges, and approvals are not deleted -/
  moves : Historically (fun _ c => ∀ (a : ApprovalId) (appr : Approval),
    c.before.approvals[a]? = some appr → ∃ appr' : Approval, c.after.approvals[a]? = some appr' ∧
      (appr'.status = appr.status ∨ Moves appr.status appr'.status)) h
  /-- an approval leaves PENDING at most once -/
  once : ∀ a, Historically (fun h c => Leaves a c → ¬Once (fun _ c => Leaves a c) h) h
  /-- a decision on an approval that is not PENDING any more raises and changes nothing -/
  later : ∀ (a : ApprovalId) (appr : Approval), db.approvals[a]? = some appr →
    appr.status ≠ .pending → ∀ now decision user, ∃ x, decideTransaction db now (.uuid a) decision user = (db, .error x)
  /-- one message for an approval that was approved, none for any other -/
  messages : ∀ (a : ApprovalId) (appr : Approval), db.approvals[a]? = some appr →
    (db.runs[appr.runId]?).isSome → db.approveCount a = if appr.status = .approved ∨ appr.status = .consumed then 1 else 0

section runs

variable {h : List Change} {db db' : Db} {a : ApprovalId}

theorem Transacts.approvals_grow (ht : Transacts db db') :
    db.approvals.length ≤ db'.approvals.length := by
  cases ht with
  | decide now approvalId decision user =>
    have hlen : db.approvals.length ≤
        ((DbOp.decide approvalId decision user).exec db now 0).1.approvals.length :=
      Observatory.approvals_grow _
    exact hlen
  | consume h => cases consume_cases h <;> simp
  | exec o now w => exact Observatory.approvals_grow o
  | heartbeat => exact le_rfl
  | rolledBack => exact le_rfl

theorem Agreed.run (hr : Transactions h db) : Agreed db := by
  induction hr with
  | @init db happr hkeys =>
    refine ⟨fun a => ?_, fun a appr hrow => ?_⟩
    · rw [happr, Db.approveCount, List.countP_eq_zero.2 fun m hm => by simpa using hkeys m hm a]
      rfl
    · rw [happr] at hrow
      cases hrow
  | step _ ht ih => exact ih.step ht

/-- **Statuses move along the edges.** -/
theorem Transacts.moves (ht : Transacts db db') {appr : Approval}
    (hrow : db.approvals[a]? = some appr) :
    ∃ appr', db'.approvals[a]? = some appr' ∧
      (appr'.status = appr.status ∨ Moves appr.status appr'.status) := by
  have hlt : a < db'.approvals.length :=
    (List.getElem?_eq_some_iff.1 hrow).1.trans_le ht.approvals_grow
  refine ⟨_, List.getElem?_eq_getElem hlt, ?_⟩
  cases ht.change (List.getElem?_eq_getElem hlt) with
  | same h =>
    cases hrow.symm.trans h
    exact .inl rfl
  | created h =>
    rw [hrow] at h
    cases h
  | moved h hm =>
    cases hrow.symm.trans h
    exact .inr hm

theorem moves_run (hr : Transactions h db) :
    Historically (fun _ c => ∀ (a : ApprovalId) (appr : Approval),
      c.before.approvals[a]? = some appr → ∃ appr' : Approval, c.after.approvals[a]? = some appr' ∧
        (appr'.status = appr.status ∨ Moves appr.status appr'.status)) h := by
  induction hr with
  | init => trivial
  | step _ ht ih => exact ⟨fun _ _ hrow => ht.moves hrow, ih⟩

/-- What has left PENDING is a row that is not PENDING, and stays one. -/
theorem left_run (hr : Transactions h db) (hleft : Once (fun _ c => Leaves a c) h) :
    ∃ appr, db.approvals[a]? = some appr ∧ appr.status ≠ .pending := by
  induction hr with
  | init => exact hleft.elim
  | @step h db db' _ ht ih =>
    rcases hleft with ⟨appr, hrow, -, hafter⟩ | hleft
    · obtain ⟨appr', hrow', -⟩ := ht.moves hrow
      exact ⟨appr', hrow', hafter appr' hrow'⟩
    · obtain ⟨appr, hrow, hs⟩ := ih hleft
      obtain ⟨appr', hrow', hstatus | hm⟩ := ht.moves hrow
      · exact ⟨appr', hrow', hstatus ▸ hs⟩
      · exact ⟨appr', hrow', hm.ne_pending⟩

theorem once_run (hr : Transactions h db) :
    Historically (fun h c => Leaves a c → ¬Once (fun _ c => Leaves a c) h) h := by
  induction hr with
  | init => trivial
  | step hr ht ih =>
    refine ⟨fun ⟨appr, hrow, hs, _⟩ hleft => ?_, ih⟩
    obtain ⟨appr', hrow', hs'⟩ := left_run hr hleft
    cases hrow.symm.trans hrow'
    exact hs' hs

theorem decide_later {appr : Approval} (hrow : db.approvals[a]? = some appr)
    (hs : appr.status ≠ .pending) (now : Time) (decision : String) (user : Option Nat) :
    ∃ x, decideTransaction db now (.uuid a) decision user = (db, .error x) := by
  have hrefuse : ∀ res, DecideCases db now user (.uuid a) decision res →
      ∃ x, res = (db, .error x) := by
    intro res hd
    cases hd with
    | refused x => exact ⟨x, rfl⟩
    | expired happr hp => exact absurd hp (by cases hrow.symm.trans happr; exact hs)
    | runless happr hp => exact absurd hp (by cases hrow.symm.trans happr; exact hs)
    | approved happr hp => exact absurd hp (by cases hrow.symm.trans happr; exact hs)
    | rejected happr hp => exact absurd hp (by cases hrow.symm.trans happr; exact hs)
  exact hrefuse _ (decideTransaction_cases db now (.uuid a) decision user)

/-- **One decision wins, and the outbox agrees with it**, after any transactions. -/
theorem decisions_agree (hr : Transactions h db) : DecisionsAgree h db := by
  refine ⟨moves_run hr, fun a => once_run hr, fun a appr hrow hs => ?_, fun a appr hrow _ => ?_⟩
  · exact decide_later hrow hs
  · rw [(Agreed.run hr).messages, hrow]
    rfl

end runs

/-- A run that waits for approval. -/
def waitingTables : Db :=
  { runs := [{ taskId := 0, status := .waitingApproval, createdAt := 0, updatedAt := 0 }] }

/-- An approval is created, approved, rejected too late, and consumed. -/
theorem decisions_agree_approved :
    ∃ h db, DecisionsAgree h db ∧ h.length = 4 ∧ db.approveCount 0 = 1 ∧
      db.approvals[0]?.map (·.status) = some .consumed := by
  have hrun : Transactions [] waitingTables := .init rfl nofun
  have hrun := hrun.step (.exec (.createApproval 0 .publicWrite ⟨"", "", []⟩ "") 0 0 fun r _ _ _ h => by
    cases h
    decide)
  have hrun := hrun.step (.decide 1 (.uuid 0) "approve" none)
  have hrun := hrun.step (.decide 2 (.uuid 0) "reject" none)
  have hrun := hrun.step (@Transacts.consume _ 3 0 0 _ _ rfl)
  exact ⟨_, _, decisions_agree hrun, rfl, by rfl, by rfl⟩

/-! ## The system -/

variable {cfg : Settings}

/-- The tables are those of a run of transactions, and what a worker holds is there. -/
structure Transacted (h : History cfg) (w : World) : Prop where
  run : ∃ t, Transactions t w.db
  held : ∀ p r, Held h p r → r < w.db.runs.length

theorem Transacted.step {h : History cfg} {w : World} {e : Event cfg} (ht : Transacted h w)
    (hs : Sound h w) (hl : Lawful cfg h w e) : Transacted (e :: h) e.after := by
  obtain ⟨t, hrun⟩ := ht.run
  refine ⟨?_, fun p r hp => ?_⟩
  · cases hl.committed with
    | quiet rows => exact ⟨t, rows ▸ hrun⟩
    | beat hb act rows => exact ⟨_, hrun.step (rows ▸ .heartbeat _ _ _)⟩
    | @transaction p g o stays running allowed act rows =>
      refine ⟨_, hrun.step (rows ▸ .exec o _ _ ?_)⟩
      rintro r cls payload impact rfl
      obtain ⟨loaded, c, act, hstage, -⟩ := allowed
      exact ht.held p r ⟨g, running, by rw [hstage]; rfl⟩
  · refine lt_of_lt_of_le ?_ (hs.grows hl).runs
    rcases hl.held hp with hp | hc
    · exact ht.held p r hp
    · obtain ⟨run, hrow, -⟩ := hl.claims hc
      exact (List.getElem?_eq_some_iff.1 hrow).1

/-- **The system's tables** are reached by such transactions, so they agree too. -/
theorem Reachable.transactions {K : History cfg → Event cfg → Prop} {c : Config (system cfg)}
    (hc : Reachable cfg K c) : ∃ t, Transactions t c.world.db := by
  refine (hc.induct (P := Transacted) (fun w hw => ⟨⟨[], ?_⟩, ?_⟩) ?_).run
  · rw [hw.db]
    exact .init rfl nofun
  · rintro p r ⟨g, hg, -⟩
    cases hg
  · intro h w e hs ht hl _
    exact ht.step hs hl

end Observatory
