import Observatory.Verify.Duplicates
import Observatory.Verify.Terminal

/-!
# Leases

A claim gives a worker its run for thirty seconds, and the heartbeat task of the coordinator renews
that every five.  A worker whose heartbeat comes on time is to keep its run until it has committed
what has become of it (`Keeps`).

The continuation of an approval has no heartbeat, so a call that takes longer than the lease loses
the run (`lease_outlasted`).  `Undisputed` says what else stands between a worker and its run: time
without a heartbeat, a recovery that judges an old row, an earlier holder, a `/resume` that has loaded
an old row, and giving up.
-/

namespace Observatory

open Effect Effect.Machine

variable {cfg : Settings}

/-! ## What happens to a run -/

/-- Process `p` has got the claim of `r`. -/
def takes (p : Pid) (r : RunId) (e : Event cfg) : Bool :=
  match e.act with
  | .did p' (.db (.claimRun r')) (.ok true) _ => p' = p && r' = r
  | _ => false

/-- A recovery has failed `r`. -/
def failsStuck (r : RunId) (e : Event cfg) : Bool :=
  match e.act with
  | .did _ (.db (.commitRecovery rows)) (.ok _) _ => rows.any (·.1 = r)
  | _ => false

/-- The transaction of a process commits what has become of `r`. -/
def DbOp.concludes (r : RunId) : (o : DbOp) → o.Ans → Bool
  | .continuation r', .settled .. => r' = r
  | .markAmbiguous r' _, _ | .continuationSucceeded r' .., _ | .continuationFailed r' .., _
  | .finalCommit r' .., _ => r' = r
  | _, _ => false

/-- Process `p` has committed what has become of `r`, or it has crashed. -/
def releases (p : Pid) (r : RunId) (e : Event cfg) : Bool :=
  match e.act with
  | .did p' (.db o) (.ok a) _ => p' = p && o.concludes r a
  | .crashed p' => p' = p
  | _ => false

/-- From the claim of `r` by `p` to its own final commit. -/
def Tenure (p : Pid) (r : RunId) : History cfg → Prop :=
  Since (fun _ e => releases p r e = false) (fun _ e => takes p r e = true)

/-- **A healthy worker keeps its run**: nobody else claims it, and no recovery fails it. -/
def Keeps (p : Pid) (r : RunId) (h : History cfg) (e : Event cfg) : Prop :=
  Tenure p r h → (∀ p', takes p' r e = true → p' = p) ∧ failsStuck r e = false

/-- The heartbeat task of `p` makes its updates when they are due. -/
def OnTime (p : Pid) (_ : History cfg) (e : Event cfg) : Prop :=
  ∀ b ∈ e.before.beats p, e.after.now ≤ b.due

/-! ## Renewals -/

/-- The heartbeat task of `p` renews the lease of `r`. -/
def renews (p : Pid) (r : RunId) (e : Event cfg) : Bool :=
  match e.act with
  | .ticked (.beat p') => p' = p && (e.before.beats p).any (·.run = r)
  | _ => false

def startsHeartbeat (p : Pid) (e : Event cfg) : Bool :=
  match e.act with
  | .did p' (.ext (.startHeartbeat _)) _ _ => p' = p
  | _ => false

/-- When a lease was renewed, and whether the heartbeat task has done that since it was started. -/
structure Renewal where
  time : Time
  beat : Bool := false

/-- The last renewal of the lease of `r` by `p`. -/
def renewal (p : Pid) (r : RunId) : History cfg → Option Renewal
  | [] => none
  | e :: h =>
    if takes p r e then some { time := e.before.now }
    else if renews p r e then some { time := e.before.now, beat := true }
    else if startsHeartbeat p e then (renewal p r h).map ({ · with beat := false })
    else renewal p r h

/-- What a recovery judges: a run, with the row it has loaded before. -/
def judged (h : History cfg) (e : Event cfg) : Option (RunId × Run) :=
  match e.act with
  | .did p (.ext .utcnow) (.ok _) _ =>
    match phaseOf cfg h p with
    | some ⟨_, .recovering _ (x :: _) _⟩ => some x
    | _ => none
  | _ => none

/-- A worker tries to claim `r`, or a recovery judges it. -/
def disputes (r : RunId) (h : History cfg) (e : Event cfg) : Bool :=
  attemptedRun e = some r || (judged h e).any (·.1 = r)

/-- The run is looked at within thirty seconds of its last renewal, where the heartbeat task does not
see to that: it is not running, or has not made its first update. -/
def InLease (p : Pid) (r : RunId) (h : History cfg) (e : Event cfg) : Prop :=
  ∀ n ∈ renewal p r h, (n.beat && (e.before.beats p).any (·.run = r)) = false →
    e.before.now ≤ n.time + Db.leaseMs

/-- **Nobody disputes the run.** -/
structure Undisputed (p : Pid) (r : RunId) (h : History cfg) (e : Event cfg) : Prop where
  onTime : OnTime p h e
  /-- the claim finds no other holder, and no recovery that is about to fail the run -/
  claim : takes p r e = true → Free h r ∧ Unpicked h r
  /-- neither an exception nor a refused approval makes the worker give up -/
  kept : Tenure p r (e :: h) → Held (e :: h) p r
  lease : disputes r h e = true → Tenure p r h → InLease p r h e
  /-- no `/resume` that had loaded the run PAUSED commits -/
  resume : Tenure p r h → unpausedRun e ≠ some r
  /-- a row that is judged is still the one in the table, or its lease is not over -/
  fresh : ∀ x ∈ judged h e, x.1 = r → Tenure p r h →
    (e.before.db.runs[r]?).map (·.leaseExpiresAt) = some x.2.leaseExpiresAt ∨
      ∀ lease ∈ x.2.leaseExpiresAt, e.before.now ≤ lease

instance (h : History cfg) (p : Pid) (r : RunId) : Decidable (Held h p r) :=
  decidable_of_iff ((phaseOf cfg h p).any (·.stage.holds = some r)) (by
    simp [Option.any_eq_true, Held])

instance (p : Pid) (r : RunId) (h : History cfg) : Decidable (Tenure p r h) :=
  inferInstanceAs (Decidable (Since _ _ h))

instance (p : Pid) (h : History cfg) (e : Event cfg) : Decidable (OnTime p h e) :=
  inferInstanceAs (Decidable (∀ b ∈ e.before.beats p, e.after.now ≤ b.due))

instance (p : Pid) (r : RunId) (h : History cfg) (e : Event cfg) : Decidable (InLease p r h e) :=
  inferInstanceAs (Decidable (∀ n ∈ renewal p r h, _ → _))

instance (p : Pid) (r : RunId) (h : History cfg) (e : Event cfg) : Decidable (Undisputed p r h e) :=
  decidable_of_iff (_ ∧ _ ∧ _ ∧ _ ∧ _ ∧ _)
    ⟨fun hu => ⟨hu.1, hu.2.1, hu.2.2.1, hu.2.2.2.1, hu.2.2.2.2.1, hu.2.2.2.2.2⟩,
      fun hu => ⟨hu.1, hu.2, hu.3, hu.4, hu.5, hu.6⟩⟩

section steps

variable {h : History cfg} {w : World} {e : Event cfg} {p p' : Pid} {r : RunId}

/-! ## Events -/

theorem takes_iff : takes p r e = true ↔ ClaimsRun e p r := by
  constructor
  · intro ht
    unfold takes at ht
    split at ht
    · next p' r' stays act =>
      rw [Bool.and_eq_true, decide_eq_true_eq, decide_eq_true_eq] at ht
      obtain ⟨rfl, rfl⟩ := ht
      exact ⟨stays, act⟩
    · cases ht
  · rintro ⟨stays, act⟩
    simp [takes, act]

theorem attemptedRun_of_takes (ht : takes p r e = true) : attemptedRun e = some r := by
  obtain ⟨stays, act⟩ := takes_iff.1 ht
  simp only [attemptedRun, act]

theorem renews_iff : renews p r e = true ↔
    e.act = .ticked (.beat p) ∧ ∃ b, e.before.beats p = some b ∧ b.run = r := by
  constructor
  · intro hr
    unfold renews at hr
    split at hr
    · next p' act =>
      rw [Bool.and_eq_true, decide_eq_true_eq, Option.any_eq_true] at hr
      obtain ⟨rfl, b, hb, hrun⟩ := hr
      exact ⟨act, b, hb, of_decide_eq_true hrun⟩
    · cases hr
  · rintro ⟨act, b, hb, hrun⟩
    simp [renews, act, hb, hrun]

theorem not_takes_of_renews (hr : renews p r e = true) : takes p r e = false := by
  obtain ⟨act, -⟩ := renews_iff.1 hr
  simp [takes, act]

theorem renewal_takes (ht : takes p r e = true) :
    renewal p r (e :: h) = some { time := e.before.now } := by
  rw [renewal, if_pos ht]

theorem renewal_renews (hr : renews p r e = true) :
    renewal p r (e :: h) = some { time := e.before.now, beat := true } := by
  rw [renewal, not_takes_of_renews hr, if_neg Bool.false_ne_true, if_pos hr]

/-- Other events leave the last renewal, but the heartbeat may have been started anew. -/
theorem renewal_other {n : Renewal} (ht : takes p r e = false) (hr : renews p r e = false)
    (hn : renewal p r h = some n) :
    ∃ n', renewal p r (e :: h) = some n' ∧ n'.time = n.time ∧
      (n'.beat = true → n.beat = true ∧ startsHeartbeat p e = false) := by
  rw [renewal, ht, hr, if_neg Bool.false_ne_true, if_neg Bool.false_ne_true, hn]
  cases hs : startsHeartbeat p e with
  | true => exact ⟨_, rfl, rfl, fun hbeat => Bool.noConfusion hbeat⟩
  | false => exact ⟨n, rfl, rfl, fun hbeat => ⟨hbeat, rfl⟩⟩

/-- Who has been found stuck was judged. -/
theorem judged_of_foundStuck (hf : foundStuck h e = some r) :
    ∃ q g cutoff now loaded rest picked stays, phaseOf cfg h q = some g ∧
      g.stage = .recovering cutoff ((r, loaded) :: rest) picked ∧
      Db.stuck cutoff now loaded = true ∧ e.act = .did q (.ext .utcnow) (.ok now) stays ∧
      judged h e = some (r, loaded) := by
  obtain ⟨q, g, cutoff, now, loaded, rest, picked, stays, hg, hs, hstuck, act⟩ := foundStuck_some hf
  refine ⟨q, g, cutoff, now, loaded, rest, picked, stays, hg, hs, hstuck, act, ?_⟩
  obtain ⟨entry, stage⟩ := g
  subst hs
  simp only [judged, act, hg]

/-! ## What recoveries see -/

/-- A run that is EXECUTING has a lease, of thirty seconds from its last heartbeat at most. -/
def Leased (now : Time) (run : Run) : Prop :=
  run.status = .executing → ∃ lease beat, run.leaseExpiresAt = some lease ∧
    run.heartbeatAt = some beat ∧ lease ≤ beat + Db.leaseMs ∧ beat ≤ now

theorem Leased.mono {now now' : Time} {run : Run} (hrun : Leased now run) (hle : now ≤ now') :
    Leased now' run := by
  intro hs
  obtain ⟨lease, beat, hlease, hbeat, hbound, hnow⟩ := hrun hs
  exact ⟨lease, beat, hlease, hbeat, hbound, hnow.trans hle⟩

/-- Every run has its lease, and so has every row a recovery has loaded. -/
structure Timed (h : History cfg) (w : World) : Prop where
  rows : ∀ run ∈ w.db.runs, Leased w.now run
  watching : ∀ {p : Pid} {g : Phase} {cutoff : Time}, phaseOf cfg h p = some g →
    g.stage = .watching cutoff → cutoff + Db.stuckThreshold ≤ w.now
  recovering : ∀ {p : Pid} {g : Phase} {cutoff : Time} {todo picked : List (RunId × Run)},
    phaseOf cfg h p = some g → g.stage = .recovering cutoff todo picked →
      cutoff + Db.stuckThreshold ≤ w.now ∧
        ∀ x ∈ todo, x.2.status = .executing ∧ Leased w.now x.2

theorem Timed.initial {w : World} (hw : World.Initial w) : Timed ([] : History cfg) w := by
  refine ⟨?_, ?_, ?_⟩
  · rw [hw.db]
    intro run hmem
    cases hmem
  · intro p g cutoff hg
    cases hg
  · intro p g cutoff todo picked hg
    cases hg

/-- What a transaction leaves has its lease. -/
theorem Leased.write {db : Db} {now : Time} {v : WorkerId} {o : DbOp} {run run' : Run} {g : Phase}
    (hrun : Leased now run) (allowed : Flow.allowsDb g o) (hw : RunWrite db now v r run o run') :
    Leased now run' := by
  intro hs
  cases hw with
  | claimed hc => exact ⟨_, _, rfl, rfl, le_rfl, le_rfl⟩
  | controlled loaded request =>
    rw [Db.controlled_status] at hs
    obtain ⟨lease, beat, hlease, hbeat, hbound, hnow⟩ := hrun hs
    refine ⟨lease, beat, by rw [Db.controlled_leaseExpiresAt, hlease], ?_, hbound, hnow⟩
    rw [Db.controlled_heartbeatAt, hbeat]
  | recovered hr hrec =>
    rw [hrec.status] at hs
    cases hs
  | resumed loaded =>
    have hrun' : run.status = .executing := by
      by_cases hpaused : loaded.status = .paused
      · simp [Db.resumed, hpaused] at hs
      · simpa only [Db.resumed, hpaused, ite_false] using hs
    exact hrun hrun'
  | approved user happr hr hp hexp hwait =>
    rw [ApprovalService.requeued, if_pos hwait] at hs
    cases hs
  | rejected user happr hr hp hexp hwait =>
    rw [ApprovalService.rejected, if_pos hwait] at hs
    cases hs
  | committed loaded out =>
    obtain ⟨c, -, hlands⟩ := allowed
    have hout : out.status ≠ .executing := by
      intro heq
      have hmem := hlands.reportable
      rw [heq] at hmem
      simp at hmem
    have hrun' : run.status = .executing := by
      simp only [Db.committed, Db.written] at hs
      split at hs
      · exact hs
      · exact absurd hs hout
    obtain ⟨lease, beat, hlease, hbeat, hbound, hnow⟩ := hrun hrun'
    by_cases hsame : some now = loaded.heartbeatAt
    · refine ⟨lease, beat, hlease, ?_, hbound, hnow⟩
      simp only [Db.committed, Db.written, hsame, ite_true]
      exact hbeat
    · refine ⟨lease, now, hlease, ?_, hbound.trans (Int.add_le_add_right hnow _), le_rfl⟩
      simp only [Db.committed, Db.written, hsame, ite_false]
  | _ => cases hs

theorem Timed.rows_step (ht : Timed h w) (hsound : Sound h w) (hl : Lawful cfg h w e) :
    ∀ run ∈ e.after.db.runs, Leased e.after.now run := by
  intro run' hmem
  obtain ⟨r, hrow'⟩ := List.mem_iff_getElem?.1 hmem
  refine Leased.mono ?_ hl.happens.now_le
  cases hl.run hsound hrow' with
  | same row => exact ht.rows run' (List.mem_of_getElem? row)
  | fresh running allowed act row hf =>
    intro hs
    rw [hf.status] at hs
    cases hs
  | write running allowed act row hw => exact (ht.rows _ (List.mem_of_getElem? row)).write allowed hw
  | @beaten p b run hb hr act row hrun =>
    subst hrun
    have hleased := ht.rows run (List.mem_of_getElem? row)
    unfold Db.beaten
    split
    · exact fun _ => ⟨_, _, rfl, rfl, le_rfl, le_rfl⟩
    · exact hleased

theorem Timed.watching_step {g : Phase} {cutoff : Time} (ht : Timed h w) (hl : Lawful cfg h w e)
    (hg : phaseOf cfg (e :: h) p = some g) (hs : g.stage = .watching cutoff) :
    cutoff + Db.stuckThreshold ≤ e.after.now := by
  refine le_trans ?_ hl.happens.now_le
  cases hl.became hg with
  | kept running other => exact ht.watching running hs
  | started q act phase =>
    subst phase
    cases q <;> cases hs
  | @did o res g₀ act running step =>
    cases step with
    | logged h₀ => exact ht.watching running hs
    | dlq h₀ => exact ht.watching running hs
    | operated h₀ => exact ht.watching running hs
    | watching h₀ =>
      cases hs
      rw [hl.utcnow act, Int.sub_add_cancel]
    | _ => cases hs

theorem Timed.recovering_step {g : Phase} {cutoff : Time} {todo picked : List (RunId × Run)}
    (ht : Timed h w) (hl : Lawful cfg h w e) (hg : phaseOf cfg (e :: h) p = some g)
    (hs : g.stage = .recovering cutoff todo picked) :
    cutoff + Db.stuckThreshold ≤ e.after.now ∧
      ∀ x ∈ todo, x.2.status = .executing ∧ Leased e.after.now x.2 := by
  have hle : w.now ≤ e.after.now := hl.happens.now_le
  have hwas : cutoff + Db.stuckThreshold ≤ w.now ∧
      ∀ x ∈ todo, x.2.status = .executing ∧ Leased w.now x.2 := by
    cases hl.became hg with
    | kept running other => exact ht.recovering running hs
    | started q act phase =>
      subst phase
      cases q <;> cases hs
    | @did o res g₀ act running step =>
      cases step with
      | logged h₀ => exact ht.recovering running hs
      | dlq h₀ => exact ht.recovering running hs
      | operated h₀ => exact ht.recovering running hs
      | loaded h₀ =>
        cases hs
        refine ⟨ht.watching running h₀, fun x hx => ?_⟩
        have hrows := congrArg Prod.snd (hl.committed_of_ok act)
        cases hrows
        obtain ⟨hrow, hexec⟩ := selectExecuting_mem hx
        exact ⟨hexec, ht.rows _ (List.mem_of_getElem? hrow)⟩
      | judged h₀ =>
        cases hs
        obtain ⟨hcutoff, hrows⟩ := ht.recovering running h₀
        exact ⟨hcutoff, fun x hx => hrows x (List.mem_cons_of_mem _ hx)⟩
      | _ => cases hs
  exact ⟨hwas.1.trans hle, fun x hx => ⟨(hwas.2 x hx).1, (hwas.2 x hx).2.mono hle⟩⟩

theorem Timed.step (ht : Timed h w) (hsound : Sound h w) (hl : Lawful cfg h w e) :
    Timed (e :: h) e.after where
  rows := ht.rows_step hsound hl
  watching := ht.watching_step hl
  recovering := ht.recovering_step hl

/-- A row whose lease is not over is not found stuck. -/
theorem not_stuck {cutoff now : Time} {run : Run} (hexec : run.status = .executing)
    (hrun : Leased now run) (hcutoff : cutoff + Db.stuckThreshold ≤ now)
    (hlease : ∀ lease ∈ run.leaseExpiresAt, now ≤ lease) : Db.stuck cutoff now run = false := by
  obtain ⟨lease, beat, hsome, hbeat, hbound, -⟩ := hrun hexec
  have hle := hlease lease hsome
  simp only [Db.stuck, hsome, hbeat, Option.getD_some, Option.any_some, Bool.or_eq_false_iff,
    decide_eq_false_iff_not, not_lt]
  have hchain : cutoff + Db.stuckThreshold ≤ beat + Db.stuckThreshold := calc
    cutoff + Db.stuckThreshold ≤ now := hcutoff
    _ ≤ lease := hle
    _ ≤ beat + Db.leaseMs := hbound
    _ ≤ beat + Db.stuckThreshold := Int.add_le_add_left (by decide) beat
  exact ⟨Int.le_of_add_le_add_right hchain, hle⟩

/-! ## The tenure of a run -/

/-- The row of a run in the charge of `p`, which has renewed its lease last at `n`. -/
structure InCharge (p : Pid) (n : Renewal) (run : Run) : Prop where
  executing : run.status = .executing
  worker : run.workerId = some p
  lease : run.leaseExpiresAt = some (n.time + Db.leaseMs)

/-- **What a tenure is guarded by**: one holder, no recovery about to fail the run, and a lease that
the heartbeat task has renewed an interval before its next update. -/
structure Guarded (p : Pid) (r : RunId) (h : History cfg) (w : World) : Prop where
  held : Held h p r
  alone : ∀ {p' : Pid}, Held h p' r → p' = p
  unpicked : Unpicked h r
  row : ∃ n run, renewal p r h = some n ∧ w.db.runs[r]? = some run ∧ InCharge p n run
  beating : ∀ {n : Renewal} {b : Beat}, renewal p r h = some n → w.beats p = some b → b.run = r →
    n.beat = true → b.due = n.time + heartbeatIntervalMs

/-- **Whoever looks at the run comes in time.** -/
theorem Guarded.in_time {n : Renewal} (hg : Guarded p r h w) (hl : Lawful cfg h w e)
    (hu : Undisputed p r h e) (ht : Tenure p r h) (hn : renewal p r h = some n)
    (hd : disputes r h e = true) : w.now ≤ n.time + Db.leaseMs := by
  cases hbeat : n.beat && (e.before.beats p).any (·.run = r) with
  | false =>
    have hlease := hu.lease hd ht n hn hbeat
    rwa [hl.before] at hlease
  | true =>
    rw [Bool.and_eq_true, Option.any_eq_true] at hbeat
    obtain ⟨hmade, b, hb, hrun⟩ := hbeat
    have hdue := hu.onTime b hb
    rw [hl.before] at hb
    rw [hg.beating hn hb (of_decide_eq_true hrun) hmade] at hdue
    calc w.now ≤ e.after.now := hl.happens.now_le
      _ ≤ n.time + heartbeatIntervalMs := hdue
      _ ≤ n.time + Db.leaseMs := Int.add_le_add_left (by decide) n.time

/-- Nobody gets the claim. -/
theorem Guarded.unclaimed (hg : Guarded p r h w) (hl : Lawful cfg h w e)
    (hu : Undisputed p r h e) (ht : Tenure p r h) : takes p' r e = false := by
  by_contra htakes
  have htakes := Bool.eq_true_of_not_eq_false htakes
  obtain ⟨run, hrow, hclaim, -⟩ := hl.claims (takes_iff.1 htakes)
  obtain ⟨n, run₀, hn, hrow₀, hcharge⟩ := hg.row
  cases hrow.symm.trans hrow₀
  have hle := hg.in_time hl hu ht hn (by
    rw [disputes, attemptedRun_of_takes htakes, decide_eq_true rfl, Bool.true_or])
  simp only [Db.claimable, hcharge.executing, hcharge.lease, reduceCtorEq, decide_false,
    Bool.false_or, decide_true, Bool.true_and, Option.all_some, decide_eq_true_eq] at hclaim
  exact absurd hclaim (not_lt.2 hle)

/-- No recovery finds the run stuck. -/
theorem Guarded.unfound (hg : Guarded p r h w) (htimed : Timed h w) (hl : Lawful cfg h w e)
    (hu : Undisputed p r h e) (ht : Tenure p r h) : foundStuck h e ≠ some r := by
  intro hfound
  obtain ⟨q, g, cutoff, now, loaded, rest, picked, stays, hq, hs, hstuck, act, hj⟩ :=
    judged_of_foundStuck hfound
  obtain ⟨n, run, hn, hrow, hcharge⟩ := hg.row
  have hle := hg.in_time hl hu ht hn (by
    rw [disputes, hj, Option.any_some, decide_eq_true rfl, Bool.or_true])
  obtain ⟨hcutoff, hrows⟩ := htimed.recovering hq hs
  obtain ⟨hexec, hleased⟩ := hrows _ List.mem_cons_self
  have hfresh := hu.fresh _ hj rfl ht
  rw [hl.before, hrow] at hfresh
  have hlease : ∀ lease ∈ loaded.leaseExpiresAt, w.now ≤ lease := by
    rcases hfresh with hsame | hlater
    · intro lease hsome
      have hpresent : run.leaseExpiresAt = loaded.leaseExpiresAt := Option.some.inj hsame
      rw [← hpresent, hcharge.lease] at hsome
      cases hsome
      exact hle
    · exact hlater
  rw [hl.utcnow act, not_stuck hexec hleased hcutoff hlease] at hstuck
  cases hstuck

/-- What the others do leaves the row in the charge of its holder. -/
theorem Guarded.row_kept {n : Renewal} {run run' : Run} (hg : Guarded p r h w)
    (hsound : Sound h w) (hl : Lawful cfg h w e) (hu : Undisputed p r h e) (ht : Tenure p r h)
    (hheld : Held (e :: h) p r) (hbeat : renews p r e = false)
    (hrow : w.db.runs[r]? = some run) (hrow' : e.after.db.runs[r]? = some run')
    (hcharge : InCharge p n run) : InCharge p n run' := by
  cases hl.run hsound hrow' with
  | same row =>
    cases hrow.symm.trans row
    exact hcharge
  | fresh running allowed act row => cases hrow.symm.trans row
  | @beaten p' b run₀ hb hr act row hrun =>
    cases hrow.symm.trans row
    -- the row is that of `p`, and another worker's update does not find it
    have hother : run.workerId ≠ some p' := by
      rw [hcharge.worker]
      intro heq
      cases heq
      have hrenews : renews p r e = true := renews_iff.2 ⟨act, b, by rw [hl.before]; exact hb, hr⟩
      rw [hbeat] at hrenews
      cases hrenews
    rw [hrun, Db.beaten, if_neg hother]
    exact hcharge
  | @write p' g o stays run₀ running allowed act row hw =>
    cases hrow.symm.trans row
    have hsettles : o.settles = some r → InCharge p n run' := by
      intro ho
      obtain rfl := hg.alone ⟨g, running, holds_of_settles allowed ho⟩
      rw [hl.holds_on_status hg.held hheld act hrow hrow']
      exact hcharge
    cases hw with
    | taskNotFound hs hgone =>
      have hlt := hsound.tasks run (List.mem_of_getElem? row)
      rw [List.getElem?_eq_none_iff] at hgone
      exact absurd hlt (Nat.not_lt.2 hgone)
    | claimed hc =>
      have hres : ((DbOp.claimRun r).exec w.db w.now p').2 = .ok true := by
        simp only [DbOp.exec, DbOp.done, Db.claimRun, row, hc, ite_true]
      have htakes : takes p' r e = true := takes_iff.2 ⟨stays, act.trans (by rw [hres])⟩
      rw [hg.unclaimed hl hu ht] at htakes
      cases htakes
    | recovered hr hrec =>
      obtain ⟨cutoff, hs⟩ := allowed
      obtain ⟨loaded, hmem⟩ := hr
      have hpicks : g.stage.picks r = true := by
        rw [hs]
        exact List.any_eq_true.2 ⟨(r, loaded), hmem, by simp⟩
      rw [hg.unpicked _ _ running] at hpicks
      cases hpicks
    | approved user happr hr hp hexp hs =>
      rw [hcharge.executing] at hs
      cases hs
    | rejected user happr hr hp hexp hs =>
      rw [hcharge.executing] at hs
      cases hs
    | controlled loaded request =>
      refine ⟨?_, ?_, ?_⟩
      · rw [Db.controlled_status, hcharge.executing]
      · rw [Db.controlled_workerId, hcharge.worker]
      · rw [Db.controlled_leaseExpiresAt, hcharge.lease]
    | resumed loaded =>
      have hloaded : loaded.status ≠ .paused := by
        intro hpaused
        refine hu.resume ht ?_
        rw [unpausedRun, act]
        exact if_pos hpaused
      refine ⟨?_, hcharge.worker, hcharge.lease⟩
      rw [Db.resumed, if_neg hloaded, hcharge.executing]
    | settledCompleted => exact hsettles rfl
    | settledFailed => exact hsettles rfl
    | ambiguous => exact hsettles rfl
    | succeeded => exact hsettles rfl
    | failed => exact hsettles rfl
    | committed => exact hsettles rfl

/-- The heartbeat's own update. -/
theorem Guarded.row_renewed (hg : Guarded p r h w) (hl : Lawful cfg h w e)
    (hbeat : renews p r e = true) :
    ∃ run', e.after.db.runs[r]? = some run' ∧ InCharge p { time := w.now, beat := true } run' := by
  obtain ⟨n, run, hn, hrow, hcharge⟩ := hg.row
  obtain ⟨act, b, hb, rfl⟩ := renews_iff.1 hbeat
  rw [hl.before] at hb
  cases hl with
  | ticked t =>
    cases act
    refine ⟨Db.beaten w.now p run, ?_, ?_⟩
    · show ((w.tick (.beat p)).db.runs)[b.run]? = _
      simp only [World.tick, hb, World.setBeat_db, Db.heartbeat, Db.updateRun]
      rw [getElem?_modify_of_some hrow, if_pos rfl]
    · rw [Db.beaten, if_pos hcharge.worker]
      exact ⟨hcharge.executing, hcharge.worker, rfl⟩
  | _ => cases act

theorem Guarded.row_step (hg : Guarded p r h w) (hsound : Sound h w) (hl : Lawful cfg h w e)
    (hu : Undisputed p r h e) (ht : Tenure p r h) (hheld : Held (e :: h) p r) :
    ∃ n run, renewal p r (e :: h) = some n ∧ e.after.db.runs[r]? = some run ∧
      InCharge p n run := by
  cases hbeat : renews p r e with
  | true =>
    obtain ⟨run', hrow', hcharge⟩ := hg.row_renewed hl hbeat
    refine ⟨_, run', renewal_renews hbeat, hrow', ?_⟩
    rw [hl.before]
    exact hcharge
  | false =>
    obtain ⟨n, run, hn, hrow, hcharge⟩ := hg.row
    obtain ⟨run', hrow'⟩ := hl.run_kept hsound hrow
    obtain ⟨n', hn', htime, -⟩ := renewal_other (hg.unclaimed hl hu ht) hbeat hn
    obtain ⟨hexec, hworker, hlease⟩ :=
      hg.row_kept hsound hl hu ht hheld hbeat hrow hrow' hcharge
    exact ⟨n', run', hn', hrow', hexec, hworker, by rw [hlease, htime]⟩

/-- A heartbeat task that has not been started, and has not renewed the lease, is as it was. -/
theorem Lawful.beats_before {b : Beat} (hl : Lawful cfg h w e) (hrenews : renews p r e = false)
    (hstarts : startsHeartbeat p e = false) (hb : e.after.beats p = some b) (hr : b.run = r) :
    w.beats p = some b := by
  cases hl with
  | started q stays idle => exact (World.settled_beats hb).1
  | crashed running => exact (World.settled_beats (show (w.settled _ false).beats p = _ from hb)).1
  | did ch stays running allowed =>
    rcases World.perform_beats (World.settled_beats hb).1 with hb | ⟨rfl, rfl⟩
    · exact hb
    · simp [startsHeartbeat] at hstarts
  | ticked t =>
    cases t with
    | advance ms => exact hb
    | beat p' =>
      by_cases hp : p' = p
      · subst hp
        obtain ⟨b₀, hb₀, hrun⟩ := World.tick_beats hb
        rw [renews_iff.2 ⟨rfl, b₀, hb₀, hrun.trans hr⟩] at hrenews
        cases hrenews
      · change (w.tick (.beat p')).beats p = some b at hb
        simp only [World.tick] at hb
        split at hb
        · exact hb
        · simpa only [World.setBeat, Function.update_of_ne (Ne.symm hp)] using hb

theorem Guarded.beating_step {n : Renewal} {b : Beat} (hg : Guarded p r h w)
    (hl : Lawful cfg h w e) (htakes : takes p r e = false) (hn : renewal p r (e :: h) = some n)
    (hb : e.after.beats p = some b) (hr : b.run = r) (hmade : n.beat = true) :
    b.due = n.time + heartbeatIntervalMs := by
  cases hrenews : renews p r e with
  | true =>
    rw [renewal_renews hrenews] at hn
    cases hn
    obtain ⟨act, b₀, hb₀, -⟩ := renews_iff.1 hrenews
    rw [hl.before] at hb₀ ⊢
    cases hl with
    | ticked t =>
      cases act
      change (w.tick (.beat p)).beats p = some b at hb
      simp only [World.tick, hb₀, World.setBeat, Function.update_self, Option.some.injEq] at hb
      rw [← hb]
    | _ => cases act
  | false =>
    obtain ⟨n₀, -, hn₀, -⟩ := hg.row
    obtain ⟨n', hn', htime, hkept⟩ := renewal_other htakes hrenews hn₀
    cases hn.symm.trans hn'
    obtain ⟨hmade₀, hstarts⟩ := hkept hmade
    rw [htime]
    exact hg.beating hn₀ (hl.beats_before hrenews hstarts hb hr) hr hmade₀

/-- A recovery that has picked the run had done so before. -/
theorem Lawful.unpicked (hl : Lawful cfg h w e) (hun : Unpicked h r)
    (hfound : foundStuck h e ≠ some r) : Unpicked (e :: h) r := by
  intro q g hq
  by_contra hpicks
  rcases hl.picked hq (Bool.eq_true_of_not_eq_false hpicks) with ⟨g₀, hq₀, hpicks₀⟩ | hfound'
  · rw [hun q g₀ hq₀] at hpicks₀
    cases hpicks₀
  · exact hfound hfound'

/-- **A tenure begins guarded.** -/
theorem Guarded.begins (hl : Lawful cfg h w e) (hu : Undisputed p r h e)
    (htakes : takes p r e = true) : Guarded p r (e :: h) e.after := by
  obtain ⟨hfree, hun⟩ := hu.claim htakes
  have hclaims := takes_iff.1 htakes
  obtain ⟨run, -, -, hrow'⟩ := hl.claims hclaims
  refine ⟨hu.kept (.inl htakes), ?_, hl.unpicked hun ?_, ?_, ?_⟩
  · intro p' hp'
    rcases hl.held hp' with hold | ⟨stays', act'⟩
    · exact absurd hold hfree.not_held
    · obtain ⟨stays, act⟩ := hclaims
      exact (Act.did.inj (act'.symm.trans act)).1
  · intro hfound
    obtain ⟨_, _, _, _, _, _, _, _, -, -, -, act'⟩ := foundStuck_some hfound
    obtain ⟨stays, act⟩ := hclaims
    cases act.symm.trans act'
  · refine ⟨_, _, renewal_takes htakes, hrow', rfl, rfl, ?_⟩
    rw [hl.before]
    rfl
  · intro n b hn hb hr hmade
    rw [renewal_takes htakes] at hn
    cases hn
    cases hmade

/-- **A tenure goes on guarded.** -/
theorem Guarded.goes_on (hg : Guarded p r h w) (htimed : Timed h w) (hsound : Sound h w)
    (hl : Lawful cfg h w e) (hu : Undisputed p r h e) (ht : Tenure p r h)
    (hreleases : releases p r e = false) : Guarded p r (e :: h) e.after := by
  have hheld : Held (e :: h) p r := hu.kept (.inr ⟨hreleases, ht⟩)
  refine ⟨hheld, ?_, hl.unpicked hg.unpicked (hg.unfound htimed hl hu ht),
    hg.row_step hsound hl hu ht hheld, ?_⟩
  · intro p' hp'
    rcases hl.held hp' with hold | hclaims
    · exact hg.alone hold
    · have htakes := takes_iff.2 hclaims
      rw [hg.unclaimed hl hu ht] at htakes
      cases htakes
  · intro n b hn hb hr hmade
    exact hg.beating_step hl (hg.unclaimed hl hu ht) hn hb hr hmade

/-- A recovery fails what it has picked. -/
theorem Lawful.picks_of_failsStuck (hl : Lawful cfg h w e) (hf : failsStuck r e = true) :
    ∃ q g, phaseOf cfg h q = some g ∧ g.stage.picks r = true := by
  unfold failsStuck at hf
  split at hf
  · next q rows u stays act =>
    obtain ⟨g, hg, cutoff, hs⟩ := hl.did act
    refine ⟨q, g, hg, ?_⟩
    rw [hs]
    exact hf
  · cases hf

/-- In a guarded tenure nobody takes the run away. -/
theorem Guarded.keeps (hg : Guarded p r h w) (hl : Lawful cfg h w e) (hu : Undisputed p r h e)
    (ht : Tenure p r h) : Keeps p r h e := by
  refine fun _ => ⟨fun p' htakes => ?_, ?_⟩
  · rw [hg.unclaimed hl hu ht] at htakes
    cases htakes
  · by_contra hfails
    obtain ⟨q, g, hq, hpicks⟩ := hl.picks_of_failsStuck (Bool.eq_true_of_not_eq_false hfails)
    rw [hg.unpicked q g hq] at hpicks
    cases hpicks

end steps

/-- **A healthy worker keeps its run**, on both paths, if nobody disputes it. -/
theorem healthy_worker_keeps_run {p : Pid} {r : RunId} {c : Config (system cfg)}
    (hc : Reachable cfg (Undisputed p r) c) : Historically (Keeps p r) c.hist := by
  refine Reachable.historically
    (P := fun h w => Timed h w ∧ (Tenure p r h → Guarded p r h w))
    (fun w hw => ⟨.initial hw, fun ht => ht.elim⟩) ?_ hc
  intro h w e hsound hP hl hu
  obtain ⟨htimed, hguarded⟩ := hP
  refine ⟨⟨htimed.step hsound hl, ?_⟩, fun ht => (hguarded ht).keeps hl hu ht ht⟩
  rintro (htakes | ⟨hreleases, ht⟩)
  · exact .begins hl hu htakes
  · exact (hguarded ht).goes_on htimed hsound hl hu ht hreleases

/-- The tool is called for forty seconds; meanwhile the entry is delivered to a second worker, which
tries to claim the run, and a recovery judges it. -/
def longCall : List (Move (system {})) :=
  taskPublished {} ++
    serve {} 1 .processOne 15 { plan := { actions := [some ⟨"read", "technocore_read", []⟩] } } ++
    (List.replicate 8 [.tick (.beat 1), .tick (.advance 5000)]).flatten ++
    serve {} 2 .processOne 4 ++ serve {} 0 .checkSources 8 ++ List.replicate 7 (.perform 1 {})

theorem healthy_worker_keeps_run_called : ∃ c : Config (system {}),
    c.hist.countP (fun e => attemptedRun e = some 0) = 2 ∧ c.hist.countP (takes 2 0) = 0 ∧
      c.world.runStatus 0 = some .completed ∧ Historically (Keeps 1 0) c.hist := by
  obtain ⟨c, hc, hsee⟩ := reachable_of_run (K := Undisputed 1 0)
    (fun c => (c.hist.countP (fun e => attemptedRun e = some 0), c.hist.countP (takes 2 0),
      c.world.runStatus 0)) (x := (2, 0, some .completed)) (World.empty_initial 0 []) longCall
    (by decide +kernel)
  exact ⟨c, congrArg Prod.fst hsee, congrArg (·.2.1) hsee, congrArg (·.2.2) hsee,
    healthy_worker_keeps_run hc⟩

/-- **A lease is outlasted.**  The call of a continuation takes thirty-one seconds, and a recovery
fails the run under the worker. -/
theorem lease_outlasted : ¬∀ (cfg : Settings) (p : Pid) (r : RunId) (c : Config (system cfg)),
    Reachable cfg (OnTime p) c → Historically (Keeps p r) c.hist := by
  intro hclaim
  obtain ⟨c, hc, hsee⟩ := reachable_of_run (K := OnTime 1)
    (fun c => c.hist.head?.map fun e => (decide (Tenure 1 0 c.hist.tail), failsStuck 0 e))
    (x := some (true, true)) (World.empty_initial 0 [])
    (approvalGranted {} ++ serve {} 1 .processOne 5 ++ [.tick (.advance 31000)] ++
      serve {} 2 .checkSources 6) (by decide +kernel)
  obtain ⟨e, he, hstatus⟩ := Option.map_eq_some_iff.1 hsee
  obtain ⟨h, hhist⟩ := List.head?_eq_some_iff.1 he
  have hkeeps := hclaim {} 1 0 c hc
  rw [hhist] at hkeeps hstatus
  have htenure : Tenure 1 0 h := of_decide_eq_true (congrArg Prod.fst hstatus)
  have hfails : failsStuck 0 e = true := congrArg Prod.snd hstatus
  rw [(hkeeps.1 htenure).2] at hfails
  cases hfails

end Observatory
