import Observatory.Verify.Runs

/-!
# Who holds a run

A worker holds a run from the claim that went through to the transaction that settles the run, or
until it gives up.  Holding begins with a claim only (`Lawful.held`), a holder that goes on holding
leaves the run rows as they are (`Lawful.holds_on`), and `Lawful.run` tells how a run row came to be
what it is after an event.
-/

namespace Observatory

open Effect Effect.Machine

variable {cfg : Settings} {h : History cfg} {w : World} {e : Event cfg} {p p' : Pid} {r : RunId}

/-- The run a worker holds. -/
def Stage.holds : Stage → Option RunId
  | .claimed r _ | .pendingFound r _ | .consumed r _ _ | .called r _ _ _ | .callFailed r _
  | .coordinating r _ _ | .returned r _ _ => some r
  | _ => none

/-- Process `p` holds run `r`. -/
def Held (h : History cfg) (p : Pid) (r : RunId) : Prop :=
  ∃ g, phaseOf cfg h p = some g ∧ g.stage.holds = some r

/-- Nobody holds the run `r`. -/
def Free (h : History cfg) (r : RunId) : Prop :=
  ∀ p g, phaseOf cfg h p = some g → g.stage.holds ≠ some r

/-- A recovery has found `r` stuck and has yet to commit. -/
def Stage.picks : Stage → RunId → Bool
  | .recovering _ _ picked, r => picked.any (·.1 = r)
  | _, _ => false

/-- No recovery is about to fail the run `r`. -/
def Unpicked (h : History cfg) (r : RunId) : Prop :=
  ∀ p g, phaseOf cfg h p = some g → g.stage.picks r = false

instance (h : History cfg) (r : RunId) : Decidable (Free h r) := decidableForallRunning

instance (h : History cfg) (r : RunId) : Decidable (Unpicked h r) := decidableForallRunning

/-- The claim of `r` by `p` went through. -/
def ClaimsRun (e : Event cfg) (p : Pid) (r : RunId) : Prop :=
  ∃ stays, e.act = .did p (.db (.claimRun r)) (.ok true) stays

/-- The run that was claimed. -/
def claimedRun (e : Event cfg) : Option RunId :=
  match e.act with
  | .did _ (.db (.claimRun r)) (.ok true) _ => some r
  | _ => none

theorem ClaimsRun.claimedRun (hc : ClaimsRun e p r) : claimedRun e = some r := by
  obtain ⟨stays, act⟩ := hc
  simp only [Observatory.claimedRun, act]

theorem Free.not_held (hf : Free h r) : ¬Held h p r := fun ⟨g, hg, hs⟩ => hf p g hg hs

theorem free_of_not_held (hn : ∀ p, ¬Held h p r) : Free h r := fun p g hg hs => hn p ⟨g, hg, hs⟩

theorem req_phase_holds (q : Req) : q.phase.stage.holds = none := by
  cases q <;> rfl

/-- **Holding begins with a claim.** -/
theorem Lawful.held (hl : Lawful cfg h w e) (hp : Held (e :: h) p r) :
    Held h p r ∨ ClaimsRun e p r := by
  obtain ⟨g, hg, hs⟩ := hp
  cases hl.became hg with
  | kept running other => exact .inl ⟨g, running, hs⟩
  | started q act phase =>
    subst phase
    rw [req_phase_holds] at hs
    cases hs
  | @did o res g₀ act running step =>
    have hold : g₀.stage.holds = some r → Held h p r := fun hs₀ => ⟨g₀, running, hs₀⟩
    cases step with
    | claimed h₀ =>
      cases hs
      exact .inr ⟨true, act⟩
    | logged h₀ => exact .inl (hold hs)
    | dlq h₀ => exact .inl (hold hs)
    | operated h₀ => exact .inl (hold hs)
    | noApproval h₀ => exact .inl (hold (by rw [h₀]; exact hs))
    | pendingFound h₀ => exact .inl (hold (by rw [h₀]; exact hs))
    | consumed h₀ => exact .inl (hold (by rw [h₀]; exact hs))
    | callUnlogged h₀ => exact .inl (hold (by rw [h₀]; exact hs))
    | approvedCalled h₀ => exact .inl (hold (by rw [h₀]; exact hs))
    | approvedRaised h₀ => exact .inl (hold (by rw [h₀]; exact hs))
    | unsucceeded h₀ => exact .inl (hold (by rw [h₀]; exact hs))
    | coordinated h₀ => exact .inl (hold (by rw [h₀]; exact hs))
    | returned h₀ => exact .inl (hold (by rw [h₀]; exact hs))
    | _ => cases hs

/-- Who has claimed held nothing before. -/
theorem Lawful.claimant (hl : Lawful cfg h w e) (hc : ClaimsRun e p r) (r' : RunId) :
    ¬Held h p r' := by
  rintro ⟨g, hg, hs⟩
  obtain ⟨stays, act⟩ := hc
  obtain ⟨g', hg', loaded, hstage⟩ := hl.did act
  cases hg.symm.trans hg'
  rw [hstage] at hs
  cases hs

/-- No run has two holders. -/
def SoleHolders (h : History cfg) : Prop := ∀ p p' r, Held h p r → Held h p' r → p = p'

theorem SoleHolders.initial : SoleHolders ([] : History cfg) := by
  rintro p p' r ⟨g, hg, -⟩
  cases hg

/-- Claiming free runs only, no run gets a second holder. -/
theorem SoleHolders.step (hsole : SoleHolders h) (hl : Lawful cfg h w e)
    (hfree : ∀ r ∈ claimedRun e, Free h r) : SoleHolders (e :: h) := by
  intro p p' r hp hp'
  rcases hl.held hp with hold | hc <;> rcases hl.held hp' with hold' | hc'
  · exact hsole p p' r hold hold'
  · exact absurd hold (hfree r hc'.claimedRun).not_held
  · exact absurd hold' (hfree r hc.claimedRun).not_held
  · obtain ⟨stays, act⟩ := hc
    obtain ⟨stays', act'⟩ := hc'
    exact (Act.did.inj (act.symm.trans act')).1

/-- The run whose `/resume` has committed, if it was PAUSED when it was loaded. -/
def unpausedRun (e : Event cfg) : Option RunId :=
  match e.act with
  | .did _ (.db (.resumeRun r loaded)) (.ok _) _ => if loaded.status = .paused then some r else none
  | _ => none

/-- What a claim that went through found and left. -/
theorem Lawful.claims (hl : Lawful cfg h w e) (hc : ClaimsRun e p r) :
    ∃ run, w.db.runs[r]? = some run ∧ Db.claimable w.now run = true ∧
      e.after.db.runs[r]? = some (Db.claimed w.now p run) := by
  obtain ⟨stays, act⟩ := hc
  have hexec := hl.committed_of_ok act
  simp only [DbOp.exec, DbOp.done, Db.claimRun] at hexec
  split at hexec
  · cases congrArg Prod.snd hexec
  · next run hrun =>
    split at hexec
    · next hclaim =>
      refine ⟨run, hrun, hclaim, ?_⟩
      have hdb : w.db.updateRun r (Db.claimed w.now p) = e.after.db := congrArg Prod.fst hexec
      rw [← hdb, Db.updateRun_runs, getElem?_modify_of_some hrun, if_pos rfl]
    · cases congrArg Prod.snd hexec

/-- The clock tells the time. -/
theorem Lawful.utcnow {now : Time} {stays : Bool} (hl : Lawful cfg h w e)
    (act : e.act = .did p (.ext .utcnow) (.ok now) stays) : now = w.now := by
  cases hl.happens with
  | ext o ch stays' running allowed =>
    cases act
    rfl
  | failed o x stays' running allowed hf => cases act
  | db o => cases act
  | redis o => cases act
  | _ => cases act

/-! ## Run rows along a run -/

/-- How a run row came to be what it is after an event. -/
inductive RunStep (h : History cfg) (w : World) (e : Event cfg) (r : RunId) (run' : Run) :
    Prop where
  | same (row : w.db.runs[r]? = some run')
  | beaten {p : Pid} {b : Beat} {run : Run} (hb : w.beats p = some b) (hr : b.run = r)
      (act : e.act = .ticked (.beat p)) (row : w.db.runs[r]? = some run)
      (hrun : run' = Db.beaten w.now p run)
  | write {p : Pid} {g : Phase} {o : DbOp} {stays : Bool} {run : Run}
      (running : phaseOf cfg h p = some g) (allowed : Flow.allowsDb g o)
      (act : e.act = .did p (.db o) (o.exec w.db w.now p).2 stays)
      (row : w.db.runs[r]? = some run) (hw : RunWrite w.db w.now p r run o run')
  | fresh {p : Pid} {g : Phase} {o : DbOp} {stays : Bool}
      (running : phaseOf cfg h p = some g) (allowed : Flow.allowsDb g o)
      (act : e.act = .did p (.db o) (o.exec w.db w.now p).2 stays)
      (row : w.db.runs[r]? = none) (hf : Fresh run')

theorem Lawful.run {run' : Run} (hs : Sound h w) (hl : Lawful cfg h w e)
    (hrow : e.after.db.runs[r]? = some run') : RunStep h w e r run' := by
  cases hl.committed with
  | quiet rows => exact .same (rows ▸ hrow)
  | @beat p b hb act rows =>
    rw [rows] at hrow
    rcases modify_cases hrow with ⟨-, hold⟩ | ⟨hr, run, hold, rfl⟩
    · exact .same hold
    · exact .beaten hb hr act hold rfl
  | transaction o stays running allowed act rows =>
    rw [rows] at hrow
    cases run_cases (hs.rowsExist running allowed) hrow with
    | same row => exact .same row
    | write row hw => exact .write running allowed act row hw
    | fresh row hf => exact .fresh running allowed act row hf

/-- Run rows are never deleted. -/
theorem Lawful.run_kept {run : Run} (hs : Sound h w) (hl : Lawful cfg h w e)
    (hrow : w.db.runs[r]? = some run) : ∃ run', e.after.db.runs[r]? = some run' := by
  have hlt := (List.getElem?_eq_some_iff.1 hrow).1.trans_le (hs.grows hl).runs
  exact ⟨_, List.getElem?_eq_getElem hlt⟩

/-! ## What a holder does to the runs -/

theorem appendEvent_runs {db : Db} {now : Time} {v : WorkerId} (r : RunId) (etype : EventType)
    (payload : Dict) : ((DbOp.appendEvent r etype payload).exec db now v).1.runs = db.runs := by
  simp only [DbOp.exec, Db.appendRunEventSafe]
  split <;> rfl

/-- A lookup that settles nothing leaves the runs alone. -/
theorem continuation_runs_same {db : Db} {now : Time} {v : WorkerId} {found : Db.Continuation}
    (hres : ((DbOp.continuation r).exec db now v).2 = .ok found)
    (hfound : ∀ a etype reason, found ≠ .settled a etype reason) :
    ((DbOp.continuation r).exec db now v).1.runs = db.runs := by
  cases hcont : db.continuation now r with
  | error x => simp only [DbOp.exec, hcont, DbOp.orRollback]
  | ok res =>
    obtain ⟨db', found'⟩ := res
    simp only [DbOp.exec, hcont, DbOp.orRollback, Except.ok.injEq] at hres ⊢
    subst hres
    cases continuation_cases hcont with
    | succeeded => exact absurd rfl (hfound _ _ _)
    | failed => exact absurd rfl (hfound _ _ _)
    | unrecorded => exact absurd rfl (hfound _ _ _)
    | _ => rfl

theorem holds_on_step {db : Db} {now : Time} {v : WorkerId} {g g' : Phase} {o : DbOp}
    {res : Except LibError o.Ans} (step : Flow.Step cfg g (.db o) res g')
    (hs : g.stage.holds = some r) (hs' : g'.stage.holds = some r)
    (hres : (o.exec db now v).2 = res) : (o.exec db now v).1.runs = db.runs := by
  cases step with
  | noApproval h₀ => exact continuation_runs_same hres (by simp)
  | pendingFound h₀ => exact continuation_runs_same hres (by simp)
  | consumed h₀ => exact continuation_runs_same hres (by simp)
  | logged h₀ => exact appendEvent_runs ..
  | callUnlogged h₀ => exact appendEvent_runs ..
  | unsucceeded h₀ => cases hres
  | coordinated h₀ hc =>
    cases hc with
    | appended => exact appendEvent_runs ..
    | unappended => exact appendEvent_runs ..
    | _ => rfl
  | opened h₀ => rw [h₀] at hs; cases hs
  | unopened h₀ => rw [h₀] at hs; cases hs
  | claimed h₀ => rw [h₀] at hs; cases hs
  | unclaimed h₀ => rw [h₀] at hs; cases hs
  | operated h₀ => rw [h₀] at hs; cases hs
  | _ => cases hs'

/-- **A holder that goes on holding has left the runs alone.** -/
theorem Lawful.holds_on {o : DbOp} {stays : Bool} (hl : Lawful cfg h w e)
    (hp : Held h p r) (hp' : Held (e :: h) p r)
    (act : e.act = .did p (.db o) (o.exec w.db w.now p).2 stays) :
    (o.exec w.db w.now p).1.runs = w.db.runs := by
  obtain ⟨g, hg, hs⟩ := hp
  obtain ⟨g', hg', hs'⟩ := hp'
  cases hl.became hg' with
  | kept running other => exact absurd (by rw [act]; rfl) other
  | started q act' phase => cases act.symm.trans act'
  | did act' running step =>
    obtain ⟨-, ho, hres, -⟩ := Act.did.inj (act.symm.trans act')
    subst ho
    cases hg.symm.trans running
    exact holds_on_step step hs hs' (eq_of_heq hres)

/-! ## Who writes a run row -/

/-- The run a transaction of a holder is about. -/
def DbOp.settles : DbOp → Option RunId
  | .continuation r | .markAmbiguous r _ | .continuationSucceeded r .. | .continuationFailed r ..
  | .finalCommit r .. => some r
  | _ => none

theorem holds_of_settles {g : Phase} {o : DbOp} (allowed : Flow.allowsDb g o)
    (ho : o.settles = some r) : g.stage.holds = some r := by
  cases o with
  | continuation r' =>
    cases ho
    obtain ⟨loaded, hs⟩ := allowed
    rw [hs]
    rfl
  | markAmbiguous r' a =>
    cases ho
    rw [show g.stage = _ from allowed]
    rfl
  | continuationSucceeded r' a tool args result =>
    cases ho
    obtain ⟨payload, hs, -⟩ := allowed
    rw [hs]
    rfl
  | continuationFailed r' a error =>
    cases ho
    rw [show g.stage = _ from allowed]
    rfl
  | finalCommit r' loaded out =>
    cases ho
    obtain ⟨c, hs, -⟩ := allowed
    rw [hs]
    rfl
  | _ => cases ho

/-- Who is behind a change of a run row. -/
inductive Writer (h : History cfg) (w : World) (p : Pid) (r : RunId) (o : DbOp) (run run' : Run) :
    Prop where
  | holder (held : Held h p r) (ho : o.settles = some r)
  | claimant (ho : o = .claimRun r) (hc : Db.claimable w.now run = true)
  | recovery {g : Phase} (running : phaseOf cfg h p = some g) (picks : g.stage.picks r = true)
      (hs' : run'.status = .failed)
  | decision (hs : run.status = .waitingApproval)
  | resumption {loaded : Run} (ho : o = .resumeRun r loaded) (hloaded : loaded.status = .paused)
      (hs' : run'.status = .queued)
  | unchanged (hs : run'.status = run.status)

theorem RunWrite.writer {g : Phase} {o : DbOp} {run run' : Run} (hsound : Sound h w)
    (running : phaseOf cfg h p = some g) (allowed : Flow.allowsDb g o)
    (row : w.db.runs[r]? = some run) (hw : RunWrite w.db w.now p r run o run') :
    Writer h w p r o run run' := by
  have hheld : o.settles = some r → Writer h w p r o run run' := fun ho =>
    .holder ⟨g, running, holds_of_settles allowed ho⟩ ho
  cases hw with
  | taskNotFound hs ht =>
    have hlt := hsound.tasks run (List.mem_of_getElem? row)
    rw [List.getElem?_eq_none_iff] at ht
    exact absurd hlt (Nat.not_lt.2 ht)
  | claimed hc => exact .claimant rfl hc
  | settledCompleted => exact hheld rfl
  | settledFailed => exact hheld rfl
  | ambiguous => exact hheld rfl
  | succeeded => exact hheld rfl
  | failed => exact hheld rfl
  | committed => exact hheld rfl
  | recovered hr hrec =>
    obtain ⟨cutoff, hs⟩ := allowed
    obtain ⟨loaded, hmem⟩ := hr
    refine .recovery running ?_ hrec.status
    rw [hs]
    exact List.any_eq_true.2 ⟨(r, loaded), hmem, by simp⟩
  | approved user happr hr hp hexp hs => exact .decision hs
  | rejected user happr hr hp hexp hs => exact .decision hs
  | controlled loaded request => exact .unchanged (by simp)
  | resumed loaded =>
    by_cases hloaded : loaded.status = .paused
    · exact .resumption rfl hloaded (by simp [Db.resumed, hloaded])
    · exact .unchanged (by simp [Db.resumed, hloaded])

/-- What can become of the status of a run. -/
inductive StatusStep (h : History cfg) (w : World) (e : Event cfg) (r : RunId) (run run' : Run) :
    Prop where
  | unchanged (hs : run'.status = run.status)
  | settled {p : Pid} {o : DbOp} {stays : Bool} (held : Held h p r) (ho : o.settles = some r)
      (act : e.act = .did p (.db o) (o.exec w.db w.now p).2 stays)
  | claimed {p : Pid} (hc : ClaimsRun e p r)
  | recovered {p : Pid} {g : Phase} (running : phaseOf cfg h p = some g)
      (picks : g.stage.picks r = true) (hs' : run'.status = .failed)
  | decided (hs : run.status = .waitingApproval)
  | resumed (hres : unpausedRun e = some r) (hs' : run'.status = .queued)

/-- **The status of a run changes** by its holder, by a claim, by a recovery that has found it
stuck, by a decision when it waits for one, or by a resumption that had loaded it PAUSED. -/
theorem Lawful.status {run run' : Run} (hsound : Sound h w) (hl : Lawful cfg h w e)
    (hrow : w.db.runs[r]? = some run) (hrow' : e.after.db.runs[r]? = some run') :
    StatusStep h w e r run run' := by
  cases hl.run hsound hrow' with
  | same row =>
    cases hrow.symm.trans row
    exact .unchanged rfl
  | beaten hb hr act row hrun =>
    cases hrow.symm.trans row
    refine .unchanged ?_
    subst hrun
    unfold Db.beaten
    split <;> rfl
  | fresh running allowed act row hf =>
    rw [hrow] at row
    cases row
  | @write p g o stays run₀ running allowed act row hw =>
    cases hrow.symm.trans row
    cases hw.writer hsound running allowed row with
    | holder held ho => exact .settled held ho act
    | claimant ho hc =>
      subst ho
      have hres : ((DbOp.claimRun r).exec w.db w.now p).2 = .ok true := by
        simp only [DbOp.exec, DbOp.done, Db.claimRun, hrow, hc, ite_true]
      exact .claimed ⟨stays, act.trans (by rw [hres])⟩
    | recovery running' picks hs' => exact .recovered running' picks hs'
    | decision hs => exact .decided hs
    | resumption ho hloaded hs' =>
      subst ho
      refine .resumed ?_ hs'
      rw [unpausedRun, act]
      exact if_pos hloaded
    | unchanged hs => exact .unchanged hs

/-- A holder that goes on holding has not changed the status of its run. -/
theorem Lawful.holds_on_status {o : DbOp} {stays : Bool} {run run' : Run}
    (hl : Lawful cfg h w e) (hp : Held h p r) (hp' : Held (e :: h) p r)
    (act : e.act = .did p (.db o) (o.exec w.db w.now p).2 stays)
    (hrow : w.db.runs[r]? = some run) (hrow' : e.after.db.runs[r]? = some run') : run' = run := by
  have hruns := hl.holds_on hp hp' act
  cases hl.committed with
  | quiet rows =>
    rw [rows, hrow] at hrow'
    cases hrow'
    rfl
  | beat hb act' rows => cases act.symm.trans act'
  | transaction o' stays' running allowed act' rows =>
    obtain ⟨rfl, ho, -, -⟩ := Act.did.inj (act.symm.trans act')
    cases ho
    rw [rows, hruns, hrow] at hrow'
    cases hrow'
    rfl

end Observatory
