import Observatory.Verify.OneApproval

/-!
# Stop requests

A stop is read by the loop of the coordinator before each action, and by nobody else.  A stop that
was committed while nobody held the run is lost when the run goes on by an approval, whose
continuation reads no request, and whose decision clears it when the run waits; when a pause takes
its place between the two reads of a round; and when the read fails, which counts as no request.

`Honours` leaves these out.  The invariant is `Stopped`: the request still stands, no worker is past
its check, and whoever looks for an approval to go on with will find none.
-/

namespace Observatory

open Effect Effect.Machine

variable {cfg : Settings}

/-- The run a stop was committed for; the commit leaves the stop in its row, written or found. -/
def stopsRun (e : Event cfg) : Option RunId :=
  match e.act with
  | .did _ (.db (.setControl r _ (some .stop))) (.ok _) _ =>
    if (e.after.db.runs[r]?).any (·.controlRequest = some .stop) then some r else none
  | _ => none

/-- The run a pause was committed for. -/
def pausesRun (e : Event cfg) : Option RunId :=
  match e.act with
  | .did _ (.db (.setControl r _ (some .pause))) (.ok _) _ => some r
  | _ => none

/-- The run an operator resumed. -/
def resumesRun (e : Event cfg) : Option RunId :=
  match e.act with
  | .did _ (.db (.setControl r _ none)) (.ok _) _ => some r
  | .did _ (.db (.resumeRun r _)) (.ok _) _ => some r
  | _ => none

/-- The approval that was given. -/
def approvedApproval (e : Event cfg) : Option ApprovalId :=
  match e.act with
  | .did _ (.db (.decide (.uuid a) decision _)) (.ok _) _ =>
    if decision = "approve" then some a else none
  | _ => none

/-- A read of the control column of `r` that failed. -/
def failedRead (e : Event cfg) (r : RunId) : Bool :=
  match e.act with
  | .did _ (.db (.pauseCheck r')) (.error _) _ => r' = r
  | .did _ (.db (.stopCheck r')) (.error _) _ => r' = r
  | _ => false

/-- The run a tool was called for, whatever came of the call. -/
def calledRun (e : Event cfg) : Option RunId :=
  match e.act with
  | .did _ (.ext (.callTool r _ _ _)) _ _ => some r
  | _ => none

/-- A stop was committed while nobody held the run. -/
def StopsIdle (r : RunId) (h : History cfg) (e : Event cfg) : Prop :=
  stopsRun e = some r ∧
    (e.before.runStatus r = some .queued ∨ e.before.runStatus r = some .waitingApproval) ∧ Free h r

/-- Such a stop was committed, and the run not resumed since. -/
def StopPending (r : RunId) (h : History cfg) : Prop :=
  Since (fun _ e => resumesRun e ≠ some r) (StopsIdle r) h

/-- A run that a claim may take, now or later. -/
def RunStatus.claims : RunStatus → Bool
  | queued | executing => true
  | _ => false

/-- A worker has claimed `r` and is about to look for an approval. -/
def Stage.looks : Stage → RunId → Bool
  | .claimed r' _, r => r' = r
  | _, _ => false

/-- Between the two reads of a round. -/
def Point.between : Point → Bool
  | .pauseClear _ => true
  | _ => false

/-- Past both reads, with the call still to come. -/
def Point.cleared : Point → Bool
  | .stopClear _ | .admitted _ | .allowed _ => true
  | _ => false

/-- A worker has read that `r` is not to pause, and is about to read whether it is to stop. -/
def Stage.between : Stage → RunId → Bool
  | .coordinating r' _ c, r => r' = r && c.point.between
  | _, _ => false

/-- A worker is past its check, and may call a tool for `r` without another. -/
def Stage.cleared : Stage → RunId → Bool
  | .consumed r' _ _, r => r' = r
  | .coordinating r' _ c, r => r' = r && c.point.cleared
  | _, _ => false

/-- No process is in a stage where `f` holds of `r`. -/
def Nobody (f : Stage → RunId → Bool) (h : History cfg) (r : RunId) : Prop :=
  ∀ p g, phaseOf cfg h p = some g → f g.stage r = false

instance (r : RunId) (h : History cfg) (e : Event cfg) : Decidable (StopsIdle r h e) :=
  inferInstanceAs (Decidable (_ ∧ _ ∧ _))

instance (r : RunId) (h : History cfg) : Decidable (StopPending r h) :=
  inferInstanceAs (Decidable (Since _ _ h))

instance (f : Stage → RunId → Bool) (h : History cfg) (r : RunId) : Decidable (Nobody f h r) :=
  decidableForallRunning

/-- **A stop that will be honoured.**  When it is committed on a QUEUED run, no approval of the run
is APPROVED.  While it is pending, no approval of the run is given as long as the run may still be
claimed, waits, or is about to look for an approval; no pause comes between the two reads of a round;
and the reads do not fail. -/
structure Honours (r : RunId) (h : History cfg) (e : Event cfg) : Prop where
  stop : StopsIdle r h e → e.before.runStatus r = some .queued →
    ∀ appr ∈ (e.before.db.approvals : List Approval), appr.runId = r → appr.status ≠ .approved
  approve : StopPending r h → ∀ a ∈ approvedApproval e,
    ∀ appr ∈ (e.before.db.approvals[a]? : Option Approval), appr.runId = r →
      (∀ s ∈ e.before.runStatus r, s.claims = false ∧ s ≠ .waitingApproval) ∧ Nobody Stage.looks h r
  pause : StopPending r h → pausesRun e = some r → Nobody Stage.between h r
  reads : StopPending r h → failedRead e r = false

instance (r : RunId) (h : History cfg) (e : Event cfg) : Decidable (Honours r h e) :=
  decidable_of_iff (_ ∧ _ ∧ _ ∧ _)
    ⟨fun hh => ⟨hh.1, hh.2.1, hh.2.2.1, hh.2.2.2⟩, fun hh => ⟨hh.1, hh.2, hh.3, hh.4⟩⟩

/-- The stop still stands, and nothing gets past it. -/
structure Stopped (r : RunId) (h : History cfg) (w : World) : Prop where
  control : ∃ run, w.db.runs[r]? = some run ∧
    (run.controlRequest = some .stop ∨ run.controlRequest = some .pause)
  cleared : Nobody Stage.cleared h r
  between : ∀ {p : Pid} {g : Phase}, phaseOf cfg h p = some g → g.stage.between r = true →
    ∃ run, w.db.runs[r]? = some run ∧ run.controlRequest = some .stop
  approved : ∀ appr ∈ w.db.approvals, appr.runId = r → appr.status = .approved →
    (∀ s ∈ w.runStatus r, s.claims = false) ∧ Nobody Stage.looks h r

section steps

variable {h : History cfg} {w : World} {e : Event cfg} {p : Pid} {r : RunId}

/-- What an event does to the request and the status of a run, unless it resumes the run or gives
the approval it waits for. -/
structure Withholds (e : Event cfg) (r : RunId) (run run' : Run) : Prop where
  control : run'.controlRequest = run.controlRequest ∨ run'.controlRequest = some .stop ∨
    (run'.controlRequest = some .pause ∧ pausesRun e = some r)
  status : run'.status.claims = true → run.status.claims = true

theorem Withholds.of_eq {run run' : Run} (hc : run'.controlRequest = run.controlRequest)
    (hs : run'.status.claims = true → run.status.claims = true) : Withholds e r run run' :=
  ⟨.inl hc, hs⟩

/-- The approval `r` waits for was given. -/
def ApprovesWaiting (w : World) (e : Event cfg) (r : RunId) : Prop :=
  ∃ a appr, approvedApproval e = some a ∧ w.db.approvals[a]? = some appr ∧ appr.runId = r ∧
    w.runStatus r = some .waitingApproval

theorem RunWrite.withholds {g : Phase} {o : DbOp} {stays : Bool} {run run' : Run}
    (allowed : Flow.allowsDb g o) (act : e.act = .did p (.db o) (o.exec w.db w.now p).2 stays)
    (row : w.db.runs[r]? = some run) (hw : RunWrite w.db w.now p r run o run') :
    resumesRun e = some r ∨ ApprovesWaiting w e r ∨ Withholds e r run run' := by
  cases hw with
  | taskNotFound hs ht => exact .inr (.inr (.of_eq rfl fun h => by cases h))
  | claimed hc =>
    refine .inr (.inr (.of_eq rfl fun _ => ?_))
    simp only [Db.claimable, Bool.or_eq_true, decide_eq_true_eq, Bool.and_eq_true] at hc
    rcases hc with hs | ⟨hs, -⟩ <;> rw [hs] <;> rfl
  | settledCompleted hs => exact .inr (.inr (.of_eq rfl fun h => by cases h))
  | settledFailed hs => exact .inr (.inr (.of_eq rfl fun h => by cases h))
  | ambiguous a hs => exact .inr (.inr (.of_eq rfl fun h => by cases h))
  | succeeded => exact .inr (.inr (.of_eq rfl fun h => by cases h))
  | failed => exact .inr (.inr (.of_eq rfl fun h => by cases h))
  | committed loaded out =>
    obtain ⟨c, -, hlands⟩ := allowed
    refine .inr (.inr (.of_eq rfl fun h => ?_))
    simp only [Db.committed, Db.written] at h
    split at h
    · exact h
    · have hout := hlands.reportable
      simp only [List.mem_cons, List.not_mem_nil, or_false] at hout
      rcases hout with hs | hs | hs | hs | hs <;> rw [hs] at h <;> cases h
  | recovered hr hrec =>
    refine .inr (.inr (.of_eq hrec.controlRequest fun h => ?_))
    rw [hrec.status] at h
    cases h
  | @approved a appr user happr hr hp hexp hs hok =>
    refine .inr (.inl ⟨a, appr, ?_, happr, hr, World.runStatus_eq.2 ⟨run, row, hs⟩⟩)
    obtain ⟨x, hx⟩ := hok
    have hres : ((DbOp.decide (.uuid a) "approve" user).exec w.db w.now p).2 = .ok x := hx
    rw [hres] at act
    simp only [approvedApproval, act, ite_true]
  | rejected user happr hr hp hexp hs =>
    refine .inr (.inr (.of_eq ?_ fun h => ?_))
    · simp [ApprovalService.rejected, hs]
    · simp [ApprovalService.rejected, hs, RunStatus.claims] at h
  | controlled loaded request =>
    have hstatus : ∀ {run₀ : Run}, (Db.controlled w.now loaded request run₀).status.claims = true →
        run₀.status.claims = true := by
      intro run₀ hclaims
      rwa [Db.controlled_status] at hclaims
    cases request with
    | none =>
      left
      rw [resumesRun, act]
      rfl
    | some request =>
      refine .inr (.inr ⟨?_, hstatus⟩)
      rcases Db.controlled_controlRequest w.now loaded (some request) run with hreq | ⟨-, hsame⟩
      · cases request with
        | stop => exact .inr (.inl hreq)
        | pause =>
          refine .inr (.inr ⟨hreq, ?_⟩)
          rw [pausesRun, act]
          rfl
      · exact .inl (by rw [hsame])
  | resumed loaded =>
    left
    rw [resumesRun, act]
    rfl

theorem Lawful.withholds {run run' : Run} (hsound : Sound h w) (hl : Lawful cfg h w e)
    (hrow : w.db.runs[r]? = some run) (hrow' : e.after.db.runs[r]? = some run') :
    resumesRun e = some r ∨ ApprovesWaiting w e r ∨ Withholds e r run run' := by
  cases hl.run hsound hrow' with
  | same row =>
    cases hrow.symm.trans row
    exact .inr (.inr (.of_eq rfl id))
  | beaten hb hr act row hrun =>
    cases hrow.symm.trans row
    subst hrun
    refine .inr (.inr ?_)
    unfold Db.beaten
    split <;> exact .of_eq rfl id
  | write running allowed act row hw =>
    cases hrow.symm.trans row
    exact hw.withholds allowed act row
  | fresh running allowed act row hf =>
    rw [hrow] at row
    cases row

/-- A transaction that read a control request has seen what is there. -/
theorem Lawful.read {o : DbOp} {res : Except LibError o.Ans} {stays : Bool} {request : Control}
    (hl : Lawful cfg h w e) (act : e.act = .did p (.db o) res stays)
    (ho : o = .pauseCheck r ∧ request = .pause ∨ o = .stopCheck r ∧ request = .stop)
    {run : Run} (hrow : w.db.runs[r]? = some run) (hc : run.controlRequest = some request)
    (hread : failedRead e r = false) : HEq res (Except.ok true : Except LibError Bool) := by
  have hok : ∃ a, res = .ok a := by
    rcases res with x | a
    · rcases ho with ⟨rfl, -⟩ | ⟨rfl, -⟩ <;> simp [failedRead, act] at hread
    · exact ⟨a, rfl⟩
  obtain ⟨a, rfl⟩ := hok
  have hexec := congrArg Prod.snd (hl.committed_of_ok act)
  rcases ho with ⟨rfl, rfl⟩ | ⟨rfl, rfl⟩
  · simp only [DbOp.exec, DbOp.done, DbOp.controlIs, hrow, Option.any_some, hc, decide_true,
      Except.ok.injEq] at hexec
    rw [← hexec]
  · simp only [DbOp.exec, DbOp.done, DbOp.controlIs, hrow, Option.any_some, hc, decide_true,
      Except.ok.injEq] at hexec
    rw [← hexec]

theorem appended_cleared {c : Coord} {etype : EventType} {fine : Bool}
    (hc : (Flow.appended cfg c etype fine).point.cleared = true) : c.point.cleared = true := by
  revert hc
  cases hp : c.point with
  | admitted act => exact fun _ => rfl
  | stopClear act => exact fun _ => rfl
  | allowed act => exact fun _ => rfl
  | planned =>
    simp only [Flow.appended, hp]
    split
    · exact fun hc => absurd hc Bool.false_ne_true
    · cases fine <;> exact fun hc => absurd hc Bool.false_ne_true
  | fatal => cases fine <;> simp [Flow.appended, hp, Coord.at', Point.cleared]
  | requesting act => cases fine <;> simp [Flow.appended, hp, Coord.at', Point.cleared]
  | succeeded act => cases fine <;> simp [Flow.appended, hp, Coord.at', Coord.erred, Point.cleared]
  | _ => simp [Flow.appended, hp, Coord.at', Point.cleared]

/-- **Past its check** is who was so before, who has read that it is not to stop, or who has found an
approval to go on with. -/
theorem Lawful.cleared {g : Phase} (hl : Lawful cfg h w e) (hg : phaseOf cfg (e :: h) p = some g)
    (hc : g.stage.cleared r = true) :
    (∃ g₀, phaseOf cfg h p = some g₀ ∧ g₀.stage.cleared r = true) ∨
    (∃ g₀ res, phaseOf cfg h p = some g₀ ∧ g₀.stage.between r = true ∧
      e.act = .did p (.db (.stopCheck r)) res true ∧ res ≠ .ok true) ∨
    ∃ g₀ a payload, phaseOf cfg h p = some g₀ ∧ g₀.stage.looks r = true ∧
      e.act = .did p (.db (.continuation r)) (.ok (.consumed a payload)) true := by
  cases hl.became hg with
  | kept running other => exact .inl ⟨g, running, hc⟩
  | started q act phase =>
    subst phase
    cases q <;> cases hc
  | @did o res g₀ act running step =>
    cases step with
    | logged h₀ => exact .inl ⟨g, running, hc⟩
    | dlq h₀ => exact .inl ⟨g, running, hc⟩
    | operated h₀ => exact .inl ⟨g, running, hc⟩
    | noApproval h₀ => simp [Phase.at', Stage.cleared, Point.cleared] at hc
    | @consumed r' loaded a payload h₀ =>
      obtain rfl : r' = r := of_decide_eq_true hc
      exact .inr (.inr ⟨g₀, a, payload, running, by simp [h₀, Stage.looks], act⟩)
    | @coordinated r' loaded c c' _ _ h₀ hstep =>
      simp only [Phase.at', Stage.cleared, Bool.and_eq_true, decide_eq_true_eq] at hc
      obtain ⟨rfl, hc⟩ := hc
      have hold : c.point.cleared = true →
          ∃ g₀, phaseOf cfg h p = some g₀ ∧ g₀.stage.cleared r' = true := by
        intro hc₀
        refine ⟨g₀, running, ?_⟩
        simp only [h₀, Stage.cleared, decide_true, Bool.true_and, hc₀]
      cases hstep with
      | @unstopped _ act' res hp hres =>
        refine .inr (.inl ⟨g₀, res, running, ?_, act, hres⟩)
        simp only [h₀, Stage.between, decide_true, Bool.true_and, hp, Point.between]
      | budgeted hp => exact .inl (hold (by rw [hp]; rfl))
      | appended hmay => exact .inl (hold (appended_cleared hc))
      | unappended hmay => exact .inl (hold (appended_cleared hc))
      | planRow hp => exact .inl (hold hc)
      | _ => cases hc
    | _ => cases hc

/-- Nothing is appended between the reads, and no append leads there. -/
theorem appended_between {c : Coord} {etype : EventType} {fine : Bool}
    (hmay : Flow.mayAppend c.point etype) : (Flow.appended cfg c etype fine).point.between = false := by
  cases hp : c.point with
  | planned =>
    simp only [Flow.appended, hp]
    split
    · rfl
    · cases fine <;> rfl
  | admitted act =>
    simp only [Flow.appended, hp, Coord.decided]
    split <;> rfl
  | fatal => cases fine <;> simp [Flow.appended, hp, Coord.at', Point.between]
  | requesting act => cases fine <;> simp [Flow.appended, hp, Coord.at', Point.between]
  | succeeded act => cases fine <;> simp [Flow.appended, hp, Coord.at', Coord.erred, Point.between]
  | pauseClear act =>
    rw [hp] at hmay
    exact hmay.elim
  | _ => simp [Flow.appended, hp, Coord.at', Point.between]

/-- **Between the reads** is who was so before and has done nothing since, or who has read that the
run is not to pause. -/
theorem Lawful.between {g : Phase} (hl : Lawful cfg h w e) (hg : phaseOf cfg (e :: h) p = some g)
    (hb : g.stage.between r = true) :
    (phaseOf cfg h p = some g ∧ g.stage.between r = true) ∨
      ∃ res, e.act = .did p (.db (.pauseCheck r)) res true ∧ res ≠ .ok true := by
  cases hl.became hg with
  | kept running other => exact .inl ⟨running, hb⟩
  | started q act phase =>
    subst phase
    cases q <;> cases hb
  | @did o res g₀ act running step =>
    cases step with
    | logged h₀ => exact .inl ⟨running, hb⟩
    | dlq h₀ => exact .inl ⟨running, hb⟩
    | operated h₀ => exact .inl ⟨running, hb⟩
    | noApproval h₀ => simp [Phase.at', Stage.between, Point.between] at hb
    | @coordinated r' loaded c c' _ _ h₀ hstep =>
      simp only [Phase.at', Stage.between, Bool.and_eq_true, decide_eq_true_eq] at hb
      obtain ⟨rfl, hb⟩ := hb
      cases hstep with
      | @unpaused _ act' rest res hp htodo hres => exact .inr ⟨res, act, hres⟩
      | appended hmay =>
        rw [appended_between hmay] at hb
        cases hb
      | unappended hmay =>
        rw [appended_between hmay] at hb
        cases hb
      | planRow hp =>
        simp [hp, Point.between] at hb
      | budgeted hp =>
        unfold Coord.budgeted at hb
        split at hb <;> cases hb
      | _ => cases hb
    | _ => cases hb

/-- **An APPROVED approval** was so before, or has just been given. -/
theorem Lawful.approved {appr' : Approval} (hl : Lawful cfg h w e)
    (hmem : appr' ∈ e.after.db.approvals) (hr : appr'.runId = r) (hs : appr'.status = .approved) :
    (∃ appr ∈ w.db.approvals, appr.runId = r ∧ appr.status = .approved) ∨
      ∃ a appr, approvedApproval e = some a ∧ w.db.approvals[a]? = some appr ∧ appr.runId = r := by
  obtain ⟨a, hrow'⟩ := List.mem_iff_getElem?.1 hmem
  cases hl.approval hrow' with
  | same row => exact .inl ⟨appr', List.mem_of_getElem? row, hr, hs⟩
  | created running allowed act row hr' hp hs' =>
    rw [hs] at hs'
    cases hs'
  | @write p g o stays appr running allowed act rows row hw =>
    cases hw with
    | expired => cases hs
    | consumed => cases hs
    | @decided decision user hp hexp hdec =>
      have hexec : (DbOp.decide (.uuid a) decision user).exec w.db w.now p =
          decideTransaction w.db w.now (.uuid a) decision user := rfl
      have hcases := decideTransaction_cases w.db w.now (.uuid a) decision user
      rw [hexec] at act rows
      generalize decideTransaction w.db w.now (.uuid a) decision user = res at hcases act rows
      rw [rows] at hrow'
      cases hcases with
      | refused x =>
        rw [← Option.some.inj (row.symm.trans hrow'), hp] at hs
        cases hs
      | @expired _ appr₀ _ happr hp' hexp' =>
        rw [Db.updateApproval_approvals, getElem?_modify_of_some row, if_pos rfl] at hrow'
        rw [← Option.some.inj hrow'] at hs
        cases hs
      | @runless _ appr₀ _ happr hp' hexp' hdec' hrun =>
        rcases hdec' with rfl | rfl
        · exact .inr ⟨a, appr, by simp only [approvedApproval, act, ite_true], row, hr⟩
        · cases hs
      | @approved _ appr₀ run happr hp' hexp' hrun =>
        exact .inr ⟨a, appr, by simp only [approvedApproval, act, ite_true], row, hr⟩
      | rejected happr hp' hexp' hrun => cases hs

theorem stopsRun_some (hstop : stopsRun e = some r) :
    (∃ p loaded u stays, e.act = .did p (.db (.setControl r loaded (some .stop))) (.ok u) stays) ∧
      ∃ run, e.after.db.runs[r]? = some run ∧ run.controlRequest = some .stop := by
  unfold stopsRun at hstop
  split at hstop
  · next p r' loaded u stays act =>
    split at hstop
    · next hrow =>
      cases hstop
      obtain ⟨run, hrun, hreq⟩ := (Option.any_eq_true _ _).1 hrow
      exact ⟨⟨p, loaded, u, stays, act⟩, run, hrun, of_decide_eq_true hreq⟩
    · cases hstop
  · cases hstop

end steps

/-! ## The stop stands -/

section invariant

variable {h : History cfg} {w : World} {e : Event cfg} {p : Pid} {r : RunId}

/-- While a stop is pending, the approval the run waits for is not given. -/
theorem Honours.withholds {run run' : Run} (hh : Honours r h e) (hpend : StopPending r h)
    (hsound : Sound h w) (hl : Lawful cfg h w e) (hres : resumesRun e ≠ some r)
    (hrow : w.db.runs[r]? = some run) (hrow' : e.after.db.runs[r]? = some run') :
    Withholds e r run run' := by
  rcases hl.withholds hsound hrow hrow' with hr | ⟨a, appr, ha, happr, hr, hw⟩ | hkeeps
  · exact absurd hr hres
  · have hgiven := (hh.approve hpend a ha appr (by rw [hl.before]; exact happr) hr).1
    rw [hl.before] at hgiven
    exact absurd rfl (hgiven _ hw).2
  · exact hkeeps

theorem Stopped.control_step (hs : Stopped r h w) (hh : Honours r h e) (hpend : StopPending r h)
    (hsound : Sound h w) (hl : Lawful cfg h w e) (hres : resumesRun e ≠ some r) :
    ∃ run, e.after.db.runs[r]? = some run ∧
      (run.controlRequest = some .stop ∨ run.controlRequest = some .pause) := by
  obtain ⟨run, hrow, hc⟩ := hs.control
  obtain ⟨run', hrow'⟩ := hl.run_kept hsound hrow
  refine ⟨run', hrow', ?_⟩
  rcases (hh.withholds hpend hsound hl hres hrow hrow').control with hkept | hstop | ⟨hpause, -⟩
  · rwa [hkept]
  · exact .inl hstop
  · exact .inr hpause

/-- Nobody gets past the check. -/
theorem Stopped.cleared_step (hs : Stopped r h w) (hh : Honours r h e) (hpend : StopPending r h)
    (hl : Lawful cfg h w e) : Nobody Stage.cleared (e :: h) r := by
  intro p g hg
  by_contra hc
  rw [Bool.not_eq_false] at hc
  rcases hl.cleared hg hc with ⟨g₀, hg₀, hc₀⟩ | ⟨g₀, res, hg₀, hb, act, hres⟩ |
    ⟨g₀, a, payload, hg₀, hlooks, act⟩
  · rw [hs.cleared p g₀ hg₀] at hc₀
    cases hc₀
  · obtain ⟨run, hrow, hstop⟩ := hs.between hg₀ hb
    have hread := hl.read act (.inr ⟨rfl, rfl⟩) hrow hstop (hh.reads hpend)
    exact hres (eq_of_heq hread)
  · -- the continuation has found an APPROVED approval
    have hexec := hl.committed_of_ok act
    cases hcont : w.db.continuation w.now r with
    | error x =>
      simp only [DbOp.exec, hcont, DbOp.orRollback, Prod.mk.injEq, reduceCtorEq, and_false] at hexec
    | ok res =>
      obtain ⟨db', found⟩ := res
      simp only [DbOp.exec, hcont, DbOp.orRollback, Prod.mk.injEq, Except.ok.injEq] at hexec
      obtain ⟨-, rfl⟩ := hexec
      cases continuation_cases hcont with
      | consumed hlatest hexp hno =>
        have hnobody := (hs.approved _ (List.mem_of_getElem? hlatest.row) hlatest.run
          hlatest.status).2
        rw [hnobody p g₀ hg₀] at hlooks
        cases hlooks

/-- Whoever is between the reads will read the stop. -/
theorem Stopped.between_step {g : Phase} (hs : Stopped r h w) (hh : Honours r h e)
    (hpend : StopPending r h) (hsound : Sound h w) (hl : Lawful cfg h w e)
    (hres : resumesRun e ≠ some r) (hg : phaseOf cfg (e :: h) p = some g)
    (hb : g.stage.between r = true) :
    ∃ run, e.after.db.runs[r]? = some run ∧ run.controlRequest = some .stop := by
  obtain ⟨run, hrow, hc⟩ := hs.control
  obtain ⟨run', hrow'⟩ := hl.run_kept hsound hrow
  refine ⟨run', hrow', ?_⟩
  have hkeeps := (hh.withholds hpend hsound hl hres hrow hrow').control
  rcases hl.between hg hb with ⟨hg₀, hb₀⟩ | ⟨res, act, hnot⟩
  · obtain ⟨run₀, hrow₀, hstop⟩ := hs.between hg₀ hb₀
    cases hrow.symm.trans hrow₀
    rcases hkeeps with hkept | hstop' | ⟨-, hpause⟩
    · rw [hkept, hstop]
    · exact hstop'
    · rw [hh.pause hpend hpause p g hg₀] at hb₀
      cases hb₀
  · have hstop : run.controlRequest = some .stop := by
      rcases hc with hstop | hpause
      · exact hstop
      · have hread := hl.read act (.inl ⟨rfl, rfl⟩) hrow hpause (hh.reads hpend)
        exact absurd (eq_of_heq hread) hnot
    rcases hkeeps with hkept | hstop' | ⟨-, hpause⟩
    · rw [hkept, hstop]
    · exact hstop'
    · simp [pausesRun, act] at hpause

/-- An APPROVED approval comes too late to be looked for. -/
theorem Stopped.approved_step {appr' : Approval} (hs : Stopped r h w) (hh : Honours r h e)
    (hpend : StopPending r h) (hsound : Sound h w) (hl : Lawful cfg h w e)
    (hres : resumesRun e ≠ some r) (hmem : appr' ∈ e.after.db.approvals) (hr : appr'.runId = r)
    (hst : appr'.status = .approved) :
    (∀ s ∈ e.after.runStatus r, s.claims = false) ∧ Nobody Stage.looks (e :: h) r := by
  obtain ⟨run, hrow, -⟩ := hs.control
  obtain ⟨run', hrow'⟩ := hl.run_kept hsound hrow
  have hwas : run.status.claims = false ∧ Nobody Stage.looks h r := by
    have hstatus : run.status ∈ w.runStatus r := World.runStatus_eq.2 ⟨run, hrow, rfl⟩
    rcases hl.approved hmem hr hst with ⟨appr, hmem₀, hr₀, hst₀⟩ | ⟨a, appr, ha, happr, hr₀⟩
    · obtain ⟨hclaims, hnobody⟩ := hs.approved appr hmem₀ hr₀ hst₀
      exact ⟨hclaims _ hstatus, hnobody⟩
    · obtain ⟨hgiven, hnobody⟩ := hh.approve hpend a ha appr (by rw [hl.before]; exact happr) hr₀
      rw [hl.before] at hgiven
      exact ⟨(hgiven _ hstatus).1, hnobody⟩
  constructor
  · intro s hs'
    obtain ⟨run₁, hrow₁, rfl⟩ := World.runStatus_eq.1 hs'
    cases hrow'.symm.trans hrow₁
    by_contra hclaims
    rw [Bool.not_eq_false] at hclaims
    have hclaims₀ := (hh.withholds hpend hsound hl hres hrow hrow').status hclaims
    rw [hwas.1] at hclaims₀
    cases hclaims₀
  · intro p g hg
    by_contra hlooks
    rw [Bool.not_eq_false] at hlooks
    cases hstage : g.stage with
    | claimed r' loaded =>
      rw [hstage] at hlooks
      obtain rfl : r' = r := of_decide_eq_true hlooks
      rcases hl.claimed hg hstage with ⟨hold, -⟩ | hc
      · have hno := hwas.2 p g hold
        rw [hstage] at hno
        simp [Stage.looks] at hno
      · obtain ⟨run₀, hrow₀, hclaim, -⟩ := hl.claims hc
        cases hrow.symm.trans hrow₀
        have hno := hwas.1
        simp only [Db.claimable, Bool.or_eq_true, decide_eq_true_eq, Bool.and_eq_true] at hclaim
        rcases hclaim with hq | ⟨hq, -⟩ <;> rw [hq] at hno <;> cases hno
    | _ =>
      rw [hstage] at hlooks
      cases hlooks

theorem Stopped.step (hs : Stopped r h w) (hh : Honours r h e) (hpend : StopPending r h)
    (hsound : Sound h w) (hl : Lawful cfg h w e) (hres : resumesRun e ≠ some r) :
    Stopped r (e :: h) e.after where
  control := hs.control_step hh hpend hsound hl hres
  cleared := hs.cleared_step hh hpend hl
  between := hs.between_step hh hpend hsound hl hres
  approved _ := hs.approved_step hh hpend hsound hl hres

theorem holds_of_cleared {s : Stage} (hc : s.cleared r = true) : s.holds = some r := by
  cases s with
  | consumed r' a payload =>
    obtain rfl : r' = r := of_decide_eq_true hc
    rfl
  | coordinating r' loaded c =>
    simp only [Stage.cleared, Bool.and_eq_true, decide_eq_true_eq] at hc
    obtain ⟨rfl, -⟩ := hc
    rfl
  | _ => cases hc

theorem holds_of_between {s : Stage} (hb : s.between r = true) : s.holds = some r := by
  cases s with
  | coordinating r' loaded c =>
    simp only [Stage.between, Bool.and_eq_true, decide_eq_true_eq] at hb
    obtain ⟨rfl, -⟩ := hb
    rfl
  | _ => cases hb

theorem holds_of_looks {s : Stage} (hs : s.looks r = true) : s.holds = some r := by
  cases s with
  | claimed r' loaded =>
    obtain rfl : r' = r := of_decide_eq_true hs
    rfl
  | _ => cases hs

/-- Committing a stop is nothing else. -/
structure OnlyStops (e : Event cfg) (r : RunId) : Prop where
  resumes : resumesRun e ≠ some r
  approves : approvedApproval e = none
  claims : claimedRun e = none

theorem onlyStops (hstop : stopsRun e = some r) : OnlyStops e r := by
  obtain ⟨⟨p, loaded, u, stays, act⟩, -⟩ := stopsRun_some hstop
  exact ⟨by simp [resumesRun, act], by simp [approvedApproval, act], by simp [claimedRun, act]⟩

/-- Who does nothing but commit a stop leaves nobody past a check who was not there before. -/
theorem StopsIdle.free (hl : Lawful cfg h w e) (hstop : StopsIdle r h e) : Free (e :: h) r := by
  refine free_of_not_held fun p hp => ?_
  rcases hl.held hp with hold | hc
  · exact hstop.2.2.not_held hold
  · have hnone := (onlyStops hstop.1).claims
    rw [hc.claimedRun] at hnone
    cases hnone

/-- A stop that is committed while nobody holds the run stands from then on. -/
theorem Stopped.start (hh : Honours r h e) (hsound : Sound h w) (hl : Lawful cfg h w e)
    (hstop : StopsIdle r h e) : Stopped r (e :: h) e.after := by
  have honly := onlyStops hstop.1
  have hfree := hstop.free hl
  obtain ⟨-, run', hrow', hc'⟩ := stopsRun_some hstop.1
  refine ⟨⟨run', hrow', .inl hc'⟩, ?_, ?_, ?_⟩
  · intro p g hg
    by_contra hc
    rw [Bool.not_eq_false] at hc
    exact hfree p g hg (holds_of_cleared hc)
  · intro p g hg hb
    exact absurd (holds_of_between hb) (hfree p g hg)
  · intro appr' hmem hr hst
    constructor
    · intro s hs
      obtain ⟨run₁, hrow₁, rfl⟩ := World.runStatus_eq.1 hs
      cases hrow'.symm.trans hrow₁
      rcases hl.approved hmem hr hst with ⟨appr, hmem₀, hr₀, hst₀⟩ | ⟨a, appr, ha, -⟩
      swap
      · rw [honly.approves] at ha
        cases ha
      have hwaits : w.runStatus r = some .waitingApproval := by
        have hidle := hstop.2.1
        have hnone := hh.stop hstop
        rw [hl.before] at hidle hnone
        rcases hidle with hq | hw
        · exact absurd hst₀ (hnone hq appr hmem₀ hr₀)
        · exact hw
      obtain ⟨run, hrow, hs⟩ := World.runStatus_eq.1 hwaits
      rcases hl.withholds hsound hrow hrow' with hres | ⟨a, appr, ha, -⟩ | hkeeps
      · exact absurd hres honly.resumes
      · rw [honly.approves] at ha
        cases ha
      · by_contra hclaims
        rw [Bool.not_eq_false] at hclaims
        have hclaims₀ := hkeeps.status hclaims
        rw [hs] at hclaims₀
        cases hclaims₀
    · intro p g hg
      by_contra hlooks
      rw [Bool.not_eq_false] at hlooks
      exact hfree p g hg (holds_of_looks hlooks)

/-- While the stop stands, nobody calls a tool. -/
theorem Stopped.not_calls (hs : Stopped r h w) (hl : Lawful cfg h w e) :
    calledRun e ≠ some r := by
  intro hcall
  obtain ⟨p, caller, tool, args, res, stays, act⟩ : ∃ p caller tool args res stays,
      e.act = .did p (.ext (.callTool r caller tool args)) res stays := by
    unfold calledRun at hcall
    split at hcall
    · next p r' caller tool args res stays act =>
      cases hcall
      exact ⟨p, caller, tool, args, res, stays, act⟩
    · cases hcall
  obtain ⟨g, hg, hallows⟩ := hl.did act
  have hno := hs.cleared p g hg
  cases caller with
  | coordinator =>
    obtain ⟨loaded, c, act', hstage, hp, -⟩ := hallows
    rw [hstage] at hno
    simp [Stage.cleared, hp, Point.cleared] at hno
  | continuation a =>
    obtain ⟨payload, hstage, -⟩ := hallows
    rw [hstage] at hno
    simp [Stage.cleared] at hno

end invariant

/-- **A stop is honoured**: once it was committed while nobody held the run, no tool is called for
the run until it is resumed. -/
theorem stop_honoured {r : RunId} {c : Config (system cfg)} (hc : Reachable cfg (Honours r) c) :
    Historically (fun h e => StopPending r h → calledRun e ≠ some r) c.hist := by
  refine Reachable.historically (P := fun h w => StopPending r h → Stopped r h w)
    (fun _ _ hpend => absurd hpend since_nil) (fun h w e hsound hs hl hh => ⟨fun hpend => ?_, ?_⟩) hc
  · rcases hpend with hstop | ⟨hres, hpend⟩
    · exact .start hh hsound hl hstop
    · exact (hs hpend).step hh hpend hsound hl hres
  · intro hpend
    exact (hs hpend).not_calls hl

/-- A published run is stopped before a worker takes it, and ends CANCELLED. -/
theorem stop_honoured_cancelled : ∃ c : Config (system {}),
    c.world.runStatus 0 = some .cancelled ∧ StopPending 0 c.hist ∧
      Historically (fun h e => StopPending 0 h → calledRun e ≠ some 0) c.hist := by
  obtain ⟨c, hc, hsee⟩ := reachable_of_run (K := Honours 0)
    (fun c => (c.world.runStatus 0, decide (StopPending 0 c.hist)))
    (x := (some .cancelled, true)) (World.empty_initial 0 [])
    (taskPublished {} ++ serve {} 0 (.controlRun (.uuid 0) "stop") 3 ++
      serve {} 1 .processOne 17 { plan := { actions := [some ⟨"read", "technocore_read", []⟩] } })
    (by rfl)
  exact ⟨c, congrArg Prod.fst hsee, of_decide_eq_true (congrArg Prod.snd hsee), stop_honoured hc⟩

/-- **A stop is ignored.**  The run has been approved and is QUEUED again when it is stopped; the
worker that takes it finds the approval and calls the tool. -/
theorem stop_ignored : ∃ c : Config (system {}), Reachable {} anyEvent c ∧
    ¬Historically (fun h e => StopPending 0 h → calledRun e ≠ some 0) c.hist := by
  obtain ⟨c, hc, hsee⟩ := reachable_of_run (K := anyEvent)
    (fun c => (c.hist.head?.bind calledRun, decide (StopPending 0 c.hist.tail)))
    (x := (some 0, true)) (World.empty_initial 0 [])
    (approvalGranted {} ++ serve {} 0 (.controlRun (.uuid 0) "stop") 3 ++ serve {} 1 .processOne 5)
    (by decide +kernel)
  refine ⟨c, hc, fun hhonoured => ?_⟩
  obtain ⟨e, he, hcall⟩ := Option.bind_eq_some_iff.1 (congrArg Prod.fst hsee)
  obtain ⟨h, hhist⟩ := List.head?_eq_some_iff.1 he
  have hpend := of_decide_eq_true (congrArg Prod.snd hsee)
  rw [hhist] at hhonoured hpend
  exact hhonoured.1 hpend hcall

end Observatory
