import Observatory.Verify.OneApproval

/-!
# Completed runs

A run is COMPLETED by the final commit of a coordinator that verified its plan, by the continuation
of an approval whose call returned, or by a later continuation that finds such a call recorded.  The
verifier only looks at the calls that were made, so a plan that a limit cut short passes it; and a
continuation does not know what else was in the plan its approval was requested for.

`Finishes` leaves these two out.  The coordinator's side is `Coord.Whole`: what is done, looked at
and to come is the plan.  The rest of the invariant (`Backed`) ties every call that returned, and
every execution that SUCCEEDED, to the request of its approval.
-/

namespace Observatory

open Effect Effect.Machine

variable {cfg : Settings}

/-- The call of the continuation of approval `a` of `r` returned. -/
def returnedCall (e : Event cfg) : Option (RunId × ApprovalId) :=
  match e.act with
  | .did _ (.ext (.callTool r (.continuation a) _ _)) (.ok _) _ => some (r, a)
  | _ => none

/-- An approval was requested for the last action of a plan in which nothing has failed. -/
def requestedLast (h : History cfg) (e : Event cfg) : Option (RunId × ApprovalId) :=
  match e.act with
  | .did p (.db (.createApproval r _ _ _)) (.ok a) _ =>
    match phaseOf cfg h p with
    | some ⟨_, .coordinating _ _ c⟩ => if c.todo.isEmpty && !c.failed then some (r, a) else none
    | _ => none
  | _ => none

/-- A limit ends a loop that has done something, and in which nothing has failed. -/
def cutShort (h : History cfg) (e : Event cfg) : Bool :=
  match e.act with
  | .did p (.ext (.monotonic .budget)) (.ok now) _ =>
    match phaseOf cfg h p with
    | some ⟨_, .coordinating _ _ c⟩ =>
      (c.counters.refusal cfg.budget now).isSome && !c.failed && !c.done.isEmpty
    | _ => false
  | _ => false

/-- **Plans that are finished.**  No limit ends a loop that has done something without failing, and
the call of a continuation returns only for an approval that was requested for the last action of
its plan, with nothing failed before. -/
structure Finishes (h : History cfg) (e : Event cfg) : Prop where
  budget : cutShort h e = false
  used : ∀ x ∈ returnedCall e, Once (fun h e => requestedLast h e = some x) h

instance (h : History cfg) (e : Event cfg) : Decidable (Finishes h e) :=
  decidable_of_iff (_ ∧ _) ⟨fun hf => ⟨hf.1, hf.2⟩, fun hf => ⟨hf.1, hf.2⟩⟩

/-- Approval `a` of `r` was requested for the last action of a plan whose other actions had all been
called and had returned. -/
def AllButLast (r : RunId) (a : ApprovalId) (h : History cfg) (e : Event cfg) : Prop :=
  ∃ p g loaded c act, Requests e p r a ∧ phaseOf cfg h p = some g ∧
    g.stage = .coordinating r loaded c ∧ c.point = .requesting act ∧ c.failed = false ∧
    c.done ++ [act] = c.actions

/-- All actions of the plan of `r` have been called and have returned: those of the coordinator that
commits now, or those of one that requested an approval for the last, whose call returned since. -/
inductive AllExecuted (h : History cfg) (e : Event cfg) (r : RunId) : Prop where
  | coordinator {p : Pid} {loaded : Run} {out : Db.Outcome} {g : Phase} {c : Coord} {stays : Bool}
      (act : e.act = .did p (.db (.finalCommit r loaded out)) (.ok ()) stays)
      (running : phaseOf cfg h p = some g) (stage : g.stage = .returned r loaded c)
      (all : c.AllDone)
  | continuation (a : ApprovalId) (requested : Once (AllButLast r a) h)
      (returned : Once (fun _ e => returnedCall e = some (r, a)) h)

/-- A run becomes COMPLETED only when all actions of its plan have been executed. -/
def CompletesSoundly (h : History cfg) (e : Event cfg) : Prop :=
  ∀ r, e.before.runStatus r ≠ some .completed → e.after.runStatus r = some .completed →
    AllExecuted h e r

/-! ## The coordinator -/

/-- The action that is being looked at. -/
def Point.current : Point → List Action
  | .pauseClear act | .stopClear act | .admitted act | .requesting act | .allowed act => [act]
  | _ => []

/-- The loop is over for this plan. -/
def Point.closed : Point → Bool
  | .closing | .fatal | .aborting => true
  | _ => false

/-- The plan is not there yet. -/
def Point.unplanned : Point → Bool
  | .starting | .announcing => true
  | _ => false

/-- What is done, looked at and to come is the plan, unless something has failed; and a loop that a
limit ended has failed or done nothing. -/
structure Coord.Whole (c : Coord) : Prop where
  fresh : c.point.unplanned = true → c.done = []
  split : c.point.unplanned = false → c.point.closed = false → c.failed = false →
    c.done ++ (c.point.current ++ c.todo) = c.actions
  cut : c.cut = true → c.point.closed = true ∧ (c.failed = true ∨ c.done = [])

section coordinator

variable {r : RunId} {c c' : Coord} {o : Op} {res : Sys.Result o}

theorem Coord.Whole.initial : Coord.Whole {} :=
  ⟨fun _ => rfl, nofun, nofun⟩

/-- Once the loop is over, only the point changes. -/
theorem Coord.Whole.close {point : Point} (hw : c.Whole) (hp : point.closed = true) :
    (c.at' point).Whole := by
  refine ⟨fun h => ?_, fun _ h => ?_, fun h => ⟨hp, (hw.cut h).2⟩⟩
  · cases point <;> cases hp <;> cases h
  · exact absurd hp (by rw [show point.closed = false from h]; exact nofun)

/-- While the loop goes on, no limit has ended it. -/
theorem Coord.Whole.uncut (hw : c.Whole) (hp : c.point.closed = false) : c.cut = false := by
  by_contra hcut
  rw [Bool.not_eq_false] at hcut
  rw [(hw.cut hcut).1] at hp
  cases hp

/-- Another point of the loop, with the same actions. -/
theorem Coord.Whole.move (point : Point) (todo : List Action) (hw : c.Whole)
    (hold : c.point.unplanned = false ∧ c.point.closed = false)
    (hp : point.unplanned = false) (hsame : point.current ++ todo = c.point.current ++ c.todo) :
    Coord.Whole { c with point, todo } := by
  refine ⟨fun h => ?_, fun _ _ hf => ?_, fun h => ?_⟩
  · rw [hp] at h
    cases h
  · rw [hsame]
    exact hw.split hold.1 hold.2 hf
  · rw [hw.uncut hold.2] at h
    cases h

theorem Coord.Whole.erred (hw : c.Whole) (hold : c.point.closed = false) : c.erred.Whole := by
  refine ⟨nofun, fun _ _ => nofun, fun h => ?_⟩
  rw [show c.erred.cut = c.cut from rfl, hw.uncut hold] at h
  cases h

theorem Coord.Whole.appended {etype : EventType} {fine : Bool} (hw : c.Whole)
    (hmay : Flow.mayAppend c.point etype) : (Flow.appended cfg c etype fine).Whole := by
  have hmove : ∀ {point : Point}, c.point.unplanned = false → c.point.closed = false →
      point.unplanned = false → point.current = c.point.current → (c.at' point).Whole :=
    fun {point} hu hc hp hcur => hw.move point c.todo ⟨hu, hc⟩ hp (by rw [hcur])
  cases hp : c.point with
  | planned =>
    simp only [Flow.appended, hp]
    split
    · exact hmove (by rw [hp]; rfl) (by rw [hp]; rfl) rfl (by rw [hp]; rfl)
    · cases fine
      · exact hw.close rfl
      · exact hmove (by rw [hp]; rfl) (by rw [hp]; rfl) rfl (by rw [hp]; rfl)
  | looping =>
    simp only [Flow.appended, hp]
    exact hw.close rfl
  | admitted act =>
    simp only [Flow.appended, hp, Coord.decided]
    split
    · exact hw.close rfl
    · exact hmove (by rw [hp]; rfl) (by rw [hp]; rfl) rfl (by rw [hp]; rfl)
    · exact hmove (by rw [hp]; rfl) (by rw [hp]; rfl) rfl (by rw [hp]; rfl)
  | requesting act =>
    simp only [Flow.appended, hp]
    cases fine
    · exact hw.close rfl
    · exact hmove (by rw [hp]; rfl) (by rw [hp]; rfl) rfl (by rw [hp]; rfl)
  | succeeded act =>
    simp only [Flow.appended, hp]
    cases fine
    · exact hw.erred (by rw [hp]; rfl)
    · exact hmove (by rw [hp]; rfl) (by rw [hp]; rfl) rfl (by rw [hp])
  | fatal =>
    simp only [Flow.appended, hp]
    cases fine <;> exact hw.close rfl
  | announcing => simpa only [Flow.appended, hp] using hw
  | closing => simpa only [Flow.appended, hp] using hw
  | erring => simpa only [Flow.appended, hp] using hw
  | _ =>
    rw [hp] at hmay
    exact hmay.elim

/-- **Every step of the coordinator keeps the plan whole**, if no limit cuts it short. -/
theorem Coord.Step.whole (hstep : Coord.Step cfg r c o res c') (hw : c.Whole)
    (hcut : ∀ now, (⟨o, res⟩ : Performed Sys) = ⟨.ext (.monotonic .budget), .ok now⟩ →
      (c.counters.refusal cfg.budget now).isSome = true → c.failed = true ∨ c.done = []) :
    c'.Whole := by
  cases hstep with
  | beating => exact .initial
  | begun hp =>
    refine ⟨fun _ => hw.fresh (by rw [hp]; rfl), nofun, fun h => ?_⟩
    have huncut := hw.uncut (by rw [hp]; rfl)
    exact absurd h (by simp [huncut])
  | @planned _ prompt scope plan hp =>
    have hdone := hw.fresh (by rw [hp]; rfl)
    have huncut := hw.uncut (by rw [hp]; rfl)
    refine ⟨nofun, fun _ _ _ => ?_, fun h => ?_⟩
    · simp [Coord.withPlan, hdone, Point.current]
    · exact absurd h (by simp [Coord.withPlan, huncut])
  | appended hmay => exact hw.appended hmay
  | unappended hmay => exact hw.appended hmay
  | planRow hp => exact hw
  | callRow hp =>
    exact hw.move _ _ ⟨by rw [hp]; rfl, by rw [hp]; rfl⟩ rfl (by rw [hp]; rfl)
  | noCallRow hp => exact hw.erred (by rw [hp]; rfl)
  | requested hp => exact ⟨nofun, fun _ => nofun, fun h => ⟨rfl, (hw.cut h).2⟩⟩
  | unpaused hp htodo hres =>
    exact hw.move _ _ ⟨by rw [hp]; rfl, by rw [hp]; rfl⟩ rfl (by rw [hp, htodo]; rfl)
  | unstopped hp hres =>
    exact hw.move _ _ ⟨by rw [hp]; rfl, by rw [hp]; rfl⟩ rfl (by rw [hp]; rfl)
  | @budgeted _ act now hp =>
    unfold Coord.budgeted
    split
    · next etype href =>
      refine ⟨nofun, fun _ => nofun, fun _ => ⟨rfl, ?_⟩⟩
      exact hcut now rfl (by rw [href]; rfl)
    · have hmoved := hw.move (.admitted act) c.todo
        ⟨by rw [hp]; rfl, by rw [hp]; rfl⟩ rfl (by rw [hp]; rfl)
      exact ⟨hmoved.fresh, hmoved.split, hmoved.cut⟩
  | @called _ act result hp =>
    have huncut := hw.uncut (by rw [hp]; rfl)
    refine ⟨nofun, fun _ _ hf => ?_, fun h => ?_⟩
    · have hsplit := hw.split (by rw [hp]; rfl) (by rw [hp]; rfl) hf
      rw [hp] at hsplit
      simpa [Coord.called, Point.current] using hsplit
    · exact absurd h (by simp [Coord.called, huncut])
  | raised hp => exact hw.erred (by rw [hp]; rfl)
  | recorded hp =>
    exact hw.move _ _ ⟨by rw [hp]; rfl, by rw [hp]; rfl⟩ rfl (by rw [hp]; rfl)
  | _ => exact hw.close rfl

end coordinator

/-! ## Approvals and their calls -/

/-- Approval `a` of `r` was requested for the last action, and its call returned since. -/
def Returned (r : RunId) (a : ApprovalId) (h : History cfg) : Prop :=
  Once (AllButLast r a) h ∧ Once (fun _ e => returnedCall e = some (r, a)) h

/-- What stands behind every plan, every call that returned and every execution that SUCCEEDED. -/
structure Backed (h : History cfg) (w : World) : Prop where
  whole : ∀ {p : Pid} {g : Phase} {r : RunId} {loaded : Run} {c : Coord}, phaseOf cfg h p = some g →
    g.stage = .coordinating r loaded c ∨ g.stage = .returned r loaded c → c.Whole
  last : ∀ {r : RunId} {a : ApprovalId}, Once (fun h e => requestedLast h e = some (r, a)) h →
    Once (AllButLast r a) h
  called : ∀ {p : Pid} {g : Phase} {r : RunId} {a : ApprovalId} {payload : ActionPayload}
    {result : Json}, phaseOf cfg h p = some g → g.stage = .called r a payload result → Returned r a h
  succeeded : ∀ ex ∈ w.db.executions, ex.status = .succeeded → ∃ r, Returned r ex.approvalId h
  requested : ∀ {r : RunId} {a : ApprovalId}, Once (AllButLast r a) h →
    ∃ appr, w.db.approvals[a]? = some appr ∧ appr.runId = r

section steps

variable {h : History cfg} {w : World} {e : Event cfg} {p : Pid} {r : RunId} {a : ApprovalId}

theorem Returned.cons (e : Event cfg) (hret : Returned r a h) : Returned r a (e :: h) :=
  ⟨hret.1.cons e, hret.2.cons e⟩

theorem Backed.whole_step {g : Phase} {loaded : Run} {c : Coord} (hb : Backed h w)
    (hl : Lawful cfg h w e) (hf : Finishes h e) (hg : phaseOf cfg (e :: h) p = some g)
    (hs : g.stage = .coordinating r loaded c ∨ g.stage = .returned r loaded c) : c.Whole := by
  cases hl.became hg with
  | kept running other => exact hb.whole running hs
  | started q act phase =>
    subst phase
    rcases hs with hs | hs <;> cases q <;> cases hs
  | @did o res g₀ act running step =>
    cases step with
    | logged h₀ => exact hb.whole running hs
    | dlq h₀ => exact hb.whole running hs
    | operated h₀ => exact hb.whole running hs
    | noApproval h₀ =>
      rcases hs with hs | hs <;> cases hs
      exact .initial
    | returned h₀ hp =>
      rcases hs with hs | hs <;> cases hs
      exact hb.whole running (.inl h₀)
    | @coordinated r' loaded' c₀ c' _ _ h₀ hstep =>
      have hc : c' = c := by
        rcases hs with hs | hs <;> cases hs
        rfl
      subst hc
      refine hstep.whole (hb.whole running (.inl h₀)) fun now heq href => ?_
      cases heq
      have hbudget := hf.budget
      obtain ⟨entry, stage⟩ := g₀
      cases h₀
      simp only [cutShort, act, running, href, Bool.true_and, Bool.and_eq_false_iff,
        Bool.not_eq_false', List.isEmpty_iff] at hbudget
      exact hbudget
    | _ => rcases hs with hs | hs <;> cases hs

/-- A request for the last action found the plan whole. -/
theorem Backed.last_step (hb : Backed h w) (hl : Lawful cfg h w e)
    (ho : Once (fun h e => requestedLast h e = some (r, a)) (e :: h)) :
    Once (AllButLast r a) (e :: h) := by
  rcases ho with hnow | hbefore
  swap
  · exact (hb.last hbefore).cons e
  left
  unfold requestedLast at hnow
  split at hnow
  · next p r' cls payload impact a' stays act =>
    obtain ⟨g, hg, loaded, c, act', hstage, hp, -⟩ := hl.did act
    obtain ⟨entry, stage⟩ := g
    cases hstage
    simp only [hg] at hnow
    split at hnow
    · next hcond =>
      cases hnow
      simp only [Bool.and_eq_true, List.isEmpty_iff, Bool.not_eq_true'] at hcond
      have hsplit := (hb.whole hg (.inl rfl)).split (by rw [hp]; rfl) (by rw [hp]; rfl) hcond.2
      rw [hp, hcond.1] at hsplit
      exact ⟨p, _, loaded, c, act', ⟨cls, payload, impact, stays, act⟩, hg, rfl, hp, hcond.2, hsplit⟩
    · cases hnow
  · cases hnow

theorem Backed.called_step {g : Phase} {payload : ActionPayload} {result : Json} (hb : Backed h w)
    (hl : Lawful cfg h w e) (hf : Finishes h e) (hg : phaseOf cfg (e :: h) p = some g)
    (hs : g.stage = .called r a payload result) : Returned r a (e :: h) := by
  cases hl.became hg with
  | kept running other => exact (hb.called running hs).cons e
  | started q act phase =>
    subst phase
    cases q <;> cases hs
  | @did o res g₀ act running step =>
    cases step with
    | logged h₀ => exact (hb.called running hs).cons e
    | dlq h₀ => exact (hb.called running hs).cons e
    | operated h₀ => exact (hb.called running hs).cons e
    | approvedCalled h₀ =>
      cases hs
      have hcall : returnedCall e = some (r, a) := by simp only [returnedCall, act]
      exact ⟨(hb.last (hf.used _ hcall)).cons e, .inl hcall⟩
    | _ => cases hs

theorem Backed.succeeded_step {ex' : ActionExecution} (hb : Backed h w) (hl : Lawful cfg h w e)
    (hmem : ex' ∈ e.after.db.executions) (hs : ex'.status = .succeeded) :
    ∃ r, Returned r ex'.approvalId (e :: h) := by
  have hold : ex' ∈ w.db.executions → ∃ r, Returned r ex'.approvalId (e :: h) := by
    intro hmem
    obtain ⟨r, hret⟩ := hb.succeeded ex' hmem hs
    exact ⟨r, hret.cons e⟩
  cases hl.committed with
  | quiet rows => exact hold (rows ▸ hmem)
  | beat hbeat act rows =>
    rw [rows] at hmem
    exact hold hmem
  | transaction o stays running allowed act rows =>
    rw [rows] at hmem
    cases execution_cases hmem with
    | same hmem => exact hold hmem
    | unsucceeded hno => exact absurd hs hno
    | @succeeded r tool args result ho =>
      subst ho
      obtain ⟨payload, hstage, -⟩ := allowed
      exact ⟨r, (hb.called running hstage).cons e⟩

theorem Backed.requested_step (hb : Backed h w) (hl : Lawful cfg h w e)
    (ho : Once (AllButLast r a) (e :: h)) :
    ∃ appr, e.after.db.approvals[a]? = some appr ∧ appr.runId = r := by
  rcases ho with ⟨p, g, loaded, c, act', ⟨cls, payload, impact, stays, act⟩, -⟩ | hbefore
  · have hexec := hl.committed_of_ok act
    have hdb : (ApprovalService.create w.db w.now r cls payload impact).1 = e.after.db :=
      congrArg Prod.fst hexec
    have ha : w.db.approvals.length = a := Except.ok.inj (congrArg Prod.snd hexec)
    subst ha
    rw [← hdb]
    have hrow : (ApprovalService.create w.db w.now r cls payload impact).1.approvals[
        w.db.approvals.length]? = some _ := List.getElem?_concat_length ..
    exact ⟨_, hrow, rfl⟩
  · obtain ⟨appr, hrow, hr⟩ := hb.requested hbefore
    obtain ⟨appr', hrow', hr', -⟩ := hl.approval_kept hrow
    exact ⟨appr', hrow', hr'.trans hr⟩

theorem Backed.step (hb : Backed h w) (hl : Lawful cfg h w e) (hf : Finishes h e) :
    Backed (e :: h) e.after where
  whole := hb.whole_step hl hf
  last := hb.last_step hl
  called := hb.called_step hl hf
  succeeded _ := hb.succeeded_step hl
  requested := hb.requested_step hl

/-- A lookup that completes the run has found the approval CONSUMED and its execution SUCCEEDED. -/
theorem continuation_completes {db db' : Db} {now : Time} {found : Db.Continuation} {run run' : Run}
    (hcont : ContinuationCases db now r db' found) (hrow : db.runs[r]? = some run)
    (hs : run.status ≠ .completed) (hrow' : db'.runs[r]? = some run')
    (hs' : run'.status = .completed) :
    ∃ a appr ex, Latest db r .consumed a appr ∧ db.executionOf a = some ex ∧
      ex.status = .succeeded := by
  have hsame : db'.runs ≠ db.runs := by
    intro heq
    rw [heq] at hrow'
    cases hrow.symm.trans hrow'
    exact hs hs'
  have hfail : ∀ d : Db, d.runs = db.runs → db' = d.failIfExecuting now r → False := by
    rintro d hd rfl
    rw [Db.failIfExecuting, Db.updateRun_runs, hd, getElem?_modify_of_some hrow, if_pos rfl] at hrow'
    rw [← Option.some.inj hrow'] at hs'
    split at hs'
    · cases hs'
    · exact hs hs'
  cases hcont with
  | succeeded happ h hex hst => exact ⟨_, _, _, h, hex, hst⟩
  | failed => exact (hfail db rfl rfl).elim
  | @unrecorded a appr ex =>
    exact (hfail { db with executions := db.executions ++ [ex] } rfl rfl).elim
  | _ => exact absurd rfl hsame

/-- A run that is completed by a continuation of a CONSUMED approval. -/
theorem Backed.settled {run run' : Run} {stays : Bool} (hb : Backed h w) (hl : Lawful cfg h w e)
    (act : e.act = .did p (.db (.continuation r))
      ((DbOp.continuation r).exec w.db w.now p).2 stays)
    (hrow : w.db.runs[r]? = some run) (hs : run.status ≠ .completed)
    (hrow' : e.after.db.runs[r]? = some run') (hs' : run'.status = .completed) :
    AllExecuted h e r := by
  cases hcont : w.db.continuation w.now r with
  | error x =>
    have hsame : e.after.db = w.db := by
      cases hl.committed with
      | quiet rows => exact rows
      | beat hbeat act' rows => cases act.symm.trans act'
      | transaction o' stays' running allowed act' rows =>
        obtain ⟨rfl, ho, -, -⟩ := Act.did.inj (act.symm.trans act')
        cases ho
        rw [rows]
        simp only [DbOp.exec, hcont, DbOp.orRollback]
    rw [hsame] at hrow'
    cases hrow.symm.trans hrow'
    exact absurd hs' hs
  | ok res =>
    obtain ⟨db', found⟩ := res
    have hexec : (DbOp.continuation r).exec w.db w.now p = (db', .ok found) := by
      simp only [DbOp.exec, hcont, DbOp.orRollback]
    rw [hexec] at act
    have hdb : db' = e.after.db := congrArg Prod.fst (hexec.symm.trans (hl.committed_of_ok act))
    subst hdb
    obtain ⟨a, appr, ex, hlatest, hex, hst⟩ :=
      continuation_completes (continuation_cases hcont) hrow hs hrow' hs'
    have hmem : ex ∈ w.db.executions := List.mem_of_find?_eq_some hex
    have ha : ex.approvalId = a := by simpa using List.find?_some hex
    obtain ⟨r', hret⟩ := hb.succeeded ex hmem hst
    rw [ha] at hret
    obtain ⟨appr', hrow₀, hr'⟩ := hb.requested hret.1
    cases hlatest.row.symm.trans hrow₀
    rw [hlatest.run] at hr'
    subst hr'
    exact .continuation a hret.1 hret.2

/-- **Whatever completes a run** has all of its plan behind it. -/
theorem Backed.completes (hb : Backed h w) (hsound : Sound h w) (hl : Lawful cfg h w e) :
    CompletesSoundly h e := by
  intro r hnot hdone
  rw [hl.before] at hnot
  obtain ⟨run', hrow', hs'⟩ := World.runStatus_eq.1 hdone
  have hwas : ∀ {run : Run}, w.db.runs[r]? = some run → run.status ≠ .completed := by
    intro run hrow hs
    exact hnot (World.runStatus_eq.2 ⟨run, hrow, hs⟩)
  cases hl.run hsound hrow' with
  | same row => exact absurd hs' (hwas row)
  | beaten hbeat hr act row hrun =>
    subst hrun
    refine absurd ?_ (hwas row)
    rw [← hs']
    unfold Db.beaten
    split <;> rfl
  | fresh running allowed act row hf =>
    rw [hf.status] at hs'
    cases hs'
  | @write p g o stays run running allowed act row hw =>
    have hrun := hwas row
    cases hw with
    | taskNotFound => cases hs'
    | claimed => cases hs'
    | settledFailed => cases hs'
    | ambiguous => cases hs'
    | failed => cases hs'
    | settledCompleted hs =>
      exact hb.settled hl act row hrun hrow' hs'
    | succeeded a tool args result =>
      obtain ⟨payload, hstage, -⟩ := allowed
      obtain ⟨hrequested, hreturned⟩ := hb.called running hstage
      exact .continuation a hrequested hreturned
    | committed loaded out =>
      obtain ⟨c, hstage, hlands⟩ := allowed
      have hout : out.status = .completed := by
        simp only [Db.committed, Db.written] at hs'
        split at hs'
        · exact absurd hs' hrun
        · exact hs'
      obtain ⟨hfailed, hdone, hall | hcut⟩ := hlands.completed hout
      · exact .coordinator act running hstage ⟨hfailed, hall⟩
      · rcases ((hb.whole running (.inr hstage)).cut hcut).2 with hf | hd
        · rw [hfailed] at hf
          cases hf
        · exact absurd hd hdone
    | recovered hr hrec =>
      rw [hrec.status] at hs'
      cases hs'
    | approved user happr hr hp hexp hs =>
      simp only [ApprovalService.requeued, hs, ite_true] at hs'
      cases hs'
    | rejected user happr hr hp hexp hs =>
      simp only [ApprovalService.rejected, hs, ite_true] at hs'
      cases hs'
    | controlled => exact absurd (by simpa using hs') hrun
    | resumed =>
      simp only [Db.resumed] at hs'
      split at hs'
      · cases hs'
      · exact absurd hs' hrun

end steps

theorem Backed.initial {w : World} (hw : World.Initial w) : Backed ([] : History cfg) w := by
  refine ⟨?_, fun h => h.elim, ?_, ?_, fun h => h.elim⟩
  · intro p g r loaded c hg
    cases hg
  · intro p g r a payload result hg
    cases hg
  · intro ex hmem
    rw [hw.db] at hmem
    cases hmem

/-- **COMPLETED is sound** in every run whose plans are finished. -/
theorem completed_sound {c : Config (system cfg)} (hc : Reachable cfg Finishes c) :
    Historically CompletesSoundly c.hist :=
  Reachable.historically (P := Backed) (fun _ hw => .initial hw)
    (fun _ _ _ hsound hb hl hf => ⟨hb.step hl hf, hb.completes hsound hl⟩) hc

/-- A gated action is requested, approved, called and COMPLETED. -/
theorem completed_sound_approved : ∃ c : Config (system {}),
    c.world.runStatus 0 = some .completed ∧ Historically CompletesSoundly c.hist := by
  obtain ⟨c, hc, hstatus⟩ := reachable_of_run (K := Finishes) (fun c => c.world.runStatus 0)
    (x := some .completed) (World.empty_initial 0 [])
    (approvalGranted {} ++ serve {} 1 .processOne 8) (by decide +kernel)
  exact ⟨c, hstatus, completed_sound hc⟩

/-- An approval was requested for an action with which the plan is complete. -/
def fillsPlan (h : History cfg) (e : Event cfg) : Bool :=
  match e.act with
  | .did p (.db (.createApproval ..)) _ _ =>
    match phaseOf cfg h p with
    | some ⟨_, .coordinating _ _ c⟩ => c.done.length + 1 = c.actions.length
    | _ => false
  | _ => false

theorem AllButLast.fillsPlan {h : History cfg} {e : Event cfg} {r : RunId} {a : ApprovalId}
    (hlast : AllButLast r a h e) : fillsPlan h e = true := by
  obtain ⟨p, ⟨entry, stage⟩, loaded, c, act', ⟨cls, payload, impact, stays, act⟩, hg, rfl, -, -,
    hplan⟩ := hlast
  simp only [Observatory.fillsPlan, act, hg, ← hplan, List.length_append, List.length_singleton,
    decide_true]

/-- The coordinator's commit. -/
def commitsRun (e : Event cfg) : Bool :=
  match e.act with
  | .did _ (.db (.finalCommit ..)) _ _ => true
  | _ => false

/-- **COMPLETED with an action missing.**  The plan goes on after the action that needs an approval;
the continuation calls that action and completes the run. -/
theorem completed_unexecuted : ∃ c : Config (system {}),
    Reachable {} anyEvent c ∧ ¬Historically CompletesSoundly c.hist := by
  obtain ⟨c, hc, hsee⟩ := reachable_of_run (K := anyEvent)
    (fun c => (c.hist.head?.map fun e =>
        (e.before.runStatus 0, e.after.runStatus 0, commitsRun e),
      decide (Once (fun h e => fillsPlan h e = true) c.hist.tail)))
    (x := (some (some .executing, some .completed, false), false))
    (World.empty_initial 0 [])
    (taskPublished {} ++ serve {} 1 .processOne 21 { plan := { actions :=
        [some ⟨"write", "technocore_signed_write", []⟩, some ⟨"read", "technocore_read", []⟩] } } ++
      serve {} 0 (.decideApproval (.uuid 0) (.uuid 0) "approve" none) 2 ++
      serve {} 0 .checkSources 9 ++ serve {} 1 .processOne 7) (by decide +kernel)
  refine ⟨c, hc, fun hsound => ?_⟩
  obtain ⟨e, he, hevent⟩ := Option.map_eq_some_iff.1 (congrArg Prod.fst hsee)
  obtain ⟨h, hhist⟩ := List.head?_eq_some_iff.1 he
  have hfills := of_decide_eq_false (congrArg Prod.snd hsee)
  rw [hhist] at hsound hfills
  simp only [Prod.mk.injEq] at hevent
  obtain ⟨hbefore, hafter, hcommit⟩ := hevent
  cases hsound.1 0 (by rw [hbefore]; simp) hafter with
  | coordinator act =>
    rw [commitsRun, act] at hcommit
    cases hcommit
  | continuation a hrequested =>
    exact hfills (hrequested.mono fun _ _ hlast => hlast.fillsPlan)

end Observatory
