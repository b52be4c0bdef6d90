import Observatory.Verify.Holders

/-!
# Duplicate deliveries

Any number of entries may name one run: the publisher crashes between its XADD and its commit, an
entry is delivered again, a producer tries again.  The claim `UPDATE` tells them apart.  As long as
the run does not become claimable again, one claim goes through at most (`Taken.step`), and who has
not got it neither writes the run row nor calls a tool (`Undertaken.idle`).
-/

namespace Observatory

open Effect Effect.Machine

variable {cfg : Settings}

/-- The stages of a worker. -/
def Stage.isWorking : Stage → Bool
  | .scheduling | .sweeping _ | .publishing _ _ | .watching _ | .recovering .. | .polling
  | .judging _ | .operator | .enqueuing _ => false
  | _ => true

/-- The process behind an event: what it did itself, or what its heartbeat task did. -/
def actor (e : Event cfg) : Option Pid :=
  match e.act with
  | .did p .. | .ticked (.beat p) => some p
  | _ => none

/-- `_try_continuation` has returned `False` for `r`: the coordinator is executed. -/
def startsCoordinator (r : RunId) (e : Event cfg) : Bool :=
  match e.act with
  | .did _ (.db (.continuation r')) (.ok .none) _ => r' = r
  | _ => false

/-- A claim of `r` has gone through. -/
def claims (r : RunId) (e : Event cfg) : Bool := claimedRun e = some r

/-- The run a claim `UPDATE` is about, whether it goes through or not. -/
def attemptedRun (e : Event cfg) : Option RunId :=
  match e.act with
  | .did _ (.db (.claimRun r)) _ _ => some r
  | _ => none

/-- The run is EXECUTING and its lease is over. -/
def World.leaseOver (w : World) (r : RunId) : Bool :=
  w.db.runs[r]?.any fun run => run.status = .executing && run.leaseExpiresAt.all (· < w.now)

/-- **The run is not made claimable again**: no claim finds its lease over, and neither a
resumption nor an approval puts it back. -/
structure Unrenewed (r : RunId) (_ : History cfg) (e : Event cfg) : Prop where
  lease : attemptedRun e = some r → e.before.leaseOver r = false
  resume : unpausedRun e ≠ some r
  approval : e.before.runStatus r = some .waitingApproval → e.after.runStatus r ≠ some .queued

instance (r : RunId) (h : History cfg) (e : Event cfg) : Decidable (Unrenewed r h e) :=
  decidable_of_iff (_ ∧ _ ∧ _) ⟨fun hu => ⟨hu.1, hu.2.1, hu.2.2⟩, fun hu => ⟨hu.1, hu.2, hu.3⟩⟩

/-- In its course, process `p` has got the claim of `r`. -/
def HasClaimed (h : History cfg) (p : Pid) (r : RunId) : Prop := ∃ e ∈ course h p, claims r e

section steps

variable {h : History cfg} {w : World} {e : Event cfg} {p p' : Pid} {r : RunId}

theorem HasClaimed.grows {g : Phase} (hl : Lawful cfg h w e) (hc : HasClaimed h p r)
    (hg : phaseOf cfg h p = some g) : HasClaimed (e :: h) p r := by
  obtain ⟨e', hmem, hclaim⟩ := hc
  exact ⟨e', hl.course_grows hg hmem, hclaim⟩

theorem hasClaimed_of_claimsRun (hc : ClaimsRun e p r) : HasClaimed (e :: h) p r := by
  have hclaim : claims r e = true := decide_eq_true hc.claimedRun
  obtain ⟨stays, act⟩ := hc
  refine ⟨e, ?_, hclaim⟩
  rw [course_did act]
  exact List.mem_cons_self

/-! ## Who undertakes a run -/

/-- **What a worker does, it has claimed**, its heartbeat task included. -/
structure Undertaken (h : History cfg) (w : World) : Prop where
  claimed : ∀ {p : Pid} {r : RunId}, Held h p r → HasClaimed h p r
  beating : ∀ {p : Pid} {b : Beat}, w.beats p = some b →
    (∃ g, phaseOf cfg h p = some g) ∧ HasClaimed h p b.run
  working : ∀ {p : Pid} {g : Phase}, request h p = some .processOne → phaseOf cfg h p = some g →
    g.stage.isWorking = true

theorem Undertaken.initial {w : World} (hw : World.Initial w) :
    Undertaken ([] : History cfg) w := by
  refine ⟨?_, ?_, ?_⟩
  · rintro p r ⟨g, hg, -⟩
    cases hg
  · intro p b hb
    rw [hw.beats p] at hb
    cases hb
  · intro p g hq
    cases hq

theorem Undertaken.claimed_step (hu : Undertaken h w) (hl : Lawful cfg h w e)
    (hp : Held (e :: h) p r) : HasClaimed (e :: h) p r := by
  rcases hl.held hp with hold | hc
  · obtain ⟨g, hg, -⟩ := id hold
    exact (hu.claimed hold).grows hl hg
  · exact hasClaimed_of_claimsRun hc

/-- A worker stays a worker. -/
theorem working_step {g g' : Phase} {o : Op} {res : Sys.Result o}
    (step : Flow.Step cfg g o res g') (hg : g.stage.isWorking = true) :
    g'.stage.isWorking = true := by
  cases step with
  | logged h₀ => exact hg
  | operated h₀ => rw [h₀] at hg; cases hg
  | dlq h₀ => exact hg
  | sweeping h₀ => rw [h₀] at hg; cases hg
  | selected h₀ => rw [h₀] at hg; cases hg
  | published h₀ => rw [h₀] at hg; cases hg
  | unpublished h₀ => rw [h₀] at hg; cases hg
  | swept h₀ => rw [h₀] at hg; cases hg
  | watching h₀ => rw [h₀] at hg; cases hg
  | loaded h₀ => rw [h₀] at hg; cases hg
  | judged h₀ => rw [h₀] at hg; cases hg
  | recovered h₀ => rw [h₀] at hg; cases hg
  | inserted h₀ => rw [h₀] at hg; cases hg
  | resumed h₀ => rw [h₀] at hg; cases hg
  | listed h₀ => rw [h₀] at hg; cases hg
  | judgedSource h₀ => rw [h₀] at hg; cases hg
  | looked h₀ => rw [h₀] at hg; cases hg
  | accessed h₀ => rw [h₀] at hg; cases hg
  | enqueued h₀ => rw [h₀] at hg; cases hg
  | _ => rfl

theorem Undertaken.working_step (hu : Undertaken h w) (hl : Lawful cfg h w e) {g : Phase}
    (hq : request (e :: h) p = some .processOne) (hg : phaseOf cfg (e :: h) p = some g) :
    g.stage.isWorking = true := by
  cases hl.became hg with
  | kept running other =>
    rw [request_other (hl.not_started running)] at hq
    exact hu.working hq running
  | started q act phase =>
    rw [request_started act] at hq
    cases hq
    subst phase
    rfl
  | did act running step =>
    rw [request_other (hl.not_started running)] at hq
    exact Observatory.working_step step (hu.working hq running)

/-! ### Heartbeat tasks -/

theorem World.settled_beats {b : Beat} {stays : Bool} (hb : (w.settled p' stays).beats p = some b) :
    w.beats p = some b ∧ (p' = p → stays = true) := by
  cases stays with
  | true => exact ⟨hb, fun _ => rfl⟩
  | false =>
    have hp : p ≠ p' := by
      rintro rfl
      simp [World.settled, World.setBeat] at hb
    refine ⟨?_, fun heq => absurd heq.symm hp⟩
    simpa [World.settled, World.setBeat, Function.update_of_ne hp] using hb

/-- A heartbeat task is running because it was, or because it has just been started. -/
theorem World.exec_beats {b : Beat} {o : Op} {ch : Choice}
    (hb : (w.exec p' ch o).1.beats p = some b) :
    w.beats p = some b ∨ p' = p ∧ o = .ext (.startHeartbeat b.run) := by
  cases o with
  | db o => exact .inl hb
  | redis o => exact .inl hb
  | ext o =>
    cases o with
    | startHeartbeat r =>
      by_cases hp : p = p'
      · subst hp
        simp only [World.exec, World.setBeat, Function.update_self, Option.some.injEq] at hb
        subst hb
        exact .inr ⟨rfl, rfl⟩
      · left
        simpa only [World.exec, World.setBeat, Function.update_of_ne hp] using hb
    | stopHeartbeat =>
      by_cases hp : p = p'
      · subst hp
        simp only [World.exec, World.setBeat, Function.update_self] at hb
        cases hb
      · left
        simpa only [World.exec, World.setBeat, Function.update_of_ne hp] using hb
    | _ => exact .inl hb

theorem World.perform_beats {b : Beat} {o : Op} {ch : Choice}
    (hb : (w.perform p' o ch).1.beats p = some b) :
    w.beats p = some b ∨ p' = p ∧ o = .ext (.startHeartbeat b.run) := by
  cases hfault : ch.fault with
  | none =>
    simp only [World.perform, hfault] at hb
    exact World.exec_beats hb
  | before x =>
    simp only [World.perform, hfault] at hb
    split at hb
    · exact .inl hb
    · exact World.exec_beats hb
  | after x =>
    cases o with
    | redis o =>
      simp only [World.perform, hfault] at hb
      exact .inl hb
    | db o =>
      simp only [World.perform, hfault] at hb
      exact World.exec_beats hb
    | ext o =>
      simp only [World.perform, hfault] at hb
      exact World.exec_beats hb

theorem World.tick_beats {b : Beat} {t : Tick} (hb : (w.tick t).beats p = some b) :
    ∃ b₀, w.beats p = some b₀ ∧ b₀.run = b.run := by
  cases t with
  | advance ms => exact ⟨b, hb, rfl⟩
  | beat p' =>
    simp only [World.tick] at hb
    split at hb
    · exact ⟨b, hb, rfl⟩
    · next b' hb' =>
      by_cases hp : p = p'
      · subst hp
        simp only [World.setBeat, Function.update_self, Option.some.injEq] at hb
        subst hb
        exact ⟨b', hb', rfl⟩
      · simp only [World.setBeat, Function.update_of_ne hp] at hb
        exact ⟨b, hb, rfl⟩

theorem Undertaken.beating_step {b : Beat} (hu : Undertaken h w) (hl : Lawful cfg h w e)
    (hb : e.after.beats p = some b) :
    (∃ g, phaseOf cfg (e :: h) p = some g) ∧ HasClaimed (e :: h) p b.run := by
  have hgrows : ∀ {g r}, HasClaimed h p r → phaseOf cfg h p = some g → HasClaimed (e :: h) p r :=
    fun hc hg => hc.grows hl hg
  -- another process acts, and the task was running before
  have hkept : ∀ b₀, e.act.pid? ≠ some p → w.beats p = some b₀ → b₀.run = b.run →
      (∃ g, phaseOf cfg (e :: h) p = some g) ∧ HasClaimed (e :: h) p b.run := by
    intro b₀ hother hb₀ hr
    obtain ⟨⟨g, hg⟩, hc⟩ := hu.beating hb₀
    exact ⟨⟨g, (phase_of_other hother).trans hg⟩, hgrows (hr ▸ hc) hg⟩
  cases hl with
  | @started p' q stays idle =>
    have hb₀ := (World.settled_beats hb).1
    refine hkept b (fun heq => ?_) hb₀ rfl
    obtain ⟨⟨g, hg⟩, -⟩ := hu.beating hb₀
    cases heq
    cases hg.symm.trans idle
  | @did p' o g₀ ch stays running allowed =>
    obtain ⟨hb, hstays⟩ := World.settled_beats hb
    by_cases hp : p' = p
    · subst hp
      refine ⟨⟨(Flow.flow cfg).next g₀ o (w.perform p' o ch).2, ?_⟩, ?_⟩
      · refine (congrFun (phase_did running) p').trans ?_
        rw [Function.update_self, hstays rfl]
        rfl
      · rcases World.perform_beats hb with hb | ⟨-, rfl⟩
        · exact hgrows (hu.beating hb).2 running
        · obtain ⟨loaded, hs⟩ := allowed
          exact hgrows (hu.claimed ⟨g₀, running, by rw [hs]; rfl⟩) running
    · rcases World.perform_beats hb with hb | ⟨heq, -⟩
      · exact hkept b (fun heq => hp (Option.some.inj heq)) hb rfl
      · exact absurd heq hp
  | @crashed p' g running =>
    obtain ⟨hb, hstays⟩ := World.settled_beats (show (w.settled p' false).beats p = some b from hb)
    refine hkept b (fun heq => ?_) hb rfl
    cases heq
    cases hstays rfl
  | ticked t =>
    obtain ⟨b₀, hb₀, hr⟩ := World.tick_beats hb
    exact hkept b₀ (fun heq => by cases heq) hb₀ hr

theorem Undertaken.step (hu : Undertaken h w) (hl : Lawful cfg h w e) :
    Undertaken (e :: h) e.after where
  claimed := hu.claimed_step hl
  beating := hu.beating_step hl
  working := hu.working_step hl

/-- A tool is called for a run by who holds it. -/
theorem held_of_callTool {caller : Caller} {tool : String} {args : Dict} {g : Phase}
    (hg : phaseOf cfg h p = some g) (allowed : Flow.allowsExt g (.callTool r caller tool args)) :
    Held h p r := by
  cases caller with
  | coordinator =>
    obtain ⟨loaded, c, act, hs, -⟩ := allowed
    exact ⟨g, hg, by rw [hs]; rfl⟩
  | continuation a =>
    obtain ⟨payload, hs, -⟩ := allowed
    exact ⟨g, hg, by rw [hs]; rfl⟩

/-- A worker writes a run row when it claims the run or holds it. -/
theorem RunWrite.of_working {o : DbOp} {g : Phase} {run run' : Run} (hsound : Sound h w)
    (hg : phaseOf cfg h p = some g) (allowed : Flow.allowsDb g o)
    (hwork : g.stage.isWorking = true) (row : w.db.runs[r]? = some run)
    (hw : RunWrite w.db w.now p r run o run') : Held h p r ∨ o = .claimRun r := by
  have hheld : o.settles = some r → Held h p r := fun ho => ⟨g, hg, holds_of_settles allowed ho⟩
  have hoperator : g.stage = .operator → Held h p r ∨ o = .claimRun r := by
    intro hs
    rw [hs] at hwork
    cases hwork
  cases hw with
  | taskNotFound hs ht =>
    have hlt := hsound.tasks run (List.mem_of_getElem? row)
    rw [List.getElem?_eq_none_iff] at ht
    exact absurd hlt (Nat.not_lt.2 ht)
  | claimed hc => exact .inr rfl
  | recovered hr hrec =>
    obtain ⟨cutoff, hs⟩ := allowed
    rw [hs] at hwork
    cases hwork
  | approved => exact hoperator allowed
  | rejected => exact hoperator allowed
  | controlled => exact hoperator allowed
  | resumed => exact hoperator allowed.1
  | _ => exact .inl (hheld rfl)

/-- **Who has not claimed the run leaves it alone.** -/
theorem Undertaken.idle (hsound : Sound h w) (hu : Undertaken h w) (hl : Lawful cfg h w e)
    (hp : actor e = some p) (hq : request h p = some .processOne)
    (hnot : ¬HasClaimed (e :: h) p r) :
    (∀ run, w.db.runs[r]? = some run → e.after.db.runs[r]? = some run) ∧
      ∀ caller tool args res stays,
        e.act ≠ .did p (.ext (.callTool r caller tool args)) res stays := by
  have hfree : ¬Held h p r := by
    intro hheld
    obtain ⟨g, hg, -⟩ := id hheld
    exact hnot ((hu.claimed hheld).grows hl hg)
  refine ⟨fun run row => ?_, fun caller tool args res stays act => ?_⟩
  · obtain ⟨run', row'⟩ := hl.run_kept hsound row
    rw [row']
    cases hl.run hsound row' with
    | same row₀ => exact row₀.symm.trans row
    | fresh running allowed act row₀ => cases row₀.symm.trans row
    | @beaten p' b run₀ hb hr act row₀ hrun =>
      have hpp : p' = p := by
        simpa only [actor, act, Option.some.injEq] using hp
      subst hpp hr
      obtain ⟨⟨g, hg⟩, hc⟩ := hu.beating hb
      exact absurd (hc.grows hl hg) hnot
    | @write p' g o stays run₀ running allowed act row₀ hw =>
      have hpp : p' = p := by
        simpa only [actor, act, Option.some.injEq] using hp
      subst hpp
      rcases hw.of_working hsound running allowed (hu.working hq running) row₀ with hheld | rfl
      · exact absurd hheld hfree
      · cases hw with
        | claimed hclaim =>
          have hres : ((DbOp.claimRun r).exec w.db w.now p').2 = .ok true := by
            simp only [DbOp.exec, DbOp.done, Db.claimRun, row₀, hclaim, ite_true]
          exact absurd (hasClaimed_of_claimsRun ⟨stays, act.trans (by rw [hres])⟩) hnot
  · obtain ⟨g, hg, allowed⟩ := hl.did act
    exact hfree (held_of_callTool hg allowed)

/-! ## One claim -/

/-- **The run is taken at most once.** -/
structure Taken (r : RunId) (h : History cfg) (w : World) : Prop where
  once : h.countP (claims r) ≤ 1
  gone : 0 < h.countP (claims r) → ∃ run, w.db.runs[r]? = some run ∧ run.status ≠ .queued
  sole : ∀ {p p' : Pid}, Held h p r → Held h p' r → p = p'
  started : h.countP (startsCoordinator r) ≤ h.countP (claims r)
  waiting : ∀ {p : Pid} {g : Phase} {loaded : Run}, phaseOf cfg h p = some g →
    g.stage = .claimed r loaded → h.countP (startsCoordinator r) = 0

theorem Taken.initial : Taken r ([] : History cfg) w where
  once := Nat.zero_le 1
  gone hpos := absurd hpos (Nat.lt_irrefl 0)
  sole := by
    rintro p p' ⟨g, hg, -⟩
    cases hg
  started := le_rfl
  waiting _ _ := rfl

/-- Who holds a run, has claimed it, so there was a claim. -/
theorem Undertaken.claims_pos (hu : Undertaken h w) (hp : Held h p r) :
    0 < h.countP (claims r) := by
  obtain ⟨e', hmem, hclaim⟩ := hu.claimed hp
  exact List.countP_pos_iff.2 ⟨e', course_subset hmem, hclaim⟩

/-- The first claim is the only one. -/
theorem Taken.unclaimed (ht : Taken r h w) (hl : Lawful cfg h w e) (hK : Unrenewed r h e)
    (hc : ClaimsRun e p r) : h.countP (claims r) = 0 := by
  obtain ⟨run, hrow, hclaim, -⟩ := hl.claims hc
  by_contra hpos
  obtain ⟨run', hrow', hs⟩ := ht.gone (Nat.pos_of_ne_zero hpos)
  cases hrow.symm.trans hrow'
  obtain ⟨stays, act⟩ := hc
  have hlease := hK.lease (by simp only [attemptedRun, act])
  rw [hl.before] at hlease
  simp only [World.leaseOver, hrow, Option.any_some] at hlease
  simp only [Db.claimable, hs, decide_false, Bool.false_or, hlease] at hclaim
  cases hclaim

/-- What makes a run QUEUED. -/
theorem RunWrite.queued {db : Db} {now : Time} {v : WorkerId} {o : DbOp} {run run' : Run}
    (hw : RunWrite db now v r run o run') (hs : run'.status = .queued) :
    run.status = .queued ∨ run.status = .waitingApproval ∨
      (∃ loaded, o = .resumeRun r loaded ∧ loaded.status = .paused) ∨
      ∃ loaded out, o = .finalCommit r loaded out ∧ out.status = .queued := by
  cases hw with
  | controlled loaded request => exact .inl (by simpa using hs)
  | approved user happr hr hp hexp hs₀ => exact .inr (.inl hs₀)
  | rejected user happr hr hp hexp hs₀ => exact .inr (.inl hs₀)
  | recovered hr hrec =>
    rw [hrec.status] at hs
    cases hs
  | resumed loaded =>
    by_cases hloaded : loaded.status = .paused
    · exact .inr (.inr (.inl ⟨loaded, rfl, hloaded⟩))
    · simp only [Db.resumed, hloaded, ite_false] at hs
      exact .inl hs
  | committed loaded out =>
    simp only [Db.committed, Db.written] at hs
    split at hs
    · exact .inl hs
    · exact .inr (.inr (.inr ⟨loaded, out, rfl, hs⟩))
  | _ => cases hs

/-- A run that is not queued stays so. -/
theorem Lawful.unqueued (hsound : Sound h w) (hl : Lawful cfg h w e) (hK : Unrenewed r h e)
    {run run' : Run} (hrow : w.db.runs[r]? = some run) (hrow' : e.after.db.runs[r]? = some run')
    (hs : run.status ≠ .queued) : run'.status ≠ .queued := by
  intro hqueued
  have hwaits : run.status ≠ .waitingApproval := by
    intro hwait
    refine hK.approval ?_ (World.runStatus_eq.2 ⟨run', hrow', hqueued⟩)
    rw [hl.before, World.runStatus_eq]
    exact ⟨run, hrow, hwait⟩
  cases hl.run hsound hrow' with
  | same row =>
    cases hrow.symm.trans row
    exact hs hqueued
  | beaten hb hr act row hrun =>
    cases hrow.symm.trans row
    subst hrun
    unfold Db.beaten at hqueued
    split at hqueued <;> exact hs hqueued
  | fresh running allowed act row hf => cases hrow.symm.trans row
  | write running allowed act row hw =>
    cases hrow.symm.trans row
    rcases hw.queued hqueued with hq | hwait | ⟨loaded, rfl, hpaused⟩ | ⟨loaded, out, rfl, hout⟩
    · exact hs hq
    · exact hwaits hwait
    · refine hK.resume ?_
      rw [unpausedRun, act]
      exact if_pos hpaused
    · obtain ⟨c, -, hlands⟩ := allowed
      have hmem := hlands.reportable
      rw [hout] at hmem
      simp at hmem

/-- What starts the coordinator has claimed and not looked for an approval yet. -/
theorem Lawful.starts (hl : Lawful cfg h w e) (hs : startsCoordinator r e = true) :
    ∃ p g loaded stays, e.act = .did p (.db (.continuation r)) (.ok .none) stays ∧
      phaseOf cfg h p = some g ∧ g.stage = .claimed r loaded := by
  unfold startsCoordinator at hs
  split at hs
  · next p r' stays act =>
    obtain rfl := of_decide_eq_true hs
    obtain ⟨g, hg, loaded, hstage⟩ := hl.did act
    exact ⟨p, g, loaded, stays, act, hg, hstage⟩
  · cases hs

theorem claims_iff : claims r e = true ↔ claimedRun e = some r := decide_eq_true_iff

theorem exists_claimsRun (hc : claims r e = true) : ∃ p, ClaimsRun e p r := by
  have hrun := claims_iff.1 hc
  unfold claimedRun at hrun
  split at hrun
  · next p r' stays act =>
    cases hrun
    exact ⟨p, stays, act⟩
  · cases hrun

theorem not_claims_of_starts (hs : startsCoordinator r e = true) : claims r e = false := by
  unfold startsCoordinator at hs
  split at hs
  · next p r' stays act => simp [claims, claimedRun, act]
  · cases hs

/-- Who has claimed and not looked for an approval yet was there before, or claims right now. -/
theorem Lawful.waiting {g : Phase} {loaded : Run} (hl : Lawful cfg h w e)
    (hg : phaseOf cfg (e :: h) p = some g) (hs : g.stage = .claimed r loaded) :
    ClaimsRun e p r ∨
      (∃ g₀ loaded, phaseOf cfg h p = some g₀ ∧ g₀.stage = .claimed r loaded) ∧
        ∀ stays, e.act ≠ .did p (.db (.continuation r)) (.ok .none) stays := by
  cases hl.became hg with
  | kept running other =>
    refine .inr ⟨⟨g, loaded, running, hs⟩, fun stays act => ?_⟩
    rw [act] at other
    exact other rfl
  | started q act phase =>
    subst phase
    cases q <;> cases hs
  | @did o res g₀ act running step =>
    cases step with
    | claimed h₀ =>
      cases hs
      exact .inl ⟨true, act⟩
    | logged h₀ => rcases h₀ with h₀ | ⟨_, _, h₀⟩ | h₀ <;> rw [h₀] at hs <;> cases hs
    | dlq h₀ =>
      rw [h₀] at hs
      cases hs
    | operated h₀ => rw [h₀] at hs; cases hs
    | _ => cases hs

theorem Taken.step (hsound : Sound h w) (hu : Undertaken h w) (ht : Taken r h w)
    (hl : Lawful cfg h w e) (hK : Unrenewed r h e) : Taken r (e :: h) e.after := by
  by_cases hc : claims r e = true
  · -- the first claim
    obtain ⟨p, hclaim⟩ := exists_claimsRun hc
    have hnone : h.countP (claims r) = 0 := ht.unclaimed hl hK hclaim
    have hfree : ∀ p', ¬Held h p' r := fun p' hp' =>
      Nat.lt_irrefl 0 (hnone ▸ hu.claims_pos hp')
    have hstarts : h.countP (startsCoordinator r) = 0 :=
      Nat.le_zero.1 (hnone ▸ ht.started)
    have hnostart : startsCoordinator r e = false := by
      by_contra hs
      rw [not_claims_of_starts (Bool.eq_true_of_not_eq_false hs)] at hc
      cases hc
    obtain ⟨run, -, -, hrow'⟩ := hl.claims hclaim
    refine ⟨?_, fun _ => ⟨_, hrow', RunStatus.noConfusion⟩, ?_, ?_, fun _ _ => ?_⟩
    · rw [List.countP_cons, hnone, if_pos hc]
    · intro p₁ p₂ hp₁ hp₂
      rcases hl.held hp₁ with hold | hc₁
      · exact absurd hold (hfree p₁)
      rcases hl.held hp₂ with hold | hc₂
      · exact absurd hold (hfree p₂)
      obtain ⟨stays₁, act₁⟩ := hc₁
      obtain ⟨stays₂, act₂⟩ := hc₂
      exact (Act.did.inj (act₁.symm.trans act₂)).1
    · rw [List.countP_cons, hstarts, hnostart]
      exact Nat.zero_le _
    · rw [List.countP_cons, hstarts, hnostart]
      rfl
  · have hnc : ∀ {p}, ¬ClaimsRun e p r := fun hclaim => hc (claims_iff.2 hclaim.claimedRun)
    have hcount : (e :: h).countP (claims r) = h.countP (claims r) := by
      rw [List.countP_cons, if_neg hc, Nat.add_zero]
    have hheld : ∀ {p}, Held (e :: h) p r → Held h p r := fun hp =>
      (hl.held hp).resolve_right hnc
    refine ⟨hcount ▸ ht.once, fun hpos => ?_, fun hp hp' => ht.sole (hheld hp) (hheld hp'), ?_, ?_⟩
    · obtain ⟨run, hrow, hs⟩ := ht.gone (hcount ▸ hpos)
      obtain ⟨run', hrow'⟩ := hl.run_kept hsound hrow
      exact ⟨run', hrow', hl.unqueued hsound hK hrow hrow' hs⟩
    · rw [hcount, List.countP_cons]
      by_cases hs : startsCoordinator r e = true
      · obtain ⟨p, g, loaded, stays, act, hg, hstage⟩ := hl.starts hs
        have hpos := hu.claims_pos ⟨g, hg, by rw [hstage]; rfl⟩
        rw [ht.waiting hg hstage, if_pos hs]
        exact hpos
      · rw [if_neg hs]
        exact ht.started
    · intro p g loaded hg hstage
      obtain ⟨⟨g₀, loaded₀, hg₀, hstage₀⟩, hnot⟩ := (hl.waiting hg hstage).resolve_left hnc
      rw [List.countP_cons, ht.waiting hg₀ hstage₀, Nat.zero_add, if_neg]
      intro hs
      -- who starts the coordinator is the one holder, and it has moved on
      obtain ⟨p', g', loaded', stays, act, hg', hstage'⟩ := hl.starts hs
      obtain rfl : p' = p :=
        ht.sole ⟨g', hg', by rw [hstage']; rfl⟩ ⟨g₀, hg₀, by rw [hstage₀]; rfl⟩
      exact hnot stays act

/-! ## One entry -/

/-- Without the claim, `_process_run` ends after its look and its attempt. -/
theorem processRun_unclaimed {runId : Json} {t : List (Performed Sys)} {res : Except PyExc Unit}
    (hr : parseUuid runId = .ok r) (h : Prog.Exec (WorkerLoop.processRun cfg runId) t res)
    (hlost : ⟨.db (.claimRun r), .ok true⟩ ∉ t) :
    (t.map (·.op)).Sublist [.db (.openRun r), .db (.claimRun r)] := by
  simp only [WorkerLoop.processRun, hr, Prog.ofExcept, Prog.bind_eq, Prog.ret_bind] at h
  rcases Prog.exec_bind.1 h with ⟨found, t₁, t₂, rfl, hopen, hfound⟩ | ⟨x, rfl, hopen⟩
  swap
  · obtain ⟨y, rfl, -⟩ := Prog.exec_call_error.1 hopen
    exact (List.nil_sublist _).cons_cons _
  obtain rfl := Prog.exec_call_ok.1 hopen
  have hover : Prog.Exec (.ret () : Proc Unit) t₂ res →
      (([⟨.db (.openRun r), .ok found⟩] ++ t₂ : List (Performed Sys)).map (·.op)).Sublist
        [.db (.openRun r), .db (.claimRun r)] := by
    intro hret
    obtain ⟨rfl, -⟩ := Prog.exec_ret.1 hret
    exact (List.nil_sublist _).cons_cons _
  cases found with
  | ready loaded task =>
    refine List.Sublist.cons_cons _ ?_
    rcases Prog.exec_bind.1 hfound with ⟨won, t₃, t₄, rfl, hclaim, hwon⟩ | ⟨x, rfl, hclaim⟩
    · obtain rfl := Prog.exec_call_ok.1 hclaim
      cases won with
      | true => simp at hlost
      | false =>
        have hret : Prog.Exec (.ret () : Proc Unit) t₄ res := hwon
        obtain ⟨rfl, -⟩ := Prog.exec_ret.1 hret
        exact List.Sublist.refl _
    · obtain ⟨y, rfl, -⟩ := Prog.exec_call_error.1 hclaim
      exact List.Sublist.refl _
  | missing => exact hover hfound
  | terminal => exact hover hfound
  | taskNotFound => exact hover hfound

theorem ackEntry_trace {entry : EntryId} {t : List (Performed Sys)} {res : Except PyExc Unit}
    (h : Prog.Exec (WorkerLoop.ackEntry entry) t res) : t.map (·.op) = [.redis (.ack entry)] := by
  unfold WorkerLoop.ackEntry at h
  obtain ⟨-, s, hcall⟩ := Prog.exec_swallow.1 h
  obtain ⟨answer, rfl, -⟩ := Prog.exec_call_lift.1 hcall
  rfl

/-- Without the claim, an entry that names `r` is looked at and acknowledged. -/
theorem handleEntry_unclaimed {entry : EntryId} {body : Body} {t : List (Performed Sys)}
    {res : Except PyExc Unit} (hr : body.runId? = some r)
    (h : Prog.Exec (WorkerLoop.handleEntry cfg entry body) t res)
    (hlost : ⟨.db (.claimRun r), .ok true⟩ ∉ t) :
    (t.map (·.op)).Sublist [.db (.openRun r), .db (.claimRun r), .redis (.ack entry)] := by
  cases body with
  | json payload =>
    cases hid : getRunId payload with
    | error x => simp [Body.runId?, hid] at hr
    | ok runId =>
      have htruthy : runId.truthy = true := by
        by_contra hfalsy
        simp [Body.runId?, hid, hfalsy] at hr
      have hparse : parseUuid runId = .ok r := by
        rw [runId?_of_truthy hid htruthy] at hr
        cases hp : parseUuid runId with
        | error x => simp [hp, Except.toOption] at hr
        | ok r' =>
          rw [hp] at hr
          cases hr
          rfl
      simp only [WorkerLoop.handleEntry, hid, htruthy, Prog.ofExcept, Prog.bind_eq, Prog.ret_bind,
        ite_true] at h
      rcases Prog.exec_bind.1 h with ⟨u, t₁, t₂, rfl, hrun, hack⟩ | ⟨x, rfl, hrun⟩
      · have hrun' := processRun_unclaimed hparse hrun fun hmem =>
          hlost (List.mem_append_left _ hmem)
        rw [List.map_append, ackEntry_trace hack]
        exact hrun'.append (List.Sublist.refl [_])
      · exact (processRun_unclaimed hparse hrun hlost).trans
          (List.sublist_append_left [_, _] [_])
  | _ => cases hr

end steps

/-- **Nothing is done without the claim**: a worker that has not got the claim of `r` neither
writes its row, nor calls a tool for it, nor starts the coordinator. -/
def Harmless (r : RunId) (h : History cfg) (e : Event cfg) : Prop :=
  ∀ p, actor e = some p → request h p = some .processOne → ¬HasClaimed (e :: h) p r →
    (∀ run, e.before.db.runs[r]? = some run → e.after.db.runs[r]? = some run) ∧
      (∀ caller tool args res stays,
        e.act ≠ .did p (.ext (.callTool r caller tool args)) res stays) ∧
      startsCoordinator r e = false

/-- **Duplicate deliveries are harmless.**  However many entries name `r`, its claim goes through
once and its coordinator is executed once at most, and every handling of such an entry that has not
got the claim leaves the run alone and is over after its look, its attempt and its ACK. -/
theorem duplicates_harmless (r : RunId) {c : Config (system cfg)}
    (hc : Reachable cfg (Unrenewed r) c) :
    c.hist.countP (claims r) ≤ 1 ∧ c.hist.countP (startsCoordinator r) ≤ 1 ∧
      Historically (Harmless r) c.hist ∧
      ∀ entry body t res, Body.runId? body = some r →
        Prog.Exec (WorkerLoop.handleEntry cfg entry body) t res →
        ⟨.db (.claimRun r), .ok true⟩ ∉ t →
        (t.map (·.op)).Sublist [.db (.openRun r), .db (.claimRun r), .redis (.ack entry)] := by
  have hinv : Undertaken c.hist c.world ∧ Taken r c.hist c.world :=
    Reachable.induct (P := fun h w => Undertaken h w ∧ Taken r h w)
      (fun w hw => ⟨.initial hw, .initial⟩)
      (fun h w e hsound hP hl hK => ⟨hP.1.step hl, hP.2.step hsound hP.1 hl hK⟩) hc
  have hharmless : Historically (Harmless r) c.hist := by
    refine Reachable.historically (P := Undertaken) (fun w hw => .initial hw) ?_ hc
    intro h w e hsound hu hl _
    refine ⟨hu.step hl, fun p hp hq hnot => ?_⟩
    obtain ⟨hrow, htool⟩ := hu.idle hsound hl hp hq hnot
    rw [hl.before]
    refine ⟨hrow, htool, ?_⟩
    by_contra hs
    obtain ⟨p', g, loaded, stays, act, hg, hstage⟩ := hl.starts (Bool.eq_true_of_not_eq_false hs)
    obtain rfl : p' = p := by simpa only [actor, act, Option.some.injEq] using hp
    exact hnot ((hu.claimed ⟨g, hg, by rw [hstage]; rfl⟩).grows hl hg)
  refine ⟨hinv.2.once, hinv.2.started.trans hinv.2.once, hharmless, ?_⟩
  intro entry body t res hr hexec hlost
  exact handleEntry_unclaimed hr hexec hlost

/-- The publisher crashes after its XADD and publishes again; of the two workers that have loaded
the run, one gets the claim. -/
theorem duplicates_harmless_twice : ∃ c : Config (system {}),
    c.hist.countP (fun e => attemptedRun e = some 0) = 2 ∧ c.hist.countP (claims 0) = 1 ∧
      c.hist.countP (startsCoordinator 0) ≤ 1 ∧ Historically (Harmless 0) c.hist := by
  obtain ⟨c, hc, hsee⟩ := reachable_of_run (K := Unrenewed 0)
    (fun c => (c.hist.countP (fun e => attemptedRun e = some 0), c.hist.countP (claims 0)))
    (x := (2, 1)) (World.empty_initial 0 [])
    (serve {} 0 (.createTask { title := "task", prompt := "prompt" } 0) 2 ++
      serve {} 0 .checkSources 3 ++ [.crash 0] ++ serve {} 0 .checkSources 9 ++
      serve {} 1 .processOne 2 ++ serve {} 2 .processOne 4 ++ List.replicate 2 (.perform 1 {}))
    (by rfl)
  obtain ⟨-, hstarts, hharmless, -⟩ := duplicates_harmless 0 hc
  exact ⟨c, congrArg Prod.fst hsee, congrArg Prod.snd hsee, hstarts, hharmless⟩

end Observatory
