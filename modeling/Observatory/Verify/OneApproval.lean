import Observatory.Verify.Holders

/-!
# One usable approval

An approval is usable while it is PENDING or APPROVED.  A worker that crashes after its request for
an approval has committed leaves the run EXECUTING; the entry is delivered again, the next worker
finds neither an APPROVED nor a CONSUMED approval, plans afresh and requests a second one.

Runs never have two usable approvals if every claim finds the run with no PENDING approval and no
holder (`FreshClaims`): then whoever may still request an approval works on a run that has none.
-/

namespace Observatory

open Effect Effect.Machine

variable {cfg : Settings}

/-- Approval `a` of run `r` can still be decided, or used. -/
def Usable (w : World) (r : RunId) (a : ApprovalId) : Prop :=
  ∃ appr, w.db.approvals[a]? = some appr ∧ appr.runId = r ∧
    (appr.status = .pending ∨ appr.status = .approved)

/-- No run has two usable approvals. -/
def OneUsable (w : World) : Prop :=
  ∀ r a a', Usable w r a → Usable w r a' → a = a'

/-- **A claim starts afresh**: nobody holds the run, and no approval of it is PENDING. -/
def FreshClaims (h : History cfg) (e : Event cfg) : Prop :=
  ∀ r ∈ claimedRun e, Free h r ∧
    ∀ appr ∈ (e.before.db.approvals : List Approval), appr.runId = r → appr.status ≠ .pending

instance (h : History cfg) (e : Event cfg) : Decidable (FreshClaims h e) :=
  inferInstanceAs (Decidable (∀ r ∈ claimedRun e, Free h r ∧
    ∀ appr ∈ (e.before.db.approvals : List Approval), appr.runId = r → appr.status ≠ .pending))

/-- The coordinator may still request an approval. -/
def Coord.active (c : Coord) : Bool :=
  match c.point with
  | .closing | .fatal | .aborting => false
  | _ => true

/-- At most one usable approval a run, and none while its only holder may request one. -/
structure Single (h : History cfg) (w : World) : Prop where
  one : OneUsable w
  alone : SoleHolders h
  claimed : ∀ {p : Pid} {g : Phase} {r : RunId} {loaded : Run}, phaseOf cfg h p = some g →
    g.stage = .claimed r loaded → NoneWith w.db r .pending
  active : ∀ {p : Pid} {g : Phase} {r : RunId} {loaded : Run} {c : Coord},
    phaseOf cfg h p = some g → g.stage = .coordinating r loaded c → c.active = true →
      ∀ a, ¬Usable w r a

section steps

variable {h : History cfg} {w : World} {e : Event cfg} {p : Pid} {r : RunId}

/-- The approval `a` of run `r` was requested by `p`. -/
def Requests (e : Event cfg) (p : Pid) (r : RunId) (a : ApprovalId) : Prop :=
  ∃ cls payload impact stays,
    e.act = .did p (.db (.createApproval r cls payload impact)) (.ok a) stays

/-- **A usable approval** was usable before, or has just been requested. -/
theorem Lawful.usable {a : ApprovalId} (hl : Lawful cfg h w e) (hu : Usable e.after r a) :
    Usable w r a ∨ ∃ p, Requests e p r a := by
  obtain ⟨appr', hrow', hr, hs⟩ := hu
  cases hl.approval hrow' with
  | same row => exact .inl ⟨appr', row, hr, hs⟩
  | @write p g o stays appr running allowed act rows row hw =>
    cases hw with
    | expired => simp at hs
    | decided hp => exact .inl ⟨appr, row, hr, .inl hp⟩
    | consumed => simp at hs
  | @created p g r' cls payload impact stays running allowed act row hr' =>
    subst hr hr'
    exact .inr ⟨p, cls, payload, impact, stays, act⟩

/-- A PENDING approval was PENDING before, or has just been requested. -/
theorem Lawful.pending {appr' : Approval} (hl : Lawful cfg h w e)
    (hmem : appr' ∈ (e.after.db.approvals : List Approval)) (hr : appr'.runId = r) (hs : appr'.status = .pending) :
    (∃ appr ∈ w.db.approvals, appr.runId = r ∧ appr.status = .pending) ∨
      ∃ p a, Requests e p r a := by
  obtain ⟨a, hrow'⟩ := List.mem_iff_getElem?.1 hmem
  cases hl.approval hrow' with
  | same row => exact .inl ⟨appr', List.mem_of_getElem? row, hr, hs⟩
  | write running allowed act rows row hw =>
    cases hw with
    | expired => cases hs
    | decided =>
      simp only [ApprovalService.decided] at hs
      split at hs <;> cases hs
    | consumed => cases hs
  | @created p g r' cls payload impact stays running allowed act row hr' =>
    subst hr hr'
    exact .inr ⟨p, a, cls, payload, impact, stays, act⟩

/-- Who requests an approval holds the run, in a coordinator that may. -/
theorem Requests.active {a : ApprovalId} (hl : Lawful cfg h w e) (hq : Requests e p r a) :
    ∃ g loaded c, phaseOf cfg h p = some g ∧ g.stage = .coordinating r loaded c ∧
      c.active = true := by
  obtain ⟨cls, payload, impact, stays, act⟩ := hq
  obtain ⟨g, hg, loaded, c, act', hs, hp, -⟩ := hl.did act
  refine ⟨g, loaded, c, hg, hs, ?_⟩
  simp only [Coord.active, hp]

theorem Requests.held {a : ApprovalId} (hl : Lawful cfg h w e) (hq : Requests e p r a) :
    Held h p r := by
  obtain ⟨g, loaded, c, hg, hs, -⟩ := hq.active hl
  refine ⟨g, hg, ?_⟩
  rw [hs]
  rfl

theorem Requests.pid {a : ApprovalId} (hq : Requests e p r a) : e.act.pid? = some p := by
  obtain ⟨_, _, _, _, act⟩ := hq
  rw [act]
  rfl

theorem appended_active {c : Coord} {etype : EventType} {fine : Bool}
    (hc : (Flow.appended cfg c etype fine).active = true) : c.active = true := by
  unfold Coord.active
  split
  · next hp => simp [Flow.appended, hp, Coord.active] at hc
  · next hp =>
    simp only [Flow.appended, hp, Coord.at'] at hc
    cases fine <;> cases hc
  · next hp => simp [Flow.appended, hp, Coord.active] at hc
  · rfl

/-- Inside the coordinator nothing leads back to where an approval may be requested. -/
theorem Coord.Step.active {c c' : Coord} {o : Op} {res : Sys.Result o}
    (hstep : Coord.Step cfg r c o res c') (hc : c'.active = true) : c.active = true := by
  cases hstep with
  | appended => exact appended_active hc
  | unappended => exact appended_active hc
  | beating => rfl
  | noClock => cases hc
  | planRow h => simp [Coord.active, h]
  | begun h => simp [Coord.active, h]
  | planned h => simp [Coord.active, h]
  | callRow h => simp [Coord.active, h]
  | noCallRow h => simp [Coord.active, h]
  | unpaused h => simp [Coord.active, h]
  | unstopped h => simp [Coord.active, h]
  | budgeted h => simp [Coord.active, h]
  | called h => simp [Coord.active, h]
  | raised h => simp [Coord.active, h]
  | recorded h => simp [Coord.active, h]
  | _ => cases hc

/-- A coordinator that may request an approval could so before, or has found none to go on with. -/
theorem Lawful.active {g : Phase} {loaded : Run} {c : Coord} (hl : Lawful cfg h w e)
    (hg : phaseOf cfg (e :: h) p = some g) (hs : g.stage = .coordinating r loaded c)
    (hc : c.active = true) :
    ((∃ g₀ loaded₀ c₀, phaseOf cfg h p = some g₀ ∧ g₀.stage = .coordinating r loaded₀ c₀ ∧
        c₀.active = true) ∧ ∀ a, ¬Requests e p r a) ∨
      (e.act = .did p (.db (.continuation r)) (.ok .none) true ∧
        ∃ g₀ loaded₀, phaseOf cfg h p = some g₀ ∧ g₀.stage = .claimed r loaded₀) := by
  cases hl.became hg with
  | kept running other =>
    refine .inl ⟨⟨g, loaded, c, running, hs, hc⟩, ?_⟩
    intro a hq
    exact other hq.pid
  | started q act phase =>
    subst phase
    cases q <;> cases hs
  | @did o res g₀ act running step =>
    cases step with
    | noApproval h₀ =>
      cases hs
      exact .inr ⟨act, g₀, _, running, h₀⟩
    | @coordinated r' loaded' c₀ c' _ _ h₀ hstep =>
      cases hs
      left
      refine ⟨⟨g₀, loaded, c₀, running, h₀, hstep.active hc⟩, ?_⟩
      rintro a ⟨cls, payload, impact, stays, act'⟩
      cases act.symm.trans act'
      cases hstep
      cases hc
    | logged h₀ => simp [hs] at h₀
    | dlq h₀ => simp [hs] at h₀
    | operated h₀ => simp [hs] at h₀
    | _ => cases hs

/-- Who has claimed has just done so, or nothing has happened to it since. -/
theorem Lawful.claimed {g : Phase} {loaded : Run} (hl : Lawful cfg h w e)
    (hg : phaseOf cfg (e :: h) p = some g) (hs : g.stage = .claimed r loaded) :
    (phaseOf cfg h p = some g ∧ e.act.pid? ≠ some p) ∨ ClaimsRun e p r := by
  cases hl.became hg with
  | kept running other => exact .inl ⟨running, other⟩
  | started q act phase =>
    subst phase
    cases q <;> cases hs
  | @did o res g₀ act running step =>
    cases step with
    | claimed h₀ =>
      cases hs
      exact .inr ⟨true, act⟩
    | logged h₀ => simp [hs] at h₀
    | dlq h₀ => simp [hs] at h₀
    | operated h₀ => simp [hs] at h₀
    | _ => cases hs

theorem Single.one_step (hsg : Single h w) (hl : Lawful cfg h w e) : OneUsable e.after := by
  intro r a a' ha ha'
  rcases hl.usable ha with hold | ⟨p, hq⟩ <;> rcases hl.usable ha' with hold' | ⟨p', hq'⟩
  · exact hsg.one r a a' hold hold'
  · obtain ⟨g, loaded, c, hg, hs, hc⟩ := hq'.active hl
    exact absurd hold (hsg.active hg hs hc a)
  · obtain ⟨g, loaded, c, hg, hs, hc⟩ := hq.active hl
    exact absurd hold' (hsg.active hg hs hc a')
  · obtain ⟨cls, payload, impact, stays, act⟩ := hq
    obtain ⟨cls', payload', impact', stays', act'⟩ := hq'
    cases act.symm.trans act'
    rfl

theorem Single.claimed_step {g : Phase} {loaded : Run} (hsg : Single h w) (hl : Lawful cfg h w e)
    (hf : FreshClaims h e) (hg : phaseOf cfg (e :: h) p = some g)
    (hs : g.stage = .claimed r loaded) : NoneWith e.after.db r .pending := by
  intro appr' hmem hr hpending
  rcases hl.claimed hg hs with ⟨hold, hother⟩ | hc
  · rcases hl.pending hmem hr hpending with ⟨appr, hmem₀, hr₀, hs₀⟩ | ⟨p', a, hq⟩
    · exact hsg.claimed hold hs appr hmem₀ hr₀ hs₀
    · have hheld : Held h p r := ⟨g, hold, by rw [hs]; rfl⟩
      obtain rfl := hsg.alone p' p r (hq.held hl) hheld
      exact hother hq.pid
  · obtain ⟨hfree, hnone⟩ := hf r hc.claimedRun
    rcases hl.pending hmem hr hpending with ⟨appr, hmem₀, hr₀, hs₀⟩ | ⟨p', a, hq⟩
    · rw [hl.before] at hnone
      exact hnone appr hmem₀ hr₀ hs₀
    · exact hfree.not_held (hq.held hl)

theorem Single.active_step {g : Phase} {loaded : Run} {c : Coord} (hsg : Single h w)
    (hl : Lawful cfg h w e) (hg : phaseOf cfg (e :: h) p = some g)
    (hs : g.stage = .coordinating r loaded c) (hc : c.active = true) (a : ApprovalId) :
    ¬Usable e.after r a := by
  intro hu
  rcases hl.active hg hs hc with ⟨⟨g₀, loaded₀, c₀, hg₀, hs₀, hc₀⟩, hnoreq⟩ | ⟨act, g₀, loaded₀, hg₀, hs₀⟩
  · rcases hl.usable hu with hold | ⟨p', hq⟩
    · exact hsg.active hg₀ hs₀ hc₀ a hold
    · have hheld : Held h p r := ⟨g₀, hg₀, by rw [hs₀]; rfl⟩
      obtain rfl := hsg.alone p' p r (hq.held hl) hheld
      exact hnoreq a hq
  · -- the continuation has found no approval that is APPROVED, and the claim none that is PENDING
    have hexec := hl.committed_of_ok act
    have hnone : NoneWith w.db r .approved ∧ e.after.db = w.db := by
      cases hcont : w.db.continuation w.now r with
      | error x =>
        simp only [DbOp.exec, hcont, DbOp.orRollback, Prod.mk.injEq, reduceCtorEq, and_false]
          at hexec
      | ok res =>
        obtain ⟨db', found⟩ := res
        simp only [DbOp.exec, hcont, DbOp.orRollback, Prod.mk.injEq, Except.ok.injEq] at hexec
        obtain ⟨hdb, rfl⟩ := hexec
        cases continuation_cases hcont with
        | none happ hcon => exact ⟨happ, hdb.symm⟩
    obtain ⟨appr, hrow, hr, hs'⟩ := hu
    rw [hnone.2] at hrow
    have hmem := List.mem_of_getElem? hrow
    rcases hs' with hs' | hs'
    · exact hsg.claimed hg₀ hs₀ appr hmem hr hs'
    · exact hnone.1 appr hmem hr hs'

theorem Single.step (hsg : Single h w) (hl : Lawful cfg h w e) (hf : FreshClaims h e) :
    Single (e :: h) e.after where
  one := hsg.one_step hl
  alone := hsg.alone.step hl fun r hc => (hf r hc).1
  claimed := hsg.claimed_step hl hf
  active := hsg.active_step hl

end steps

theorem Single.initial {w : World} (hw : World.Initial w) : Single ([] : History cfg) w := by
  refine ⟨?_, .initial, ?_, ?_⟩
  · rintro r a a' ⟨appr, hrow, -⟩
    rw [hw.db] at hrow
    cases hrow
  · intro p g r loaded hg
    cases hg
  · intro p g r loaded c hg
    cases hg

/-- **At most one usable approval a run**, in every state a run reaches by fresh claims. -/
theorem one_usable_approval {c : Config (system cfg)} (hc : Reachable cfg FreshClaims c) :
    OneUsable c.world :=
  (Reachable.induct (P := Single) (fun _ hw => .initial hw)
    (fun _ _ _ _ hsg hl hf => hsg.step hl hf) hc).one

/-- A run that has requested its approval and waits for the decision. -/
theorem one_usable_approval_waiting : ∃ c : Config (system {}),
    c.world.runStatus 0 = some .waitingApproval ∧ OneUsable c.world := by
  obtain ⟨c, hc, hstatus⟩ := reachable_of_run (K := FreshClaims) (fun c => c.world.runStatus 0)
    (x := some .waitingApproval) (World.empty_initial 0 []) (approvalRequested {})
    (by decide +kernel)
  exact ⟨c, hstatus, one_usable_approval hc⟩

/-- **Two usable approvals.**  The worker crashes after its request has committed; once the lease
has run out the entry is delivered again, and the next worker plans and requests once more. -/
theorem two_usable_approvals : ∃ c : Config (system {}),
    Reachable {} anyEvent c ∧ ¬OneUsable c.world := by
  obtain ⟨c, hc, hsee⟩ := reachable_of_run (K := anyEvent)
    (fun c => c.world.db.approvals.map fun a => (a.runId, a.status))
    (x := [(0, .pending), (0, .pending)]) (World.empty_initial 0 [])
    (taskPublished {} ++ serve {} 1 .processOne 17 { plan := gatedPlan } ++ [.crash 1] ++
      [.tick (.advance 31000)] ++ serve {} 2 .processOne 18 { plan := gatedPlan })
    (by decide +kernel)
  refine ⟨c, hc, fun hone => ?_⟩
  have husable : ∀ a, (c.world.db.approvals.map fun a => (a.runId, a.status))[a]? =
      some (0, .pending) → Usable c.world 0 a := by
    intro a hrow
    rw [List.getElem?_map] at hrow
    obtain ⟨appr, happr, heq⟩ := Option.map_eq_some_iff.1 hrow
    exact ⟨appr, happr, congrArg Prod.fst heq, .inl (congrArg Prod.snd heq)⟩
  rw [hsee] at husable
  cases hone 0 0 1 (husable 0 rfl) (husable 1 rfl)

end Observatory
