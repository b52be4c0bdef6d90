import Observatory.Verify.Runs

/-!
# Approved calls

A continuation calls a tool on the strength of an approval.  Every such call is traced back along
the run: the approval was consumed in the transaction that recorded its PENDING execution, before
that it was approved by a decision, and before that it was created with the tool and the arguments
the call now passes.  No approval pays for two calls.

The invariant (`Trail`) ties each status of an approval to what must have happened, and each process
that is about to call to a CONSUMED approval nobody else is about to call for.
-/

namespace Observatory

open Effect Effect.Machine

variable {cfg : Settings}

namespace Approval

/-- Approval `a` was created for `payload` on behalf of run `r`. -/
def Created (a : ApprovalId) (r : RunId) (payload : ActionPayload) (_ : History cfg)
    (e : Event cfg) : Prop :=
  ∃ p cls impact stays, e.act = .did p (.db (.createApproval r cls payload impact)) (.ok a) stays

/-- A decision set `a` from PENDING to APPROVED. -/
structure Approved (a : ApprovalId) (r : RunId) (payload : ActionPayload) (h : History cfg)
    (e : Event cfg) : Prop where
  act : ∃ p user res stays, e.act = .did p (.db (.decide (.uuid a) "approve" user)) res stays
  before : ∃ appr, e.before.db.approvals[a]? = some appr ∧ appr.status = .pending
  after : ∃ appr, e.after.db.approvals[a]? = some appr ∧ appr.status = .approved
  created : Once (Created a r payload) h

/-- A continuation of `r` set `a` from APPROVED to CONSUMED before it expired, and recorded its
PENDING execution in the same transaction. -/
structure Consumed (a : ApprovalId) (r : RunId) (payload : ActionPayload) (h : History cfg)
    (e : Event cfg) : Prop where
  act : ∃ p stays, e.act = .did p (.db (.continuation r)) (.ok (.consumed a payload)) stays
  before : ∃ appr, e.before.db.approvals[a]? = some appr ∧ appr.status = .approved ∧
    e.before.now ≤ appr.expiresAt
  after : ∃ appr, e.after.db.approvals[a]? = some appr ∧ appr.status = .consumed
  recorded : ∃ ex, e.after.db.executionOf a = some ex ∧ ex.runId = r ∧ ex.status = .pending
  approved : Once (Approved a r payload) h

end Approval

open Approval

/-- The event is a call of a tool by the continuation of approval `a`. -/
def callsFor (a : ApprovalId) (e : Event cfg) : Bool :=
  match e.act with
  | .did _ (.ext (.callTool _ (.continuation a') _ _)) _ _ => a' = a
  | _ => false

/-- A call by a continuation passes the tool and the arguments its approval was created with, and
the approval has been consumed for this run. -/
def Authorised (h : History cfg) (e : Event cfg) : Prop :=
  ∀ p r a tool args res stays,
    e.act = .did p (.ext (.callTool r (.continuation a) tool args)) res stays →
      ∃ actionId, Once (Consumed a r ⟨actionId, tool, args⟩) h

/-- The process is about to call for approval `a`. -/
def Holds (h : History cfg) (p : Pid) (a : ApprovalId) : Prop :=
  ∃ g r payload, phaseOf cfg h p = some g ∧ g.stage = .consumed r a payload

/-- What the history says about every approval, and about those who are about to call. -/
structure Trail (h : History cfg) (w : World) : Prop where
  created : ∀ {a : ApprovalId} {appr : Approval}, w.db.approvals[a]? = some appr →
    Once (Created a appr.runId appr.payload) h
  approved : ∀ {a : ApprovalId} {appr : Approval}, w.db.approvals[a]? = some appr →
    appr.status = .approved → Once (Approval.Approved a appr.runId appr.payload) h
  consumed : ∀ {a : ApprovalId} {appr : Approval}, w.db.approvals[a]? = some appr →
    appr.status = .consumed → Once (Consumed a appr.runId appr.payload) h
  holder : ∀ {p : Pid} {g : Phase} {r : RunId} {a : ApprovalId} {payload : ActionPayload},
    phaseOf cfg h p = some g → g.stage = .consumed r a payload →
      ∃ appr, w.db.approvals[a]? = some appr ∧ appr.status = .consumed ∧ appr.runId = r ∧
        appr.payload = payload
  uncalled : ∀ {p : Pid} {a : ApprovalId}, Holds h p a → h.countP (callsFor a) = 0
  alone : ∀ {p p' : Pid} {a : ApprovalId}, Holds h p a → Holds h p' a → p = p'
  paid : ∀ {a : ApprovalId}, h.countP (callsFor a) ≠ 0 →
    ∃ appr, w.db.approvals[a]? = some appr ∧ appr.status = .consumed
  once : ∀ a : ApprovalId, h.countP (callsFor a) ≤ 1

theorem callsFor_iff {a : ApprovalId} {e : Event cfg} : callsFor a e = true ↔
    ∃ p r tool args res stays,
      e.act = .did p (.ext (.callTool r (.continuation a) tool args)) res stays := by
  unfold callsFor
  split
  · next h =>
    rw [h]
    simp only [decide_eq_true_eq, Act.did.injEq, Op.ext.injEq, ExtOp.callTool.injEq]
    constructor
    · rintro rfl
      exact ⟨_, _, _, _, _, _, rfl, ⟨rfl, rfl, rfl, rfl⟩, HEq.rfl, rfl⟩
    · rintro ⟨_, _, _, _, _, _, -, ⟨-, hc, -⟩, -⟩
      exact Caller.continuation.inj hc
  · next h =>
    simp only [Bool.false_eq_true, false_iff]
    rintro ⟨p, r, tool, args, res, stays, hact⟩
    exact h _ _ _ _ _ _ _ hact

/-! ## What a consumption is -/

/-- An approval that a continuation turned CONSUMED was usable, and its execution is recorded. -/
theorem consumption {db : Db} {now : Time} {w : WorkerId} {r : RunId} {a : ApprovalId}
    {appr appr' : Approval} (hrow : db.approvals[a]? = some appr) (hs : appr.status = .approved)
    (hrow' : ((DbOp.continuation r).exec db now w).1.approvals[a]? = some appr')
    (hs' : appr'.status = .consumed) :
    ((DbOp.continuation r).exec db now w).2 = .ok (.consumed a appr.payload) ∧
      appr.runId = r ∧ ¬appr.expiresAt < now ∧
      ∃ ex, ((DbOp.continuation r).exec db now w).1.executionOf a = some ex ∧ ex.runId = r ∧
        ex.status = .pending := by
  have hunchanged : db.approvals[a]? ≠ some appr' := fun h => by
    rw [hrow] at h
    cases h
    rw [hs] at hs'
    cases hs'
  cases hcont : db.continuation now r with
  | error x =>
    simp only [DbOp.exec, hcont, DbOp.orRollback] at hrow'
    exact absurd hrow' hunchanged
  | ok res =>
    obtain ⟨db', found⟩ := res
    simp only [DbOp.exec, hcont, DbOp.orRollback] at hrow' ⊢
    cases continuation_cases hcont with
    | @consumed a₀ appr₀ hl hexp hno =>
      rcases modify_cases hrow' with ⟨-, hsame⟩ | ⟨rfl, appr₁, hrow₁, rfl⟩
      · exact absurd hsame hunchanged
      · cases hrow.symm.trans hl.row
        refine ⟨rfl, hl.run, hexp, recordedExecution a₀ r appr, ?_, rfl, rfl⟩
        have hnone : db.executions.find? (·.approvalId = a₀) = none := by
          simpa using hno
        simp [Db.executionOf, List.find?_append, hnone, recordedExecution]
    | none => exact absurd hrow' hunchanged
    | refused => exact absurd hrow' hunchanged
    | pendingExecution => exact absurd hrow' hunchanged
    | succeeded => exact absurd hrow' hunchanged
    | failed => exact absurd hrow' hunchanged
    | unrecorded => exact absurd hrow' hunchanged

section steps

variable {h : History cfg} {w : World} {e : Event cfg} {p p' : Pid} {a : ApprovalId} {r : RunId}
  {payload : ActionPayload}

/-- What a continuation that was answered `consumed` found and left. -/
theorem consumes {stays : Bool} (hl : Lawful cfg h w e)
    (act : e.act = .did p (.db (.continuation r)) (.ok (.consumed a payload)) stays) :
    ∃ appr, w.db.approvals[a]? = some appr ∧ appr.status = .approved ∧ appr.runId = r ∧
      appr.payload = payload ∧
      e.after.db.approvals[a]? = some { appr with status := .consumed } := by
  have hexec := hl.committed_of_ok act
  cases hcont : w.db.continuation w.now r with
  | error x =>
    simp only [DbOp.exec, hcont, DbOp.orRollback, Prod.mk.injEq, reduceCtorEq, and_false] at hexec
  | ok res =>
    obtain ⟨db', found⟩ := res
    simp only [DbOp.exec, hcont, DbOp.orRollback, Prod.mk.injEq, Except.ok.injEq] at hexec
    obtain ⟨hdb, rfl⟩ := hexec
    cases continuation_cases hcont with
    | @consumed _ appr hl' hexp hno =>
      refine ⟨appr, hl'.row, hl'.status, hl'.run, rfl, ?_⟩
      rw [← hdb]
      simp [hl'.row]

/-- Who is about to call has been so before, or has just consumed the approval. -/
theorem about_to_call {g : Phase} (hl : Lawful cfg h w e)
    (hg : phaseOf cfg (e :: h) p = some g) (hs : g.stage = .consumed r a payload) :
    (phaseOf cfg h p = some g ∧ e.act.pid? ≠ some p) ∨
      e.act = .did p (.db (.continuation r)) (.ok (.consumed a payload)) true := by
  cases hl.became hg with
  | kept running other => exact .inl ⟨running, other⟩
  | started q act phase =>
    subst phase
    cases q <;> cases hs
  | @did o res g₀ act running step =>
    cases step with
    | consumed h₀ =>
      cases hs
      exact .inr act
    | logged h₀ =>
      rw [hs] at h₀
      obtain h₀ | ⟨_, _, h₀⟩ | h₀ := h₀ <;> cases h₀
    | dlq h₀ =>
      rw [hs] at h₀
      cases h₀
    | operated h₀ =>
      rw [hs] at h₀
      cases h₀
    | _ => cases hs

/-- Whoever calls was about to, and is not any more. -/
theorem caller (hl : Lawful cfg h w e) (hc : callsFor a e = true) :
    ∃ p r payload, (∃ g, phaseOf cfg h p = some g ∧ g.stage = .consumed r a payload) ∧
      ¬Holds (e :: h) p a ∧ ∃ res stays,
        e.act = .did p (.ext (.callTool r (.continuation a) payload.tool payload.arguments)) res
          stays := by
  obtain ⟨p, r, tool, args, res, stays, act⟩ := callsFor_iff.1 hc
  obtain ⟨g, hg, allowed⟩ := hl.did act
  obtain ⟨payload, hstage, rfl, rfl⟩ := allowed
  refine ⟨p, r, payload, ⟨g, hg, hstage⟩, ?_, res, stays, act⟩
  rintro ⟨g', r', payload', hg', hstage'⟩
  rcases about_to_call hl hg' hstage' with ⟨-, hother⟩ | hact
  · exact hother (by rw [act]; rfl)
  · rw [act] at hact
    cases hact

variable (ht : Trail h w) (hl : Lawful cfg h w e)
include ht hl

theorem Trail.created_step {appr' : Approval} (hrow : e.after.db.approvals[a]? = some appr') :
    Once (Created a appr'.runId appr'.payload) (e :: h) := by
  cases hl.approval hrow with
  | same row => exact (ht.created row).cons e
  | write running allowed act rows row hw => cases hw <;> exact (ht.created row).cons e
  | @created p g r cls payload impact stays running allowed act row hr hp =>
    subst hr hp
    exact .inl ⟨p, cls, impact, stays, act⟩

theorem Trail.approved_step {appr' : Approval} (hrow : e.after.db.approvals[a]? = some appr')
    (hs : appr'.status = .approved) :
    Once (Approval.Approved a appr'.runId appr'.payload) (e :: h) := by
  cases hl.approval hrow with
  | same row => exact (ht.approved row hs).cons e
  | @write p g o stays appr running allowed act rows row hw =>
    cases hw with
    | expired => cases hs
    | consumed => cases hs
    | @decided decision user hp hexp hdec =>
      obtain rfl : decision = "approve" := by
        by_contra hne
        simp [ApprovalService.decided, hne] at hs
      have hcreated : Once (Created a appr.runId appr.payload) h := ht.created row
      refine .inl ⟨⟨p, user, _, stays, act⟩, ⟨appr, ?_, hp⟩, ⟨_, hrow, hs⟩, hcreated⟩
      rw [hl.before, row]
  | created running allowed act row hr hp hs' =>
    rw [hs'] at hs
    cases hs

theorem Trail.consumed_step {appr' : Approval} (hrow : e.after.db.approvals[a]? = some appr')
    (hs : appr'.status = .consumed) : Once (Consumed a appr'.runId appr'.payload) (e :: h) := by
  cases hl.approval hrow with
  | same row => exact (ht.consumed row hs).cons e
  | @write p g o stays appr running allowed act rows row hw =>
    cases hw with
    | expired => cases hs
    | decided =>
      rename_i decision _ _ _ _
      simp only [ApprovalService.decided] at hs
      split at hs <;> cases hs
    | @consumed r hr hs' hexp =>
      rw [rows] at hrow
      obtain ⟨hres, -, -, ex, hex, hexr, hexs⟩ := consumption row hs' hrow hs
      subst hr
      have happroved : Once (Approval.Approved a appr.runId appr.payload) h := ht.approved row hs'
      refine .inl ⟨⟨p, stays, ?_⟩, ⟨appr, ?_, hs', ?_⟩, ⟨_, rows ▸ hrow, hs⟩, ⟨ex, ?_, hexr, hexs⟩,
        happroved⟩
      · rw [act, hres]
      · rw [hl.before, row]
      · rw [hl.before]
        exact Int.not_lt.1 hexp
      · rw [rows, hex]
  | created running allowed act row hr hp hs' =>
    rw [hs'] at hs
    cases hs

theorem Trail.holder_step {g : Phase} (hg : phaseOf cfg (e :: h) p = some g)
    (hs : g.stage = .consumed r a payload) :
    ∃ appr, e.after.db.approvals[a]? = some appr ∧ appr.status = .consumed ∧ appr.runId = r ∧
      appr.payload = payload := by
  rcases about_to_call hl hg hs with ⟨hold, -⟩ | hact
  · obtain ⟨appr, hrow, hc, hr, hp⟩ := ht.holder hold hs
    obtain ⟨appr', hrow', -, -, hsame⟩ := hl.approval_kept hrow
    cases hsame hc
    exact ⟨appr, hrow', hc, hr, hp⟩
  · obtain ⟨appr, -, -, hr, hp, hrow'⟩ := consumes hl hact
    exact ⟨_, hrow', rfl, hr, hp⟩

/-- A consumption is of an approval nobody has called for or is about to. -/
theorem Trail.fresh {stays : Bool}
    (act : e.act = .did p (.db (.continuation r)) (.ok (.consumed a payload)) stays) :
    h.countP (callsFor a) = 0 ∧ ∀ p', ¬Holds h p' a := by
  obtain ⟨appr, hrow, happ, -⟩ := consumes hl act
  constructor
  · by_contra hne
    obtain ⟨appr', hrow', hc⟩ := ht.paid hne
    cases hrow.symm.trans hrow'
    rw [happ] at hc
    cases hc
  · rintro p' ⟨g, r', payload', hg, hs⟩
    obtain ⟨appr', hrow', hc, -⟩ := ht.holder hg hs
    cases hrow.symm.trans hrow'
    rw [happ] at hc
    cases hc

theorem Trail.uncalled_step (hp : Holds (e :: h) p a) : (e :: h).countP (callsFor a) = 0 := by
  have hp' := hp
  obtain ⟨g, r, payload, hg, hs⟩ := hp
  rw [List.countP_cons]
  rcases about_to_call hl hg hs with ⟨hold, hother⟩ | hact
  · have hzero := ht.uncalled ⟨g, r, payload, hold, hs⟩
    by_cases hc : callsFor a e = true
    · obtain ⟨p', r', payload', ⟨g', hg', hs'⟩, hnot, -⟩ := caller hl hc
      obtain rfl := ht.alone ⟨g, r, payload, hold, hs⟩ ⟨g', r', payload', hg', hs'⟩
      exact absurd hp' hnot
    · simp [hzero, hc]
  · have hc : callsFor a e = false := by simp [callsFor, hact]
    simp [(ht.fresh hl hact).1, hc]

theorem Trail.alone_step (hp : Holds (e :: h) p a) (hp' : Holds (e :: h) p' a) : p = p' := by
  obtain ⟨g, r, payload, hg, hs⟩ := hp
  obtain ⟨g', r', payload', hg', hs'⟩ := hp'
  rcases about_to_call hl hg hs with ⟨hold, -⟩ | hact <;>
    rcases about_to_call hl hg' hs' with ⟨hold', -⟩ | hact'
  · exact ht.alone ⟨g, r, payload, hold, hs⟩ ⟨g', r', payload', hold', hs'⟩
  · exact absurd ⟨g, r, payload, hold, hs⟩ ((ht.fresh hl hact').2 p)
  · exact absurd ⟨g', r', payload', hold', hs'⟩ ((ht.fresh hl hact).2 p')
  · exact (Act.did.inj (hact.symm.trans hact')).1

theorem Trail.paid_step (hne : (e :: h).countP (callsFor a) ≠ 0) :
    ∃ appr, e.after.db.approvals[a]? = some appr ∧ appr.status = .consumed := by
  have hold : ∃ appr, w.db.approvals[a]? = some appr ∧ appr.status = .consumed := by
    by_cases hc : callsFor a e = true
    · obtain ⟨p, r, payload, ⟨g, hg, hs⟩, -⟩ := caller hl hc
      obtain ⟨appr, hrow, hcons, -⟩ := ht.holder hg hs
      exact ⟨appr, hrow, hcons⟩
    · exact ht.paid (by simpa [List.countP_cons, hc] using hne)
  obtain ⟨appr, hrow, hc⟩ := hold
  obtain ⟨appr', hrow', -, -, hsame⟩ := hl.approval_kept hrow
  cases hsame hc
  exact ⟨appr, hrow', hc⟩

theorem Trail.once_step : (e :: h).countP (callsFor a) ≤ 1 := by
  rw [List.countP_cons]
  by_cases hc : callsFor a e = true
  · obtain ⟨p, r, payload, ⟨g, hg, hs⟩, -⟩ := caller hl hc
    simp [ht.uncalled ⟨g, r, payload, hg, hs⟩, hc]
  · simpa [hc] using ht.once a

theorem Trail.step : Trail (e :: h) e.after where
  created := ht.created_step hl
  approved := ht.approved_step hl
  consumed := ht.consumed_step hl
  holder := ht.holder_step hl
  uncalled := ht.uncalled_step hl
  alone := ht.alone_step hl
  paid := ht.paid_step hl
  once _ := ht.once_step hl

theorem Trail.authorised : Authorised h e := by
  intro p r a tool args res stays act
  obtain ⟨p', r', payload, ⟨g, hg, hs⟩, -, res', stays', act'⟩ :=
    caller hl (callsFor_iff.2 ⟨p, r, tool, args, res, stays, act⟩)
  cases act.symm.trans act'
  obtain ⟨appr, hrow, hc, rfl, rfl⟩ := ht.holder hg hs
  exact ⟨appr.payload.actionId, ht.consumed hrow hc⟩

end steps

theorem Trail.initial {w : World} (hw : World.Initial w) : Trail ([] : History cfg) w := by
  have hnone : ∀ a : ApprovalId, w.db.approvals[a]? = none := fun a => by rw [hw.db]; rfl
  constructor
  all_goals try (intro a appr hrow; rw [hnone] at hrow; cases hrow)
  · rintro p g r a payload hg
    cases hg
  · rintro p a ⟨g, r, payload, hg, -⟩
    cases hg
  · rintro p p' a ⟨g, r, payload, hg, -⟩
    cases hg
  · exact fun hne => absurd rfl hne
  · exact fun a => Nat.zero_le 1

/-! ## The result -/

/-- **Approved writes are authorised and never repeated.**  In every run of the system each
approval has at most one call by a continuation, and each such call goes back to a consumption of
an approval that was approved, and before that created with the tool and the arguments called. -/
theorem approved_calls {c : Config (system cfg)} (hc : Reachable cfg anyEvent c) :
    (∀ a : ApprovalId, c.hist.countP (callsFor a) ≤ 1) ∧ Historically Authorised c.hist := by
  have hsafe : Trail c.hist c.world ∧ Historically Authorised c.hist :=
    Reachable.induct (P := fun h w => Trail h w ∧ Historically Authorised h)
      (fun w hw => ⟨.initial hw, trivial⟩)
      (fun h w e _ hP hl _ => ⟨hP.1.step hl, hP.1.authorised hl, hP.2⟩) hc
  exact ⟨hsafe.1.once, hsafe.2⟩

/-- A run in which an approval is requested, given and used. -/
theorem approved_calls_used : ∃ c : Config (system {}), c.hist.countP (callsFor 0) = 1 ∧
    (∀ a : ApprovalId, c.hist.countP (callsFor a) ≤ 1) ∧ Historically Authorised c.hist := by
  obtain ⟨c, hc, hcalled⟩ := reachable_of_run (K := anyEvent)
    (fun c => c.hist.countP (callsFor 0)) (x := 1) (World.empty_initial 0 [])
    (approvalGranted {} ++ serve {} 1 .processOne 8) (by decide +kernel)
  exact ⟨c, hcalled, approved_calls hc⟩

end Observatory
