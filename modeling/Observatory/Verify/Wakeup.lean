import Observatory.Verify.OneApproval
import Mathlib.Data.Set.Card

/-!
# Wake-ups

A run that is WAITING_APPROVAL is released by a decision on one of its PENDING approvals.  The
approval becomes visible in the transaction of the event sink, and the status follows in the final
commit.  A decision that commits between the two finds the run EXECUTING, leaves it alone, and the
final commit then makes it wait for a decision that has been made already.

`Heeded` asks every decision to commit when the run already waits, or to leave a PENDING approval
for each worker between its request and its final commit.  The invariant (`Covered`) counts: such
workers, plus one if the run waits, are never more than the PENDING approvals of the run.
-/

namespace Observatory

open Effect Effect.Machine

section counting

variable {α : Type*} {p : α → Bool} {f : α → α} {l : List α} {i : Nat} {x : α}

/-- Rewriting one row moves it in or out of the count. -/
theorem countP_modify (h : l[i]? = some x) :
    (l.modify i f).countP p + (if p x then 1 else 0) =
      l.countP p + (if p (f x) then 1 else 0) := by
  induction l generalizing i with
  | nil => cases h
  | cons y l ih =>
    cases i with
    | zero =>
      cases h
      simp only [List.modify_zero_cons, List.countP_cons]
      omega
    | succ i =>
      have hcount := ih (by simpa using h)
      simp only [List.modify_succ_cons, List.countP_cons]
      omega

end counting

variable {cfg : Settings}

/-- A worker between its request for an approval of `r` and its final commit. -/
def Stage.awaits : Stage → Option RunId
  | .coordinating r _ c | .returned r _ c => if c.awaiting.isSome then some r else none
  | _ => none

/-- The processes between their request and their final commit for `r`. -/
def awaiting (h : History cfg) (r : RunId) : Set Pid :=
  {p | ∃ g, phaseOf cfg h p = some g ∧ g.stage.awaits = some r}

/-- How many approvals of `r` are PENDING. -/
def pendingOf (w : World) (r : RunId) : Nat :=
  w.db.approvals.countP fun a => a.runId = r && a.status = .pending

/-- Every run that waits for a decision has an approval to decide. -/
def Awakenable (w : World) : Prop :=
  ∀ r, w.runStatus r = some .waitingApproval →
    ∃ appr ∈ w.db.approvals, appr.runId = r ∧ appr.status = .pending

/-- The approval that was approved or rejected. -/
def decidedApproval (e : Event cfg) : Option ApprovalId :=
  match e.act with
  | .did _ (.db (.decide (.uuid a) _ _)) (.ok _) _ => some a
  | _ => none

/-- The approval somebody tries to decide. -/
def triedApproval (e : Event cfg) : Option ApprovalId :=
  match e.act with
  | .did _ (.db (.decide (.uuid a) _ _)) _ _ => some a
  | _ => none

/-- **Decisions that are heeded.**  They come before the approval expires, and when the run waits
already, or leave it a PENDING approval for every worker that is about to make it wait. -/
structure Heeded (h : History cfg) (e : Event cfg) : Prop where
  unexpired : ∀ a ∈ triedApproval e, ∀ appr ∈ (e.before.db.approvals[a]? : Option Approval),
    e.before.now ≤ appr.expiresAt
  window : ∀ a ∈ decidedApproval e, ∀ appr ∈ (e.before.db.approvals[a]? : Option Approval),
    e.before.runStatus appr.runId = some .waitingApproval ∨
      (awaiting h appr.runId).ncard < pendingOf e.before appr.runId

/-- Whoever will make the run wait, and the wait itself, is covered by a PENDING approval. -/
def Covered (h : History cfg) (w : World) : Prop :=
  ∀ r, (awaiting h r).ncard + (if w.runStatus r = some .waitingApproval then 1 else 0) ≤
    pendingOf w r

section steps

variable {h : History cfg} {w : World} {e : Event cfg} {p : Pid} {r : RunId}

theorem awaiting_finite (h : History cfg) (r : RunId) : (awaiting h r).Finite := by
  refine (pids h).finite_toSet.subset ?_
  rintro p ⟨g, hg, -⟩
  exact mem_pids hg

theorem appended_awaiting (c : Coord) (etype : EventType) (fine : Bool) :
    (Flow.appended cfg c etype fine).awaiting = c.awaiting := by
  unfold Flow.appended
  split
  · split <;> rfl
  · rfl
  · unfold Coord.decided
    split <;> rfl
  · rfl
  · split <;> rfl
  · rfl
  · rfl

/-- Inside the coordinator only the request sets the approval that is awaited. -/
theorem Coord.Step.awaiting {c c' : Coord} {o : Op} {res : Sys.Result o}
    (hstep : Coord.Step cfg r c o res c') :
    c'.awaiting = c.awaiting ∨ ∃ cls payload impact a,
      (⟨o, res⟩ : Performed Sys) = ⟨.db (.createApproval r cls payload impact), .ok a⟩ := by
  cases hstep with
  | appended => exact .inl (appended_awaiting ..)
  | unappended => exact .inl (appended_awaiting ..)
  | requested => exact .inr ⟨_, _, _, _, rfl⟩
  | budgeted =>
    left
    unfold Coord.budgeted
    split <;> rfl
  | _ => exact .inl rfl

/-- **Who awaits** a decision has done so before and not committed, or has just requested it. -/
theorem Lawful.awaits (hl : Lawful cfg h w e) (hp : p ∈ awaiting (e :: h) r) :
    (p ∈ awaiting h r ∧ ∀ loaded out res stays,
        e.act ≠ .did p (.db (.finalCommit r loaded out)) res stays) ∨ ∃ a, Requests e p r a := by
  obtain ⟨g, hg, hs⟩ := hp
  cases hl.became hg with
  | kept running other =>
    refine .inl ⟨⟨g, running, hs⟩, fun _ _ _ _ act => ?_⟩
    exact other (by rw [act]; rfl)
  | started q act phase =>
    subst phase
    cases q <;> cases hs
  | @did o res g₀ act running step =>
    cases step with
    | @coordinated r' loaded c c' _ _ h₀ hstep =>
      have hr : r' = r ∧ c'.awaiting.isSome = true := by
        simp only [Phase.at', Stage.awaits] at hs
        split at hs
        · next hsome => exact ⟨Option.some.inj hs, hsome⟩
        · cases hs
      obtain ⟨rfl, hsome⟩ := hr
      rcases hstep.awaiting with heq | ⟨cls, payload, impact, a, hreq⟩
      · refine .inl ⟨⟨g₀, running, ?_⟩, fun _ _ _ _ act' => ?_⟩
        · rw [h₀]
          simp only [Stage.awaits, ← heq, hsome, ite_true]
        · cases act.symm.trans act'
          cases hstep
      · cases hreq
        exact .inr ⟨a, cls, payload, impact, true, act⟩
    | returned h₀ hpoint =>
      refine .inl ⟨⟨g₀, running, by rw [h₀]; exact hs⟩, fun _ _ _ _ act' => ?_⟩
      cases act.symm.trans act'
    | logged h₀ =>
      refine .inl ⟨⟨g, running, hs⟩, fun _ _ _ _ act' => ?_⟩
      cases act.symm.trans act'
    | dlq h₀ =>
      refine .inl ⟨⟨g, running, hs⟩, fun _ _ _ _ act' => ?_⟩
      cases act.symm.trans act'
    | operated h₀ =>
      rw [h₀] at hs
      cases hs
    | noApproval h₀ => cases hs
    | _ => cases hs

/-- Without a request nobody begins to await. -/
theorem awaiting_subset (hl : Lawful cfg h w e) (hno : ∀ p a, ¬Requests e p r a) :
    awaiting (e :: h) r ⊆ awaiting h r := by
  intro p hp
  rcases hl.awaits hp with ⟨hold, -⟩ | ⟨a, hq⟩
  · exact hold
  · exact absurd hq (hno p a)

/-- **A run that waits** waited before, or has just been made to by a final commit. -/
theorem Lawful.waits (hsound : Sound h w) (hl : Lawful cfg h w e)
    (hw : e.after.runStatus r = some .waitingApproval) :
    w.runStatus r = some .waitingApproval ∨ ∃ p loaded out res stays,
      e.act = .did p (.db (.finalCommit r loaded out)) res stays ∧
        out.status = .waitingApproval := by
  obtain ⟨run', hrow', hs'⟩ := World.runStatus_eq.1 hw
  have hbefore : ∀ {run : Run}, w.db.runs[r]? = some run → run.status = .waitingApproval →
      w.runStatus r = some .waitingApproval := fun hrow hs => World.runStatus_eq.2 ⟨_, hrow, hs⟩
  cases hl.run hsound hrow' with
  | same row => exact .inl (hbefore row hs')
  | beaten hb hr act row hrun =>
    subst hrun
    refine .inl (hbefore row ?_)
    rw [← hs']
    unfold Db.beaten
    split <;> rfl
  | fresh running allowed act row hf =>
    rw [hf.status] at hs'
    cases hs'
  | @write p g o stays run running allowed act row hw =>
    cases hw with
    | committed loaded out =>
      simp only [Db.committed, Db.written] at hs'
      split at hs'
      · exact .inl (hbefore row hs')
      · exact .inr ⟨p, loaded, out, _, stays, act, hs'⟩
    | recovered hr hrec =>
      rw [hrec.status] at hs'
      cases hs'
    | approved user happr hr hp hexp hs => exact .inl (hbefore row hs)
    | rejected user happr hr hp hexp hs => exact .inl (hbefore row hs)
    | controlled => exact .inl (hbefore row (by simpa using hs'))
    | resumed hs =>
      simp only [Db.resumed] at hs'
      split at hs'
      · cases hs'
      · exact .inl (hbefore row hs')
    | _ => cases hs'

/-- Rewriting an approval that is not PENDING before or after, or of another run, counts for
nothing. -/
theorem pendingOf_modify {db : Db} {a : ApprovalId} {appr : Approval} {f : Approval → Approval}
    (hrow : db.approvals[a]? = some appr)
    (hsame : (decide ((f appr).runId = r) && decide ((f appr).status = .pending)) =
      (decide (appr.runId = r) && decide (appr.status = .pending))) :
    (db.approvals.modify a f).countP (fun a => a.runId = r && a.status = .pending) =
      db.approvals.countP fun a => a.runId = r && a.status = .pending := by
  have hcount := countP_modify (p := fun a => decide (a.runId = r) && decide (a.status = .pending))
    (f := f) hrow
  rw [hsame] at hcount
  omega

/-- Apart from requests and decisions, an event leaves the PENDING approvals as they are. -/
theorem Heeded.pendingOf (hh : Heeded h e) (hl : Lawful cfg h w e)
    (hno : ∀ p a, ¬Requests e p r a) (hdec : decidedApproval e = none) :
    pendingOf e.after r = Observatory.pendingOf w r := by
  unfold Observatory.pendingOf
  cases hl.committed with
  | quiet rows => rw [rows]
  | beat hb act rows => rw [rows]; rfl
  | @transaction p g o stays running allowed act rows =>
    rw [rows]
    by_cases happ : touchesApprovals o = false
    · rw [exec_approvals happ]
    cases o with
    | continuation r' =>
      rcases orRollback_fst w.db (w.db.continuation w.now r') with heq | ⟨db', f, hok, heq⟩
      · rw [DbOp.exec, heq]
      · rw [DbOp.exec, heq]
        cases continuation_cases hok with
        | consumed hlatest hexp hno' =>
          refine pendingOf_modify hlatest.row ?_
          rw [hlatest.status]
          rfl
        | _ => rfl
    | createApproval r' cls payload impact =>
      have hne : r' ≠ r := by
        rintro rfl
        exact hno p _ ⟨cls, payload, impact, stays, act⟩
      simp [DbOp.exec, DbOp.done, ApprovalService.create, List.countP_append, hne]
    | decide approvalId decision user =>
      have hcases := decideTransaction_cases w.db w.now approvalId decision user
      generalize hres : decideTransaction w.db w.now approvalId decision user = res at hcases
      have hact : e.act = .did p (.db (.decide approvalId decision user)) res.2 stays := by
        rw [act, ← hres]
        rfl
      rw [show (DbOp.decide approvalId decision user).exec w.db w.now p = res from hres]
      cases hcases with
      | refused x => rfl
      | @expired a appr _ happr hp hexp =>
        have htried : triedApproval e = some a := by simp only [triedApproval, hact]
        have hlate := hh.unexpired a htried appr (by rw [hl.before]; exact happr)
        rw [hl.before] at hlate
        exact absurd hexp (Int.not_lt.2 hlate)
      | runless => simp [decidedApproval, hact] at hdec
      | approved => simp [decidedApproval, hact] at hdec
      | rejected => simp [decidedApproval, hact] at hdec
    | _ => exact absurd rfl happ

/-- A request adds a PENDING approval. -/
theorem pendingOf_request {a : ApprovalId} (hl : Lawful cfg h w e) (hq : Requests e p r a) :
    pendingOf e.after r = pendingOf w r + 1 := by
  obtain ⟨cls, payload, impact, stays, act⟩ := hq
  have hexec := hl.committed_of_ok act
  have hdb : (ApprovalService.create w.db w.now r cls payload impact).1 = e.after.db :=
    congrArg Prod.fst hexec
  unfold pendingOf
  rw [← hdb]
  simp [ApprovalService.create, List.countP_append]

theorem decidedApproval_some {a : ApprovalId} (hd : decidedApproval e = some a) :
    ∃ p decision user res stays,
      e.act = .did p (.db (.decide (.uuid a) decision user)) (.ok res) stays := by
  unfold decidedApproval at hd
  split at hd
  · next p a' decision user res stays act =>
    cases hd
    exact ⟨p, decision, user, res, stays, act⟩
  · cases hd

/-- Deciding a PENDING approval takes it out of the count of its run only. -/
theorem pendingOf_decided {a : ApprovalId} {appr : Approval} {decision : String}
    {user : Option Nat} {approvals : List Approval} (happr : approvals[a]? = some appr)
    (hp : appr.status = .pending) (r : RunId) :
    (approvals.modify a (ApprovalService.decided decision user)).countP
        (fun a => a.runId = r && a.status = .pending) + (if appr.runId = r then 1 else 0) =
      approvals.countP fun a => a.runId = r && a.status = .pending := by
  have hcount := countP_modify (p := fun a => decide (a.runId = r) && decide (a.status = .pending))
    (f := ApprovalService.decided decision user) happr
  have hnot : (ApprovalService.decided decision user appr).status ≠ .pending := by
    unfold ApprovalService.decided
    by_cases hdec : decision = "approve"
    · simp [hdec]
    · simp [hdec]
  simpa [hp, hnot] using hcount

/-- **A decision that went through** takes one PENDING approval of its run away, and a run that
waited does not wait any more. -/
theorem Lawful.decided {a : ApprovalId} (hl : Lawful cfg h w e) (hd : decidedApproval e = some a) :
    ∃ appr, w.db.approvals[a]? = some appr ∧
      (∀ r, pendingOf e.after r + (if appr.runId = r then 1 else 0) = pendingOf w r) ∧
      e.after.runStatus appr.runId ≠ some .waitingApproval := by
  obtain ⟨p, decision, user, res, stays, act⟩ := decidedApproval_some hd
  have hexec := hl.committed_of_ok act
  have hcases := decideTransaction_cases w.db w.now (.uuid a) decision user
  rw [show decideTransaction w.db w.now (.uuid a) decision user = (e.after.db, .ok res) from hexec]
    at hcases
  generalize hdb : e.after.db = db' at hcases
  have hstatus : ∀ r, e.after.runStatus r = (db'.runs[r]?).map (·.status) := by
    intro r
    rw [← hdb]
    rfl
  have hpending : ∀ r, pendingOf e.after r =
      db'.approvals.countP fun a => a.runId = r && a.status = .pending := by
    intro r
    rw [← hdb]
    rfl
  cases hcases with
  | @runless _ appr _ happr hp hexp hdec hrun =>
    refine ⟨appr, happr, fun r => ?_, ?_⟩
    · rw [hpending]
      exact pendingOf_decided happr hp r
    · rw [hstatus]
      simp [hrun]
  | @approved _ appr run happr hp hexp hrun =>
    refine ⟨appr, happr, fun r => ?_, ?_⟩
    · rw [hpending]
      exact pendingOf_decided happr hp r
    · rw [hstatus]
      simp only [getElem?_modify_of_some hrun, ite_true, Option.map_some, ApprovalService.requeued]
      split
      · simp
      · next hs => simpa using hs
  | @rejected _ appr run happr hp hexp hrun =>
    refine ⟨appr, happr, fun r => ?_, ?_⟩
    · rw [hpending]
      exact pendingOf_decided happr hp r
    · rw [hstatus]
      simp only [getElem?_modify_of_some hrun, ite_true, Option.map_some, ApprovalService.rejected]
      split
      · simp
      · next hs => simpa using hs

/-- A worker that makes the run wait has awaited a decision, and does so no more. -/
theorem awaiting_committed {loaded : Run} {out : Db.Outcome}
    {res : Except LibError (DbOp.finalCommit r loaded out).Ans} {stays : Bool}
    (hl : Lawful cfg h w e) (act : e.act = .did p (.db (.finalCommit r loaded out)) res stays)
    (hs : out.status = .waitingApproval) (hno : ∀ p a, ¬Requests e p r a) :
    (awaiting (e :: h) r).ncard + 1 ≤ (awaiting h r).ncard := by
  have hmem : p ∈ awaiting h r := by
    obtain ⟨g, hg, c, hstage, hlands⟩ := hl.did act
    refine ⟨g, hg, ?_⟩
    rw [hstage]
    simp only [Stage.awaits, hlands.waiting.1 hs, ite_true]
  have hnot : p ∉ awaiting (e :: h) r := by
    intro hp
    rcases hl.awaits hp with ⟨-, hother⟩ | ⟨a, hq⟩
    · exact hother loaded out res stays act
    · exact hno p a hq
  have hlt : awaiting (e :: h) r ⊂ awaiting h r :=
    (Set.ssubset_iff_of_subset (awaiting_subset hl hno)).2 ⟨p, hmem, hnot⟩
  exact Set.ncard_lt_ncard hlt (awaiting_finite h r)

/-- A request adds a worker that awaits, and the PENDING approval that covers it. -/
theorem Covered.requested {a : ApprovalId} (hcov : Covered h w) (hsound : Sound h w)
    (hl : Lawful cfg h w e) (hq : Requests e p r a) :
    (awaiting (e :: h) r).ncard + (if e.after.runStatus r = some .waitingApproval then 1 else 0) ≤
      pendingOf e.after r := by
  have hsub : awaiting (e :: h) r ⊆ insert p (awaiting h r) := by
    intro p' hp'
    rcases hl.awaits hp' with ⟨hold, -⟩ | ⟨a', hq'⟩
    · exact .inr hold
    · left
      exact Option.some.inj (hq'.pid.symm.trans hq.pid)
  have hcard : (awaiting (e :: h) r).ncard ≤ (awaiting h r).ncard + 1 :=
    (Set.ncard_le_ncard hsub ((awaiting_finite h r).insert p)).trans (Set.ncard_insert_le ..)
  have hwaits : e.after.runStatus r = some .waitingApproval →
      w.runStatus r = some .waitingApproval := by
    intro hw
    rcases hl.waits hsound hw with hold | ⟨p', loaded, out, res, stays, act, -⟩
    · exact hold
    · obtain ⟨_, _, _, _, act'⟩ := hq
      cases act.symm.trans act'
  have hcov := hcov r
  have hp := pendingOf_request hl hq
  split
  · next hw =>
    rw [if_pos (hwaits hw)] at hcov
    omega
  · omega

/-- A decision takes a PENDING approval away only where there is one to spare. -/
theorem Covered.decided {a : ApprovalId} (hcov : Covered h w) (hsound : Sound h w)
    (hl : Lawful cfg h w e) (hh : Heeded h e) (hd : decidedApproval e = some a) (r : RunId) :
    (awaiting (e :: h) r).ncard + (if e.after.runStatus r = some .waitingApproval then 1 else 0) ≤
      pendingOf e.after r := by
  obtain ⟨appr, happr, hcount, hnot⟩ := hl.decided hd
  obtain ⟨_, _, _, _, _, act⟩ := decidedApproval_some hd
  have hno : ∀ p a, ¬Requests e p r a := by
    rintro p a ⟨_, _, _, _, act'⟩
    cases act.symm.trans act'
  have hcard : (awaiting (e :: h) r).ncard ≤ (awaiting h r).ncard :=
    Set.ncard_le_ncard (awaiting_subset hl hno) (awaiting_finite h r)
  have hcov := hcov r
  have hp := hcount r
  by_cases hr : appr.runId = r
  · subst hr
    rw [if_pos rfl] at hp
    rw [if_neg hnot]
    have hwindow := hh.window a hd appr (by rw [hl.before]; exact happr)
    rw [hl.before] at hwindow
    rcases hwindow with hw | hlt
    · rw [if_pos hw] at hcov
      omega
    · omega
  · rw [if_neg hr] at hp
    split
    · next hw =>
      rcases hl.waits hsound hw with hold | ⟨_, _, _, _, _, act', -⟩
      · rw [if_pos hold] at hcov
        omega
      · cases act.symm.trans act'
    · omega

theorem Covered.step (hcov : Covered h w) (hsound : Sound h w) (hl : Lawful cfg h w e)
    (hh : Heeded h e) : Covered (e :: h) e.after := by
  intro r
  by_cases hq : ∃ p a, Requests e p r a
  · obtain ⟨p, a, hq⟩ := hq
    exact hcov.requested hsound hl hq
  have hno : ∀ p a, ¬Requests e p r a := fun p a hr => hq ⟨p, a, hr⟩
  cases hd : decidedApproval e with
  | some a => exact hcov.decided hsound hl hh hd r
  | none =>
    have hcard : (awaiting (e :: h) r).ncard ≤ (awaiting h r).ncard :=
      Set.ncard_le_ncard (awaiting_subset hl hno) (awaiting_finite h r)
    have hcov := hcov r
    rw [hh.pendingOf hl hno hd]
    split
    · next hw =>
      rcases hl.waits hsound hw with hold | ⟨p, loaded, out, res, stays, act, hs⟩
      · rw [if_pos hold] at hcov
        omega
      · have hless := awaiting_committed hl act hs hno
        split at hcov <;> omega
    · omega

end steps

theorem Covered.initial {w : World} (hw : World.Initial w) : Covered ([] : History cfg) w := by
  intro r
  have hempty : awaiting ([] : History cfg) r = ∅ := by
    refine Set.eq_empty_iff_forall_notMem.2 ?_
    rintro p ⟨g, hg, -⟩
    cases hg
  have hstatus : w.runStatus r = none := by
    rw [World.runStatus, hw.db]
    rfl
  rw [hempty, hstatus]
  simp

theorem Covered.awakenable {h : History cfg} {w : World} (hcov : Covered h w) : Awakenable w := by
  intro r hw
  have hcov := hcov r
  rw [if_pos hw] at hcov
  have hpos : 0 < pendingOf w r := by omega
  obtain ⟨appr, hmem, happr⟩ := List.countP_pos_iff.1 hpos
  simp only [Bool.and_eq_true, decide_eq_true_eq] at happr
  exact ⟨appr, hmem, happr⟩

/-- **A run that waits can be released**, in every state a run reaches by decisions that are
heeded. -/
theorem waiting_run_awakenable {c : Config (system cfg)} (hc : Reachable cfg Heeded c) :
    Awakenable c.world :=
  (Reachable.induct (P := Covered) (fun _ hw => .initial hw)
    (fun _ _ _ hsound hcov hl hh => hcov.step hsound hl hh) hc).awakenable

/-- Decisions that come in time, on runs that wait. -/
def Timely (_ : History cfg) (e : Event cfg) : Prop :=
  ∀ a ∈ triedApproval e, ∀ appr ∈ (e.before.db.approvals[a]? : Option Approval),
    e.before.now ≤ appr.expiresAt ∧ e.before.runStatus appr.runId = some .waitingApproval

instance (h : History cfg) (e : Event cfg) : Decidable (Timely h e) :=
  inferInstanceAs (Decidable (∀ a ∈ triedApproval e,
    ∀ appr ∈ (e.before.db.approvals[a]? : Option Approval),
      e.before.now ≤ appr.expiresAt ∧ e.before.runStatus appr.runId = some .waitingApproval))

theorem Timely.heeded {h : History cfg} {e : Event cfg} (ht : Timely h e) : Heeded h e := by
  refine ⟨fun a ha appr happr => (ht a ha appr happr).1, fun a ha appr happr => .inl ?_⟩
  obtain ⟨p, decision, user, res, stays, act⟩ := decidedApproval_some ha
  have htried : a ∈ triedApproval e := by simp [triedApproval, act]
  exact (ht a htried appr happr).2

/-- A run that waits, with the approval that releases it. -/
theorem waiting_run_awakenable_requested : ∃ c : Config (system {}),
    c.world.runStatus 0 = some .waitingApproval ∧ Awakenable c.world := by
  obtain ⟨c, hc, hstatus⟩ := reachable_of_run (K := Timely) (fun c => c.world.runStatus 0)
    (x := some .waitingApproval) (World.empty_initial 0 []) (approvalRequested {})
    (by decide +kernel)
  exact ⟨c, hstatus, waiting_run_awakenable (hc.mono fun _ _ => Timely.heeded)⟩

/-- **A wake-up is lost.**  The approval is given after the worker's request has committed and
before its final commit: the run then waits, and none of its approvals is PENDING. -/
theorem wakeup_lost : ∃ c : Config (system {}),
    Reachable {} anyEvent c ∧ ¬Awakenable c.world := by
  obtain ⟨c, hc, hsee⟩ := reachable_of_run (K := anyEvent)
    (fun c => (c.world.runStatus 0, c.world.db.approvals.map (·.status)))
    (x := (some .waitingApproval, [.approved])) (World.empty_initial 0 [])
    (taskPublished {} ++ serve {} 1 .processOne 18 { plan := gatedPlan } ++
      serve {} 0 (.decideApproval (.uuid 0) (.uuid 0) "approve" none) 2 ++
      List.replicate 3 (.perform 1 {})) (by decide +kernel)
  refine ⟨c, hc, fun hwake => ?_⟩
  obtain ⟨appr, hmem, -, hs⟩ := hwake 0 (congrArg Prod.fst hsee)
  have hstatus : appr.status ∈ c.world.db.approvals.map (·.status) := List.mem_map_of_mem hmem
  rw [show c.world.db.approvals.map (·.status) = [.approved] from congrArg Prod.snd hsee, hs]
    at hstatus
  simp at hstatus

end Observatory
