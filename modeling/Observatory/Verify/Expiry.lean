import Observatory.Verify.OneApproval

/-!
# Expired approvals

The expiry of an approval is noticed in two places.  A decision on a PENDING approval marks it
EXPIRED and leaves its run as it is; a continuation that finds its APPROVED approval expired leaves
both as they are.  In neither case is there anybody left to release the run, unless another approval
of it is PENDING.
-/

namespace Observatory

open Effect Effect.Machine

/-- The transaction `o` notices that approval `a` of run `r` has expired. -/
def ObservesExpiry (db : Db) (now : Time) (r : RunId) (a : ApprovalId) : DbOp → Prop
  | .decide approvalId _ _ => approvalId = .uuid a ∧ ∃ appr ∈ (db.approvals[a]? : Option Approval),
      appr.runId = r ∧ appr.status = .pending ∧ appr.expiresAt < now
  | .continuation r' => r' = r ∧ ∃ x ∈ newest (·.createdAt)
      (fun appr => appr.runId = r && appr.status = .approved) db.approvals,
        x.1 = a ∧ x.2.expiresAt < now
  | _ => False

/-- Another approval of the run can still be decided. -/
def OtherPending (db : Db) (r : RunId) (a : ApprovalId) : Prop :=
  ∃ x ∈ db.approvals.zipIdx, x.2 ≠ a ∧ x.1.runId = r ∧ x.1.status = .pending

/-- The run is over. -/
def TerminalRun (db : Db) (r : RunId) : Prop :=
  ∃ run ∈ (db.runs[r]? : Option Run), run.status.isTerminal = true

def HasStatus (db : Db) (a : ApprovalId) (st : ApprovalStatus) : Prop :=
  ∃ appr ∈ (db.approvals[a]? : Option Approval), appr.status = st

/-- The expired approval strands nobody. -/
def Released (db : Db) (r : RunId) (a : ApprovalId) : Prop :=
  (HasStatus db a .expired ∧ TerminalRun db r) ∨ OtherPending db r a

instance (db : Db) (r : RunId) (a : ApprovalId) : Decidable (OtherPending db r a) :=
  inferInstanceAs (Decidable (∃ x ∈ db.approvals.zipIdx,
    x.2 ≠ a ∧ x.1.runId = r ∧ x.1.status = .pending))

instance (db : Db) (r : RunId) : Decidable (TerminalRun db r) :=
  inferInstanceAs (Decidable (∃ run ∈ (db.runs[r]? : Option Run), run.status.isTerminal = true))

instance (db : Db) (a : ApprovalId) (st : ApprovalStatus) : Decidable (HasStatus db a st) :=
  inferInstanceAs (Decidable (∃ appr ∈ (db.approvals[a]? : Option Approval), appr.status = st))

instance (db : Db) (r : RunId) (a : ApprovalId) : Decidable (Released db r a) :=
  inferInstanceAs (Decidable (_ ∨ _))

instance (db : Db) (now : Time) (r : RunId) (a : ApprovalId) (o : DbOp) :
    Decidable (ObservesExpiry db now r a o) := by
  cases o <;> unfold ObservesExpiry <;> infer_instance

section operations

variable {db : Db} {now : Time} {v : WorkerId} {r : RunId} {a : ApprovalId} {o : DbOp}

theorem HasStatus.unique {st st' : ApprovalStatus} (hs : HasStatus db a st)
    (hs' : HasStatus db a st') : st = st' := by
  obtain ⟨appr, hrow, rfl⟩ := hs
  obtain ⟨appr', hrow', rfl⟩ := hs'
  rw [Option.mem_def] at hrow hrow'
  cases hrow.symm.trans hrow'
  rfl

/-- A decision that comes too late marks the approval, and that is all. -/
theorem decide_expired {appr : Approval} {decision : String} {user : Option Nat}
    (happr : db.approvals[a]? = some appr) (hp : appr.status = .pending)
    (hexp : appr.expiresAt < now) :
    ((DbOp.decide (.uuid a) decision user).exec db now v).1 =
      db.updateApproval a ({ · with status := .expired }) := by
  simp only [DbOp.exec, decideTransaction_late happr hp hexp]

/-- A continuation whose approval has expired changes nothing. -/
theorem continuation_expired {appr : Approval}
    (hnewest : newest (·.createdAt) (fun appr => appr.runId = r && appr.status = .approved)
      db.approvals = some (a, appr)) (hexp : appr.expiresAt < now) :
    ((DbOp.continuation r).exec db now v).1 = db := by
  have hlatest := latest_of_newest hnewest
  have hcont : db.continuation now r = .ok (db, .refused a) := by
    unfold Db.continuation
    simp only [hnewest, ApprovalService.consumeAndRecord, hlatest.row, hlatest.status, hexp, ite_true,
      reduceCtorEq, ite_false, bind, Except.bind, pure, Except.pure]
  simp only [DbOp.exec, hcont, DbOp.orRollback]

/-- Marking approval `a` leaves the others as they are. -/
theorem otherPending_marked {f : Approval → Approval} :
    OtherPending (db.updateApproval a f) r a ↔ OtherPending db r a := by
  have hrows : ∀ i x, i ≠ a →
      ((db.updateApproval a f).approvals[i]? = some x ↔ db.approvals[i]? = some x) := by
    intro i x hi
    rw [show (db.updateApproval a f).approvals = db.approvals.modify a f from rfl,
      List.getElem?_modify]
    simp [Ne.symm hi]
  unfold OtherPending
  constructor
  · rintro ⟨⟨x, i⟩, hmem, hi, hx⟩
    rw [List.mem_zipIdx_iff_getElem?] at hmem
    exact ⟨(x, i), List.mem_zipIdx_iff_getElem?.2 ((hrows i x hi).1 hmem), hi, hx⟩
  · rintro ⟨⟨x, i⟩, hmem, hi, hx⟩
    rw [List.mem_zipIdx_iff_getElem?] at hmem
    exact ⟨(x, i), List.mem_zipIdx_iff_getElem?.2 ((hrows i x hi).2 hmem), hi, hx⟩

end operations

/-- **An expiry strands no run** if and only if another approval of the run is PENDING, or the run
is over already and the approval had not been decided on. -/
theorem expiry_released_iff {db : Db} {now : Time} {v : WorkerId} {r : RunId} {a : ApprovalId}
    {o : DbOp} (hobs : ObservesExpiry db now r a o) :
    Released (o.exec db now v).1 r a ↔
      OtherPending db r a ∨ (HasStatus db a .pending ∧ TerminalRun db r) := by
  cases o with
  | decide approvalId decision user =>
    obtain ⟨rfl, appr, happr, hr, hp, hexp⟩ := hobs
    have hpending : HasStatus db a .pending := ⟨appr, happr, hp⟩
    rw [Option.mem_def] at happr
    rw [decide_expired happr hp hexp]
    have hmarked : HasStatus (db.updateApproval a ({ · with status := .expired })) a .expired := by
      refine ⟨{ appr with status := .expired }, ?_, rfl⟩
      rw [Option.mem_def]
      simp [Db.updateApproval, happr]
    have hrun : TerminalRun (db.updateApproval a ({ · with status := .expired })) r ↔
        TerminalRun db r := Iff.rfl
    unfold Released
    rw [otherPending_marked, hrun]
    constructor
    · rintro (⟨-, hterm⟩ | hother)
      · exact .inr ⟨hpending, hterm⟩
      · exact .inl hother
    · rintro (hother | ⟨-, hterm⟩)
      · exact .inr hother
      · exact .inl ⟨hmarked, hterm⟩
  | continuation r' =>
    obtain ⟨rfl, ⟨a', appr⟩, hnewest, rfl, hexp⟩ := hobs
    rw [Option.mem_def] at hnewest
    have hlatest := latest_of_newest hnewest
    have happroved : HasStatus db a' .approved := ⟨appr, hlatest.row, hlatest.status⟩
    rw [continuation_expired hnewest hexp]
    constructor
    · rintro (⟨hmarked, -⟩ | hother)
      · cases hmarked.unique happroved
      · exact .inl hother
    · rintro (hother | ⟨hpending, -⟩)
      · exact .inr hother
      · cases hpending.unique happroved
  | _ => exact hobs.elim

/-- Of two expired approvals, the one that is still PENDING keeps the other from stranding the
run. -/
theorem expiry_released_two : ∃ c : Config (system {}), Reachable {} anyEvent c ∧
    Released ((DbOp.decide (.uuid 0) "approve" none).exec c.world.db c.world.now 0).1 0 0 := by
  obtain ⟨c, hc, hsee⟩ := reachable_of_run (K := anyEvent)
    (fun c => (decide (ObservesExpiry c.world.db c.world.now 0 0 (.decide (.uuid 0) "approve" none)),
      decide (OtherPending c.world.db 0 0)))
    (x := (true, true)) (World.empty_initial 0 [])
    (taskPublished {} ++ serve {} 1 .processOne 17 { plan := gatedPlan } ++ [.crash 1] ++
      [.tick (.advance 31000)] ++ serve {} 2 .processOne 18 { plan := gatedPlan } ++
      [.tick (.advance 3600001)]) (by decide +kernel)
  refine ⟨c, hc, (expiry_released_iff (of_decide_eq_true (congrArg Prod.fst hsee))).2 (.inl ?_)⟩
  exact of_decide_eq_true (congrArg Prod.snd hsee)

/-- **Expiries strand runs.**  A run waits for an approval that expires, and deciding on it then
leaves the run waiting; a run is claimed after its approval was given and has expired, and the
continuation leaves the approval APPROVED and the run EXECUTING. -/
theorem expiry_strands :
    (∃ c : Config (system {}), Reachable {} anyEvent c ∧
      ObservesExpiry c.world.db c.world.now 0 0 (.decide (.uuid 0) "approve" none) ∧
      ¬Released ((DbOp.decide (.uuid 0) "approve" none).exec c.world.db c.world.now 0).1 0 0) ∧
    ∃ c : Config (system {}), Reachable {} anyEvent c ∧
      ObservesExpiry c.world.db c.world.now 0 0 (.continuation 0) ∧
      ¬Released ((DbOp.continuation 0).exec c.world.db c.world.now 0).1 0 0 := by
  have hstrands : ∀ (o : DbOp) (ms : List (Move (system {}))),
      (((Config.initial (World.empty 0 [])).run anyEvent ms).map fun c =>
        (decide (ObservesExpiry c.world.db c.world.now 0 0 o),
          decide (Released (o.exec c.world.db c.world.now 0).1 0 0))) = some (true, false) →
      ∃ c : Config (system {}), Reachable {} anyEvent c ∧
        ObservesExpiry c.world.db c.world.now 0 0 o ∧
        ¬Released (o.exec c.world.db c.world.now 0).1 0 0 := by
    intro o ms hrun
    obtain ⟨c, hc, hsee⟩ := reachable_of_run _ (World.empty_initial 0 []) ms hrun
    exact ⟨c, hc, of_decide_eq_true (congrArg Prod.fst hsee),
      of_decide_eq_false (congrArg Prod.snd hsee)⟩
  constructor
  · exact hstrands _ (approvalRequested {} ++ [.tick (.advance 3600001)]) (by decide +kernel)
  · exact hstrands _ (approvalGranted {} ++ [.tick (.advance 3600001)] ++ serve {} 1 .processOne 3)
      (by decide +kernel)

end Observatory
