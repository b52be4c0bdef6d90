import Observatory.Data.Counting
import Observatory.Verify.Duplicates

/-!
# What a claim is owed to

Whatever the interleaving, a worker gets hold of a run for one of four reasons: the run was made,
one of its approvals was granted, it was resumed, or the lease of whoever held it is over.  Each
reason serves for one claim: a QUEUED run is a claim still owed (`Owed`), and only the first three
make a run QUEUED.
-/

namespace Observatory

open Effect Effect.Machine Counting

variable {cfg : Settings}

/-- The claim of `r` went through because the lease on it was over. -/
def takesOver (r : RunId) (e : Event cfg) : Bool := claims r e && e.before.leaseOver r

/-- `cmd_resume` commits, and had found `r` PAUSED when it looked. -/
def resumesPaused (r : RunId) (e : Event cfg) : Bool := unpausedRun e = some r

/-- An approval of `r` that was granted, whether it has been used or not. -/
def isGranted (r : RunId) (a : Approval) : Bool :=
  a.runId = r && (a.status = .approved || a.status = .consumed)

/-- How many approvals of `r` were granted. -/
def Db.granted (db : Db) (r : RunId) : ℕ := db.approvals.countP (isGranted r)

/-- One if `r` waits in the queue. -/
def World.queued (w : World) (r : RunId) : ℕ := if w.runStatus r = some .queued then 1 else 0

/-- One if there is a run `r`. -/
def World.made (w : World) (r : RunId) : ℕ := if (w.runStatus r).isSome then 1 else 0

/-- **The balance of a run**: what was claimed or can be, against the reasons there have been. -/
def Owed (h : History cfg) (w : World) : Prop :=
  ∀ r, h.countP (claims r) + w.queued r ≤
    w.made r + w.db.granted r + h.countP (resumesPaused r) + h.countP (takesOver r)

section step

variable {h : History cfg} {w : World} {e : Event cfg} {r : RunId}

/-! ## Granted approvals -/

/-- What was granted stays so. -/
theorem Lawful.keeps_granted (hl : Lawful cfg h w e) (r : RunId) :
    Keeps (isGranted r) w.db.approvals e.after.db.approvals := by
  intro a appr hrow hgranted
  obtain ⟨appr', hrow', hrun, -, hconsumed⟩ := hl.approval_kept hrow
  refine ⟨appr', hrow', ?_⟩
  cases hl.approval hrow' with
  | same row =>
    cases hrow.symm.trans row
    exact hgranted
  | created running allowed act none hr hp hs hexp =>
    rw [hrow] at none
    cases none
  | write running allowed act rows row hw =>
    cases hrow.symm.trans row
    cases hw with
    | expired hp => simp [isGranted, hp] at hgranted
    | decided hp => simp [isGranted, hp] at hgranted
    | consumed hr hs =>
      simp only [isGranted, hs, Bool.and_eq_true, decide_eq_true_eq] at hgranted ⊢
      exact ⟨hgranted.1, rfl⟩

theorem Lawful.granted_le (hl : Lawful cfg h w e) : w.db.granted r ≤ e.after.db.granted r :=
  (hl.keeps_granted r).countP_le

/-- An approval is granted once. -/
theorem Lawful.granted_lt {p : Pid} {a : ApprovalId} {appr : Approval} {user : Option Nat}
    {x : ApprovalId × Approval} {stays : Bool} (hl : Lawful cfg h w e)
    (happr : w.db.approvals[a]? = some appr) (hr : appr.runId = r) (hp : appr.status = .pending)
    (act : e.act = .did p (.db (.decide (.uuid a) "approve" user)) (.ok x) stays) :
    w.db.granted r < e.after.db.granted r := by
  have hnot : isGranted r appr = false := by simp [isGranted, hp]
  have hgranted : isGranted r (ApprovalService.decided "approve" user appr) = true := by
    simp [isGranted, ApprovalService.decided, hr]
  refine (hl.keeps_granted r).countP_lt happr hnot ?_ hgranted
  have hexec := hl.committed_of_ok act
  have hcases := decideTransaction_cases w.db w.now (.uuid a) "approve" user
  rw [show decideTransaction w.db w.now (.uuid a) "approve" user = (e.after.db, .ok x) from hexec]
    at hcases
  generalize e.after.db = db' at hcases ⊢
  generalize hdec : "approve" = decision at hcases ⊢
  cases hcases with
  | runless => simp [getElem?_modify_of_some happr]
  | approved => simp [getElem?_modify_of_some happr]
  | rejected => simp at hdec

/-! ## One event -/

theorem made_of_row {w : World} {run : Run} (hrow : w.db.runs[r]? = some run) : w.made r = 1 := by
  simp [World.made, World.runStatus, hrow]

theorem queued_of_row {w : World} {run : Run} (hrow : w.db.runs[r]? = some run) :
    w.queued r = if run.status = .queued then 1 else 0 := by
  simp [World.queued, World.runStatus, hrow]

theorem queued_of_none {w : World} (hrow : w.db.runs[r]? = none) : w.queued r = 0 := by
  simp [World.queued, World.runStatus, hrow]

theorem Lawful.made_le (hsound : Sound h w) (hl : Lawful cfg h w e) : w.made r ≤ e.after.made r := by
  cases hrow : w.db.runs[r]? with
  | none => simp [World.made, World.runStatus, hrow]
  | some run =>
    obtain ⟨run', hrow'⟩ := hl.run_kept hsound hrow
    rw [made_of_row hrow, made_of_row hrow']

/-- A claim uses up what the queue held, or takes over. -/
theorem owed_of_claims (hl : Lawful cfg h w e) (hc : claims r e = true) :
    e.after.queued r = 0 ∧ (w.queued r = 1 ∨ takesOver r e = true) := by
  obtain ⟨p, hclaim⟩ := exists_claimsRun hc
  obtain ⟨run, hrow, hclaimable, hrow'⟩ := hl.claims hclaim
  refine ⟨by rw [queued_of_row hrow', Db.claimed, if_neg RunStatus.noConfusion], ?_⟩
  unfold Db.claimable at hclaimable
  rcases Bool.or_eq_true_iff.1 hclaimable with hs | hlease
  · exact .inl (by rw [queued_of_row hrow, if_pos (of_decide_eq_true hs)])
  · refine .inr ?_
    rw [takesOver, hc, hl.before, World.leaseOver, hrow]
    exact hlease

/-- What puts a run into the queue. -/
theorem Lawful.queued_owed (hsound : Sound h w) (hl : Lawful cfg h w e)
    (hq : w.queued r < e.after.queued r) :
    w.made r < e.after.made r ∨ w.db.granted r < e.after.db.granted r ∨ resumesPaused r e = true := by
  cases hrow' : e.after.db.runs[r]? with
  | none =>
    rw [queued_of_none hrow'] at hq
    exact absurd hq (Nat.not_lt_zero _)
  | some run' =>
    have hnow : run'.status = .queued := by
      by_contra hs
      rw [queued_of_row hrow', if_neg hs] at hq
      exact absurd hq (Nat.not_lt_zero _)
    have hbefore : ∀ {run}, w.db.runs[r]? = some run → run.status ≠ .queued := by
      intro run hrow hs
      rw [queued_of_row hrow, if_pos hs, queued_of_row hrow', if_pos hnow] at hq
      exact absurd hq (Nat.lt_irrefl 1)
    cases hl.run hsound hrow' with
    | same row => exact (hbefore row hnow).elim
    | beaten hb hr act row hrun =>
      refine absurd ?_ (hbefore row)
      rw [hrun] at hnow
      unfold Db.beaten at hnow
      split at hnow <;> exact hnow
    | fresh running allowed act row hf =>
      refine .inl ?_
      rw [made_of_row hrow']
      simp [World.made, World.runStatus, row]
    | @write p g o stays run running allowed act row hw =>
      cases hw with
      | controlled => exact (hbefore row (by simpa using hnow)).elim
      | @approved a appr user happr hr hp hexp hs hok =>
        obtain ⟨x, hok⟩ := hok
        have hres : ((DbOp.decide (.uuid a) "approve" user).exec w.db w.now p).2 = .ok x := hok
        rw [hres] at act
        exact .inr (.inl (hl.granted_lt happr hr hp act))
      | rejected user happr hr hp hexp hs =>
        rw [ApprovalService.rejected, if_pos hs] at hnow
        cases hnow
      | recovered hr hrec =>
        rw [hrec.status] at hnow
        cases hnow
      | resumed loaded =>
        have hpaused : loaded.status = .paused := by
          by_contra hs
          refine absurd ?_ (hbefore row)
          simpa only [Db.resumed, hs, ite_false] using hnow
        refine .inr (.inr (decide_eq_true ?_))
        rw [unpausedRun, act]
        exact if_pos hpaused
      | committed loaded out =>
        -- the coordinator never comes back QUEUED
        obtain ⟨c, -, hlands⟩ := allowed
        have hmem := hlands.reportable
        simp only [Db.committed, Db.written] at hnow
        split at hnow
        · exact (hbefore row hnow).elim
        · rw [hnow] at hmem
          simp at hmem
      | _ => cases hnow

theorem World.queued_le (w : World) (r : RunId) : w.queued r ≤ 1 := by
  unfold World.queued
  split_ifs
  · exact le_rfl
  · exact Nat.zero_le 1

theorem Owed.step (hsound : Sound h w) (ho : Owed h w) (hl : Lawful cfg h w e) :
    Owed (e :: h) e.after := by
  intro r
  have hbalance := ho r
  have hmade := hl.made_le (r := r) hsound
  have hgranted := hl.granted_le (r := r)
  simp only [List.countP_cons]
  by_cases hc : claims r e = true
  · obtain ⟨hnone, hwhy⟩ := owed_of_claims hl hc
    rw [hnone, if_pos hc]
    rcases hwhy with hq | htakes
    · omega
    · rw [if_pos htakes]
      omega
  · rw [if_neg hc]
    by_cases hq : w.queued r < e.after.queued r
    · have hone := e.after.queued_le r
      rcases hl.queued_owed hsound hq with hlt | hlt | hres
      · omega
      · omega
      · rw [if_pos hres]
        omega
    · omega

end step

theorem Owed.initial {w : World} (hw : World.Initial w) : Owed ([] : History cfg) w := by
  intro r
  have hnone : w.db.runs[r]? = none := by rw [hw.db]; rfl
  rw [queued_of_none hnone]
  exact Nat.zero_le _

/-- **Every claim has its own reason.**  In every run of the system, the claims of a run that went
through are at most one for the run being made, one for each of its approvals that was granted, one
for each time it was resumed, and one for each lease that was over. -/
theorem claims_owed {r : RunId} {c : Config (system cfg)} (hc : Reachable cfg anyEvent c) :
    c.hist.countP (claims r) ≤ 1 + c.world.db.granted r + c.hist.countP (resumesPaused r) +
      c.hist.countP (takesOver r) := by
  have hbalance := hc.induct (P := Owed) (fun w hw => .initial hw)
    (fun h w e hsound ho hl _ => ho.step hsound hl) r
  have hmade : c.world.made r ≤ 1 := by
    unfold World.made
    split_ifs
    · exact le_rfl
    · exact Nat.zero_le 1
  omega

/-- A run that is claimed, waits for an approval, and is claimed again when it was granted. -/
theorem claims_owed_granted : ∃ c : Config (system {}), c.hist.countP (claims 0) = 2 ∧
    c.hist.countP (claims 0) ≤ 1 + c.world.db.granted 0 + c.hist.countP (resumesPaused 0) +
      c.hist.countP (takesOver 0) := by
  obtain ⟨c, hc, htwo⟩ := reachable_of_run (K := anyEvent) (fun c => c.hist.countP (claims 0))
    (x := 2) (World.empty_initial 0 []) (approvalGranted {} ++ serve {} 1 .processOne 8)
    (by decide +kernel)
  exact ⟨c, htwo, claims_owed hc⟩

end Observatory
