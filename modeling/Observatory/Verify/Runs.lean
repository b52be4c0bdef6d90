import Observatory.Verify.Conformance
import Observatory.Verify.Growth
import Observatory.Verify.Steps

/-!
# Runs of the system

What an event of a run can be (`Happens`), and what it does to the committed rows (`Committed`).
Invariants of the system are proved by `Reachable.induct` and `Reachable.historically`, which hand
out both together with the two facts every reachable state has: the rows a recovery is about to
write exist, and every run has its task.
-/

namespace Observatory

open Effect Effect.Machine

variable (cfg : Settings)

abbrev Event := Machine.Event (system cfg)

/-- What happened, newest first. -/
abbrev History := List (Event cfg)

/-- The phase of process `p` after `h`. -/
abbrev phaseOf (h : History cfg) (p : Pid) : Option Phase := phase (Flow.flow cfg) Req.phase h p

/-- Reachable by events that meet `K`. -/
abbrev Reachable (K : History cfg → Event cfg → Prop) : Config (system cfg) → Prop :=
  Reaches (system cfg) World.Initial K

/-- An event that is possible after `h` in the world `w`. -/
abbrev Lawful (h : History cfg) (w : World) : Event cfg → Prop := Legal (Flow.flow cfg) Req.phase h w

/-! ## Events -/

namespace World

/-- The status of run `r`, if there is one. -/
def runStatus (w : World) (r : RunId) : Option RunStatus := (w.db.runs[r]?).map (·.status)

theorem runStatus_eq {w : World} {r : RunId} {s : RunStatus} :
    w.runStatus r = some s ↔ ∃ run, w.db.runs[r]? = some run ∧ run.status = s :=
  Option.map_eq_some_iff

/-- A process that is done takes its heartbeat along. -/
def settled (w : World) (p : Pid) (stays : Bool) : World := if stays then w else w.setBeat p none

@[simp] theorem setBeat_db (w : World) (p : Pid) (b : Option Beat) : (w.setBeat p b).db = w.db := rfl
@[simp] theorem setBeat_redis (w : World) (p : Pid) (b : Option Beat) :
    (w.setBeat p b).redis = w.redis := rfl
@[simp] theorem setBeat_now (w : World) (p : Pid) (b : Option Beat) :
    (w.setBeat p b).now = w.now := rfl

@[simp] theorem settled_db (w : World) (p : Pid) (stays : Bool) : (w.settled p stays).db = w.db := by
  cases stays <;> rfl

@[simp] theorem settled_redis (w : World) (p : Pid) (stays : Bool) :
    (w.settled p stays).redis = w.redis := by
  cases stays <;> rfl

@[simp] theorem settled_now (w : World) (p : Pid) (stays : Bool) :
    (w.settled p stays).now = w.now := by
  cases stays <;> rfl

@[simp] theorem exec_ext_db (w : World) (p : Pid) (ch : Choice) (o : ExtOp) :
    (w.exec p ch (.ext o)).1.db = w.db := by
  cases o <;> rfl

@[simp] theorem exec_ext_redis (w : World) (p : Pid) (ch : Choice) (o : ExtOp) :
    (w.exec p ch (.ext o)).1.redis = w.redis := by
  cases o <;> rfl

@[simp] theorem exec_ext_now (w : World) (p : Pid) (ch : Choice) (o : ExtOp) :
    (w.exec p ch (.ext o)).1.now = w.now := by
  cases o <;> rfl

end World

/-- **What an event is**, with the phase of the process that acts. -/
inductive Happens (h : History cfg) (w : World) : Event cfg → Prop where
  | started {p : Pid} (q : Req) (stays : Bool) (idle : phaseOf cfg h p = none) :
      Happens h w ⟨w, .started p q stays, w.settled p stays⟩
  | db {p : Pid} {g : Phase} (o : DbOp) (stays : Bool) (running : phaseOf cfg h p = some g)
      (allowed : Flow.allowsDb g o) :
      Happens h w ⟨w, .did p (.db o) (o.exec w.db w.now p).2 stays,
        { w with db := (o.exec w.db w.now p).1 }.settled p stays⟩
  | redis {p : Pid} {g : Phase} (o : RedisOp) (trim : Nat) (res : Except LibError o.Ans)
      (stays : Bool) (running : phaseOf cfg h p = some g) (allowed : Flow.allowsRedis g o)
      (hres : res = .ok (o.exec w.redis w.now p trim).2 ∨ ∃ x, res = .error x) :
      Happens h w ⟨w, .did p (.redis o) res stays,
        { w with redis := (o.exec w.redis w.now p trim).1 }.settled p stays⟩
  | ext {p : Pid} {g : Phase} (o : ExtOp) (ch : Choice) (stays : Bool)
      (running : phaseOf cfg h p = some g) (allowed : Flow.allowsExt g o) :
      Happens h w ⟨w, .did p (.ext o) (w.exec p ch (.ext o)).2 stays,
        (w.exec p ch (.ext o)).1.settled p stays⟩
  | failed {p : Pid} {g : Phase} (o : Op) (x : LibError) (stays : Bool)
      (running : phaseOf cfg h p = some g) (allowed : (Flow.flow cfg).allows g o)
      (hf : o.fallible = true) :
      Happens h w ⟨w, .did p o (.error x) stays, w.settled p stays⟩
  | crashed {p : Pid} {g : Phase} (running : phaseOf cfg h p = some g) :
      Happens h w ⟨w, .crashed p, w.setBeat p none⟩
  | ticked (t : Tick) : Happens h w ⟨w, .ticked t, w.tick t⟩

variable {cfg} {h : History cfg} {w : World} {e : Event cfg}

theorem Lawful.happens (hl : Lawful cfg h w e) : Happens cfg h w e := by
  cases hl with
  | started q stays idle => exact .started q stays idle
  | crashed running => exact .crashed running
  | ticked t => exact .ticked t
  | @did p o g ch stays running allowed =>
    change Happens cfg h w ⟨w, .did p o (w.perform p o ch).2 stays,
      (w.perform p o ch).1.settled p stays⟩
    have hplain : ∀ ch : Choice, Happens cfg h w
        ⟨w, .did p o (w.exec p ch o).2 stays, (w.exec p ch o).1.settled p stays⟩ := by
      intro ch
      cases o with
      | db o => exact .db o stays running allowed
      | redis o => exact .redis o ch.trim _ stays running allowed (.inl rfl)
      | ext o => exact .ext o ch stays running allowed
    cases hfault : ch.fault with
    | none => simpa only [World.perform, hfault] using hplain ch
    | before x =>
      by_cases hf : o.fallible = true
      · simpa only [World.perform, hfault, hf, ite_true] using
          Happens.failed o x stays running allowed hf
      · simpa only [World.perform, hfault, hf, ite_false, Bool.false_eq_true] using hplain ch
    | after x =>
      cases o with
      | redis o =>
        simp only [World.perform, hfault]
        exact .redis o ch.trim _ stays running allowed (.inr ⟨x, rfl⟩)
      | db o => simpa only [World.perform, hfault] using hplain ch
      | ext o => simpa only [World.perform, hfault] using hplain ch

/-- **What an event does to the committed rows**: nothing, a heartbeat's update, or the transaction
of a process. -/
inductive Committed (h : History cfg) (w : World) (e : Event cfg) : Prop where
  | quiet (rows : e.after.db = w.db)
      (noCommit : ∀ p o a stays, e.act ≠ .did p (.db o) (.ok a) stays)
  | beat {p : Pid} {b : Beat} (hb : w.beats p = some b) (act : e.act = .ticked (.beat p))
      (rows : e.after.db = w.db.heartbeat w.now b.run p)
  | transaction {p : Pid} {g : Phase} (o : DbOp) (stays : Bool)
      (running : phaseOf cfg h p = some g) (allowed : Flow.allowsDb g o)
      (act : e.act = .did p (.db o) (o.exec w.db w.now p).2 stays)
      (rows : e.after.db = (o.exec w.db w.now p).1)

theorem Happens.committed (hh : Happens cfg h w e) : Committed h w e := by
  cases hh with
  | started q stays idle => exact .quiet (by simp) (by simp)
  | db o stays running allowed => exact .transaction o stays running allowed rfl (by simp)
  | redis o trim res stays running allowed hres => exact .quiet (by simp) (by simp)
  | ext o ch stays running allowed => exact .quiet (by simp) (by simp)
  | failed o x stays running allowed hf =>
    refine .quiet (by simp) fun p' o' a stays' heq => ?_
    cases heq
  | crashed running => exact .quiet (by simp) (by simp)
  | ticked t =>
    cases t with
    | advance ms => exact .quiet rfl (by simp)
    | beat p =>
      cases hb : w.beats p with
      | none => exact .quiet (by simp [World.tick, hb]) (by simp)
      | some b => exact .beat hb rfl (by simp [World.tick, hb])

theorem Lawful.committed (hl : Lawful cfg h w e) : Committed h w e := hl.happens.committed

/-- Time does not run backwards. -/
theorem Happens.now_le (hh : Happens cfg h w e) : w.now ≤ e.after.now := by
  cases hh with
  | ticked t =>
    cases t with
    | advance ms => simp [World.tick]
    | beat p =>
      simp only [World.tick]
      split <;> simp
  | _ => simp

theorem Lawful.before (hl : Lawful cfg h w e) : e.before = w := by
  cases hl <;> rfl

/-! ## Phases along a run -/

/-- How process `p` came to be in phase `g'`. -/
inductive Became (h : History cfg) (e : Event cfg) (p : Pid) (g' : Phase) : Prop where
  | kept (running : phaseOf cfg h p = some g') (other : e.act.pid? ≠ some p)
  | started (q : Req) (act : e.act = .started p q true) (phase : g' = q.phase)
  | did {o : Op} {res : Sys.Result o} {g : Phase} (act : e.act = .did p o res true)
      (running : phaseOf cfg h p = some g) (step : Flow.Step cfg g o res g')

theorem Lawful.became {p : Pid} {g' : Phase} (hl : Lawful cfg h w e)
    (hg : phaseOf cfg (e :: h) p = some g') : Became h e p g' := by
  cases hl.moved hg with
  | kept running other => exact .kept running other
  | started q act phase => exact .started q act phase
  | did act running allowed phase =>
    subst phase
    exact .did act running (Flow.step_of_allows allowed)

/-- Who acts is in a phase that allows it. -/
theorem Lawful.did {p : Pid} {o : Op} {res : Sys.Result o} {stays : Bool} (hl : Lawful cfg h w e)
    (act : e.act = .did p o res stays) :
    ∃ g, phaseOf cfg h p = some g ∧ (Flow.flow cfg).allows g o := by
  cases hl with
  | did ch stays running allowed =>
    cases act
    exact ⟨_, running, allowed⟩
  | _ => cases act

/-- What a transaction came back with. -/
theorem Lawful.committed_of_ok {p : Pid} {o : DbOp} {a : o.Ans} {stays : Bool}
    (hl : Lawful cfg h w e) (act : e.act = .did p (.db o) (.ok a) stays) :
    o.exec w.db w.now p = (e.after.db, .ok a) := by
  cases hl.committed with
  | quiet rows noCommit => exact absurd act (noCommit p o a stays)
  | beat hb act' rows =>
    rw [act] at act'
    cases act'
  | transaction o' stays' running allowed act' rows =>
    obtain ⟨rfl, ho, hres, -⟩ := Act.did.inj (act.symm.trans act')
    cases ho
    exact Prod.ext rows.symm (eq_of_heq hres).symm

/-- How an approval came to be what it is after an event. -/
inductive ApprovalStep (h : History cfg) (w : World) (e : Event cfg) (a : ApprovalId)
    (appr' : Approval) : Prop where
  | same (row : w.db.approvals[a]? = some appr')
  | write {p : Pid} {g : Phase} {o : DbOp} {stays : Bool} {appr : Approval}
      (running : phaseOf cfg h p = some g) (allowed : Flow.allowsDb g o)
      (act : e.act = .did p (.db o) (o.exec w.db w.now p).2 stays)
      (rows : e.after.db = (o.exec w.db w.now p).1)
      (row : w.db.approvals[a]? = some appr) (hw : ApprovalWrite w.now a appr o appr')
  | created {p : Pid} {g : Phase} {r : RunId} {cls : ActionClass} {payload : ActionPayload}
      {impact : String} {stays : Bool} (running : phaseOf cfg h p = some g)
      (allowed : Flow.allowsDb g (.createApproval r cls payload impact))
      (act : e.act = .did p (.db (.createApproval r cls payload impact)) (.ok a) stays)
      (row : w.db.approvals[a]? = none) (hr : appr'.runId = r) (hp : appr'.payload = payload)
      (hs : appr'.status = .pending) (hexp : appr'.expiresAt = w.now + ApprovalService.ttl)

theorem Lawful.approval {a : ApprovalId} {appr' : Approval} (hl : Lawful cfg h w e)
    (hrow : e.after.db.approvals[a]? = some appr') : ApprovalStep h w e a appr' := by
  cases hl.committed with
  | quiet rows => exact .same (rows ▸ hrow)
  | beat hb act rows => exact .same (by rw [rows] at hrow; exact hrow)
  | transaction o stays running allowed act rows =>
    rw [rows] at hrow
    cases approval_cases hrow with
    | same row => exact .same row
    | write row hw => exact .write running allowed act rows row hw
    | created ho ha hr hp hs hexp =>
      subst ho ha
      exact .created running allowed act (by simp) hr hp hs hexp

/-- An approval keeps its run and what it is for, and once CONSUMED it does not change at all. -/
theorem Lawful.approval_kept {a : ApprovalId} {appr : Approval} (hl : Lawful cfg h w e)
    (hrow : w.db.approvals[a]? = some appr) :
    ∃ appr', e.after.db.approvals[a]? = some appr' ∧ appr'.runId = appr.runId ∧
      appr'.payload = appr.payload ∧ (appr.status = .consumed → appr' = appr) := by
  have hlen : w.db.approvals.length ≤ e.after.db.approvals.length := by
    cases hl.committed with
    | quiet rows => rw [rows]
    | beat hb act rows =>
      rw [rows]
      exact le_rfl
    | transaction o stays running allowed act rows =>
      rw [rows]
      exact approvals_grow o
  have hlt : a < e.after.db.approvals.length :=
    ((List.getElem?_eq_some_iff.1 hrow).1).trans_le hlen
  refine ⟨_, List.getElem?_eq_getElem hlt, ?_⟩
  cases hl.approval (List.getElem?_eq_getElem hlt) with
  | same row =>
    cases hrow.symm.trans row
    exact ⟨rfl, rfl, fun _ => rfl⟩
  | @write p g o stays appr₀ running allowed act rows row hw =>
    cases hrow.symm.trans row
    revert hw
    generalize e.after.db.approvals[a] = appr'
    intro hw
    cases hw with
    | expired hp => exact ⟨rfl, rfl, fun hs => by rw [hs] at hp; cases hp⟩
    | decided hp => exact ⟨rfl, rfl, fun hs => by rw [hs] at hp; cases hp⟩
    | consumed hr hs' => exact ⟨rfl, rfl, fun hs => by rw [hs] at hs'; cases hs'⟩
  | created running allowed act row =>
    rw [hrow] at row
    cases row

/-! ## What every reachable state has -/

/-- Runs have their tasks, and what a recovery has loaded is still there. -/
structure Sound (h : History cfg) (w : World) : Prop where
  tasks : TasksExist w.db
  rows : ∀ p g cutoff todo picked, phaseOf cfg h p = some g →
    g.stage = .recovering cutoff todo picked → RowsKnown w.db (todo ++ picked)

theorem Sound.known (hs : Sound h w) {p : Pid} {g : Phase} {o : DbOp}
    (hg : phaseOf cfg h p = some g) (allowed : Flow.allowsDb g o) :
    ∀ rows, o = .commitRecovery rows → RowsKnown w.db rows := by
  rintro rows rfl
  obtain ⟨cutoff, hstage⟩ := allowed
  simpa using hs.rows p g cutoff [] rows hg hstage

theorem Sound.rowsExist (hs : Sound h w) {p : Pid} {g : Phase} {o : DbOp}
    (hg : phaseOf cfg h p = some g) (allowed : Flow.allowsDb g o) : RowsExist w.db o := by
  cases o with
  | commitRecovery rows => exact fun x hx => (hs.known hg allowed rows rfl x hx).1
  | _ => trivial

theorem Sound.grows (hs : Sound h w) (hl : Lawful cfg h w e) : Grows w.db e.after.db := by
  cases hl.committed with
  | quiet rows => exact rows ▸ .refl _
  | @beat p b hb act rows =>
    rw [rows]
    refine .updateRun w.db b.run _ fun run => ?_
    unfold Db.beaten
    split <;> rfl
  | transaction o stays running allowed act rows =>
    rw [rows]
    exact exec_grows hs.tasks (hs.known running allowed)

theorem Sound.step (hs : Sound h w) (hl : Lawful cfg h w e) : Sound (e :: h) e.after := by
  have hgrows := hs.grows hl
  refine ⟨hgrows.tasks hs.tasks, fun p g cutoff todo picked hg hstage => ?_⟩
  cases hl.became hg with
  | kept running => exact (hs.rows p g cutoff todo picked running hstage).mono hgrows
  | started q act phase =>
    subst phase
    cases q <;> cases hstage
  | @did o res g₀ act running step =>
    have hkeep : ∀ todo picked, g₀.stage = .recovering cutoff todo picked →
        RowsKnown e.after.db (todo ++ picked) := fun todo picked hstage₀ =>
      (hs.rows p g₀ cutoff todo picked running hstage₀).mono hgrows
    cases step with
    | dlq => exact hkeep todo picked hstage
    | operated => exact hkeep todo picked hstage
    | logged => exact hkeep todo picked hstage
    | @loaded cutoff₀ rows h₀ =>
      cases hstage
      cases hl.happens with
      | db o stays running allowed =>
        cases act
        intro x hx
        obtain ⟨hrow, -⟩ := selectExecuting_mem (by simpa using hx)
        exact ⟨((List.getElem?_eq_some_iff.1 hrow).1).trans_le hgrows.runs,
          (hs.tasks _ (List.mem_of_getElem? hrow)).trans_le hgrows.taskCount⟩
      | redis => cases act
      | ext => cases act
      | failed => cases act
      | _ => cases act
    | @judged cutoff₀ now r run rest picked₀ h₀ =>
      cases hstage
      intro x hx
      refine hkeep ((r, run) :: todo) picked₀ h₀ x ?_
      split at hx <;> simp only [List.mem_append, List.mem_cons, List.mem_nil_iff] at hx ⊢ <;> tauto
    | _ => cases hstage

theorem Sound.initial {w : World} (hw : World.Initial w) : Sound ([] : History cfg) w := by
  refine ⟨fun run hmem => ?_, fun p g cutoff todo picked hg => ?_⟩
  · rw [hw.db] at hmem
    cases hmem
  · cases hg

section rules

variable {K : History cfg → Event cfg → Prop} {c : Config (system cfg)}

/-- **Invariants of the system.** -/
theorem Reachable.induct {P : History cfg → World → Prop} (hinit : ∀ w, World.Initial w → P [] w)
    (hstep : ∀ h w e, Sound h w → P h w → Lawful cfg h w e → K h e → P (e :: h) e.after)
    (hc : Reachable cfg K c) : P c.hist c.world :=
  (Reaches.induct (program_conforms cfg) (P := fun h w => Sound h w ∧ P h w)
    (fun w hw => ⟨.initial hw, hinit w hw⟩)
    (fun h w e hP hl hK => ⟨hP.1.step hl, hstep h w e hP.1 hP.2 hl hK⟩) hc).2

/-- Invariants that also watch another protocol, which every program keeps to. -/
theorem Reachable.induct₂ {τ : Type} {U : Protocol Sys τ} {init : Req → τ}
    (hprog : ∀ q : Req, (q.program cfg).wp U (fun _ _ => True) (init q))
    {P : History cfg → World → Prop} (hinit : ∀ w, World.Initial w → P [] w)
    (hstep : ∀ h w e, Sound h w → P h w → Lawful cfg h w e →
      Legal (M := system cfg) U init h w e → K h e → P (e :: h) e.after)
    (hc : Reachable cfg K c) : P c.hist c.world :=
  (Reaches.induct₂ (program_conforms cfg) hprog (P := fun h w => Sound h w ∧ P h w)
    (fun w hw => ⟨.initial hw, hinit w hw⟩)
    (fun h w e hP hl hl' hK => ⟨hP.1.step hl, hstep h w e hP.1 hP.2 hl hl' hK⟩) hc).2

/-- **Safety of the system.** -/
theorem Reachable.historically {P : History cfg → World → Prop}
    {G : History cfg → Event cfg → Prop} (hinit : ∀ w, World.Initial w → P [] w)
    (hstep : ∀ h w e, Sound h w → P h w → Lawful cfg h w e → K h e → P (e :: h) e.after ∧ G h e)
    (hc : Reachable cfg K c) : Historically G c.hist :=
  Reaches.historically (program_conforms cfg) (P := fun h w => Sound h w ∧ P h w)
    (fun w hw => ⟨.initial hw, hinit w hw⟩)
    (fun h w e hP hl hK =>
      have hnext := hstep h w e hP.1 hP.2 hl hK
      ⟨⟨hP.1.step hl, hnext.1⟩, hnext.2⟩) hc

end rules

/-! ## Computed runs -/

section computed

variable (cfg)

/-- Process `p` starts on `q` and performs `n` operations. -/
def serve (p : Pid) (q : Req) (n : Nat) (ch : Choice := {}) : List (Move (system cfg)) :=
  .start p q :: List.replicate n (.perform p ch)

/-- A plan whose only action needs an approval. -/
def gatedPlan : Plan := { actions := [some ⟨"write", "technocore_signed_write", []⟩] }

/-- A task is created and its run published. -/
def taskPublished : List (Move (system cfg)) :=
  serve cfg 0 (.createTask { title := "task", prompt := "prompt" } 0) 2 ++
    serve cfg 0 .checkSources 9

/-- Worker 1 takes the run up to its request for an approval. -/
def approvalRequested : List (Move (system cfg)) :=
  taskPublished cfg ++ serve cfg 1 .processOne 21 { plan := gatedPlan }

/-- The approval is given, and the run published again. -/
def approvalGranted : List (Move (system cfg)) :=
  approvalRequested cfg ++ serve cfg 0 (.decideApproval (.uuid 0) (.uuid 0) "approve" none) 2 ++
    serve cfg 0 .checkSources 9

variable {cfg}

/-- What is seen at the end of a computed run is seen in a reachable state. -/
theorem reachable_of_run {K : History cfg → Event cfg → Prop} [∀ h e, Decidable (K h e)] {α : Type}
    (see : Config (system cfg) → α) {x : α} {w : World} (hw : World.Initial w)
    (ms : List (Move (system cfg)))
    (hrun : ((Config.initial w).run K ms).map see = some x) :
    ∃ c, Reachable cfg K c ∧ see c = x := by
  obtain ⟨c, hc, hsee⟩ := Option.map_eq_some_iff.1 hrun
  exact ⟨c, (Reaches.init hw).run hc, hsee⟩

end computed

end Observatory
