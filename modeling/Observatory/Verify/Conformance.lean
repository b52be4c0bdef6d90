import Observatory.Verify.Phase

/-!
# Every program keeps to the protocol

For each program of the system, from the phase its caller hands it over in, its `wp` under `flow`.
The loop of the coordinator is the induction: `Looping` ties the attributes of the coordinator to
what its operations have shown so far, and `Left` is what holds when the loop is over.  The result
is `program_conforms`, one statement about all requests.
-/

namespace Observatory

open Effect Prog Observatory.Flow

variable (cfg : Settings)

section rules

variable {g : Phase}

theorem wp_db {o : DbOp} {Q : Except PyExc o.Ans → Phase → Prop} :
    wp (α := no_index o.Ans) (flow cfg) (Proc.db o) Q g ↔
      allowsDb g o ∧ (∀ a, Q (.ok a) (nextDb cfg g o (.ok a))) ∧
        ∀ x, Q (.error (.lib x)) (nextDb cfg g o (.error x)) := wp_call

theorem wp_redis {o : RedisOp} {Q : Except PyExc o.Ans → Phase → Prop} :
    wp (α := no_index o.Ans) (flow cfg) (Proc.redis o) Q g ↔
      allowsRedis g o ∧ (∀ a, Q (.ok a) (nextRedis g o (.ok a))) ∧
        ∀ x, Q (.error (.lib x)) (nextRedis g o (.error x)) := wp_call

theorem wp_ext {o : ExtOp} {Q : Except PyExc o.Ans → Phase → Prop} :
    wp (α := no_index o.Ans) (flow cfg) (Proc.ext o) Q g ↔
      allowsExt g o ∧ (∀ a, Q (.ok a) (nextExt cfg g o (.ok a))) ∧
        ∀ x, Q (.error (.lib x)) (nextExt cfg g o (.error x)) := wp_call

end rules

/-! ## The event sink -/

section sink

variable {e : Option EntryId} {r : RunId} {loaded : Run} {g : Coord} {payload : Dict}
  {Q : Except PyExc Unit → Phase → Prop}

/-- The phase of a process inside the coordinator. -/
abbrev inCoord (e : Option EntryId) (r : RunId) (loaded : Run) (g : Coord) : Phase :=
  ⟨e, .coordinating r loaded g⟩

/-- An event whose failure is swallowed, and that comes with no row. -/
theorem sink_plain {etype : EventType} (hev : WorkerLoop.criticalEvent etype = false)
    (hrow : WorkerLoop.criticalRow etype = false) (hmay : mayAppend g.point etype)
    (hQ : ∀ fine, Q (.ok ()) (inCoord e r loaded (appended cfg g etype fine))) :
    wp (flow cfg) (WorkerLoop.sink r etype payload) Q (inCoord e r loaded g) := by
  have hpure : WorkerLoop.sinkRow r etype payload = .ret () := by
    cases etype <;> first | rfl | cases hrow
  simp only [WorkerLoop.sink, hpure, bind_eq, wp_bind, wp_attempt, wp_db]
  refine ⟨⟨rfl, hmay⟩, fun _ => ?_, fun _ => ?_⟩
  · simpa [wp_bind, wp_attempt, nextDb, Phase.at'] using hQ true
  · simpa [wp_bind, wp_attempt, nextDb, Phase.at', hev] using hQ false

/-- An event that comes with a row: either transaction may fail, and then the sink raises. -/
theorem sink_row {etype : EventType} (hev : WorkerLoop.criticalEvent etype = true)
    (hrow : WorkerLoop.criticalRow etype = true) (hmay : mayAppend g.point etype)
    (hfail : ∀ m, Q (.error (.critical m)) (inCoord e r loaded (appended cfg g etype false)))
    (hnext : wp (flow cfg) (WorkerLoop.sinkRow r etype payload)
      (fun res g' => match res with
        | .ok () => Q (.ok ()) g'
        | .error _ => ∀ m, Q (.error (.critical m)) g')
      (inCoord e r loaded (appended cfg g etype true))) :
    wp (flow cfg) (WorkerLoop.sink r etype payload) Q (inCoord e r loaded g) := by
  simp only [WorkerLoop.sink, bind_eq, wp_bind, wp_attempt, wp_db]
  refine ⟨⟨rfl, hmay⟩, fun _ => ?_, fun _ => ?_⟩
  · simp only [bindPost_ok, pure_eq, wp_bind, wp_attempt, nextDb, Phase.at']
    refine wp_mono ?_ hnext
    rintro (x | ⟨⟩) g' hg'
    · simpa [hrow] using hg' _
    · simpa using hg'
  · simpa [wp_bind, nextDb, Phase.at', hev] using hfail _

end sink

/-! ## The loop of the coordinator -/

open RunCoordinator (undecided)

/-- Between two actions, with `rest` still to come. -/
structure Looping (rest : List Action) (s : CoordState) (g : Coord) : Prop where
  point : g.point = .looping
  todo : g.todo = rest
  counters : g.counters = s.counters
  failed : g.failed = s.hadError
  ran : s.executed.any (·.ok) = true → g.done ≠ []
  split : g.failed = false → g.done ++ rest = g.actions
  awaiting : g.awaiting = none
  status : undecided s.status = true

/-- An action is being looked at. -/
structure Acting (act : Action) (rest : List Action) (s : CoordState) (g : Coord) : Prop where
  todo : g.todo = rest
  counters : g.counters = s.counters
  failed : g.failed = s.hadError
  ran : s.executed.any (·.ok) = true → g.done ≠ []
  split : g.failed = false → g.done ++ act :: rest = g.actions
  awaiting : g.awaiting = none

/-- The loop is over, one way or another. -/
structure Left (s : CoordState) (g : Coord) : Prop where
  point : g.point = .looping ∨ g.point = .closing
  failed : g.failed = s.hadError
  ran : s.executed.any (·.ok) = true → g.done ≠ []
  landed : (s.status ∈ [RunStatus.paused, .cancelled, .failed] ∧ g.awaiting = none) ∨
    (s.status = .waitingApproval ∧ g.awaiting.isSome) ∨
    (undecided s.status = true ∧ g.awaiting = none ∧
      (g.failed = false → g.done = g.actions ∨ g.cut = true))

/-- What an exception on its way out of the coordinator says about the phase. -/
def Raised (x : PyExc) (g : Coord) : Prop :=
  (x.isCritical = true ∧ g.point = .aborting) ∨
    (x.isCritical = false ∧ g.point = .fatal ∧ g.awaiting = none)

section loop

variable {e : Option EntryId} {r : RunId} {loaded : Run} {task : Task} {act : Action}
  {rest : List Action} {s : CoordState} {g : Coord}

/-- What one round of the loop has to provide for. -/
structure RoundPost (rest : List Action) (e : Option EntryId) (r : RunId) (loaded : Run)
    (Q : Except PyExc (Next × CoordState) → Phase → Prop) : Prop where
  go : ∀ s g, Looping rest s g → Q (.ok (.go, s)) (inCoord e r loaded g)
  stop : ∀ s g, Left s g → Q (.ok (.stop, s)) (inCoord e r loaded g)
  raised : ∀ x g, Raised x g → Q (.error x) (inCoord e r loaded g)

variable {Q : Except PyExc (Next × CoordState) → Phase → Prop}

/-- The error path of an action: the breaker decides whether the loop goes on. -/
theorem toolError_wp (x : PyExc) (hp : g.point = .erring) (ht : g.todo = rest)
    (hc : g.counters = s.counters) (hf : g.failed = true)
    (hran : s.executed.any (·.ok) = true → g.done ≠ []) (haw : g.awaiting = none)
    (hs : undecided s.status = true) (hQ : RoundPost rest e r loaded Q) :
    wp (flow cfg) (RunCoordinator.toolError (WorkerLoop.collaborators cfg r task) act x s) Q
      (inCoord e r loaded g) := by
  simp only [RunCoordinator.toolError, WorkerLoop.collaborators, bind_eq, wp_bind]
  refine sink_plain cfg rfl rfl (by simp [hp, mayAppend]) fun fine => ?_
  have hg : appended cfg g .toolError fine = g := by simp [appended, hp]
  have hran' : (s.executed ++ [(⟨none, act.tool, act.arguments, .error x.name⟩ : Executed)]).any
      (·.ok) = true → g.done ≠ [] := fun h => hran (by simpa [Executed.ok] using h)
  rw [hg, bindPost_ok, wp_bind, wp_ext]
  refine ⟨⟨r, loaded, g, rfl, hp⟩, fun now => ?_, fun x' => ?_⟩
  · simp only [bindPost_ok, nextExt, hp, Phase.at']
    split
    · exact hQ.stop _ _ ⟨.inl rfl, hf, hran', .inl ⟨by simp [CoordState.emit], haw⟩⟩
    · exact hQ.go _ _ ⟨rfl, ht, hc, hf, hran', fun h => absurd (hf.symm.trans h) (by simp), haw, hs⟩
  · simp only [bindPost_error, nextExt, Phase.at']
    exact hQ.raised _ _ (.inr ⟨rfl, rfl, haw⟩)

/-- An allowed action: called, then reported, with the error path of either. -/
theorem callTool_wp (hg : Acting act rest s g) (hp : g.point = .allowed act)
    (hs : undecided s.status = true) (hQ : RoundPost rest e r loaded Q) :
    wp (flow cfg) (RunCoordinator.callTool (WorkerLoop.collaborators cfg r task) act s) Q
      (inCoord e r loaded g) := by
  simp only [RunCoordinator.callTool, bind_eq, wp_bind, wp_attempt]
  refine (wp_ext cfg).2 ⟨⟨loaded, g, act, rfl, hp, rfl, rfl⟩, fun result => ?_, fun x => ?_⟩
  · simp only [bindPost_ok, wp_bind, wp_attempt, nextExt, hp, Phase.at']
    have herr : ∀ (x : PyExc) (s' : CoordState), s'.counters = (g.called act).counters →
        undecided s'.status = true → wp (flow cfg)
          (RunCoordinator.toolError (WorkerLoop.collaborators cfg r task) act x s') Q
          (inCoord e r loaded (g.called act).erred) := fun x s' hc hs' =>
      toolError_wp cfg x rfl hg.todo hc.symm rfl (fun _ => by simp [Coord.erred, Coord.called])
        hg.awaiting hs' hQ
    refine sink_row cfg rfl rfl rfl (fun m => ?_) ?_
    · exact herr _ _ (by simp [CoordState.emit, Coord.called, hg.counters]) hs
    · simp only [WorkerLoop.sinkRow, appended, Coord.called, ite_true]
      refine (wp_db cfg).2 ⟨⟨loaded, _, act, rfl, rfl⟩, fun _ => ?_, fun _ m => ?_⟩
      · simp only [pure_eq, wp_ret, nextDb, Phase.at', Coord.at']
        exact hQ.go _ _ ⟨rfl, hg.todo, by simp [CoordState.emit, hg.counters], hg.failed,
          fun _ => by simp, fun h => by simpa using hg.split h, hg.awaiting, hs⟩
      · exact herr _ _ (by simp [CoordState.emit, Coord.called, hg.counters]) hs
  · simp only [bindPost_ok, nextExt, Phase.at']
    exact toolError_wp cfg _ rfl hg.todo hg.counters rfl hg.ran hg.awaiting hs hQ

/-- The policy's decision on an action that was let through. -/
theorem decideAction_wp (hg : Acting act rest
      { s with counters := { s.counters with iteration := s.counters.iteration + 1 } } g)
    (hp : g.point = .admitted act) (hQ : RoundPost rest e r loaded Q) :
    wp (flow cfg) (RunCoordinator.decideAction (WorkerLoop.collaborators cfg r task) act s) Q
      (inCoord e r loaded g) := by
  simp only [RunCoordinator.decideAction, bind_eq, wp_bind]
  refine sink_plain cfg rfl rfl (by simp [hp, mayAppend]) fun fine => ?_
  simp only [appended, hp, bindPost_ok, WorkerLoop.collaborators]
  cases hd : (cfg.policy.decide act.tool).decision with
  | deny =>
    exact hQ.stop _ _ ⟨.inr rfl, hg.failed, hg.ran,
      .inl ⟨by simp [CoordState.emit], hg.awaiting⟩⟩
  | allow =>
    refine callTool_wp cfg ⟨hg.todo, hg.counters, hg.failed, hg.ran, hg.split, hg.awaiting⟩ rfl
      rfl hQ
  | requireApproval =>
    simp only [Coord.decided, wp_bind]
    refine sink_row cfg rfl rfl rfl (fun m => hQ.raised _ _ (.inl ⟨rfl, rfl⟩)) ?_
    simp only [WorkerLoop.sinkRow, appended, Coord.at', ite_true, bind_eq, wp_bind]
    refine (wp_db cfg).2 ⟨⟨loaded, _, act, rfl, rfl, ?_⟩, fun a => ?_, fun _ m => ?_⟩
    · simp [Dict.text, Dict.dict, Dict.get, Json.str, List.lookup_cons]
    · exact hQ.stop _ _ ⟨.inr rfl, hg.failed, hg.ran, .inr (.inl ⟨rfl, rfl⟩)⟩
    · exact hQ.raised _ _ (.inl ⟨rfl, rfl⟩)

/-- `pause_check`, with another action to come; a failed read counts as no request. -/
theorem pauseCheck_wp {Q : Except PyExc Bool → Phase → Prop} (hp : g.point = .looping)
    (ht : g.todo = act :: rest) (hyes : Q (.ok true) (inCoord e r loaded (g.at' .closing)))
    (hno : Q (.ok false) (inCoord e r loaded { g with point := .pauseClear act, todo := rest })) :
    wp (flow cfg) (WorkerLoop.checkControl (Proc.db (.pauseCheck r))) Q (inCoord e r loaded g) := by
  simp only [WorkerLoop.checkControl, bind_eq, wp_bind, wp_attempt]
  refine (wp_db cfg).2 ⟨⟨loaded, g, rfl, hp, by simp [ht]⟩, fun b => ?_, fun x => ?_⟩
  · cases b
    · simpa [nextDb, ht, Phase.at'] using hno
    · simpa [nextDb, ht, Phase.at'] using hyes
  · simpa [nextDb, ht, Phase.at'] using hno

/-- `stop_check`, likewise. -/
theorem stopCheck_wp {Q : Except PyExc Bool → Phase → Prop} (hp : g.point = .pauseClear act)
    (hyes : Q (.ok true) (inCoord e r loaded (g.at' .closing)))
    (hno : Q (.ok false) (inCoord e r loaded (g.at' (.stopClear act)))) :
    wp (flow cfg) (WorkerLoop.checkControl (Proc.db (.stopCheck r))) Q (inCoord e r loaded g) := by
  simp only [WorkerLoop.checkControl, bind_eq, wp_bind, wp_attempt]
  refine (wp_db cfg).2 ⟨⟨loaded, g, act, rfl, hp⟩, fun b => ?_, fun x => ?_⟩
  · cases b
    · simpa [nextDb, hp, Phase.at'] using hno
    · simpa [nextDb, hp, Phase.at'] using hyes
  · simpa [nextDb, hp, Phase.at'] using hno

/-- `can_continue` reads the clock and names the limit, or lets the action through. -/
theorem canContinue_wp {Q : Except PyExc (Bool × CoordState) → Phase → Prop}
    (hp : g.point = .stopClear act) (hc : g.counters = s.counters)
    (hgo : ∀ now, g.counters.refusal cfg.budget now = none →
      Q (.ok (true, s)) (inCoord e r loaded (g.budgeted cfg.budget act now)))
    (hcut : ∀ now etype payload, g.counters.refusal cfg.budget now = some etype →
      Q (.ok (false, s.emit etype payload)) (inCoord e r loaded (g.budgeted cfg.budget act now)))
    (hraised : ∀ x, Q (.error (.lib x)) (inCoord e r loaded (g.at' .fatal))) :
    wp (flow cfg) (RunCoordinator.canContinue (WorkerLoop.collaborators cfg r task) s) Q
      (inCoord e r loaded g) := by
  simp only [RunCoordinator.canContinue, WorkerLoop.collaborators, bind_eq, wp_bind, pure_eq,
    wp_ret, bindPost_ok, Bool.false_eq_true, ite_false]
  refine (wp_ext cfg).2 ⟨⟨r, loaded, g, rfl, act, hp⟩, fun now => ?_, fun x => ?_⟩
  · simp only [bindPost_ok, nextExt, hp, Phase.at', ← hc]
    cases href : g.counters.refusal cfg.budget now with
    | none => exact hgo now href
    | some etype => exact hcut now etype _ href
  · exact hraised x

/-- **One round of the loop.** -/
theorem runAction_wp (hg : Looping (act :: rest) s g) (hQ : RoundPost rest e r loaded Q) :
    wp (flow cfg) (RunCoordinator.runAction (WorkerLoop.collaborators cfg r task) act s) Q
      (inCoord e r loaded g) := by
  simp only [RunCoordinator.runAction, bind_eq, wp_bind]
  refine pauseCheck_wp cfg hg.point hg.todo ?_ ?_
  · exact hQ.stop _ _ ⟨.inr rfl, hg.failed, hg.ran,
      .inl ⟨by simp [CoordState.emit], hg.awaiting⟩⟩
  simp only [bindPost_ok, Bool.false_eq_true, ite_false, wp_bind]
  refine stopCheck_wp cfg rfl ?_ ?_
  · exact hQ.stop _ _ ⟨.inr rfl, hg.failed, hg.ran,
      .inl ⟨by simp [CoordState.emit], hg.awaiting⟩⟩
  simp only [bindPost_ok, Bool.false_eq_true, ite_false, wp_bind]
  refine canContinue_wp cfg rfl hg.counters (fun now href => ?_) (fun now etype payload href => ?_)
    fun x => ?_
  · simp only [bindPost_ok, Bool.not_true, Bool.false_eq_true, ite_false, Coord.budgeted, href]
    exact decideAction_wp cfg ⟨rfl, by simp [Coord.at', hg.counters], hg.failed, hg.ran, hg.split,
      hg.awaiting⟩ rfl hQ
  · simp only [bindPost_ok, Bool.not_false, ite_true, pure_eq, wp_ret, Coord.budgeted, href]
    exact hQ.stop _ _ ⟨.inr rfl, hg.failed, hg.ran,
      .inr (.inr ⟨hg.status, hg.awaiting, fun _ => .inr rfl⟩)⟩
  · exact hQ.raised _ _ (.inr ⟨rfl, rfl, hg.awaiting⟩)

/-- **The loop**, by induction on the actions still to come. -/
theorem runActions_wp {acts : List (Option Action)} {Q : Except PyExc CoordState → Phase → Prop}
    (hg : Looping (acts.filterMap id) s g)
    (hleft : ∀ s g, Left s g → Q (.ok s) (inCoord e r loaded g))
    (hraised : ∀ x g, Raised x g → Q (.error x) (inCoord e r loaded g)) :
    wp (flow cfg) (RunCoordinator.runActions (WorkerLoop.collaborators cfg r task) acts s) Q
      (inCoord e r loaded g) := by
  induction acts generalizing s g with
  | nil =>
    exact hleft _ _ ⟨.inl hg.point, hg.failed, hg.ran,
      .inr (.inr ⟨hg.status, hg.awaiting, fun h => .inl (by simpa using hg.split h)⟩)⟩
  | cons act acts ih =>
    cases act with
    | none => exact ih (by simpa using hg)
    | some act =>
      simp only [RunCoordinator.runActions, bind_eq, wp_bind]
      exact runAction_wp cfg (by simpa using hg) ⟨fun s g h => ih h, hleft, hraised⟩

/-- Events after the loop leave nothing but the END of the run to come. -/
theorem sink_after {etype : EventType} {payload : Dict} {Q : Except PyExc Unit → Phase → Prop}
    (he : etype = .verify ∨ etype = .«end») (hp : g.point = .looping ∨ g.point = .closing)
    (hQ : Q (.ok ()) (inCoord e r loaded (g.at' .closing))) :
    wp (flow cfg) (WorkerLoop.sink r etype payload) Q (inCoord e r loaded g) := by
  refine sink_plain cfg (by rcases he with rfl | rfl <;> rfl) (by rcases he with rfl | rfl <;> rfl)
    (by rcases hp with hp | hp <;> simpa [hp, mayAppend] using he) fun fine => ?_
  have hg : appended cfg g etype fine = g.at' .closing := by
    obtain ⟨point⟩ := g
    rcases hp with hp | hp <;> cases hp <;> rfl
  rwa [hg]

/-- The status chain after the loop; it may verify, and it leaves `PERSISTING` for success. -/
theorem settleStatus_wp {Q : Except PyExc CoordState → Phase → Prop} (hg : Left s g)
    (hQ : ∀ s' g', (g'.point = .looping ∨ g'.point = .closing) →
      g'.Lands (if s'.status = .persisting then .completed else s'.status) →
      Q (.ok s') (inCoord e r loaded g')) :
    wp (flow cfg) (RunCoordinator.settleStatus (WorkerLoop.collaborators cfg r task) s) Q
      (inCoord e r loaded g) := by
  simp only [RunCoordinator.settleStatus, bind_eq, wp_bind, WorkerLoop.collaborators, pure_eq,
    wp_ret, bindPost_ok, Bool.false_eq_true, ite_false]
  rcases hg.landed with ⟨hs, haw⟩ | ⟨hs, haw⟩ | ⟨hs, haw, hdone⟩
  · have hu : undecided s.status = false := by
      simp only [List.mem_cons, List.not_mem_nil, or_false] at hs
      rcases hs with hs | hs | hs <;> rw [hs] <;> rfl
    simp only [hu, Bool.not_false, ite_true, wp_ret]
    refine hQ _ _ hg.point ?_
    simp only [List.mem_cons, List.not_mem_nil, or_false] at hs
    rcases hs with hs | hs | hs <;> exact ⟨by simp [hs], by simp [hs, haw], by simp [hs]⟩
  · simp only [hs, undecided, Bool.not_false, ite_true, wp_ret]
    exact hQ _ _ hg.point ⟨by simp [hs], by simp [hs, haw], by simp [hs]⟩
  · simp only [hs, Bool.not_true, Bool.false_eq_true, ite_false]
    cases herr : s.hadError with
    | true =>
      simp only [ite_true, wp_ret]
      exact hQ _ _ hg.point ⟨by simp [CoordState.emit], by simp [CoordState.emit, haw],
        by simp [CoordState.emit]⟩
    | false =>
      simp only [Bool.false_eq_true, ite_false, wp_bind]
      refine sink_after cfg (.inl rfl) hg.point ?_
      have hfailed : g.failed = false := hg.failed.trans herr
      simp only [bindPost_ok, wp_ret]
      refine hQ _ _ (.inr rfl) ?_
      by_cases hv : defaultVerify s.executed = true
      · have hran : s.executed.any (·.ok) = true := by
          simp only [defaultVerify, Bool.and_eq_true] at hv
          exact hv.2.1
        simp only [hv, ite_true]
        exact ⟨by simp, by simp [Coord.at', haw], fun _ => ⟨hfailed, hg.ran hran, hdone hfailed⟩⟩
      · simp only [hv]
        exact ⟨by simp, by simp [Coord.at', haw], by simp⟩

theorem finalize_wp {Q : Except PyExc CoordState → Phase → Prop} (hg : Left s g)
    (hQ : ∀ s' g', g'.point = .closing → g'.Lands s'.status → Q (.ok s') (inCoord e r loaded g')) :
    wp (flow cfg) (RunCoordinator.finalize (WorkerLoop.collaborators cfg r task) s) Q
      (inCoord e r loaded g) := by
  simp only [RunCoordinator.finalize, bind_eq, wp_bind]
  refine settleStatus_wp cfg hg fun s' g' hp hlands => ?_
  simp only [bindPost_ok, wp_bind]
  refine sink_after cfg (.inr rfl) hp ?_
  refine hQ _ _ rfl ⟨?_, ?_, ?_⟩ <;> split <;> rename_i h <;> simp only [h] at hlands
  all_goals first
    | exact hlands.reportable
    | exact hlands.waiting
    | exact hlands.completed

/-- **The coordinator's run**, from its first reading of the clock. -/
theorem run_wp {Q : Except PyExc CoordState → Phase → Prop}
    (hQ : ∀ s g, g.point = .closing → g.Lands s.status → Q (.ok s) (inCoord e r loaded g))
    (hraised : ∀ x g, Raised x g → Q (.error x) (inCoord e r loaded g)) :
    wp (flow cfg) (RunCoordinator.run (WorkerLoop.collaborators cfg r task) (.uuid r)) Q
      (inCoord e r loaded {}) := by
  simp only [RunCoordinator.run, bind_eq, wp_bind]
  refine (wp_ext cfg).2 ⟨⟨r, loaded, {}, rfl, rfl⟩, fun now => ?_, fun x => ?_⟩
  swap
  · exact hraised _ _ (.inr ⟨rfl, rfl, rfl⟩)
  simp only [bindPost_ok, nextExt, Phase.at', wp_bind]
  refine sink_plain cfg rfl rfl rfl fun _ => ?_
  simp only [bindPost_ok, appended, wp_bind]
  refine (wp_ext cfg).2 ⟨⟨r, loaded, _, rfl, rfl⟩, fun plan => ?_, fun x => ?_⟩
  swap
  · exact hraised _ _ (.inr ⟨rfl, rfl, rfl⟩)
  simp only [bindPost_ok, nextExt, Phase.at', wp_bind]
  refine sink_row cfg rfl rfl (.inl rfl) (fun m => hraised _ _ (.inl ⟨rfl, rfl⟩)) ?_
  refine (wp_db cfg).2 ⟨⟨loaded, _, rfl, rfl⟩, fun _ => ?_, fun _ m => ?_⟩
  swap
  · exact hraised _ _ (.inl ⟨rfl, rfl⟩)
  simp only [bindPost_ok, nextDb, wp_bind]
  refine sink_plain cfg rfl rfl (.inr rfl) fun _ => ?_
  simp only [bindPost_ok, wp_bind]
  refine runActions_wp cfg ⟨rfl, rfl, rfl, rfl, (fun h => nomatch (show false = true from h)),
    fun _ => rfl, rfl, rfl⟩ (fun s g hg => ?_) hraised
  exact finalize_wp cfg hg hQ

end loop

/-! ## A worker's handling of a run -/

section handling

variable {e : Option EntryId} {r : RunId} {loaded : Run} {task : Task}

/-- What a program that deals with a claimed run ends in: everything is written, or an exception
has dropped the entry. -/
structure Handled (e : Option EntryId) (Q : Except PyExc Unit → Phase → Prop) : Prop where
  done : Q (.ok ()) ⟨e, .done⟩
  dropped : ∀ x, Q (.error x) .dropped

variable {Q : Except PyExc Unit → Phase → Prop}

theorem finalCommit_wp {g : Coord} {o : Db.Outcome} (hlands : g.Lands o.status)
    (hQ : Handled e Q) :
    wp (flow cfg) (Proc.db (.finalCommit r loaded o)) Q ⟨e, .returned r loaded g⟩ :=
  (wp_db cfg).2 ⟨⟨g, rfl, hlands⟩, fun _ => hQ.done, fun _ => hQ.dropped _⟩

/-- **The coordinator under its heartbeat**, to the final commit. -/
theorem runCoordinator_wp (hQ : Handled e Q) :
    wp (flow cfg) (WorkerLoop.runCoordinator cfg r loaded task) Q
      ⟨e, .coordinating r loaded {}⟩ := by
  simp only [WorkerLoop.runCoordinator, bind_eq, wp_bind]
  refine (wp_ext cfg).2 ⟨⟨loaded, rfl⟩, fun _ => ?_, fun _ => hQ.dropped _⟩
  simp only [bindPost_ok, wp_bind, wp_finally, wp_tryCatch, nextExt]
  have hstop : ∀ {g : Coord} {o : Db.Outcome}, (g.point = .closing ∨ g.point = .fatal) →
      g.Lands o.status → wp (flow cfg) (Proc.ext .stopHeartbeat)
        (bindPost (flow cfg) (fun _ => Prog.ofExcept (.ok o))
          (bindPost (flow cfg) (fun o => Proc.db (.finalCommit r loaded o)) Q))
        (inCoord e r loaded g) := by
    intro g o hp hlands
    refine (wp_ext cfg).2 ⟨⟨r, loaded, g, rfl, by tauto⟩, fun _ => ?_, fun _ => hQ.dropped _⟩
    have hnext : nextExt cfg (inCoord e r loaded g) .stopHeartbeat (.ok ()) =
        ⟨e, .returned r loaded g⟩ := by rcases hp with hp | hp <;> simp [nextExt, hp, Phase.at']
    rw [hnext]
    exact finalCommit_wp cfg hlands hQ
  have habort : ∀ {g : Coord} {x : PyExc}, g.point = .aborting →
      wp (flow cfg) (Proc.ext .stopHeartbeat)
        (bindPost (flow cfg) (fun _ => Prog.ofExcept (.error x))
          (bindPost (flow cfg) (fun o => Proc.db (.finalCommit r loaded o)) Q))
        (inCoord e r loaded g) := by
    intro g x hp
    refine (wp_ext cfg).2 ⟨⟨r, loaded, g, rfl, .inr (.inr hp)⟩, fun _ => ?_, fun _ => hQ.dropped _⟩
    have hnext : nextExt cfg (inCoord e r loaded g) .stopHeartbeat (.ok ()) = .dropped := by
      simp [nextExt, hp]
    rw [hnext]
    exact hQ.dropped _
  refine run_wp cfg (fun s g hp hlands => hstop (o := WorkerLoop.outcome s) (.inl hp) hlands)
    fun x g hx => ?_
  rcases hx with ⟨hcrit, hp⟩ | ⟨hcrit, hp, haw⟩
  · simp only [bindPost_error, catchPost_error, WorkerLoop.coordinatorFailed, hcrit, ite_true,
      throw_eq, bind_eq, raise_bind, wp_raise]
    exact habort hp
  · simp only [bindPost_error, catchPost_error, WorkerLoop.coordinatorFailed, hcrit,
      Bool.false_eq_true, ite_false, bind_eq, wp_bind]
    refine (wp_db cfg).2 ⟨⟨rfl, by simp [hp, mayAppend]⟩, fun _ => ?_, fun _ => habort ?_⟩
    · refine hstop (.inr ?_) ⟨by simp, by simp [appended, hp, Coord.at', haw], by simp⟩
      simp [appended, hp, Coord.at']
    · simp [appended, hp, Coord.at']

/-- The call of a consumed approval: the error path covers the call, its event and its commit. -/
theorem callApproved_wp {a : ApprovalId} {payload : ActionPayload} (hQ : Handled e Q) :
    wp (flow cfg) (WorkerLoop.callApproved cfg r a payload) Q ⟨e, .consumed r a payload⟩ := by
  simp only [WorkerLoop.callApproved, wp_tryCatch, bind_eq, wp_bind]
  have hfail : ∀ x : PyExc, wp (flow cfg)
      (Prog.bind (Proc.db (.appendEvent r .toolError [("tool", .str payload.tool),
          ("error", .str x.name), ("approval_id", .uuid a)]))
        fun _ => Proc.db (.continuationFailed r a [("error", .str x.name),
          ("detail", .str (clip 500 (cfg.redact x.message)))])) Q ⟨e, .callFailed r a⟩ := by
    intro x
    rw [wp_bind]
    refine (wp_db cfg).2 ⟨rfl, fun _ => ?_, fun _ => hQ.dropped _⟩
    exact (wp_db cfg).2 ⟨rfl, fun _ => hQ.done, fun _ => hQ.dropped _⟩
  refine (wp_ext cfg).2 ⟨⟨payload, rfl, rfl, rfl⟩, fun result => ?_, fun x => hfail _⟩
  simp only [bindPost_ok, wp_bind]
  refine (wp_db cfg).2 ⟨rfl, fun _ => ?_, fun x => hfail _⟩
  exact (wp_db cfg).2 ⟨⟨payload, rfl, rfl, rfl⟩, fun _ => hQ.done, fun x => hfail _⟩

/-- **The continuation**: it deals with the claim, or finds no approval to go on with. -/
theorem tryContinuation_wp {Q : Except PyExc Bool → Phase → Prop}
    (hnone : Q (.ok false) ⟨e, .coordinating r loaded {}⟩)
    (hdone : Q (.ok true) ⟨e, .done⟩) (hdropped : ∀ x, Q (.error x) .dropped) :
    wp (flow cfg) (WorkerLoop.tryContinuation cfg r) Q ⟨e, .claimed r loaded⟩ := by
  simp only [WorkerLoop.tryContinuation, bind_eq, wp_bind]
  refine (wp_db cfg).2 ⟨⟨loaded, rfl⟩, fun found => ?_, fun _ => hdropped _⟩
  cases found with
  | none => exact hnone
  | pendingExecution a =>
    simp only [bindPost_ok, wp_bind]
    refine (wp_db cfg).2 ⟨rfl, fun _ => ?_, fun _ => hdropped _⟩
    simp only [bindPost_ok, wp_bind]
    exact (wp_db cfg).2 ⟨rfl, fun _ => hdone, fun _ => hdropped _⟩
  | settled a etype reason =>
    simp only [bindPost_ok, wp_bind]
    exact (wp_db cfg).2 ⟨rfl, fun _ => hdone, fun _ => hdropped _⟩
  | refused a =>
    simp only [bindPost_ok, wp_bind]
    exact (wp_db cfg).2 ⟨rfl, fun _ => hdone, fun _ => hdropped _⟩
  | consumed a payload =>
    simp only [bindPost_ok, wp_bind]
    exact callApproved_wp cfg ⟨hdone, hdropped⟩

/-- **`_process_run`**, for an entry that names a run. -/
theorem processRun_wp {body : Body} {runId : Json} (hr : parseUuid runId = .ok r)
    (hbody : body.runId? = some r) (hQ : Handled e Q) :
    wp (flow cfg) (WorkerLoop.processRun cfg runId) Q ⟨e, .received body⟩ := by
  simp only [WorkerLoop.processRun, hr, Prog.ofExcept, bind_eq, ret_bind, wp_bind]
  refine (wp_db cfg).2 ⟨⟨body, rfl, hbody⟩, fun opened => ?_, fun _ => hQ.dropped _⟩
  cases opened with
  | ready loaded task =>
    simp only [bindPost_ok, wp_bind]
    refine (wp_db cfg).2 ⟨⟨loaded, rfl⟩, fun claimed => ?_, fun _ => hQ.dropped _⟩
    cases claimed with
    | false => exact hQ.done
    | true =>
      simp only [bindPost_ok, ite_true, wp_bind]
      refine tryContinuation_wp cfg ?_ hQ.done fun _ => hQ.dropped _
      exact runCoordinator_wp cfg hQ
  | missing => exact hQ.done
  | terminal => exact hQ.done
  | taskNotFound => exact hQ.done

end handling

/-! ## Entries -/

/-- Nothing is held: the worker is idle, or what it received names no run. -/
def Phase.Free (g : Phase) : Prop :=
  g.stage = .idle ∨ ∃ body, g.stage = .received body ∧ body.runId? = none

/-- After an entry: the outcome does not matter, but an exception leaves nothing held. -/
def Freed (res : Except PyExc Unit) (g : Phase) : Prop := ∀ x, res = .error x → g.Free

section entries

variable {e : EntryId} {body : Body}

theorem ackEntry_wp {Q : Except PyExc Unit → Phase → Prop} {g : Phase} (hentry : g.entry = some e)
    (hstage : g.stage = .done ∨ ∃ body, g.stage = .received body ∧ body.runId? = none)
    (hQ : Q (.ok ()) .dropped) : wp (flow cfg) (WorkerLoop.ackEntry e) Q g := by
  rw [WorkerLoop.ackEntry, wp_swallow]
  exact (wp_redis cfg).2 ⟨⟨hentry, hstage⟩, fun _ => hQ, fun _ => hQ⟩

/-- What a payload names, as `_handle_entry` reads it. -/
theorem runId?_eq_none_of_error {payload : Json} {x : PyExc} (h : getRunId payload = .error x) :
    (Body.json payload).runId? = none := by
  simp [Body.runId?, h]

theorem runId?_eq_none_of_falsy {payload runId : Json} (h : getRunId payload = .ok runId)
    (hfalsy : runId.truthy = false) : (Body.json payload).runId? = none := by
  simp [Body.runId?, h, hfalsy]

theorem runId?_of_truthy {payload runId : Json} (h : getRunId payload = .ok runId)
    (htruthy : runId.truthy = true) :
    (Body.json payload).runId? = (parseUuid runId).toOption := by
  simp [Body.runId?, h, htruthy]

/-- `_process_run` on whatever a payload holds under `run_id`. -/
theorem processRun_received_wp {entry : Option EntryId} {payload runId : Json}
    {Q : Except PyExc Unit → Phase → Prop} (h : getRunId payload = .ok runId)
    (htruthy : runId.truthy = true) (hdone : Q (.ok ()) ⟨entry, .done⟩)
    (herr : ∀ x g, g.Free → Q (.error x) g) :
    wp (flow cfg) (WorkerLoop.processRun cfg runId) Q ⟨entry, .received (.json payload)⟩ := by
  have hid := runId?_of_truthy h htruthy
  cases hr : parseUuid runId with
  | error x =>
    simp only [WorkerLoop.processRun, hr, Prog.ofExcept, bind_eq, raise_bind, wp_raise]
    exact herr _ _ (.inr ⟨_, rfl, by rw [hid, hr]; rfl⟩)
  | ok r =>
    exact processRun_wp cfg hr (by rw [hid, hr]; rfl) ⟨hdone, fun x => herr _ _ (.inl rfl)⟩

/-- **`_handle_entry`.** -/
theorem handleEntry_wp :
    wp (flow cfg) (WorkerLoop.handleEntry cfg e body) Freed ⟨some e, .received body⟩ := by
  have hfreed : ∀ g, Freed (.ok ()) g := fun g x hx => by cases hx
  cases body with
  | missing => exact ackEntry_wp cfg rfl (.inr ⟨_, rfl, rfl⟩) (hfreed _)
  | notJson => exact ackEntry_wp cfg rfl (.inr ⟨_, rfl, rfl⟩) (hfreed _)
  | undecodable => exact fun x _ => .inr ⟨_, rfl, rfl⟩
  | json payload =>
    simp only [WorkerLoop.handleEntry, bind_eq]
    cases hid : getRunId payload with
    | error x =>
      exact fun x' _ => .inr ⟨_, rfl, runId?_eq_none_of_error hid⟩
    | ok runId =>
      simp only [Prog.ofExcept, ret_bind]
      cases htruthy : runId.truthy with
      | false =>
        exact ackEntry_wp cfg rfl (.inr ⟨_, rfl, runId?_eq_none_of_falsy hid htruthy⟩) (hfreed _)
      | true =>
        simp only [ite_true, wp_bind]
        refine processRun_received_wp cfg hid htruthy ?_ fun x g hg => fun _ _ => hg
        exact ackEntry_wp cfg rfl (.inl rfl) (hfreed _)

/-- **`_fallback_legacy_queue`.** -/
theorem fallbackLegacyQueue_wp {g : Phase} (hg : g.Free) :
    wp (flow cfg) (WorkerLoop.fallbackLegacyQueue cfg) Freed g := by
  have hfreed : ∀ g, Freed (.ok ()) g := fun g x hx => by cases hx
  simp only [WorkerLoop.fallbackLegacyQueue, bind_eq, wp_bind, wp_attempt]
  refine (wp_redis cfg).2 ⟨hg, fun popped => ?_, fun x => hfreed _⟩
  match popped with
  | none => exact hfreed _
  | some .missing => exact hfreed _
  | some .notJson => exact hfreed _
  | some .undecodable => exact fun x _ => .inr ⟨_, rfl, rfl⟩
  | some (.json payload) =>
    simp only [bindPost_ok, nextRedis]
    cases hid : getRunId payload with
    | error x => exact hfreed _
    | ok runId =>
      cases htruthy : runId.truthy with
      | false =>
        simp only [htruthy, Bool.false_eq_true, ite_false, pure_eq, wp_ret]
        exact hfreed _
      | true =>
        simp only [htruthy, ite_true]
        exact processRun_received_wp cfg hid htruthy (hfreed _) fun x g hg => fun _ _ => hg

/-- **`process_one`.** -/
theorem processOne_wp : wp (flow cfg) (WorkerLoop.processOne cfg) (fun _ _ => True) {} := by
  have hcatch : ∀ res g, Freed res g → catchPost (flow cfg)
      (fun _ => (WorkerLoop.fallbackLegacyQueue cfg).swallow) (fun _ _ => True) res g := by
    rintro (x | ⟨⟩) g hg
    · rw [catchPost_error, wp_swallow]
      exact wp_mono (fun _ _ _ => trivial) (fallbackLegacyQueue_wp cfg (hg x rfl))
    · trivial
  simp only [WorkerLoop.processOne, wp_tryCatch, WorkerLoop.takeEntry, bind_eq, wp_bind]
  refine (wp_redis cfg).2 ⟨rfl, fun found => ?_, fun x =>
    hcatch (.error (.lib x)) .dropped fun _ _ => .inl rfl⟩
  match found with
  | some (e, body) => exact wp_mono hcatch (handleEntry_wp cfg)
  | none =>
    simp only [bindPost_ok, wp_bind, wp_attempt]
    have hlegacy := wp_mono hcatch (fallbackLegacyQueue_wp cfg (g := {}) (.inl rfl))
    refine (wp_redis cfg).2 ⟨rfl, fun claimed => ?_, fun x => hlegacy⟩
    match claimed with
    | some (e, body) => exact wp_mono hcatch (handleEntry_wp cfg)
    | none => exact hlegacy

end entries

/-! ## The scheduler -/

section scheduler

/-- The rest of the messages that are due. -/
def dueRest (now : Time) (msgs : List (MessageId × OutboxMessage)) :
    List (MessageId × OutboxMessage) :=
  msgs.filter fun x => SchedulerLoop.due now x.2

theorem publishAll_wp {now : Time} {msgs : List (MessageId × OutboxMessage)}
    {attempts : List (MessageId × OutboxMessage × Db.Attempt)}
    {Q : Except PyExc (List (MessageId × OutboxMessage × Db.Attempt)) → Phase → Prop}
    (hQ : ∀ more, Q (.ok more) { stage := .publishing [] (attempts ++ more) }) :
    wp (flow cfg) (SchedulerLoop.publishAll now msgs) Q
      { stage := .publishing (dueRest now msgs) attempts } := by
  induction msgs generalizing attempts Q with
  | nil => simpa [SchedulerLoop.publishAll, dueRest] using hQ []
  | cons x msgs ih =>
    obtain ⟨i, m⟩ := x
    cases hdue : SchedulerLoop.due now m with
    | false =>
      simp only [SchedulerLoop.publishAll, hdue, Bool.false_eq_true, ite_false, dueRest]
      rw [List.filter_cons_of_neg (by simp [hdue])]
      exact ih hQ
    | true =>
      simp only [SchedulerLoop.publishAll, SchedulerLoop.publish, hdue, ite_true, bind_eq, wp_bind,
        wp_attempt, dueRest]
      rw [List.filter_cons_of_pos (by simp [hdue])]
      refine (wp_redis cfg).2 ⟨.inl ⟨i, m, _, attempts, rfl, rfl, rfl⟩, fun sid => ?_,
        fun x => ?_⟩
      · simp only [bindPost_ok, pure_eq, wp_ret, wp_bind]
        exact ih fun more => by simpa using hQ _
      · simp only [bindPost_ok, pure_eq, wp_ret, wp_bind]
        exact ih fun more => by simpa [lastError, PyExc.name, PyExc.message] using hQ _

theorem publishOutbox_wp {Q : Except PyExc Unit → Phase → Prop}
    (hQ : ∀ attempts, Q (.ok ()) { stage := .publishing [] attempts })
    (hdropped : ∀ x, Q (.error x) .dropped) :
    wp (flow cfg) SchedulerLoop.publishOutbox Q { stage := .scheduling } := by
  simp only [SchedulerLoop.publishOutbox, bind_eq, wp_bind]
  refine (wp_ext cfg).2 ⟨trivial, fun now => ?_, fun _ => hdropped _⟩
  simp only [bindPost_ok, wp_bind]
  refine (wp_db cfg).2 ⟨⟨now, rfl⟩, fun msgs => ?_, fun _ => hdropped _⟩
  simp only [bindPost_ok, wp_bind]
  refine publishAll_wp cfg fun attempts => ?_
  simp only [bindPost_ok, List.nil_append]
  split
  · exact (wp_db cfg).2 ⟨rfl, fun _ => hQ [], fun _ => hdropped _⟩
  · exact hQ attempts

theorem selectStuck_wp {cutoff : Time} {rows picked : List (RunId × Run)}
    {Q : Except PyExc (List (RunId × Run)) → Phase → Prop}
    (hQ : ∀ more, Q (.ok more) { stage := .recovering cutoff [] (picked ++ more) })
    (hdropped : ∀ x, Q (.error x) .dropped) :
    wp (flow cfg) (SchedulerLoop.selectStuck cutoff rows) Q
      { stage := .recovering cutoff rows picked } := by
  induction rows generalizing picked Q with
  | nil => simpa [SchedulerLoop.selectStuck] using hQ []
  | cons x rows ih =>
    obtain ⟨r, run⟩ := x
    simp only [SchedulerLoop.selectStuck, bind_eq, wp_bind]
    refine (wp_ext cfg).2 ⟨trivial, fun now => ?_, fun _ => hdropped _⟩
    have hrest : Db.stuck cutoff now run = true → wp (flow cfg)
        ((SchedulerLoop.selectStuck cutoff rows).bind fun rest => pure ((r, run) :: rest)) Q
        { stage := .recovering cutoff rows (picked ++ [(r, run)]) } := by
      intro _
      rw [wp_bind]
      exact ih (fun more => by simpa using hQ _) hdropped
    cases hstuck : Db.stuck cutoff now run with
    | false =>
      simp only [bindPost_ok, nextExt, hstuck, Bool.false_eq_true, ite_false]
      exact ih hQ hdropped
    | true =>
      simp only [bindPost_ok, nextExt, hstuck, ite_true]
      split
      · rw [wp_bind, wp_swallow]
        exact (wp_redis cfg).2 ⟨⟨cutoff, rows, _, rfl⟩, fun _ => hrest hstuck, fun _ => hrest hstuck⟩
      · exact hrest hstuck

/-- A loaded source is judged, or skipped. -/
theorem selectDue_wp {rows : List (SourceId × Source)} {accesses : List Db.Access}
    {Q : Except PyExc (List Db.Access) → Phase → Prop}
    (hQ : ∀ more, Q (.ok more) { stage := .judging ⟨[], .backoff, accesses ++ more⟩ })
    (hdropped : ∀ x, Q (.error x) .dropped) :
    wp (flow cfg) (SchedulerLoop.selectDue rows) Q
      { stage := .judging ⟨rows, .backoff, accesses⟩ } := by
  induction rows generalizing accesses Q with
  | nil => simpa [SchedulerLoop.selectDue] using hQ []
  | cons x rows ih =>
    obtain ⟨i, src⟩ := x
    simp only [SchedulerLoop.selectDue, SchedulerLoop.judge, bind_eq, wp_bind]
    refine (wp_ext cfg).2 ⟨trivial, fun now => ?_, fun _ => hdropped _⟩
    change wp (flow cfg) _ _ { stage := .judging (judged i src rows accesses now .backoff) }
    by_cases hback : src.backoffUntil.any (now < ·) = true
    · simp only [judged, if_pos hback]
      exact ih hQ hdropped
    simp only [judged, if_neg hback, wp_bind]
    refine (wp_ext cfg).2 ⟨trivial, fun now => ?_, fun _ => hdropped _⟩
    change wp (flow cfg) _ _ { stage := .judging (judged i src rows accesses now .stale) }
    by_cases hstale : (src.lastAccessedAt.all fun la => Db.hourMs < now - la) = true
    swap
    · simp only [judged, if_neg hstale]
      exact ih hQ hdropped
    simp only [judged, if_pos hstale, wp_bind]
    refine (wp_ext cfg).2 ⟨trivial, fun now => ?_, fun _ => hdropped _⟩
    simp only [bindPost_ok, wp_bind]
    refine (wp_db cfg).2 ⟨⟨i, src, rows, _, accesses, rfl, rfl⟩, fun found => ?_,
      fun _ => hdropped _⟩
    simp only [bindPost_ok, wp_bind]
    refine (wp_ext cfg).2 ⟨trivial, fun now => ?_, fun _ => hdropped _⟩
    simp only [bindPost_ok, pure_eq, wp_ret, wp_bind]
    exact ih (fun more => by simpa using hQ _) hdropped

/-- **`check_sources`.** -/
theorem checkSources_wp :
    wp (flow cfg) SchedulerLoop.checkSources (fun _ _ => True) { stage := .scheduling } := by
  simp only [SchedulerLoop.checkSources, bind_eq, wp_bind]
  refine publishOutbox_wp cfg (fun attempts => ?_) fun _ => trivial
  simp only [bindPost_ok, SchedulerLoop.recoverStuckRuns, bind_eq, wp_bind]
  refine (wp_ext cfg).2 ⟨trivial, fun now => ?_, fun _ => trivial⟩
  simp only [bindPost_ok, wp_bind]
  refine (wp_db cfg).2 ⟨⟨_, rfl⟩, fun rows => ?_, fun _ => trivial⟩
  simp only [bindPost_ok, wp_bind]
  refine selectStuck_wp cfg (fun more => ?_) fun _ => trivial
  simp only [bindPost_ok, List.nil_append]
  refine (wp_db cfg).2 ⟨⟨_, rfl⟩, fun _ => ?_, fun _ => trivial⟩
  simp only [bindPost_ok, SchedulerLoop.pollSources, bind_eq, wp_bind]
  refine (wp_db cfg).2 ⟨rfl, fun sources => ?_, fun _ => trivial⟩
  simp only [bindPost_ok, wp_bind]
  refine selectDue_wp cfg (fun more => ?_) fun _ => trivial
  exact (wp_db cfg).2 ⟨rfl, fun _ => trivial, fun _ => trivial⟩

end scheduler

/-! ## The operators -/

section operators

/-- Where an operator's request stands all the time, its own enqueueing apart. -/
abbrev atOperator : Phase := { stage := .operator }

theorem reply_wp {r : Db.Reply} :
    wp (flow cfg) (Proc.ext (.reply r)) (fun _ _ => True) atOperator :=
  (wp_ext cfg).2 ⟨rfl, fun _ => trivial, fun _ => trivial⟩

/-- The direct `XADD`, then the message to the chat. -/
theorem enqueue_wp {kind : String} {message : List Db.Part} {r : RunId} :
    wp (flow cfg) ((Telegram.enqueue kind r).bind fun _ => Telegram.reply message)
      (fun _ _ => True) { stage := .enqueuing r } := by
  rw [wp_bind, Telegram.enqueue, wp_swallow]
  exact (wp_redis cfg).2 ⟨.inr ⟨r, rfl, rfl⟩, fun _ => reply_wp cfg, fun _ => reply_wp cfg⟩

theorem setControl_wp {request : Control} {runId : Text} :
    wp (flow cfg) (Telegram.setControl request runId) (fun _ _ => True) atOperator := by
  unfold Telegram.setControl
  split
  · exact reply_wp cfg
  · rw [bind_eq, wp_bind]
    refine (wp_db cfg).2 ⟨rfl, fun loaded => ?_, fun _ => trivial⟩
    cases loaded with
    | none => exact reply_wp cfg
    | some run =>
      simp only [bindPost_ok, bind_eq, wp_bind]
      exact (wp_db cfg).2 ⟨rfl, fun _ => reply_wp cfg, fun _ => trivial⟩

theorem telegramDecide_wp {approvalId : Text} {decision : String} {user : Option Nat} :
    wp (flow cfg) (Telegram.decideApproval approvalId decision user) (fun _ _ => True)
      atOperator := by
  unfold Telegram.decideApproval
  split
  · exact reply_wp cfg
  · rw [bind_eq, wp_bind, wp_attempt]
    refine (wp_db cfg).2 ⟨rfl, fun _ => reply_wp cfg, fun x => ?_⟩
    simp only [bindPost_ok]
    split
    · exact reply_wp cfg
    · split <;> exact reply_wp cfg

/-- **Every request's program keeps to the protocol**, from where the request starts. -/
theorem program_conforms (q : Req) :
    wp (flow cfg) (q.program cfg) (fun _ _ => True) q.phase := by
  cases q with
  | processOne => exact processOne_wp cfg
  | checkSources => exact checkSources_wp cfg
  | createTask t hex =>
    simp only [Req.program, Req.phase, Api.createTask, bind_eq, wp_bind]
    exact (wp_db cfg).2 ⟨rfl, fun _ => reply_wp cfg, fun _ => trivial⟩
  | controlRun runId action =>
    simp only [Req.program, Req.phase, Api.controlRun]
    split
    · exact reply_wp cfg
    · split
      · exact reply_wp cfg
      · rw [bind_eq, wp_bind]
        refine (wp_db cfg).2 ⟨rfl, fun loaded => ?_, fun _ => trivial⟩
        cases loaded with
        | none => exact reply_wp cfg
        | some run =>
          simp only [bindPost_ok]
          split
          · exact reply_wp cfg
          · rw [bind_eq, wp_bind]
            exact (wp_db cfg).2 ⟨rfl, fun _ => reply_wp cfg, fun _ => trivial⟩
  | retryRun runId rawKey =>
    simp only [Req.program, Req.phase, Api.retryRun]
    split
    · exact reply_wp cfg
    · rw [bind_eq, wp_bind, wp_attempt]
      refine (wp_db cfg).2 ⟨rfl, fun _ => reply_wp cfg, fun x => ?_⟩
      simp only [bindPost_ok]
      split
      · exact reply_wp cfg
      · trivial
  | decideApproval pathId bodyId decision user =>
    simp only [Req.program, Req.phase, Api.decideApproval]
    split
    · exact reply_wp cfg
    · rw [bind_eq, wp_bind, wp_attempt]
      refine (wp_db cfg).2 ⟨rfl, fun _ => reply_wp cfg, fun x => ?_⟩
      simp only [bindPost_ok]
      split
      · exact reply_wp cfg
      · trivial
  | cmdAsk prompt =>
    simp only [Req.program, Req.phase, Telegram.cmdAsk]
    split
    · exact reply_wp cfg
    · rw [bind_eq, wp_bind]
      exact (wp_db cfg).2 ⟨rfl, fun _ => enqueue_wp cfg, fun _ => trivial⟩
  | cmdTask raw =>
    simp only [Req.program, Req.phase, Telegram.cmdTask]
    split
    · exact reply_wp cfg
    · split
      · exact reply_wp cfg
      · rw [bind_eq, wp_bind]
        exact (wp_db cfg).2 ⟨rfl, fun _ => enqueue_wp cfg, fun _ => trivial⟩
  | cmdPause runId => exact setControl_wp cfg
  | cmdStop runId => exact setControl_wp cfg
  | cmdResume runId =>
    simp only [Req.program, Req.phase, Telegram.cmdResume]
    split
    · exact reply_wp cfg
    · rw [bind_eq, wp_bind]
      refine (wp_db cfg).2 ⟨rfl, fun loaded => ?_, fun _ => trivial⟩
      cases loaded with
      | none => exact reply_wp cfg
      | some run =>
        simp only [bindPost_ok]
        split
        · exact reply_wp cfg
        · next hres =>
          rw [bind_eq, wp_bind]
          exact (wp_db cfg).2 ⟨⟨rfl, by simpa using hres⟩, fun _ => enqueue_wp cfg, fun _ => trivial⟩
  | cmdApprove approvalId user => exact telegramDecide_wp cfg
  | cmdReject approvalId user => exact telegramDecide_wp cfg

end operators

end Observatory
