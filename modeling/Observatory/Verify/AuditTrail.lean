import Observatory.Effect.Protocol
import Observatory.Model.Coordinator

/-!
# The audit trail

`emit` records an event in the coordinator, the sink is handed the events that are persisted, and
the two are called side by side.  The coordinator is run against collaborators that answer as they
like, with a sink that never fails; an observer (`Watch`) follows the answers and tells which of
them the coordinator takes a decision on that it only emits (`Watch.silences`): a pause, a stop, a
limit, a DENY, an open breaker, and a tool error that decides the verification.

`Trail` is the invariant: what was emitted is what was handed over, or more was emitted.
-/

namespace Observatory

open Effect Effect.Prog

namespace Audit

/-! ## Collaborators that answer -/

/-- What the coordinator asks of its collaborators. -/
inductive CoordOp where
  | execute (tool : String) (args : Dict)
  | makePlan
  | eventSink (etype : EventType) (payload : Dict)
  | pauseCheck
  | stopCheck
  | monotonic (reading : Reading)
  | flags

namespace CoordOp

abbrev Ans : CoordOp → Type
  | execute .. => Json
  | makePlan => Plan
  | eventSink .. => Unit
  | pauseCheck => Bool
  | stopCheck => Bool
  | monotonic _ => Seconds
  | flags => Bool × Bool

end CoordOp

abbrev Asked : Sig := ⟨CoordOp, CoordOp.Ans, PyExc⟩

def ask (o : CoordOp) : Prog Asked PyExc o.Ans := call (S := Asked) id o

/-- What decides a run besides the answers. -/
structure Given where
  policy : PolicyEngine
  verify : List Executed → Except PyExc Bool
  budget : RunBudget
  segments : Json

/-- Collaborators that answer as they like.  The sink never fails. -/
def Given.collaborators (given : Given) : Collaborators Asked where
  execute tool args := ask (.execute tool args)
  makePlan := ask .makePlan
  eventSink etype payload := .op (.eventSink etype payload) fun _ => .ret ()
  pauseCheck := ask .pauseCheck
  stopCheck := ask .stopCheck
  monotonic reading := ask (.monotonic reading)
  flags := ask .flags
  policy := given.policy
  verify := given.verify
  budget := given.budget
  segments := given.segments

/-- The types of the events handed to the sink. -/
def sunk (t : List (Performed Asked)) : List EventType :=
  t.filterMap fun e =>
    match e.op with
    | .eventSink etype _ => some etype
    | _ => none

/-! ## The observer -/

/-- What the answers so far amount to. -/
structure Watch where
  counters : Counters := {}
  breaker : CircuitBreaker := fun _ => []
  /-- the actions that have not been looked at -/
  todo : List Action := []
  /-- the tool that was called last -/
  tool : String := ""
  /-- the next reading of the flags is that of `can_continue` -/
  looking : Bool := false
  /-- a call has failed -/
  failed : Bool := false
  /-- the last action needs an approval -/
  waiting : Bool := false
  sunk : List EventType := []
  silent : Bool := false

namespace Watch

variable (given : Given)

/-- What the policy says about the action that is next. -/
def decision (g : Watch) : Option Decision :=
  g.todo.head?.map fun act => (given.policy.decide act.tool).decision

/-- The coordinator decides on this answer without a word to the sink. -/
def silences (g : Watch) : (o : CoordOp) → Asked.Result o → Bool
  | .pauseCheck, .ok paused => paused
  | .stopCheck, .ok stopped => stopped
  | .flags, .ok (kill, pause) =>
    if g.looking then !kill && pause else g.failed && !g.waiting && !kill && !pause
  | .monotonic .budget, .ok now =>
    (g.counters.refusal given.budget now).isSome || decide (g.decision given = some .deny)
  | .monotonic .breaker, .ok now => (g.breaker.recordFailure g.tool now).2
  | _, _ => false

/-- The rest of what an answer changes. -/
def follow (g : Watch) : (o : CoordOp) → Asked.Result o → Watch
  | .makePlan, .ok plan =>
    { g with todo := plan.steps.filterMap id, counters := g.counters.addUsage plan.usage }
  | .eventSink etype _, _ => { g with sunk := g.sunk ++ [etype] }
  | .stopCheck, .ok stopped => { g with looking := !stopped }
  | .flags, _ => { g with looking := false }
  | .monotonic .started, .ok now => { g with counters := { g.counters with startedAt := some now } }
  | .monotonic .budget, .ok _ =>
    { g with
      counters := { g.counters with iteration := g.counters.iteration + 1 }
      waiting := decide (g.decision given = some .requireApproval)
      todo := g.todo.tail }
  | .monotonic .breaker, .ok now => { g with breaker := (g.breaker.recordFailure g.tool now).1 }
  | .execute tool _, .ok _ =>
    { g with
      counters := { g.counters with toolCallsCount := g.counters.toolCallsCount + 1 }
      breaker := g.breaker.reset tool }
  | .execute tool _, .error _ => { g with failed := true, tool }
  | _, _ => g

def next (g : Watch) (o : CoordOp) (res : Asked.Result o) : Watch :=
  { g.follow given o res with silent := g.silent || g.silences given o res }

/-- The observer as an automaton that allows everything. -/
def watch : Protocol Asked Watch where
  allows _ _ := True
  next g o res := g.next given o res

end Watch

/-- No answer of the execution is one the coordinator decides on in silence. -/
def Quiet (given : Given) (t : List (Performed Asked)) : Prop :=
  ∀ older e newer, t = older ++ e :: newer →
    ((Watch.watch given).after {} older).silences given e.op e.result = false

section observer

variable {given : Given} {g : Watch} {t : List (Performed Asked)}

theorem follow_sunk (o : CoordOp) (res : Asked.Result o) :
    (g.follow given o res).sunk = g.sunk ++ sunk [⟨o, res⟩] := by
  cases o with
  | eventSink etype payload => cases res <;> rfl
  | monotonic reading =>
    cases reading <;> cases res <;> exact (List.append_nil _).symm
  | _ => cases res <;> exact (List.append_nil _).symm

theorem after_sunk : ((Watch.watch given).after g t).sunk = g.sunk ++ sunk t := by
  induction t generalizing g with
  | nil => exact (List.append_nil _).symm
  | cons e t ih =>
    obtain ⟨o, res⟩ := e
    have hnext : ((Watch.watch given).next g o res).sunk = g.sunk ++ sunk [⟨o, res⟩] :=
      follow_sunk o res
    have hcons : sunk (⟨o, res⟩ :: t) = sunk [⟨o, res⟩] ++ sunk t := by
      rw [sunk, sunk, sunk, ← List.filterMap_append]
      rfl
    rw [Protocol.after, ih, hnext, hcons, List.append_assoc]

/-- An execution is quiet iff the observer never heard anything. -/
theorem quiet_iff : Quiet given t ↔ ((Watch.watch given).after {} t).silent = false := by
  have hgen : ∀ g : Watch, ((Watch.watch given).after g t).silent = false ↔ g.silent = false ∧
      ∀ older e newer, t = older ++ e :: newer →
        ((Watch.watch given).after g older).silences given e.op e.result = false := by
    induction t with
    | nil =>
      intro g
      simp [Protocol.after]
    | cons e t ih =>
      intro g
      rw [Protocol.after, ih]
      have hsilent : ((Watch.watch given).next g e.op e.result).silent = false ↔
          g.silent = false ∧ g.silences given e.op e.result = false := Bool.or_eq_false_iff
      rw [hsilent, and_assoc]
      refine and_congr_right fun _ => ?_
      constructor
      · rintro ⟨hfirst, hrest⟩ older e' newer heq
        rcases older with _ | ⟨e₁, older⟩
        · cases heq
          exact hfirst
        · cases heq
          exact hrest older e' newer rfl
      · intro hall
        exact ⟨hall [] e t rfl, fun older e' newer heq => hall (e :: older) e' newer (by rw [heq]; rfl)⟩
  rw [hgen {}]
  exact (and_iff_right rfl).symm

end observer

/-! ## Rules -/

/-- A postcondition of what returns; nobody looks at the events once an exception was raised. -/
def Fine {α : Type} (P : α → Watch → Prop) : Except PyExc α → Watch → Prop
  | .ok a, g => P a g
  | .error _, _ => True

section rules

variable {given : Given} {α β : Type} {P : α → Watch → Prop} {R : β → Watch → Prop} {g : Watch}

theorem Fine.bind {p : Prog Asked PyExc α} {f : α → Prog Asked PyExc β}
    (hp : wp (Watch.watch given) p (Fine P) g)
    (hf : ∀ a g', P a g' → wp (Watch.watch given) (f a) (Fine R) g') :
    wp (Watch.watch given) (p.bind f) (Fine R) g := by
  rw [wp_bind]
  refine wp_mono ?_ hp
  rintro (x | a) g' hpost
  · trivial
  · exact hf a g' hpost

/-- An answer, and what is done with it. -/
theorem Fine.ask {o : CoordOp} {f : o.Ans → Prog Asked PyExc β}
    (hf : ∀ a, wp (Watch.watch given) (f a) (Fine R) (g.next given o (.ok a))) :
    wp (Watch.watch given) ((ask o).bind f) (Fine R) g := by
  rw [wp_bind]
  exact wp_call.2 ⟨trivial, hf, fun _ => trivial⟩

/-- The sink is handed an event. -/
theorem Fine.sink {etype : EventType} {payload : Dict} {f : Unit → Prog Asked PyExc β}
    (hf : wp (Watch.watch given) (f ()) (Fine R) { g with sunk := g.sunk ++ [etype] }) :
    wp (Watch.watch given) ((given.collaborators.eventSink etype payload).bind f) (Fine R) g := by
  refine ⟨trivial, fun res => ?_⟩
  have hnext : (Watch.watch given).next g (.eventSink etype payload) res =
      { g with sunk := g.sunk ++ [etype] } := by
    simp only [Watch.watch, Watch.next, Watch.follow, Watch.silences, Bool.or_false]
  rw [hnext]
  exact hf

end rules

/-! ## The trail -/

/-- What was emitted is what was handed over; after a silent decision more was emitted. -/
def Trail (s : CoordState) (g : Watch) : Prop :=
  if g.silent = true then g.sunk.length < s.events.length else s.events.map Prod.fst = g.sunk

/-- Between two rounds, with `rest` still to come. -/
structure Looping (rest : List (Option Action)) (s : CoordState) (g : Watch) : Prop where
  counters : g.counters = s.counters
  breaker : g.breaker = s.breaker
  failed : g.failed = s.hadError
  todo : g.todo = rest.filterMap id
  looking : g.looking = false
  waiting : g.waiting = false
  status : RunCoordinator.undecided s.status = true
  quiet : g.silent = false
  trail : s.events.map Prod.fst = g.sunk

/-- After the loop. -/
structure Ended (s : CoordState) (g : Watch) : Prop where
  failed : g.failed = s.hadError
  looking : g.looking = false
  trail : Trail s g
  status : g.silent = false → (g.waiting = true ∧ s.status = .waitingApproval) ∨
    (g.waiting = false ∧ RunCoordinator.undecided s.status = true)

section trail

variable {s : CoordState} {g : Watch}

theorem Trail.of_quiet (hs : g.silent = false) (h : s.events.map Prod.fst = g.sunk) :
    Trail s g := by
  rw [Trail, hs]
  exact h

theorem Trail.of_silent (hs : g.silent = true) (h : g.sunk.length < s.events.length) :
    Trail s g := by
  rw [Trail, if_pos hs]
  exact h

/-- An event that is emitted and handed over. -/
theorem Trail.sunk (etype : EventType) (payload : Dict) (h : Trail s g) :
    Trail (s.emit etype payload) { g with sunk := g.sunk ++ [etype] } := by
  unfold Trail at *
  simp only [CoordState.emit, List.length_append, List.length_singleton, List.map_append,
    List.map_singleton]
  split at h
  · next hs =>
    rw [if_pos hs]
    omega
  · next hs => rw [if_neg hs, h]

/-- An event that is only emitted. -/
theorem Trail.silenced {g' : Watch} (etype : EventType) (payload : Dict) (h : Trail s g)
    (hsunk : g'.sunk = g.sunk) (hs : g'.silent = true) : Trail (s.emit etype payload) g' := by
  unfold Trail at *
  rw [if_pos hs, hsunk]
  simp only [CoordState.emit, List.length_append, List.length_singleton]
  split at h
  · omega
  · rw [← h, List.length_map]
    omega

theorem Trail.congr {s' : CoordState} {g' : Watch} (h : Trail s g) (hev : s'.events = s.events)
    (hsunk : g'.sunk = g.sunk) (hs : g'.silent = g.silent) : Trail s' g' := by
  unfold Trail at *
  rw [hev, hsunk, hs]
  exact h

theorem Looping.trail' {rest : List (Option Action)} (h : Looping rest s g) : Trail s g :=
  .of_quiet h.quiet h.trail

/-- The loop is over for want of actions. -/
theorem Looping.ended {rest : List (Option Action)} (h : Looping rest s g) : Ended s g := by
  exact ⟨h.failed, h.looking, h.trail', fun _ => .inr ⟨h.waiting, h.status⟩⟩

/-- The loop is over by a silent decision. -/
theorem Ended.of_silence {g' : Watch} {s' : CoordState} (etype : EventType) (payload : Dict)
    (h : Trail s g) (hev : s'.events = (s.emit etype payload).events) (hfailed : g'.failed = s'.hadError)
    (hlooking : g'.looking = false) (hsunk : g'.sunk = g.sunk) (hs : g'.silent = true) :
    Ended s' g' := by
  refine ⟨hfailed, hlooking, (h.silenced etype payload hsunk hs).congr hev rfl rfl, fun hq => ?_⟩
  rw [hs] at hq
  cases hq

end trail

/-! ## The coordinator -/

/-- What a round leaves: the loop goes on, or it is over. -/
def Round (rest : List (Option Action)) (out : Next × CoordState) (g : Watch) : Prop :=
  match out.1 with
  | .go => Looping rest out.2 g
  | .stop => Ended out.2 g

section coordinator

variable {given : Given} {s : CoordState} {g : Watch} {act : Action} {rest : List (Option Action)}

/-- A failed call: the loop goes on unless the breaker opens. -/
theorem toolError_trail {x : PyExc} {args : Dict} (hl : Looping rest s g) :
    wp (Watch.watch given) (RunCoordinator.toolError given.collaborators act x s)
      (Fine (Round rest)) (g.next given (.execute act.tool args) (.error x)) := by
  simp only [RunCoordinator.toolError, bind_eq]
  refine Fine.sink (Fine.ask fun now => ?_)
  have hbreaker : s.breaker = g.breaker := hl.breaker.symm
  have hquiet := hl.quiet
  simp only [Watch.next, Watch.follow, Watch.silences, CoordState.emit, Bool.or_false, hbreaker,
    hquiet, Bool.false_or]
  split
  · next hopen =>
    exact Ended.of_silence .circuitOpen [("tool", .str act.tool)] (hl.trail'.sunk .toolError _) rfl rfl
      hl.looking rfl hopen
  · next hopen =>
    exact {
      counters := hl.counters
      breaker := rfl
      failed := rfl
      todo := hl.todo
      looking := hl.looking
      waiting := hl.waiting
      status := hl.status
      quiet := by simpa using hopen
      trail := by simp [hl.trail] }

/-- An allowed action. -/
theorem callTool_trail (hl : Looping rest s g) :
    wp (Watch.watch given) (RunCoordinator.callTool given.collaborators act s)
      (Fine (Round rest)) g := by
  simp only [RunCoordinator.callTool, bind_eq, wp_bind, wp_attempt]
  refine wp_call.2 ⟨trivial, fun result => ?_, fun x => toolError_trail hl⟩
  simp only [bindPost_ok, wp_bind, wp_attempt]
  refine ⟨trivial, fun res => ?_⟩
  simp only [wp_ret, pure_eq, Watch.watch, Watch.next, Watch.follow, Watch.silences,
    Bool.or_false]
  exact {
    counters := by rw [hl.counters]; rfl
    breaker := by rw [hl.breaker]; rfl
    failed := hl.failed
    todo := hl.todo
    looking := hl.looking
    waiting := hl.waiting
    status := hl.status
    quiet := hl.quiet
    trail := by simp [CoordState.emit, hl.trail] }

/-- What `can_continue` leaves of the watch when it lets action `act` through. -/
structure Admitted (given : Given) (act : Action) (rest : List (Option Action)) (s : CoordState)
    (g : Watch) : Prop where
  counters : g.counters = { s.counters with iteration := s.counters.iteration + 1 }
  breaker : g.breaker = s.breaker
  failed : g.failed = s.hadError
  todo : g.todo = rest.filterMap id
  looking : g.looking = false
  waiting : g.waiting =
    decide ((given.policy.decide act.tool).decision = .requireApproval)
  silent : g.silent = decide ((given.policy.decide act.tool).decision = .deny)
  trail : s.events.map Prod.fst = g.sunk

/-- The policy decides. -/
theorem decideAction_trail (ha : Admitted given act rest s g) :
    wp (Watch.watch given) (RunCoordinator.decideAction given.collaborators act s)
      (Fine (Round rest)) g := by
  simp only [RunCoordinator.decideAction, bind_eq]
  refine Fine.sink ?_
  have hwaiting := ha.waiting
  have hsilent := ha.silent
  have hpolicy : given.collaborators.policy = given.policy := rfl
  rw [hpolicy]
  cases hdec : (given.policy.decide act.tool).decision with
  | deny =>
    have hs : g.silent = true := by simpa [hdec] using hsilent
    refine ⟨ha.failed, ha.looking, .of_silent hs ?_, fun hquiet => ?_⟩
    · simp [CoordState.emit, ← ha.trail]
    · cases hs.symm.trans hquiet
  | requireApproval =>
    have hs : g.silent = false := by simpa [hdec] using hsilent
    have hw : g.waiting = true := by simpa [hdec] using hwaiting
    refine Fine.sink ⟨ha.failed, ha.looking, .of_quiet hs ?_, fun _ => .inl ⟨hw, rfl⟩⟩
    simp [CoordState.emit, ha.trail]
  | allow =>
    rw [hdec] at hsilent hwaiting
    refine callTool_trail ?_
    exact {
      counters := ha.counters
      breaker := ha.breaker
      failed := ha.failed
      todo := ha.todo
      looking := ha.looking
      waiting := hwaiting
      status := rfl
      quiet := hsilent
      trail := by simp [CoordState.emit, ha.trail] }

/-- `can_continue`, from the reading of the flags. -/
theorem canContinue_trail (hl : Looping (some act :: rest) s g) :
    wp (Watch.watch given) (RunCoordinator.canContinue given.collaborators s)
      (Fine fun out g' => if out.1 = true then out.2 = s ∧ Admitted given act rest s g'
        else Ended out.2 g') { g with looking := true } := by
  simp only [RunCoordinator.canContinue, bind_eq]
  refine Fine.ask ?_
  rintro ⟨kill, pause⟩
  have hlooking := hl.looking
  have hquiet := hl.quiet
  cases kill with
  | true =>
    -- killed: no event at all
    have hnext : ({ g with looking := true }).next given .flags (.ok (true, pause)) = g := by
      obtain ⟨counters, breaker, todo, tool, looking, failed, waiting, sunk, silent⟩ := g
      simp_all [Watch.next, Watch.follow, Watch.silences]
    rw [hnext]
    exact hl.ended
  | false =>
    cases pause with
    | true =>
      refine Ended.of_silence .paused [] hl.trail' rfl hl.failed rfl rfl ?_
      simp [Watch.next, Watch.silences]
    | false =>
      have hnext : ({ g with looking := true }).next given .flags (.ok (false, false)) = g := by
        obtain ⟨counters, breaker, todo, tool, looking, failed, waiting, sunk, silent⟩ := g
        simp_all [Watch.next, Watch.follow, Watch.silences]
      rw [hnext]
      refine Fine.ask fun now => ?_
      have hcounters := hl.counters
      have hrefusal : s.counters.refusal given.budget now = g.counters.refusal given.budget now := by
        rw [hcounters]
      have hbudget : given.collaborators.budget = given.budget := rfl
      rw [hbudget]
      cases hr : s.counters.refusal given.budget now with
      | some etype =>
        refine Ended.of_silence etype _ hl.trail' rfl hl.failed hl.looking rfl ?_
        simp [Watch.next, Watch.silences, ← hrefusal, hr]
      | none =>
        refine ⟨rfl, ?_⟩
        have hhead : g.decision given = some (given.policy.decide act.tool).decision := by
          simp [Watch.decision, hl.todo]
        exact {
          counters := by rw [← hcounters]; rfl
          breaker := hl.breaker
          failed := hl.failed
          todo := by simp [Watch.next, Watch.follow, hl.todo]
          looking := hl.looking
          waiting := by simp [Watch.next, Watch.follow, hhead]
          silent := by simp [Watch.next, Watch.silences, ← hrefusal, hr, hquiet, hhead]
          trail := hl.trail }

/-- One round of the loop. -/
theorem runAction_trail (hl : Looping (some act :: rest) s g) :
    wp (Watch.watch given) (RunCoordinator.runAction given.collaborators act s)
      (Fine (Round rest)) g := by
  have hlooking := hl.looking
  simp only [RunCoordinator.runAction, bind_eq]
  refine Fine.ask fun paused => ?_
  cases paused with
  | true =>
    refine Ended.of_silence .paused [] hl.trail' rfl hl.failed hlooking rfl ?_
    simp [Watch.next, Watch.silences]
  | false =>
    have hnext : g.next given .pauseCheck (.ok false) = g := by
      simp [Watch.next, Watch.follow, Watch.silences]
    rw [hnext]
    refine Fine.ask fun stopped => ?_
    cases stopped with
    | true =>
      refine Ended.of_silence .cancelled [] hl.trail' rfl hl.failed rfl rfl ?_
      simp [Watch.next, Watch.silences]
    | false =>
      have hnext : g.next given .stopCheck (.ok false) = { g with looking := true } := by
        simp [Watch.next, Watch.follow, Watch.silences]
      rw [hnext]
      refine Fine.bind (canContinue_trail hl) fun ⟨goOn, s'⟩ g' hout => ?_
      cases goOn with
      | true =>
        obtain ⟨rfl, ha⟩ := hout
        exact decideAction_trail ha
      | false => exact hout

/-- **The loop**, by induction on the actions still to come. -/
theorem runActions_trail {acts : List (Option Action)} (hl : Looping acts s g) :
    wp (Watch.watch given) (RunCoordinator.runActions given.collaborators acts s)
      (Fine Ended) g := by
  induction acts generalizing s g with
  | nil => exact hl.ended
  | cons act acts ih =>
    cases act with
    | none => exact ih { hl with todo := hl.todo }
    | some act =>
      simp only [RunCoordinator.runActions, bind_eq]
      refine Fine.bind (runAction_trail hl) fun ⟨step, s'⟩ g' hround => ?_
      cases step with
      | go => exact ih hround
      | stop => exact hround

/-- The flags are read once more after the loop. -/
theorem next_flags (hlooking : g.looking = false) (kill pause : Bool) :
    g.next given .flags (.ok (kill, pause)) =
      { g with silent := g.silent || (g.failed && !g.waiting && !kill && !pause) } := by
  obtain ⟨counters, breaker, todo, tool, looking, failed, waiting, sunk, silent⟩ := g
  obtain rfl : looking = false := hlooking
  rfl

/-- What decides the run after the loop. -/
theorem settleStatus_trail (he : Ended s g) :
    wp (Watch.watch given) (RunCoordinator.settleStatus given.collaborators s) (Fine Trail) g := by
  simp only [RunCoordinator.settleStatus, bind_eq]
  refine Fine.ask fun ⟨kill, pause⟩ => ?_
  rw [next_flags he.looking]
  cases pause with
  | true => exact he.trail.congr rfl rfl (by simp)
  | false =>
    cases kill with
    | true => exact he.trail.congr rfl rfl (by simp)
    | false =>
      simp only [Bool.not_false, Bool.and_true, Bool.false_eq_true, ite_false]
      cases hu : RunCoordinator.undecided s.status with
      | false =>
        -- the loop decided: in silence, or by a request for approval
        refine he.trail.congr rfl rfl ?_
        cases hs : g.silent with
        | true => rfl
        | false =>
          rcases he.status hs with ⟨hw, -⟩ | ⟨-, hu'⟩
          · simp [hw]
          · rw [hu] at hu'
            cases hu'
      | true =>
        have hw : g.silent = true ∨ g.waiting = false := by
          cases hs : g.silent with
          | true => exact .inl rfl
          | false =>
            rcases he.status hs with ⟨-, hstatus⟩ | ⟨hw, -⟩
            · rw [hstatus] at hu
              cases hu
            · exact .inr hw
        have hfailed := he.failed
        cases herr : s.hadError with
        | true =>
          have htrail : Trail { s with status := .failed } g := he.trail.congr rfl rfl rfl
          refine htrail.silenced _ _ rfl ?_
          rw [herr] at hfailed
          rcases hw with hs | hw
          · simp [hs]
          · simp [hw, hfailed]
        | false =>
          rw [herr] at hfailed
          simp only [hfailed, Bool.false_and, Bool.or_false, Bool.not_true, Bool.false_eq_true,
            ite_false]
          refine Fine.sink ?_
          exact (he.trail.sunk .verify _).congr rfl rfl rfl

theorem finalize_trail (he : Ended s g) :
    wp (Watch.watch given) (RunCoordinator.finalize given.collaborators s) (Fine Trail) g := by
  simp only [RunCoordinator.finalize, bind_eq]
  refine Fine.bind (settleStatus_trail he) fun s' g' htrail => Fine.sink ?_
  have hcompleted : Trail (if s'.status = .persisting then { s' with status := .completed } else s')
      g' := by
    split
    · exact htrail.congr rfl rfl rfl
    · exact htrail
  exact hcompleted.sunk _ _

/-- **The coordinator's trail.** -/
theorem run_trail {runId : Text} :
    wp (Watch.watch given) (RunCoordinator.run given.collaborators runId) (Fine Trail) {} := by
  simp only [RunCoordinator.run, bind_eq]
  refine Fine.ask fun now => Fine.sink (Fine.ask fun plan => Fine.sink (Fine.sink ?_))
  refine Fine.bind (runActions_trail ?_) fun s g he => finalize_trail he
  exact {
    counters := rfl
    breaker := rfl
    failed := rfl
    todo := rfl
    looking := rfl
    waiting := rfl
    status := rfl
    quiet := rfl
    trail := rfl }

end coordinator

/-- **The audit trail is complete** exactly in the executions without a silent decision. -/
theorem audit_trail_complete_iff {given : Given} {runId : Text} {t : List (Performed Asked)}
    {s : CoordState} (hexec : Exec (RunCoordinator.run given.collaborators runId) t (.ok s)) :
    sunk t = s.events.map Prod.fst ↔ Quiet given t := by
  have htrail : Trail s ((Watch.watch given).after {} t) := (hexec.sound run_trail).2
  have hsunk : ((Watch.watch given).after {} t).sunk = sunk t := after_sunk
  rw [quiet_iff]
  unfold Trail at htrail
  split at htrail
  · next hs =>
    rw [hs]
    refine ⟨fun heq => ?_, nofun⟩
    rw [hsunk, heq, List.length_map] at htrail
    omega
  · next hs => exact iff_of_true (by rw [htrail, hsunk]) (by simpa using hs)

/-- The defaults, with the default verifier. -/
def given : Given := ⟨{}, fun executed => .ok (defaultVerify executed), {}, .null⟩

/-- A plan of one action on `tool`; nobody pauses or stops it, and its call succeeds. -/
def undisturbed (tool : String) : (o : CoordOp) → Asked.Result o
  | .execute .. => .ok (.bool true)
  | .makePlan => .ok { actions := [some ⟨"action", tool, []⟩] }
  | .eventSink .. => .ok ()
  | .pauseCheck => .ok false
  | .stopCheck => .ok false
  | .monotonic _ => .ok (0 : Rat)
  | .flags => .ok (false, false)

/-- One execution of the coordinator on such a plan. -/
def played (tool : String) : List (Performed Asked) × Except PyExc CoordState :=
  (RunCoordinator.run given.collaborators (.uuid 0)).play (undisturbed tool)

theorem exec_played (tool : String) :
    Exec (RunCoordinator.run given.collaborators (.uuid 0)) (played tool).1 (played tool).2 := by
  unfold played
  exact exec_play _ _

/-- The trail of a plan that is executed and verified. -/
theorem audit_trail_complete_read : ∃ t s,
    Exec (RunCoordinator.run given.collaborators (.uuid 0)) t (.ok s) ∧ s.status = .completed ∧
      sunk t = s.events.map Prod.fst := by
  have hquiet : Quiet given (played "technocore_read").1 := quiet_iff.2 (by decide +kernel)
  have hstatus : (played "technocore_read").2.toOption.map (·.status) = some .completed := by
    decide +kernel
  have hexec := exec_played "technocore_read"
  cases hs : (played "technocore_read").2 with
  | error x =>
    rw [hs] at hstatus
    cases hstatus
  | ok s =>
    rw [hs] at hstatus hexec
    exact ⟨_, s, hexec, Option.some.inj hstatus, (audit_trail_complete_iff hexec).2 hquiet⟩

/-- **A refusal that is not persisted.**  The policy denies the action, the run fails for it, and
the sink never hears of DENIED. -/
theorem audit_trail_incomplete : ¬∀ (given : Given) (runId : Text) (t : List (Performed Asked))
    (s : CoordState), Exec (RunCoordinator.run given.collaborators runId) t (.ok s) →
      sunk t = s.events.map Prod.fst := by
  intro hclaim
  have hsunk : sunk (played "destructive_op").1 = [.started, .plan, .context, .policyCheck, .end] := by
    decide +kernel
  have hevents : (played "destructive_op").2.toOption.map (·.events.map Prod.fst) =
      some [.started, .plan, .context, .policyCheck, .denied, .end] := by
    decide +kernel
  have hexec := exec_played "destructive_op"
  cases hs : (played "destructive_op").2 with
  | error x =>
    rw [hs] at hevents
    cases hevents
  | ok s =>
    rw [hs] at hevents hexec
    have heq := hclaim given (.uuid 0) _ s hexec
    cases (hsunk.symm.trans heq).trans (Option.some.inj hevents)

end Audit

end Observatory
