import Observatory.Model.World

/-!
# Critical persistence failures

A failed transaction of the event sink is critical for a PLAN, a TOOL_CALL and an AWAITING_APPROVAL:
the sink raises, and the entry is to be left without its ACK.  `watch` follows a handler from the
outside and remembers what the sink has raised.  A failure at PLAN or AWAITING_APPROVAL is on its way
out, and only the heartbeat may still be stopped.  The sink of TOOL_CALL, though, is called inside
the `try` of the tool: its failure is taken for one of the tool, and the handler goes on.
-/

namespace Observatory

open Effect Prog WorkerLoop

/-- What the event sink raises over a failed transaction, and for which event. -/
def sinkRaises : Performed Sys → Option (EventType × PyExc)
  | ⟨.db (.appendEvent _ etype _), .error _⟩ =>
    if criticalRow etype then
      some (etype, .critical (etype.value ++ " event append failed"))
    else none
  | ⟨.db (.insertPlan ..), .error _⟩ => some (rowFailed .plan)
  | ⟨.db (.insertToolCall ..), .error _⟩ => some (rowFailed .toolCall)
  | ⟨.db (.createApproval ..), .error _⟩ => some (rowFailed .awaitingApproval)
  | _ => none
where
  rowFailed (etype : EventType) : EventType × PyExc :=
    (etype, .critical ("critical secondary persistence failure " ++ etype.value))

/-- A clock or the heartbeat task has failed, which they cannot. -/
def Impossible (x : Performed Sys) : Prop :=
  x.op.fallible = false ∧ ∃ err, x.result = .error err

/-- How far a handler is, as seen from outside. -/
inductive Watch where
  /-- the coordinator has not begun -/
  | outside
  /-- it has, and nothing critical has failed -/
  | inside
  /-- the sink has raised, and not over a TOOL_CALL -/
  | raised (x : PyExc)
  | stopped (x : PyExc)
  /-- the sink has raised over a TOOL_CALL -/
  | swallowed
  | broken

namespace Watch

def allows : Watch → Op → Prop
  | raised _, o => o = .ext .stopHeartbeat
  | stopped _, _ => False
  | swallowed, o => ∃ r payload, o = .db (.appendEvent r .toolError payload)
  | _, _ => True

/-- After something failed, or not, inside the coordinator. -/
def failed : Option (EventType × PyExc) → Watch
  | some (.toolCall, _) => swallowed
  | some (_, x) => raised x
  | none => inside

def next : Watch → (o : Op) → Sys.Result o → Watch
  | outside, .ext (.startHeartbeat _), .ok _ => inside
  | outside, .ext (.startHeartbeat _), .error _ => broken
  | outside, _, _ => outside
  | inside, o, res => failed (sinkRaises ⟨o, res⟩)
  | raised x, .ext .stopHeartbeat, .ok _ => stopped x
  | raised _, _, _ => broken
  | stopped x, _, _ => stopped x
  | swallowed, _, _ => inside
  | broken, _, _ => broken

/-- Nothing that the sink has raised is on its way. -/
def Free : Watch → Prop
  | outside | inside | broken => True
  | _ => False

/-- What has been raised has come out in the end. -/
def Ends {α : Type} (res : Except PyExc α) (g : Watch) : Prop :=
  g.Free ∨ ∃ x, res = .error x ∧ g = stopped x

end Watch

/-- The sink's failures as a protocol. -/
def watch : Protocol Sys Watch := ⟨Watch.allows, Watch.next⟩

/-- Inside the coordinator: fine, or on the way out with what the sink has raised. -/
def Watched {α : Type} (res : Except PyExc α) (g : Watch) : Prop :=
  g = .inside ∨ ∃ x, res = .error x ∧ x.isCritical = true ∧ g = .raised x

section rules

variable {α β : Type} {g : Watch}

theorem Watched.bind {p : Proc α} {f : α → Proc β} (hp : wp watch p Watched g)
    (hf : ∀ a, wp watch (f a) Watched .inside) : wp watch (p.bind f) Watched g := by
  rw [wp_bind]
  refine wp_mono ?_ hp
  rintro (x | a) g' (rfl | ⟨x', hx, hcrit, rfl⟩)
  · exact .inl rfl
  · cases hx
    exact .inr ⟨x, rfl, hcrit, rfl⟩
  · exact hf a
  · cases hx

end rules

/-! ## The event sink -/

section sink

variable {r : RunId} {etype : EventType} {payload : Dict}

/-- An event whose failure is swallowed. -/
theorem sink_swallows {g : Watch} (hev : criticalEvent etype = false)
    (hrow : criticalRow etype = false) (hg : g = .inside ∨ g = .swallowed ∧ etype = .toolError) :
    wp watch (sink r etype payload) (fun res g => res = .ok () ∧ g = .inside) g := by
  have hpure : sinkRow r etype payload = .ret () := by
    cases etype <;> first | rfl | cases hrow
  have hallows : watch.allows g (.db (.appendEvent r etype payload)) := by
    rcases hg with rfl | ⟨rfl, rfl⟩
    · trivial
    · exact ⟨r, payload, rfl⟩
  have hnext : ∀ res, watch.next g (.db (.appendEvent r etype payload)) res = .inside := by
    intro res
    rcases hg with rfl | ⟨rfl, -⟩
    · rcases res with x | u
      · simp [watch, Watch.next, sinkRaises, hrow, Watch.failed]
      · rfl
    · rfl
  simp only [sink, hpure, bind_eq, wp_bind, wp_attempt]
  refine wp_call.2 ⟨hallows, fun _ => ?_, fun _ => ?_⟩
  · rw [hnext]
    exact ⟨rfl, rfl⟩
  · rw [hnext]
    simp only [bindPost_ok, hev, Bool.false_eq_true, ite_false, pure_eq, wp_ret, wp_bind, wp_attempt]
    exact ⟨trivial, trivial⟩

/-- An event whose failure is raised, whichever of its transactions fails. -/
theorem sink_raises (hrow : criticalRow etype = true) :
    wp watch (sink r etype payload) (fun res g => match res with
      | .ok () => g = .inside
      | .error x => x.isCritical = true ∧ g = Watch.failed (some (etype, x))) .inside := by
  have hev : criticalEvent etype = true := by
    cases etype <;> first | rfl | cases hrow
  simp only [sink, bind_eq, wp_bind, wp_attempt]
  refine wp_call.2 ⟨trivial, fun _ => ?_, fun _ => ?_⟩
  · simp only [bindPost_ok, pure_eq, wp_bind, wp_attempt]
    cases etype with
    | plan => exact wp_call.2 ⟨trivial, fun _ => rfl, fun _ => ⟨rfl, rfl⟩⟩
    | toolCall => exact wp_call.2 ⟨trivial, fun _ => rfl, fun _ => ⟨rfl, rfl⟩⟩
    | awaitingApproval =>
      simp only [sinkRow, bind_eq, wp_bind]
      exact wp_call.2 ⟨trivial, fun _ => rfl, fun _ => ⟨rfl, rfl⟩⟩
    | _ => cases hrow
  · simp only [bindPost_ok, hev, ite_true, throw_eq, raise_bind, wp_raise]
    refine ⟨rfl, ?_⟩
    simp [watch, Watch.next, sinkRaises, hrow]

theorem sink_watched (hrow : etype ≠ .toolCall)
    (hev : criticalEvent etype = criticalRow etype) :
    wp watch (sink r etype payload) Watched .inside := by
  cases hcrit : criticalRow etype with
  | false =>
    refine wp_mono ?_ (sink_swallows (hev.trans hcrit) hcrit (.inl rfl))
    rintro res g ⟨-, rfl⟩
    exact .inl rfl
  | true =>
    refine wp_mono ?_ (sink_raises hcrit)
    rintro (x | u) g hg
    · refine .inr ⟨x, rfl, hg.1, ?_⟩
      rw [hg.2]
      cases etype <;> first | rfl | exact absurd rfl hrow
    · exact .inl hg

end sink

/-! ## The coordinator -/

section coordinator

variable {cfg : Settings} {r : RunId} {task : Task} {act : Action} {s : CoordState}

theorem ext_watched (o : ExtOp) : wp watch (Proc.ext o) Watched .inside :=
  wp_call.2 ⟨trivial, fun _ => .inl rfl, fun _ => .inl rfl⟩

theorem pauseCheck_watched : wp watch (checkControl (Proc.db (.pauseCheck r))) Watched .inside := by
  simp only [checkControl, bind_eq, wp_bind, wp_attempt]
  exact wp_call.2 ⟨trivial, fun _ => .inl rfl, fun _ => .inl rfl⟩

theorem stopCheck_watched : wp watch (checkControl (Proc.db (.stopCheck r))) Watched .inside := by
  simp only [checkControl, bind_eq, wp_bind, wp_attempt]
  exact wp_call.2 ⟨trivial, fun _ => .inl rfl, fun _ => .inl rfl⟩

/-- The error path of an action, also after the sink has raised over its call. -/
theorem toolError_watched {x : PyExc} {g : Watch} (hg : g = .inside ∨ g = .swallowed) :
    wp watch (RunCoordinator.toolError (collaborators cfg r task) act x s) Watched g := by
  simp only [RunCoordinator.toolError, collaborators, bind_eq]
  refine Watched.bind (wp_mono ?_ (sink_swallows rfl rfl (hg.imp_right fun h => ⟨h, rfl⟩)))
    fun _ => ?_
  · rintro res g' ⟨-, rfl⟩
    exact .inl rfl
  refine Watched.bind (ext_watched _) fun now => ?_
  split <;> exact .inl rfl

theorem callTool_watched :
    wp watch (RunCoordinator.callTool (collaborators cfg r task) act s) Watched .inside := by
  simp only [RunCoordinator.callTool, bind_eq, wp_bind, wp_attempt]
  refine wp_call.2 ⟨trivial, fun result => ?_, fun x => ?_⟩
  · simp only [bindPost_ok, wp_bind, wp_attempt, collaborators]
    refine wp_mono ?_ (sink_raises rfl)
    rintro (x | u) g hg
    · exact toolError_watched (.inr hg.2)
    · subst hg
      exact .inl rfl
  · exact toolError_watched (.inl rfl)

theorem decideAction_watched :
    wp watch (RunCoordinator.decideAction (collaborators cfg r task) act s) Watched .inside := by
  simp only [RunCoordinator.decideAction, bind_eq]
  refine Watched.bind (sink_watched (by decide) rfl) fun _ => ?_
  split
  · exact .inl rfl
  · exact Watched.bind (sink_watched (by decide) rfl) fun _ => .inl rfl
  · exact callTool_watched

theorem canContinue_watched :
    wp watch (RunCoordinator.canContinue (collaborators cfg r task) s) Watched .inside := by
  simp only [RunCoordinator.canContinue, collaborators, bind_eq, pure_eq, ret_bind,
    Bool.false_eq_true, ite_false]
  refine Watched.bind (ext_watched _) fun now => ?_
  split <;> exact .inl rfl

theorem runAction_watched :
    wp watch (RunCoordinator.runAction (collaborators cfg r task) act s) Watched .inside := by
  simp only [RunCoordinator.runAction, bind_eq]
  refine Watched.bind pauseCheck_watched fun paused => ?_
  split
  · exact .inl rfl
  refine Watched.bind stopCheck_watched fun stopped => ?_
  split
  · exact .inl rfl
  refine Watched.bind canContinue_watched fun ⟨goOn, s⟩ => ?_
  dsimp only
  split
  · exact .inl rfl
  · exact decideAction_watched

/-- The loop, by induction on the actions still to come. -/
theorem runActions_watched {acts : List (Option Action)} :
    wp watch (RunCoordinator.runActions (collaborators cfg r task) acts s) Watched .inside := by
  induction acts generalizing s with
  | nil => exact .inl rfl
  | cons act acts ih =>
    cases act with
    | none => exact ih
    | some act =>
      simp only [RunCoordinator.runActions, bind_eq]
      refine Watched.bind runAction_watched fun ⟨step, s⟩ => ?_
      cases step
      · exact ih
      · exact .inl rfl

theorem finalize_watched :
    wp watch (RunCoordinator.finalize (collaborators cfg r task) s) Watched .inside := by
  simp only [RunCoordinator.finalize, RunCoordinator.settleStatus, collaborators, bind_eq, pure_eq,
    ret_bind, Bool.false_eq_true, ite_false]
  refine Watched.bind ?_ fun s => Watched.bind (sink_watched (by decide) rfl) fun _ => .inl rfl
  split
  · exact .inl rfl
  split
  · exact .inl rfl
  · exact Watched.bind (sink_watched (by decide) rfl) fun _ => .inl rfl

/-- **The coordinator lets out what the sink raises**, over a PLAN or an AWAITING_APPROVAL. -/
theorem run_watched :
    wp watch (RunCoordinator.run (collaborators cfg r task) (.uuid r)) Watched .inside := by
  simp only [RunCoordinator.run, bind_eq]
  refine Watched.bind (ext_watched _) fun now => ?_
  refine Watched.bind (sink_watched (by decide) rfl) fun _ => ?_
  refine Watched.bind (ext_watched _) fun plan => ?_
  refine Watched.bind (sink_watched (by decide) rfl) fun _ => ?_
  refine Watched.bind (sink_watched (by decide) rfl) fun _ => ?_
  exact Watched.bind runActions_watched fun s => finalize_watched

end coordinator

/-! ## A worker's handling of an entry -/

section handling

open Watch (Ends Free)

variable {α β : Type} {cfg : Settings} {r : RunId} {g : Watch}

theorem Watch.Ends.bind {p : Proc α} {f : α → Proc β} (hp : wp watch p Ends g)
    (hf : ∀ a g', g'.Free → wp watch (f a) Ends g') : wp watch (p.bind f) Ends g := by
  rw [wp_bind]
  refine wp_mono ?_ hp
  rintro (x | a) g' (hfree | ⟨x', hx, rfl⟩)
  · exact .inl hfree
  · cases hx
    exact .inr ⟨x, rfl, rfl⟩
  · exact hf a g' hfree
  · cases hx

/-- Outside the coordinator nothing is watched for but its beginning. -/
theorem db_outside {o : DbOp} {Q : Except PyExc o.Ans → Watch → Prop} (hQ : ∀ res, Q res .outside) :
    wp (α := no_index o.Ans) watch (Proc.db o) Q .outside :=
  wp_call.2 ⟨trivial, fun _ => hQ _, fun _ => hQ _⟩

theorem callApproved_outside {a : ApprovalId} {payload : ActionPayload} :
    wp watch (callApproved cfg r a payload) (fun _ g => g = .outside) .outside := by
  simp only [callApproved, wp_tryCatch, bind_eq, wp_bind]
  have hfail : ∀ x : PyExc, wp watch
      (Prog.bind (Proc.db (.appendEvent r .toolError [("tool", .str payload.tool),
          ("error", .str x.name), ("approval_id", .uuid a)]))
        fun _ => Proc.db (.continuationFailed r a [("error", .str x.name),
          ("detail", .str (clip 500 (cfg.redact x.message)))])) (fun _ g => g = .outside)
        .outside := by
    intro x
    rw [wp_bind]
    refine db_outside fun res => ?_
    rcases res with y | u
    · rfl
    · exact db_outside fun _ => rfl
  refine wp_call.2 ⟨trivial, fun result => ?_, fun x => hfail _⟩
  simp only [bindPost_ok, wp_bind]
  refine wp_call.2 ⟨trivial, fun _ => ?_, fun x => hfail _⟩
  exact wp_call.2 ⟨trivial, fun _ => rfl, fun x => hfail _⟩

theorem tryContinuation_outside :
    wp watch (tryContinuation cfg r) (fun _ g => g = .outside) .outside := by
  simp only [tryContinuation, bind_eq, wp_bind]
  refine wp_call.2 ⟨trivial, fun found => ?_, fun _ => rfl⟩
  rw [bindPost_ok]
  cases found with
  | none => rfl
  | pendingExecution a =>
    rw [wp_bind]
    refine wp_call.2 ⟨trivial, fun _ => ?_, fun _ => rfl⟩
    rw [bindPost_ok, wp_bind]
    exact wp_call.2 ⟨trivial, fun _ => rfl, fun _ => rfl⟩
  | settled a etype reason =>
    rw [wp_bind]
    exact wp_call.2 ⟨trivial, fun _ => rfl, fun _ => rfl⟩
  | refused a =>
    rw [wp_bind]
    exact wp_call.2 ⟨trivial, fun _ => rfl, fun _ => rfl⟩
  | consumed a payload =>
    rw [wp_bind]
    refine wp_mono ?_ callApproved_outside
    rintro (x | u) g rfl
    · rfl
    · rfl

/-- The heartbeat is stopped in any case, and what was raised goes on. -/
theorem stopHeartbeat_ends {res : Except PyExc α} (hres : Watched res g) :
    wp watch (Proc.ext .stopHeartbeat) (bindPost watch (fun _ => Prog.ofExcept res) Ends) g := by
  rcases hres with rfl | ⟨x, rfl, -, rfl⟩
  · refine wp_call.2 ⟨trivial, fun _ => ?_, fun _ => .inl trivial⟩
    rw [bindPost_ok, wp_ofExcept]
    exact .inl trivial
  · refine wp_call.2 ⟨rfl, fun _ => ?_, fun _ => .inl trivial⟩
    exact .inr ⟨x, rfl, rfl⟩

theorem runCoordinator_ends {loaded : Run} {task : Task} :
    wp watch (runCoordinator cfg r loaded task) Ends .outside := by
  simp only [runCoordinator, bind_eq]
  rw [wp_bind]
  refine wp_call.2 ⟨trivial, fun _ => ?_, fun _ => .inl trivial⟩
  rw [bindPost_ok]
  refine Watch.Ends.bind ?_ fun o g' hfree => ?_
  · rw [wp_finally]
    refine wp_mono (fun res g => stopHeartbeat_ends) ?_
    rw [wp_tryCatch, wp_bind]
    refine wp_mono ?_ run_watched
    rintro (x | s) g (rfl | ⟨x', hx, hcrit, rfl⟩)
    · simp only [bindPost_error, catchPost_error, coordinatorFailed]
      split
      · exact .inl rfl
      · simp only [bind_eq, pure_eq]
        exact Watched.bind (wp_call.2 ⟨trivial, fun _ => .inl rfl, fun _ => .inl rfl⟩)
          fun _ => .inl rfl
    · cases hx
      simp only [bindPost_error, catchPost_error, coordinatorFailed, hcrit, ite_true, throw_eq,
        bind_eq, raise_bind, wp_raise]
      exact .inr ⟨x, rfl, hcrit, rfl⟩
    · exact .inl rfl
    · cases hx
  · cases g' with
    | outside => exact db_outside fun _ => .inl trivial
    | inside => exact wp_call.2 ⟨trivial, fun _ => .inl trivial, fun _ => .inl trivial⟩
    | broken => exact wp_call.2 ⟨trivial, fun _ => .inl trivial, fun _ => .inl trivial⟩
    | _ => exact hfree.elim

theorem processRun_ends {runId : Json} : wp watch (processRun cfg runId) Ends .outside := by
  simp only [processRun, bind_eq]
  rw [wp_bind, wp_ofExcept]
  cases parseUuid runId with
  | error x => exact .inl trivial
  | ok r =>
    rw [bindPost_ok, wp_bind]
    refine wp_call.2 ⟨trivial, fun found => ?_, fun _ => .inl trivial⟩
    rw [bindPost_ok]
    cases found with
    | ready loaded task =>
      rw [wp_bind]
      refine wp_call.2 ⟨trivial, fun claimed => ?_, fun _ => .inl trivial⟩
      rw [bindPost_ok]
      cases claimed with
      | false => exact .inl trivial
      | true =>
        simp only [ite_true, wp_bind]
        refine wp_mono ?_ tryContinuation_outside
        rintro (x | dealt) g rfl
        · exact .inl trivial
        · cases dealt with
          | true => exact .inl trivial
          | false => exact runCoordinator_ends
    | _ => exact .inl trivial

theorem ackEntry_ends {e : EntryId} (hfree : g.Free) : wp watch (ackEntry e) Ends g := by
  rw [ackEntry, wp_swallow]
  cases g with
  | outside => exact wp_call.2 ⟨trivial, fun _ => .inl trivial, fun _ => .inl trivial⟩
  | inside => exact wp_call.2 ⟨trivial, fun _ => .inl trivial, fun _ => .inl trivial⟩
  | broken => exact wp_call.2 ⟨trivial, fun _ => .inl trivial, fun _ => .inl trivial⟩
  | _ => exact hfree.elim

theorem handleEntry_ends {e : EntryId} {body : Body} :
    wp watch (handleEntry cfg e body) Ends .outside := by
  cases body with
  | missing => exact ackEntry_ends trivial
  | notJson => exact ackEntry_ends trivial
  | undecodable => exact .inl trivial
  | json payload =>
    simp only [handleEntry, bind_eq]
    rw [wp_bind, wp_ofExcept]
    cases getRunId payload with
    | error x => exact .inl trivial
    | ok runId =>
      rw [bindPost_ok]
      split
      · exact Watch.Ends.bind processRun_ends fun _ g' hfree => ackEntry_ends hfree
      · exact ackEntry_ends trivial

end handling

/-! ## Traces -/

/-- `t` is what the handling of an entry performs from beginning to end, and `res` how it ends. -/
structure Handles (cfg : Settings) (e : EntryId) (body : Body) (t : List (Performed Sys))
    (res : Except PyExc Unit) : Prop where
  exec : Exec (handleEntry cfg e body) t res
  possible : ∀ y ∈ t, ¬Impossible y

/-- After `pre`, the transaction `x` fails and the event sink raises `exc` over an event `etype`. -/
structure SinkRaises (pre : List (Performed Sys)) (x : Performed Sys) (etype : EventType)
    (exc : PyExc) : Prop where
  coordinating : ∃ y ∈ pre, ∃ r, y.op = .ext (.startHeartbeat r)
  raises : sinkRaises x = some (etype, exc)

/-- The exception comes out of the handler, and on its way only the heartbeat is stopped: there is
no other action, no final commit and no ACK. -/
def LeavesWith (exc : PyExc) (post : List (Performed Sys)) (res : Except PyExc Unit) : Prop :=
  post = [⟨.ext .stopHeartbeat, .ok ()⟩] ∧ res = .error exc

section traces

variable {pre post : List (Performed Sys)} {x y : Performed Sys} {etype : EventType} {exc : PyExc}
  {res : Except PyExc Unit} {g : Watch}

/-- The coordinator has begun. -/
def Watch.Begun (g : Watch) : Prop := g ≠ .outside ∧ g ≠ .broken

theorem failed_begun (o : Option (EventType × PyExc)) : (Watch.failed o).Begun := by
  unfold Watch.failed
  split <;> exact ⟨by simp, by simp⟩

theorem raised_next (hallows : watch.allows (.raised exc) y.op) (hy : ¬Impossible y) :
    y = ⟨.ext .stopHeartbeat, .ok ()⟩ := by
  obtain ⟨o, r⟩ := y
  obtain rfl : o = .ext .stopHeartbeat := hallows
  rcases r with err | u
  · exact absurd ⟨rfl, err, rfl⟩ hy
  · rfl

theorem begun_next (hg : g.Begun) (hallows : watch.allows g y.op) (hy : ¬Impossible y) :
    (watch.next g y.op y.result).Begun := by
  cases g with
  | outside => exact absurd rfl hg.1
  | broken => exact absurd rfl hg.2
  | inside => exact failed_begun _
  | raised exc =>
    rw [raised_next hallows hy]
    exact ⟨by simp [watch, Watch.next], by simp [watch, Watch.next]⟩
  | stopped exc => exact hallows.elim
  | swallowed => exact ⟨by simp [watch, Watch.next], by simp [watch, Watch.next]⟩

theorem begun_after (hg : g.Begun) (hadm : watch.Admits g pre) (hreal : ∀ y ∈ pre, ¬Impossible y) :
    (watch.after g pre).Begun := by
  induction pre generalizing g with
  | nil => exact hg
  | cons y pre ih =>
    refine ih (begun_next hg hadm.1 (hreal y (.head _))) hadm.2 fun z hz => ?_
    exact hreal z (.tail _ hz)

theorem begun_of_started (hadm : watch.Admits .outside pre) (hreal : ∀ y ∈ pre, ¬Impossible y)
    (hin : ∃ y ∈ pre, ∃ r, y.op = .ext (.startHeartbeat r)) :
    (watch.after .outside pre).Begun := by
  induction pre with
  | nil =>
    obtain ⟨y, hy, -⟩ := hin
    cases hy
  | cons y pre ih =>
    have hpre : ∀ z ∈ pre, ¬Impossible z := fun z hz => hreal z (.tail _ hz)
    change (watch.after (watch.next .outside y.op y.result) pre).Begun
    by_cases hstart : ∃ r, y.op = .ext (.startHeartbeat r)
    · refine begun_after ?_ hadm.2 hpre
      have hy := hreal y (.head _)
      obtain ⟨o, res⟩ := y
      obtain ⟨r, rfl⟩ := hstart
      rcases res with err | u
      · exact absurd ⟨rfl, err, rfl⟩ hy
      · exact ⟨by simp [watch, Watch.next], by simp [watch, Watch.next]⟩
    · have hout : watch.next .outside y.op y.result = .outside := by
        obtain ⟨o, res⟩ := y
        cases o with
        | ext o =>
          cases o with
          | startHeartbeat r => exact absurd ⟨r, rfl⟩ hstart
          | _ => rfl
        | _ => rfl
      have hadm' := hadm.2
      rw [hout] at hadm' ⊢
      refine ih hadm' hpre ?_
      obtain ⟨z, hz, hr⟩ := hin
      rcases List.mem_cons.1 hz with rfl | hz
      · exact absurd hr hstart
      · exact ⟨z, hz, hr⟩

/-- The sink raises only while nothing else is on its way. -/
theorem inside_of_raises (hg : g.Begun) (hallows : watch.allows g x.op)
    (hx : sinkRaises x = some (etype, exc)) : g = .inside := by
  obtain ⟨o, r⟩ := x
  cases g with
  | outside => exact absurd rfl hg.1
  | broken => exact absurd rfl hg.2
  | inside => rfl
  | raised exc' =>
    obtain rfl : o = .ext .stopHeartbeat := hallows
    cases hx
  | stopped exc' => exact hallows.elim
  | swallowed =>
    obtain ⟨r', payload, rfl⟩ := hallows
    rcases r with err | u
    · simp [sinkRaises, criticalRow] at hx
    · cases hx

theorem leaves_of_raised (hadm : watch.Admits (.raised exc) post)
    (hreal : ∀ y ∈ post, ¬Impossible y) (hends : Watch.Ends res (watch.after (.raised exc) post)) :
    LeavesWith exc post res := by
  cases post with
  | nil =>
    rcases hends with hfree | ⟨x, -, hx⟩
    · exact hfree.elim
    · cases hx
  | cons y post =>
    obtain rfl := raised_next hadm.1 (hreal y (.head _))
    cases post with
    | nil =>
      rcases hends with hfree | ⟨x, rfl, hx⟩
      · exact hfree.elim
      · cases hx
        exact ⟨rfl, rfl⟩
    | cons z post => exact hadm.2.1.elim

theorem not_leaves_of_swallowed (hadm : watch.Admits .swallowed post)
    (hends : Watch.Ends res (watch.after .swallowed post)) : ¬LeavesWith exc post res := by
  rintro ⟨rfl, -⟩
  obtain ⟨r, payload, hop⟩ := hadm.1
  cases hop

end traces

/-- **What the sink raises leaves the handler**, and nothing else happens, if and only if it was not
raised over a TOOL_CALL. -/
theorem critical_failure_leaves_iff {cfg : Settings} {e : EntryId} {body : Body}
    {pre post : List (Performed Sys)} {x : Performed Sys} {etype : EventType} {exc : PyExc}
    {res : Except PyExc Unit} (ht : Handles cfg e body (pre ++ x :: post) res)
    (hx : SinkRaises pre x etype exc) : LeavesWith exc post res ↔ etype ≠ .toolCall := by
  obtain ⟨hadm, hends⟩ := ht.exec.sound handleEntry_ends
  obtain ⟨hpre, hrest⟩ := watch.admits_append.1 hadm
  rw [watch.after_append] at hends
  have hbegun := begun_of_started hpre
    (fun y hy => ht.possible y (List.mem_append_left _ hy)) hx.coordinating
  generalize watch.after .outside pre = g at hrest hends hbegun
  obtain rfl := inside_of_raises hbegun hrest.1 hx.raises
  have hpost : ∀ y ∈ post, ¬Impossible y := fun y hy =>
    ht.possible y (List.mem_append_right _ (.tail _ hy))
  have hnext : watch.next .inside x.op x.result = Watch.failed (some (etype, exc)) :=
    congrArg Watch.failed hx.raises
  replace hrest := hrest.2
  change Watch.Ends res (watch.after (watch.next .inside x.op x.result) post) at hends
  rw [hnext] at hrest hends
  by_cases hcall : etype = .toolCall
  · subst hcall
    exact iff_of_false (not_leaves_of_swallowed hrest hends) (fun h => h rfl)
  · have hraised : Watch.failed (some (etype, exc)) = .raised exc := by
      cases etype <;> first | rfl | exact absurd rfl hcall
    rw [hraised] at hrest hends
    exact iff_of_true (leaves_of_raised hrest hpost hends) hcall

/-! ## Two entries -/

section entries

/-- A run with one READ_ONLY action, and transactions that fail as `fails` says. -/
def answers (fails : DbOp → Bool) : (o : Op) → Sys.Result o
  | .db o => if fails o then .error ⟨"OperationalError", "server closed the connection"⟩ else
    match o with
    | .openRun _ => .ok (.ready { taskId := 0, createdAt := 0, updatedAt := 0 } default)
    | .claimRun _ => .ok true
    | .continuation _ => .ok .none
    | .appendEvent .. | .insertPlan .. | .insertToolCall .. | .finalCommit .. => .ok ()
    | .pauseCheck _ | .stopCheck _ => .ok false
    | _ => .error default
  | .redis (.ack _) => .ok ()
  | .redis _ => .error default
  | .ext (.makePlan ..) => .ok { actions := [some ⟨"read", "technocore_read", []⟩] }
  | .ext (.callTool ..) => .ok .null
  | .ext (.monotonic _) => .ok 0
  | .ext .utcnow => .ok 0
  | .ext (.startHeartbeat _) => .ok ()
  | .ext .stopHeartbeat => .ok ()
  | .ext (.reply _) => .ok ()

/-- The entry of run 0. -/
def entryOfRun : Body := .json (.obj [("run_id", .uuid 0)])

/-- The entry of run 0, handled while `fails` says what fails. -/
def handled (fails : DbOp → Bool) : List (Performed Sys) × Except PyExc Unit :=
  (handleEntry {} 0 entryOfRun).play (answers fails)

theorem handled_handles (fails : DbOp → Bool) :
    Handles {} 0 entryOfRun (handled fails).1 (handled fails).2 := by
  refine ⟨exec_play _ _, ?_⟩
  rintro ⟨o, res⟩ hmem ⟨hop, err, hres⟩
  have hanswer : res = answers fails o := result_of_mem_play hmem
  cases o with
  | ext o => cases o <;> cases hanswer.symm.trans hres
  | _ => cases hop

/-- The handling, split where the sink raises. -/
theorem handled_split (fails : DbOp → Bool) (n : Nat) (etype : EventType) (exc : PyExc)
    (hraises : ((handled fails).1[n]?).map sinkRaises = some (some (etype, exc)))
    (hn : 3 < n)
    (hstart : (handled fails).1[3]? = some ⟨.ext (.startHeartbeat 0), .ok ()⟩) :
    ∃ x, Handles {} 0 entryOfRun ((handled fails).1.take n ++ x :: (handled fails).1.drop (n + 1))
        (handled fails).2 ∧ SinkRaises ((handled fails).1.take n) x etype exc := by
  obtain ⟨x, hx, hexc⟩ := Option.map_eq_some_iff.1 hraises
  rw [← List.getElem?_take_of_lt hn] at hstart
  refine ⟨x, ?_, ⟨_, List.mem_of_getElem? hstart, 0, rfl⟩, hexc⟩
  obtain ⟨hlt, rfl⟩ := List.getElem?_eq_some_iff.1 hx
  rw [← List.drop_eq_getElem_cons hlt, List.take_append_drop]
  exact handled_handles fails

/-- The row of a plan cannot be written. -/
def failsPlanRow : DbOp → Bool
  | .insertPlan .. => true
  | _ => false

/-- The row of a tool call cannot be written. -/
def failsCallRow : DbOp → Bool
  | .insertToolCall .. => true
  | _ => false

/-- The entry is acknowledged. -/
def acks (e : EntryId) (y : Performed Sys) : Bool :=
  match y.op with
  | .redis (.ack e') => e = e'
  | _ => false

end entries

/-- A plan whose row cannot be written comes out of the handler. -/
theorem critical_failure_leaves_plan : ∃ pre x post exc res,
    Handles {} 0 entryOfRun (pre ++ x :: post) res ∧ SinkRaises pre x .plan exc ∧
      LeavesWith exc post res := by
  obtain ⟨x, hhandles, hsink⟩ := handled_split failsPlanRow 8 .plan
    (.critical "critical secondary persistence failure PLAN") (by rfl) (by decide) rfl
  exact ⟨_, x, _, _, _, hhandles, hsink,
    (critical_failure_leaves_iff hhandles hsink).2 (by decide)⟩

/-- **A critical failure is acknowledged.**  The row of the tool call cannot be written; the sink
raises, the coordinator counts an error of the tool, the run fails, and the entry is ACKed. -/
theorem critical_failure_acked : ∃ pre x post exc,
    Handles {} 0 entryOfRun (pre ++ x :: post) (.ok ()) ∧ SinkRaises pre x .toolCall exc ∧
      ¬LeavesWith exc post (.ok ()) ∧ post.any (acks 0) = true := by
  obtain ⟨x, hhandles, hsink⟩ := handled_split failsCallRow 16 .toolCall
    (.critical "critical secondary persistence failure TOOL_CALL") (by decide +kernel) (by decide) rfl
  have hres : (handled failsCallRow).2 = .ok () := by decide +kernel
  rw [hres] at hhandles
  refine ⟨_, x, _, _, hhandles, hsink, ?_, by decide +kernel⟩
  exact fun hleaves => (critical_failure_leaves_iff hhandles hsink).1 hleaves rfl

end Observatory
