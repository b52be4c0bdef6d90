import Observatory.Verify.Phase

/-!
# One step of a process

`Flow.Step` lists every transition an allowed operation can make, with what the operation came back
with; `Coord.Step` does the same for the loop of the coordinator.  `Flow.step_of_allows` says that
the lists are complete.  Facts about single processes are case analyses on them.
-/

namespace Observatory

open Effect

/-- One step of the coordinator that stays in the coordinator. -/
inductive Coord.Step (cfg : Settings) (r : RunId) :
    Coord → (o : Op) → Sys.Result o → Coord → Prop where
  | beating : Step cfg r {} (.ext (.startHeartbeat r)) (.ok ()) {}
  | begun {c : Coord} {now : Seconds} (h : c.point = .starting) :
      Step cfg r c (.ext (.monotonic .started)) (.ok now)
        { c with point := .announcing
                 counters := { c.counters with startedAt := some now } }
  | planned {c : Coord} {prompt : String} {scope : Dict} {plan : Plan} (h : c.point = .announcing) :
      Step cfg r c (.ext (.makePlan prompt scope)) (.ok plan) (c.withPlan plan)
  | unplanned {c : Coord} {prompt : String} {scope : Dict} {x : LibError}
      (h : c.point = .announcing) :
      Step cfg r c (.ext (.makePlan prompt scope)) (.error x) (c.at' .fatal)
  | appended {c : Coord} {etype : EventType} {payload : Dict}
      (h : Flow.mayAppend c.point etype) :
      Step cfg r c (.db (.appendEvent r etype payload)) (.ok ()) (Flow.appended cfg c etype true)
  | unappended {c : Coord} {etype : EventType} {payload : Dict} {x : LibError}
      (h : Flow.mayAppend c.point etype) :
      Step cfg r c (.db (.appendEvent r etype payload)) (.error x) (Flow.appended cfg c etype false)
  | planRow {c : Coord} {r' : RunId} {plan : Dict} (h : c.point = .planned) :
      Step cfg r c (.db (.insertPlan r' plan)) (.ok ()) c
  | noPlanRow {c : Coord} {r' : RunId} {plan : Dict} {x : LibError} (h : c.point = .planned) :
      Step cfg r c (.db (.insertPlan r' plan)) (.error x) (c.at' .aborting)
  | callRow {c : Coord} {act : Action} {r' : RunId} {tool : String} {args : Dict} {result : Json}
      (h : c.point = .succeeded act) :
      Step cfg r c (.db (.insertToolCall r' tool args result)) (.ok ()) (c.at' .looping)
  | noCallRow {c : Coord} {act : Action} {r' : RunId} {tool : String} {args : Dict} {result : Json}
      {x : LibError} (h : c.point = .succeeded act) :
      Step cfg r c (.db (.insertToolCall r' tool args result)) (.error x) c.erred
  | requested {c : Coord} {act : Action} {cls : ActionClass} {impact : String} {a : ApprovalId}
      (h : c.point = .requesting act) :
      Step cfg r c
        (.db (.createApproval r cls ⟨act.actionId, act.tool, act.arguments⟩ impact)) (.ok a)
        { c with point := .closing, awaiting := some a }
  | unrequested {c : Coord} {act : Action} {cls : ActionClass} {payload : ActionPayload}
      {impact : String} {x : LibError} (h : c.point = .requesting act) :
      Step cfg r c (.db (.createApproval r cls payload impact)) (.error x) (c.at' .aborting)
  | paused {c : Coord} (h : c.point = .looping) :
      Step cfg r c (.db (.pauseCheck r)) (.ok true) (c.at' .closing)
  | unpaused {c : Coord} {act : Action} {rest : List Action} {res : Except LibError Bool}
      (h : c.point = .looping) (htodo : c.todo = act :: rest) (hres : res ≠ .ok true) :
      Step cfg r c (.db (.pauseCheck r)) res { c with point := .pauseClear act, todo := rest }
  | stopped {c : Coord} {act : Action} (h : c.point = .pauseClear act) :
      Step cfg r c (.db (.stopCheck r)) (.ok true) (c.at' .closing)
  | unstopped {c : Coord} {act : Action} {res : Except LibError Bool}
      (h : c.point = .pauseClear act) (hres : res ≠ .ok true) :
      Step cfg r c (.db (.stopCheck r)) res (c.at' (.stopClear act))
  | budgeted {c : Coord} {act : Action} {now : Seconds} (h : c.point = .stopClear act) :
      Step cfg r c (.ext (.monotonic .budget)) (.ok now) (c.budgeted cfg.budget act now)
  | called {c : Coord} {act : Action} {result : Json} (h : c.point = .allowed act) :
      Step cfg r c (.ext (.callTool r .coordinator act.tool act.arguments)) (.ok result)
        (c.called act)
  | raised {c : Coord} {act : Action} {x : LibError} (h : c.point = .allowed act) :
      Step cfg r c (.ext (.callTool r .coordinator act.tool act.arguments)) (.error x) c.erred
  | recorded {c : Coord} {now : Seconds} (h : c.point = .erring) :
      Step cfg r c (.ext (.monotonic .breaker)) (.ok now) (c.at' .looping)
  | noClock {c : Coord} {reading : Reading} {x : LibError} :
      Step cfg r c (.ext (.monotonic reading)) (.error x) (c.at' .fatal)

namespace Flow

variable (cfg : Settings)

/-- One step of a process. -/
inductive Step : Phase → (o : Op) → Sys.Result o → Phase → Prop where
  /-- an exception, or nothing to do -/
  | dropped {g : Phase} {o : Op} {res : Sys.Result o} : Step g o res .dropped
  -- entries
  | read {g : Phase} {e : EntryId} {body : Body} (h : g.stage = .idle) :
      Step g (.redis .readGroup) (.ok (some (e, body))) ⟨some e, .received body⟩
  | reclaimed {g : Phase} {e : EntryId} {body : Body} (h : g.stage = .idle) :
      Step g (.redis .claimPending) (.ok (some (e, body))) ⟨some e, .received body⟩
  | popped {g : Phase} {body : Body} :
      Step g (.redis .rpopLegacy) (.ok (some body)) ⟨none, .received body⟩
  | opened {g : Phase} {body : Body} {r : RunId} {loaded : Run} {task : Task}
      (h : g.stage = .received body) (hr : body.runId? = some r) :
      Step g (.db (.openRun r)) (.ok (.ready loaded task)) (g.at' (.opened r loaded))
  | unopened {g : Phase} {body : Body} {r : RunId} {found : Db.Opened}
      (h : g.stage = .received body) (hr : body.runId? = some r)
      (hfound : ∀ loaded task, found ≠ .ready loaded task) :
      Step g (.db (.openRun r)) (.ok found) (g.at' .done)
  | claimed {g : Phase} {r : RunId} {loaded : Run} (h : g.stage = .opened r loaded) :
      Step g (.db (.claimRun r)) (.ok true) (g.at' (.claimed r loaded))
  | unclaimed {g : Phase} {r : RunId} {loaded : Run} (h : g.stage = .opened r loaded) :
      Step g (.db (.claimRun r)) (.ok false) (g.at' .done)
  -- the continuation
  | noApproval {g : Phase} {r : RunId} {loaded : Run} (h : g.stage = .claimed r loaded) :
      Step g (.db (.continuation r)) (.ok .none) (g.at' (.coordinating r loaded {}))
  | pendingFound {g : Phase} {r : RunId} {loaded : Run} {a : ApprovalId}
      (h : g.stage = .claimed r loaded) :
      Step g (.db (.continuation r)) (.ok (.pendingExecution a)) (g.at' (.pendingFound r a))
  | consumed {g : Phase} {r : RunId} {loaded : Run} {a : ApprovalId} {payload : ActionPayload}
      (h : g.stage = .claimed r loaded) :
      Step g (.db (.continuation r)) (.ok (.consumed a payload)) (g.at' (.consumed r a payload))
  | settled {g : Phase} {r : RunId} {loaded : Run} {a : ApprovalId} {etype : EventType}
      {reason : String} (h : g.stage = .claimed r loaded) :
      Step g (.db (.continuation r)) (.ok (.settled a etype reason)) (g.at' (.settled r))
  | refused {g : Phase} {r : RunId} {loaded : Run} {a : ApprovalId}
      (h : g.stage = .claimed r loaded) :
      Step g (.db (.continuation r)) (.ok (.refused a)) (g.at' (.settled r))
  | logged {g : Phase} {r : RunId} {a : ApprovalId} {etype : EventType} {payload : Dict}
      (h : g.stage = .pendingFound r a ∨ (∃ p x, g.stage = .called r a p x) ∨
        g.stage = .callFailed r a) :
      Step g (.db (.appendEvent r etype payload)) (.ok ()) g
  | settledLogged {g : Phase} {r : RunId} {etype : EventType} {payload : Dict}
      (h : g.stage = .settled r) :
      Step g (.db (.appendEvent r etype payload)) (.ok ()) (g.at' .done)
  | callUnlogged {g : Phase} {r : RunId} {a : ApprovalId} {p : ActionPayload} {result : Json}
      {etype : EventType} {payload : Dict} {x : LibError} (h : g.stage = .called r a p result) :
      Step g (.db (.appendEvent r etype payload)) (.error x) (g.at' (.callFailed r a))
  | ambiguous {g : Phase} {r : RunId} {a : ApprovalId} (h : g.stage = .pendingFound r a) :
      Step g (.db (.markAmbiguous r a)) (.ok ()) (g.at' .done)
  | approvedCalled {g : Phase} {r : RunId} {a : ApprovalId} {p : ActionPayload} {result : Json}
      (h : g.stage = .consumed r a p) :
      Step g (.ext (.callTool r (.continuation a) p.tool p.arguments)) (.ok result)
        (g.at' (.called r a p result))
  | approvedRaised {g : Phase} {r : RunId} {a : ApprovalId} {p : ActionPayload} {x : LibError}
      (h : g.stage = .consumed r a p) :
      Step g (.ext (.callTool r (.continuation a) p.tool p.arguments)) (.error x)
        (g.at' (.callFailed r a))
  | succeeded {g : Phase} {r : RunId} {a : ApprovalId} {p : ActionPayload} {result : Json}
      (h : g.stage = .called r a p result) :
      Step g (.db (.continuationSucceeded r a p.tool p.arguments result)) (.ok ()) (g.at' .done)
  | unsucceeded {g : Phase} {r : RunId} {a : ApprovalId} {p : ActionPayload} {result : Json}
      {x : LibError} (h : g.stage = .called r a p result) :
      Step g (.db (.continuationSucceeded r a p.tool p.arguments result)) (.error x)
        (g.at' (.callFailed r a))
  | failed {g : Phase} {r : RunId} {a : ApprovalId} {error : Dict}
      (h : g.stage = .callFailed r a) :
      Step g (.db (.continuationFailed r a error)) (.ok ()) (g.at' .done)
  -- the coordinator
  | coordinated {g : Phase} {r : RunId} {loaded : Run} {c c' : Coord} {o : Op} {res : Sys.Result o}
      (h : g.stage = .coordinating r loaded c) (hc : Coord.Step cfg r c o res c') :
      Step g o res (g.at' (.coordinating r loaded c'))
  | returned {g : Phase} {r : RunId} {loaded : Run} {c : Coord}
      (h : g.stage = .coordinating r loaded c) (hp : c.point = .closing ∨ c.point = .fatal) :
      Step g (.ext .stopHeartbeat) (.ok ()) (g.at' (.returned r loaded c))
  | committed {g : Phase} {r : RunId} {loaded : Run} {c : Coord} {out : Db.Outcome}
      (h : g.stage = .returned r loaded c) (hl : c.Lands out.status) :
      Step g (.db (.finalCommit r loaded out)) (.ok ()) (g.at' .done)
  -- the scheduler
  | sweeping {g : Phase} {now : Time} (h : g.stage = .scheduling) :
      Step g (.ext .utcnow) (.ok now) (g.at' (.sweeping now))
  | selected {g : Phase} {now : Time} {msgs : List (MessageId × OutboxMessage)}
      (h : g.stage = .sweeping now) :
      Step g (.db .selectOutbox) (.ok msgs)
        (g.at' (.publishing (msgs.filter fun x => SchedulerLoop.due now x.2) []))
  | published {g : Phase} {i : MessageId} {m : OutboxMessage}
      {rest : List (MessageId × OutboxMessage)}
      {attempts : List (MessageId × OutboxMessage × Db.Attempt)} {sid : EntryId}
      (h : g.stage = .publishing ((i, m) :: rest) attempts) :
      Step g (.redis (.publishToStream m.payload (some m.idempotencyKey))) (.ok sid)
        (g.at' (.publishing rest (attempts ++ [(i, m, .published sid)])))
  | unpublished {g : Phase} {i : MessageId} {m : OutboxMessage}
      {rest : List (MessageId × OutboxMessage)}
      {attempts : List (MessageId × OutboxMessage × Db.Attempt)} {x : LibError}
      (h : g.stage = .publishing ((i, m) :: rest) attempts) :
      Step g (.redis (.publishToStream m.payload (some m.idempotencyKey))) (.error x)
        (g.at' (.publishing rest (attempts ++ [(i, m, .failed (lastError x))])))
  | swept {g : Phase} {attempts : List (MessageId × OutboxMessage × Db.Attempt)}
      (h : g.stage = .publishing [] attempts) :
      Step g (.db (.commitOutbox attempts)) (.ok ()) (g.at' (.publishing [] []))
  | watching {g : Phase} {attempts : List (MessageId × OutboxMessage × Db.Attempt)} {now : Time}
      (h : g.stage = .publishing [] attempts) :
      Step g (.ext .utcnow) (.ok now) (g.at' (.watching (now - Db.stuckThreshold)))
  | loaded {g : Phase} {cutoff : Time} {rows : List (RunId × Run)}
      (h : g.stage = .watching cutoff) :
      Step g (.db .selectExecuting) (.ok rows) (g.at' (.recovering cutoff rows []))
  | judged {g : Phase} {cutoff now : Time} {r : RunId} {run : Run}
      {rest picked : List (RunId × Run)} (h : g.stage = .recovering cutoff ((r, run) :: rest) picked) :
      Step g (.ext .utcnow) (.ok now) (g.at' (.recovering cutoff rest
        (if Db.stuck cutoff now run then picked ++ [(r, run)] else picked)))
  | dlq {g : Phase} {cutoff : Time} {todo picked : List (RunId × Run)} {payload : Dict}
      {reason : String} {res : Except LibError Unit}
      (h : g.stage = .recovering cutoff todo picked) :
      Step g (.redis (.publishToDlq payload reason)) res g
  | recovered {g : Phase} {cutoff : Time} {rows : List (RunId × Run)}
      (h : g.stage = .recovering cutoff [] rows) :
      Step g (.db (.commitRecovery rows)) (.ok ()) (g.at' .polling)
  | listed {g : Phase} {rows : List (SourceId × Source)} (h : g.stage = .polling) :
      Step g (.db .selectSources) (.ok rows) (g.at' (.judging { todo := rows }))
  | judgedSource {g : Phase} {i : SourceId} {src : Source} {rest : List (SourceId × Source)}
      {point : Judging} {accesses : List Db.Access} {now : Time}
      (h : g.stage = .judging ⟨(i, src) :: rest, point, accesses⟩) :
      Step g (.ext .utcnow) (.ok now) (g.at' (.judging (judged i src rest accesses now point)))
  | looked {g : Phase} {i : SourceId} {src : Source} {rest : List (SourceId × Source)} {hour : Int}
      {accesses : List Db.Access} {found : Bool}
      (h : g.stage = .judging ⟨(i, src) :: rest, .looking hour, accesses⟩) :
      Step g (.db (.hasTask (Db.sourceKey i hour))) (.ok found)
        (g.at' (.judging ⟨(i, src) :: rest, .marking hour found, accesses⟩))
  | accessed {g : Phase} {accesses : List Db.Access} (h : g.stage = .judging ⟨[], .backoff, accesses⟩) :
      Step g (.db (.commitSources accesses)) (.ok ()) (g.at' .done)
  -- the operators
  | operated {g : Phase} {o : Op} {res : Sys.Result o} (h : g.stage = .operator) : Step g o res g
  | inserted {g : Phase} {title prompt : String} {r : RunId} (h : g.stage = .operator) :
      Step g (.db (.insertTask title prompt)) (.ok r) (g.at' (.enqueuing r))
  | resumed {g : Phase} {r : RunId} {loaded : Run} (h : g.stage = .operator)
      (hloaded : Db.resumable loaded = true) :
      Step g (.db (.resumeRun r loaded)) (.ok ()) (g.at' (.enqueuing r))
  | enqueued {g : Phase} {r : RunId} {key : Option Key} {res : Except LibError EntryId}
      (h : g.stage = .enqueuing r) :
      Step g (.redis (.publishToStream [("run_id", .uuid r)] key)) res (g.at' .operator)

variable {cfg} {g : Phase}

/-- Transactions of workers and schedulers that did not commit: the process gives up. -/
theorem step_dropped {o : Op} {res : Sys.Result o} {g' : Phase} (h : g' = .dropped) :
    Step cfg g o res g' :=
  h ▸ .dropped

theorem stepAppend_of_allows {r : RunId} {etype : EventType} {payload : Dict}
    {res : Except LibError Unit} (h : allowsDb g (.appendEvent r etype payload)) :
    Step cfg g (.db (.appendEvent r etype payload)) res
      (nextDb cfg g (.appendEvent r etype payload) res) := by
  obtain ⟨entry, stage⟩ := g
  cases stage with
  | pendingFound r' a =>
    cases h
    rcases res with x | u
    · exact .dropped
    · exact .logged (.inl rfl)
  | settled r' =>
    cases h
    rcases res with x | u
    · exact .dropped
    · exact .settledLogged rfl
  | called r' a p x =>
    cases h
    rcases res with y | u
    · exact .callUnlogged rfl
    · exact .logged (.inr (.inl ⟨p, x, rfl⟩))
  | callFailed r' a =>
    cases h
    rcases res with x | u
    · exact .dropped
    · exact .logged (.inr (.inr rfl))
  | coordinating r' loaded c =>
    obtain ⟨rfl, hmay⟩ := h
    rcases res with x | u
    · exact .coordinated rfl (.unappended hmay)
    · exact .coordinated rfl (.appended hmay)
  | _ => exact h.elim

theorem stepDb_of_allows {o : DbOp} {res : Except LibError o.Ans} (h : allowsDb g o) :
    Step cfg g (.db o) res (nextDb cfg g o res) := by
  cases o with
  | appendEvent r etype payload => exact stepAppend_of_allows h
  | openRun r =>
    obtain ⟨body, hg, hr⟩ := h
    rcases res with x | found
    · exact .dropped
    · cases found with
      | ready loaded task => exact .opened hg hr
      | missing => exact .unopened hg hr (by simp)
      | terminal => exact .unopened hg hr (by simp)
      | taskNotFound => exact .unopened hg hr (by simp)
  | claimRun r =>
    obtain ⟨loaded, hg⟩ := h
    rcases res with x | b
    · exact .dropped
    · cases b with
      | true => simpa only [nextDb, hg] using Step.claimed hg
      | false => exact .unclaimed hg
  | continuation r =>
    obtain ⟨loaded, hg⟩ := h
    rcases res with x | found
    · exact .dropped
    · cases found with
      | none => simpa only [nextDb, hg] using Step.noApproval hg
      | pendingExecution a => simpa only [nextDb, hg] using Step.pendingFound hg
      | consumed a payload => simpa only [nextDb, hg] using Step.consumed hg
      | settled a etype reason => simpa only [nextDb, hg] using Step.settled hg
      | refused a => simpa only [nextDb, hg] using Step.refused hg
  | markAmbiguous r a =>
    rcases res with x | u
    · exact .dropped
    · exact .ambiguous h
  | continuationSucceeded r a tool args result =>
    obtain ⟨payload, hg, rfl, rfl⟩ := h
    rcases res with x | u
    · exact .unsucceeded hg
    · exact .succeeded hg
  | continuationFailed r a error =>
    rcases res with x | u
    · exact .dropped
    · exact .failed h
  | insertPlan r plan =>
    obtain ⟨loaded, c, hg, hp⟩ := h
    rcases res with x | u
    · simpa only [nextDb, hg] using Step.coordinated hg (.noPlanRow hp)
    · obtain ⟨entry, stage⟩ := g
      cases hg
      exact .coordinated rfl (.planRow hp)
  | insertToolCall r tool args result =>
    obtain ⟨loaded, c, act, hg, hp⟩ := h
    rcases res with x | u
    · simpa only [nextDb, hg] using Step.coordinated hg (.noCallRow hp)
    · simpa only [nextDb, hg] using Step.coordinated hg (.callRow hp)
  | createApproval r cls payload impact =>
    obtain ⟨loaded, c, act, hg, hp, rfl⟩ := h
    rcases res with x | a
    · simpa only [nextDb, hg] using Step.coordinated hg (.unrequested hp)
    · simpa only [nextDb, hg] using Step.coordinated hg (.requested hp)
  | pauseCheck r =>
    obtain ⟨loaded, c, hg, hp, htodo⟩ := h
    obtain ⟨act, rest, htodo⟩ := List.exists_cons_of_ne_nil htodo
    rcases res with x | b
    · simpa only [nextDb, hg, htodo] using
        Step.coordinated hg (.unpaused hp htodo (by simp))
    · cases b with
      | true => simpa only [nextDb, hg] using Step.coordinated hg (.paused hp)
      | false =>
        simpa only [nextDb, hg, htodo] using
          Step.coordinated hg (.unpaused hp htodo (by simp))
  | stopCheck r =>
    obtain ⟨loaded, c, act, hg, hp⟩ := h
    rcases res with x | b
    · simpa only [nextDb, hg, hp] using Step.coordinated hg (.unstopped hp (by simp))
    · cases b with
      | true => simpa only [nextDb, hg] using Step.coordinated hg (.stopped hp)
      | false => simpa only [nextDb, hg, hp] using Step.coordinated hg (.unstopped hp (by simp))
  | finalCommit r loaded out =>
    obtain ⟨c, hg, hl⟩ := h
    rcases res with x | u
    · exact .dropped
    · exact .committed hg hl
  | selectOutbox =>
    obtain ⟨now, hg⟩ := h
    rcases res with x | msgs
    · exact .dropped
    · simpa only [nextDb, hg] using Step.selected hg
  | commitOutbox attempts =>
    rcases res with x | u
    · exact .dropped
    · exact .swept h
  | selectExecuting =>
    obtain ⟨cutoff, hg⟩ := h
    rcases res with x | rows
    · exact .dropped
    · simpa only [nextDb, hg] using Step.loaded hg
  | commitRecovery rows =>
    obtain ⟨cutoff, hg⟩ := h
    rcases res with x | u
    · exact .dropped
    · exact .recovered hg
  | selectSources =>
    rcases res with x | rows
    · exact .dropped
    · exact .listed h
  | hasTask idem =>
    obtain ⟨i, src, rest, hour, accesses, hg, rfl⟩ := h
    rcases res with x | found
    · exact .dropped
    · simpa only [nextDb, hg] using Step.looked hg
  | commitSources accesses =>
    rcases res with x | u
    · exact .dropped
    · exact .accessed h
  | createTask t hex =>
    rcases res with x | rep
    · exact .dropped
    · exact .operated h
  | loadRun r =>
    rcases res with x | loaded
    · exact .dropped
    · exact .operated h
  | retryRun r clientKey =>
    rcases res with x | rep
    · exact .operated h
    · exact .operated h
  | decide approvalId decision user =>
    rcases res with x | a
    · exact .operated h
    · exact .operated h
  | insertTask title prompt =>
    rcases res with x | r
    · exact .dropped
    · exact .inserted h
  | setControl r loaded request =>
    rcases res with x | u
    · exact .dropped
    · exact .operated h
  | resumeRun r loaded =>
    obtain ⟨hg, hloaded⟩ := h
    rcases res with x | u
    · exact .dropped
    · exact .resumed hg hloaded

theorem stepRedis_of_allows {o : RedisOp} {res : Except LibError o.Ans} (h : allowsRedis g o) :
    Step cfg g (.redis o) res (nextRedis g o res) := by
  cases o with
  | readGroup =>
    rcases res with x | _ | ⟨e, body⟩
    · exact .dropped
    · exact .dropped
    · exact .read h
  | claimPending =>
    rcases res with x | _ | ⟨e, body⟩
    · exact .dropped
    · exact .dropped
    · exact .reclaimed h
  | rpopLegacy =>
    rcases res with x | _ | body
    · exact .dropped
    · exact .dropped
    · exact .popped
  | ack e => exact .dropped
  | publishToStream payload key =>
    rcases h with ⟨i, m, rest, attempts, hg, rfl, rfl⟩ | ⟨r, hg, rfl⟩
    · rcases res with x | sid
      · simpa only [nextRedis, hg] using Step.unpublished hg
      · simpa only [nextRedis, hg] using Step.published hg
    · simpa only [nextRedis, hg] using Step.enqueued hg
  | publishToDlq payload reason =>
    obtain ⟨cutoff, todo, picked, hg⟩ := h
    exact .dlq hg

theorem stepExt_of_allows {o : ExtOp} {res : Except LibError o.Ans} (h : allowsExt g o) :
    Step cfg g (.ext o) res (nextExt cfg g o res) := by
  cases o with
  | makePlan prompt scope =>
    obtain ⟨r, loaded, c, hg, hp⟩ := h
    rcases res with x | plan
    · simpa only [nextExt, hg] using Step.coordinated hg (.unplanned hp)
    · simpa only [nextExt, hg] using Step.coordinated hg (.planned hp)
  | callTool r caller tool args =>
    cases caller with
    | coordinator =>
      obtain ⟨loaded, c, act, hg, hp, rfl, rfl⟩ := h
      rcases res with x | result
      · simpa only [nextExt, hg] using Step.coordinated hg (.raised hp)
      · simpa only [nextExt, hg, hp] using Step.coordinated hg (.called hp)
    | continuation a =>
      obtain ⟨payload, hg, rfl, rfl⟩ := h
      rcases res with x | result
      · simpa only [nextExt, hg] using Step.approvedRaised hg
      · simpa only [nextExt, hg] using Step.approvedCalled hg
  | monotonic reading =>
    obtain ⟨r, loaded, c, hg, hread⟩ := h
    rcases res with x | now
    · simpa only [nextExt, hg] using Step.coordinated hg .noClock
    · cases reading with
      | started => simpa only [nextExt, hg, hread] using Step.coordinated hg (.begun hread)
      | budget =>
        obtain ⟨act, hp⟩ := hread
        simpa only [nextExt, hg, hp] using Step.coordinated hg (.budgeted hp)
      | breaker => simpa only [nextExt, hg, hread] using Step.coordinated hg (.recorded hread)
  | utcnow =>
    rcases res with x | now
    · exact .dropped
    · obtain ⟨entry, stage⟩ := g
      simp only [allowsExt] at h
      split at h
      · exact .sweeping rfl
      · exact .watching rfl
      · exact .judged rfl
      · exact h.elim
      · exact .judgedSource rfl
      · exact h.elim
  | startHeartbeat r =>
    obtain ⟨loaded, hg⟩ := h
    rcases res with x | u
    · exact .dropped
    · obtain ⟨entry, stage⟩ := g
      cases hg
      exact .coordinated rfl .beating
  | stopHeartbeat =>
    obtain ⟨r, loaded, c, hg, hp⟩ := h
    rcases res with x | u
    · exact .dropped
    · rcases hp with hp | hp | hp
      · simpa only [nextExt, hg, hp] using Step.returned hg (.inl hp)
      · simpa only [nextExt, hg, hp] using Step.returned hg (.inr hp)
      · exact step_dropped (by simp only [nextExt, hg, hp])
  | reply rep =>
    rcases res with x | u
    · exact .dropped
    · exact .operated h

/-- **What an allowed operation does to the phase.** -/
theorem step_of_allows {o : Op} {res : Sys.Result o} (h : (flow cfg).allows g o) :
    Step cfg g o res ((flow cfg).next g o res) := by
  cases o with
  | db o => exact stepDb_of_allows h
  | redis o => exact stepRedis_of_allows h
  | ext o => exact stepExt_of_allows h

end Flow

end Observatory
