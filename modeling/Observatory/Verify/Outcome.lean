import Observatory.Verify.Mediation

/-!
# Outcomes and budgets

Two counters stand for the work of a run: `iteration` is advanced before the policy is asked, and
`tool_calls_count` once a call has returned.  So every call is made with fewer calls than
`max_iterations` behind it and with fewer returned calls than `max_tool_calls` (`tally`); a call
that fails is not counted against the second (`ToolCalls` tells when that lets a run overrun it).
The same count tells what the status of a run that has come to its end says about its calls.
-/

namespace Observatory

open Effect Effect.Prog

namespace Outcome

open Audit Mediation

/-! ## The protocol -/

/-- The calls so far, those that returned, and whether the sink took a request for approval. -/
structure Tally where
  calls : Nat := 0
  returned : Nat := 0
  awaited : Bool := false

def Tally.next (g : Tally) : (o : CoordOp) → Asked.Result o → Tally
  | .execute .., .ok _ => { g with calls := g.calls + 1, returned := g.returned + 1 }
  | .execute .., .error _ => { g with calls := g.calls + 1 }
  | .eventSink .awaitingApproval _, .ok () => { g with awaited := true }
  | _, _ => g

/-- A call is made below both limits. -/
def tally (budget : RunBudget) : Protocol Asked Tally where
  allows g
    | .execute .. => g.returned < budget.maxToolCalls ∧ g.calls < budget.maxIterations
    | _ => True
  next := Tally.next

/-- What does not count. -/
def uncounted : CoordOp → Bool
  | .execute .. | .eventSink .awaitingApproval _ => false
  | _ => true

/-! ## What the coordinator keeps -/

/-- The counters and the evidence against the calls. -/
structure Counted (s : CoordState) (g : Tally) : Prop where
  calls : g.calls ≤ s.counters.iteration
  returned : g.returned = s.counters.toolCallsCount
  clean : s.hadError = false → g.calls = g.returned
  evidence : s.executed.any (·.ok) = true → 0 < g.returned

/-- The loop has decided the run. -/
inductive Decided (s : CoordState) (g : Tally) : Prop where
  | failed (h : s.status = .failed)
  | cancelled (h : s.status = .cancelled)
  | paused (h : s.status = .paused)
  | waiting (h : s.status = .waitingApproval) (ha : g.awaited = true)

/-- After the loop. -/
structure Over (s : CoordState) (g : Tally) : Prop where
  counted : Counted s g
  status : RunCoordinator.undecided s.status = true ∨ Decided s g

/-- Between two rounds. -/
structure Running (s : CoordState) (g : Tally) : Prop where
  counted : Counted s g
  status : RunCoordinator.undecided s.status = true

/-- What a round leaves. -/
def Rounded (out : Next × CoordState) (g : Tally) : Prop :=
  match out.1 with
  | .go => Running out.2 g
  | .stop => Over out.2 g

/-- What the final status says. -/
structure Reported (given : Given) (s : CoordState) (g : Tally) : Prop where
  status : s.status ∈ [RunStatus.completed, .failed, .cancelled, .paused, .waitingApproval]
  completed : s.status = .completed → g.calls = g.returned ∧
    (s.executed.any (·.ok) = true → 0 < g.returned) ∧ given.verify s.executed = .ok true
  waiting : s.status = .waitingApproval → g.awaited = true

section coordinator

variable {given : Given} {s : CoordState} {g : Tally} {act : Action} {β : Type}
  {R : β → Tally → Prop}

/-- Nothing is promised of an exception. -/
def Anything (_ : Tally) : Prop := True

theorem uncounted_next {o : CoordOp} (ho : uncounted o = true) (res : Asked.Result o) :
    g.next o res = g := by
  cases o with
  | execute => cases ho
  | eventSink etype payload =>
    cases etype with
    | awaitingApproval => cases ho
    | _ => rfl
  | _ => rfl

theorem uncounted_allows {o : CoordOp} (ho : uncounted o = true) :
    (tally given.budget).allows g o := by
  cases o with
  | execute => cases ho
  | _ => trivial

theorem uncounted_ask {o : CoordOp} {f : o.Ans → Prog Asked PyExc β} (ho : uncounted o = true)
    (hf : ∀ a, wp (tally given.budget) (f a) (Ends R Anything) g) :
    wp (tally given.budget) ((ask o).bind f) (Ends R Anything) g := by
  refine Ends.call (uncounted_allows ho) ?_ fun _ => trivial
  intro a
  have hnext : (tally given.budget).next g o (.ok a) = g := uncounted_next ho _
  rw [hnext]
  exact hf a

theorem uncounted_attempt {o : CoordOp} {f : Except PyExc o.Ans → Prog Asked PyExc β}
    (ho : uncounted o = true)
    (hf : ∀ res, wp (tally given.budget) (f res) (Ends R Anything) g) :
    wp (tally given.budget) ((ask o).attempt.bind f) (Ends R Anything) g := by
  have hnext : ∀ res, (tally given.budget).next g o res = g := uncounted_next ho
  refine Ends.attempt (uncounted_allows ho) ?_ ?_
  · intro a
    rw [hnext]
    exact hf (.ok a)
  · intro x
    rw [hnext]
    exact hf (.error x)

/-- A call has failed, or the sink has refused what it returned. -/
theorem toolError_counted {x : PyExc} (hs : RunCoordinator.undecided s.status = true)
    (hcalls : g.calls ≤ s.counters.iteration) (hret : g.returned = s.counters.toolCallsCount)
    (hev : s.executed.any (·.ok) = true → 0 < g.returned) :
    wp (tally given.budget) (RunCoordinator.toolError (collaborators given) act x s)
      (Ends Rounded Anything) g := by
  simp only [RunCoordinator.toolError, bind_eq]
  refine uncounted_ask rfl ?_
  intro _
  refine uncounted_ask rfl ?_
  intro now
  have hevidence : (s.executed ++ [(⟨none, act.tool, act.arguments, .error x.name⟩ : Executed)]).any
      (·.ok) = true → 0 < g.returned := by
    intro hany
    refine hev ?_
    simpa [Executed.ok] using hany
  split
  · exact ⟨⟨hcalls, hret, (fun h => by cases h), hevidence⟩, .inr (.failed rfl)⟩
  · exact ⟨⟨hcalls, hret, (fun h => by cases h), hevidence⟩, hs⟩

/-- A call is made. -/
theorem callTool_counted (hs : RunCoordinator.undecided s.status = true)
    (hcalls : g.calls + 1 ≤ s.counters.iteration) (hret : g.returned = s.counters.toolCallsCount)
    (hclean : s.hadError = false → g.calls = g.returned)
    (hev : s.executed.any (·.ok) = true → 0 < g.returned)
    (hlimit : g.returned < given.budget.maxToolCalls ∧ g.calls < given.budget.maxIterations) :
    wp (tally given.budget) (RunCoordinator.callTool (collaborators given) act s)
      (Ends Rounded Anything) g := by
  simp only [RunCoordinator.callTool, bind_eq]
  refine Ends.attempt hlimit ?_ ?_
  · intro result
    refine uncounted_attempt rfl ?_
    rintro (x | _)
    · refine toolError_counted hs hcalls ?_ fun _ => Nat.succ_pos _
      exact congrArg Nat.succ hret
    · refine ⟨⟨hcalls, congrArg Nat.succ hret, ?_, fun _ => Nat.succ_pos _⟩, hs⟩
      intro hnone
      exact congrArg Nat.succ (hclean hnone)
  · intro x
    exact toolError_counted hs hcalls hret hev

/-- The limits that `can_continue` has found kept. -/
def Below (budget : RunBudget) (c : Counters) : Prop :=
  c.iteration < budget.maxIterations ∧ c.toolCallsCount < budget.maxToolCalls

theorem below_of_refusal {c : Counters} {budget : RunBudget} {now : Seconds}
    (h : c.refusal budget now = none) : Below budget c := by
  unfold Counters.refusal at h
  split at h
  · cases h
  · split at h
    · cases h
    · next hiter =>
      split at h
      · cases h
      · next hcalls => exact ⟨Nat.not_le.1 hiter, Nat.not_le.1 hcalls⟩

/-- The policy decides, the limits being kept. -/
theorem decideAction_counted (hr : Running s g) (hb : Below given.budget s.counters) :
    wp (tally given.budget) (RunCoordinator.decideAction (collaborators given) act s)
      (Ends Rounded Anything) g := by
  have hcalls := hr.counted.calls
  simp only [RunCoordinator.decideAction, bind_eq]
  refine uncounted_ask rfl ?_
  intro _
  cases ((collaborators given).policy.decide act.tool).decision with
  | deny =>
    refine ⟨⟨Nat.le_succ_of_le hcalls, ?_, ?_, ?_⟩, .inr (.failed rfl)⟩
    · exact hr.counted.returned
    · exact hr.counted.clean
    · exact hr.counted.evidence
  | requireApproval =>
    refine Ends.call trivial ?_ fun _ => trivial
    intro _
    refine ⟨⟨Nat.le_succ_of_le hcalls, ?_, ?_, ?_⟩, .inr (.waiting rfl rfl)⟩
    · exact hr.counted.returned
    · exact hr.counted.clean
    · exact hr.counted.evidence
  | allow =>
    refine callTool_counted rfl (Nat.succ_le_succ hcalls) ?_ ?_ ?_ ⟨?_, ?_⟩
    · exact hr.counted.returned
    · exact hr.counted.clean
    · exact hr.counted.evidence
    · exact hr.counted.returned.trans_lt hb.2
    · exact hcalls.trans_lt hb.1

/-- `can_continue` lets through what is below the limits. -/
theorem canContinue_counted (hr : Running s g) :
    wp (tally given.budget) (RunCoordinator.canContinue (collaborators given) s)
      (Ends (fun out g => Running out.2 g ∧
        (out.1 = true → Below given.budget out.2.counters)) Anything) g := by
  obtain ⟨⟨hcalls, hret, hclean, hev⟩, hs⟩ := hr
  simp only [RunCoordinator.canContinue, bind_eq]
  refine uncounted_ask rfl ?_
  rintro ⟨kill, pause⟩
  cases kill with
  | true => exact ⟨⟨⟨hcalls, hret, hclean, hev⟩, hs⟩, fun h => by cases h⟩
  | false =>
    cases pause with
    | true => exact ⟨⟨⟨hcalls, hret, hclean, hev⟩, hs⟩, fun h => by cases h⟩
    | false =>
      refine uncounted_ask rfl ?_
      intro now
      split
      · exact ⟨⟨⟨hcalls, hret, hclean, hev⟩, hs⟩, fun h => by cases h⟩
      · next hnone =>
        exact ⟨⟨⟨hcalls, hret, hclean, hev⟩, hs⟩, fun _ => below_of_refusal hnone⟩

/-- One round of the loop. -/
theorem runAction_counted (hr : Running s g) :
    wp (tally given.budget) (RunCoordinator.runAction (collaborators given) act s)
      (Ends Rounded Anything) g := by
  have hc := hr.counted
  simp only [RunCoordinator.runAction, bind_eq]
  refine uncounted_ask rfl ?_
  intro paused
  split
  · exact ⟨⟨hc.calls, hc.returned, hc.clean, hc.evidence⟩, .inr (.paused rfl)⟩
  · refine uncounted_ask rfl ?_
    intro stopped
    split
    · exact ⟨⟨hc.calls, hc.returned, hc.clean, hc.evidence⟩, .inr (.cancelled rfl)⟩
    · refine Ends.bind (canContinue_counted hr) ?_
      rintro ⟨goOn, s'⟩ g' ⟨hr', hbelow⟩
      cases goOn with
      | true => exact decideAction_counted hr' (hbelow rfl)
      | false => exact ⟨hr'.counted, .inl hr'.status⟩

/-- **The loop**, by induction on the actions still to come. -/
theorem runActions_counted {acts : List (Option Action)} (hr : Running s g) :
    wp (tally given.budget) (RunCoordinator.runActions (collaborators given) acts s)
      (Ends Over Anything) g := by
  induction acts generalizing s g with
  | nil => exact ⟨hr.counted, .inl hr.status⟩
  | cons act acts ih =>
    cases act with
    | none => exact ih hr
    | some act =>
      simp only [RunCoordinator.runActions, bind_eq]
      refine Ends.bind (runAction_counted hr) ?_
      rintro ⟨step, s'⟩ g' hround
      cases step with
      | go => exact ih hround
      | stop => exact hround

/-- What the loop and the flags have decided is reported. -/
theorem Decided.reported (hd : Decided s g) : Reported given s g := by
  cases hd with
  | failed h => exact ⟨by simp [h], by simp [h], by simp [h]⟩
  | cancelled h => exact ⟨by simp [h], by simp [h], by simp [h]⟩
  | paused h => exact ⟨by simp [h], by simp [h], by simp [h]⟩
  | waiting h ha => exact ⟨by simp [h], by simp [h], fun _ => ha⟩

/-- Between `settleStatus` and the end: decided, or passed by the verifier. -/
inductive Settled (given : Given) (s : CoordState) (g : Tally) : Prop where
  | decided (hd : Decided s g)
  | passed (hs : s.status = .persisting) (hcalls : g.calls = g.returned)
      (hev : s.executed.any (·.ok) = true → 0 < g.returned)
      (hv : given.verify s.executed = .ok true)

theorem settleStatus_counted (ho : Over s g) :
    wp (tally given.budget) (RunCoordinator.settleStatus (collaborators given) s)
      (Ends (Settled given) Anything) g := by
  simp only [RunCoordinator.settleStatus, bind_eq]
  refine uncounted_ask rfl ?_
  rintro ⟨kill, pause⟩
  cases pause with
  | true => exact .decided (.paused rfl)
  | false =>
    cases kill with
    | true => exact .decided (.cancelled rfl)
    | false =>
      simp only [Bool.false_eq_true, ite_false]
      cases hu : RunCoordinator.undecided s.status with
      | false =>
        refine .decided (ho.status.resolve_left ?_)
        rw [hu]
        exact Bool.false_ne_true
      | true =>
        simp only [Bool.not_true, Bool.false_eq_true, ite_false]
        cases herr : s.hadError with
        | true => exact .decided (.failed rfl)
        | false =>
          simp only [Bool.false_eq_true, ite_false]
          refine uncounted_ask rfl ?_
          intro _
          have hverify : (collaborators given).verify s.executed = given.verify s.executed := rfl
          have hclean := ho.counted.clean herr
          cases hv : given.verify s.executed with
          | error x => exact .decided (.failed (by simp [hverify, hv]))
          | ok passed =>
            cases passed with
            | false => exact .decided (.failed (by simp [hverify, hv]))
            | true =>
              exact .passed (by simp [hverify, hv]) hclean ho.counted.evidence hv

theorem finalize_counted (ho : Over s g) :
    wp (tally given.budget) (RunCoordinator.finalize (collaborators given) s)
      (Ends (Reported given) Anything) g := by
  simp only [RunCoordinator.finalize, bind_eq]
  refine Ends.bind (settleStatus_counted ho) ?_
  intro s' g' hsettled
  refine uncounted_ask rfl ?_
  intro _
  cases hsettled with
  | decided hd =>
    have hreported : Reported given s' g' := hd.reported
    have hnot : s'.status ≠ .persisting := by
      intro hs
      have hmem := hreported.status
      rw [hs] at hmem
      simp at hmem
    simp only [if_neg hnot]
    obtain ⟨hstatus, hcompleted, hwaiting⟩ := hreported
    exact ⟨hstatus, hcompleted, hwaiting⟩
  | passed hs hcalls hev hv =>
    simp only [if_pos hs]
    exact ⟨by simp [CoordState.emit], fun _ => ⟨hcalls, hev, hv⟩, fun h => by cases h⟩

/-- **The coordinator**, from the first reading of the clock to the final status. -/
theorem run_counted {runId : Text} :
    wp (tally given.budget) (RunCoordinator.run (collaborators given) runId)
      (Ends (Reported given) Anything) {} := by
  simp only [RunCoordinator.run, bind_eq]
  refine uncounted_ask rfl ?_
  intro now
  refine uncounted_ask rfl ?_
  intro _
  refine uncounted_ask rfl ?_
  intro plan
  refine uncounted_ask rfl ?_
  intro _
  refine uncounted_ask rfl ?_
  intro _
  refine Ends.bind (runActions_counted ?_) fun s g ho => finalize_counted ho
  exact ⟨⟨Nat.zero_le _, rfl, fun _ => rfl, fun h => by cases h⟩, rfl⟩

end coordinator

/-! ## Reading the tally off a trace -/

/-- A call of a tool. -/
def isCall (e : Performed Asked) : Bool :=
  match e.op with
  | .execute .. => true
  | _ => false

/-- A call of a tool that failed. -/
def callFailed : Performed Asked → Bool
  | ⟨.execute .., .error _⟩ => true
  | _ => false

def calls (t : List (Performed Asked)) : Nat := t.countP isCall

def failures (t : List (Performed Asked)) : Nat := t.countP callFailed

section trace

variable {t : List (Performed Asked)} {g : Tally}

theorem calls_cons (e : Performed Asked) : calls (e :: t) = calls [e] + calls t := by
  rw [calls, ← List.singleton_append, List.countP_append]
  rfl

theorem failures_cons (e : Performed Asked) : failures (e :: t) = failures [e] + failures t := by
  rw [failures, ← List.singleton_append, List.countP_append]
  rfl

/-- The sink accepts a request for an approval. -/
def Awaited (t : List (Performed Asked)) : Prop :=
  ∃ payload, ⟨.eventSink .awaitingApproval payload, .ok ()⟩ ∈ t

/-- One answer. -/
theorem next_tally (e : Performed Asked) : (g.next e.op e.result).calls = g.calls + calls [e] ∧
    (g.next e.op e.result).returned + failures [e] = g.returned + calls [e] ∧
      ((g.next e.op e.result).awaited = true → g.awaited = true ∨ Awaited [e]) := by
  obtain ⟨o, res⟩ := e
  by_cases ho : uncounted o = true
  · have hcall : calls [⟨o, res⟩] = 0 ∧ failures [⟨o, res⟩] = 0 := by
      cases o with
      | execute => cases ho
      | _ => exact ⟨rfl, rfl⟩
    rw [uncounted_next ho, hcall.1, hcall.2]
    exact ⟨rfl, rfl, .inl⟩
  · cases o with
    | execute tool args => cases res <;> exact ⟨rfl, rfl, .inl⟩
    | eventSink etype payload =>
      cases etype with
      | awaitingApproval =>
        cases res with
        | error x => exact ⟨rfl, rfl, .inl⟩
        | ok u => exact ⟨rfl, rfl, fun _ => .inr ⟨payload, List.mem_cons_self⟩⟩
      | _ => exact absurd rfl ho
    | _ => exact absurd rfl ho

/-- **The tally of a trace** counts its calls. -/
theorem after_tally (budget : RunBudget) (g : Tally) (t : List (Performed Asked)) :
    ((tally budget).after g t).calls = g.calls + calls t ∧
      ((tally budget).after g t).returned + failures t = g.returned + calls t ∧
        (((tally budget).after g t).awaited = true → g.awaited = true ∨ Awaited t) := by
  induction t generalizing g with
  | nil => exact ⟨rfl, rfl, .inl⟩
  | cons e t ih =>
    obtain ⟨hcalls, hret, hawaited⟩ := ih ((tally budget).next g e.op e.result)
    obtain ⟨hcalls₁, hret₁, hawaited₁⟩ := next_tally (g := g) e
    have hnext : (tally budget).next g e.op e.result = g.next e.op e.result := rfl
    rw [hnext] at hcalls hret hawaited
    rw [Protocol.after, hnext, calls_cons, failures_cons]
    refine ⟨by omega, by omega, ?_⟩
    intro ha
    rcases hawaited ha with ha | ⟨payload, hmem⟩
    · refine (hawaited₁ ha).imp_right ?_
      rintro ⟨payload, hmem⟩
      obtain rfl := List.mem_singleton.1 hmem
      exact ⟨payload, List.mem_cons_self⟩
    · exact .inr ⟨payload, List.mem_cons_of_mem _ hmem⟩

end trace

/-! ## Outcomes -/

/-- The coordinator with the default verifier. -/
def byDefault (given : Given) : Given :=
  { given with verify := fun executed => .ok (defaultVerify executed) }

/-- **A run ends in a reportable state.**  It is COMPLETED only when no call has failed, some call
has returned and the verifier has passed it, and WAITING_APPROVAL only when the sink has taken a
request for approval. -/
theorem status_reportable {given : Given} {runId : Text} {t : List (Performed Asked)}
    {s : CoordState}
    (hexec : Exec (RunCoordinator.run (collaborators (byDefault given)) runId) t (.ok s)) :
    s.status ∈ [RunStatus.completed, .failed, .cancelled, .paused, .waitingApproval] ∧
      (s.status = .completed → failures t = 0 ∧ 0 < calls t ∧ defaultVerify s.executed = true) ∧
        (s.status = .waitingApproval → Awaited t) := by
  obtain ⟨-, hreported⟩ := hexec.sound run_counted
  obtain ⟨hstatus, hcompleted, hwaiting⟩ := hreported
  obtain ⟨hcalls, hret, hawaited⟩ := after_tally (byDefault given).budget {} t
  refine ⟨hstatus, ?_, ?_⟩
  · intro hs
    obtain ⟨hclean, hev, hv⟩ := hcompleted hs
    have hverify : defaultVerify s.executed = true := by simpa [byDefault] using hv
    have hany : s.executed.any (·.ok) = true := by
      simp only [defaultVerify, Bool.and_eq_true] at hverify
      exact hverify.2.1
    have hpos := hev hany
    refine ⟨?_, ?_, hverify⟩ <;> simp only [Nat.zero_add] at hcalls hret <;> omega
  · intro hs
    exact (hawaited (hwaiting hs)).resolve_left nofun

/-- A run of the defaults, given the answers. -/
def playedOut (answer : (o : CoordOp) → Asked.Result o) :
    List (Performed Asked) × Except PyExc CoordState :=
  (RunCoordinator.run (collaborators (byDefault given)) (.uuid 0)).play answer

/-- A run whose only action succeeds. -/
theorem status_reportable_completed : ∃ t s,
    Exec (RunCoordinator.run (collaborators (byDefault given)) (.uuid 0)) t (.ok s) ∧
      s.status = .completed ∧ failures t = 0 ∧ 0 < calls t := by
  have hstatus : (playedOut (undisturbed "technocore_read")).2.toOption.map (·.status) =
      some .completed := by
    decide +kernel
  have hexec := exec_play (undisturbed "technocore_read")
    (RunCoordinator.run (collaborators (byDefault given)) (.uuid 0))
  obtain ⟨s, hs, hcompleted⟩ := Option.map_eq_some_iff.1 hstatus
  have hok : (playedOut (undisturbed "technocore_read")).2 = .ok s := by
    cases hres : (playedOut (undisturbed "technocore_read")).2 with
    | error x =>
      rw [hres] at hs
      cases hs
    | ok s' =>
      rw [hres] at hs
      cases hs
      rfl
  have hrun : Exec (RunCoordinator.run (collaborators (byDefault given)) (.uuid 0))
      (playedOut (undisturbed "technocore_read")).1 (.ok s) := hok ▸ hexec
  obtain ⟨-, hout, -⟩ := status_reportable hrun
  exact ⟨_, s, hrun, hcompleted, (hout hcompleted).1, (hout hcompleted).2.1⟩

/-! ## Budgets -/

section budget

variable {given : Given} {runId : Text} {t : List (Performed Asked)} {res : Except PyExc CoordState}

/-- Every call is made below the limit of the iterations. -/
theorem call_below (hexec : Exec (RunCoordinator.run (collaborators given) runId) t res)
    {older newer : List (Performed Asked)} {e : Performed Asked} (heq : t = older ++ e :: newer)
    (he : isCall e = true) : calls older < given.budget.maxIterations := by
  obtain ⟨hadm, -⟩ := hexec.sound run_counted
  rw [heq, Protocol.admits_append] at hadm
  obtain ⟨-, hallowed, -⟩ := hadm
  obtain ⟨hcalls, -, -⟩ := after_tally given.budget {} older
  obtain ⟨o, r⟩ := e
  cases o with
  | execute tool args =>
    obtain ⟨-, hmade⟩ := hallowed
    simp only [Nat.zero_add] at hcalls
    omega
  | _ => cases he

/-- The calls of a trace are bounded by what bounds the calls before each of them. -/
theorem calls_le {n : Nat} (h : ∀ older e newer, t = older ++ e :: newer → isCall e = true →
    calls older < n) : calls t ≤ n := by
  induction t using List.reverseRecOn with
  | nil => exact Nat.zero_le n
  | append_singleton t e ih =>
    have hsplit : calls (t ++ [e]) = calls t + calls [e] := List.countP_append
    cases he : isCall e with
    | true =>
      have hlast := h t e [] rfl he
      have hone : calls [e] = 1 := by simp [calls, he]
      omega
    | false =>
      have hnone : calls [e] = 0 := by simp [calls, he]
      have hrest : calls t ≤ n := by
        refine ih ?_
        intro older e' newer heq hcall
        exact h older e' (newer ++ [e]) (by rw [heq]; simp) hcall
      omega

/-- **The iterations bound the calls**, whatever fails. -/
theorem calls_le_iterations (hexec : Exec (RunCoordinator.run (collaborators given) runId) t res) :
    calls t ≤ given.budget.maxIterations := by
  refine calls_le ?_
  intro older e newer heq he
  exact call_below hexec heq he

end budget

end Outcome

end Observatory
