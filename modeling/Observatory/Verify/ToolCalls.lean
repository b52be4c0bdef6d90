import Observatory.Verify.Outcome

/-!
# When the tool budget is overrun

The outside answers a run before its loop and in every round of it (`Answers`); any trace is
answered in some such way (`exists_answers`).  `Overruns` says of the answers, the plan and the
budget that the first `max_tool_calls` calls all leave the loop going, that one of them fails, and
that the loop comes to another call.  A run makes more calls than allowed just in that case
(`calls_within_budget_iff`): a round either stops the loop before the limit is reached or keeps the
counters in step with the answers (`Paced`).
-/

namespace Observatory

open Effect Effect.Prog

namespace Outcome

open Audit Mediation

/-! ## Answers -/

/-- What the outside answers: before the loop (`0`), and in each round of it. -/
abbrev Answers := Nat → (o : CoordOp) → Asked.Result o

/-- A round begins with the question whether to pause. -/
def beginsRound : CoordOp → Bool
  | .pauseCheck => true
  | _ => false

/-- Where a trace stands: the round, and what has been asked in it. -/
structure Place where
  round : Nat := 0
  asked : List CoordOp := []

namespace Place

/-- The round in which the operation is performed. -/
def enter (p : Place) (o : CoordOp) : Place := if beginsRound o then ⟨p.round + 1, []⟩ else p

def next (p : Place) (o : CoordOp) : Place := ⟨(p.enter o).round, o :: (p.enter o).asked⟩

/-- The operation is still to be asked in that round. -/
def Later (p : Place) (n : Nat) (o : CoordOp) : Prop :=
  p.round < n ∨ p.round = n ∧ o ∉ p.asked

theorem later_enter {p : Place} {o : CoordOp} (hnew : o ∉ (p.enter o).asked) :
    p.Later (p.enter o).round o := by
  cases ho : beginsRound o with
  | true =>
    rw [enter, if_pos ho]
    exact .inl (Nat.lt_succ_self _)
  | false =>
    rw [enter, if_neg (by rw [ho]; exact Bool.false_ne_true)] at hnew ⊢
    exact .inr ⟨rfl, hnew⟩

theorem Later.of_next {p : Place} {o o' : CoordOp} {n : Nat} (h : (p.next o).Later n o') :
    p.Later n o' := by
  unfold next enter at h
  split at h
  · rcases h with hlt | ⟨rfl, -⟩
    · exact .inl ((Nat.lt_succ_self _).trans hlt)
    · exact .inl (Nat.lt_succ_self _)
  · rcases h with hlt | ⟨rfl, hnew⟩
    · exact .inl hlt
    · exact .inr ⟨rfl, fun hmem => hnew (List.mem_cons_of_mem _ hmem)⟩

theorem not_later_next {p : Place} {o : CoordOp} :
    ¬(p.next o).Later (p.enter o).round o := by
  rintro (hlt | ⟨-, hnew⟩)
  · exact Nat.lt_irrefl _ hlt
  · exact hnew List.mem_cons_self

end Place

/-- What is asked for the first time in a round is answered as `answers` say. -/
def Follows (answers : Answers) : Place → List (Performed Asked) → Prop
  | _, [] => True
  | p, e :: t =>
    (e.op ∉ (p.enter e.op).asked → e.result = answers (p.enter e.op).round e.op) ∧
      Follows answers (p.next e.op) t

/-- Only what is still to be asked matters. -/
theorem Follows.congr {answers answers' : Answers} {p : Place} {t : List (Performed Asked)}
    (h : ∀ n o, p.Later n o → answers n o = answers' n o) (hf : Follows answers p t) :
    Follows answers' p t := by
  induction t generalizing p with
  | nil => trivial
  | cons e t ih =>
    refine ⟨fun hnew => ?_, ih (fun n o hlater => h n o hlater.of_next) hf.2⟩
    rw [← h _ _ (Place.later_enter hnew)]
    exact hf.1 hnew

/-- **Every trace is answered in some way.** -/
theorem exists_answers (p : Place) (t : List (Performed Asked)) :
    ∃ answers, Follows answers p t := by
  induction t generalizing p with
  | nil => exact ⟨fun _ o => .error (.lib ⟨"", ""⟩), trivial⟩
  | cons e t ih =>
    obtain ⟨answers, hrest⟩ := ih (p.next e.op)
    classical
    refine ⟨Function.update answers (p.enter e.op).round
      (Function.update (answers (p.enter e.op).round) e.op e.result), fun _ => ?_,
      hrest.congr fun n o hlater => ?_⟩
    · rw [Function.update_self, Function.update_self]
    · by_cases hn : n = (p.enter e.op).round
      · subst hn
        have ho : o ≠ e.op := by
          rintro rfl
          exact Place.not_later_next hlater
        rw [Function.update_self, Function.update_of_ne ho]
      · rw [Function.update_of_ne hn]

/-! ## Overrunning the budget -/

/-- The actions the loop goes through. -/
def actionsOf (plan : Plan) : List Action := plan.steps.reduceOption

section overruns

variable (given : Given) (answers : Answers)

/-- The tool raises. -/
def CallFails (i : Nat) (act : Action) : Prop :=
  ∃ x, answers i (.execute act.tool act.arguments) = .error x

/-- What the call of an action raises: the tool, or the sink that is handed its result. -/
def raised (i : Nat) (act : Action) : Option PyExc :=
  match answers i (.execute act.tool act.arguments) with
  | .error x => some x
  | .ok result =>
    match answers i (.eventSink .toolCall [("tool", .str act.tool),
        ("arguments", .obj act.arguments), ("result", result), ("ok", .bool true)]) with
    | .error x => some x
    | .ok _ => none

/-- The round of an action comes to its call: nothing pauses or stops the run, its time is not over,
the policy allows the action and the sink takes the decision. -/
structure Reaches (startedAt : Seconds) (i : Nat) (act : Action) : Prop where
  unpaused : answers i .pauseCheck = .ok false
  unstopped : answers i .stopCheck = .ok false
  flags : answers i .flags = .ok (false, false)
  inTime : ∃ now, answers i (.monotonic .budget) = .ok now ∧
    ¬(startedAt ≠ 0 ∧ now - startedAt > given.budget.maxWallSeconds)
  allowed : (given.policy.decide act.tool).decision = .allow
  recorded : answers i (.eventSink .policyCheck (checkPayload given.policy act)) = .ok ()

/-- The loop goes on after the call: what it raises is recorded and does not open the breaker. -/
structure GoesOn (startedAt : Seconds) (b : CircuitBreaker) (i : Nat) (act : Action) : Prop where
  reaches : Reaches given answers startedAt i act
  survives : ∀ x, raised answers i act = some x →
    answers i (.eventSink .toolError [("tool", .str act.tool), ("error", .str x.name)]) = .ok () ∧
      ∃ now, answers i (.monotonic .breaker) = .ok now ∧ (b.recordFailure act.tool now).2 = false

/-- The breaker after a call. -/
def breakerAfter (b : CircuitBreaker) (i : Nat) (act : Action) : CircuitBreaker :=
  match raised answers i act, answers i (.monotonic .breaker) with
  | none, _ => b.reset act.tool
  | some _, .ok now => (b.recordFailure act.tool now).1
  | some _, .error _ => b

/-- The breaker after some calls. -/
def breakerAt (acts : List Action) : Nat → CircuitBreaker
  | 0 => fun _ => []
  | i + 1 => (acts[i]?).elim (breakerAt acts i) (breakerAfter answers (breakerAt acts i) (i + 1))

/-- **The budget is overrun**: there are iterations left after `max_tool_calls` calls, one of these
fails, none of them ends the loop, and the loop comes to another call. -/
structure Overruns (plan : Plan) (startedAt : Seconds) : Prop where
  iterations : given.budget.maxToolCalls < given.budget.maxIterations
  tokens : (Counters.addUsage {} plan.usage).tokensUsed ≤ given.budget.maxTokens
  cost : (Counters.addUsage {} plan.usage).costUsed ≤ given.budget.maxCost
  goesOn : ∀ i act, i < given.budget.maxToolCalls → (actionsOf plan)[i]? = some act →
    GoesOn given answers startedAt (breakerAt answers (actionsOf plan) i) (i + 1) act
  fails : ∃ i act, i < given.budget.maxToolCalls ∧ (actionsOf plan)[i]? = some act ∧
    CallFails answers (i + 1) act
  reached : ∃ act, (actionsOf plan)[given.budget.maxToolCalls]? = some act ∧
    Reaches given answers startedAt (given.budget.maxToolCalls + 1) act

/-- The loop is entered, and its budget overrun. -/
def RunOverruns (runId : Text) : Prop := ∃ plan startedAt,
  answers 0 (.monotonic .started) = .ok startedAt ∧
  answers 0 (.eventSink .started [("run_id", .text runId)]) = .ok () ∧
  answers 0 .makePlan = .ok plan ∧
  answers 0 (.eventSink .plan [("plan", plan.toJson)]) = .ok () ∧
  answers 0 (.eventSink .context [("segments", given.segments)]) = .ok () ∧
  Overruns given answers plan startedAt

end overruns

/-! ## Counting along the answers -/

/-- The calls of a trace, and whether it is answered as it should be. -/
structure Scan where
  place : Place := {}
  calls : Nat := 0
  follows : Prop := True

/-- An observer of the answers. -/
def scan (answers : Answers) : Protocol Asked Scan where
  allows _ _ := True
  next g o res :=
    { place := g.place.next o
      calls := g.calls + calls [⟨o, res⟩]
      follows := g.follows ∧
        (o ∉ (g.place.enter o).asked → res = answers (g.place.enter o).round o) }

section counting

variable {given : Given} {answers : Answers} {g : Scan} {n : Nat} {P : Prop}

theorem after_scan (g : Scan) (t : List (Performed Asked)) :
    ((scan answers).after g t).calls = g.calls + calls t ∧
      (((scan answers).after g t).follows ↔ g.follows ∧ Follows answers g.place t) := by
  induction t generalizing g with
  | nil => exact ⟨rfl, (and_iff_left trivial).symm⟩
  | cons e t ih =>
    obtain ⟨hcalls, hfollows⟩ := ih ((scan answers).next g e.op e.result)
    rw [Protocol.after, hcalls, hfollows, calls_cons]
    exact ⟨Nat.add_assoc _ _ _, and_assoc⟩

/-- What is asked first in a round has its answer. -/
theorem answered {o : CoordOp} {res : Asked.Result o} (ho : beginsRound o = false)
    (hnew : o ∉ g.place.asked) (h : ((scan answers).next g o res).follows) :
    g.follows ∧ res = answers g.place.round o := by
  obtain ⟨hg, hres⟩ := h
  rw [Place.enter, if_neg (by rw [ho]; exact Bool.false_ne_true)] at hres
  exact ⟨hg, hres hnew⟩

/-- The bound is overstepped just if `P` holds. -/
def Bounds (n : Nat) (P : Prop) (g : Scan) : Prop := g.follows → (n < g.calls ↔ P)

/-- The bound is overstepped, and `P` holds. -/
def Passed (n : Nat) (P : Prop) (g : Scan) : Prop := g.follows → n < g.calls ∧ P

theorem Passed.bounds (h : Passed n P g) : Bounds n P g := fun hf => iff_of_true (h hf).1 (h hf).2

theorem Bounds.of_le (hle : g.calls ≤ n) (hnot : g.follows → ¬P) : Bounds n P g :=
  fun hf => iff_of_false (Nat.not_lt.2 hle) (hnot hf)

theorem calls_uncalled {o : CoordOp} {res : Asked.Result o} (ho : ∀ tool args, o ≠ .execute tool args) :
    calls [(⟨o, res⟩ : Performed Asked)] = 0 := by
  cases o with
  | execute tool args => exact absurd rfl (ho tool args)
  | _ => rfl

/-- What makes no call leaves the bound as it is. -/
theorem Bounds.wp {α : Type} {p : Prog Asked PyExc α}
    (hp : p.Only fun o : CoordOp => ∀ tool args, o ≠ .execute tool args) (h : Bounds n P g) :
    wp (scan answers) p (fun _ g' => Bounds n P g') g := by
  induction p generalizing g with
  | ret a => exact h
  | raise x => exact h
  | op o k ih =>
    refine ⟨trivial, fun res => ih res (hp.2 res) fun hf => ?_⟩
    have hcalls : ((scan answers).next g o res).calls = g.calls :=
      congrArg (g.calls + ·) (calls_uncalled hp.1)
    rw [hcalls]
    exact h hf.1

/-- Once it is overstepped, it stays so. -/
theorem Passed.wp {α : Type} {p : Prog Asked PyExc α} (h : Passed n P g) :
    wp (scan answers) p (fun _ g' => Passed n P g') g := by
  induction p generalizing g with
  | ret a => exact h
  | raise x => exact h
  | op o k ih =>
    refine ⟨trivial, fun res => ih res fun hf => ?_⟩
    exact ⟨(h hf.1).1.trans_le (Nat.le_add_right _ _), (h hf.1).2⟩

theorem scan_ask {β : Type} {o : CoordOp} {f : o.Ans → Prog Asked PyExc β}
    {Q : Except PyExc β → Scan → Prop}
    (hok : ∀ a, wp (scan answers) (f a) Q ((scan answers).next g o (.ok a)))
    (herr : ∀ x, Q (.error x) ((scan answers).next g o (.error x))) :
    wp (scan answers) ((ask o).bind f) Q g :=
  wp_bind.2 (wp_call.2 ⟨trivial, hok, herr⟩)

end counting

/-! ## The rounds -/

section rounds

variable {given : Given} {answers : Answers} {plan : Plan} {startedAt : Seconds} {i : Nat}
  {s : CoordState} {g : Scan} {act : Action}

/-- None of the first calls fails. -/
def AllReturn (answers : Answers) (acts : List Action) (i : Nat) : Prop :=
  ∀ j act, j < i → acts[j]? = some act → ¬CallFails answers (j + 1) act

/-- **Between two rounds**: so many calls have been made, all of them left the loop going, and the
counters are in step with them. -/
structure Paced (given : Given) (answers : Answers) (plan : Plan) (startedAt : Seconds) (i : Nat)
    (s : CoordState) (g : Scan) : Prop where
  round : g.place.round = i
  calls : g.calls = i
  iteration : s.counters.iteration = i
  started : s.counters.startedAt = some startedAt
  tokens : s.counters.tokensUsed = (Counters.addUsage {} plan.usage).tokensUsed
  cost : s.counters.costUsed = (Counters.addUsage {} plan.usage).costUsed
  goesOn : g.follows → ∀ j act, j < i → (actionsOf plan)[j]? = some act →
    GoesOn given answers startedAt (breakerAt answers (actionsOf plan) j) (j + 1) act
  returned : g.follows → s.counters.toolCallsCount ≤ i ∧
    (s.counters.toolCallsCount = i ↔ AllReturn answers (actionsOf plan) i)
  breaker : g.follows → s.breaker = breakerAt answers (actionsOf plan) i

/-- Where the budget is overrun, every round up to the limit comes to its call. -/
theorem Overruns.reaches (h : Overruns given answers plan startedAt)
    (hi : i ≤ given.budget.maxToolCalls) (hact : (actionsOf plan)[i]? = some act) :
    Reaches given answers startedAt (i + 1) act := by
  rcases Nat.lt_or_eq_of_le hi with hlt | rfl
  · exact (h.goesOn i act hlt hact).reaches
  · obtain ⟨act', hact', hreached⟩ := h.reached
    cases hact.symm.trans hact'
    exact hreached

/-- What a round leaves: the loop is at its end, or the limit has been passed, or the next round
begins. -/
def Turned (given : Given) (answers : Answers) (plan : Plan) (startedAt : Seconds) (i : Nat) :
    Except PyExc (Next × CoordState) → Scan → Prop
  | .ok (.go, s), g =>
    Passed given.budget.maxToolCalls (Overruns given answers plan startedAt) g ∨
      i < given.budget.maxToolCalls ∧ Paced given answers plan startedAt (i + 1) s g
  | _, g => Bounds given.budget.maxToolCalls (Overruns given answers plan startedAt) g

theorem Passed.turned {r : Except PyExc (Next × CoordState)}
    (h : Passed given.budget.maxToolCalls (Overruns given answers plan startedAt) g) :
    Turned given answers plan startedAt i r g := by
  match r with
  | .ok (.go, s) => exact .inl h
  | .ok (.stop, s) => exact h.bounds
  | .error x => exact h.bounds

/-- What `can_continue` has found, if it lets the loop go on. -/
theorem refusal_none {c : Counters} {b : RunBudget} {now : Seconds} (h : c.refusal b now = none) :
    ¬(c.startedAt.any fun t => t ≠ 0 ∧ now - t > b.maxWallSeconds) ∧ c.iteration < b.maxIterations ∧
      c.toolCallsCount < b.maxToolCalls ∧ c.tokensUsed ≤ b.maxTokens ∧ c.costUsed ≤ b.maxCost := by
  unfold Counters.refusal at h
  split at h
  · cases h
  next hwall =>
  split at h
  · cases h
  next hiter =>
  split at h
  · cases h
  next hcalls =>
  split at h
  · cases h
  next htokens =>
  split at h
  · cases h
  next hcost =>
  exact ⟨hwall, Nat.not_le.1 hiter, Nat.not_le.1 hcalls, Nat.not_lt.1 htokens, not_lt.1 hcost⟩

theorem refusal_some {c : Counters} {b : RunBudget} {now : Seconds} {etype : EventType}
    (h : c.refusal b now = some etype) :
    (c.startedAt.any fun t => t ≠ 0 ∧ now - t > b.maxWallSeconds) ∨ b.maxIterations ≤ c.iteration ∨
      b.maxToolCalls ≤ c.toolCallsCount ∨ b.maxTokens < c.tokensUsed ∨ b.maxCost < c.costUsed := by
  unfold Counters.refusal at h
  split at h
  · next hwall => exact .inl hwall
  split at h
  · next hiter => exact .inr (.inl hiter)
  split at h
  · next hcalls => exact .inr (.inr (.inl hcalls))
  split at h
  · next htokens => exact .inr (.inr (.inr (.inl htokens)))
  split at h
  · next hcost => exact .inr (.inr (.inr (.inr hcost)))
  · cases h

/-- A limit that stops the loop is in the way of overrunning the budget. -/
theorem Paced.refused (hp : Paced given answers plan startedAt i s g)
    (hi : i ≤ given.budget.maxToolCalls) (hact : (actionsOf plan)[i]? = some act) {now : Seconds}
    {etype : EventType} (hrefusal : s.counters.refusal given.budget now = some etype)
    (hclock : answers (i + 1) (.monotonic .budget) = .ok now) (hg : g.follows) :
    ¬Overruns given answers plan startedAt := by
  intro hover
  rcases refusal_some hrefusal with hwall | hiter | hcount | htokens | hcost
  · obtain ⟨now', hnow', hin⟩ := (hover.reaches hi hact).inTime
    rw [hclock] at hnow'
    cases hnow'
    rw [hp.started] at hwall
    exact hin (of_decide_eq_true hwall)
  · rw [hp.iteration] at hiter
    exact absurd (hover.iterations.trans_le hiter) (Nat.not_lt.2 hi)
  · -- as many calls have returned as there were, so none has failed
    obtain ⟨hle, hall⟩ := hp.returned hg
    have heq : i = given.budget.maxToolCalls := le_antisymm hi (hcount.trans hle)
    obtain ⟨j, act', hj, hact', hfails⟩ := hover.fails
    exact hall.1 (le_antisymm hle (heq ▸ hcount)) j act' (heq ▸ hj) hact' hfails
  · rw [hp.tokens] at htokens
    exact absurd hover.tokens (Nat.not_le.2 htokens)
  · rw [hp.cost] at hcost
    exact absurd hover.cost (not_le.2 hcost)

/-- Within a round: what has been asked, the calls so far, and what the answers have told. -/
structure Within (g₀ : Scan) (r : Nat) (asked : List CoordOp) (k : Nat) (told : Prop) (g : Scan) :
    Prop where
  place : g.place = ⟨r, asked⟩
  calls : g.calls = k
  told : g.follows → g₀.follows ∧ told

/-- The round begins. -/
theorem Paced.begin (hp : Paced given answers plan startedAt i s g)
    (res : Asked.Result .pauseCheck) : Within g (i + 1) [.pauseCheck] i (answers (i + 1) .pauseCheck = res)
      ((scan answers).next g .pauseCheck res) where
  place := by
    rw [← hp.round]
    rfl
  calls := hp.calls
  told hf := by
    refine ⟨hf.1, ?_⟩
    rw [← hp.round]
    exact (hf.2 List.not_mem_nil).symm

/-- Another question of the round. -/
theorem Within.ask {g₀ : Scan} {r : Nat} {asked : List CoordOp} {k : Nat} {told : Prop}
    (h : Within g₀ r asked k told g) (answers : Answers) (o : CoordOp) (res : Asked.Result o)
    (ho : beginsRound o = false) (hnew : o ∉ asked) :
    Within g₀ r (o :: asked) (k + Outcome.calls [⟨o, res⟩]) (told ∧ answers r o = res)
      ((scan answers).next g o res) where
  place := by
    show g.place.next o = _
    rw [h.place, Place.next, Place.enter, if_neg (by rw [ho]; exact Bool.false_ne_true)]
  calls := congrArg (· + Outcome.calls [⟨o, res⟩]) h.calls
  told hf := by
    obtain ⟨hg, hres⟩ := answered ho (by rw [h.place]; exact hnew) hf
    rw [h.place] at hres
    exact ⟨(h.told hg).1, (h.told hg).2, hres.symm⟩

/-- The loop ends before the call. -/
theorem Within.uncalled {asked : List CoordOp} {told : Prop} {g' : Scan}
    (h : Within g (i + 1) asked i told g') (hi : i ≤ given.budget.maxToolCalls)
    (hact : (actionsOf plan)[i]? = some act)
    (hnot : told → ¬Reaches given answers startedAt (i + 1) act) :
    Bounds given.budget.maxToolCalls (Overruns given answers plan startedAt) g' :=
  .of_le (h.calls.trans_le hi) fun hf hover => hnot (h.told hf).2 (hover.reaches hi hact)

/-- The questions that are asked before the policy. -/
abbrev looked : List CoordOp := [.monotonic .budget, .flags, .stopCheck, .pauseCheck]

/-- What they have been answered, if the round goes on. -/
def Cleared (given : Given) (answers : Answers) (startedAt : Seconds) (i : Nat) : Prop :=
  answers i .pauseCheck = .ok false ∧ answers i .stopCheck = .ok false ∧
    answers i .flags = .ok (false, false) ∧
      ∃ now, answers i (.monotonic .budget) = .ok now ∧
        ¬(startedAt ≠ 0 ∧ now - startedAt > given.budget.maxWallSeconds)

theorem Within.mono {g₀ : Scan} {r : Nat} {asked : List CoordOp} {k : Nat} {told told' : Prop}
    (h : Within g₀ r asked k told g) (himp : told → told') : Within g₀ r asked k told' g :=
  ⟨h.place, h.calls, fun hf => (h.told hf).imp_right himp⟩

/-- `can_continue`, after the run has not been paused or stopped. -/
theorem canContinue_paced (hp : Paced given answers plan startedAt i s g)
    (hi : i ≤ given.budget.maxToolCalls) (hact : (actionsOf plan)[i]? = some act) {g' : Scan}
    (hw : Within g (i + 1) [.stopCheck, .pauseCheck] i
      (answers (i + 1) .pauseCheck = .ok false ∧ answers (i + 1) .stopCheck = .ok false) g') :
    wp (scan answers) (RunCoordinator.canContinue (collaborators given) s) (fun r g'' =>
      (∃ s', r = .ok (true, s') ∧ s' = s ∧
        s.counters.iteration < given.budget.maxIterations ∧
        s.counters.toolCallsCount < given.budget.maxToolCalls ∧
        s.counters.tokensUsed ≤ given.budget.maxTokens ∧
        s.counters.costUsed ≤ given.budget.maxCost ∧
        Within g (i + 1) looked i (Cleared given answers startedAt (i + 1)) g'') ∨
      (∀ s', r ≠ .ok (true, s')) ∧
        Bounds given.budget.maxToolCalls (Overruns given answers plan startedAt) g'') g' := by
  simp only [RunCoordinator.canContinue, bind_eq]
  refine scan_ask (fun flags => ?_) fun x => ?_
  swap
  · refine .inr ⟨by simp, (hw.ask answers .flags (.error x) rfl (by simp)).uncalled hi hact
      fun htold hr => ?_⟩
    cases htold.2.symm.trans hr.flags
  obtain ⟨kill, pause⟩ := flags
  have hflags := hw.ask answers .flags (.ok (kill, pause)) rfl (by simp)
  cases kill with
  | true =>
    refine .inr ⟨by simp, hflags.uncalled hi hact fun htold hr => ?_⟩
    cases htold.2.symm.trans hr.flags
  | false =>
    cases pause with
    | true =>
      refine .inr ⟨by simp, hflags.uncalled hi hact fun htold hr => ?_⟩
      cases htold.2.symm.trans hr.flags
    | false =>
      refine scan_ask (fun now => ?_) fun x => ?_
      swap
      · refine .inr ⟨by simp, (hflags.ask answers (.monotonic .budget) (.error x) rfl
          (by simp)).uncalled hi hact fun htold hr => ?_⟩
        obtain ⟨now, hnow, -⟩ := hr.inTime
        cases htold.2.symm.trans hnow
      have hclock := hflags.ask answers (.monotonic .budget) (.ok now) rfl (by simp)
      cases hrefusal : s.counters.refusal given.budget now with
      | some etype =>
        have hrefusal' : s.counters.refusal (collaborators given).budget now = some etype := hrefusal
        simp only [hrefusal']
        refine .inr ⟨by simp, .of_le (hclock.calls.trans_le hi) fun hf => ?_⟩
        exact hp.refused hi hact hrefusal (hclock.told hf).2.2 (hclock.told hf).1
      | none =>
        have hrefusal' : s.counters.refusal (collaborators given).budget now = none := hrefusal
        simp only [hrefusal']
        obtain ⟨hwall, hiter, hcount, htokens, hcost⟩ := refusal_none hrefusal
        rw [hp.started] at hwall
        refine .inl ⟨s, rfl, rfl, hiter, hcount, htokens, hcost, hclock.mono fun htold => ?_⟩
        exact ⟨htold.1.1.1, htold.1.1.2, htold.1.2, now, htold.2, fun h => hwall (decide_eq_true h)⟩

/-- **A call that leaves the loop going** keeps the counters in step. -/
theorem Paced.advance (hp : Paced given answers plan startedAt i s g)
    (hact : (actionsOf plan)[i]? = some act) {asked : List CoordOp} {told : Prop} {g' : Scan}
    (hw : Within g (i + 1) asked (i + 1) told g') {s' : CoordState} {count : Nat}
    (hcounters : s'.counters =
      { s.counters with iteration := s.counters.iteration + 1, toolCallsCount := count })
    (hgo : told → g.follows →
      GoesOn given answers startedAt (breakerAt answers (actionsOf plan) i) (i + 1) act)
    (hcount : told → count = s.counters.toolCallsCount + 1 ∧ ¬CallFails answers (i + 1) act ∨
      count = s.counters.toolCallsCount ∧ CallFails answers (i + 1) act)
    (hbreaker : told → s'.breaker = breakerAfter answers s.breaker (i + 1) act) :
    Paced given answers plan startedAt (i + 1) s' g' where
  round := by rw [hw.place]
  calls := hw.calls
  iteration := by rw [hcounters, ← hp.iteration]
  started := by rw [hcounters, ← hp.started]
  tokens := by rw [hcounters, ← hp.tokens]
  cost := by rw [hcounters, ← hp.cost]
  goesOn hf j act' hj hact' := by
    obtain ⟨hg, htold⟩ := hw.told hf
    rcases Nat.lt_or_eq_of_le (Nat.le_of_lt_succ hj) with hlt | rfl
    · exact hp.goesOn hg j act' hlt hact'
    · cases hact.symm.trans hact'
      exact hgo htold hg
  returned hf := by
    obtain ⟨hg, htold⟩ := hw.told hf
    obtain ⟨hle, hall⟩ := hp.returned hg
    have hsucc : AllReturn answers (actionsOf plan) (i + 1) ↔
        AllReturn answers (actionsOf plan) i ∧ ¬CallFails answers (i + 1) act := by
      constructor
      · intro h
        exact ⟨fun j act' hj => h j act' (Nat.lt_succ_of_lt hj), h i act (Nat.lt_succ_self i) hact⟩
      · rintro ⟨h, hlast⟩ j act' hj hact'
        rcases Nat.lt_or_eq_of_le (Nat.le_of_lt_succ hj) with hlt | rfl
        · exact h j act' hlt hact'
        · cases hact.symm.trans hact'
          exact hlast
    rw [hcounters, hsucc, ← hall]
    rcases hcount htold with ⟨rfl, hreturns⟩ | ⟨rfl, hfails⟩
    · exact ⟨Nat.succ_le_succ hle, by simp [hreturns]⟩
    · exact ⟨Nat.le_succ_of_le hle, by simp [hfails]; omega⟩
  breaker hf := by
    obtain ⟨hg, htold⟩ := hw.told hf
    rw [hbreaker htold, hp.breaker hg, breakerAt, hact]
    rfl

/-- The call of the round that passes the limit. -/
theorem Paced.passed (hp : Paced given answers plan startedAt i s g)
    (hi : i = given.budget.maxToolCalls) (hact : (actionsOf plan)[i]? = some act)
    (hiter : s.counters.iteration < given.budget.maxIterations)
    (hcount : s.counters.toolCallsCount < given.budget.maxToolCalls)
    (htokens : s.counters.tokensUsed ≤ given.budget.maxTokens)
    (hcost : s.counters.costUsed ≤ given.budget.maxCost) {asked : List CoordOp} {told : Prop}
    {g' : Scan} (hw : Within g (i + 1) asked (i + 1) told g')
    (hreaches : told → Reaches given answers startedAt (i + 1) act) :
    Passed given.budget.maxToolCalls (Overruns given answers plan startedAt) g' := by
  intro hf
  obtain ⟨hg, htold⟩ := hw.told hf
  refine ⟨by rw [hw.calls, hi]; exact Nat.lt_succ_self _, ?_⟩
  subst hi
  refine ⟨hp.iteration ▸ hiter, hp.tokens ▸ htokens, hp.cost ▸ hcost, hp.goesOn hg, ?_,
    act, hact, hreaches htold⟩
  -- fewer calls have returned than were made
  have hnot : ¬AllReturn answers (actionsOf plan) given.budget.maxToolCalls := fun hall =>
    absurd ((hp.returned hg).2.2 hall) hcount.ne
  unfold AllReturn at hnot
  push Not at hnot
  obtain ⟨j, act', hj, hact', hfails⟩ := hnot
  exact ⟨j, act', hj, hact', hfails⟩

/-- The loop ends after the call. -/
theorem Within.ended {asked : List CoordOp} {told : Prop} {g' : Scan}
    (hw : Within g (i + 1) asked (i + 1) told g') (hi : i < given.budget.maxToolCalls)
    (hact : (actionsOf plan)[i]? = some act)
    (hnot : told → g.follows →
      ¬GoesOn given answers startedAt (breakerAt answers (actionsOf plan) i) (i + 1) act) :
    Bounds given.budget.maxToolCalls (Overruns given answers plan startedAt) g' :=
  .of_le (hw.calls.trans_le hi) fun hf hover =>
    hnot (hw.told hf).2 (hw.told hf).1 (hover.goesOn i act hi hact)

/-- After a call that has raised. -/
theorem toolError_paced (hp : Paced given answers plan startedAt i s g)
    (hi : i < given.budget.maxToolCalls) (hact : (actionsOf plan)[i]? = some act) {x : PyExc}
    {asked : List CoordOp} {told : Prop} {g' : Scan} (hw : Within g (i + 1) asked (i + 1) told g')
    (hreaches : told → Reaches given answers startedAt (i + 1) act)
    (hraised : told → raised answers (i + 1) act = some x)
    (hsink : ∀ payload, .eventSink .toolError payload ∉ asked)
    (hbreaker : .monotonic .breaker ∉ asked) {s' : CoordState} {count : Nat}
    (hcounters : s'.counters =
      { s.counters with iteration := s.counters.iteration + 1, toolCallsCount := count })
    (hcount : told → count = s.counters.toolCallsCount + 1 ∧ ¬CallFails answers (i + 1) act ∨
      count = s.counters.toolCallsCount ∧ CallFails answers (i + 1) act)
    (hsame : s'.breaker = s.breaker) :
    wp (scan answers) (RunCoordinator.toolError (collaborators given) act x s')
      (Turned given answers plan startedAt i) g' := by
  simp only [RunCoordinator.toolError, bind_eq]
  refine scan_ask (fun u => ?_) fun y => ?_
  swap
  · refine (hw.ask answers (.eventSink .toolError _) (.error y) rfl (hsink _)).ended hi hact ?_
    intro htold hg hgo
    cases htold.2.symm.trans (hgo.survives x (hraised htold.1)).1
  have hrecorded := hw.ask answers (.eventSink .toolError _) (.ok u) rfl
    (hsink [("tool", .str act.tool), ("error", .str x.name)])
  have hfresh : CoordOp.monotonic .breaker ∉ CoordOp.eventSink .toolError
      [("tool", .str act.tool), ("error", .str x.name)] :: asked := by
    simpa using hbreaker
  refine scan_ask (fun now => ?_) fun y => ?_
  swap
  · refine (hrecorded.ask answers (.monotonic .breaker) (.error y) rfl hfresh).ended hi hact ?_
    intro htold hg hgo
    obtain ⟨now, hnow, -⟩ := (hgo.survives x (hraised htold.1.1)).2
    cases htold.2.symm.trans hnow
  have hclock := hrecorded.ask answers (.monotonic .breaker) (.ok now) rfl hfresh
  split
  · next hopen =>
    refine hclock.ended hi hact fun htold hg hgo => ?_
    obtain ⟨now', hnow, hclosed⟩ := (hgo.survives x (hraised htold.1.1)).2
    cases htold.2.symm.trans hnow
    rw [← hp.breaker hg, ← hsame] at hclosed
    have hopen : (s'.breaker.recordFailure act.tool now).2 = true := hopen
    rw [hclosed] at hopen
    cases hopen
  · next hclosed =>
    refine .inr ⟨hi, hp.advance hact hclock hcounters ?_ (fun htold => hcount htold.1.1) ?_⟩
    · intro htold hg
      refine ⟨hreaches htold.1.1, fun y hy => ⟨?_, now, htold.2, ?_⟩⟩
      · cases (hraised htold.1.1).symm.trans hy
        exact htold.1.2
      · rw [← hp.breaker hg, ← hsame]
        exact Bool.eq_false_of_not_eq_true hclosed
    · intro htold
      rw [breakerAfter, hraised htold.1.1, htold.2, ← hsame]
      rfl

/-- The call of a tool, the budget allowing it. -/
theorem callTool_paced (hp : Paced given answers plan startedAt i s g)
    (hi : i ≤ given.budget.maxToolCalls) (hact : (actionsOf plan)[i]? = some act)
    (hiter : s.counters.iteration < given.budget.maxIterations)
    (hcount : s.counters.toolCallsCount < given.budget.maxToolCalls)
    (htokens : s.counters.tokensUsed ≤ given.budget.maxTokens)
    (hcost : s.counters.costUsed ≤ given.budget.maxCost) {payload : Dict} {g' : Scan}
    (hw : Within g (i + 1) (.eventSink .policyCheck payload :: looked) i
      (Reaches given answers startedAt (i + 1) act) g') {s' : CoordState}
    (hcounters : s'.counters = { s.counters with iteration := s.counters.iteration + 1 })
    (hsame : s'.breaker = s.breaker) :
    wp (scan answers) (RunCoordinator.callTool (collaborators given) act s')
      (Turned given answers plan startedAt i) g' := by
  have hfresh : CoordOp.execute act.tool act.arguments ∉
      CoordOp.eventSink .policyCheck payload :: looked := by
    simp [looked]
  have hcall : ∀ res, Within g (i + 1)
      (.execute act.tool act.arguments :: .eventSink .policyCheck payload :: looked) (i + 1)
      (Reaches given answers startedAt (i + 1) act ∧
        answers (i + 1) (.execute act.tool act.arguments) = res)
      ((scan answers).next g' (.execute act.tool act.arguments) res) := fun res =>
    hw.ask answers (.execute act.tool act.arguments) res rfl hfresh
  have hcounters' : { s'.counters with toolCallsCount := s'.counters.toolCallsCount + 1 } =
      { s.counters with
        iteration := s.counters.iteration + 1, toolCallsCount := s.counters.toolCallsCount + 1 } := by
    rw [hcounters]
  simp only [RunCoordinator.callTool, bind_eq]
  rcases Nat.lt_or_eq_of_le hi with hlt | heq
  · refine wp_bind.2 (wp_attempt.2 (wp_call.2 ⟨trivial, fun result => ?_, fun x => ?_⟩))
    · -- the tool has returned, and the sink is handed the result
      have hreturns : Reaches given answers startedAt (i + 1) act ∧
          answers (i + 1) (.execute act.tool act.arguments) = .ok result →
            ¬CallFails answers (i + 1) act := by
        rintro ⟨-, hres⟩ ⟨x, hx⟩
        cases hres.symm.trans hx
      have hsunk := fun res => (hcall (.ok result)).ask answers (.eventSink .toolCall
        [("tool", .str act.tool), ("arguments", .obj act.arguments), ("result", result),
          ("ok", .bool true)]) res rfl (by simp [looked])
      refine wp_bind.2 (wp_attempt.2 (wp_call.2 ⟨trivial, fun u => ?_, fun x => ?_⟩))
      · have hraised : (Reaches given answers startedAt (i + 1) act ∧
            answers (i + 1) (.execute act.tool act.arguments) = .ok result) ∧
            answers (i + 1) (.eventSink .toolCall [("tool", .str act.tool),
              ("arguments", .obj act.arguments), ("result", result), ("ok", .bool true)]) = .ok u →
              raised answers (i + 1) act = none := by
          rintro ⟨⟨-, hres⟩, hsink⟩
          simp only [raised, hres, hsink]
        refine .inr ⟨hlt, hp.advance hact (hsunk (.ok u)) hcounters' ?_ ?_ ?_⟩
        · intro htold hg
          refine ⟨htold.1.1, fun x hx => ?_⟩
          cases (hraised htold).symm.trans hx
        · exact fun htold => .inl ⟨rfl, hreturns htold.1⟩
        · intro htold
          rw [breakerAfter, hraised htold, ← hsame]
          rfl
      · refine toolError_paced hp hlt hact (hsunk (.error x)) (fun htold => htold.1.1) ?_
          (by simp [looked]) (by simp [looked]) hcounters'
          (fun htold => .inl ⟨rfl, hreturns htold.1⟩) hsame
        rintro ⟨⟨-, hres⟩, hsink⟩
        simp only [raised, hres, hsink]
        rfl
    · refine toolError_paced hp hlt hact (hcall (.error x)) (fun htold => htold.1) ?_
        (by simp [looked]) (by simp [looked]) (hcounters.trans rfl)
        (fun htold => .inr ⟨rfl, x, htold.2⟩) hsame
      rintro ⟨-, hres⟩
      simp only [raised, hres]
      rfl
  · -- the limit is passed, whatever comes after
    have hpassed : ∀ res, Passed given.budget.maxToolCalls (Overruns given answers plan startedAt)
        ((scan answers).next g' (.execute act.tool act.arguments) res) := fun res =>
      hp.passed heq hact hiter hcount htokens hcost (hcall res) fun htold => htold.1
    refine wp_bind.2 (wp_attempt.2 (wp_call.2 ⟨trivial, fun result => ?_, fun x => ?_⟩))
    · exact wp_mono (fun r g'' h => h.turned) (hpassed (.ok result)).wp
    · exact wp_mono (fun r g'' h => h.turned) (hpassed (.error x)).wp

/-- The policy decides. -/
theorem decideAction_paced (hp : Paced given answers plan startedAt i s g)
    (hi : i ≤ given.budget.maxToolCalls) (hact : (actionsOf plan)[i]? = some act)
    (hiter : s.counters.iteration < given.budget.maxIterations)
    (hcount : s.counters.toolCallsCount < given.budget.maxToolCalls)
    (htokens : s.counters.tokensUsed ≤ given.budget.maxTokens)
    (hcost : s.counters.costUsed ≤ given.budget.maxCost) {g' : Scan}
    (hw : Within g (i + 1) looked i (Cleared given answers startedAt (i + 1)) g') :
    wp (scan answers) (RunCoordinator.decideAction (collaborators given) act s)
      (Turned given answers plan startedAt i) g' := by
  have hfresh : CoordOp.eventSink .policyCheck (checkPayload given.policy act) ∉ looked := by
    simp [looked]
  simp only [RunCoordinator.decideAction, bind_eq]
  refine scan_ask (fun u => ?_) fun x => ?_
  swap
  · have hsunk := hw.ask answers (.eventSink .policyCheck (checkPayload given.policy act))
      (.error x) rfl hfresh
    refine hsunk.uncalled hi hact fun htold hr => ?_
    cases htold.2.symm.trans hr.recorded
  have hsunk := hw.ask answers (.eventSink .policyCheck (checkPayload given.policy act)) (.ok u) rfl
    hfresh
  split
  · next hdecision =>
    refine hsunk.uncalled hi hact fun htold hr => ?_
    cases hdecision.symm.trans hr.allowed
  · next hdecision =>
    have hnot : ∀ {asked : List CoordOp} {told : Prop} {g'' : Scan}, Within g (i + 1) asked i told g'' →
        Bounds given.budget.maxToolCalls (Overruns given answers plan startedAt) g'' := by
      intro asked told g'' hw'
      refine hw'.uncalled hi hact fun htold hr => ?_
      cases hdecision.symm.trans hr.allowed
    refine scan_ask (fun v => ?_) fun x => ?_
    · exact hnot (hsunk.ask answers (.eventSink .awaitingApproval _) (.ok v) rfl (by simp [looked]))
    · exact hnot (hsunk.ask answers (.eventSink .awaitingApproval _) (.error x) rfl
        (by simp [looked]))
  · next hdecision =>
    refine callTool_paced hp hi hact hiter hcount htokens hcost (hsunk.mono fun htold => ?_) rfl rfl
    obtain ⟨⟨hpause, hstop, hflags, htime⟩, hrecorded⟩ := htold
    exact ⟨hpause, hstop, hflags, htime, hdecision, hrecorded⟩

/-- **One round**: the loop is at its end, or passes the limit, or the next round begins. -/
theorem runAction_paced (hp : Paced given answers plan startedAt i s g)
    (hi : i ≤ given.budget.maxToolCalls) (hact : (actionsOf plan)[i]? = some act) :
    wp (scan answers) (RunCoordinator.runAction (collaborators given) act s)
      (Turned given answers plan startedAt i) g := by
  simp only [RunCoordinator.runAction, bind_eq]
  refine scan_ask (fun paused => ?_) fun x => ?_
  swap
  · refine (hp.begin (.error x)).uncalled hi hact fun hpause hr => ?_
    cases hpause.symm.trans hr.unpaused
  have hpause := hp.begin (.ok paused)
  cases paused with
  | true =>
    refine hpause.uncalled hi hact fun hpause hr => ?_
    cases hpause.symm.trans hr.unpaused
  | false =>
    refine scan_ask (fun stopped => ?_) fun x => ?_
    swap
    · have hstop := hpause.ask answers .stopCheck (.error x) rfl (by simp)
      refine hstop.uncalled hi hact fun htold hr => ?_
      cases htold.2.symm.trans hr.unstopped
    have hstop := hpause.ask answers .stopCheck (.ok stopped) rfl (by simp)
    cases stopped with
    | true =>
      refine hstop.uncalled hi hact fun htold hr => ?_
      cases htold.2.symm.trans hr.unstopped
    | false =>
      refine wp_bind.2 (wp_mono ?_ (canContinue_paced hp hi hact hstop))
      rintro r g'' (⟨s', rfl, rfl, hiter, hcount, htokens, hcost, hw⟩ | ⟨hstopped, hbounds⟩)
      · exact decideAction_paced hp hi hact hiter hcount htokens hcost hw
      · rcases r with x | ⟨goes, s'⟩
        · exact hbounds
        · cases goes with
          | false => exact hbounds
          | true => exact absurd rfl (hstopped s')

/-- **The loop**, by induction on the actions still to come. -/
theorem runActions_paced {rest : List (Option Action)} (hp : Paced given answers plan startedAt i s g)
    (hi : i ≤ given.budget.maxToolCalls) (hrest : (actionsOf plan).drop i = rest.reduceOption) :
    wp (scan answers) (RunCoordinator.runActions (collaborators given) rest s) (fun _ g' =>
      Bounds given.budget.maxToolCalls (Overruns given answers plan startedAt) g') g := by
  induction rest generalizing i s g with
  | nil =>
    refine .of_le (hp.calls.trans_le hi) fun hf hover => ?_
    obtain ⟨act, hact, -⟩ := hover.reached
    have hlen : (actionsOf plan).length ≤ i := List.drop_eq_nil_iff.1 hrest
    have hlt := (List.getElem?_eq_some_iff.1 hact).1
    omega
  | cons x rest ih =>
    cases x with
    | none => exact ih hp hi hrest
    | some act =>
      have hcons : (actionsOf plan).drop i = act :: rest.reduceOption := hrest
      have hact : (actionsOf plan)[i]? = some act := by
        rw [← List.head?_drop, hcons]
        rfl
      have hnext : (actionsOf plan).drop (i + 1) = rest.reduceOption := by
        rw [← List.tail_drop, hcons]
        rfl
      simp only [RunCoordinator.runActions, bind_eq]
      refine wp_bind.2 (wp_mono ?_ (runAction_paced hp hi hact))
      intro r g' hturned
      rcases r with x | ⟨next, s'⟩
      · exact hturned
      · cases next with
        | stop => exact hturned
        | go =>
          rcases hturned with hpassed | ⟨hlt, hp'⟩
          · exact wp_mono (fun _ _ h => h.bounds) hpassed.wp
          · exact ih hp' hlt hnext

theorem finalize_uncalled : (RunCoordinator.finalize (collaborators given) s).Only
    fun o : CoordOp => ∀ tool args, o ≠ .execute tool args := by
  have hask : ∀ {o : CoordOp}, (∀ tool args, o ≠ .execute tool args) →
      (ask o).Only fun o : CoordOp => ∀ tool args, o ≠ .execute tool args := fun ho => .call ho
  have hsettle : (RunCoordinator.settleStatus (collaborators given) s).Only
      fun o : CoordOp => ∀ tool args, o ≠ .execute tool args := by
    refine .bind (hask (by simp)) ?_
    rintro ⟨kill, pause⟩
    dsimp only
    split
    · exact .ret
    split
    · exact .ret
    split
    · exact .ret
    split
    · exact .ret
    · exact .bind (hask (by simp)) fun _ => .ret
  exact .bind hsettle fun s' => .bind (hask (by simp)) fun _ => .ret

/-- The loop has been entered. -/
theorem Overruns.run {runId : Text}
    (hstart : answers 0 (.monotonic .started) = .ok startedAt)
    (hstarted : answers 0 (.eventSink .started [("run_id", .text runId)]) = .ok ())
    (hplan : answers 0 .makePlan = .ok plan)
    (hplanned : answers 0 (.eventSink .plan [("plan", plan.toJson)]) = .ok ())
    (hcontext : answers 0 (.eventSink .context [("segments", given.segments)]) = .ok ()) :
    Overruns given answers plan startedAt ↔ RunOverruns given answers runId := by
  constructor
  · exact fun h => ⟨plan, startedAt, hstart, hstarted, hplan, hplanned, hcontext, h⟩
  · rintro ⟨plan', startedAt', hstart', -, hplan', -, -, h⟩
    cases hstart.symm.trans hstart'
    cases hplan.symm.trans hplan'
    exact h

/-- The loop and what comes after it, the answers before it having been taken. -/
theorem loop_bounds {runId : Text} {asked : List CoordOp} {told : Prop} {u v w : Unit}
    (hw : Within {} 0 asked 0 told g)
    (htold : told → ((((True ∧ answers 0 (.monotonic .started) = .ok startedAt) ∧
      answers 0 (.eventSink .started [("run_id", .text runId)]) = .ok u) ∧
      answers 0 .makePlan = .ok plan) ∧
      answers 0 (.eventSink .plan [("plan", plan.toJson)]) = .ok v) ∧
      answers 0 (.eventSink .context [("segments", given.segments)]) = .ok w)
    (hcounters : s.counters = { Counters.addUsage {} plan.usage with startedAt := some startedAt })
    (hbreaker : s.breaker = fun _ => []) :
    wp (scan answers) ((RunCoordinator.runActions (collaborators given) plan.steps s).bind
      (RunCoordinator.finalize (collaborators given)))
      (fun _ g' => Bounds given.budget.maxToolCalls (RunOverruns given answers runId) g') g := by
  have hloop : wp (scan answers) (RunCoordinator.runActions (collaborators given) plan.steps s)
      (fun _ g' => Bounds given.budget.maxToolCalls (RunOverruns given answers runId) g') g := by
    by_cases hf : g.follows
    · obtain ⟨⟨⟨⟨⟨-, hstart⟩, hstarted⟩, hplan⟩, hplanned⟩, hcontext⟩ := htold (hw.told hf).2
      rw [← Overruns.run hstart hstarted hplan hplanned hcontext]
      have hp : Paced given answers plan startedAt 0 s g :=
        { round := by rw [hw.place]
          calls := hw.calls
          iteration := by rw [hcounters]; rfl
          started := by rw [hcounters]
          tokens := by rw [hcounters]
          cost := by rw [hcounters]
          goesOn := fun _ j act hj => absurd hj (Nat.not_lt_zero j)
          returned := fun _ => by
            rw [hcounters]
            exact ⟨Nat.le_refl 0, iff_of_true rfl fun j act hj => absurd hj (Nat.not_lt_zero j)⟩
          breaker := fun _ => hbreaker }
      exact runActions_paced hp (Nat.zero_le _) rfl
    · -- what is not answered so is of no account
      have hpassed : Passed given.budget.maxToolCalls (RunOverruns given answers runId) g :=
        fun h => absurd h hf
      exact wp_mono (fun _ _ h => h.bounds) hpassed.wp
  refine wp_bind.2 (wp_mono ?_ hloop)
  rintro (x | s') g' hbounds
  · exact hbounds
  · exact hbounds.wp finalize_uncalled

/-- **The coordinator**: the limit is passed just if the answers overrun it. -/
theorem run_bounds {runId : Text} :
    wp (scan answers) (RunCoordinator.run (collaborators given) runId) (fun _ g' =>
      Bounds given.budget.maxToolCalls (RunOverruns given answers runId) g') {} := by
  have hbegin : Within {} 0 [] 0 True {} := ⟨rfl, rfl, fun _ => ⟨trivial, trivial⟩⟩
  have hfails : ∀ {asked : List CoordOp} {told : Prop} {g' : Scan}, Within {} 0 asked 0 told g' →
      (told → ¬RunOverruns given answers runId) →
        Bounds given.budget.maxToolCalls (RunOverruns given answers runId) g' := fun hw hnot =>
    .of_le (hw.calls.trans_le (Nat.zero_le _)) fun hf => hnot (hw.told hf).2
  simp only [RunCoordinator.run, bind_eq]
  refine scan_ask (fun startedAt => ?_) fun x => ?_
  swap
  · refine hfails (hbegin.ask answers (.monotonic .started) (.error x) rfl (by simp)) ?_
    rintro htold ⟨plan, startedAt, hstart, -⟩
    cases htold.2.symm.trans hstart
  have hstart := hbegin.ask answers (.monotonic .started) (.ok startedAt) rfl (by simp)
  refine scan_ask (fun u => ?_) fun x => ?_
  swap
  · refine hfails (hstart.ask answers (.eventSink .started _) (.error x) rfl (by simp)) ?_
    rintro htold ⟨plan, startedAt, -, hstarted, -⟩
    cases htold.2.symm.trans hstarted
  have hstarted := hstart.ask answers (.eventSink .started [("run_id", .text runId)]) (.ok u) rfl
    (by simp)
  refine scan_ask (fun plan => ?_) fun x => ?_
  swap
  · refine hfails (hstarted.ask answers .makePlan (.error x) rfl (by simp)) ?_
    rintro htold ⟨plan, startedAt, -, -, hplan, -⟩
    cases htold.2.symm.trans hplan
  have hplan := hstarted.ask answers .makePlan (.ok plan) rfl (by simp)
  refine scan_ask (fun v => ?_) fun x => ?_
  swap
  · refine hfails (hplan.ask answers (.eventSink .plan _) (.error x) rfl (by simp)) ?_
    rintro htold ⟨plan', startedAt, -, -, hplan', hplanned, -⟩
    cases htold.1.2.symm.trans hplan'
    cases htold.2.symm.trans hplanned
  have hplanned := hplan.ask answers (.eventSink .plan [("plan", plan.toJson)]) (.ok v) rfl (by simp)
  refine scan_ask (fun w => ?_) fun x => ?_
  swap
  · refine hfails (hplanned.ask answers (.eventSink .context _) (.error x) rfl (by simp)) ?_
    rintro htold ⟨plan', startedAt, -, -, -, -, hcontext, -⟩
    cases htold.2.symm.trans hcontext
  have hcontext := hplanned.ask answers (.eventSink .context [("segments", given.segments)]) (.ok w)
    rfl (by simp)
  exact loop_bounds hcontext id rfl rfl

end rounds

section budget

variable {given : Given} {runId : Text} {t : List (Performed Asked)} {res : Except PyExc CoordState}

/-- **When the limits bound the calls.**  Any run is answered in some way, and however it is
answered, its calls stay within both limits exactly when the answers do not overrun the budget. -/
theorem calls_within_budget_iff
    (hexec : Exec (RunCoordinator.run (collaborators given) runId) t res) :
    (∃ answers, Follows answers {} t) ∧ ∀ answers, Follows answers {} t →
      ((calls t ≤ given.budget.maxToolCalls ∧ calls t ≤ given.budget.maxIterations) ↔
        ¬RunOverruns given answers runId) := by
  refine ⟨exists_answers {} t, fun answers hfollows => ?_⟩
  have hrun : wp (scan answers) (RunCoordinator.run (collaborators given) runId) (fun _ g' =>
      Bounds given.budget.maxToolCalls (RunOverruns given answers runId) g') {} := run_bounds
  obtain ⟨-, hbounds⟩ := hexec.sound hrun
  obtain ⟨hcalls, hscan⟩ := @after_scan answers {} t
  have hlimit := hbounds (hscan.2 ⟨trivial, hfollows⟩)
  rw [hcalls, Nat.zero_add] at hlimit
  rw [← hlimit, Nat.not_lt]
  exact and_iff_left (calls_le_iterations hexec)

end budget

/-- One call may return. -/
def oneCall : Given := { given with budget := { maxToolCalls := 1 } }

/-- A plan of two actions whose calls fail, or do not. -/
def twice (result : Except PyExc Json) : (o : CoordOp) → Asked.Result o
  | .execute .. => result
  | .makePlan => .ok { actions := [some ⟨"first", "internal_health", []⟩,
      some ⟨"second", "internal_health", []⟩] }
  | .eventSink .. => .ok ()
  | .pauseCheck => .ok false
  | .stopCheck => .ok false
  | .monotonic _ => .ok (0 : Rat)
  | .flags => .ok (false, false)

/-- Answers that are the same in every round. -/
theorem follows_const {answer : (o : CoordOp) → Asked.Result o} {p : Place}
    {t : List (Performed Asked)} (h : ∀ e ∈ t, e.result = answer e.op) :
    Follows (fun _ => answer) p t := by
  induction t generalizing p with
  | nil => trivial
  | cons e t ih =>
    exact ⟨fun _ => h e List.mem_cons_self, ih fun e' he' => h e' (List.mem_cons_of_mem _ he')⟩

/-- Both actions of a plan, one call being allowed. -/
theorem calls_within_budget_once : ∃ t res,
    Exec (RunCoordinator.run (collaborators oneCall) (.uuid 0)) t res ∧
      calls t ≤ 1 ∧ calls t ≤ 40 := by
  have hexec := exec_play (twice (.ok (.bool true)))
    (RunCoordinator.run (collaborators oneCall) (.uuid 0))
  have hfollows : Follows (fun _ => twice (.ok (.bool true))) {}
      ((RunCoordinator.run (collaborators oneCall) (.uuid 0)).play (twice (.ok (.bool true)))).1 :=
    follows_const fun e he => result_of_mem_play he
  refine ⟨_, _, hexec, ((calls_within_budget_iff hexec).2 _ hfollows).2 ?_⟩
  rintro ⟨plan, startedAt, -, -, -, -, -, hover⟩
  obtain ⟨i, act, -, -, x, hx⟩ := hover.fails
  cases hx

/-- **Failing calls are not counted.**  One call is allowed, and two are made. -/
theorem calls_exceed_budget : ¬∀ (given : Given) (runId : Text) (t : List (Performed Asked))
    (res : Except PyExc CoordState),
    Exec (RunCoordinator.run (collaborators given) runId) t res →
      calls t ≤ given.budget.maxToolCalls ∧ calls t ≤ given.budget.maxIterations := by
  intro hclaim
  have hexec := exec_play (twice (.error (.lib ⟨"RuntimeError", "boom"⟩)))
    (RunCoordinator.run (collaborators oneCall) (.uuid 0))
  have hcalls : calls ((RunCoordinator.run (collaborators oneCall) (.uuid 0)).play
      (twice (.error (.lib ⟨"RuntimeError", "boom"⟩)))).1 = 2 := by
    decide +kernel
  have hle := (hclaim oneCall (.uuid 0) _ _ hexec).1
  rw [hcalls] at hle
  exact absurd hle (by decide)

end Outcome

end Observatory
