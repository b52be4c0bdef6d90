import Mathlib.Data.List.Induction
import Observatory.Verify.AuditTrail

/-!
# Policy mediation

The coordinator is run against collaborators that answer as they like and may all fail, the sink
included.  `mediator` is the protocol it keeps to: an action of the plan is looked at by pausing and
stopping checks and handed to the sink with what the policy says of it; only then, and only if it
is allowed, its tool is called; if it needs an approval, that is what the sink is handed next; and
after an action that is not allowed none is looked at.
-/

namespace Observatory

open Effect Effect.Prog

namespace Mediation

open Audit

/-- Collaborators that answer as they like, the sink included. -/
def collaborators (given : Given) : Collaborators Asked :=
  { given.collaborators with eventSink := fun etype payload => ask (.eventSink etype payload) }

/-- The payload of POLICY_CHECK for an action. -/
def checkPayload (policy : PolicyEngine) (act : Action) : Dict :=
  [("tool", .str act.tool), ("arguments", .obj act.arguments),
    ("decision", .str (policy.decide act.tool).decision.value)]

/-- The payload of AWAITING_APPROVAL for an action. -/
def approvalPayload (policy : PolicyEngine) (act : Action) : Dict :=
  [("tool", .str act.tool), ("arguments", .obj act.arguments), ("action_id", .str act.actionId),
    ("action_class", .str (policy.decide act.tool).actionClass.value)]

/-- What belongs to looking at an action. -/
def looks : CoordOp → Bool
  | .pauseCheck | .stopCheck | .execute .. | .eventSink .policyCheck _ => true
  | _ => false

/-- What comes between the actions, before them and after them. -/
def between : CoordOp → Bool
  | .eventSink .awaitingApproval _ => false
  | o => !looks o

/-! ## The protocol -/

/-- How far the coordinator is. -/
inductive Stage where
  | planning
  /-- `rest` has not been handed to the sink -/
  | looking (rest : List Action)
  /-- the sink has accepted what the policy says of `act` -/
  | checked (act : Action) (rest : List Action)
  | closed

variable (policy : PolicyEngine)

/-- What may come next. -/
def Stage.allows : Stage → CoordOp → Prop
  | .looking rest, .eventSink .policyCheck payload =>
    ∃ act, rest.head? = some act ∧ payload = checkPayload policy act
  | .looking _, o => o = .pauseCheck ∨ o = .stopCheck ∨ between o = true
  | .checked act _, .execute tool args => (policy.decide act.tool).decision = .allow ∧
    tool = act.tool ∧ args = act.arguments
  | .checked act _, .eventSink .awaitingApproval payload =>
    (policy.decide act.tool).decision = .requireApproval ∧ payload = approvalPayload policy act
  | .checked .., _ => False
  | _, o => between o = true

def Stage.next : Stage → (o : CoordOp) → Asked.Result o → Stage
  | .planning, .makePlan, .ok plan => .looking (plan.steps.filterMap id)
  | .looking (act :: rest), .eventSink .policyCheck _, .ok () =>
    if (policy.decide act.tool).decision = .deny then .closed else .checked act rest
  | .looking _, .eventSink .policyCheck _, .error _ => .closed
  | .checked _ rest, .execute .., _ => .looking rest
  | .checked .., .eventSink .., _ => .closed
  | g, _, _ => g

/-- The policy is asked first. -/
def mediator : Protocol Asked Stage where
  allows := Stage.allows policy
  next := Stage.next policy

/-! ## The coordinator keeps to it -/

/-- Between two rounds or after the last. -/
inductive Stage.Open : Stage → Prop where
  | looking (rest : List Action) : Open (.looking rest)
  | closed : Open .closed

/-- What an exception leaves: no action that has been checked and not been dealt with. -/
def Stage.Raised : Stage → Prop
  | .checked .. => False
  | _ => True

theorem Stage.Open.raised {g : Stage} (hg : g.Open) : g.Raised := by
  cases hg <;> trivial

/-- What a round leaves. -/
def Round (rest : List Action) (out : Next × CoordState) (g : Stage) : Prop :=
  match out.1 with
  | .go => g = .looking rest
  | .stop => g.Open

section coordinator

variable {given : Given} {s : CoordState} {g : Stage} {act : Action} {rest : List Action} {β : Type}
  {R : β → Stage → Prop}

theorem looking_allows {o : CoordOp} (ho : between o = true) :
    (mediator policy).allows (.looking rest) o := by
  cases o with
  | eventSink etype payload =>
    cases etype with
    | policyCheck => cases ho
    | _ => exact .inr (.inr ho)
  | _ => exact .inr (.inr ho)

theorem looking_next {o : CoordOp} (ho : between o = true) (res : Asked.Result o) :
    (mediator policy).next (.looking rest) o res = .looking rest := by
  cases o with
  | eventSink etype payload =>
    cases etype with
    | policyCheck => cases ho
    | _ => cases rest <;> rfl
  | _ => cases rest <;> rfl

/-- What is no part of looking at an action changes nothing between the rounds. -/
theorem Stage.Open.asked {o : CoordOp} {f : o.Ans → Prog Asked PyExc β} (hg : g.Open)
    (ho : between o = true) (hf : ∀ a, wp (mediator given.policy) (f a) (Ends R Stage.Raised) g) :
    wp (mediator given.policy) ((ask o).bind f) (Ends R Stage.Raised) g := by
  cases hg with
  | looking rest =>
    refine Ends.call (looking_allows given.policy ho) ?_ ?_
    · intro a
      rw [looking_next given.policy ho]
      exact hf a
    · intro x
      rw [looking_next given.policy ho]
      trivial
  | closed => exact Ends.call ho hf fun _ => trivial

theorem Stage.Open.attempted {o : CoordOp} {f : Except PyExc o.Ans → Prog Asked PyExc β}
    (hg : g.Open) (ho : between o = true)
    (hf : ∀ res, wp (mediator given.policy) (f res) (Ends R Stage.Raised) g) :
    wp (mediator given.policy) ((ask o).attempt.bind f) (Ends R Stage.Raised) g := by
  cases hg with
  | looking rest =>
    refine Ends.attempt (looking_allows given.policy ho) ?_ ?_
    · intro a
      rw [looking_next given.policy ho]
      exact hf (.ok a)
    · intro x
      rw [looking_next given.policy ho]
      exact hf (.error x)
  | closed => exact Ends.attempt ho (fun a => hf (.ok a)) fun x => hf (.error x)

/-- The checks before a round. -/
theorem looking_ask {o : CoordOp} {f : o.Ans → Prog Asked PyExc β}
    (ho : o = .pauseCheck ∨ o = .stopCheck)
    (hf : ∀ a, wp (mediator given.policy) (f a) (Ends R Stage.Raised) (.looking rest)) :
    wp (mediator given.policy) ((ask o).bind f) (Ends R Stage.Raised) (.looking rest) := by
  rcases ho with rfl | rfl
  · refine Ends.call (.inl rfl) ?_ ?_
    · intro a
      cases rest <;> exact hf a
    · intro x
      cases rest <;> trivial
  · refine Ends.call (.inr (.inl rfl)) ?_ ?_
    · intro a
      cases rest <;> exact hf a
    · intro x
      cases rest <;> trivial

theorem toolError_mediated {x : PyExc} :
    wp (mediator given.policy) (RunCoordinator.toolError (collaborators given) act x s)
      (Ends (Round rest) Stage.Raised) (.looking rest) := by
  simp only [RunCoordinator.toolError, bind_eq]
  refine (Stage.Open.looking rest).asked rfl ?_
  intro _
  refine (Stage.Open.looking rest).asked rfl ?_
  intro now
  split
  · exact .looking rest
  · rfl

/-- An allowed action that has been checked. -/
theorem callTool_mediated (hallow : (given.policy.decide act.tool).decision = .allow) :
    wp (mediator given.policy) (RunCoordinator.callTool (collaborators given) act s)
      (Ends (Round rest) Stage.Raised) (.checked act rest) := by
  simp only [RunCoordinator.callTool, bind_eq]
  refine Ends.attempt ⟨hallow, rfl, rfl⟩ ?_ fun x => toolError_mediated
  intro result
  refine (Stage.Open.looking rest).attempted rfl ?_
  rintro (x | _)
  · exact toolError_mediated
  · rfl

/-- The policy decides on the action that is next. -/
theorem decideAction_mediated :
    wp (mediator given.policy) (RunCoordinator.decideAction (collaborators given) act s)
      (Ends (Round rest) Stage.Raised) (.looking (act :: rest)) := by
  simp only [RunCoordinator.decideAction, bind_eq]
  refine Ends.call ⟨act, rfl, rfl⟩ ?_ fun _ => trivial
  intro _
  have hpolicy : (collaborators given).policy = given.policy := rfl
  rw [hpolicy]
  change wp (mediator given.policy) _ _ (if (given.policy.decide act.tool).decision = .deny
    then .closed else .checked act rest)
  cases hdec : (given.policy.decide act.tool).decision with
  | deny => exact .closed
  | requireApproval => exact Ends.call ⟨hdec, rfl⟩ (fun _ => .closed) fun _ => trivial
  | allow => exact callTool_mediated hdec

theorem canContinue_mediated :
    wp (mediator given.policy) (RunCoordinator.canContinue (collaborators given) s)
      (Ends (fun _ g => g = .looking rest) Stage.Raised) (.looking rest) := by
  simp only [RunCoordinator.canContinue, bind_eq]
  refine (Stage.Open.looking rest).asked rfl ?_
  rintro ⟨kill, pause⟩
  cases kill with
  | true => rfl
  | false =>
    cases pause with
    | true => rfl
    | false =>
      refine (Stage.Open.looking rest).asked rfl ?_
      intro now
      split <;> rfl

/-- One round of the loop. -/
theorem runAction_mediated :
    wp (mediator given.policy) (RunCoordinator.runAction (collaborators given) act s)
      (Ends (Round rest) Stage.Raised) (.looking (act :: rest)) := by
  simp only [RunCoordinator.runAction, bind_eq]
  refine looking_ask (.inl rfl) ?_
  intro paused
  split
  · exact .looking (act :: rest)
  · refine looking_ask (.inr rfl) ?_
    intro stopped
    split
    · exact .looking (act :: rest)
    · refine Ends.bind canContinue_mediated ?_
      rintro ⟨goOn, s'⟩ g rfl
      cases goOn with
      | true => exact decideAction_mediated
      | false => exact .looking (act :: rest)

/-- **The loop**, by induction on the actions still to come. -/
theorem runActions_mediated {acts : List (Option Action)} :
    wp (mediator given.policy) (RunCoordinator.runActions (collaborators given) acts s)
      (Ends (fun _ g => g.Open) Stage.Raised) (.looking (acts.filterMap id)) := by
  induction acts generalizing s with
  | nil => exact .looking []
  | cons act acts ih =>
    cases act with
    | none => exact ih
    | some act =>
      simp only [RunCoordinator.runActions, bind_eq]
      refine Ends.bind runAction_mediated ?_
      rintro ⟨step, s'⟩ g hround
      cases step with
      | stop => exact hround
      | go =>
        obtain rfl : g = .looking (acts.filterMap id) := hround
        exact ih

theorem finalize_mediated (hg : g.Open) :
    wp (mediator given.policy) (RunCoordinator.finalize (collaborators given) s)
      (Ends (fun _ g => g.Open) Stage.Raised) g := by
  simp only [RunCoordinator.finalize, bind_eq]
  have hsettle : wp (mediator given.policy) (RunCoordinator.settleStatus (collaborators given) s)
      (Ends (fun _ g' => g' = g) Stage.Raised) g := by
    simp only [RunCoordinator.settleStatus, bind_eq]
    refine hg.asked rfl ?_
    rintro ⟨kill, pause⟩
    cases pause with
    | true => rfl
    | false =>
      cases kill with
      | true => rfl
      | false =>
        simp only [Bool.false_eq_true, ite_false]
        split
        · rfl
        · split
          · rfl
          · exact hg.asked rfl fun _ => rfl
  refine Ends.bind hsettle ?_
  rintro s' g' rfl
  exact hg.asked rfl fun _ => hg

/-- **The coordinator keeps to the protocol.** -/
theorem run_mediated {runId : Text} :
    wp (mediator given.policy) (RunCoordinator.run (collaborators given) runId)
      (Ends (fun _ g => g.Open) Stage.Raised) .planning := by
  simp only [RunCoordinator.run, bind_eq]
  refine Ends.call rfl ?_ fun _ => trivial
  intro now
  refine Ends.call rfl ?_ fun _ => trivial
  intro _
  refine Ends.call rfl ?_ fun _ => trivial
  intro plan
  refine (Stage.Open.looking _).asked rfl ?_
  intro _
  refine (Stage.Open.looking _).asked rfl ?_
  intro _
  exact Ends.bind runActions_mediated fun s g hg => finalize_mediated hg

end coordinator

/-! ## Reading the protocol off a trace -/

/-- The plan an answer brings. -/
def planOf : Performed Asked → Option (List Action)
  | ⟨.makePlan, .ok plan⟩ => some (plan.steps.filterMap id)
  | _ => none

/-- How many actions were looked at. -/
def lookedAt (t : List (Performed Asked)) : Nat := (sunk t).count .policyCheck

/-- The action of the plan that is to be looked at next. -/
def nextAction (t : List (Performed Asked)) : Option Action :=
  ((t.findSome? planOf).getD [])[lookedAt t]?

/-- The last thing that happened is that the sink accepted what the policy says of `act`, and `act`
was next. -/
def Checked (given : Given) (t : List (Performed Asked)) (act : Action) : Prop :=
  ∃ older, t = older ++ [⟨.eventSink .policyCheck (checkPayload given.policy act), .ok ()⟩] ∧
    nextAction older = some act

/-- What the stage knows of the trace before it. -/
def Stage.Knows (t : List (Performed Asked)) : Stage → Prop
  | .planning => t.findSome? planOf = none ∧ lookedAt t = 0
  | .looking rest => ∃ acts, t.findSome? planOf = some acts ∧ rest = acts.drop (lookedAt t)
  | .checked act rest => (∃ acts, t.findSome? planOf = some acts ∧ rest = acts.drop (lookedAt t)) ∧
    ∃ older, t = older ++ [⟨.eventSink .policyCheck (checkPayload policy act), .ok ()⟩] ∧
      nextAction older = some act
  | .closed => True

section trace

variable {policy : PolicyEngine} {g : Stage} {t : List (Performed Asked)} {e : Performed Asked}

theorem sunk_append (t t' : List (Performed Asked)) : sunk (t ++ t') = sunk t ++ sunk t' :=
  List.filterMap_append

theorem lookedAt_snoc : lookedAt (t ++ [e]) = lookedAt t + lookedAt [e] := by
  simp only [lookedAt, sunk_append, List.count_append]

theorem planOf_snoc {acts : List Action} (h : t.findSome? planOf = some acts) :
    (t ++ [e]).findSome? planOf = some acts := by
  rw [List.findSome?_append, h]
  rfl

/-- What is not the sink's POLICY_CHECK counts for nothing. -/
theorem lookedAt_between (hb : between e.op = true) : lookedAt [e] = 0 := by
  obtain ⟨o, res⟩ := e
  cases o with
  | eventSink etype payload => cases etype <;> first | rfl | cases hb
  | _ => rfl

/-- An event that leaves the actions alone. -/
theorem knows_looking {rest acts : List Action} (hacts : t.findSome? planOf = some acts)
    (hrest : rest = acts.drop (lookedAt t)) (hn : lookedAt [e] = 0) :
    (Stage.looking rest).Knows policy (t ++ [e]) := by
  refine ⟨acts, planOf_snoc hacts, ?_⟩
  rw [lookedAt_snoc, hn]
  exact hrest

/-- Before there is a plan, and when it is made. -/
theorem knows_planning {o : CoordOp} {res : Asked.Result o} (hnone : t.findSome? planOf = none)
    (hzero : lookedAt t = 0) (hb : between o = true) :
    ((mediator policy).next .planning o res).Knows policy (t ++ [⟨o, res⟩]) := by
  have hn : lookedAt (t ++ [⟨o, res⟩]) = 0 := by
    rw [lookedAt_snoc, hzero, lookedAt_between hb]
  have hstays : planOf ⟨o, res⟩ = none →
      Stage.planning.Knows policy (t ++ [⟨o, res⟩]) := by
    intro hplan
    refine ⟨?_, hn⟩
    rw [List.findSome?_append, hnone, Option.none_or, List.findSome?_singleton]
    exact hplan
  cases o with
  | makePlan =>
    cases res with
    | error x => exact hstays rfl
    | ok plan =>
      have hplan : (t ++ [(⟨.makePlan, .ok plan⟩ : Performed Asked)]).findSome? planOf =
          some (plan.steps.filterMap id) := by
        rw [List.findSome?_append, hnone]
        rfl
      refine ⟨_, hplan, ?_⟩
      rw [hn]
      rfl
  | _ => exact hstays rfl

/-- The next action is handed to the sink. -/
theorem knows_checked {act : Action} {rest acts : List Action} {payload : Dict}
    {res : Asked.Result (.eventSink .policyCheck payload)}
    (hacts : t.findSome? planOf = some acts) (hrest : act :: rest = acts.drop (lookedAt t))
    (hpayload : payload = checkPayload policy act) :
    ((mediator policy).next (.looking (act :: rest)) (.eventSink .policyCheck payload) res).Knows
      policy (t ++ [⟨.eventSink .policyCheck payload, res⟩]) := by
  cases res with
  | error x => trivial
  | ok u =>
    change (if (policy.decide act.tool).decision = .deny then Stage.closed
      else .checked act rest).Knows _ _
    split
    · trivial
    · refine ⟨⟨acts, planOf_snoc hacts, ?_⟩, t, by rw [hpayload], ?_⟩
      · rw [lookedAt_snoc, ← List.drop_drop, ← hrest]
        rfl
      · rw [nextAction, hacts, Option.getD_some, ← List.head?_drop, ← hrest]
        rfl

/-- **One operation**: the stage still knows the trace. -/
theorem Stage.Knows.step (hk : g.Knows policy t) (ha : (mediator policy).allows g e.op) :
    ((mediator policy).next g e.op e.result).Knows policy (t ++ [e]) := by
  obtain ⟨o, res⟩ := e
  cases g with
  | closed => trivial
  | planning => exact knows_planning hk.1 hk.2 ha
  | looking rest =>
    obtain ⟨acts, hacts, hrest⟩ := hk
    by_cases hb : between o = true
    · rw [looking_next policy hb]
      exact knows_looking hacts hrest (lookedAt_between hb)
    · cases o with
      | eventSink etype payload =>
        cases etype with
        | policyCheck =>
          obtain ⟨act, hhead, hpayload⟩ := ha
          obtain ⟨rest, rfl⟩ := List.head?_eq_some_iff.1 hhead
          exact knows_checked hacts hrest hpayload
        | awaitingApproval => exact absurd ha (by simp [mediator, Stage.allows, hb])
        | _ => exact absurd rfl hb
      | execute tool args => exact absurd ha (by simp [mediator, Stage.allows, hb])
      | pauseCheck => cases rest <;> exact knows_looking hacts hrest rfl
      | stopCheck => cases rest <;> exact knows_looking hacts hrest rfl
      | _ => exact absurd rfl hb
  | checked act rest =>
    obtain ⟨⟨acts, hacts, hrest⟩, -⟩ := hk
    cases o with
    | execute tool args => exact knows_looking hacts hrest rfl
    | eventSink etype payload => trivial
    | _ => exact ha.elim

theorem knows_after (hadm : (mediator policy).Admits .planning t) :
    ((mediator policy).after .planning t).Knows policy t := by
  induction t using List.reverseRecOn with
  | nil => exact ⟨rfl, rfl⟩
  | append_singleton t e ih =>
    obtain ⟨hbefore, ha, -⟩ := (Protocol.admits_append _).1 hadm
    rw [Protocol.after_append]
    exact (ih hbefore).step ha

theorem looks_of_between (hb : between e.op = true) : looks e.op = false := by
  unfold between at hb
  split at hb
  · cases hb
  · simpa using hb

/-- Once closed, no action is looked at. -/
theorem closed_looks (hadm : (mediator policy).Admits .closed t) (he : e ∈ t) :
    looks e.op = false := by
  induction t with
  | nil => cases he
  | cons e' t ih =>
    rcases List.mem_cons.1 he with rfl | he
    · exact looks_of_between hadm.1
    · exact ih hadm.2 he

/-- An action that needs an approval is the last that is looked at. -/
theorem checked_looks {act : Action} {rest : List Action}
    (hreq : (policy.decide act.tool).decision = .requireApproval)
    (hadm : (mediator policy).Admits (.checked act rest) t) (he : e ∈ t) :
    looks e.op = false := by
  cases t with
  | nil => cases he
  | cons e' t =>
    obtain ⟨ha, hrest⟩ := hadm
    obtain ⟨o, res⟩ := e'
    have hawaits : ∃ payload, o = .eventSink .awaitingApproval payload := by
      cases o with
      | execute tool args =>
        have hallow := ha.1
        rw [hreq] at hallow
        cases hallow
      | eventSink etype payload => cases etype <;> first | exact ⟨payload, rfl⟩ | exact ha.elim
      | _ => exact ha.elim
    obtain ⟨payload, rfl⟩ := hawaits
    rcases List.mem_cons.1 he with rfl | he
    · rfl
    · exact closed_looks hrest he

end trace

/-- **Mediation.**  What is looked at are the actions of the plan in their order; a tool is called
for an action that has just been looked at and is allowed; after an action that is not allowed none
is looked at; and an approval is asked for right after each action that needs one has been looked
at, and only then. -/
structure Mediated (given : Given) (t : List (Performed Asked)) : Prop where
  looked : ∀ older payload res newer, t = older ++ ⟨.eventSink .policyCheck payload, res⟩ :: newer →
    ∃ act, nextAction older = some act ∧ payload = checkPayload given.policy act
  calls : ∀ older tool args res newer, t = older ++ ⟨.execute tool args, res⟩ :: newer →
    ∃ act, Checked given older act ∧ (given.policy.decide act.tool).decision = .allow ∧
      tool = act.tool ∧ args = act.arguments
  last : ∀ older act res newer,
    t = older ++ ⟨.eventSink .policyCheck (checkPayload given.policy act), res⟩ :: newer →
      (given.policy.decide act.tool).decision ≠ .allow → ∀ e ∈ newer, looks e.op = false
  requested : ∀ older payload res newer,
    t = older ++ ⟨.eventSink .awaitingApproval payload, res⟩ :: newer →
      ∃ act, Checked given older act ∧
        (given.policy.decide act.tool).decision = .requireApproval ∧
          payload = approvalPayload given.policy act
  requests : ∀ older act newer, t = older ++ newer → Checked given older act →
    (given.policy.decide act.tool).decision = .requireApproval →
      ∃ res newer', newer =
        ⟨.eventSink .awaitingApproval (approvalPayload given.policy act), res⟩ :: newer'

section mediated

variable {given : Given} {t older newer : List (Performed Asked)} {e : Performed Asked}
  {act : Action}

/-- A point of a trace. -/
theorem admits_point {policy : PolicyEngine} (heq : t = older ++ e :: newer)
    (hadm : (mediator policy).Admits .planning t) :
    ((mediator policy).after .planning older).Knows policy older ∧
      (mediator policy).allows ((mediator policy).after .planning older) e.op ∧
        (mediator policy).Admits ((mediator policy).next ((mediator policy).after .planning older)
          e.op e.result) newer := by
  subst heq
  obtain ⟨hbefore, ha, hafter⟩ := (Protocol.admits_append _).1 hadm
  exact ⟨knows_after hbefore, ha, hafter⟩

/-- What is looked at is the next action. -/
theorem looking_at {payload : Dict} {res : Asked.Result (.eventSink .policyCheck payload)}
    (heq : t = older ++ ⟨.eventSink .policyCheck payload, res⟩ :: newer)
    (hadm : (mediator given.policy).Admits .planning t) :
    ∃ act rest, (mediator given.policy).after .planning older = .looking (act :: rest) ∧
      nextAction older = some act ∧ payload = checkPayload given.policy act := by
  obtain ⟨hk, ha, -⟩ := admits_point heq hadm
  cases hg : (mediator given.policy).after .planning older with
  | looking rest =>
    rw [hg] at hk ha
    obtain ⟨acts, hacts, hrest⟩ := hk
    obtain ⟨act, hhead, hpayload⟩ := ha
    refine ⟨act, rest.tail, ?_, ?_, hpayload⟩
    · rw [List.cons_head?_tail hhead]
    · rw [nextAction, hacts, Option.getD_some, ← List.head?_drop, ← hrest]
      exact hhead
  | planning =>
    rw [hg] at ha
    cases ha
  | checked act rest =>
    rw [hg] at ha
    exact ha.elim
  | closed =>
    rw [hg] at ha
    cases ha

/-- The sink has accepted what the policy says of an action that is not denied. -/
theorem after_checked (hadm : (mediator given.policy).Admits .planning older)
    (hc : Checked given older act) (hdec : (given.policy.decide act.tool).decision ≠ .deny) :
    ∃ rest, (mediator given.policy).after .planning older = .checked act rest := by
  obtain ⟨before, rfl, hnext⟩ := hc
  obtain ⟨act', rest, hg, hnext', -⟩ := looking_at rfl hadm
  obtain rfl : act' = act := Option.some.inj (hnext'.symm.trans hnext)
  refine ⟨rest, ?_⟩
  rw [Protocol.after_append, hg]
  exact if_neg hdec

/-- Only an action that has been checked is dealt with. -/
theorem checked_of_allows {policy : PolicyEngine} {g : Stage} {o : CoordOp}
    (ha : (mediator policy).allows g o) (ho : between o = false)
    (hlooking : ∀ rest, ¬(mediator policy).allows (.looking rest) o) :
    ∃ act rest, g = .checked act rest := by
  cases g with
  | checked act rest => exact ⟨act, rest, rfl⟩
  | looking rest => exact absurd ha (hlooking rest)
  | planning =>
    rw [show between o = true from ha] at ho
    cases ho
  | closed =>
    rw [show between o = true from ha] at ho
    cases ho

/-- **The policy mediates.**  Every execution of the coordinator, whatever its collaborators answer
and however it ends, looks at the actions of the plan in order, calls what is allowed, asks for the
approvals that are required, and stops at the first action that is not allowed. -/
theorem policy_mediates {runId : Text} {res : Except PyExc CoordState}
    (hexec : Exec (RunCoordinator.run (collaborators given) runId) t res) : Mediated given t := by
  obtain ⟨hadm, hend⟩ := hexec.sound run_mediated
  refine ⟨?_, ?_, ?_, ?_, ?_⟩
  · intro older payload r newer heq
    obtain ⟨act, rest, -, hnext, hpayload⟩ := looking_at heq hadm
    exact ⟨act, hnext, hpayload⟩
  · intro older tool args r newer heq
    obtain ⟨hk, ha, -⟩ := admits_point heq hadm
    obtain ⟨act, rest, hg⟩ := checked_of_allows ha rfl (by rintro rest (h | h | h) <;> cases h)
    rw [hg] at hk ha
    exact ⟨act, hk.2, ha⟩
  · intro older act r newer heq hdec e he
    obtain ⟨act', rest, hg, -, hpayload⟩ := looking_at heq hadm
    obtain ⟨-, -, hafter⟩ := admits_point heq hadm
    rw [hg] at hafter
    have htool : act.tool = act'.tool := by
      simp only [checkPayload, List.cons.injEq, Prod.mk.injEq] at hpayload
      exact Text.str.inj (Json.text.inj hpayload.1.2)
    rw [htool] at hdec
    cases r with
    | error x => exact closed_looks hafter he
    | ok u =>
      cases hd : (given.policy.decide act'.tool).decision with
      | allow => exact absurd hd hdec
      | deny =>
        have hclosed : (mediator given.policy).next (.looking (act' :: rest))
            (.eventSink .policyCheck (checkPayload given.policy act)) (.ok u) = .closed :=
          if_pos hd
        rw [hclosed] at hafter
        exact closed_looks hafter he
      | requireApproval =>
        have hchecked : (mediator given.policy).next (.looking (act' :: rest))
            (.eventSink .policyCheck (checkPayload given.policy act)) (.ok u) =
              .checked act' rest :=
          if_neg (by rw [hd]; exact nofun)
        rw [hchecked] at hafter
        exact checked_looks hd hafter he
  · intro older payload r newer heq
    obtain ⟨hk, ha, -⟩ := admits_point heq hadm
    obtain ⟨act, rest, hg⟩ := checked_of_allows ha rfl (by rintro rest (h | h | h) <;> cases h)
    rw [hg] at hk ha
    exact ⟨act, hk.2, ha⟩
  · intro older act newer heq hc hreq
    have hbefore : (mediator given.policy).Admits .planning older := by
      rw [heq, Protocol.admits_append] at hadm
      exact hadm.1
    obtain ⟨rest, hg⟩ := after_checked hbefore hc (by rw [hreq]; exact nofun)
    cases newer with
    | nil =>
      -- a run does not end between the check and the request
      rw [List.append_nil] at heq
      rw [heq, hg] at hend
      cases res with
      | ok s => cases hend
      | error x => exact hend.elim
    | cons e newer =>
      obtain ⟨-, ha, -⟩ := admits_point heq hadm
      rw [hg] at ha
      obtain ⟨o, r⟩ := e
      cases o with
      | execute tool args =>
        have hallow := ha.1
        rw [hreq] at hallow
        cases hallow
      | eventSink etype payload =>
        cases etype with
        | awaitingApproval =>
          obtain ⟨-, rfl⟩ := ha
          exact ⟨r, newer, rfl⟩
        | _ => exact ha.elim
      | _ => exact ha.elim

end mediated

/-- A plan whose action needs an approval. -/
theorem policy_mediates_write : ∃ t res,
    Exec (RunCoordinator.run (collaborators given) (.uuid 0)) t res ∧
      sunk t = [.started, .plan, .context, .policyCheck, .awaitingApproval, .end] ∧
        Mediated given t := by
  have hexec := exec_play (undisturbed "technocore_signed_write")
    (RunCoordinator.run (collaborators given) (.uuid 0))
  exact ⟨_, _, hexec, by decide +kernel, policy_mediates hexec⟩

end Mediation

end Observatory
