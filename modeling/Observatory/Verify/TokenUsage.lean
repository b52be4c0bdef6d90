import Observatory.Verify.Planning

/-!
# Token accounting

`tokens_used` of a finished run is what the plan carries as its usage (`run_tokens`), whatever the
tools, the sink and the checks do.  The plan carries the usage of the provider's answer only if the
answer was accepted: the template that replaces a rejected one has none (`tokens_accounted_iff`).
-/

namespace Observatory

open Effect Prog

section run

variable {S : Sig} {c : Collaborators S} {s : CoordState} {act : Action} {n : Nat} {α β : Type}

/-- The tokens used are still `n`. -/
def Spent (n : Nat) (s : CoordState) (_ : Unit) : Prop := s.counters.tokensUsed = n

def Always (_ : Unit) : Prop := True

/-- A collaborator does what it wants. -/
theorem ask_any {p : Prog S PyExc α} {f : α → Prog S PyExc β} {R : β → Unit → Prop}
    (hf : ∀ a, wp (unrestricted S) (f a) (Ends R Always) ()) :
    wp (unrestricted S) (p.bind f) (Ends R Always) () := by
  rw [wp_bind]
  refine wp_unrestricted fun r => ?_
  cases r with
  | error x => trivial
  | ok a => exact hf a

theorem attempt_any {p : Prog S PyExc α} {f : Except PyExc α → Prog S PyExc β}
    {R : β → Unit → Prop} (hf : ∀ r, wp (unrestricted S) (f r) (Ends R Always) ()) :
    wp (unrestricted S) (p.attempt.bind f) (Ends R Always) () := ask_any hf

namespace RunCoordinator

theorem canContinue_spent (hs : Spent n s ()) : wp (unrestricted S) (canContinue c s)
    (Ends (fun out => Spent n out.2) Always) () := by
  simp only [canContinue, bind_eq]
  refine ask_any fun flags => ?_
  obtain ⟨kill, pause⟩ := flags
  dsimp only
  split
  · exact hs
  split
  · exact hs
  refine ask_any fun now => ?_
  split
  · exact hs
  · exact hs

theorem toolError_spent {x : PyExc} (hs : Spent n s ()) : wp (unrestricted S) (toolError c act x s)
    (Ends (fun out => Spent n out.2) Always) () := by
  simp only [toolError, bind_eq]
  refine ask_any fun _ => ask_any fun now => ?_
  split
  · exact hs
  · exact hs

theorem callTool_spent (hs : Spent n s ()) : wp (unrestricted S) (callTool c act s)
    (Ends (fun out => Spent n out.2) Always) () := by
  simp only [callTool, bind_eq]
  refine attempt_any fun r => ?_
  cases r with
  | error x => exact toolError_spent hs
  | ok result =>
    refine attempt_any fun r => ?_
    cases r with
    | error x => exact toolError_spent hs
    | ok u => exact hs

theorem decideAction_spent (hs : Spent n s ()) : wp (unrestricted S) (decideAction c act s)
    (Ends (fun out => Spent n out.2) Always) () := by
  simp only [decideAction, bind_eq]
  refine ask_any fun _ => ?_
  split
  · exact hs
  · exact ask_any fun _ => hs
  · exact callTool_spent hs

theorem runAction_spent (hs : Spent n s ()) : wp (unrestricted S) (runAction c act s)
    (Ends (fun out => Spent n out.2) Always) () := by
  simp only [runAction, bind_eq]
  refine ask_any fun paused => ?_
  split
  · exact hs
  refine ask_any fun stopped => ?_
  split
  · exact hs
  refine Ends.bind (canContinue_spent hs) fun out _ hout => ?_
  obtain ⟨goOn, s'⟩ := out
  dsimp only
  split
  · exact hout
  · exact decideAction_spent hout

theorem runActions_spent {acts : List (Option Action)} (hs : Spent n s ()) :
    wp (unrestricted S) (runActions c acts s) (Ends (Spent n) Always) () := by
  induction acts generalizing s with
  | nil => exact hs
  | cons act acts ih =>
    cases act with
    | none => exact ih hs
    | some act =>
      rw [runActions, bind_eq]
      refine Ends.bind (runAction_spent hs) fun out _ hout => ?_
      obtain ⟨next, s'⟩ := out
      cases next with
      | stop => exact hout
      | go => exact ih hout

theorem settleStatus_spent (hs : Spent n s ()) :
    wp (unrestricted S) (settleStatus c s) (Ends (Spent n) Always) () := by
  simp only [settleStatus, bind_eq]
  refine ask_any fun flags => ?_
  obtain ⟨kill, pause⟩ := flags
  dsimp only
  split
  · exact hs
  split
  · exact hs
  split
  · exact hs
  split
  · exact hs
  · exact ask_any fun _ => hs

theorem finalize_spent (hs : Spent n s ()) :
    wp (unrestricted S) (finalize c s) (Ends (Spent n) Always) () := by
  simp only [finalize, bind_eq]
  refine Ends.bind (settleStatus_spent hs) fun s' _ hs' => ?_
  refine ask_any fun _ => ?_
  split
  · exact hs'
  · exact hs'

/-- **What a finished run has spent** is what its plan brought. -/
theorem run_tokens {runId : Text} {t : List (Performed S)} (h : Exec (run c runId) t (.ok s)) :
    ∃ t₁ plan, Exec c.makePlan t₁ (.ok plan) ∧
      s.counters.tokensUsed = (Counters.addUsage {} plan.usage).tokensUsed := by
  simp only [run, bind_eq] at h
  obtain ⟨now, t₁, t₂, rfl, -, h⟩ := exec_bind_ok.1 h
  obtain ⟨-, t₃, t₄, rfl, -, h⟩ := exec_bind_ok.1 h
  obtain ⟨plan, t₅, t₆, rfl, hplan, h⟩ := exec_bind_ok.1 h
  refine ⟨t₅, plan, hplan, ?_⟩
  refine h.post (Q := Ends (Spent (Counters.addUsage {} plan.usage).tokensUsed) Always) ?_
  refine ask_any fun _ => ask_any fun _ => ?_
  refine Ends.bind (runActions_spent ?_) fun s' _ hs' => finalize_spent hs'
  rfl

end RunCoordinator

end run

namespace Planner

variable {lib : Library} {defaultGithubRepo : String} {res : LLMResult} {usage : Dict}

/-! ## Usage -/

/-- The counts of a usage dict are non-negative. -/
def Counts (usage : Dict) : Prop := ∀ kv ∈ usage, ∃ n : Nat, kv.2 = .int n

def intAt (usage : Dict) (key : String) : Int :=
  match usage.get key with
  | some (.int n) => n
  | _ => 0

/-- The total of a usage dict: what it says, or the sum of its parts. -/
def totalOf (usage : Dict) : Int :=
  if intAt usage "total_tokens" = 0 then
    intAt usage "prompt_tokens" + intAt usage "completion_tokens"
  else intAt usage "total_tokens"

theorem count_eq (h : Counts usage) (key : String) :
    (((count usage key).getD 0 : Nat) : Int) = intAt usage key := by
  unfold count intAt
  cases hget : usage.get key with
  | none => rfl
  | some value =>
    obtain ⟨before, after, rfl, -⟩ := List.lookup_eq_some_iff.1 hget
    obtain ⟨n, hn⟩ := h (key, value) (List.mem_append_right _ List.mem_cons_self)
    obtain rfl : value = .int n := hn
    rfl

theorem addUsage_tokens (h : Counts usage) :
    ((Counters.addUsage {} (readUsage usage)).tokensUsed : Int) = totalOf usage := by
  have htotal := count_eq h "total_tokens"
  have hprompt := count_eq h "prompt_tokens"
  have hcompletion := count_eq h "completion_tokens"
  unfold Counters.addUsage readUsage totalOf
  dsimp only
  rw [← htotal, ← hprompt, ← hcompletion]
  cases htt : count usage "total_tokens" with
  | none =>
    simp
  | some tt =>
    cases tt with
    | zero => simp
    | succ tt =>
      simp
      omega

/-! ## The accounting -/

/-- The template brings no usage. -/
theorem toPlan_template (goal : Json) : (toPlan (templatePlan goal)).usage = readUsage [] := rfl

/-- An accepted plan brings the usage of its answer. -/
theorem toPlan_accepted (plan : TaskPlan) (actions : List PlanAction) :
    (toPlan (plan.dump actions ++ [("_llm_usage", .obj usage)])).usage = readUsage usage := rfl

section accounting

variable {S : Sig} {c : Collaborators S} {ask : List LLMMessage → Prog S PyExc LLMResult}
  {task : Dict}

/-- The run plans with a provider whose answer is `res`. -/
structure PlansWith (lib : Library) (defaultGithubRepo : String) (c : Collaborators S)
    (ask : List LLMMessage → Prog S PyExc LLMResult) (task : Dict) (res : LLMResult) : Prop where
  planner : c.makePlan =
    (makePlan lib defaultGithubRepo (some ask) task).bind fun out => .ret (toPlan out)
  answer : ∀ msgs t r, Exec (ask msgs) t r → r = .ok res

/-- The plan of such a run. -/
theorem PlansWith.plan (h : PlansWith lib defaultGithubRepo c ask task res)
    {t : List (Performed S)} {plan : Plan} (hplan : Exec c.makePlan t (.ok plan)) :
    ∃ goal, plan = toPlan (planOf lib defaultGithubRepo goal (.ok res)) := by
  rw [h.planner] at hplan
  obtain ⟨out, t₁, t₂, rfl, hout, hret⟩ := exec_bind_ok.1 hplan
  cases (exec_ret.1 hret).2
  cases hgoal : goalOf task with
  | error x =>
    rw [makePlan, hgoal] at hout
    cases (exec_raise.1 hout).2
  | ok goal =>
    obtain ⟨answer, hanswer, hr⟩ := exec_makePlan hgoal hout
    cases hr
    cases hanswer with
    | nobody hnone => cases hnone
    | asked hask ht =>
      cases hask
      obtain rfl := h.answer _ _ _ ht
      exact ⟨goal, rfl⟩

/-- **The tokens of a provider call are accounted for exactly if its answer was accepted**, or there
were none. -/
theorem tokens_accounted_iff {runId : Text} {t : List (Performed S)} {s : CoordState}
    (hplan : PlansWith lib defaultGithubRepo c ask task res) (hcounts : Counts res.usage)
    (h : Exec (RunCoordinator.run c runId) t (.ok s)) :
    (s.counters.tokensUsed : Int) = totalOf res.usage ↔
      (∃ parsed filtered plan, Accepts lib defaultGithubRepo res parsed filtered plan) ∨
        totalOf res.usage = 0 := by
  obtain ⟨t₁, plan, hmade, htokens⟩ := RunCoordinator.run_tokens h
  obtain ⟨goal, rfl⟩ := hplan.plan hmade
  rcases accepts_or_rejects lib defaultGithubRepo res with ⟨parsed, filtered, plan, hacc⟩ | hrej
  · rw [htokens, planOf_accepted hacc, toPlan_accepted, addUsage_tokens hcounts]
    exact iff_of_true rfl (.inl ⟨parsed, filtered, plan, hacc⟩)
  · rw [htokens, planOf_rejected hrej, toPlan_template]
    have hnone : ¬ ∃ parsed filtered plan, Accepts lib defaultGithubRepo res parsed filtered plan :=
      fun ⟨parsed, filtered, plan, hacc⟩ => hrej parsed filtered plan hacc
    have hzero : ((Counters.addUsage {} (readUsage [])).tokensUsed : Int) = 0 := rfl
    rw [hzero]
    constructor
    · intro h0
      exact .inr h0.symm
    · rintro (hacc | h0)
      · exact absurd hacc hnone
      · exact h0.symm

end accounting

/-! ## Two answers -/

/-- A run whose tools and checks do nothing, planned with the answer `res`. -/
def plannedWith (res : LLMResult) : Collaborators ⟨Empty, nofun, PyExc⟩ where
  execute _ _ := .ret .null
  makePlan := (makePlan sampleLibrary "" (some (answering res)) sampleTask).bind fun out =>
    .ret (toPlan out)
  eventSink _ _ := .ret ()
  pauseCheck := .ret false
  stopCheck := .ret false
  monotonic _ := .ret 0
  flags := .ret (false, false)
  policy := {}
  verify executed := .ok (defaultVerify executed)
  budget := {}
  segments := .list []

theorem plannedWith_plansWith (res : LLMResult) :
    PlansWith sampleLibrary "" (plannedWith res) (answering res) sampleTask res :=
  ⟨rfl, fun _ _ _ h => (exec_ret.1 h).2⟩

/-- There is one such run, without any operation. -/
theorem played_run {res : LLMResult} {n : Nat}
    (h : ((RunCoordinator.run (plannedWith res) (.uuid 0)).play
      (fun o : Empty => o.elim)).2.toOption.map (·.counters.tokensUsed) = some n) :
    ∃ t s, Exec (RunCoordinator.run (plannedWith res) (.uuid 0)) t (.ok s) ∧
      s.counters.tokensUsed = n := by
  have hexec := exec_play (fun o : Empty => o.elim)
    (RunCoordinator.run (plannedWith res) (.uuid 0))
  generalize ((RunCoordinator.run (plannedWith res) (.uuid 0)).play
    (fun o : Empty => o.elim)) = run at h hexec
  obtain ⟨t, r⟩ := run
  cases r with
  | error x => cases h
  | ok s => exact ⟨t, s, hexec, Option.some.inj h⟩

theorem fenced_counts : Counts fenced.usage := by
  intro kv hkv
  simp only [fenced, List.mem_cons, List.not_mem_nil, or_false] at hkv
  rcases hkv with rfl | rfl | rfl
  · exact ⟨10, rfl⟩
  · exact ⟨5, rfl⟩
  · exact ⟨15, rfl⟩

/-- An accepted answer of 15 tokens. -/
theorem tokens_accounted_iff_fenced : ∃ t s,
    Exec (RunCoordinator.run (plannedWith fenced) (.uuid 0)) t (.ok s) ∧
      s.counters.tokensUsed = 15 ∧ ((s.counters.tokensUsed : Int) = totalOf fenced.usage ↔
        (∃ parsed filtered plan, Accepts sampleLibrary "" fenced parsed filtered plan) ∨
          totalOf fenced.usage = 0) := by
  obtain ⟨t, s, hexec, htokens⟩ := @played_run fenced 15 (by decide +kernel)
  exact ⟨t, s, hexec, htokens,
    tokens_accounted_iff (plannedWith_plansWith fenced) fenced_counts hexec⟩

/-- An answer that is no JSON. -/
def prose : LLMResult where
  text := "I would read the room first."
  usage := fenced.usage

/-- **The tokens of a rejected answer are lost.** -/
theorem tokens_lost : ∃ t s,
    Exec (RunCoordinator.run (plannedWith prose) (.uuid 0)) t (.ok s) ∧
      s.counters.tokensUsed = 0 ∧ totalOf prose.usage = 15 := by
  obtain ⟨t, s, hexec, htokens⟩ := @played_run prose 0 (by decide +kernel)
  exact ⟨t, s, hexec, htokens, by decide⟩

end Planner

end Observatory
