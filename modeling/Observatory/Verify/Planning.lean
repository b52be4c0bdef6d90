import Observatory.Effect.Protocol
import Observatory.Model.Planner

/-!
# What the planner hands on

An answer of the model is `Accepts`ed when it gets through every stage of `make_plan`; any other one
leaves the template (`planOf_accepted`, `planOf_rejected`).  Both are safe whatever the model says.
The plan is made of what Pydantic lets through, and Pydantic only reads what the first filter left.
-/

namespace Observatory.Planner

open Effect

variable {lib : Library} {defaultGithubRepo : String} {goal : Json} {res : LLMResult}

/-! ## The stages -/

/-- The answer gets through every stage, as `plan`. -/
structure Accepts (lib : Library) (defaultGithubRepo : String) (res : LLMResult)
    (parsed filtered : Dict) (plan : TaskPlan) : Prop where
  spoken : res.text ≠ ""
  parses : lib.loads (unfence lib res.text) = .ok (.obj parsed)
  filters : prefilter defaultGithubRepo parsed = some filtered
  validates : lib.validate filtered = .ok plan
  keeps : (plan.actions.filter (·.hasRepo)).isEmpty = false

/-- Some stage rejects the answer. -/
def Rejects (lib : Library) (defaultGithubRepo : String) (res : LLMResult) : Prop :=
  ∀ parsed filtered plan, ¬ Accepts lib defaultGithubRepo res parsed filtered plan

theorem ok_bind {α β ε : Type} (a : α) (f : α → Except ε β) : (Except.ok a >>= f) = f a := rfl

theorem planOf_accepted {parsed filtered : Dict} {plan : TaskPlan}
    (h : Accepts lib defaultGithubRepo res parsed filtered plan) :
    planOf lib defaultGithubRepo goal (.ok res) =
      plan.dump (plan.actions.filter (·.hasRepo)) ++ [("_llm_usage", .obj res.usage)] := by
  have hread : readPlan lib defaultGithubRepo res =
      .ok (some (plan.dump (plan.actions.filter (·.hasRepo)) ++
        [("_llm_usage", .obj res.usage)])) := by
    unfold readPlan
    rw [h.parses, ok_bind]
    dsimp only
    rw [h.filters]
    dsimp only
    rw [h.validates, ok_bind, if_neg (Bool.eq_false_iff.1 h.keeps)]
    rfl
  unfold planOf
  dsimp only
  rw [if_neg h.spoken, hread]

/-- What a plan that is returned has been through. -/
theorem readPlan_some {out : Dict} (hspoken : res.text ≠ "")
    (h : readPlan lib defaultGithubRepo res = .ok (some out)) :
    ∃ parsed filtered plan, Accepts lib defaultGithubRepo res parsed filtered plan := by
  unfold readPlan at h
  cases hparse : lib.loads (unfence lib res.text) with
  | error x =>
    rw [hparse] at h
    cases h
  | ok value =>
    rw [hparse, ok_bind] at h
    cases value with
    | obj parsed =>
      dsimp only at h
      cases hfilter : prefilter defaultGithubRepo parsed with
      | none =>
        rw [hfilter] at h
        cases h
      | some filtered =>
        rw [hfilter] at h
        dsimp only at h
        cases hvalid : lib.validate filtered with
        | error x =>
          rw [hvalid] at h
          cases h
        | ok plan =>
          rw [hvalid, ok_bind] at h
          cases hkept : (plan.actions.filter (·.hasRepo)).isEmpty with
          | true =>
            rw [hkept] at h
            cases h
          | false => exact ⟨parsed, filtered, plan, hspoken, hparse, hfilter, hvalid, hkept⟩
    | _ => cases h

theorem planOf_rejected (h : Rejects lib defaultGithubRepo res) :
    planOf lib defaultGithubRepo goal (.ok res) = templatePlan goal := by
  unfold planOf
  dsimp only
  split
  · rfl
  next hspoken =>
    split
    next out hread =>
      obtain ⟨parsed, filtered, plan, hacc⟩ := readPlan_some hspoken hread
      exact absurd hacc (h parsed filtered plan)
    · rfl

/-- **An answer is accepted or replaced.** -/
theorem accepts_or_rejects (lib : Library) (defaultGithubRepo : String) (res : LLMResult) :
    (∃ parsed filtered plan, Accepts lib defaultGithubRepo res parsed filtered plan) ∨
      Rejects lib defaultGithubRepo res := by
  by_cases h : ∃ parsed filtered plan, Accepts lib defaultGithubRepo res parsed filtered plan
  · exact .inl h
  · exact .inr fun parsed filtered plan hacc => h ⟨parsed, filtered, plan, hacc⟩

/-! ## Safe plans -/

/-- An action that may be carried out: a known tool with its arguments, a repo read only of a named
repo and only where a default repo is set. -/
def SafeAction (defaultGithubRepo : String) (action : Json) : Prop :=
  ∃ act tool arguments, action = .obj act ∧ Dict.get act "tool" = some (.str tool) ∧
    tool ∈ knownTools ∧ Dict.get act "arguments" = some (.obj arguments) ∧
    (tool = "github_repo_read" → defaultGithubRepo ≠ "" ∧
      (Dict.get arguments "repo").any Json.truthy = true)

/-- One to twelve actions, all safe. -/
def SafePlan (defaultGithubRepo : String) (out : Dict) : Prop :=
  ∃ actions, Dict.get out "actions" = some (.list actions) ∧
    (1 ≤ actions.length ∧ actions.length ≤ 12) ∧ ∀ a ∈ actions, SafeAction defaultGithubRepo a

theorem templatePlan_safe : SafePlan defaultGithubRepo (templatePlan goal) := by
  refine ⟨_, rfl, ⟨le_refl 1, by decide⟩, fun a ha => ?_⟩
  obtain rfl := List.mem_singleton.1 ha
  refine ⟨_, "internal_health", [], rfl, rfl, by decide, rfl, fun h => ?_⟩
  exact absurd h (by decide)

/-- Pydantic: a validated action comes from a dict that names its tool. -/
def FromDicts (lib : Library) : Prop :=
  ∀ parsed plan, lib.validate parsed = .ok plan →
    ∃ acts, Dict.get parsed "actions" = some (.list acts) ∧
      ∀ a ∈ plan.actions, ∃ kvs, .obj kvs ∈ acts ∧ Dict.get kvs "tool" = some (.str a.tool)

theorem get_replaceActions {parsed : Dict} {old : Json} (acts : List Json)
    (h : Dict.get parsed "actions" = some old) :
    Dict.get (replaceActions parsed acts) "actions" = some (.list acts) := by
  unfold Dict.get replaceActions at *
  induction parsed with
  | nil => cases h
  | cons kv parsed ih =>
    obtain ⟨k, v⟩ := kv
    by_cases hk : k = "actions"
    · subst hk
      rfl
    · have hne : ("actions" == k) = false := beq_false_of_ne (Ne.symm hk)
      rw [List.lookup_cons, hne] at h
      rw [List.map_cons, if_neg hk, List.lookup_cons, hne]
      exact ih h

/-- The first filter leaves no repo read where no default repo is set. -/
theorem prefilter_get {parsed filtered : Dict} {acts : List Json}
    (hfilter : prefilter defaultGithubRepo parsed = some filtered)
    (hget : Dict.get filtered "actions" = some (.list acts)) :
    ∀ act ∈ acts, hallucinated defaultGithubRepo act = false := by
  unfold prefilter at hfilter
  split at hfilter
  next acts₀ hacts =>
    dsimp only at hfilter
    split at hfilter
    · cases hfilter
    · cases hfilter
      rw [get_replaceActions _ hacts] at hget
      cases hget
      intro act hact
      simpa using (List.mem_filter.1 hact).2
  next hnone =>
    cases hfilter
    exact absurd hget (hnone acts)

/-- **What is accepted is safe.** -/
theorem accepted_safe {parsed filtered : Dict} {plan : TaskPlan} (hlib : FromDicts lib)
    (h : Accepts lib defaultGithubRepo res parsed filtered plan) (rest : Dict) :
    SafePlan defaultGithubRepo (plan.dump (plan.actions.filter (·.hasRepo)) ++ rest) := by
  refine ⟨_, rfl, ⟨?_, ?_⟩, fun action haction => ?_⟩
  · rw [List.length_map]
    refine List.length_pos_iff.2 fun hnil => ?_
    have hkept := h.keeps
    rw [hnil] at hkept
    cases hkept
  · rw [List.length_map]
    exact (List.length_filter_le _ _).trans plan.short
  · obtain ⟨a, ha, rfl⟩ := List.mem_map.1 haction
    obtain ⟨hmem, hrepo⟩ := List.mem_filter.1 ha
    refine ⟨_, a.tool, a.arguments, rfl, rfl, a.known, rfl, fun htool => ⟨?_, ?_⟩⟩
    · obtain ⟨acts, hacts, hall⟩ := hlib filtered plan h.validates
      obtain ⟨kvs, hact, hname⟩ := hall a hmem
      have hkept := prefilter_get h.filters hacts _ hact
      rintro rfl
      unfold hallucinated at hkept
      dsimp only at hkept
      rw [hname, htool] at hkept
      cases hkept
    · rw [PlanAction.hasRepo, htool] at hrepo
      simpa using hrepo

theorem planOf_safe (hlib : FromDicts lib) (answer : Except PyExc LLMResult) :
    SafePlan defaultGithubRepo (planOf lib defaultGithubRepo goal answer) := by
  cases answer with
  | error x => exact templatePlan_safe
  | ok res =>
    rcases accepts_or_rejects lib defaultGithubRepo res with ⟨parsed, filtered, plan, hacc⟩ | hrej
    · rw [planOf_accepted hacc]
      exact accepted_safe hlib hacc _
    · rw [planOf_rejected hrej]
      exact templatePlan_safe

/-! ## The planner -/

section plan

variable {S : Sig} {chat : Option (List LLMMessage → Prog S PyExc LLMResult)} {task : Dict}
  {t : List (Performed S)} {r : Except PyExc Dict}

/-- What the provider came to: an answer or an exception, or nothing without a provider. -/
inductive Answered (lib : Library) (chat : Option (List LLMMessage → Prog S PyExc LLMResult))
    (task : Dict) (goal : Json) (t : List (Performed S)) :
    Option (Except PyExc LLMResult) → Prop where
  | nobody (h : chat = none) (ht : t = []) : Answered lib chat task goal t none
  | asked {ask answer} (h : chat = some ask)
      (ht : Prog.Exec (ask (messages lib task goal)) t answer) :
      Answered lib chat task goal t (some answer)

/-- The plan for what the provider came to. -/
def chosen (lib : Library) (defaultGithubRepo : String) (goal : Json) :
    Option (Except PyExc LLMResult) → Dict
  | none => templatePlan goal
  | some answer => planOf lib defaultGithubRepo goal answer

theorem exec_makePlan (hgoal : goalOf task = .ok goal)
    (h : Prog.Exec (makePlan lib defaultGithubRepo chat task) t r) :
    ∃ answer, Answered lib chat task goal t answer ∧
      r = .ok (chosen lib defaultGithubRepo goal answer) := by
  rw [makePlan, hgoal] at h
  cases chat with
  | none =>
    obtain ⟨rfl, rfl⟩ := Prog.exec_ret.1 h
    exact ⟨none, .nobody rfl rfl, rfl⟩
  | some ask =>
    change Prog.Exec ((ask (messages lib task goal)).attempt.bind fun answer =>
      .ret (planOf lib defaultGithubRepo goal answer)) t r at h
    obtain ⟨answer, t₁, t₂, rfl, hexec, hret⟩ := Prog.exec_attempt_bind.1 h
    obtain ⟨rfl, rfl⟩ := Prog.exec_ret.1 hret
    rw [List.append_nil]
    exact ⟨some answer, .asked rfl hexec, rfl⟩

/-- The scope of a task is a dict, or stands for an empty one. -/
def ScopeIsDict (task : Dict) : Prop :=
  ∀ scope, task.get "scope" = some scope → scope.truthy = true → ∃ kvs, scope = .obj kvs

theorem goalOf_ok (h : ScopeIsDict task) : ∃ goal, goalOf task = .ok goal := by
  unfold goalOf
  cases hscope : task.get "scope" with
  | none => exact ⟨_, rfl⟩
  | some scope =>
    cases htruthy : scope.truthy with
    | false =>
      rw [Option.filter_some, htruthy]
      exact ⟨_, rfl⟩
    | true =>
      obtain ⟨kvs, rfl⟩ := h scope hscope htruthy
      rw [Option.filter_some, htruthy]
      exact ⟨_, rfl⟩

/-- **Whatever the model says, the plan is safe**: it is returned, it may be carried out, and it is
the template unless an answer got through every stage. -/
theorem plan_safe (hlib : FromDicts lib) (hscope : ScopeIsDict task)
    (h : Prog.Exec (makePlan lib defaultGithubRepo chat task) t r) :
    ∃ out, r = .ok out ∧ SafePlan defaultGithubRepo out ∧
      ∃ goal answer, goalOf task = .ok goal ∧ Answered lib chat task goal t answer ∧
        ((∀ res, answer = some (.ok res) → Rejects lib defaultGithubRepo res) →
          out = templatePlan goal) := by
  obtain ⟨goal, hgoal⟩ := goalOf_ok hscope
  obtain ⟨answer, hanswer, rfl⟩ := exec_makePlan hgoal h
  refine ⟨_, rfl, ?_, goal, answer, hgoal, hanswer, fun hrej => ?_⟩
  · cases answer with
    | none => exact templatePlan_safe
    | some answer => exact planOf_safe hlib answer
  · cases answer with
    | none => rfl
    | some answer =>
      cases answer with
      | error x => rfl
      | ok res => exact planOf_rejected (hrej res rfl)

end plan

/-! ## A sample -/

/-- A plan with one action. -/
def samplePlan : String :=
  "\x7b\"goal\": \"observe\", \"actions\": [\x7b\"action_id\": \"action_1\", " ++
    "\"tool\": \"internal_health\"\x7d]\x7d"

def sampleAction (act : Dict) : Option PlanAction :=
  match Dict.get act "tool" with
  | some (.text (.str tool)) =>
    if h : tool ∈ knownTools then
      some ⟨textAt act "action_id", tool, dictAt act "arguments", "", [], "READ_ONLY", h⟩
    else none
  | _ => none

def sampleValidate (parsed : Dict) : Except PyExc TaskPlan :=
  match Dict.get parsed "actions" with
  | some (.list [.obj act]) =>
    match sampleAction act with
    | some a => .ok ⟨textAt parsed "goal", [], [], [a], le_refl 1, Nat.le_add_left 1 11⟩
    | none => .error (.mk "ValidationError" "actions.0.tool")
  | _ => .error (.mk "ValidationError" "actions")

/-- The libraries, on plans with one action. -/
def sampleLibrary : Library where
  isspace := Char.isWhitespace
  loads text :=
    if stripBy Char.isWhitespace text.toList = samplePlan.toList then
      .ok (.obj [("goal", .str "observe"), ("actions",
        .list [.obj [("action_id", .str "action_1"), ("tool", .str "internal_health")]])])
    else .error (.mk "JSONDecodeError" text)
  format
    | .text (.str s) => s
    | _ => ""
  validate := sampleValidate

theorem sampleLibrary_fromDicts : FromDicts sampleLibrary := by
  intro parsed plan h
  change sampleValidate parsed = .ok plan at h
  unfold sampleValidate at h
  split at h
  next act hacts =>
    split at h
    next a ha =>
      cases h
      refine ⟨_, hacts, fun a' ha' => ?_⟩
      obtain rfl := List.mem_singleton.1 ha'
      refine ⟨act, List.mem_cons_self, ?_⟩
      unfold sampleAction at ha
      split at ha
      next tool htool =>
        split at ha
        · cases ha
          exact htool
        · cases ha
      next => cases ha
    next => cases h
  next => cases h

/-- A provider whose answer is known. -/
def answering (res : LLMResult) : List LLMMessage → Prog ⟨Empty, nofun, PyExc⟩ PyExc LLMResult :=
  fun _ => .ret res

/-- An answer in a code fence. -/
def fenced : LLMResult where
  text := "```json\n" ++ samplePlan ++ "\n```"
  usage := [("prompt_tokens", .int 10), ("completion_tokens", .int 5), ("total_tokens", .int 15)]

def sampleTask : Dict := [("title", .str "t"), ("prompt", .str "p")]

/-- The answer is accepted. -/
theorem plan_safe_fenced : ∃ out,
    Prog.Exec (makePlan sampleLibrary "" (some (answering fenced)) sampleTask) [] (.ok out) ∧
      SafePlan "" out ∧ (Dict.get out "_llm_usage").isSome = true := by
  have hscope : ScopeIsDict sampleTask := fun scope h => by cases h
  have hexec := Prog.exec_play (fun o : Empty => o.elim)
    (makePlan sampleLibrary "" (some (answering fenced)) sampleTask)
  obtain ⟨out, hout, hsafe, -⟩ := plan_safe sampleLibrary_fromDicts hscope hexec
  have husage : ((makePlan sampleLibrary "" (some (answering fenced)) sampleTask).play
      (fun o : Empty => o.elim)).2.toOption.any
        (fun out => (Dict.get out "_llm_usage").isSome) = true := by
    decide +kernel
  rw [hout] at hexec husage
  exact ⟨out, hexec, hsafe, husage⟩

/-- **A scope that is a text is not caught.** -/
theorem scope_text_raises : ∃ x,
    Prog.Exec (makePlan (S := ⟨Empty, nofun, PyExc⟩) sampleLibrary "" none
      [("scope", .str "observe")]) [] (.error x) :=
  ⟨_, .raise _⟩

end Observatory.Planner
