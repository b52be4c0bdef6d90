import Observatory.Model.Retry

/-!
# Concurrent retries of one run

`Course` is the protocol of a request.  For one run and one key the invariant `Sound` ties what a
request has in the tables to its stage: the unique constraint admits one retry of the pair, and its
outbox message is committed with it, so a request that sees no retry committed can write the message
once it has written the run.  What is left to go wrong is the `INSERT` of the run itself, which
stands before the `try`: the request is answered with the one retry exactly if no other request has
inserted a retry between its look and its own `INSERT` (`retry_idempotent_iff`); one that lost that
race is a server error (`retry_race_lost`).
-/

namespace Observatory.Retry

open Effect

/-- How far a request has come. -/
inductive Stage where
  | starting
  /-- the run to retry is loaded, and it is over -/
  | loaded (r : RunId) (run : RunRow)
  /-- no retry was found -/
  | missed (r : RunId) (run : RunRow)
  | inserted (r : RunId) (run : RunRow) (new : RunId)
  /-- the message is written too -/
  | sent (r : RunId) (run : RunRow) (new : RunId)
  /-- the `try` has caught an `IntegrityError` -/
  | caught (r : RunId) (run : RunRow)
  | requerying (r : RunId) (run : RunRow)
  | replying (rep : Reply)
  /-- an exception leaves the function -/
  | failed

structure Phase where
  q : Req
  stage : Stage := .starting

namespace Phase

variable (g : Phase)

def key : Text := Api.clientKey g.q.rawKey

def at' (s : Stage) : Phase := { g with stage := s }

def allows : Op → Prop
  | .getRun r => g.stage = .starting ∧ g.q.runId.toUuid? = some r
  | .selectRetry r key => key = g.key ∧ ∃ run, g.stage = .loaded r run ∨ g.stage = .requerying r run
  | .insertRun row => ∃ r run, g.stage = .missed r run ∧ row = retryOf run r g.key
  | .insertMessage m => ∃ r run new, g.stage = .inserted r run new ∧ m = messageFor run.id g.key new
  | .commit => ∃ r run new, g.stage = .sent r run new
  | .rollback => ∃ r run, g.stage = .caught r run
  | .respond q rep => q = g.q ∧ (g.stage = .replying rep ∨
      g.stage = .failed ∧ rep = .internalError ∨ g.stage = .starting ∧ q.runId.toUuid? = none)

def next : (o : Op) → Except LibError o.Ans → Phase
  | .getRun r, .ok found =>
    match found with
    | none => g.at' (.replying (.httpError 404 "run bulunamadı"))
    | some run =>
      if run.status.isTerminal then g.at' (.loaded r run)
      else g.at' (.replying (.httpError 409
        ("run terminal değil (" ++ run.status.value ++ "), retry edilemez")))
  | .selectRetry _ _, .ok found =>
    match g.stage, found with
    | .loaded _ run, some er => g.at' (.replying (.ok er.id run.id er.retryCount true))
    | .loaded r run, none => g.at' (.missed r run)
    | .requerying _ run, some er => g.at' (.replying (.ok er.id run.id er.retryCount true))
    | _, _ => g.at' (.replying (.httpError 500 "retry commit hatası"))
  | .insertRun _, .ok new =>
    match g.stage with
    | .missed r run => g.at' (.inserted r run new)
    | _ => g
  | .insertMessage _, res =>
    match g.stage, res with
    | .inserted r run new, .ok _ => g.at' (.sent r run new)
    | .inserted r run _, .error x => g.at' (if isIntegrityError x then .caught r run else .failed)
    | _, _ => g
  | .commit, res =>
    match g.stage, res with
    | .sent _ run new, .ok _ => g.at' (.replying (.ok new run.id (run.retryCount + 1) false))
    | .sent r run _, .error x => g.at' (if isIntegrityError x then .caught r run else .failed)
    | _, _ => g
  | .rollback, .ok _ =>
    match g.stage with
    | .caught r run => g.at' (.requerying r run)
    | _ => g
  | .respond .., _ => g
  | _, .error _ => g.at' .failed

end Phase

/-- The protocol of a request. -/
def Course : Protocol Sys Phase where
  allows := Phase.allows
  next := Phase.next

/-! ## The requests keep to it -/

section programs

variable {g : Phase} {q : Req}

theorem wp_perform {o : Op} {Q : Except LibError o.Ans → Phase → Prop} :
    (perform o).wp Course Q g ↔
      g.allows o ∧ (∀ x, Q (.ok x) (g.next o (.ok x))) ∧
        ∀ x, Q (.error x) (g.next o (.error x)) := Prog.wp_call

/-- What `retry_run` ends with: the request is about to answer as it says. -/
def Answers (q : Req) : Except LibError Reply → Phase → Prop
  | .ok rep, g => g.q = q ∧
      (g.stage = .replying rep ∨ g.stage = .starting ∧ q.runId.toUuid? = none)
  | .error _, g => g = ⟨q, .failed⟩

theorem requery_keeps {r : RunId} {run : RunRow} :
    (requery run r (Api.clientKey q.rawKey)).wp Course (Answers q) ⟨q, .caught r run⟩ := by
  unfold requery
  simp only [Prog.bind_eq, Prog.wp_bind]
  refine wp_perform.2 ⟨⟨r, run, rfl⟩, fun _ => ?_, fun _ => rfl⟩
  simp only [Prog.bindPost_ok, Prog.wp_bind]
  refine wp_perform.2 ⟨⟨rfl, run, .inr rfl⟩, fun (found : Option RunRow) => ?_, fun _ => rfl⟩
  cases found with
  | none => exact ⟨rfl, .inl rfl⟩
  | some er => exact ⟨rfl, .inl rfl⟩

theorem createRetry_keeps {r : RunId} {run : RunRow} :
    (createRetry run r (Api.clientKey q.rawKey)).wp Course (Answers q) ⟨q, .missed r run⟩ := by
  unfold createRetry
  simp only [Prog.bind_eq, Prog.wp_bind]
  refine wp_perform.2 ⟨⟨r, run, rfl, rfl⟩, fun (new : RunId) => ?_, fun _ => rfl⟩
  simp only [Prog.bindPost_ok, Prog.wp_bind, Prog.wp_attempt]
  have hraised : ∀ x : LibError, (if isIntegrityError x then
      requery run r (Api.clientKey q.rawKey) else throw x).wp Course (Answers q)
        ⟨q, if isIntegrityError x then .caught r run else .failed⟩ := by
    intro x
    by_cases hx : isIntegrityError x = true
    · rw [if_pos hx, if_pos hx]
      exact requery_keeps
    · rw [if_neg hx, if_neg hx]
      exact rfl
  refine wp_perform.2 ⟨⟨r, run, new, rfl, rfl⟩, fun _ => ?_, fun x => hraised x⟩
  exact wp_perform.2 ⟨⟨r, run, new, rfl⟩, fun _ => ⟨rfl, .inl rfl⟩, fun x => hraised x⟩

theorem retryRun_keeps : (retryRun q).wp Course (Answers q) ⟨q, .starting⟩ := by
  unfold retryRun
  split
  · next hnone => exact ⟨rfl, .inr ⟨rfl, hnone⟩⟩
  · next r hr =>
    simp only [Prog.bind_eq, Prog.wp_bind]
    refine wp_perform.2 ⟨⟨rfl, hr⟩, fun (found : Option RunRow) => ?_, fun _ => rfl⟩
    cases found with
    | none => exact ⟨rfl, .inl rfl⟩
    | some run =>
      simp only [Prog.bindPost_ok, Phase.next]
      by_cases hterm : run.status.isTerminal = true
      · rw [if_pos hterm, hterm]
        simp only [Bool.not_true, Bool.false_eq_true, if_false, Prog.wp_bind]
        refine wp_perform.2 ⟨⟨rfl, run, .inl rfl⟩, fun (found : Option RunRow) => ?_, fun _ => rfl⟩
        cases found with
        | none => exact createRetry_keeps
        | some er => exact ⟨rfl, .inl rfl⟩
      · rw [if_neg hterm]
        simp only [hterm, Bool.not_false, if_true]
        exact ⟨rfl, .inl rfl⟩

/-- **Every request keeps to its course.** -/
theorem program_keeps (q : Req) : q.program.wp Course (fun _ _ => True) ⟨q, .starting⟩ := by
  unfold Req.program
  simp only [Prog.bind_eq, Prog.wp_bind, Prog.wp_attempt]
  refine Prog.wp_mono ?_ retryRun_keeps
  rintro (x | rep) g hanswers
  · obtain rfl := hanswers
    exact wp_perform.2 ⟨⟨rfl, .inr (.inl ⟨rfl, rfl⟩)⟩, fun _ => trivial, fun _ => trivial⟩
  · obtain ⟨rfl, hstage | ⟨hstage, hnone⟩⟩ := hanswers
    · exact wp_perform.2 ⟨⟨rfl, .inl hstage⟩, fun _ => trivial, fun _ => trivial⟩
    · exact wp_perform.2 ⟨⟨rfl, .inr (.inr ⟨hstage, hnone⟩)⟩, fun _ => trivial, fun _ => trivial⟩

end programs

/-! ## The tables -/

/-- The request is about the run `r` under the key `key`. -/
def Asks (r : RunId) (key : Text) (q : Req) : Prop :=
  q.runId.toUuid? = some r ∧ Api.clientKey q.rawKey = key

instance (r : RunId) (key : Text) (q : Req) : Decidable (Asks r key q) :=
  inferInstanceAs (Decidable (_ ∧ _))

/-- The message is the one for the retry of `r` under `key`. -/
def keyed (r : RunId) (key : Text) (m : MessageRow) : Bool := m.idempotencyKey = retryKey r key

/-- The key can be stored, with the message's own key made from it. -/
structure Fits (r : RunId) (key : Text) : Prop where
  storable : storable key = true
  length : keyLength (retryKey r key) ≤ 128

theorem names_retryOf {r r' : RunId} {key key' : Text} {run : RunRow} {new : RunId} :
    names r key { retryOf run r' key' with id := new } = true ↔ r' = r ∧ key' = key := by
  unfold names retryOf
  rw [Bool.and_eq_true, decide_eq_true_eq, decide_eq_true_eq, Option.some.injEq, Option.some.injEq]

theorem keyed_messageFor {r r' : RunId} {key key' : Text} {new : RunId} :
    keyed r key (messageFor r' key' new) = true ↔ r' = r ∧ key' = key := by
  unfold keyed messageFor retryKey
  rw [decide_eq_true_eq]
  simp

theorem runClash_comm (x y : RunRow) : runClash x y = runClash y x := by
  unfold runClash names
  cases hxs : x.sourceRunId <;> cases hxk : x.retryIdempotencyKey <;>
    cases hys : y.sourceRunId <;> cases hyk : y.retryIdempotencyKey <;>
    simp [eq_comm]

theorem runClash_of_names {r : RunId} {key : Text} {x y : RunRow} (hx : names r key x = true)
    (hy : names r key y = true) : runClash x y = true := by
  obtain ⟨hxs, hxk⟩ := Bool.and_eq_true_iff.1 hx
  unfold runClash
  rw [of_decide_eq_true hxs, of_decide_eq_true hxk]
  exact hy

/-- A unique constraint is met by the rows one sees exactly if it is met by all. -/
theorem insertRow_cases {R : Type} (clash : R → R → Bool) (s : Store Pid R) (p : Pid) (x : R) :
    (s.blocked clash x = false ∧ insertRow clash s p x = .ok (s.insert p x)) ∨
      (s.blocked clash x = true ∧ ∃ e, insertRow clash s p x = .error e) := by
  cases hblocked : s.blocked clash x with
  | true =>
    refine .inr ⟨rfl, ?_⟩
    unfold insertRow
    rw [if_pos hblocked]
    split
    · exact ⟨_, rfl⟩
    · exact ⟨_, rfl⟩
  | false =>
    refine .inl ⟨rfl, ?_⟩
    unfold insertRow
    rw [Store.any_visible_eq_false hblocked, hblocked]
    rfl

/-- What the request has written and not committed. -/
def Phase.Holding (g : Phase) (runs : List RunRow) (messages : List MessageRow) : Prop :=
  match g.stage with
  | .inserted r run new => runs = [{ retryOf run r g.key with id := new }] ∧ messages = []
  | .sent r run new => runs = [{ retryOf run r g.key with id := new }] ∧
      messages = [messageFor run.id g.key new]
  | .caught .. | .failed => messages = []
  | _ => runs = [] ∧ messages = []

/-- The run the request has loaded is the one it asks for. -/
def Phase.About (g : Phase) : Prop :=
  match g.stage with
  | .loaded r run | .missed r run | .inserted r run _ | .sent r run _ | .caught r run
  | .requerying r run => g.q.runId.toUuid? = some r ∧ run.id = r
  | _ => True

/-- The request has not met an `IntegrityError` in its `try`. -/
def Phase.Sure (g : Phase) : Prop :=
  match g.stage with
  | .caught .. | .requerying .. => False
  | _ => True

/-- An answer, if it is decided, names a committed retry. -/
def Phase.Names (g : Phase) (r : RunId) (key : Text) (runs : List RunRow) : Prop :=
  match g.stage with
  | .replying rep => ∃ row ∈ runs, names r key row = true ∧ ∃ n dedup, rep = .ok row.id r n dedup
  | _ => True

/-- **The invariant** for the run `r` and the key `key`. -/
structure Sound (r : RunId) (key : Text) (φ : Pid → Option Phase) (w : World) : Prop where
  unique : w.runs.Unique runClash
  source : ∃ run, w.runs.committed.find? (·.id = r) = some run ∧ run.status.isTerminal = true
  /-- the committed messages of the pair are those of its committed retries -/
  together : w.outbox.committed.filter (keyed r key) =
    (w.runs.committed.filter (names r key)).map fun row => messageFor r key row.id
  idle : ∀ p, φ p = none → w.runs.own p = [] ∧ w.outbox.own p = []
  holding : ∀ p g, φ p = some g → g.Holding (w.runs.own p) (w.outbox.own p)
  about : ∀ p g, φ p = some g → g.About
  sure : ∀ p g, φ p = some g → Asks r key g.q → g.Sure
  answer : ∀ p g, φ p = some g → Asks r key g.q → g.Names r key w.runs.committed

section step

variable {r : RunId} {key : Text} {φ φ' : Pid → Option Phase} {w w' : World} {p : Pid} {g : Phase}

theorem Phase.Names.mono {runs new : List RunRow} (h : g.Names r key runs) :
    g.Names r key (runs ++ new) := by
  unfold Phase.Names at h ⊢
  split
  · next rep hrep =>
    rw [hrep] at h
    obtain ⟨row, hrow, hrest⟩ := h
    exact ⟨row, List.mem_append_left _ hrow, hrest⟩
  · trivial

/-- **One process moves**: the others keep what they have, and what is committed on the way keeps
runs and messages together. -/
theorem Sound.moves (h : Sound r key φ w) {rows : List RunRow} {messages : List MessageRow}
    (hruns : w'.runs.committed = w.runs.committed ++ rows)
    (houtbox : w'.outbox.committed = w.outbox.committed ++ messages)
    (htogether : messages.filter (keyed r key) =
      (rows.filter (names r key)).map fun row => messageFor r key row.id)
    (hunique : w'.runs.Unique runClash)
    (hother : ∀ q, q ≠ p → φ' q = φ q ∧ w'.runs.own q = w.runs.own q ∧
      w'.outbox.own q = w.outbox.own q)
    (hidle : φ' p = none → w'.runs.own p = [] ∧ w'.outbox.own p = [])
    (hself : ∀ g', φ' p = some g' → g'.Holding (w'.runs.own p) (w'.outbox.own p) ∧ g'.About ∧
      (Asks r key g'.q → g'.Sure ∧ g'.Names r key w'.runs.committed)) :
    Sound r key φ' w' := by
  constructor
  · exact hunique
  · obtain ⟨run, hfind, hterm⟩ := h.source
    refine ⟨run, ?_, hterm⟩
    rw [hruns, List.find?_append, hfind]
    rfl
  · rw [houtbox, hruns, List.filter_append, List.filter_append, List.map_append, h.together,
      htogether]
  · intro q hq
    by_cases hp : q = p
    · subst hp
      exact hidle hq
    · obtain ⟨hφ, hrunsq, houtboxq⟩ := hother q hp
      rw [hφ] at hq
      rw [hrunsq, houtboxq]
      exact h.idle q hq
  · intro q g' hg'
    by_cases hp : q = p
    · subst hp
      exact (hself g' hg').1
    · obtain ⟨hφ, hrunsq, houtboxq⟩ := hother q hp
      rw [hφ] at hg'
      rw [hrunsq, houtboxq]
      exact h.holding q g' hg'
  · intro q g' hg'
    by_cases hp : q = p
    · subst hp
      exact (hself g' hg').2.1
    · rw [(hother q hp).1] at hg'
      exact h.about q g' hg'
  · intro q g' hg' hasks
    by_cases hp : q = p
    · subst hp
      exact ((hself g' hg').2.2 hasks).1
    · rw [(hother q hp).1] at hg'
      exact h.sure q g' hg' hasks
  · intro q g' hg' hasks
    by_cases hp : q = p
    · subst hp
      exact ((hself g' hg').2.2 hasks).2
    · rw [(hother q hp).1] at hg'
      rw [hruns]
      exact (h.answer q g' hg' hasks).mono

/-- A process that moves without touching the tables. -/
theorem Sound.thinks (h : Sound r key φ w) {g' : Phase}
    (hholding : g'.Holding (w.runs.own p) (w.outbox.own p)) (habout : g'.About)
    (hasks : Asks r key g'.q → g'.Sure ∧ g'.Names r key w.runs.committed) :
    Sound r key (Function.update φ p (some g')) w := by
  refine h.moves (p := p) (List.append_nil _).symm (List.append_nil _).symm rfl h.unique ?_ ?_ ?_
  · intro q hq
    exact ⟨Function.update_of_ne hq _ _, rfl, rfl⟩
  · intro hnone
    rw [Function.update_self] at hnone
    cases hnone
  · intro g₁ hg₁
    rw [Function.update_self] at hg₁
    obtain rfl := Option.some.inj hg₁
    exact ⟨hholding, habout, hasks⟩

/-- A process loses what it has written, and goes on or ends. -/
theorem Sound.aborts (h : Sound r key φ w) (hother : ∀ q, q ≠ p → φ' q = φ q)
    (hself : ∀ g', φ' p = some g' → g'.Holding [] [] ∧ g'.About ∧
      (Asks r key g'.q → g'.Sure ∧ g'.Names r key w.runs.committed)) :
    Sound r key φ' (w.abort p) := by
  have hruns : (w.abort p).runs.own p = [] := Store.own_rollback_self
  have houtbox : (w.abort p).outbox.own p = [] := Store.own_rollback_self
  refine h.moves (p := p) (List.append_nil _).symm (List.append_nil _).symm rfl
    (h.unique.rollback p) ?_ ?_ ?_
  · intro q hq
    exact ⟨hother q hq, Store.own_rollback_of_ne hq, Store.own_rollback_of_ne hq⟩
  · intro _
    exact ⟨hruns, houtbox⟩
  · intro g' hg'
    rw [hruns, houtbox]
    exact hself g' hg'

theorem Sound.leaves (h : Sound r key φ w) :
    Sound r key (Function.update φ p none) (w.abort p) := by
  refine h.aborts (fun q hq => Function.update_of_ne hq _ _) fun g' hg' => ?_
  rw [Function.update_self] at hg'
  cases hg'

theorem Sound.begins (h : Sound r key φ w) (hp : φ p = none) (q : Req) :
    Sound r key (Function.update φ p (some ⟨q, .starting⟩)) w :=
  h.thinks (h.idle p hp) trivial fun _ => ⟨trivial, trivial⟩

/-- What a request about the pair has in the tables once it has written its run. -/
theorem Sound.names_own (h : Sound r key φ w) (hg : φ p = some g) (hasks : Asks r key g.q)
    {r' : RunId} {run : RunRow} {new : RunId}
    (hstage : g.stage = .inserted r' run new ∨ g.stage = .sent r' run new) :
    ∃ row ∈ w.runs.own p, names r key row = true := by
  have habout := h.about p g hg
  have hholding := h.holding p g hg
  unfold Phase.About at habout
  unfold Phase.Holding at hholding
  have hrow : ∀ {r' : RunId}, g.q.runId.toUuid? = some r' →
      names r key { retryOf run r' g.key with id := new } = true := by
    intro r' hr'
    rw [hasks.1] at hr'
    obtain rfl := Option.some.inj hr'
    exact names_retryOf.2 ⟨rfl, hasks.2⟩
  rcases hstage with hstage | hstage
  · rw [hstage] at habout hholding
    rw [hholding.1]
    exact ⟨_, List.mem_singleton_self _, hrow habout.1⟩
  · rw [hstage] at habout hholding
    rw [hholding.1]
    exact ⟨_, List.mem_singleton_self _, hrow habout.1⟩

/-- **The message is free** for a request that has written its run. -/
theorem Sound.message_free (h : Sound r key φ w) (hg : φ p = some g) (hasks : Asks r key g.q)
    {r' : RunId} {run : RunRow} {new : RunId} (hstage : g.stage = .inserted r' run new) :
    w.outbox.blocked messageClash (messageFor r key new) = false := by
  obtain ⟨row, hrow, hnames⟩ := h.names_own hg hasks (.inl hstage)
  rw [Store.blocked_eq_false]
  intro m hm
  by_contra hclash
  rw [Bool.not_eq_false] at hclash
  have hkeyed : keyed r key m = true := by
    unfold messageClash at hclash
    unfold keyed
    rw [← of_decide_eq_true hclash]
    exact decide_eq_true rfl
  rcases List.mem_append.1 hm with hm | hm
  · -- its retry would be committed with it
    have hmem : m ∈ w.outbox.committed.filter (keyed r key) := List.mem_filter.2 ⟨hm, hkeyed⟩
    rw [h.together, List.mem_map] at hmem
    obtain ⟨row', hrow', -⟩ := hmem
    obtain ⟨hcommitted, hnames'⟩ := List.mem_filter.1 hrow'
    have hfree := h.unique.committed_own hcommitted hrow
    rw [runClash_of_names hnames' hnames] at hfree
    cases hfree
  · -- the request that has written it has a retry of the pair of its own
    obtain ⟨⟨q, m'⟩, hpending, rfl⟩ := List.mem_map.1 hm
    have hown := Store.mem_own.2 hpending
    cases hφ : φ q with
    | none =>
      rw [(h.idle q hφ).2] at hown
      cases hown
    | some g' =>
      have hholding := h.holding q g' hφ
      have habout := h.about q g' hφ
      cases hstage' : g'.stage with
      | sent r'' run' new' =>
        simp only [Phase.Holding, hstage'] at hholding
        simp only [Phase.About, hstage'] at habout
        rw [hholding.2, List.mem_singleton] at hown
        rw [hown] at hkeyed
        obtain ⟨hr, hkey⟩ := keyed_messageFor.1 hkeyed
        have hasks' : Asks r key g'.q := by
          refine ⟨?_, hkey⟩
          rw [habout.1, ← hr, habout.2]
        obtain ⟨row', hrow', hnames'⟩ := h.names_own hφ hasks' (.inr hstage')
        have hne : q ≠ p := by
          rintro rfl
          rw [hφ] at hg
          obtain rfl := Option.some.inj hg
          rw [hstage'] at hstage
          cases hstage
        have hfree := h.unique.own runClash_comm hrow' hrow hne
        rw [runClash_of_names hnames' hnames] at hfree
        cases hfree
      | inserted _ _ _ =>
        simp only [Phase.Holding, hstage'] at hholding
        rw [hholding.2] at hown
        cases hown
      | caught _ _ =>
        simp only [Phase.Holding, hstage'] at hholding
        rw [hholding] at hown
        cases hown
      | failed =>
        simp only [Phase.Holding, hstage'] at hholding
        rw [hholding] at hown
        cases hown
      | _ =>
        simp only [Phase.Holding, hstage'] at hholding
        rw [hholding.2] at hown
        cases hown

/-- A process moves, and what it writes stays uncommitted. -/
theorem Sound.writes (h : Sound r key φ w) {g' : Phase}
    (hruns : w'.runs.committed = w.runs.committed)
    (houtbox : w'.outbox.committed = w.outbox.committed) (hunique : w'.runs.Unique runClash)
    (hother : ∀ q, q ≠ p → w'.runs.own q = w.runs.own q ∧ w'.outbox.own q = w.outbox.own q)
    (hholding : g'.Holding (w'.runs.own p) (w'.outbox.own p)) (habout : g'.About)
    (hasks : Asks r key g'.q → g'.Sure ∧ g'.Names r key w.runs.committed) :
    Sound r key (Function.update φ p (some g')) w' := by
  refine h.moves (p := p) (hruns.trans (List.append_nil _).symm)
    (houtbox.trans (List.append_nil _).symm) rfl hunique ?_ ?_ ?_
  · intro q hq
    exact ⟨Function.update_of_ne hq _ _, hother q hq⟩
  · intro hnone
    rw [Function.update_self] at hnone
    cases hnone
  · intro g₁ hg₁
    rw [Function.update_self] at hg₁
    obtain rfl := Option.some.inj hg₁
    rw [hruns]
    exact ⟨hholding, habout, hasks⟩

theorem Sound.getRun (h : Sound r key φ w) (hg : φ p = some g) {r' : RunId}
    (hstage : g.stage = .starting) (hr' : g.q.runId.toUuid? = some r') :
    Sound r key (Function.update φ p (some (g.next (.getRun r')
      (.ok ((w.runs.visible p).find? (·.id = r')))))) w := by
  have hholding := h.holding p g hg
  simp only [Phase.Holding, hstage] at hholding
  have hloaded : ∀ run, (w.runs.visible p).find? (·.id = r') = some run →
      (g.at' (.loaded r' run)).About := fun run hfind =>
    ⟨hr', of_decide_eq_true (List.find?_some hfind :)⟩
  by_cases hasks : Asks r key g.q
  · -- the run the pair is about is found, and it is over
    obtain rfl : r' = r := Option.some.inj (hr'.symm.trans hasks.1)
    obtain ⟨run, hfind, hterm⟩ := h.source
    have hfound : (w.runs.visible p).find? (·.id = r') = some run := by
      rw [Store.visible_of_own_nil hholding.1]
      exact hfind
    have habout := hloaded run hfound
    rw [hfound]
    simp only [Phase.next, hterm, if_true]
    exact h.thinks hholding habout fun _ => ⟨trivial, trivial⟩
  · cases hfound : (w.runs.visible p).find? (·.id = r') with
    | none => exact h.thinks hholding trivial fun ha => absurd ha hasks
    | some run =>
      have habout := hloaded run hfound
      simp only [Phase.next]
      split
      · exact h.thinks hholding habout fun ha => absurd ha hasks
      · exact h.thinks hholding trivial fun ha => absurd ha hasks

theorem Sound.selectRetry (h : Sound r key φ w) (hg : φ p = some g) {r' : RunId} {run : RunRow}
    (hstage : g.stage = .loaded r' run ∨ g.stage = .requerying r' run) :
    Sound r key (Function.update φ p (some (g.next (.selectRetry r' g.key)
      (w.perform p (.selectRetry r' g.key)).2))) w := by
  have hholding := h.holding p g hg
  have habout := h.about p g hg
  simp only [World.perform]
  rcases hstage with hstage | hstage
  · simp only [Phase.Holding, hstage] at hholding
    simp only [Phase.About, hstage] at habout
    by_cases hstorable : storable g.key = true
    · rw [if_pos hstorable]
      cases hfound : (w.runs.visible p).find? (names r' g.key) with
      | none =>
        simp only [Phase.next, hstage]
        exact h.thinks hholding habout fun _ => ⟨trivial, trivial⟩
      | some er =>
        simp only [Phase.next, hstage]
        refine h.thinks hholding trivial fun ha => ⟨trivial, ?_⟩
        obtain rfl : r' = r := Option.some.inj (habout.1.symm.trans ha.1)
        have hkey : g.key = key := ha.2
        rw [Store.visible_of_own_nil hholding.1, hkey] at hfound
        refine ⟨er, List.mem_of_find?_eq_some hfound, List.find?_some hfound, er.retryCount, true,
          ?_⟩
        rw [habout.2]
    · rw [if_neg hstorable]
      exact h.thinks hholding.2 trivial fun _ => ⟨trivial, trivial⟩
  · have hno : ¬Asks r key g.q := by
      intro ha
      have hsure := h.sure p g hg ha
      simp only [Phase.Sure, hstage] at hsure
    simp only [Phase.Holding, hstage] at hholding
    by_cases hstorable : storable g.key = true
    · rw [if_pos hstorable]
      cases hfound : (w.runs.visible p).find? (names r' g.key) with
      | none =>
        simp only [Phase.next, hstage]
        exact h.thinks hholding trivial fun ha => absurd ha hno
      | some er =>
        simp only [Phase.next, hstage]
        exact h.thinks hholding trivial fun ha => absurd ha hno
    · rw [if_neg hstorable]
      exact h.thinks hholding.2 trivial fun ha => absurd ha hno

theorem Sound.insertRun (h : Sound r key φ w) (hg : φ p = some g) {r' : RunId} {run : RunRow}
    (hstage : g.stage = .missed r' run) :
    Sound r key (Function.update φ p (some (g.next (.insertRun (retryOf run r' g.key))
      (w.perform p (.insertRun (retryOf run r' g.key))).2)))
      (w.perform p (.insertRun (retryOf run r' g.key))).1 := by
  have hholding := h.holding p g hg
  have habout := h.about p g hg
  simp only [Phase.Holding, hstage] at hholding
  simp only [Phase.About, hstage] at habout
  simp only [World.perform]
  rcases insertRow_cases runClash w.runs p { retryOf run r' g.key with id := w.nextId } with
    ⟨hfree, hins⟩ | ⟨-, x, hins⟩
  · rw [hins]
    simp only [Phase.next, hstage]
    refine h.writes rfl rfl (h.unique.insert runClash_comm hfree p) ?_ ?_ habout
      fun _ => ⟨trivial, trivial⟩
    · intro q hq
      exact ⟨Store.own_insert_of_ne hq, rfl⟩
    · refine ⟨?_, hholding.2⟩
      show (w.runs.insert p _).own p = _
      rw [Store.own_insert_self, hholding.1]
      rfl
  · rw [hins]
    exact h.thinks hholding.2 trivial fun _ => ⟨trivial, trivial⟩

theorem Sound.insertMessage (hfit : Fits r key) (h : Sound r key φ w) (hg : φ p = some g)
    {r' : RunId} {run : RunRow} {new : RunId} (hstage : g.stage = .inserted r' run new) :
    Sound r key (Function.update φ p (some (g.next (.insertMessage (messageFor run.id g.key new))
      (w.perform p (.insertMessage (messageFor run.id g.key new))).2)))
      (w.perform p (.insertMessage (messageFor run.id g.key new))).1 := by
  have hholding := h.holding p g hg
  have habout := h.about p g hg
  have hfree : Asks r key g.q → w.outbox.blocked messageClash (messageFor run.id g.key new) = false ∧
      keyLength (messageFor run.id g.key new).idempotencyKey ≤ 128 := by
    intro ha
    simp only [Phase.About, hstage] at habout
    have hr : run.id = r := by
      rw [habout.2]
      exact Option.some.inj (habout.1.symm.trans ha.1)
    have hkey : g.key = key := ha.2
    rw [hr, hkey]
    exact ⟨h.message_free hg ha hstage, hfit.length⟩
  simp only [Phase.Holding, hstage] at hholding
  simp only [Phase.About, hstage] at habout
  simp only [World.perform]
  by_cases hlong : 128 < keyLength (messageFor run.id g.key new).idempotencyKey
  · rw [if_pos hlong]
    have hno : ¬Asks r key g.q := fun ha => absurd hlong (not_lt.2 (hfree ha).2)
    simp only [Phase.next, hstage]
    exact h.thinks hholding.2 trivial fun ha => absurd ha hno
  · rw [if_neg hlong]
    rcases insertRow_cases messageClash w.outbox p (messageFor run.id g.key new) with
      ⟨-, hins⟩ | ⟨hblocked, x, hins⟩
    · rw [hins]
      simp only [Phase.next, hstage]
      refine h.writes rfl rfl h.unique ?_ ?_ habout fun _ => ⟨trivial, trivial⟩
      · intro q hq
        exact ⟨rfl, Store.own_insert_of_ne hq⟩
      · refine ⟨hholding.1, ?_⟩
        show (w.outbox.insert p _).own p = _
        rw [Store.own_insert_self, hholding.2]
        rfl
    · have hno : ¬Asks r key g.q := by
        intro ha
        rw [(hfree ha).1] at hblocked
        cases hblocked
      rw [hins]
      simp only [Phase.next, hstage]
      split
      · exact h.thinks hholding.2 habout fun ha => absurd ha hno
      · exact h.thinks hholding.2 trivial fun ha => absurd ha hno

theorem Sound.commit (h : Sound r key φ w) (hg : φ p = some g) {r' : RunId} {run : RunRow}
    {new : RunId} (hstage : g.stage = .sent r' run new) :
    Sound r key (Function.update φ p (some (g.next .commit (.ok ()))))
      (w.perform p .commit).1 := by
  have hholding := h.holding p g hg
  have habout := h.about p g hg
  simp only [Phase.Holding, hstage] at hholding
  simp only [Phase.About, hstage] at habout
  have hruns : (w.runs.commit p).committed =
      w.runs.committed ++ [{ retryOf run r' g.key with id := new }] := by
    rw [Store.committed_commit, Store.visible, hholding.1]
  have houtbox : (w.outbox.commit p).committed =
      w.outbox.committed ++ [messageFor run.id g.key new] := by
    rw [Store.committed_commit, Store.visible, hholding.2]
  simp only [Phase.next, hstage]
  refine h.moves (p := p) hruns houtbox ?_ (h.unique.commit runClash_comm p) ?_ ?_ ?_
  · by_cases hpair : r' = r ∧ g.key = key
    · have hrow : names r key { retryOf run r' g.key with id := new } = true :=
        names_retryOf.2 hpair
      have hmessage : keyed r key (messageFor run.id g.key new) = true :=
        keyed_messageFor.2 ⟨habout.2.trans hpair.1, hpair.2⟩
      rw [List.filter_cons_of_pos hmessage, List.filter_cons_of_pos hrow, habout.2, hpair.1,
        hpair.2]
      rfl
    · have hrow : ¬names r key { retryOf run r' g.key with id := new } = true :=
        fun hnames => hpair (names_retryOf.1 hnames)
      have hmessage : ¬keyed r key (messageFor run.id g.key new) = true := by
        intro hkeyed
        obtain ⟨hr, hkey⟩ := keyed_messageFor.1 hkeyed
        exact hpair ⟨habout.2.symm.trans hr, hkey⟩
      rw [List.filter_cons_of_neg hmessage, List.filter_cons_of_neg hrow]
      rfl
  · intro q hq
    exact ⟨Function.update_of_ne hq _ _, Store.own_commit_of_ne hq, Store.own_commit_of_ne hq⟩
  · intro hnone
    rw [Function.update_self] at hnone
    cases hnone
  · intro g' hg'
    rw [Function.update_self] at hg'
    obtain rfl := Option.some.inj hg'
    refine ⟨⟨Store.own_commit_self, Store.own_commit_self⟩, trivial, fun ha => ⟨trivial, ?_⟩⟩
    have hpair : r' = r ∧ g.key = key := ⟨Option.some.inj (habout.1.symm.trans ha.1), ha.2⟩
    show Phase.Names _ r key (w.runs.commit p).committed
    rw [hruns]
    refine ⟨_, List.mem_append_right _ (List.mem_singleton_self _), names_retryOf.2 hpair,
      run.retryCount + 1, false, ?_⟩
    rw [habout.2, hpair.1]

/-- **An operation keeps the invariant.** -/
theorem Sound.performs (hfit : Fits r key) (h : Sound r key φ w) (hg : φ p = some g) {o : Op}
    (hallowed : g.allows o) :
    Sound r key (Function.update φ p (some (g.next o (w.perform p o).2))) (w.perform p o).1 := by
  cases o with
  | getRun r' => exact h.getRun hg hallowed.1 hallowed.2
  | selectRetry r' key' =>
    obtain ⟨rfl, run, hstage⟩ := hallowed
    have hworld : (w.perform p (.selectRetry r' g.key)).1 = w := by
      simp only [World.perform]
      split <;> rfl
    rw [hworld]
    exact h.selectRetry hg hstage
  | insertRun row =>
    obtain ⟨r', run, hstage, rfl⟩ := hallowed
    exact h.insertRun hg hstage
  | insertMessage m =>
    obtain ⟨r', run, new, hstage, rfl⟩ := hallowed
    exact h.insertMessage hfit hg hstage
  | commit =>
    obtain ⟨r', run, new, hstage⟩ := hallowed
    exact h.commit hg hstage
  | rollback =>
    obtain ⟨r', run, hstage⟩ := hallowed
    have habout := h.about p g hg
    simp only [Phase.About, hstage] at habout
    refine h.aborts (fun q hq => Function.update_of_ne hq _ _) fun g' hg' => ?_
    rw [Function.update_self] at hg'
    obtain rfl := Option.some.inj hg'
    simp only [World.perform, Phase.next, hstage]
    refine ⟨⟨rfl, rfl⟩, habout, fun ha => ?_⟩
    have hsure := h.sure p g hg ha
    simp only [Phase.Sure, hstage] at hsure
  | respond q rep =>
    exact h.thinks (h.holding p g hg) (h.about p g hg)
      fun ha => ⟨h.sure p g hg ha, h.answer p g hg ha⟩

/-! ## Races -/

/-- The `INSERT` of a run meets a row with its key. -/
def Blocked (w : World) : Op → Prop
  | .insertRun row => w.runs.blocked runClash row = true
  | _ => False

theorem Phase.next_q {o : Op} {res : Except LibError o.Ans} : (g.next o res).q = g.q := by
  unfold Phase.next
  split
  · split
    · rfl
    · split <;> rfl
  · split <;> rfl
  · split <;> rfl
  · split <;> rfl
  · split <;> rfl
  · split <;> rfl
  · rfl
  · rfl

/-- What is left to a failed request is its response. -/
theorem Phase.responds_of_failed (hstage : g.stage = .failed) {o : Op} (hallowed : g.allows o) :
    ∃ q rep, o = .respond q rep := by
  cases o with
  | respond q rep => exact ⟨q, rep, rfl⟩
  | getRun r' =>
    have hbad := hallowed.1
    rw [hstage] at hbad
    cases hbad
  | selectRetry r' key' =>
    obtain ⟨-, run, hbad | hbad⟩ := hallowed
    · rw [hstage] at hbad
      cases hbad
    · rw [hstage] at hbad
      cases hbad
  | insertRun row =>
    obtain ⟨r', run, hbad, -⟩ := hallowed
    rw [hstage] at hbad
    cases hbad
  | insertMessage m =>
    obtain ⟨r', run, new, hbad, -⟩ := hallowed
    rw [hstage] at hbad
    cases hbad
  | commit =>
    obtain ⟨r', run, new, hbad⟩ := hallowed
    rw [hstage] at hbad
    cases hbad
  | rollback =>
    obtain ⟨r', run, hbad⟩ := hallowed
    rw [hstage] at hbad
    cases hbad

/-- **A request fails** on an `INSERT` that is blocked, and on nothing else. -/
theorem Sound.failed_iff (hfit : Fits r key) (h : Sound r key φ w) (hg : φ p = some g)
    (hasks : Asks r key g.q) {o : Op} (hallowed : g.allows o) (hstage : g.stage ≠ .failed) :
    (g.next o (w.perform p o).2).stage = .failed ↔ Blocked w o := by
  have hno : ∀ {s : Stage}, s ≠ .failed → (s = .failed ↔ False) := fun hs => iff_of_false hs id
  cases o with
  | getRun r' =>
    refine hno ?_
    simp only [World.perform]
    cases hfound : (w.runs.visible p).find? (·.id = r') with
    | none => simp [Phase.next, Phase.at']
    | some run =>
      simp only [Phase.next]
      split <;> simp [Phase.at']
  | selectRetry r' key' =>
    obtain ⟨rfl, run, hloaded⟩ := hallowed
    have hstorable : storable g.key = true := by
      have hkey : g.key = key := hasks.2
      rw [hkey]
      exact hfit.storable
    refine hno ?_
    simp only [World.perform, if_pos hstorable]
    rcases hloaded with hloaded | hloaded
    · cases (w.runs.visible p).find? (names r' g.key) <;> simp [Phase.next, hloaded, Phase.at']
    · cases (w.runs.visible p).find? (names r' g.key) <;> simp [Phase.next, hloaded, Phase.at']
  | insertRun row =>
    obtain ⟨r', run, hmissed, rfl⟩ := hallowed
    show _ ↔ w.runs.blocked runClash (retryOf run r' g.key) = true
    have hsame : w.runs.blocked runClash { retryOf run r' g.key with id := w.nextId } =
        w.runs.blocked runClash (retryOf run r' g.key) := rfl
    simp only [World.perform]
    rcases insertRow_cases runClash w.runs p { retryOf run r' g.key with id := w.nextId } with
      ⟨hfree, hins⟩ | ⟨hblocked, x, hins⟩
    · rw [hsame] at hfree
      rw [hins, hfree]
      simp [Phase.next, hmissed, Phase.at']
    · rw [hsame] at hblocked
      rw [hins, hblocked]
      simp [Phase.next, Phase.at']
  | insertMessage m =>
    obtain ⟨r', run, new, hinserted, rfl⟩ := hallowed
    have habout := h.about p g hg
    simp only [Phase.About, hinserted] at habout
    have hr : run.id = r := by
      rw [habout.2]
      exact Option.some.inj (habout.1.symm.trans hasks.1)
    have hkey : g.key = key := hasks.2
    have hlong : ¬128 < keyLength (messageFor r key new).idempotencyKey :=
      not_lt.2 hfit.length
    refine hno ?_
    simp only [World.perform, hr, hkey, if_neg hlong]
    rcases insertRow_cases messageClash w.outbox p (messageFor r key new) with
      ⟨-, hins⟩ | ⟨hblocked, x, hins⟩
    · rw [hins]
      simp [Phase.next, hinserted, Phase.at']
    · rw [h.message_free hg hasks hinserted] at hblocked
      cases hblocked
  | commit =>
    obtain ⟨r', run, new, hsent⟩ := hallowed
    refine hno ?_
    simp [World.perform, Phase.next, hsent, Phase.at']
  | rollback =>
    obtain ⟨r', run, hcaught⟩ := hallowed
    refine hno ?_
    simp [World.perform, Phase.next, hcaught, Phase.at']
  | respond q rep => exact hno hstage

/-- What is committed stays. -/
theorem perform_grows (w : World) (p : Pid) (o : Op) :
    ∃ rows, (w.perform p o).1.runs.committed = w.runs.committed ++ rows := by
  have hsame : ∃ rows, w.runs.committed = w.runs.committed ++ rows := ⟨[], (List.append_nil _).symm⟩
  cases o with
  | getRun r' => exact hsame
  | selectRetry r' key' =>
    simp only [World.perform]
    split <;> exact hsame
  | insertRun row =>
    simp only [World.perform]
    rcases insertRow_cases runClash w.runs p { row with id := w.nextId } with
      ⟨-, hins⟩ | ⟨-, x, hins⟩
    · rw [hins]
      exact hsame
    · rw [hins]
      exact hsame
  | insertMessage m =>
    simp only [World.perform]
    split
    · exact hsame
    · rcases insertRow_cases messageClash w.outbox p m with ⟨-, hins⟩ | ⟨-, x, hins⟩
      · rw [hins]
        exact hsame
      · rw [hins]
        exact hsame
  | commit => exact ⟨w.runs.own p, rfl⟩
  | rollback => exact hsame
  | respond q rep => exact hsame

end step

/-! ## Runs of the server -/

abbrev History := List (Machine.Event retries)

abbrev phases (h : History) : Pid → Option Phase := Machine.phase Course (fun q => ⟨q, .starting⟩) h

/-- The process has met a row with its key when it inserted its run: another request for the same
run and key has inserted between its look and its own `INSERT`. -/
def Raced (h : History) (p : Pid) : Prop :=
  ∃ e ∈ Machine.course h p, ∃ o res stays, e.act = .did p o res stays ∧ Blocked e.before o

/-- A database in which the run `r` is over and has no retry under `key` yet. -/
structure Fresh (r : RunId) (key : Text) (w : World) : Prop where
  runs : w.runs.pending = []
  outbox : w.outbox.pending = []
  unique : w.runs.Unique runClash
  source : ∃ run, w.runs.committed.find? (·.id = r) = some run ∧ run.status.isTerminal = true
  unused : w.runs.committed.filter (names r key) = []
  unsent : w.outbox.committed.filter (keyed r key) = []

/-- The retries of `r` under `key`. -/
def retriesOf (r : RunId) (key : Text) (w : World) : List RunRow :=
  w.runs.committed.filter (names r key)

/-- The messages for retries of `r` under `key`. -/
def messagesOf (r : RunId) (key : Text) (w : World) : List MessageRow :=
  w.outbox.committed.filter (keyed r key)

/-- A request of the pair that did not race is answered with a retry in `w`, one that did with a
server error. -/
def Answered (r : RunId) (key : Text) (w : World) (h : History) (e : Machine.Event retries) :
    Prop :=
  ∀ p q rep res stays, e.act = .did p (.respond q rep) res stays → Asks r key q →
    (¬Raced h p → ∃ row ∈ retriesOf r key w, ∃ n dedup, rep = .ok row.id r n dedup) ∧
      (Raced h p → rep = .internalError)

structure Kept (r : RunId) (key : Text) (h : History) (w : World) : Prop where
  sound : Sound r key (phases h) w
  raced : ∀ p g, phases h p = some g → Asks r key g.q → (g.stage = .failed ↔ Raced h p)
  answered : Historically (Answered r key w) h

section run

variable {r : RunId} {key : Text} {h : History} {w : World} {e : Machine.Event retries}

theorem Kept.initial (hw : Fresh r key w) : Kept r key [] w := by
  have hruns : ∀ p, w.runs.own p = [] := by
    intro p
    unfold Store.own
    rw [hw.runs]
    rfl
  have houtbox : ∀ p, w.outbox.own p = [] := by
    intro p
    unfold Store.own
    rw [hw.outbox]
    rfl
  refine ⟨⟨hw.unique, hw.source, ?_, fun p _ => ⟨hruns p, houtbox p⟩, ?_, ?_, ?_, ?_⟩, ?_, trivial⟩
  · rw [hw.unsent, hw.unused]
    rfl
  · intro p g hg
    cases hg
  · intro p g hg
    cases hg
  · intro p g hg
    cases hg
  · intro p g hg
    cases hg
  · intro p g hg
    cases hg

theorem Answered.mono {w' : World} (hgrows : ∃ rows, w'.runs.committed = w.runs.committed ++ rows)
    (ha : Answered r key w h e) : Answered r key w' h e := by
  intro p q rep res stays hact hasks
  obtain ⟨hok, herr⟩ := ha p q rep res stays hact hasks
  refine ⟨fun hraced => ?_, herr⟩
  obtain ⟨row, hrow, hrest⟩ := hok hraced
  obtain ⟨rows, hrows⟩ := hgrows
  refine ⟨row, ?_, hrest⟩
  unfold retriesOf at hrow ⊢
  rw [hrows, List.filter_append]
  exact List.mem_append_left _ hrow

theorem raced_of_other {p : Pid} (he : e.act.pid? ≠ some p) : Raced (e :: h) p ↔ Raced h p := by
  unfold Raced
  rw [Machine.course_of_other he]

theorem not_raced_of_started {p : Pid} {q : Req} {stays : Bool}
    (he : e.act = .started p q stays) : ¬Raced (e :: h) p := by
  unfold Raced
  rw [Machine.course_started he]
  rintro ⟨e', he', -⟩
  cases he'

theorem raced_of_did {p : Pid} {o : Op} {res : Except LibError o.Ans} {stays : Bool}
    (he : e.act = .did p o res stays) : Raced (e :: h) p ↔ Blocked e.before o ∨ Raced h p := by
  unfold Raced
  rw [Machine.course_did he]
  constructor
  · rintro ⟨e', he', o', res', stays', hact, hblocked⟩
    rcases List.mem_cons.1 he' with rfl | he'
    · rw [he] at hact
      cases hact
      exact .inl hblocked
    · exact .inr ⟨e', he', o', res', stays', hact, hblocked⟩
  · rintro (hblocked | ⟨e', he', hrest⟩)
    · exact ⟨e, List.mem_cons_self, o, res, stays, he, hblocked⟩
    · exact ⟨e', List.mem_cons_of_mem _ he', hrest⟩

/-- What a response says, given the stage of the request. -/
theorem Kept.responds (hk : Kept r key h w) {p : Pid} {g : Phase} {q : Req} {rep : Reply}
    (hg : phases h p = some g) (hallowed : g.allows (.respond q rep)) (hasks : Asks r key q) :
    (¬Raced h p → ∃ row ∈ retriesOf r key w, ∃ n dedup, rep = .ok row.id r n dedup) ∧
      (Raced h p → rep = .internalError) := by
  obtain ⟨rfl, hstage⟩ := hallowed
  have hfailed := hk.raced p g hg hasks
  rcases hstage with hstage | ⟨hstage, hrep⟩ | ⟨-, hnone⟩
  · rw [hstage] at hfailed
    have hnot : ¬Raced h p := fun hraced => by cases hfailed.2 hraced
    have hnames := hk.sound.answer p g hg hasks
    simp only [Phase.Names, hstage] at hnames
    obtain ⟨row, hrow, hname, hrest⟩ := hnames
    exact ⟨fun _ => ⟨row, List.mem_filter.2 ⟨hrow, hname⟩, hrest⟩, fun hraced => absurd hraced hnot⟩
  · exact ⟨fun hnot => absurd (hfailed.1 hstage) hnot, fun _ => hrep⟩
  · rw [hasks.1] at hnone
    cases hnone

theorem Kept.sound_step (hfit : Fits r key) (hk : Kept r key h w)
    (hl : Machine.Legal Course (fun q => ⟨q, .starting⟩) h w e) :
    Sound r key (phases (e :: h)) e.after := by
  cases hl with
  | @started p q stays idle =>
    have hphase : phases (⟨w, .started p q stays, retries.settle w p stays⟩ :: h) =
        Function.update (phases h) p (if stays then some ⟨q, .starting⟩ else none) :=
      Machine.phase_started
    rw [hphase]
    cases stays with
    | true => exact hk.sound.begins idle q
    | false => exact hk.sound.leaves
  | @did p o g ch stays running allowed =>
    have hphase : phases (⟨w, .did p o (w.perform p o).2 stays,
        retries.settle (w.perform p o).1 p stays⟩ :: h) = Function.update (phases h) p
          (if stays then some (g.next o (w.perform p o).2) else none) :=
      Machine.phase_did running
    have hperforms := hk.sound.performs hfit running allowed
    refine hphase ▸ ?_
    cases stays with
    | true => exact hperforms
    | false =>
      have hleaves := hperforms.leaves (p := p)
      rw [Function.update_idem] at hleaves
      exact hleaves
  | @crashed p g running =>
    have hphase : phases (⟨w, .crashed p, retries.leave w p⟩ :: h) =
        Function.update (phases h) p none := Machine.phase_crashed
    rw [hphase]
    exact hk.sound.leaves
  | ticked t => cases t

/-- **A request fails exactly if it raced.** -/
theorem Kept.raced_step (hfit : Fits r key) (hk : Kept r key h w)
    (hl : Machine.Legal Course (fun q => ⟨q, .starting⟩) h w e) {p : Pid} {g : Phase}
    (hg : phases (e :: h) p = some g) (hasks : Asks r key g.q) :
    g.stage = .failed ↔ Raced (e :: h) p := by
  cases hl.moved hg with
  | kept running other => exact (hk.raced p g running hasks).trans (raced_of_other other).symm
  | started q act phase =>
    refine iff_of_false (fun hstage => ?_) (not_raced_of_started act)
    rw [phase] at hstage
    cases hstage
  | @did o res g₀ act running allowed phase =>
    have hasks' : Asks r key g₀.q := by
      have hq : g.q = g₀.q := by
        rw [phase]
        exact Phase.next_q
      rwa [hq] at hasks
    rw [raced_of_did act, phase]
    cases hl with
    | did ch stays running' allowed' =>
      cases act
      by_cases hstage : g₀.stage = .failed
      · -- what is left to a failed request is its response
        obtain ⟨q, rep, rfl⟩ := Phase.responds_of_failed hstage allowed
        have hraced := (hk.raced p g₀ running hasks').1 hstage
        exact iff_of_true hstage (.inr hraced)
      · have hnot : ¬Raced h p := fun hraced => hstage ((hk.raced p g₀ running hasks').2 hraced)
        have hiff := hk.sound.failed_iff hfit running hasks' allowed hstage
        exact hiff.trans ⟨.inl, fun hor => hor.resolve_right hnot⟩
    | started q stays idle => cases act
    | crashed running' => cases act
    | ticked t => cases act

/-- The committed runs are never fewer. -/
theorem grows_step (hl : Machine.Legal Course (fun q => ⟨q, .starting⟩) h w e) :
    ∃ rows, e.after.runs.committed = w.runs.committed ++ rows := by
  cases hl with
  | started q stays idle => cases stays <;> exact ⟨[], (List.append_nil _).symm⟩
  | @did p o g ch stays running allowed =>
    obtain ⟨rows, hrows⟩ := perform_grows w p o
    cases stays <;> exact ⟨rows, hrows⟩
  | crashed running => exact ⟨[], (List.append_nil _).symm⟩
  | ticked t => cases t

/-- **What a request is answered.** -/
theorem Kept.answered_step (hk : Kept r key h w)
    (hl : Machine.Legal Course (fun q => ⟨q, .starting⟩) h w e) : Answered r key e.after h e := by
  intro p q rep res stays hact hasks
  obtain ⟨rows, hrows⟩ := grows_step hl
  cases hl with
  | did ch stays' running allowed =>
    cases hact
    obtain ⟨hok, herr⟩ := hk.responds running allowed hasks
    refine ⟨fun hnot => ?_, herr⟩
    obtain ⟨row, hrow, hrest⟩ := hok hnot
    refine ⟨row, ?_, hrest⟩
    unfold retriesOf at hrow ⊢
    rw [hrows, List.filter_append]
    exact List.mem_append_left _ hrow
  | started q' stays' idle => cases hact
  | crashed running => cases hact
  | ticked t => cases hact

theorem Kept.step (hfit : Fits r key) (hk : Kept r key h w)
    (hl : Machine.Legal Course (fun q => ⟨q, .starting⟩) h w e) : Kept r key (e :: h) e.after :=
  ⟨hk.sound_step hfit hl, fun _ _ hg hasks => hk.raced_step hfit hl hg hasks,
    hk.answered_step hl, hk.answered.mono fun _ _ ha => ha.mono (grows_step hl)⟩

/-- **Retrying is idempotent, but for a lost race.**  However many requests for one terminal run and
one key run together, at most one retry is created and one message with it, and a request is answered
with that retry exactly if no other request has inserted between its look and its own `INSERT`; one
that has lost this race is answered with a server error. -/
theorem retry_idempotent_iff (hfit : Fits r key) {c : Machine.Config retries}
    (hc : Machine.Reaches retries (Fresh r key) Machine.anyEvent c) :
    (retriesOf r key c.world).length ≤ 1 ∧
    messagesOf r key c.world =
      (retriesOf r key c.world).map (fun row => messageFor r key row.id) ∧
    Historically (fun h e => ∀ p q rep res stays, e.act = .did p (.respond q rep) res stays →
      Asks r key q →
        ((∃ row n dedup, retriesOf r key c.world = [row] ∧ rep = .ok row.id r n dedup) ↔
          ¬Raced h p) ∧ (Raced h p → rep = .internalError)) c.hist := by
  have hkept := hc.induct program_keeps (P := Kept r key) (fun w hw => .initial hw)
    fun h w e hk hl _ => hk.step hfit hl
  have hone : (retriesOf r key c.world).length ≤ 1 := by
    have hpairwise : (retriesOf r key c.world).Pairwise fun x y => runClash x y = false :=
      (List.pairwise_append.1 hkept.sound.unique).1.sublist List.filter_sublist
    have hnames : ∀ x ∈ retriesOf r key c.world, names r key x = true :=
      fun x hx => (List.mem_filter.1 hx).2
    match hlist : retriesOf r key c.world with
    | [] => exact Nat.zero_le _
    | [_] => exact le_rfl
    | x :: y :: rest =>
      rw [hlist] at hpairwise hnames
      have hfree := (List.pairwise_cons.1 hpairwise).1 y List.mem_cons_self
      have hclash := runClash_of_names (hnames x List.mem_cons_self)
        (hnames y (List.mem_cons_of_mem _ List.mem_cons_self))
      rw [hclash] at hfree
      cases hfree
  refine ⟨hone, hkept.sound.together, hkept.answered.mono fun h e ha => ?_⟩
  intro p q rep res stays hact hasks
  obtain ⟨hok, herr⟩ := ha p q rep res stays hact hasks
  refine ⟨⟨?_, fun hnot => ?_⟩, herr⟩
  · rintro ⟨row, n, dedup, -, hrep⟩ hraced
    rw [herr hraced] at hrep
    cases hrep
  · obtain ⟨row, hrow, n, dedup, hrep⟩ := hok hnot
    refine ⟨row, n, dedup, ?_, hrep⟩
    obtain ⟨row', hrow'⟩ := List.length_eq_one_iff.1
      (le_antisymm hone (List.length_pos_of_mem hrow))
    rw [hrow', List.mem_singleton] at hrow
    rw [hrow', hrow]

/-! ### Two requests -/

/-- The responses so far, newest first. -/
def responses (h : History) : List (Pid × Req × Reply) :=
  h.filterMap fun e =>
    match e.act with
    | .did p (.respond q rep) _ _ => some (p, q, rep)
    | _ => none

/-- A database with one failed run. -/
def oneFailed : World :=
  { runs := { committed := [{ id := 0, taskId := 0, status := .failed }] }, outbox := {}, nextId := 1 }

theorem oneFailed_fresh : Fresh 0 (.str "default") oneFailed :=
  ⟨rfl, rfl, List.pairwise_singleton _ _, ⟨_, rfl, rfl⟩, rfl, rfl⟩

theorem default_fits : Fits 0 (.str "default") := ⟨by rfl, by decide⟩

/-- A request without a key of its own. -/
def plainRetry : Req := ⟨.uuid 0, .str ""⟩

/-- One request after the other. -/
theorem retry_idempotent_sequential : ∃ c : Machine.Config retries,
    responses c.hist = [(2, plainRetry, .ok 1 0 1 true), (1, plainRetry, .ok 1 0 1 false)] ∧
      (retriesOf 0 (.str "default") c.world).length ≤ 1 := by
  have hrun : (((Machine.Config.initial oneFailed : Machine.Config retries).run Machine.anyEvent
      ([.start 1 plainRetry, .start 2 plainRetry] ++ List.replicate 6 (.perform 1 ()) ++
        List.replicate 3 (.perform 2 ()))).map fun c => responses c.hist) =
      some [(2, plainRetry, .ok 1 0 1 true), (1, plainRetry, .ok 1 0 1 false)] := by
    rfl
  obtain ⟨c, hc, hsee⟩ := Option.map_eq_some_iff.1 hrun
  have hreach := (Machine.Reaches.init oneFailed_fresh).run hc
  exact ⟨c, hsee, (retry_idempotent_iff default_fits hreach).1⟩

/-- **A race lost.**  Both requests look before either inserts; the second `INSERT` violates the
constraint outside the `try`, and its request ends in a server error. -/
theorem retry_race_lost : ∃ c : Machine.Config retries,
    Machine.Reaches retries (Fresh 0 (.str "default")) Machine.anyEvent c ∧
      Asks 0 (.str "default") plainRetry ∧
      responses c.hist = [(2, plainRetry, .internalError), (1, plainRetry, .ok 1 0 1 false)] := by
  have hrun : (((Machine.Config.initial oneFailed : Machine.Config retries).run Machine.anyEvent
      ([.start 1 plainRetry, .start 2 plainRetry] ++ List.replicate 2 (.perform 1 ()) ++
        List.replicate 2 (.perform 2 ()) ++ List.replicate 4 (.perform 1 ()) ++
        List.replicate 2 (.perform 2 ()))).map fun c => responses c.hist) =
      some [(2, plainRetry, .internalError), (1, plainRetry, .ok 1 0 1 false)] := by
    rfl
  obtain ⟨c, hc, hsee⟩ := Option.map_eq_some_iff.1 hrun
  exact ⟨c, (Machine.Reaches.init oneFailed_fresh).run hc, ⟨rfl, by rfl⟩, hsee⟩

end run

end Observatory.Retry
