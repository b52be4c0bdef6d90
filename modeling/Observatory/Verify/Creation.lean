import Observatory.Effect.Finish
import Observatory.Model.Creation

/-!
# Concurrent requests for one task

`Course` is the protocol of a request.  As long as no request inserts its task while another task
with the key is in the table, the requests for one key go through three situations: nobody has
written anything, one of them is writing, or its task, run and message are committed (`Situation`).
Then all is created once, and the requests are answered with 201 once and with 409 otherwise
(`create_idempotent`).  The `INSERT` of the task stands before the `try`, so a request that has
looked and found nothing, and is overtaken before it inserts, ends in a server error
(`create_race_lost`).
-/

namespace Observatory.Creation

open Effect
open Canonical (Str)

/-- How far a request has come. -/
inductive Stage where
  | starting
  /-- no task was found -/
  | missed
  /-- this task was found -/
  | found (task : TaskId)
  | inserted (task : TaskId)
  /-- the run is written too -/
  | ran (task : TaskId) (run : RunId)
  /-- and the message -/
  | sent (task : TaskId) (run : RunId)
  /-- the `try` has caught an `IntegrityError` -/
  | caught (x : LibError)
  | replying (rep : Reply)
  /-- an exception leaves the function -/
  | failed
  /-- the session is closed -/
  | closed (rep : Reply)
  | answered
deriving DecidableEq

structure Phase where
  q : Req
  stage : Stage := .starting

namespace Phase

variable (g : Phase)

def at' (s : Stage) : Phase := { g with stage := s }

def allows : Op → Prop
  | .selectTask key => g.stage = .starting ∧ g.q.givenKey = some key
  | .latestRun task => g.stage = .found task
  | .insertTask row => row = g.q.task ∧
      (g.stage = .missed ∨ g.stage = .starting ∧ g.q.givenKey = none)
  | .insertRun row => ∃ task, g.stage = .inserted task ∧ row = runOf task
  | .insertMessage m => ∃ task run, g.stage = .ran task run ∧ m = g.q.message task run
  | .commit => ∃ task run, g.stage = .sent task run
  | .rollback => ∃ x, g.stage = .caught x
  | .close => g.stage = .failed ∨ ∃ rep, g.stage = .replying rep
  | .respond q rep => q = g.q ∧ g.stage = .closed rep

def next : (o : Op) → Except LibError o.Ans → Phase
  | .selectTask _, .ok row => g.at' (row.elim .missed fun row => .found row.id)
  | .latestRun _, .ok rr =>
    match g.stage with
    | .found task => g.at' (.replying (.used task (rr.map (·.id))))
    | _ => g
  | .insertTask _, .ok task => g.at' (.inserted task)
  | .insertRun _, .ok run =>
    match g.stage with
    | .inserted task => g.at' (.ran task run)
    | _ => g
  | .insertMessage _, res =>
    match g.stage, res with
    | .ran task run, .ok _ => g.at' (.sent task run)
    | _, .error x => g.at' (if isIntegrityError x then .caught x else .failed)
    | _, _ => g
  | .commit, res =>
    match g.stage, res with
    | .sent task run, .ok _ => g.at' (.replying (.created task run .queued))
    | _, .error x => g.at' (if isIntegrityError x then .caught x else .failed)
    | _, _ => g
  | .rollback, .ok _ =>
    match g.stage with
    | .caught x => g.at' (.replying (if saysUsed x then
        .httpError 409 "idempotency key zaten kullanıldı (race)"
      else .httpError 500 ("commit hatası: " ++ x.cls)))
    | _ => g
  | .close, res =>
    match g.stage, res with
    | .replying rep, .ok _ => g.at' (.closed rep)
    | _, _ => g.at' (.closed .internalError)
  | .respond .., _ => g.at' .answered
  | _, .error _ => g.at' .failed

end Phase

/-- The protocol of a request. -/
def Course : Protocol Sys Phase where
  allows := Phase.allows
  next := Phase.next

/-! ## The requests keep to it -/

section programs

variable {g : Phase} {q : Req}

theorem wp_perform {o : Op} {Q : Except LibError o.Ans → Phase → Prop} :
    (perform o).wp Course Q g ↔
      g.allows o ∧ (∀ x, Q (.ok x) (g.next o (.ok x))) ∧
        ∀ x, Q (.error x) (g.next o (.error x)) := Prog.wp_call

/-- What `create_task` ends with: the request is about to answer as it says. -/
def Answers (q : Req) : Except LibError Reply → Phase → Prop
  | .ok rep, g => g = ⟨q, .replying rep⟩
  | .error _, g => g = ⟨q, .failed⟩

theorem caught_keeps {x : LibError} : (caught x).wp Course (Answers q) ⟨q, .caught x⟩ := by
  unfold caught
  simp only [Prog.bind_eq, Prog.wp_bind]
  refine wp_perform.2 ⟨⟨x, rfl⟩, fun _ => ?_, fun _ => rfl⟩
  simp only [Prog.bindPost_ok, Phase.next]
  by_cases hx : saysUsed x = true
  · rw [if_pos hx, if_pos hx]
    exact rfl
  · rw [if_neg hx, if_neg hx]
    exact rfl

theorem create_keeps (hg : g.q = q) (hallowed : g.allows (.insertTask q.task)) :
    (create q).wp Course (Answers q) g := by
  subst hg
  unfold create
  simp only [Prog.bind_eq, Prog.wp_bind]
  refine wp_perform.2 ⟨hallowed, fun (task : TaskId) => ?_, fun _ => rfl⟩
  simp only [Prog.bindPost_ok, Prog.wp_bind]
  refine wp_perform.2 ⟨⟨task, rfl, rfl⟩, fun (run : RunId) => ?_, fun _ => rfl⟩
  simp only [Prog.bindPost_ok, Prog.wp_bind, Prog.wp_attempt]
  have hraised : ∀ x : LibError, (if isIntegrityError x then caught x else throw x).wp Course
      (Answers g.q) ⟨g.q, if isIntegrityError x then .caught x else .failed⟩ := by
    intro x
    by_cases hx : isIntegrityError x = true
    · rw [if_pos hx, if_pos hx]
      exact caught_keeps
    · rw [if_neg hx, if_neg hx]
      exact rfl
  refine wp_perform.2 ⟨⟨task, run, rfl, rfl⟩, fun _ => ?_, fun x => hraised x⟩
  exact wp_perform.2 ⟨⟨task, run, rfl⟩, fun _ => rfl, fun x => hraised x⟩

theorem createTask_keeps : (createTask q).wp Course (Answers q) ⟨q, .starting⟩ := by
  unfold createTask
  cases hkey : q.givenKey with
  | none => exact create_keeps rfl ⟨rfl, .inr ⟨rfl, hkey⟩⟩
  | some key =>
    simp only [Prog.bind_eq, Prog.wp_bind]
    refine wp_perform.2 ⟨⟨rfl, hkey⟩, fun (found : Option TaskRow) => ?_, fun _ => rfl⟩
    cases found with
    | none => exact create_keeps rfl ⟨rfl, .inl rfl⟩
    | some row =>
      simp only [Prog.bindPost_ok, Prog.wp_bind]
      exact wp_perform.2 ⟨rfl, fun _ => rfl, fun _ => rfl⟩

/-- **Every request keeps to its course**, and ends with its response. -/
theorem program_keeps (q : Req) :
    q.program.wp Course (fun _ g => g.stage = .answered) ⟨q, .starting⟩ := by
  unfold Req.program
  simp only [Prog.bind_eq, Prog.wp_bind, Prog.wp_attempt]
  refine Prog.wp_mono ?_ createTask_keeps
  have hrespond {g : Phase} {rep : Reply} (hg : g = ⟨q, .closed rep⟩) :
      (perform (.respond q rep)).wp Course (fun _ g => g.stage = .answered) g := by
    subst hg
    exact wp_perform.2 ⟨⟨rfl, rfl⟩, fun _ => rfl, fun _ => rfl⟩
  rintro (x | rep) g hanswers
  · obtain rfl := hanswers
    simp only [Prog.bindPost_ok, Prog.wp_bind, Prog.wp_attempt]
    exact wp_perform.2 ⟨.inl rfl, fun _ => hrespond rfl, fun _ => hrespond rfl⟩
  · obtain rfl := hanswers
    simp only [Prog.bindPost_ok, Prog.wp_bind, Prog.wp_attempt]
    exact wp_perform.2 ⟨.inr ⟨rep, rfl⟩, fun _ => hrespond rfl, fun _ => hrespond rfl⟩

theorem program_conforms (q : Req) : q.program.wp Course (fun _ _ => True) ⟨q, .starting⟩ :=
  Prog.wp_mono (fun _ _ _ => trivial) (program_keeps q)

end programs

/-! ## The three situations -/

namespace Phase

variable (g : Phase)

/-- The request has not found a task, and not written one. -/
def Early : Prop := g.stage = .starting ∨ g.stage = .missed

/-- The request has created the task, and is about to say so. -/
def Wins : Prop :=
  ∃ rep, rep.code = 201 ∧ (g.stage = .replying rep ∨ g.stage = .closed rep)

/-- The request has not written anything, and if it answers it is with 409. -/
def Late : Prop :=
  match g.stage with
  | .starting | .missed | .found _ | .answered => True
  | .replying rep | .closed rep => rep.code = 409
  | _ => False

/-- The request has begun to write, and has not said so. -/
def Writing : Prop :=
  match g.stage with
  | .inserted _ | .ran .. | .sent .. | .caught _ | .failed => True
  | _ => False

/-- What the request `p` has written to the tables of `w₀`. -/
def Wrote (key : Str) (p : Pid) (w₀ w : World) : Prop :=
  match g.stage with
  | .inserted t => ∃ task, task.id = t ∧ keyed key task = true ∧
      w.tasks = w₀.tasks.insert p task ∧ w.runs = w₀.runs ∧ w.outbox = w₀.outbox
  | .ran t r => ∃ task run, task.id = t ∧ run.id = r ∧ run.taskId = t ∧ keyed key task = true ∧
      w.tasks = w₀.tasks.insert p task ∧ w.runs = w₀.runs.insert p run ∧ w.outbox = w₀.outbox
  | .sent t r => ∃ task run, task.id = t ∧ run.id = r ∧ run.taskId = t ∧ keyed key task = true ∧
      w.tasks = w₀.tasks.insert p task ∧ w.runs = w₀.runs.insert p run ∧
      w.outbox = w₀.outbox.insert p (g.q.message t r)
  | _ => False

end Phase

/-- Nothing is on its way, and there is no task with the key. -/
structure Fresh (key : Str) (w : World) : Prop where
  tasks : w.tasks.pending = []
  runs : w.runs.pending = []
  outbox : w.outbox.pending = []
  unused : ∀ row ∈ w.tasks.committed, keyed key row = false

/-- One task with the key has been created since `w₀`, with one run and one message. -/
structure Made (key : Str) (w₀ w : World) (task : TaskRow) (run : RunRow) (m : MessageRow) :
    Prop where
  tasks : w.tasks = ⟨w₀.tasks.committed ++ [task], []⟩
  runs : w.runs = ⟨w₀.runs.committed ++ [run], []⟩
  outbox : w.outbox = ⟨w₀.outbox.committed ++ [m], []⟩
  key : keyed key task = true
  ofTask : run.taskId = task.id
  message : m.taskId = task.id ∧ m.runId = run.id

/-- The task is created.  The request `winner` has still to answer; without one, it has. -/
structure After (key : Str) (w₀ : World) (φ : Pid → Option Phase) (replies : List Reply) (w : World)
    (winner : Option Pid) : Prop where
  made : ∃ task run m, Made key w₀ w task run m
  late : ∀ p g, φ p = some g → winner ≠ some p → g.Late
  wins : ∀ p, winner = some p → ∃ g, φ p = some g ∧ g.Wins
  once : replies.countP (·.code = 201) = if winner.isSome then 0 else 1
  polite : ∀ rep ∈ replies, rep.code = 201 ∨ rep.code = 409

inductive Situation (key : Str) (w₀ : World) (φ : Pid → Option Phase) (replies : List Reply)
    (w : World) : Prop where
  /-- nobody has written anything -/
  | untouched (tasks : w.tasks = w₀.tasks) (runs : w.runs = w₀.runs) (outbox : w.outbox = w₀.outbox)
      (early : ∀ p g, φ p = some g → g.Early) (silent : replies = [])
  /-- `p` is writing -/
  | writing (p : Pid) (g : Phase) (running : φ p = some g) (wrote : g.Wrote key p w₀ w)
      (early : ∀ p' g', p' ≠ p → φ p' = some g' → g'.Early) (silent : replies = [])
  | made (winner : Option Pid) (after : After key w₀ φ replies w winner)

section situations

variable {key : Str} {w₀ w w' : World} {φ : Pid → Option Phase} {replies : List Reply} {p : Pid}
  {g g' : Phase} {winner : Option Pid} {rep : Reply}

theorem Phase.Early.late (h : g.Early) : g.Late := by
  unfold Phase.Late
  rcases h with h | h
  · rw [h]
    trivial
  · rw [h]
    trivial

theorem Phase.Early.not_wrote (h : g.Early) : ¬g.Wrote key p w₀ w := by
  unfold Phase.Wrote
  rcases h with h | h
  · rw [h]
    exact id
  · rw [h]
    exact id

theorem Phase.Early.not_wins (h : g.Early) : ¬g.Wins := by
  rintro ⟨rep, -, hrep | hrep⟩
  · rcases h with h | h <;> cases h.symm.trans hrep
  · rcases h with h | h <;> cases h.symm.trans hrep

theorem Phase.Writing.none_else (h : g.Writing) : ¬g.Early ∧ ¬g.Late ∧ ¬g.Wins := by
  obtain ⟨q, stage⟩ := g
  cases stage <;> simp [Phase.Writing, Phase.Early, Phase.Late, Phase.Wins] at h ⊢

theorem Phase.Wrote.tasks (h : g.Wrote key p w₀ w) :
    ∃ task, keyed key task = true ∧ w.tasks = w₀.tasks.insert p task := by
  unfold Phase.Wrote at h
  split at h
  · obtain ⟨task, -, hkey, htasks, -⟩ := h
    exact ⟨task, hkey, htasks⟩
  · obtain ⟨task, run, -, -, -, hkey, htasks, -⟩ := h
    exact ⟨task, hkey, htasks⟩
  · obtain ⟨task, run, -, -, -, hkey, htasks, -⟩ := h
    exact ⟨task, hkey, htasks⟩
  · exact h.elim

theorem Made.abort {task : TaskRow} {run : RunRow} {m : MessageRow} (h : Made key w₀ w task run m)
    (p : Pid) : Made key w₀ (w.abort p) task run m := by
  refine ⟨?_, ?_, ?_, h.key, h.ofTask, h.message⟩
  · rw [World.abort, h.tasks]
    rfl
  · rw [World.abort, h.runs]
    rfl
  · rw [World.abort, h.outbox]
    rfl

namespace After

variable (h : After key w₀ φ replies w winner)

include h

/-- A request that has not created the task moves on. -/
theorem moves (hp : winner ≠ some p) {x : Option Phase} (hx : ∀ g, x = some g → g.Late) :
    After key w₀ (Function.update φ p x) replies w winner := by
  refine ⟨h.made, fun p' g' hg' hne => ?_, fun p' hp' => ?_, h.once, h.polite⟩
  · by_cases heq : p' = p
    · subst heq
      rw [Function.update_self] at hg'
      exact hx g' hg'
    · rw [Function.update_of_ne heq] at hg'
      exact h.late p' g' hg' hne
  · have hne : p' ≠ p := by
      rintro rfl
      exact hp hp'
    rw [Function.update_of_ne hne]
    exact h.wins p' hp'

theorem abort (p : Pid) : After key w₀ φ replies (w.abort p) winner := by
  obtain ⟨task, run, m, hmade⟩ := h.made
  exact ⟨⟨task, run, m, hmade.abort p⟩, h.late, h.wins, h.once, h.polite⟩

theorem settle {jsonb : Dict → Bool} (p : Pid) (stays : Bool) :
    After key w₀ φ replies ((creations jsonb).settle w p stays) winner := by
  cases stays with
  | true => exact h
  | false => exact h.abort p

/-- A response that does not create anything. -/
theorem refuses (hrep : rep.code = 409) : After key w₀ φ (rep :: replies) w winner := by
  refine ⟨h.made, h.late, h.wins, ?_, fun rep' hrep' => ?_⟩
  · rw [List.countP_cons_of_neg (by simp [hrep]), h.once]
  · rcases List.mem_cons.1 hrep' with rfl | hrep'
    · exact .inr hrep
    · exact h.polite rep' hrep'

omit h in
/-- The request that has created the task goes on to its response. -/
theorem wins_moves (h : After key w₀ φ replies w (some p)) (hg' : g'.Wins) :
    After key w₀ (Function.update φ p (some g')) replies w (some p) := by
  refine ⟨h.made, fun p' g hg hne => ?_, fun p' hp' => ?_, h.once, h.polite⟩
  · have hne' : p' ≠ p := by
      rintro rfl
      exact hne rfl
    rw [Function.update_of_ne hne'] at hg
    exact h.late p' g hg hne
  · obtain rfl := Option.some.inj hp'
    exact ⟨g', Function.update_self .., hg'⟩

omit h in
/-- It answers. -/
theorem wins_answers (h : After key w₀ φ replies w (some p)) (hrep : rep.code = 201)
    {x : Option Phase} (hx : ∀ g, x = some g → g.Late) :
    After key w₀ (Function.update φ p x) (rep :: replies) w none := by
  refine ⟨h.made, fun p' g hg _ => ?_, nofun, ?_, fun rep' hrep' => ?_⟩
  · by_cases heq : p' = p
    · subst heq
      rw [Function.update_self] at hg
      exact hx g hg
    · rw [Function.update_of_ne heq] at hg
      exact h.late p' g hg fun hsome => heq (Option.some.inj hsome).symm
  · rw [List.countP_cons_of_pos (by simp [hrep]), h.once]
    rfl
  · rcases List.mem_cons.1 hrep' with rfl | hrep'
    · exact .inl hrep
    · exact h.polite rep' hrep'

end After

namespace Situation

variable (h : Situation key w₀ φ replies w)

include h

/-- A request that is writing is the only one. -/
theorem of_writer (hg : φ p = some g) (hwriting : g.Writing) :
    g.Wrote key p w₀ w ∧ (∀ p' g', p' ≠ p → φ p' = some g' → g'.Early) ∧ replies = [] := by
  obtain ⟨hearly, hlate, hwins⟩ := hwriting.none_else
  cases h with
  | untouched _ _ _ early => exact absurd (early p g hg) hearly
  | writing p₀ g₀ running wrote early silent =>
    by_cases hp : p = p₀
    · subst hp
      obtain rfl := Option.some.inj (running.symm.trans hg)
      exact ⟨wrote, early, silent⟩
    · exact absurd (early p g hp hg) hearly
  | made winner after =>
    by_cases hp : winner = some p
    · obtain ⟨g', hg', hwins'⟩ := after.wins p hp
      obtain rfl := Option.some.inj (hg'.symm.trans hg)
      exact absurd hwins' hwins
    · exact absurd (after.late p g hg hp) hlate

/-- A request that has got an answer got it after the task was created. -/
theorem of_late (hg : φ p = some g) (hearly : ¬g.Early) (hwrote : ¬g.Wrote key p w₀ w) :
    ∃ winner, After key w₀ φ replies w winner ∧ (winner ≠ some p ∧ g.Late ∨ winner = some p ∧
      g.Wins) := by
  cases h with
  | untouched _ _ _ early => exact absurd (early p g hg) hearly
  | writing p₀ g₀ running wrote early =>
    by_cases hp : p = p₀
    · subst hp
      obtain rfl := Option.some.inj (running.symm.trans hg)
      exact absurd wrote hwrote
    · exact absurd (early p g hp hg) hearly
  | made winner after =>
    refine ⟨winner, after, ?_⟩
    by_cases hp : winner = some p
    · obtain ⟨g', hg', hwins'⟩ := after.wins p hp
      obtain rfl := Option.some.inj (hg'.symm.trans hg)
      exact .inr ⟨hp, hwins'⟩
    · exact .inl ⟨hp, after.late p g hg hp⟩

/-- A request comes, or has looked and found nothing. -/
theorem starts (hp : ∀ g, φ p = some g → g.Early) (hg' : g'.Early) :
    Situation key w₀ (Function.update φ p (some g')) replies w := by
  have hupdate : ∀ p' g₁, (p' ≠ p → φ p' = some g₁ → g₁.Early) →
      Function.update φ p (some g') p' = some g₁ → g₁.Early := by
    intro p' g₁ hother hg₁
    by_cases heq : p' = p
    · subst heq
      rw [Function.update_self] at hg₁
      obtain rfl := Option.some.inj hg₁
      exact hg'
    · rw [Function.update_of_ne heq] at hg₁
      exact hother heq hg₁
  cases h with
  | untouched tasks runs outbox early silent =>
    exact .untouched tasks runs outbox (fun p' g₁ => hupdate p' g₁ fun _ => early p' g₁) silent
  | writing p₀ g₀ running wrote early silent =>
    have hne : p₀ ≠ p := by
      rintro rfl
      exact (hp g₀ running).not_wrote wrote
    refine .writing p₀ g₀ ((Function.update_of_ne hne _ _).trans running) wrote ?_ silent
    exact fun p' g₁ hne' => hupdate p' g₁ fun _ => early p' g₁ hne'
  | made winner after =>
    refine .made winner (after.moves ?_ fun g hg => ?_)
    · intro heq
      obtain ⟨g, hg, hwins⟩ := after.wins p heq
      exact (hp g hg).not_wins hwins
    · obtain rfl := Option.some.inj hg
      exact hg'.late

/-- **A request finds a task** only after one was created. -/
theorem finds (hfresh : Fresh key w₀) (hg : φ p = some g) (hearly : g.Early) {row : TaskRow}
    (hrow : row ∈ w.tasks.visible p) (hkey : keyed key row = true) (hg' : g'.Late) :
    Situation key w₀ (Function.update φ p (some g')) replies w := by
  have hown : w₀.tasks.own p = [] := by
    rw [Store.own, hfresh.tasks]
    rfl
  have hnone : row ∉ w₀.tasks.committed := by
    intro hmem
    rw [hfresh.unused row hmem] at hkey
    cases hkey
  cases h with
  | untouched tasks =>
    rw [tasks, Store.visible_of_own_nil hown] at hrow
    exact absurd hrow hnone
  | writing p₀ g₀ running wrote =>
    have hne : p ≠ p₀ := by
      rintro rfl
      obtain rfl := Option.some.inj (running.symm.trans hg)
      exact hearly.not_wrote wrote
    obtain ⟨task, -, htasks⟩ := Phase.Wrote.tasks wrote
    have hnil : (w₀.tasks.insert p₀ task).own p = [] :=
      (Store.own_insert_of_ne hne).trans hown
    rw [htasks, Store.visible_of_own_nil hnil] at hrow
    exact absurd hrow hnone
  | made winner after =>
    refine .made winner (after.moves ?_ fun g₁ hg₁ => ?_)
    · intro heq
      obtain ⟨g₁, hg₁, hwins⟩ := after.wins p heq
      obtain rfl := Option.some.inj (hg₁.symm.trans hg)
      exact hearly.not_wins hwins
    · obtain rfl := Option.some.inj hg₁
      exact hg'

/-- **The task is inserted** if there is none in the table. -/
theorem inserts (hfree : ∀ row ∈ w.tasks.all, keyed key row = false) {task : TaskRow}
    (hkey : keyed key task = true) (htasks : w'.tasks = w.tasks.insert p task)
    (hruns : w'.runs = w.runs) (houtbox : w'.outbox = w.outbox) :
    Situation key w₀ (Function.update φ p (some (g.at' (.inserted task.id)))) replies w' := by
  cases h with
  | untouched tasks runs outbox early silent =>
    refine .writing p _ (Function.update_self ..) ?_ (fun p' g' hne hg' => ?_) silent
    · exact ⟨task, rfl, hkey, tasks ▸ htasks, runs ▸ hruns, outbox ▸ houtbox⟩
    · rw [Function.update_of_ne hne] at hg'
      exact early p' g' hg'
  | writing p₀ g₀ running wrote =>
    obtain ⟨row, hrowKey, htasks⟩ := Phase.Wrote.tasks wrote
    have hrow : row ∈ w.tasks.all := by
      rw [htasks, Store.all, Store.insert, List.map_append]
      exact List.mem_append_right _ (List.mem_append_right _ (List.mem_singleton_self row))
    rw [hfree row hrow] at hrowKey
    cases hrowKey
  | made winner after =>
    obtain ⟨row, run, m, hmade⟩ := after.made
    have hrow : row ∈ w.tasks.all := by
      rw [hmade.tasks]
      exact List.mem_append_left _ (List.mem_append_right _ (List.mem_singleton_self row))
    have hrowKey := hmade.key
    rw [hfree row hrow] at hrowKey
    cases hrowKey

omit h in
/-- The request that is writing goes on writing. -/
theorem writes (hearly : ∀ p' g', p' ≠ p → φ p' = some g' → g'.Early)
    (hwrote : g'.Wrote key p w₀ w') :
    Situation key w₀ (Function.update φ p (some g')) [] w' := by
  refine .writing p g' (Function.update_self ..) hwrote (fun p' g₁ hne hg₁ => ?_) rfl
  rw [Function.update_of_ne hne] at hg₁
  exact hearly p' g₁ hne hg₁

end Situation

end situations

/-! ## One operation -/

/-- A request with the key whose rows can be stored, and whose message has a key of its own. -/
structure Req.Fits (jsonb : Dict → Bool) (key : Str) (w₀ : World) (q : Req) : Prop where
  key : q.idempotencyKey = some key
  task : q.task.fits jsonb = true
  length : q.outboxKey.length ≤ Outbox.columnLength
  unused : ∀ m ∈ w₀.outbox.committed, m.idempotencyKey ≠ q.outboxKey

theorem Phase.next_ne_answered {g : Phase} {o : Op} (hallowed : g.allows o)
    (ho : ∀ q rep, o ≠ .respond q rep) (res : Except LibError o.Ans) :
    (g.next o res).stage ≠ .answered := by
  obtain ⟨q, stage⟩ := g
  cases o with
  | selectTask key =>
    cases res with
    | error x => exact nofun
    | ok row => cases row <;> exact nofun
  | latestRun task =>
    obtain rfl : stage = .found task := hallowed
    cases res <;> exact nofun
  | insertTask row => cases res <;> exact nofun
  | insertRun row =>
    obtain ⟨task, rfl, -⟩ := hallowed
    cases res <;> exact nofun
  | insertMessage m =>
    obtain ⟨task, run, rfl, -⟩ := hallowed
    cases res with
    | error x =>
      simp only [next, at']
      split <;> exact nofun
    | ok _ => exact nofun
  | commit =>
    obtain ⟨task, run, rfl⟩ := hallowed
    cases res with
    | error x =>
      simp only [next, at']
      split <;> exact nofun
    | ok _ => exact nofun
  | rollback =>
    obtain ⟨x, rfl⟩ := hallowed
    cases res <;> exact nofun
  | close =>
    rcases hallowed with rfl | ⟨rep, rfl⟩
    · exact nofun
    · cases res <;> exact nofun
  | respond q rep => exact absurd rfl (ho q rep)

section operations

variable {jsonb : Dict → Bool} {key : Str} {w₀ w : World} {φ : Pid → Option Phase}
  {replies : List Reply} {p : Pid} {g : Phase}

theorem insertRow_of_free {R : Type} {constraint : String} {clash : R → R → Bool}
    {s : Store Pid R} {x : R} (h : ∀ y ∈ s.all, clash x y = false) :
    insertRow constraint clash s p x = .ok (s.insert p x) := by
  have hfree := Store.blocked_eq_false.2 h
  rw [insertRow, Store.any_visible_eq_false hfree, hfree]
  rfl

theorem Req.Fits.storable {q : Req} (h : q.Fits jsonb key w₀) : storable key = true := by
  have htask := h.task
  simp only [TaskRow.fits, Bool.and_eq_true, Req.task, h.key, Option.all_some] at htask
  exact htask.2.1

theorem Req.Fits.givenKey {q : Req} (h : q.Fits jsonb key w₀) {key' : Str}
    (hkey : q.givenKey = some key') : key' = key := by
  rw [Req.givenKey, Option.filter_eq_some_iff, h.key] at hkey
  exact (Option.some.inj hkey.1).symm

namespace Situation

/-- An operation of the request `q` in a stage keeps the requests in one of the situations. -/
def Keeps (jsonb : Dict → Bool) (key : Str) (w₀ w : World) (φ : Pid → Option Phase)
    (replies : List Reply) (p : Pid) (g : Phase) (o : Op) : Prop :=
  Situation key w₀ (Function.update φ p (some (g.next o (w.perform jsonb p o).2))) replies
    (w.perform jsonb p o).1

variable {q : Req} {t r : Nat} (h : Situation key w₀ φ replies w)

include h

theorem selects (hfresh : Fresh key w₀) (hfits : q.Fits jsonb key w₀)
    (hg : φ p = some ⟨q, .starting⟩) : Keeps jsonb key w₀ w φ replies p ⟨q, .starting⟩
      (.selectTask key) := by
  have hearly : Phase.Early ⟨q, .starting⟩ := .inl rfl
  simp only [Keeps, World.perform, hfits.storable, if_true]
  cases hfound : (w.tasks.visible p).find? (keyed key) with
  | none =>
    refine h.starts (fun g' hg' => ?_) (.inr rfl)
    obtain rfl := Option.some.inj (hg'.symm.trans hg)
    exact hearly
  | some row =>
    exact h.finds hfresh hg hearly (List.mem_of_find?_eq_some hfound) (List.find?_some hfound)
      trivial

theorem reads (hg : φ p = some ⟨q, .found t⟩) :
    Keeps jsonb key w₀ w φ replies p ⟨q, .found t⟩ (.latestRun t) := by
  have hnotEarly : ¬Phase.Early ⟨q, .found t⟩ := by
    rintro (h | h) <;> cases h
  obtain ⟨winner, after, ⟨hp, -⟩ | ⟨-, rep, -, hrep | hrep⟩⟩ := h.of_late hg hnotEarly id
  · refine .made winner (after.moves hp fun g' hg' => ?_)
    obtain rfl := Option.some.inj hg'
    trivial
  · cases hrep
  · cases hrep

theorem insertsTask (hfits : q.Fits jsonb key w₀) {g : Phase}
    (hfree : ∀ row ∈ w.tasks.all, keyed key row = false) (hq : g.q = q) :
    Keeps jsonb key w₀ w φ replies p g (.insertTask q.task) := by
  subst hq
  have hclash : ∀ row ∈ w.tasks.all, taskClash { g.q.task with id := w.nextTask } row = false := by
    intro row hrow
    simp only [taskClash, Req.task, hfits.key]
    exact hfree row hrow
  have hrowFits : TaskRow.fits jsonb { g.q.task with id := w.nextTask } = true := hfits.task
  have hkeyed : keyed key { g.q.task with id := w.nextTask } = true := by
    rw [keyed, decide_eq_true_eq]
    exact hfits.key
  simp only [Keeps, World.perform, hrowFits, Bool.not_true, insertRow_of_free hclash]
  exact h.inserts hfree hkeyed rfl rfl rfl

theorem insertsRun (hg : φ p = some ⟨q, .inserted t⟩) :
    Keeps jsonb key w₀ w φ replies p ⟨q, .inserted t⟩ (.insertRun (runOf t)) := by
  obtain ⟨hwrote, hearly, rfl⟩ := h.of_writer hg trivial
  obtain ⟨task, rfl, hkey, htasks, hruns, houtbox⟩ := hwrote
  refine writes hearly ⟨task, { runOf task.id with id := w.nextRun, createdAt := w.now }, rfl, rfl,
    rfl, hkey, htasks, ?_, houtbox⟩
  rw [← hruns]
  rfl

theorem insertsMessage (hfresh : Fresh key w₀) (hfits : q.Fits jsonb key w₀)
    (hg : φ p = some ⟨q, .ran t r⟩) :
    Keeps jsonb key w₀ w φ replies p ⟨q, .ran t r⟩ (.insertMessage (q.message t r)) := by
  obtain ⟨hwrote, hearly, rfl⟩ := h.of_writer hg trivial
  obtain ⟨task, run, ht, hr, hof, hkey, htasks, hruns, houtbox⟩ := hwrote
  have hclash : ∀ m ∈ w.outbox.all, messageClash (q.message t r) m = false := by
    intro m hm
    rw [houtbox, Store.all, hfresh.outbox, List.map_nil, List.append_nil] at hm
    rw [messageClash, decide_eq_false_iff_not]
    exact fun heq => hfits.unused m hm heq.symm
  have hlength : ¬Outbox.columnLength < (q.message t r).idempotencyKey.length :=
    not_lt.2 hfits.length
  simp only [Keeps, World.perform, if_neg hlength, insertRow_of_free hclash]
  refine writes hearly ⟨task, run, ht, hr, hof, hkey, htasks, hruns, ?_⟩
  rw [← houtbox]
  rfl

theorem commits (hfresh : Fresh key w₀) (hg : φ p = some ⟨q, .sent t r⟩) :
    Keeps jsonb key w₀ w φ replies p ⟨q, .sent t r⟩ .commit := by
  obtain ⟨hwrote, hearly, rfl⟩ := h.of_writer hg trivial
  obtain ⟨task, run, rfl, rfl, hof, hkey, htasks, hruns, houtbox⟩ := hwrote
  refine .made (some p) ⟨⟨task, run, q.message task.id run.id, ?_, ?_, ?_, hkey, hof, rfl, rfl⟩,
    fun p' g' hg' hne => ?_, fun p' hp' => ?_, rfl, nofun⟩
  · exact (congrArg (Store.commit · p) htasks).trans (Store.commit_insert hfresh.tasks)
  · exact (congrArg (Store.commit · p) hruns).trans (Store.commit_insert hfresh.runs)
  · exact (congrArg (Store.commit · p) houtbox).trans (Store.commit_insert hfresh.outbox)
  · have hne' : p' ≠ p := by
      rintro rfl
      exact hne rfl
    rw [Function.update_of_ne hne'] at hg'
    exact (hearly p' g' hne' hg').late
  · obtain rfl := Option.some.inj hp'
    exact ⟨_, Function.update_self .., _, rfl, .inl rfl⟩

theorem closes {rep : Reply} (hg : φ p = some ⟨q, .replying rep⟩) :
    Keeps jsonb key w₀ w φ replies p ⟨q, .replying rep⟩ .close := by
  have hnotEarly : ¬Phase.Early ⟨q, .replying rep⟩ := by
    rintro (h | h) <;> cases h
  obtain ⟨winner, after, ⟨hp, hlate⟩ | ⟨rfl, rep', hcode, hrep⟩⟩ := h.of_late hg hnotEarly id
  · refine .made winner ((after.moves hp fun g' hg' => ?_).abort p)
    obtain rfl := Option.some.inj hg'
    exact hlate
  · have hrep' : rep = rep' := by
      rcases hrep with hrep | hrep <;> cases hrep
      rfl
    exact .made (some p) ((after.wins_moves ⟨rep, hrep' ▸ hcode, .inr rfl⟩).abort p)

/-- **Every operation but the response** keeps the requests in one of the situations. -/
theorem performs (hfresh : Fresh key w₀) (hg : φ p = some g) (hfits : g.q.Fits jsonb key w₀) {o : Op}
    (hallowed : g.allows o) (ho : ∀ q rep, o ≠ .respond q rep)
    (hfree : ∀ row, o = .insertTask row → ∀ row' ∈ w.tasks.all, keyed key row' = false) :
    Keeps jsonb key w₀ w φ replies p g o := by
  obtain ⟨q, stage⟩ := g
  cases o with
  | selectTask key' =>
    obtain ⟨rfl, hkey⟩ := hallowed
    obtain rfl := hfits.givenKey hkey
    exact h.selects hfresh hfits hg
  | latestRun task =>
    obtain rfl : stage = .found task := hallowed
    exact h.reads hg
  | insertTask row =>
    obtain ⟨rfl, -⟩ := hallowed
    exact h.insertsTask hfits (hfree _ rfl) rfl
  | insertRun row =>
    obtain ⟨t, rfl, rfl⟩ := hallowed
    exact h.insertsRun hg
  | insertMessage m =>
    obtain ⟨t, r, rfl, rfl⟩ := hallowed
    exact h.insertsMessage hfresh hfits hg
  | commit =>
    obtain ⟨t, r, rfl⟩ := hallowed
    exact h.commits hfresh hg
  | rollback =>
    -- nothing has failed
    obtain ⟨x, rfl⟩ := hallowed
    exact (h.of_writer hg trivial).1.elim
  | close =>
    rcases hallowed with rfl | ⟨rep, rfl⟩
    · exact (h.of_writer hg trivial).1.elim
    · exact h.closes hg
  | respond q rep => exact absurd rfl (ho q rep)

end Situation

/-- **The response.** -/
theorem Situation.responds (h : Situation key w₀ φ replies w) (hg : φ p = some g) {rep : Reply}
    (hstage : g.stage = .closed rep) (stays : Bool) {x : Option Phase}
    (hx : ∀ g, x = some g → g.stage = .answered) :
    Situation key w₀ (Function.update φ p x) (rep :: replies)
      ((creations jsonb).settle w p stays) := by
  obtain ⟨q, stage⟩ := g
  obtain rfl : stage = .closed rep := hstage
  have hnotEarly : ¬Phase.Early ⟨q, .closed rep⟩ := by
    rintro (h | h) <;> cases h
  have hlate : ∀ g, x = some g → g.Late := by
    intro g hg
    rw [Phase.Late, hx g hg]
    trivial
  obtain ⟨winner, after, ⟨hp, hlate'⟩ | ⟨rfl, rep', hcode, hrep⟩⟩ := h.of_late hg hnotEarly id
  · exact .made winner (((after.moves hp hlate).refuses hlate').settle p stays)
  · have hrep' : rep = rep' := by
      rcases hrep with hrep | hrep <;> cases hrep
      rfl
    exact .made none ((after.wins_answers (hrep' ▸ hcode) hlate).settle p stays)

end operations

/-! ## Runs of the server -/

abbrev History (jsonb : Dict → Bool) := List (Machine.Event (creations jsonb))

section run

variable {jsonb : Dict → Bool}

abbrev phases (h : History jsonb) : Pid → Option Phase :=
  Machine.phase (M := creations jsonb) Course (fun q => ⟨q, .starting⟩) h

def replyOf (e : Machine.Event (creations jsonb)) : Option Reply :=
  match e.act with
  | .did _ (.respond _ rep) _ _ => some rep
  | _ => none

/-- The responses so far, newest first. -/
def replies (h : History jsonb) : List Reply := h.filterMap replyOf

/-- A request starts the process `p`. -/
def isStart (p : Pid) (e : Machine.Event (creations jsonb)) : Bool :=
  match e.act with
  | .started p' _ _ => p' = p
  | _ => false

/-- The process `p` responds. -/
def isResponse (p : Pid) (e : Machine.Event (creations jsonb)) : Bool :=
  match e.act with
  | .did p' (.respond _ _) _ _ => p' = p
  | _ => false

/-- The requests have the key and can be stored, and none of them crashes. -/
def Asked (key : Str) (w₀ : World) (e : Machine.Event (creations jsonb)) : Prop :=
  match e.act with
  | .started _ q _ => q.Fits jsonb key w₀
  | .crashed _ => False
  | _ => True

/-- No task is inserted while another one with the key is in the table, committed or not. -/
def Unraced (key : Str) (e : Machine.Event (creations jsonb)) : Prop :=
  match e.act with
  | .did _ (.insertTask _) _ _ => ∀ row ∈ (World.tasks e.before).all, keyed key row = false
  | _ => True

/-- The process has to respond yet. -/
def pending : Option Phase → Nat
  | some g => if g.stage = .answered then 0 else 1
  | none => 0

structure Kept (key : Str) (w₀ : World) (h : History jsonb) (w : World) : Prop where
  fits : ∀ p g, phases h p = some g → g.q.Fits jsonb key w₀
  situation : Situation key w₀ (phases h) (replies h) w
  counts : ∀ p, h.countP (isStart p) = h.countP (isResponse p) + pending (phases h p)

variable {key : Str} {w₀ w : World} {h : History jsonb} {e : Machine.Event (creations jsonb)}

theorem Phase.next_q {g : Phase} {o : Op} {res : Except LibError o.Ans} : (g.next o res).q = g.q := by
  unfold next at'
  split <;> (try split) <;> rfl

theorem pending_of_allows {g : Phase} {o : Op} (hallowed : g.allows o) : pending (some g) = 1 := by
  refine if_neg fun hstage => ?_
  cases o <;> simp [Phase.allows, hstage] at hallowed

theorem Situation.ticks {φ : Pid → Option Phase} {reps : List Reply}
    (h : Situation key w₀ φ reps w) (now : Time) : Situation key w₀ φ reps { w with now } := by
  cases h with
  | untouched tasks runs outbox early silent => exact .untouched tasks runs outbox early silent
  | writing p g running wrote early silent => exact .writing p g running wrote early silent
  | made winner after =>
    obtain ⟨task, run, m, hmade⟩ := after.made
    refine .made winner ⟨⟨task, run, m, ?_⟩, after.late, after.wins, after.once, after.polite⟩
    exact ⟨hmade.tasks, hmade.runs, hmade.outbox, hmade.key, hmade.ofTask, hmade.message⟩

/-- One process moves on; `b` and `b'` say whether the event starts it or is its response. -/
theorem Kept.counts_cons (hk : Kept key w₀ h w) {p : Pid} {x : Option Phase}
    (hphases : phases (e :: h) = Function.update (phases h) p x)
    (hother : ∀ p', p' ≠ p → isStart p' e = false ∧ isResponse p' e = false)
    (hself : (if isStart p e then 1 else 0) + pending (phases h p) =
      (if isResponse p e then 1 else 0) + pending x) (p' : Pid) :
    (e :: h).countP (isStart p') = (e :: h).countP (isResponse p') +
      pending (phases (e :: h) p') := by
  have hcounts := hk.counts p'
  rw [hphases, List.countP_cons, List.countP_cons]
  by_cases hp : p' = p
  · subst hp
    rw [Function.update_self]
    omega
  · obtain ⟨hstart, hresponse⟩ := hother p' hp
    rw [Function.update_of_ne hp, hstart, hresponse]
    omega

/-- One process moves on with a request that fits. -/
theorem Kept.fits_update (hk : Kept key w₀ h w) {p : Pid} {x : Option Phase}
    (hx : ∀ g, x = some g → g.q.Fits jsonb key w₀) {p' : Pid} {g : Phase}
    (hg : Function.update (phases h) p x p' = some g) : g.q.Fits jsonb key w₀ := by
  by_cases hp : p' = p
  · subst hp
    rw [Function.update_self] at hg
    exact hx g hg
  · rw [Function.update_of_ne hp] at hg
    exact hk.fits p' g hg

theorem Kept.starts (hk : Kept key w₀ h w) {p : Pid} {q : Req} (idle : phases h p = none)
    (hq : q.Fits jsonb key w₀) : Kept key w₀ (⟨w, .started p q true, w⟩ :: h) w := by
  have hphases : phases (⟨w, .started p q true, w⟩ :: h) =
      Function.update (phases h) p (some ⟨q, .starting⟩) := Machine.phase_started
  refine ⟨fun p' g hg => ?_, ?_, ?_⟩
  · rw [hphases] at hg
    refine hk.fits_update (fun g' hg' => ?_) hg
    obtain rfl := Option.some.inj hg'
    exact hq
  · rw [hphases]
    refine hk.situation.starts (fun g hg => ?_) (.inl rfl)
    rw [idle] at hg
    cases hg
  · refine hk.counts_cons hphases (fun p' hp => ⟨?_, rfl⟩) ?_
    · exact decide_eq_false (Ne.symm hp)
    · have hstart : isStart p (⟨w, .started p q true, w⟩ : Machine.Event (creations jsonb)) = true :=
        decide_eq_true rfl
      rw [hstart, idle]
      rfl

theorem Kept.performs (hfresh : Fresh key w₀) (hk : Kept key w₀ h w) {p : Pid} {g : Phase} {o : Op}
    (running : phases h p = some g) (allowed : g.allows o) (hnot : ∀ q rep, o ≠ .respond q rep)
    (ho : ∀ row, o = .insertTask row → ∀ row' ∈ w.tasks.all, keyed key row' = false) :
    Kept key w₀ (⟨w, .did p o (w.perform jsonb p o).2 true, (w.perform jsonb p o).1⟩ :: h)
      (w.perform jsonb p o).1 := by
  have hphases : phases (⟨w, .did p o (w.perform jsonb p o).2 true, (w.perform jsonb p o).1⟩ :: h) =
      Function.update (phases h) p (some (g.next o (w.perform jsonb p o).2)) :=
    Machine.phase_did running
  have hreplies : replies (⟨w, .did p o (w.perform jsonb p o).2 true,
      (w.perform jsonb p o).1⟩ :: h) = replies h := by
    refine List.filterMap_cons_none ?_
    unfold replyOf
    split
    · next heq =>
      cases heq
      exact absurd rfl (hnot _ _)
    · rfl
  have hresponse : ∀ p', isResponse p' (⟨w, .did p o (w.perform jsonb p o).2 true,
      (w.perform jsonb p o).1⟩ : Machine.Event (creations jsonb)) = false := by
    intro p'
    unfold isResponse
    split
    · next heq =>
      cases heq
      exact absurd rfl (hnot _ _)
    · rfl
  refine ⟨fun p' g' hg' => ?_, ?_, ?_⟩
  · rw [hphases] at hg'
    refine hk.fits_update (fun g₁ hg₁ => ?_) hg'
    obtain rfl := Option.some.inj hg₁
    rw [Phase.next_q]
    exact hk.fits p g running
  · rw [hphases, hreplies]
    exact hk.situation.performs hfresh running (hk.fits p g running) allowed hnot ho
  · refine hk.counts_cons hphases (fun p' _ => ⟨rfl, hresponse p'⟩) ?_
    have hnext : pending (some (g.next o (w.perform jsonb p o).2)) = 1 :=
      if_neg (Phase.next_ne_answered allowed hnot _)
    rw [hresponse, running, pending_of_allows allowed, hnext]
    rfl

theorem Kept.responds (hk : Kept key w₀ h w) {p : Pid} {g : Phase} {q : Req} {rep : Reply}
    (running : phases h p = some g) (allowed : g.allows (.respond q rep)) (stays : Bool) :
    Kept key w₀ (⟨w, .did p (.respond q rep) (.ok ()) stays,
      (creations jsonb).settle w p stays⟩ :: h) ((creations jsonb).settle w p stays) := by
  have hphases : phases (⟨w, .did p (.respond q rep) (.ok ()) stays,
      (creations jsonb).settle w p stays⟩ :: h) =
      Function.update (phases h) p (if stays then some (g.at' .answered) else none) :=
    Machine.phase_did running
  have hx : ∀ g', (if stays then some (g.at' .answered) else none) = some g' →
      g' = g.at' .answered := by
    intro g' hg'
    cases stays with
    | true => exact (Option.some.inj hg').symm
    | false => cases hg'
  refine ⟨fun p' g' hg' => ?_, ?_, ?_⟩
  · rw [hphases] at hg'
    refine hk.fits_update (fun g₁ hg₁ => ?_) hg'
    rw [hx g₁ hg₁]
    exact hk.fits p g running
  · rw [hphases]
    refine hk.situation.responds running allowed.2 stays fun g' hg' => ?_
    rw [hx g' hg']
    rfl
  · refine hk.counts_cons hphases (fun p' hp => ⟨rfl, decide_eq_false (Ne.symm hp)⟩) ?_
    have hresponse : isResponse p (⟨w, .did p (.respond q rep) (.ok ()) stays,
        (creations jsonb).settle w p stays⟩ : Machine.Event (creations jsonb)) = true :=
      decide_eq_true rfl
    rw [hresponse, running, pending_of_allows allowed]
    cases stays <;> rfl

theorem Kept.step (hfresh : Fresh key w₀) (hk : Kept key w₀ h w)
    (hl : Machine.Legal Course (fun q => ⟨q, .starting⟩) h w e) (ha : Asked key w₀ e)
    (hu : Unraced key e)
    (hf : Machine.Finishes Course (fun q => ⟨q, .starting⟩) (fun g => g.stage = .answered) h e) :
    Kept key w₀ (e :: h) e.after := by
  cases hl with
  | @started p q stays idle =>
    cases stays with
    | true => exact hk.starts idle ha
    | false => cases hf
  | @did p o g ch stays running allowed =>
    by_cases hrespond : ∃ q rep, o = .respond q rep
    · obtain ⟨q, rep, rfl⟩ := hrespond
      exact hk.responds running allowed stays
    · have hnot : ∀ q rep, o ≠ .respond q rep := fun q rep heq => hrespond ⟨q, rep, heq⟩
      cases stays with
      | true =>
        refine hk.performs hfresh running allowed hnot fun row hrow => ?_
        subst hrow
        exact hu
      | false => exact absurd (hf g running) (Phase.next_ne_answered allowed hnot _)
  | crashed running => exact ha.elim
  | ticked t => exact ⟨hk.fits, hk.situation.ticks t, hk.counts⟩

theorem Kept.initial (w₀ : World) : Kept key w₀ ([] : History jsonb) w₀ :=
  ⟨nofun, .untouched rfl rfl rfl nofun rfl, fun _ => rfl⟩

/-- Exactly one task, one run and one message have been created since `w₀`, and they belong
together. -/
def Created (key : Str) (w₀ w : World) : Prop :=
  ∃ task run m, w.tasks.committed = w₀.tasks.committed ++ [task] ∧
    w.runs.committed = w₀.runs.committed ++ [run] ∧
    w.outbox.committed = w₀.outbox.committed ++ [m] ∧ keyed key task = true ∧
    run.taskId = task.id ∧ m.taskId = task.id ∧ m.runId = run.id

theorem Made.created {task : TaskRow} {run : RunRow} {m : MessageRow}
    (h : Made key w₀ w task run m) : Created key w₀ w :=
  ⟨task, run, m, congrArg Store.committed h.tasks, congrArg Store.committed h.runs,
    congrArg Store.committed h.outbox, h.key, h.ofTask, h.message⟩

theorem Phase.Wrote.committed {g : Phase} {p : Pid} (h : g.Wrote key p w₀ w) :
    w.tasks.committed = w₀.tasks.committed ∧ w.runs.committed = w₀.runs.committed ∧
      w.outbox.committed = w₀.outbox.committed := by
  unfold Phase.Wrote at h
  split at h
  · obtain ⟨task, -, -, htasks, hruns, houtbox⟩ := h
    rw [htasks, hruns, houtbox]
    exact ⟨rfl, rfl, rfl⟩
  · obtain ⟨task, run, -, -, -, -, htasks, hruns, houtbox⟩ := h
    rw [htasks, hruns, houtbox]
    exact ⟨rfl, rfl, rfl⟩
  · obtain ⟨task, run, -, -, -, -, htasks, hruns, houtbox⟩ := h
    rw [htasks, hruns, houtbox]
    exact ⟨rfl, rfl, rfl⟩
  · exact h.elim

/-- The key is used once, and every request but the one that has used it is answered with 409. -/
structure Idempotent (key : Str) (w₀ : World) (c : Machine.Config (creations jsonb)) : Prop where
  tables : (World.tasks c.world).committed = w₀.tasks.committed ∧
      (World.runs c.world).committed = w₀.runs.committed ∧
      (World.outbox c.world).committed = w₀.outbox.committed ∨ Created key w₀ c.world
  answers : ∀ rep ∈ replies c.hist, rep.code = 201 ∨ rep.code = 409
  winner : (replies c.hist).countP (·.code = 201) ≤ 1
  /-- once all requests are through -/
  through : (∀ p, c.procs p = none) → (∃ p, 0 < c.hist.countP (isStart p)) →
    Created key w₀ c.world ∧ (∀ p, c.hist.countP (isResponse p) = c.hist.countP (isStart p)) ∧
      (replies c.hist).countP (·.code = 201) = 1

theorem replies_ne_nil {p : Pid} (hp : 0 < h.countP (isResponse p)) : replies h ≠ [] := by
  obtain ⟨e, he, hresponse⟩ := List.countP_pos_iff.1 hp
  unfold isResponse at hresponse
  split at hresponse
  · next q rep res stays hact =>
    refine List.ne_nil_of_mem (a := rep) (List.mem_filterMap.2 ⟨e, he, ?_⟩)
    rw [replyOf, hact]
  · cases hresponse

/-- **Creating a task is idempotent** as long as no request inserts its task while another one with
the key is in the table. -/
theorem create_idempotent (hfresh : Fresh key w₀) {c : Machine.Config (creations jsonb)}
    (hc : Machine.Reaches (creations jsonb) (· = w₀) (fun _ e => Asked key w₀ e ∧ Unraced key e) c) :
    Idempotent key w₀ c := by
  have hkept : Kept key w₀ c.hist c.world :=
    (hc.finishing program_keeps).induct program_conforms (P := Kept key w₀)
      (fun w hw => by subst hw; exact .initial w)
      fun h w e hk hl hK => hk.step hfresh hl hK.1.1 hK.1.2 hK.2
  have hquiet : (∀ p, c.procs p = none) → ∀ p, phases c.hist p = none := fun hnone p =>
    (hc.conforms program_conforms).idle (hnone p)
  have hcounts : (∀ p, c.procs p = none) →
      ∀ p, c.hist.countP (isResponse p) = c.hist.countP (isStart p) := by
    intro hnone p
    have hp := hkept.counts p
    rw [hquiet hnone p] at hp
    exact hp.symm
  have hspoken : (∀ p, c.procs p = none) → (∃ p, 0 < c.hist.countP (isStart p)) →
      replies c.hist ≠ [] := by
    rintro hnone ⟨p, hp⟩
    rw [← hcounts hnone p] at hp
    exact replies_ne_nil hp
  cases hkept.situation with
  | untouched tasks runs outbox _ silent =>
    refine ⟨.inl ⟨by rw [tasks], by rw [runs], by rw [outbox]⟩, ?_, ?_, fun hnone hsome => ?_⟩
    · rw [silent]
      exact nofun
    · rw [silent]
      exact Nat.zero_le 1
    · exact absurd silent (hspoken hnone hsome)
  | writing p g _ wrote _ silent =>
    refine ⟨.inl wrote.committed, ?_, ?_, fun hnone hsome => ?_⟩
    · rw [silent]
      exact nofun
    · rw [silent]
      exact Nat.zero_le 1
    · exact absurd silent (hspoken hnone hsome)
  | made winner after =>
    obtain ⟨task, run, m, hmade⟩ := after.made
    refine ⟨.inr hmade.created, after.polite, ?_, fun hnone _ => ⟨hmade.created, hcounts hnone, ?_⟩⟩
    · rw [after.once]
      split
      · exact Nat.zero_le 1
      · exact le_rfl
    · have hwinner : winner = none := by
        cases winner with
        | none => rfl
        | some p =>
          obtain ⟨g, hg, -⟩ := after.wins p rfl
          rw [hquiet hnone p] at hg
          cases hg
      rw [after.once, hwinner]
      rfl

/-! ### Two requests -/

instance decidableFits (key : Str) (w₀ : World) (q : Req) : Decidable (q.Fits jsonb key w₀) :=
  decidable_of_iff (q.idempotencyKey = some key ∧ q.task.fits jsonb = true ∧
      q.outboxKey.length ≤ Outbox.columnLength ∧
      ∀ m ∈ w₀.outbox.committed, m.idempotencyKey ≠ q.outboxKey)
    ⟨fun h => ⟨h.1, h.2.1, h.2.2.1, h.2.2.2⟩, fun h => ⟨h.key, h.task, h.length, h.unused⟩⟩

instance (key : Str) (w₀ : World) :
    ∀ e : Machine.Event (creations jsonb), Decidable (Asked key w₀ e)
  | ⟨_, .started _ q _, _⟩ => decidableFits key w₀ q
  | ⟨_, .crashed _, _⟩ => .isFalse id
  | ⟨_, .did .., _⟩ | ⟨_, .ticked _, _⟩ => .isTrue trivial

instance (key : Str) : ∀ e : Machine.Event (creations jsonb), Decidable (Unraced key e)
  | ⟨w, .did _ (.insertTask _) _ _, _⟩ =>
    inferInstanceAs (Decidable (∀ row ∈ (World.tasks w).all, keyed key row = false))
  | ⟨_, .did _ (.selectTask _) _ _, _⟩ | ⟨_, .did _ (.latestRun _) _ _, _⟩
  | ⟨_, .did _ (.insertRun _) _ _, _⟩ | ⟨_, .did _ (.insertMessage _) _ _, _⟩
  | ⟨_, .did _ .commit _ _, _⟩ | ⟨_, .did _ .rollback _ _, _⟩ | ⟨_, .did _ .close _ _, _⟩
  | ⟨_, .did _ (.respond ..) _ _, _⟩ | ⟨_, .started .., _⟩ | ⟨_, .crashed _, _⟩
  | ⟨_, .ticked _, _⟩ => .isTrue trivial

end run

def sampleKey : Str := Canonical.ofString "k"

def sampleReq : Req :=
  { title := Canonical.ofString "t", prompt := Canonical.ofString "p", idempotencyKey := sampleKey,
    uuid4 := ⟨0, by decide⟩ }

/-- Every value can be stored. -/
abbrev sampleMachine : Machine Sys LibError := creations fun _ => true

theorem sample_fresh : Fresh sampleKey {} := by
  refine ⟨rfl, rfl, rfl, fun row hrow => ?_⟩
  cases hrow

/-- One request after the other. -/
theorem create_idempotent_sequential : ∃ c : Machine.Config sampleMachine,
    replies c.hist = [.used 0 (some 0), .created 0 0 .queued] ∧ Idempotent sampleKey {} c := by
  have hrun : (((Machine.Config.initial {} : Machine.Config sampleMachine).run
      (fun _ e => Asked sampleKey {} e ∧ Unraced sampleKey e)
      ([.start 1 sampleReq, .start 2 sampleReq] ++ List.replicate 7 (.perform 1 ()) ++
        List.replicate 4 (.perform 2 ()))).map fun c => replies c.hist) =
      some [.used 0 (some 0), .created 0 0 .queued] := by
    rfl
  obtain ⟨c, hc, hsee⟩ := Option.map_eq_some_iff.1 hrun
  have hinit : Machine.Reaches sampleMachine (· = {})
      (fun _ e => Asked sampleKey {} e ∧ Unraced sampleKey e) (.initial {}) := .init rfl
  exact ⟨c, hsee, create_idempotent sample_fresh (hinit.run hc)⟩

/-- **A race lost.**  Both requests look before either inserts; the second `INSERT` violates the
index outside the `try`, and its request ends in a server error. -/
theorem create_race_lost : ∃ c : Machine.Config sampleMachine,
    Machine.Reaches sampleMachine (· = {}) (fun _ e => Asked sampleKey {} e) c ∧
      Fresh sampleKey {} ∧ replies c.hist = [.internalError, .created 0 0 .queued] ∧
      ¬Idempotent sampleKey {} c := by
  have hrun : (((Machine.Config.initial {} : Machine.Config sampleMachine).run
      (fun _ e => Asked sampleKey {} e)
      ([.start 1 sampleReq, .start 2 sampleReq, .perform 1 (), .perform 2 ()] ++
        List.replicate 6 (.perform 1 ()) ++ List.replicate 3 (.perform 2 ()))).map
          fun c => replies c.hist) =
      some [.internalError, .created 0 0 .queued] := by
    rfl
  obtain ⟨c, hc, hsee⟩ := Option.map_eq_some_iff.1 hrun
  have hinit : Machine.Reaches sampleMachine (· = {}) (fun _ e => Asked sampleKey {} e)
      (.initial {}) := .init rfl
  refine ⟨c, hinit.run hc, sample_fresh, hsee, fun h => ?_⟩
  have hcode := h.answers .internalError (by rw [hsee]; exact List.mem_cons_self)
  exact absurd hcode (by decide)

end Observatory.Creation
