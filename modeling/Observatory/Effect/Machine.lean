import Observatory.Effect.Protocol
import Observatory.Effect.History

/-!
# Interleaved processes over a shared world

A machine runs any number of processes, each one a program started by a request, over one shared
world.  A move starts a process, lets one process perform its next operation, crashes a process
between two operations, or lets the world move by itself.  `Config.step` is executable, so a
concrete run can be computed; `Reaches` is reachability, with a side condition `K` on the events.

A run keeps its history.  If every program conforms to a protocol (`Effect.Prog.wp`), the history
alone tells which phase every process is in (`phase`), and every operation performed was allowed in
that phase (`Legal`).  `Reaches.induct` is the resulting induction rule: an invariant of history
and world is proved once per event, with the phase of the acting process at hand.  `Moved` tells the
other way round how a process can have come to its phase.
-/

namespace Effect

/-- Names of processes. -/
abbrev Pid := Nat

/-- A shared world, the requests that start processes, and what each operation does. -/
structure Machine (S : Sig) (ε : Type) where
  World : Type
  Req : Type
  Choice : Type
  Tick : Type
  program : Req → Prog S ε Unit
  perform : World → Pid → (o : S.Op) → Choice → World × S.Result o
  /-- What is left of a process in the world goes when the process ends or crashes. -/
  leave : World → Pid → World
  tick : World → Tick → World

namespace Machine

variable {S : Sig} {ε σ : Type}

/-- What can happen.  `stays` tells whether the process has more to do afterwards. -/
inductive Act (M : Machine S ε) where
  | started (p : Pid) (q : M.Req) (stays : Bool)
  | did (p : Pid) (o : S.Op) (r : S.Result o) (stays : Bool)
  | crashed (p : Pid)
  | ticked (t : M.Tick)

/-- One entry of the history. -/
structure Event (M : Machine S ε) where
  before : M.World
  act : M.Act
  after : M.World

/-- A state of the machine; the history has its newest event first. -/
structure Config (M : Machine S ε) where
  world : M.World
  procs : Pid → Option (Prog S ε Unit)
  hist : List M.Event

/-- A scheduler's decision. -/
inductive Move (M : Machine S ε) where
  | start (p : Pid) (q : M.Req)
  | perform (p : Pid) (ch : M.Choice)
  | crash (p : Pid)
  | tick (t : M.Tick)

variable {M : Machine S ε}

/-- The world once a process has acted: if it is done, it leaves. -/
def settle (M : Machine S ε) (w : M.World) (p : Pid) (stays : Bool) : M.World :=
  if stays then w else M.leave w p

namespace Config

/-- No process yet. -/
def initial (w : M.World) : M.Config := ⟨w, fun _ => none, []⟩

/-- Record what process `p` did and what it still has to do. -/
def advance (c : M.Config) (p : Pid) (prog : Prog S ε Unit) (w : M.World)
    (act : Bool → M.Act) : M.Config :=
  let stays := !prog.isFinal
  let w' := M.settle w p stays
  { world := w'
    procs := Function.update c.procs p (if stays then some prog else none)
    hist := ⟨c.world, act stays, w'⟩ :: c.hist }

def step (c : M.Config) : M.Move → Option M.Config
  | .start p q =>
    match c.procs p with
    | none => some (c.advance p (M.program q) c.world (.started p q))
    | some _ => none
  | .perform p ch =>
    match c.procs p with
    | some (.op o k) =>
      let wr := M.perform c.world p o ch
      some (c.advance p (k wr.2) wr.1 (.did p o wr.2))
    | _ => none
  | .crash p =>
    match c.procs p with
    | some _ =>
      some ⟨M.leave c.world p, Function.update c.procs p none,
        ⟨c.world, .crashed p, M.leave c.world p⟩ :: c.hist⟩
    | none => none
  | .tick t => some ⟨M.tick c.world t, c.procs, ⟨c.world, .ticked t, M.tick c.world t⟩ :: c.hist⟩

/-- Carry out a list of moves, each of which must be possible and meet `K`. -/
def run (K : List M.Event → M.Event → Prop) [∀ h e, Decidable (K h e)] (c : M.Config) :
    List M.Move → Option M.Config
  | [] => some c
  | m :: ms =>
    match c.step m with
    | none => none
    | some c' =>
      match c'.hist with
      | [] => none
      | e :: _ => if K c.hist e then c'.run K ms else none

end Config

/-- No side condition. -/
def anyEvent (_ : List M.Event) (_ : M.Event) : Prop := True

instance (h : List M.Event) (e : M.Event) : Decidable (anyEvent h e) := .isTrue trivial

/-- Reachability by moves whose events meet `K`, given the history before them. -/
inductive Reaches (M : Machine S ε) (Init : M.World → Prop)
    (K : List M.Event → M.Event → Prop) : M.Config → Prop where
  | init {w : M.World} (h : Init w) : Reaches M Init K (.initial w)
  | step {c c' : M.Config} {m : M.Move} (h : Reaches M Init K c) (hs : c.step m = some c')
      (hK : ∀ e, c'.hist = e :: c.hist → K c.hist e) : Reaches M Init K c'

/-! ## Phases -/

/-- The phase of process `p` after the history `h`; none when it is not running. -/
def phase (T : Protocol S σ) (init : M.Req → σ) : List M.Event → Pid → Option σ
  | [], _ => none
  | e :: h, p =>
    match e.act with
    | .started p' q stays =>
      if p' = p then (if stays then some (init q) else none) else phase T init h p
    | .did p' o r stays =>
      if p' = p then (if stays then (phase T init h p).map fun g => T.next g o r else none)
      else phase T init h p
    | .crashed p' => if p' = p then none else phase T init h p
    | .ticked _ => phase T init h p

variable {T : Protocol S σ} {init : M.Req → σ}

@[simp] theorem phase_nil (p : Pid) : phase (M := M) T init [] p = none := rfl

/-! What an event does to the phases: those of the other processes stay. -/

section update

variable {h : List M.Event} {w w' : M.World} {p : Pid} {stays : Bool}

theorem phase_started {q : M.Req} :
    phase T init (⟨w, .started p q stays, w'⟩ :: h) =
      Function.update (phase T init h) p (if stays then some (init q) else none) := by
  funext p'
  by_cases hp : p' = p
  · subst hp
    rw [Function.update_self]
    simp [phase]
  · rw [Function.update_of_ne hp]
    simp [phase, Ne.symm hp]

theorem phase_did {o : S.Op} {r : S.Result o} {g : σ} (hg : phase T init h p = some g) :
    phase T init (⟨w, .did p o r stays, w'⟩ :: h) =
      Function.update (phase T init h) p (if stays then some (T.next g o r) else none) := by
  funext p'
  by_cases hp : p' = p
  · subst hp
    rw [Function.update_self]
    simp [phase, hg]
  · rw [Function.update_of_ne hp]
    simp [phase, Ne.symm hp]

theorem phase_crashed :
    phase T init (⟨w, .crashed p, w'⟩ :: h) = Function.update (phase T init h) p none := by
  funext p'
  by_cases hp : p' = p
  · subst hp
    rw [Function.update_self]
    simp [phase]
  · rw [Function.update_of_ne hp]
    simp [phase, Ne.symm hp]

end update

/-- What an event can be after the history `h`, in the world `w`. -/
inductive Legal (T : Protocol S σ) (init : M.Req → σ) (h : List M.Event) (w : M.World) :
    M.Event → Prop where
  | started {p : Pid} (q : M.Req) (stays : Bool) (idle : phase T init h p = none) :
      Legal T init h w ⟨w, .started p q stays, M.settle w p stays⟩
  | did {p : Pid} {o : S.Op} {g : σ} (ch : M.Choice) (stays : Bool)
      (running : phase T init h p = some g) (allowed : T.allows g o) :
      Legal T init h w ⟨w, .did p o (M.perform w p o ch).2 stays,
        M.settle (M.perform w p o ch).1 p stays⟩
  | crashed {p : Pid} {g : σ} (running : phase T init h p = some g) :
      Legal T init h w ⟨w, .crashed p, M.leave w p⟩
  | ticked (t : M.Tick) : Legal T init h w ⟨w, .ticked t, M.tick w t⟩

/-- Every process is in the phase its history tells, with a program that conforms from there. -/
def Conforms (T : Protocol S σ) (init : M.Req → σ) (c : M.Config) : Prop :=
  ∀ p, match c.procs p with
    | none => phase T init c.hist p = none
    | some prog => ∃ g, phase T init c.hist p = some g ∧ prog.wp T (fun _ _ => True) g

theorem Conforms.idle {c : M.Config} (hc : Conforms T init c) {p : Pid}
    (hp : c.procs p = none) : phase T init c.hist p = none := by
  have := hc p
  rwa [hp] at this

theorem Conforms.running {c : M.Config} (hc : Conforms T init c) {p : Pid} {prog : Prog S ε Unit}
    (hp : c.procs p = some prog) :
    ∃ g, phase T init c.hist p = some g ∧ prog.wp T (fun _ _ => True) g := by
  have := hc p
  rwa [hp] at this

/-- A process that acts keeps conforming, and the others are not touched. -/
theorem Conforms.advance {c : M.Config} (hc : Conforms T init c) {p : Pid} {prog : Prog S ε Unit}
    {w : M.World} {act : Bool → M.Act} {g : σ} (hg : prog.wp T (fun _ _ => True) g)
    (hself : ∀ w' stays, phase T init (⟨c.world, act stays, w'⟩ :: c.hist) p =
      if stays then some g else none)
    (hother : ∀ w' stays p', p' ≠ p →
      phase T init (⟨c.world, act stays, w'⟩ :: c.hist) p' = phase T init c.hist p') :
    Conforms T init (c.advance p prog w act) := by
  intro p'
  by_cases hp : p' = p
  · subst hp
    cases hfin : prog.isFinal with
    | true => simp [Config.advance, hfin, hself]
    | false => simpa [Config.advance, hfin, hself] using hg
  · have := hc p'
    simpa only [Config.advance, Function.update_of_ne hp, hother _ _ _ hp] using this

/-- **Conformance is kept**, and every event is a legal one. -/
theorem Conforms.step {c c' : M.Config} {m : M.Move}
    (hprog : ∀ q, (M.program q).wp T (fun _ _ => True) (init q))
    (hc : Conforms T init c) (hs : c.step m = some c') :
    Conforms T init c' ∧
      ∃ e, c'.hist = e :: c.hist ∧ e.after = c'.world ∧ Legal T init c.hist c.world e := by
  cases m with
  | start p q =>
    simp only [Config.step] at hs
    split at hs
    · next hidle =>
      cases hs
      refine ⟨hc.advance (hprog q) (by simp [phase]) fun w' stays p' hp => ?_, _, rfl, rfl,
        .started q _ (hc.idle hidle)⟩
      simp [phase, Ne.symm hp]
    · cases hs
  | perform p ch =>
    simp only [Config.step] at hs
    split at hs
    · next o k hrun =>
      cases hs
      obtain ⟨g, hg, hallowed, hk⟩ := hc.running hrun
      refine ⟨hc.advance (hk _) (by simp [phase, hg]) fun w' stays p' hp => ?_, _, rfl, rfl,
        .did ch _ hg hallowed⟩
      simp [phase, Ne.symm hp]
    · cases hs
  | crash p =>
    simp only [Config.step] at hs
    split at hs
    · next prog hrun =>
      cases hs
      obtain ⟨g, hg, -⟩ := hc.running hrun
      refine ⟨fun p' => ?_, _, rfl, rfl, .crashed hg⟩
      by_cases hp : p' = p
      · subst hp; simp [phase]
      · have := hc p'
        simpa only [Function.update_of_ne hp, phase, if_neg (Ne.symm hp)] using this
    · cases hs
  | tick t =>
    cases hs
    exact ⟨fun p => by simpa [phase] using hc p, _, rfl, rfl, .ticked t⟩

/-! ## The course of one process -/

/-- What the process `p` has done since it was started, newest first. -/
def course : List M.Event → Pid → List M.Event
  | [], _ => []
  | e :: h, p =>
    match e.act with
    | .started p' .. => if p' = p then [] else course h p
    | .did p' .. => if p' = p then e :: course h p else course h p
    | _ => course h p

section course

variable {h : List M.Event} {e : M.Event} {p : Pid}

theorem course_started {q : M.Req} {stays : Bool} (he : e.act = .started p q stays) :
    course (e :: h) p = [] := by
  rcases e with ⟨w, act, w'⟩
  subst he
  exact if_pos rfl

theorem course_did {o : S.Op} {r : S.Result o} {stays : Bool} (he : e.act = .did p o r stays) :
    course (e :: h) p = e :: course h p := by
  rcases e with ⟨w, act, w'⟩
  subst he
  exact if_pos rfl

theorem course_other (he : ∀ q stays, e.act ≠ .started p q stays)
    (he' : ∀ o r stays, e.act ≠ .did p o r stays) : course (e :: h) p = course h p := by
  rcases e with ⟨w, act, w'⟩
  cases act with
  | started p' q stays =>
    have hp : p' ≠ p := by
      rintro rfl
      exact he q stays rfl
    exact if_neg hp
  | did p' o r stays =>
    have hp : p' ≠ p := by
      rintro rfl
      exact he' o r stays rfl
    exact if_neg hp
  | crashed p' => rfl
  | ticked t => rfl

end course

/-- The request process `p` was last started with. -/
def request : List M.Event → Pid → Option M.Req
  | [], _ => none
  | e :: h, p =>
    match e.act with
    | .started p' q _ => if p' = p then some q else request h p
    | _ => request h p

section request

variable {h : List M.Event} {e : M.Event} {p : Pid}

theorem request_started {q : M.Req} {stays : Bool} (he : e.act = .started p q stays) :
    request (e :: h) p = some q := by
  rcases e with ⟨w, act, w'⟩
  subst he
  exact if_pos rfl

theorem request_other (he : ∀ q stays, e.act ≠ .started p q stays) :
    request (e :: h) p = request h p := by
  rcases e with ⟨w, act, w'⟩
  cases act with
  | started p' q stays =>
    have hp : p' ≠ p := by
      rintro rfl
      exact he q stays rfl
    exact if_neg hp
  | did p' o r stays => rfl
  | crashed p' => rfl
  | ticked t => rfl

end request

/-! ## Processes and their phases -/

/-- The process that acts, if one does. -/
def Act.pid? : M.Act → Option Pid
  | .started p .. | .did p .. | .crashed p => some p
  | .ticked _ => none

/-- How process `p` came to be in phase `g'` after the event `e`. -/
inductive Moved (T : Protocol S σ) (init : M.Req → σ) (h : List M.Event) (e : M.Event) (p : Pid)
    (g' : σ) : Prop where
  | kept (running : phase T init h p = some g') (other : e.act.pid? ≠ some p)
  | started (q : M.Req) (act : e.act = .started p q true) (phase : g' = init q)
  | did {o : S.Op} {r : S.Result o} {g : σ} (act : e.act = .did p o r true)
      (running : phase T init h p = some g) (allowed : T.allows g o) (phase : g' = T.next g o r)

section phases

variable {h : List M.Event} {w : M.World} {e : M.Event} {p : Pid} {g : σ}

theorem phase_of_other (hp : e.act.pid? ≠ some p) : phase T init (e :: h) p = phase T init h p := by
  rcases e with ⟨w, act, w'⟩
  cases act with
  | started p' q stays => simp [phase, show p' ≠ p from fun heq => hp (by rw [heq]; rfl)]
  | did p' o r stays => simp [phase, show p' ≠ p from fun heq => hp (by rw [heq]; rfl)]
  | crashed p' => simp [phase, show p' ≠ p from fun heq => hp (by rw [heq]; rfl)]
  | ticked t => rfl

theorem course_of_other (hp : e.act.pid? ≠ some p) : course (e :: h) p = course h p := by
  refine course_other (fun q stays he => ?_) fun o r stays he => ?_
  · rw [he] at hp
    exact hp rfl
  · rw [he] at hp
    exact hp rfl

/-- **Where a phase comes from.** -/
theorem Legal.moved (hl : Legal T init h w e) (hg : phase T init (e :: h) p = some g) :
    Moved T init h e p g := by
  by_cases hp : e.act.pid? = some p
  swap
  · exact .kept (phase_of_other hp ▸ hg) hp
  cases hl with
  | started q stays idle =>
    cases hp
    cases stays with
    | true => exact .started q rfl (by simpa [phase] using hg.symm)
    | false => simp [phase] at hg
  | @did p' o g₀ ch stays running allowed =>
    cases hp
    cases stays with
    | true => exact .did rfl running allowed (by simpa [phase, running] using hg.symm)
    | false => simp [phase] at hg
  | crashed running =>
    cases hp
    simp [phase] at hg
  | ticked t => cases hp

theorem course_subset : course h p ⊆ h := by
  induction h with
  | nil => exact List.Subset.refl _
  | cons e h ih =>
    have hcons : course h p ⊆ e :: h := fun _ he => List.mem_cons_of_mem e (ih he)
    rcases e with ⟨w, act, w'⟩
    cases act with
    | started p' q stays =>
      by_cases hp : p' = p
      · have hnil : course (⟨w, .started p' q stays, w'⟩ :: h) p = [] := if_pos hp
        rw [hnil]
        exact List.nil_subset _
      · have hskip : course (⟨w, .started p' q stays, w'⟩ :: h) p = course h p := if_neg hp
        rw [hskip]
        exact hcons
    | did p' o r stays =>
      by_cases hp : p' = p
      · have hdid : course (⟨w, .did p' o r stays, w'⟩ :: h) p = _ :: course h p := if_pos hp
        rw [hdid]
        exact List.cons_subset_cons _ ih
      · have hskip : course (⟨w, .did p' o r stays, w'⟩ :: h) p = course h p := if_neg hp
        rw [hskip]
        exact hcons
    | crashed p' => exact hcons
    | ticked t => exact hcons

/-- A process that is running is not started anew. -/
theorem Legal.not_started (hl : Legal T init h w e) (hg : phase T init h p = some g) (q : M.Req)
    (stays : Bool) : e.act ≠ .started p q stays := by
  intro act
  cases hl with
  | started q' stays' idle =>
    cases act
    rw [hg] at idle
    cases idle
  | _ => cases act

/-- While a process runs, its course only grows. -/
theorem Legal.course_grows (hl : Legal T init h w e) (hg : phase T init h p = some g) :
    course h p ⊆ course (e :: h) p := by
  by_cases hdid : ∃ o r stays, e.act = .did p o r stays
  · obtain ⟨o, r, stays, act⟩ := hdid
    rw [course_did act]
    exact List.subset_cons_self e _
  · have hnot : ∀ o r stays, e.act ≠ .did p o r stays := fun o r stays act =>
      hdid ⟨o, r, stays, act⟩
    rw [course_other (hl.not_started hg) hnot]
    exact List.Subset.refl _

/-- The processes a history knows of. -/
def pids (h : List M.Event) : List Pid :=
  h.filterMap fun e =>
    match e.act with
    | .started p .. => some p
    | _ => none

theorem mem_pids (hg : phase T init h p = some g) : p ∈ pids h := by
  induction h generalizing g with
  | nil => cases hg
  | cons e h ih =>
    rcases e with ⟨w, act, w'⟩
    cases act with
    | started p' q stays =>
      by_cases hp : p' = p
      · simp [pids, hp]
      · rw [phase_of_other (by simpa [Act.pid?] using hp)] at hg
        exact List.mem_cons_of_mem _ (ih hg)
    | did p' o r stays =>
      by_cases hp : p' = p
      · subst hp
        cases hg' : phase T init h p' with
        | none => simp [phase, hg'] at hg
        | some g' => exact ih hg'
      · rw [phase_of_other (by simpa [Act.pid?] using hp)] at hg
        exact ih hg
    | crashed p' =>
      by_cases hp : p' = p
      · simp [phase, hp] at hg
      · rw [phase_of_other (by simpa [Act.pid?] using hp)] at hg
        exact ih hg
    | ticked t => exact ih hg

instance decidableForallRunning {Q : Pid → σ → Prop} [∀ p g, Decidable (Q p g)] :
    Decidable (∀ p g, phase T init h p = some g → Q p g) :=
  decidable_of_iff (∀ p ∈ pids h, ∀ g ∈ phase T init h p, Q p g)
    ⟨fun hQ p g hg => hQ p (mem_pids hg) g hg, fun hQ p _ g hg => hQ p g hg⟩

end phases

section run

variable {Init : M.World → Prop} {K : List M.Event → M.Event → Prop}

theorem Reaches.conforms (hprog : ∀ q, (M.program q).wp T (fun _ _ => True) (init q))
    {c : M.Config} (h : Reaches M Init K c) : Conforms T init c := by
  induction h with
  | init _ => intro p; simp [Config.initial]
  | step _ hs _ ih => exact (ih.step hprog hs).1

/-- **Invariants of runs.**  What holds at the start and is kept by every legal event that meets
the side condition holds in every reachable state. -/
theorem Reaches.induct (hprog : ∀ q, (M.program q).wp T (fun _ _ => True) (init q))
    {P : List M.Event → M.World → Prop} (hinit : ∀ w, Init w → P [] w)
    (hstep : ∀ h w e, P h w → Legal T init h w e → K h e → P (e :: h) e.after)
    {c : M.Config} (h : Reaches M Init K c) : P c.hist c.world := by
  induction h with
  | init hw => exact hinit _ hw
  | step hr hs hK ih =>
    obtain ⟨-, e, he, hafter, hlegal⟩ := (hr.conforms hprog).step hprog hs
    rw [he, ← hafter]
    exact hstep _ _ _ ih hlegal (hK e he)

/-- Invariants of runs whose processes keep to two protocols at once. -/
theorem Reaches.induct₂ {τ : Type} {U : Protocol S τ} {init' : M.Req → τ}
    (hprog : ∀ q, (M.program q).wp T (fun _ _ => True) (init q))
    (hprog' : ∀ q, (M.program q).wp U (fun _ _ => True) (init' q))
    {P : List M.Event → M.World → Prop} (hinit : ∀ w, Init w → P [] w)
    (hstep : ∀ h w e, P h w → Legal T init h w e → Legal U init' h w e → K h e →
      P (e :: h) e.after)
    {c : M.Config} (h : Reaches M Init K c) : P c.hist c.world := by
  induction h with
  | init hw => exact hinit _ hw
  | step hr hs hK ih =>
    obtain ⟨-, e, he, hafter, hlegal⟩ := (hr.conforms hprog).step hprog hs
    obtain ⟨-, e', he', -, hlegal'⟩ := (hr.conforms hprog').step hprog' hs
    obtain rfl : e = e' := List.head_eq_of_cons_eq (he.symm.trans he')
    rw [he, ← hafter]
    exact hstep _ _ _ ih hlegal hlegal' (hK e he)

/-- **Safety of runs.**  What every legal event is, given an invariant, every event of a reachable
history was. -/
theorem Reaches.historically (hprog : ∀ q, (M.program q).wp T (fun _ _ => True) (init q))
    {P : List M.Event → M.World → Prop} {G : List M.Event → M.Event → Prop}
    (hinit : ∀ w, Init w → P [] w)
    (hstep : ∀ h w e, P h w → Legal T init h w e → K h e → P (e :: h) e.after ∧ G h e)
    {c : M.Config} (h : Reaches M Init K c) : Historically G c.hist :=
  (h.induct hprog (P := fun h w => P h w ∧ Historically G h) (fun w hw => ⟨hinit w hw, trivial⟩)
    fun h w e hP hl hK =>
      have hnext := hstep h w e hP.1 hl hK
      ⟨hnext.1, hnext.2, hP.2⟩).2

/-- A weaker side condition is met by more runs. -/
theorem Reaches.mono {K' : List M.Event → M.Event → Prop} (hK : ∀ h e, K h e → K' h e)
    {c : M.Config} (h : Reaches M Init K c) : Reaches M Init K' c := by
  induction h with
  | init hw => exact .init hw
  | step _ hs hKe ih => exact .step ih hs fun e he => hK _ _ (hKe e he)

/-- A computed run is a run. -/
theorem Reaches.run [∀ h e, Decidable (K h e)] {c c' : M.Config} {ms : List M.Move}
    (h : Reaches M Init K c) (hr : c.run K ms = some c') : Reaches M Init K c' := by
  induction ms generalizing c with
  | nil => cases hr; exact h
  | cons m ms ih =>
    simp only [Config.run] at hr
    split at hr
    · cases hr
    · next c₁ hs =>
      split at hr
      · cases hr
      · next e l he =>
        split at hr
        · next hK =>
          refine ih (.step h hs fun e' he' => ?_) hr
          rw [he] at he'
          cases he'
          exact hK
        · cases hr

end run

end Machine

end Effect
