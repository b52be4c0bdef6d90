import Observatory.Effect.Machine

/-!
# A layer in front of a machine

A layer takes requests of its own, and its programs perform operations of the machine behind it
beside its own ones (`Sig.plus`).  A program of the layer waits, performing operations of its own
only, until its first operation of the machine commits it to a request that its phase grants
(`Waits`); from there on it does what the program of that request does (`Acts`).  Then the machine
behind can follow every run of the layered one (`Reaches.follow`): its world is the same, and
whatever was started there had been granted.
-/

namespace Effect

namespace Sig

/-- The operations of `S`, and others beside them. -/
abbrev plus (S : Sig) (B : Type) (A : B → Type) : Sig := ⟨S.Op ⊕ B, Sum.elim S.Ans A, S.Err⟩

end Sig

variable {S : Sig} {B : Type} {A : B → Type} {ε α σ : Type}

namespace Prog

/-- A program that performs no others. -/
def lift : Prog S ε α → Prog (S.plus B A) ε α
  | .ret a => .ret a
  | .raise x => .raise x
  | .op o k => .op (.inl o) fun r => (k r).lift

theorem bind_bind {β γ : Type} {p : Prog S ε α} {f : α → Prog S ε β} {f' : β → Prog S ε γ} :
    (p.bind f).bind f' = p.bind fun a => (f a).bind f' := by
  induction p with
  | ret a => rfl
  | raise x => rfl
  | op o k ih => exact congrArg (Prog.op o) (funext ih)

end Prog

/-- A layer in front of `M`, with operations `B` of its own.  They read the world of `M`, and change
only what belongs to the layer. -/
structure Front (M : Machine S ε) (B : Type) (A : B → Type) where
  State : Type
  Req : Type
  Choice : Type
  Tick : Type
  program : Req → Prog (S.plus B A) ε Unit
  perform : M.World × State → (b : B) → Choice → State × Except S.Err (A b)
  tick : State → Tick → State

namespace Front

open Machine

variable {M : Machine S ε}

/-- The layer and the machine behind it. -/
def machine (F : Front M B A) : Machine (S.plus B A) ε where
  World := M.World × F.State
  Req := F.Req
  Choice := M.Choice × F.Choice
  Tick := M.Tick ⊕ F.Tick
  program := F.program
  perform w p
    | .inl o, ch => (((M.perform w.1 p o ch.1).1, w.2), (M.perform w.1 p o ch.1).2)
    | .inr b, ch => ((w.1, (F.perform w b ch.2).1), (F.perform w b ch.2).2)
  leave w p := (M.leave w.1 p, w.2)
  tick w
    | .inl t => (M.tick w.1 t, w.2)
    | .inr t => (w.1, F.tick w.2 t)

/-! ## What the programs of a layer do -/

/-- The program can end without a trace. -/
def Quiet (M : Machine S ε) : Prog S ε Unit → Prop
  | .ret _ => True
  | .raise _ => True
  | .op o k => ∃ r, (∀ w p, ∃ ch, M.perform w p o ch = (w, r)) ∧ Quiet M (k r)

/-- The program of the layer does what is left of `a`, and may leave out how it ends. -/
def Acts (M : Machine S ε) (T : Protocol (S.plus B A) σ) :
    σ → Prog (S.plus B A) ε Unit → Prog S ε Unit → Prop
  | _, .ret _, a => Quiet M a
  | _, .raise _, a => Quiet M a
  | g, .op (.inl o) k, a => T.allows g (.inl o) ∧
      ∃ k', a = .op o k' ∧ ∀ r, Acts M T (T.next g (.inl o) r) (k r) (k' r)
  | g, .op (.inr b) k, a => T.allows g (.inr b) ∧
      a.isFinal = false ∧ ∀ r, Acts M T (T.next g (.inr b) r) (k r) a

/-- The program of the layer goes as far as its first operation of the machine, which is that of a
request its phase grants. -/
def Waits (M : Machine S ε) (T : Protocol (S.plus B A) σ) (grants : σ → M.Req → Prop) :
    σ → Prog (S.plus B A) ε Unit → Prop
  | _, .ret _ => True
  | _, .raise _ => True
  | g, .op (.inl o) k => ∃ q, grants g q ∧ Acts M T g (.op (.inl o) k) (M.program q)
  | g, .op (.inr b) k => T.allows g (.inr b) ∧ ∀ r, Waits M T grants (T.next g (.inr b) r) (k r)

variable {F : Front M B A} {T : Protocol (S.plus B A) σ} {grants : σ → M.Req → Prop} {g : σ}
  {prog : Prog (S.plus B A) ε Unit} {a : Prog S ε Unit}

theorem Acts.wp (h : Acts M T g prog a) : prog.wp T (fun _ _ => True) g := by
  induction prog generalizing g a with
  | ret _ => trivial
  | raise x => trivial
  | op o k ih =>
    cases o with
    | inl o =>
      obtain ⟨hallowed, k', -, hk⟩ := h
      exact ⟨hallowed, fun r => ih r (hk r)⟩
    | inr b => exact ⟨h.1, fun r => ih r (h.2.2 r)⟩

theorem Waits.wp (h : Waits M T grants g prog) : prog.wp T (fun _ _ => True) g := by
  induction prog generalizing g with
  | ret _ => trivial
  | raise x => trivial
  | op o k ih =>
    cases o with
    | inl o =>
      obtain ⟨q, -, hacts⟩ := h
      exact hacts.wp
    | inr b => exact ⟨h.1, fun r => ih r (h.2 r)⟩

theorem Acts.quiet (h : Acts M T g prog a) (hfinal : prog.isFinal = true) : Quiet M a := by
  cases prog with
  | ret _ => exact h
  | raise x => exact h
  | op o k => cases hfinal

theorem Acts.running (h : Acts M T g prog a) (hop : prog.isFinal = false) : a.isFinal = false := by
  cases prog with
  | ret _ => cases hop
  | raise x => cases hop
  | op o k =>
    cases o with
    | inl o =>
      obtain ⟨-, k', rfl, -⟩ := h
      rfl
    | inr b => exact h.2.1

theorem Acts.swallow (h : Acts M T g prog a) : Acts M T g prog.swallow a := by
  induction prog generalizing g a with
  | ret _ => exact h
  | raise x => exact h
  | op o k ih =>
    cases o with
    | inl o =>
      obtain ⟨hallowed, k', rfl, hk⟩ := h
      exact ⟨hallowed, k', rfl, fun r => ih r (hk r)⟩
    | inr b => exact ⟨h.1, h.2.1, fun r => ih r (h.2.2 r)⟩

theorem Waits.swallow (h : Waits M T grants g prog) : Waits M T grants g prog.swallow := by
  induction prog generalizing g with
  | ret _ => trivial
  | raise x => trivial
  | op o k ih =>
    cases o with
    | inl o =>
      obtain ⟨q, hq, hacts⟩ := h
      exact ⟨q, hq, hacts.swallow⟩
    | inr b => exact ⟨h.1, fun r => ih r (h.2 r)⟩

/-! ### Rules -/

/-- A lifted program does what it does. -/
theorem acts_lift (hT : ∀ g o, T.allows g (.inl o)) : Acts M T g a.lift a := by
  induction a generalizing g with
  | ret _ => trivial
  | raise x => trivial
  | op o k ih => exact ⟨hT g o, k, rfl, fun r => ih r⟩

theorem waits_lift (hT : ∀ g o, T.allows g (.inl o)) {q : M.Req} (hq : grants g q) :
    Waits M T grants g (M.program q).lift := by
  generalize ha : M.program q = a
  cases a with
  | ret _ => trivial
  | raise x => trivial
  | op o k =>
    refine ⟨q, hq, ?_⟩
    rw [ha]
    exact acts_lift (a := .op o k) hT

/-- The operations of the layer that are allowed in every phase. -/
def Aside (T : Protocol (S.plus B A) σ) : S.Op ⊕ B → Prop
  | .inl _ => False
  | .inr b => ∀ g, T.allows g (.inr b)

/-- What the layer does aside, once the machine has nothing more to do than to end. -/
theorem acts_of_aside (hprog : prog.Only (Aside T)) (ha : Quiet M a) (hop : a.isFinal = false) :
    Acts M T g prog a := by
  induction prog generalizing g with
  | ret _ => exact ha
  | raise x => exact ha
  | op o k ih =>
    cases o with
    | inl o => exact hprog.1.elim
    | inr b => exact ⟨hprog.1 g, hop, fun r => ih r (hprog.2 r)⟩

/-- What the layer does aside asks for nothing. -/
theorem waits_of_aside (hprog : prog.Only (Aside T)) : Waits M T grants g prog := by
  induction prog generalizing g with
  | ret _ => trivial
  | raise x => trivial
  | op o k ih =>
    cases o with
    | inl o => exact hprog.1.elim
    | inr b => exact ⟨hprog.1 g, fun r => ih r (hprog.2 r)⟩

/-- The protocol without the operations of the machine. -/
def own (T : Protocol (S.plus B A) σ) : Protocol (S.plus B A) σ where
  allows
    | _, .inl _ => False
    | g, .inr b => T.allows g (.inr b)
  next := T.next

/-- What must hold for a program to wait after another one. -/
def waitsPost (M : Machine S ε) (T : Protocol (S.plus B A) σ) (grants : σ → M.Req → Prop)
    (f : α → Prog (S.plus B A) ε Unit) : Except ε α → σ → Prop
  | .ok a, g => Waits M T grants g (f a)
  | .error _, _ => True

/-- **Waiting goes on** after operations of the layer. -/
theorem waits_bind {p : Prog (S.plus B A) ε α} {f : α → Prog (S.plus B A) ε Unit}
    (h : p.wp (own T) (waitsPost M T grants f) g) : Waits M T grants g (p.bind f) := by
  induction p generalizing g with
  | ret a => exact h
  | raise x => trivial
  | op o k ih =>
    cases o with
    | inl o => exact h.1.elim
    | inr b => exact ⟨h.1, fun r => ih r (h.2 r)⟩

/-! ## The machine behind follows -/

/-- Where a process of the layered machine is, and the one behind it. -/
inductive Follows (T : Protocol (S.plus B A) σ) (init : F.Req → σ) (grants : σ → M.Req → Prop)
    (h : List F.machine.Event) (p : Pid) :
    Option (Prog (S.plus B A) ε Unit) → Option (Prog S ε Unit) → Prop
  | idle : Follows T init grants h p none none
  | waiting {g : σ} {prog : Prog (S.plus B A) ε Unit}
    (running : phase (M := F.machine) T init h p = some g) (waits : Waits M T grants g prog) :
    Follows T init grants h p (some prog) none
  | acting {g : σ} {prog : Prog (S.plus B A) ε Unit} {a : Prog S ε Unit}
    (running : phase (M := F.machine) T init h p = some g) (acts : Acts M T g prog a)
    (ongoing : a.isFinal = false) : Follows T init grants h p (some prog) (some a)

/-- Everything that was started behind had been granted. -/
def Granted (T : Protocol (S.plus B A) σ) (init : F.Req → σ) (grants : σ → M.Req → Prop)
    (h : List F.machine.Event) (h' : List M.Event) : Prop :=
  ∀ e ∈ h', ∀ p q stays, e.act = .started p q stays →
    ∃ before, before <:+ h ∧ ∃ g, phase (M := F.machine) T init before p = some g ∧ grants g q

/-- The machine behind has followed. -/
structure Sim (T : Protocol (S.plus B A) σ) (init : F.Req → σ) (grants : σ → M.Req → Prop)
    (c : F.machine.Config) (c' : M.Config) : Prop where
  world : c'.world = c.world.1
  procs : ∀ p, Follows T init grants c.hist p (c.procs p) (c'.procs p)
  granted : Granted T init grants c.hist c'.hist

section follow

variable {init : F.Req → σ} {Init : M.World → Prop} {h : List F.machine.Event}
  {h' : List M.Event} {e : F.machine.Event} {p : Pid} {c c₁ : F.machine.Config} {c' c₁' : M.Config}

theorem Follows.other {x : Option (Prog (S.plus B A) ε Unit)} {y : Option (Prog S ε Unit)}
    (hf : Follows T init grants h p x y) (he : e.act.pid? ≠ some p) :
    Follows T init grants (e :: h) p x y := by
  have hphase : phase (M := F.machine) T init (e :: h) p = phase T init h p := phase_of_other he
  cases hf with
  | idle => exact .idle
  | waiting running waits => exact .waiting (hphase.trans running) waits
  | acting running acts ongoing => exact .acting (hphase.trans running) acts ongoing

theorem Granted.grows (hg : Granted T init grants h h') : Granted T init grants (e :: h) h' := by
  intro e' he' p q stays act
  obtain ⟨before, hbefore, hgrants⟩ := hg e' he' p q stays act
  exact ⟨before, hbefore.trans (List.suffix_cons e h), hgrants⟩

/-- Nothing has been started since. -/
def Plain (h₁' h' : List M.Event) : Prop :=
  ∀ e ∈ h₁', e ∈ h' ∨ ∀ p q stays, e.act ≠ .started p q stays

theorem Plain.refl : Plain h' h' := fun _ he => .inl he

theorem Plain.did {h₁' : List M.Event} {w w' : M.World} {o : S.Op} {r : S.Result o} {stays : Bool}
    (h : Plain h₁' h') : Plain (⟨w, .did p o r stays, w'⟩ :: h₁') h' := by
  intro e he
  rcases List.mem_cons.1 he with rfl | he
  · exact .inr fun p q stays act => by cases act
  · exact h e he

theorem Plain.trans {h₁' h₂' : List M.Event} (h₂ : Plain h₂' h₁') (h₁ : Plain h₁' h') :
    Plain h₂' h' := by
  intro e he
  rcases h₂ e he with hmid | hnot
  · exact h₁ e hmid
  · exact .inr hnot

/-- What starts nothing needs no grant. -/
theorem Granted.plain (hg : Granted T init grants h h') {h₁' : List M.Event}
    (hplain : Plain h₁' h') : Granted T init grants h h₁' := by
  intro e' he' p q stays act
  rcases hplain e' he' with hold | hnot
  · exact hg e' hold p q stays act
  · exact absurd act (hnot p q stays)

/-- One process has moved on. -/
theorem Sim.moved {x : Option (Prog (S.plus B A) ε Unit)} {y : Option (Prog S ε Unit)}
    (hs : Sim T init grants c c') (hhist : c₁.hist = e :: c.hist)
    (hother : ∀ p', p' ≠ p → e.act.pid? ≠ some p')
    (hprocs : c₁.procs = Function.update c.procs p x)
    (hprocs' : c₁'.procs = Function.update c'.procs p y)
    (hf : Follows T init grants (e :: c.hist) p x y) (hw : c₁'.world = c₁.world.1)
    (hplain : Plain c₁'.hist c'.hist) : Sim T init grants c₁ c₁' where
  world := hw
  procs p' := by
    rw [hhist, hprocs, hprocs']
    by_cases hp : p' = p
    · subst hp
      rw [Function.update_self, Function.update_self]
      exact hf
    · rw [Function.update_of_ne hp, Function.update_of_ne hp]
      exact (hs.procs p').other (hother p' hp)
  granted := by
    rw [hhist]
    exact hs.granted.grows.plain hplain

/-! ### What the machine behind does -/

section advance

variable {N : Machine S ε} {d : N.Config} {left : Prog S ε Unit} {w : N.World} {f : Bool → N.Act}

theorem advance_ongoing (h : left.isFinal = false) : d.advance p left w f =
    ⟨w, Function.update d.procs p (some left), ⟨d.world, f true, w⟩ :: d.hist⟩ := by
  simp only [Config.advance, settle, h, Bool.not_false, ↓reduceIte]

theorem advance_ended (h : left.isFinal = true) : d.advance p left w f =
    ⟨N.leave w p, Function.update d.procs p none,
      ⟨d.world, f false, N.leave w p⟩ :: d.hist⟩ := by
  simp only [Config.advance, settle, h, Bool.not_true, Bool.false_eq_true, ↓reduceIte]

end advance

theorem reaches_performed (hr : Reaches M Init anyEvent c') {o : S.Op}
    {k : S.Result o → Prog S ε Unit} (hp : c'.procs p = some (.op o k)) (ch : M.Choice) :
    Reaches M Init anyEvent (c'.advance p (k (M.perform c'.world p o ch).2)
      (M.perform c'.world p o ch).1 (.did p o (M.perform c'.world p o ch).2)) := by
  have hstep : c'.step (.perform p ch) = some (c'.advance p (k (M.perform c'.world p o ch).2)
      (M.perform c'.world p o ch).1 (.did p o (M.perform c'.world p o ch).2)) := by
    simp only [Config.step, hp]
  exact .step hr hstep fun _ _ => trivial

/-- A process that can end without a trace does. -/
theorem reaches_quiet (hr : Reaches M Init anyEvent c') (ha : Quiet M a)
    (hp : c'.procs p = some a) (hop : a.isFinal = false) :
    ∃ c₁', Reaches M Init anyEvent c₁' ∧ c₁'.world = M.leave c'.world p ∧
      c₁'.procs = Function.update c'.procs p none ∧ Plain c₁'.hist c'.hist := by
  induction a generalizing c' with
  | ret _ => cases hop
  | raise x => cases hop
  | op o k ih =>
    obtain ⟨r, hperform, hquiet⟩ := ha
    obtain ⟨ch, hch⟩ := hperform c'.world p
    have hnext := reaches_performed hr hp ch
    rw [hch] at hnext
    cases hfinal : (k r).isFinal with
    | true =>
      rw [advance_ended hfinal] at hnext
      exact ⟨_, hnext, rfl, rfl, Plain.refl.did⟩
    | false =>
      rw [advance_ongoing hfinal] at hnext
      obtain ⟨c₁', hr₁, hw₁, hprocs₁, hplain₁⟩ :=
        ih r hnext hquiet (Function.update_self ..) hfinal
      exact ⟨c₁', hr₁, hw₁, hprocs₁.trans (Function.update_idem ..),
        hplain₁.trans Plain.refl.did⟩

/-! ### Each move of the layered machine -/

/-- What an idle process leaves behind is nothing. -/
def LeavesNothing (M : Machine S ε) (Init : M.World → Prop) : Prop :=
  ∀ c' p, Reaches M Init anyEvent c' → c'.procs p = none → M.leave c'.world p = c'.world

/-- One process has done something. -/
theorem Sim.did {x : Option (Prog (S.plus B A) ε Unit)} {y : Option (Prog S ε Unit)}
    {o : S.Op ⊕ B} {r : (S.plus B A).Result o} {stays : Bool} {w : M.World × F.State}
    (hs : Sim T init grants c c')
    (hc₁ : c₁ = ⟨w, Function.update c.procs p x, ⟨c.world, .did p o r stays, w⟩ :: c.hist⟩)
    (hw : c₁'.world = w.1) (hprocs' : c₁'.procs = Function.update c'.procs p y)
    (hplain : Plain c₁'.hist c'.hist)
    (hf : Follows T init grants (⟨c.world, .did p o r stays, w⟩ :: c.hist) p x y) :
    Sim T init grants c₁ c₁' := by
  subst hc₁
  refine hs.moved rfl (fun p' hp heq => ?_) rfl hprocs' hf hw hplain
  exact hp (Option.some.inj heq).symm

theorem running_next {o : S.Op ⊕ B} {r : (S.plus B A).Result o} {w : M.World × F.State}
    (running : phase (M := F.machine) T init h p = some g) :
    phase (M := F.machine) T init (⟨c.world, .did p o r true, w⟩ :: h) p =
      some (T.next g o r) := by
  simp only [phase, running, ↓reduceIte, Option.map_some]

/-- An operation of the machine, of a process that is acting. -/
theorem Sim.act (hr : Reaches M Init anyEvent c') (hs : Sim T init grants c c') {o : S.Op}
    {k : S.Result o → Prog (S.plus B A) ε Unit} {k' : S.Result o → Prog S ε Unit}
    (hp' : c'.procs p = some (.op o k'))
    (running : phase (M := F.machine) T init c.hist p = some g)
    (hk : ∀ r, Acts M T (T.next g (.inl o) r) (k r) (k' r)) (ch : M.Choice) :
    ∃ c₁', Reaches M Init anyEvent c₁' ∧ Sim T init grants
      (c.advance p (k (M.perform c.world.1 p o ch).2)
        ((M.perform c.world.1 p o ch).1, c.world.2)
        (.did p (.inl o) (M.perform c.world.1 p o ch).2)) c₁' := by
  have hnext := reaches_performed hr hp' ch
  rw [hs.world] at hnext
  generalize M.perform c.world.1 p o ch = wr at hnext ⊢
  obtain ⟨w, r⟩ := wr
  cases hfinal : (k r).isFinal with
  | false =>
    have hongoing := (hk r).running hfinal
    rw [advance_ongoing hongoing] at hnext
    exact ⟨_, hnext, hs.did (advance_ongoing hfinal) rfl rfl Plain.refl.did
      (.acting (running_next running) (hk r) hongoing)⟩
  | true =>
    -- the process of the layer has ended, and the other one ends as well
    have hquiet := (hk r).quiet hfinal
    cases hfinal' : (k' r).isFinal with
    | true =>
      rw [advance_ended hfinal'] at hnext
      exact ⟨_, hnext, hs.did (advance_ended hfinal) rfl rfl Plain.refl.did .idle⟩
    | false =>
      rw [advance_ongoing hfinal'] at hnext
      obtain ⟨c₁', hr₁, hw₁, hprocs₁, hplain₁⟩ :=
        reaches_quiet hnext hquiet (Function.update_self ..) hfinal'
      exact ⟨c₁', hr₁, hs.did (advance_ended hfinal) hw₁ (hprocs₁.trans (Function.update_idem ..))
        (hplain₁.trans Plain.refl.did) .idle⟩

/-- A process that was waiting commits itself: the machine behind starts what was granted. -/
theorem Sim.commit (hr : Reaches M Init anyEvent c') (hs : Sim T init grants c c')
    (hp' : c'.procs p = none) (running : phase (M := F.machine) T init c.hist p = some g)
    {q : M.Req} (hq : grants g q) (hprog : c.procs p = some prog)
    (hacts : Acts M T g prog (M.program q)) (hongoing : (M.program q).isFinal = false) :
    ∃ c₁', Reaches M Init anyEvent c₁' ∧ Sim T init grants c c₁' ∧
      c₁'.procs p = some (M.program q) := by
  have hstep : c'.step (.start p q) =
      some (c'.advance p (M.program q) c'.world (.started p q)) := by
    simp only [Config.step, hp']
  rw [advance_ongoing hongoing] at hstep
  refine ⟨_, .step hr hstep fun _ _ => trivial, ⟨hs.world, fun p' => ?_, ?_⟩,
    Function.update_self ..⟩
  · by_cases hp : p' = p
    · subst hp
      rw [hprog]
      simp only [Function.update_self]
      exact .acting running hacts hongoing
    · simp only [Function.update_of_ne hp]
      exact hs.procs p'
  · intro e he p' q' stays act
    rcases List.mem_cons.1 he with rfl | hold
    · cases act
      exact ⟨c.hist, List.suffix_refl _, g, running, hq⟩
    · exact hs.granted e hold p' q' stays act

/-- An operation of the layer. -/
theorem Sim.aside (hleave : LeavesNothing M Init) (hr : Reaches M Init anyEvent c')
    (hs : Sim T init grants c c') {b : B}
    {k : Except S.Err (A b) → Prog (S.plus B A) ε Unit} (hp : c.procs p = some (.op (.inr b) k))
    (v : F.State) (r : Except S.Err (A b)) :
    ∃ c₁', Reaches M Init anyEvent c₁' ∧ Sim T init grants
      (c.advance p (k r) (c.world.1, v) (.did p (.inr b) r)) c₁' := by
  have hfollows := hs.procs p
  rw [hp] at hfollows
  generalize hy : c'.procs p = y at hfollows
  have hsame : c'.procs = Function.update c'.procs p y := by rw [← hy, Function.update_eq_self]
  cases hfollows with
  | @waiting g _ running waits =>
    cases hfinal : (k r).isFinal with
    | false =>
      exact ⟨c', hr, hs.did (advance_ongoing hfinal) hs.world hsame .refl
        (.waiting (running_next running) (waits.2 r))⟩
    | true =>
      refine ⟨c', hr, hs.did (advance_ended hfinal) ?_ hsame .refl .idle⟩
      exact (hleave c' p hr hy).symm.trans (congrArg (M.leave · p) hs.world)
  | @acting g _ a running acts ongoing =>
    cases hfinal : (k r).isFinal with
    | false =>
      exact ⟨c', hr, hs.did (advance_ongoing hfinal) hs.world hsame .refl
        (.acting (running_next running) (acts.2.2 r) ongoing)⟩
    | true =>
      obtain ⟨c₁', hr₁, hw₁, hprocs₁, hplain₁⟩ :=
        reaches_quiet hr ((acts.2.2 r).quiet hfinal) hy ongoing
      exact ⟨c₁', hr₁, hs.did (advance_ended hfinal) (hw₁.trans (congrArg (M.leave · p) hs.world))
        hprocs₁ hplain₁ .idle⟩

/-- A request to the layer. -/
theorem Sim.start (hleave : LeavesNothing M Init) (hr : Reaches M Init anyEvent c')
    (hs : Sim T init grants c c') (hp : c.procs p = none) {q : F.Req}
    (hq : Waits M T grants (init q) (F.program q)) :
    Sim T init grants (c.advance p (F.program q) c.world (.started p q)) c' := by
  have hfollows := hs.procs p
  rw [hp] at hfollows
  generalize hy : c'.procs p = y at hfollows
  cases hfollows
  have hsame : c'.procs = Function.update c'.procs p none := by rw [← hy, Function.update_eq_self]
  have hother : ∀ {stays : Bool} {w : M.World × F.State} {p'}, p' ≠ p →
      (⟨c.world, .started p q stays, w⟩ : F.machine.Event).act.pid? ≠ some p' :=
    fun hp heq => hp (Option.some.inj heq).symm
  cases hfinal : (F.program q).isFinal with
  | false =>
    have hc₁ := advance_ongoing (d := c) (p := p) (w := c.world) (f := .started p q) hfinal
    refine hs.moved (congrArg Config.hist hc₁) (fun p' => hother) (congrArg Config.procs hc₁)
      hsame (.waiting ?_ hq) (hs.world.trans (congrArg (·.world.1) hc₁).symm) .refl
    simp only [phase, ↓reduceIte]
  | true =>
    have hc₁ := advance_ended (d := c) (p := p) (w := c.world) (f := .started p q) hfinal
    refine hs.moved (congrArg Config.hist hc₁) (fun p' => hother) (congrArg Config.procs hc₁)
      hsame .idle (.trans ?_ (congrArg (·.world.1) hc₁).symm) .refl
    exact (hleave c' p hr hy).symm.trans (congrArg (M.leave · p) hs.world)

/-- A process that ends all of a sudden. -/
theorem Sim.crash (hleave : LeavesNothing M Init) (hr : Reaches M Init anyEvent c')
    (hs : Sim T init grants c c') :
    ∃ c₁', Reaches M Init anyEvent c₁' ∧ Sim T init grants
      ⟨F.machine.leave c.world p, Function.update c.procs p none,
        ⟨c.world, .crashed p, F.machine.leave c.world p⟩ :: c.hist⟩ c₁' := by
  have hother : ∀ p', p' ≠ p → (⟨c.world, .crashed p, F.machine.leave c.world p⟩ :
      F.machine.Event).act.pid? ≠ some p' := fun p' hp heq => hp (Option.some.inj heq).symm
  have hworld : M.leave c'.world p = (F.machine.leave c.world p).1 :=
    congrArg (M.leave · p) hs.world
  have hfollows := hs.procs p
  generalize hy : c'.procs p = y at hfollows
  cases y with
  | none =>
    refine ⟨c', hr, hs.moved rfl hother rfl (y := none) ?_ .idle ?_ .refl⟩
    · rw [← hy, Function.update_eq_self]
    · exact (hleave c' p hr hy).symm.trans hworld
  | some a =>
    have hstep : c'.step (.crash p) = some ⟨M.leave c'.world p, Function.update c'.procs p none,
        ⟨c'.world, .crashed p, M.leave c'.world p⟩ :: c'.hist⟩ := by
      simp only [Config.step, hy]
    refine ⟨_, .step hr hstep fun _ _ => trivial, hs.moved rfl hother rfl rfl .idle hworld ?_⟩
    intro e he
    rcases List.mem_cons.1 he with rfl | hold
    · exact .inr fun p q stays act => by cases act
    · exact .inl hold

theorem Sim.tick (hr : Reaches M Init anyEvent c') (hs : Sim T init grants c c')
    (t : M.Tick ⊕ F.Tick) :
    ∃ c₁', Reaches M Init anyEvent c₁' ∧ Sim T init grants
      ⟨F.machine.tick c.world t, c.procs,
        ⟨c.world, .ticked t, F.machine.tick c.world t⟩ :: c.hist⟩ c₁' := by
  have hprocs : ∀ p, Follows T init grants
      (⟨c.world, .ticked t, F.machine.tick c.world t⟩ :: c.hist) p (c.procs p) (c'.procs p) :=
    fun p => (hs.procs p).other fun heq => by cases heq
  cases t with
  | inl t =>
    refine ⟨_, .step (m := .tick t) hr rfl fun _ _ => trivial, ?_, hprocs, ?_⟩
    · exact congrArg (M.tick · t) hs.world
    · refine hs.granted.grows.plain fun e he => ?_
      rcases List.mem_cons.1 he with rfl | hold
      · exact .inr fun p q stays act => by cases act
      · exact .inl hold
  | inr t => exact ⟨c', hr, hs.world, hprocs, hs.granted.grows⟩

/-- **One move of the layered machine**, and what the machine behind does meanwhile. -/
theorem Sim.step (hprog : ∀ q, Waits M T grants (init q) (F.program q))
    (hleave : LeavesNothing M Init) (hr : Reaches M Init anyEvent c')
    (hs : Sim T init grants c c') {m : F.machine.Move} (hm : c.step m = some c₁) :
    ∃ c₁', Reaches M Init anyEvent c₁' ∧ Sim T init grants c₁ c₁' := by
  cases m with
  | start p q =>
    simp only [Config.step] at hm
    split at hm
    · next hidle =>
      cases hm
      exact ⟨c', hr, hs.start hleave hr hidle (hprog q)⟩
    · cases hm
  | perform p ch =>
    simp only [Config.step] at hm
    split at hm
    swap
    · cases hm
    next o k hrun =>
    cases hm
    cases o with
    | inr b => exact hs.aside hleave hr hrun _ _
    | inl o =>
      have hfollows := hs.procs p
      rw [hrun] at hfollows
      generalize hy : c'.procs p = y at hfollows
      cases hfollows with
      | acting running acts ongoing =>
        obtain ⟨-, k', rfl, hk⟩ := acts
        exact hs.act hr hy running hk ch.1
      | waiting running waits =>
        obtain ⟨q, hgrants, hacts⟩ := waits
        obtain ⟨-, k', hstarts, hk⟩ := id hacts
        have hongoing : (M.program q).isFinal = false := by rw [hstarts]; rfl
        obtain ⟨c₁', hr₁, hs₁, hy₁⟩ := hs.commit hr hy running hgrants hrun hacts hongoing
        rw [hstarts] at hy₁
        exact hs₁.act hr₁ hy₁ running hk ch.1
  | crash p =>
    simp only [Config.step] at hm
    split at hm
    · cases hm
      exact hs.crash hleave hr
    · cases hm
  | tick t =>
    cases hm
    exact hs.tick hr t

/-- **The machine behind can follow every run of the layered one.** -/
theorem reaches_follow (hprog : ∀ q, Waits M T grants (init q) (F.program q))
    (hleave : LeavesNothing M Init)
    (h : Reaches F.machine (fun w => Init w.1) anyEvent c) :
    ∃ c', Reaches M Init anyEvent c' ∧ Sim T init grants c c' := by
  induction h with
  | @init w hw =>
    refine ⟨.initial w.1, .init hw, rfl, fun p => .idle, ?_⟩
    intro e he
    cases he
  | step h hm hK ih =>
    obtain ⟨c', hr, hs⟩ := ih
    exact hs.step hprog hleave hr hm

end follow

end Front

end Effect
