import Observatory.Effect.Prog

/-!
# Protocols and weakest preconditions

A protocol is an automaton that watches the operations of one program: `allows g o` says that the
operation `o` may come next in phase `g`, and `next g o r` is the phase after `o` came back with
`r`.  `Prog.wp T p Q g` says that from phase `g` the program `p` performs only operations the
protocol allows, whatever they come back with, and ends with `Q`.  The rules follow the program's
syntax; `Prog.Exec.sound` reads a proved `wp` back as a statement about every trace.
-/

namespace Effect

/-- An automaton over the operations of one process. -/
structure Protocol (S : Sig) (σ : Type) where
  allows : σ → S.Op → Prop
  next : σ → (o : S.Op) → S.Result o → σ

namespace Prog

variable {S : Sig} {ε α β σ : Type} {T : Protocol S σ}

/-- From phase `g`, `p` keeps to the protocol and ends with `Q`. -/
def wp (T : Protocol S σ) : Prog S ε α → (Except ε α → σ → Prop) → σ → Prop
  | .ret a, Q, g => Q (.ok a) g
  | .raise x, Q, g => Q (.error x) g
  | .op o k, Q, g => T.allows g o ∧ ∀ r, (k r).wp T Q (T.next g o r)

@[simp] theorem wp_ret (a : α) (Q : Except ε α → σ → Prop) (g : σ) :
    wp T (.ret a) Q g = Q (.ok a) g := rfl

@[simp] theorem wp_raise (x : ε) (Q : Except ε α → σ → Prop) (g : σ) :
    wp T (.raise x) Q g = Q (.error x) g := rfl

theorem wp_mono {p : Prog S ε α} {Q R : Except ε α → σ → Prop} {g : σ}
    (hQR : ∀ r g, Q r g → R r g) (h : wp T p Q g) : wp T p R g := by
  induction p generalizing g with
  | ret a => exact hQR _ _ h
  | raise x => exact hQR _ _ h
  | op o k ih => exact ⟨h.1, fun r => ih r (h.2 r)⟩

/-- What a program must end with for `f` to go on from there. -/
def bindPost (T : Protocol S σ) (f : α → Prog S ε β) (Q : Except ε β → σ → Prop) :
    Except ε α → σ → Prop
  | .ok a, g => (f a).wp T Q g
  | .error x, g => Q (.error x) g

@[simp] theorem bindPost_ok (f : α → Prog S ε β) (Q : Except ε β → σ → Prop) (a : α) (g : σ) :
    bindPost T f Q (.ok a) g = (f a).wp T Q g := rfl

@[simp] theorem bindPost_error (f : α → Prog S ε β) (Q : Except ε β → σ → Prop) (x : ε) (g : σ) :
    bindPost T f Q (.error x) g = Q (.error x) g := rfl

/-- **Sequencing.** -/
theorem wp_bind {p : Prog S ε α} {f : α → Prog S ε β} {Q : Except ε β → σ → Prop} {g : σ} :
    wp T (p.bind f) Q g ↔ wp T p (bindPost T f Q) g := by
  induction p generalizing g with
  | ret a => rfl
  | raise x => rfl
  | op o k ih => exact and_congr_right fun _ => forall_congr' fun r => ih r

/-- **One operation**: it is allowed, and both its outcomes are provided for. -/
theorem wp_call {lift : S.Err → ε} {o : S.Op} {Q : Except ε (S.Ans o) → σ → Prop} {g : σ} :
    wp T (call lift o) Q g ↔
      T.allows g o ∧ (∀ a, Q (.ok a) (T.next g o (.ok a))) ∧
        ∀ x, Q (.error (lift x)) (T.next g o (.error x)) := by
  refine and_congr_right fun _ => ⟨fun h => ⟨fun a => h (.ok a), fun x => h (.error x)⟩, ?_⟩
  rintro ⟨hok, herr⟩ (x | a)
  · exact herr x
  · exact hok a

theorem wp_attempt {p : Prog S ε α} {Q : Except ε (Except ε α) → σ → Prop} {g : σ} :
    wp T p.attempt Q g ↔ wp T p (fun r g => Q (.ok r) g) g := by
  induction p generalizing g with
  | ret a => rfl
  | raise x => rfl
  | op o k ih => exact and_congr_right fun _ => forall_congr' fun r => ih r

@[simp] theorem wp_ofExcept (r : Except ε α) (Q : Except ε α → σ → Prop) (g : σ) :
    wp T (ofExcept r) Q g = Q r g := by
  cases r <;> rfl

/-- What the body of a handler must end with. -/
def catchPost (T : Protocol S σ) (h : ε → Prog S ε α) (Q : Except ε α → σ → Prop) :
    Except ε α → σ → Prop
  | .ok a, g => Q (.ok a) g
  | .error x, g => (h x).wp T Q g

@[simp] theorem catchPost_ok (h : ε → Prog S ε α) (Q : Except ε α → σ → Prop) (a : α) (g : σ) :
    catchPost T h Q (.ok a) g = Q (.ok a) g := rfl

@[simp] theorem catchPost_error (h : ε → Prog S ε α) (Q : Except ε α → σ → Prop) (x : ε) (g : σ) :
    catchPost T h Q (.error x) g = (h x).wp T Q g := rfl

/-- **Handling an exception.** -/
theorem wp_tryCatch {p : Prog S ε α} {h : ε → Prog S ε α} {Q : Except ε α → σ → Prop} {g : σ} :
    wp T (p.tryCatch h) Q g ↔ wp T p (catchPost T h Q) g := by
  induction p generalizing g with
  | ret a => rfl
  | raise x => rfl
  | op o k ih => exact and_congr_right fun _ => forall_congr' fun r => ih r

theorem wp_finally {p : Prog S ε α} {q : Prog S ε Unit} {Q : Except ε α → σ → Prop} {g : σ} :
    wp T (p.finally' q) Q g ↔
      wp T p (fun r g => wp T q (bindPost T (fun _ => ofExcept r) Q) g) g := by
  simp only [finally', wp_bind, wp_attempt, bindPost_ok]

theorem wp_swallow {p : Prog S ε α} {Q : Except ε Unit → σ → Prop} {g : σ} :
    wp T p.swallow Q g ↔ wp T p (fun _ g => Q (.ok ()) g) g := by
  simp only [swallow, wp_bind, wp_attempt, bindPost_ok, wp_ret]

/-- A postcondition of what returns, and one of what raises. -/
def Ends (P : α → σ → Prop) (E : σ → Prop) : Except ε α → σ → Prop
  | .ok a, g => P a g
  | .error _, g => E g

section ends

variable {P : α → σ → Prop} {R : β → σ → Prop} {E : σ → Prop} {g : σ}

theorem Ends.bind {p : Prog S ε α} {f : α → Prog S ε β} (hp : wp T p (Ends P E) g)
    (hf : ∀ a g', P a g' → wp T (f a) (Ends R E) g') : wp T (p.bind f) (Ends R E) g := by
  rw [wp_bind]
  refine wp_mono ?_ hp
  rintro (x | a) g' hpost
  · exact hpost
  · exact hf a g' hpost

/-- One operation whose failure is raised. -/
theorem Ends.call {lift : S.Err → ε} {o : S.Op} {f : S.Ans o → Prog S ε β} (ho : T.allows g o)
    (hf : ∀ a, wp T (f a) (Ends R E) (T.next g o (.ok a))) (hE : ∀ x, E (T.next g o (.error x))) :
    wp T ((Prog.call lift o).bind f) (Ends R E) g := by
  rw [wp_bind]
  exact wp_call.2 ⟨ho, hf, hE⟩

/-- One operation whose outcome is recorded. -/
theorem Ends.attempt {lift : S.Err → ε} {o : S.Op} {f : Except ε (S.Ans o) → Prog S ε β}
    (ho : T.allows g o) (hok : ∀ a, wp T (f (.ok a)) (Ends R E) (T.next g o (.ok a)))
    (herr : ∀ x, wp T (f (.error (lift x))) (Ends R E) (T.next g o (.error x))) :
    wp T ((Prog.call lift o).attempt.bind f) (Ends R E) g := by
  rw [wp_bind, wp_attempt]
  exact wp_call.2 ⟨ho, hok, herr⟩

end ends

/-! ### Programs that perform some operations only -/

/-- All operations of the program meet `P`. -/
def Only (P : S.Op → Prop) : Prog S ε α → Prop
  | .ret _ => True
  | .raise _ => True
  | .op o k => P o ∧ ∀ r, (k r).Only P

namespace Only

variable {P P' : S.Op → Prop} {p : Prog S ε α}

theorem ret {a : α} : (.ret a : Prog S ε α).Only P := trivial

theorem raise {x : ε} : (.raise x : Prog S ε α).Only P := trivial

theorem ofExcept {r : Except ε α} : (Prog.ofExcept r : Prog S ε α).Only P := by
  cases r <;> trivial

theorem call {lift : S.Err → ε} {o : S.Op} (ho : P o) : (Prog.call lift o).Only P := by
  refine ⟨ho, ?_⟩
  rintro (x | a) <;> trivial

theorem bind {f : α → Prog S ε β} (hp : p.Only P) (hf : ∀ a, (f a).Only P) :
    (p.bind f).Only P := by
  induction p with
  | ret a => exact hf a
  | raise x => trivial
  | op o k ih => exact ⟨hp.1, fun r => ih r (hp.2 r)⟩

theorem attempt (hp : p.Only P) : p.attempt.Only P := by
  induction p with
  | ret a => trivial
  | raise x => trivial
  | op o k ih => exact ⟨hp.1, fun r => ih r (hp.2 r)⟩

theorem swallow (hp : p.Only P) : p.swallow.Only P := .bind hp.attempt fun _ => .ret

theorem mono (hP : ∀ o, P o → P' o) (hp : p.Only P) : p.Only P' := by
  induction p with
  | ret a => trivial
  | raise x => trivial
  | op o k ih => exact ⟨hP o hp.1, fun r => ih r (hp.2 r)⟩

/-- **A program of operations that leave the phase as it is** leaves it as it is. -/
theorem wp {g : σ} (hp : p.Only P) (hT : ∀ o, P o → T.allows g o ∧ ∀ r, T.next g o r = g) :
    Prog.wp T p (fun _ g' => g' = g) g := by
  induction p with
  | ret a => exact rfl
  | raise x => exact rfl
  | op o k ih =>
    refine ⟨(hT o hp.1).1, fun r => ?_⟩
    rw [(hT o hp.1).2 r]
    exact ih r (hp.2 r)

end Only

end Prog

/-! ## Traces -/

/-- One performed operation with what it came back with. -/
structure Performed (S : Sig) where
  op : S.Op
  result : S.Result op

namespace Protocol

variable {S : Sig} {σ : Type}

/-- The phase after a trace. -/
def after (T : Protocol S σ) (g : σ) : List (Performed S) → σ
  | [] => g
  | e :: t => T.after (T.next g e.op e.result) t

/-- Every operation of the trace was allowed when it came. -/
def Admits (T : Protocol S σ) (g : σ) : List (Performed S) → Prop
  | [] => True
  | e :: t => T.allows g e.op ∧ T.Admits (T.next g e.op e.result) t

variable {T : Protocol S σ} {g : σ} {t t' : List (Performed S)}

theorem after_append (T : Protocol S σ) : T.after g (t ++ t') = T.after (T.after g t) t' := by
  induction t generalizing g with
  | nil => rfl
  | cons e t ih => exact ih

/-- A trace is admitted piece by piece. -/
theorem admits_append (T : Protocol S σ) :
    T.Admits g (t ++ t') ↔ T.Admits g t ∧ T.Admits (T.after g t) t' := by
  induction t generalizing g with
  | nil => exact (iff_of_eq (true_and _)).symm
  | cons e t ih =>
    have hrest : T.Admits (T.next g e.op e.result) (t ++ t') ↔ _ := ih
    simp only [List.cons_append, Admits, after, hrest, and_assoc]

end Protocol

namespace Prog

variable {S : Sig} {ε α σ : Type} {T : Protocol S σ}

/-- `Exec p t r`: with the answers recorded in `t`, `p` performs exactly the operations of `t` and
ends with `r`. -/
inductive Exec : Prog S ε α → List (Performed S) → Except ε α → Prop
  | ret (a : α) : Exec (.ret a) [] (.ok a)
  | raise (x : ε) : Exec (.raise x) [] (.error x)
  | op {o : S.Op} {k : S.Result o → Prog S ε α} {a : S.Result o} {t : List (Performed S)}
      {r : Except ε α} (h : Exec (k a) t r) : Exec (.op o k) (⟨o, a⟩ :: t) r

/-- Run a program against fixed answers. -/
def play (answer : (o : S.Op) → S.Result o) : Prog S ε α → List (Performed S) × Except ε α
  | .ret a => ([], .ok a)
  | .raise x => ([], .error x)
  | .op o k =>
    let (t, r) := (k (answer o)).play answer
    (⟨o, answer o⟩ :: t, r)

theorem exec_play (answer : (o : S.Op) → S.Result o) (p : Prog S ε α) :
    Exec p (p.play answer).1 (p.play answer).2 := by
  induction p with
  | ret a => exact .ret a
  | raise x => exact .raise x
  | op o k ih => exact .op (ih (answer o))

/-- Everything performed was answered as it was to be. -/
theorem result_of_mem_play {answer : (o : S.Op) → S.Result o} {p : Prog S ε α} {e : Performed S}
    (he : e ∈ (p.play answer).1) : e.result = answer e.op := by
  induction p with
  | ret a => cases he
  | raise x => cases he
  | op o k ih =>
    rcases List.mem_cons.1 he with rfl | he
    · rfl
    · exact ih (answer o) he

/-- **Soundness of `wp`.**  Every trace of a proved program keeps to the protocol and ends with the
postcondition. -/
theorem Exec.sound {p : Prog S ε α} {t : List (Performed S)} {r : Except ε α}
    (h : Exec p t r) {Q : Except ε α → σ → Prop} {g : σ} (hp : wp T p Q g) :
    T.Admits g t ∧ Q r (T.after g t) := by
  induction h generalizing g with
  | ret a => exact ⟨trivial, hp⟩
  | raise x => exact ⟨trivial, hp⟩
  | op _ ih =>
    obtain ⟨hadm, hQ⟩ := ih (hp.2 _)
    exact ⟨⟨hp.1, hadm⟩, hQ⟩

/-! ### Postconditions alone -/

/-- Everything is allowed. -/
def unrestricted (S : Sig) : Protocol S Unit where
  allows _ _ := True
  next _ _ _ := ()

/-- A program of which nothing is known. -/
theorem wp_unrestricted {p : Prog S ε α} {Q : Except ε α → Unit → Prop} (hQ : ∀ r, Q r ()) :
    wp (unrestricted S) p Q () := by
  induction p with
  | ret a => exact hQ _
  | raise x => exact hQ _
  | op o k ih => exact ⟨trivial, fun r => ih r⟩

/-- A proved postcondition holds of every execution. -/
theorem Exec.post {p : Prog S ε α} {t : List (Performed S)} {r : Except ε α}
    {Q : Except ε α → Unit → Prop} (h : Exec p t r) (hp : wp (unrestricted S) p Q ()) : Q r () :=
  (h.sound hp).2

/-! ### Reading an execution back

From a given execution of a program to those of its parts. -/

section exec

variable {β : Type} {p : Prog S ε α} {t : List (Performed S)}

@[simp] theorem exec_ret {a : α} {r : Except ε α} :
    Exec (.ret a : Prog S ε α) t r ↔ t = [] ∧ r = .ok a := by
  constructor
  · intro h
    cases h
    exact ⟨rfl, rfl⟩
  · rintro ⟨rfl, rfl⟩
    exact .ret a

@[simp] theorem exec_raise {x : ε} {r : Except ε α} :
    Exec (.raise x : Prog S ε α) t r ↔ t = [] ∧ r = .error x := by
  constructor
  · intro h
    cases h
    exact ⟨rfl, rfl⟩
  · rintro ⟨rfl, rfl⟩
    exact .raise x

theorem exec_ofExcept {r s : Except ε α} :
    Exec (Prog.ofExcept r : Prog S ε α) t s ↔ t = [] ∧ s = r := by
  cases r with
  | ok a => exact exec_ret
  | error x => exact exec_raise

theorem exec_op {o : S.Op} {k : S.Result o → Prog S ε α} {r : Except ε α} :
    Exec (.op o k) t r ↔ ∃ a t', t = ⟨o, a⟩ :: t' ∧ Exec (k a) t' r := by
  constructor
  · intro h
    cases h with
    | op h => exact ⟨_, _, rfl, h⟩
  · rintro ⟨a, t', rfl, h⟩
    exact .op h

/-- **Sequencing**: the first part raises, or it returns and the second goes on. -/
theorem exec_bind {f : α → Prog S ε β} {r : Except ε β} :
    Exec (p.bind f) t r ↔
      (∃ a t₁ t₂, t = t₁ ++ t₂ ∧ Exec p t₁ (.ok a) ∧ Exec (f a) t₂ r) ∨
        ∃ x, r = .error x ∧ Exec p t (.error x) := by
  induction p generalizing t with
  | ret a =>
    simp only [ret_bind, exec_ret]
    constructor
    · intro h
      exact .inl ⟨a, [], t, rfl, ⟨rfl, rfl⟩, h⟩
    · rintro (⟨a', t₁, t₂, rfl, ⟨rfl, ha⟩, h⟩ | ⟨x, -, -, hx⟩)
      · cases ha
        exact h
      · cases hx
  | raise x =>
    simp only [raise_bind, exec_raise]
    constructor
    · rintro ⟨rfl, rfl⟩
      exact .inr ⟨x, rfl, rfl, rfl⟩
    · rintro (⟨a', t₁, t₂, -, ⟨-, ha⟩, -⟩ | ⟨y, rfl, rfl, hy⟩)
      · cases ha
      · cases hy
        exact ⟨rfl, rfl⟩
  | op o k ih =>
    simp only [op_bind, exec_op]
    constructor
    · rintro ⟨a, t', rfl, h⟩
      rcases (ih a).1 h with ⟨b, t₁, t₂, rfl, h₁, h₂⟩ | ⟨x, rfl, hx⟩
      · exact .inl ⟨b, ⟨o, a⟩ :: t₁, t₂, rfl, ⟨a, t₁, rfl, h₁⟩, h₂⟩
      · exact .inr ⟨x, rfl, a, t', rfl, hx⟩
    · rintro (⟨b, t₁, t₂, rfl, ⟨a, t', rfl, h₁⟩, h₂⟩ | ⟨x, rfl, a, t', rfl, h⟩)
      · exact ⟨a, t' ++ t₂, rfl, (ih a).2 (.inl ⟨b, t', t₂, rfl, h₁, h₂⟩)⟩
      · exact ⟨a, t', rfl, (ih a).2 (.inr ⟨x, rfl, h⟩)⟩

/-- What returns has gone through both parts. -/
theorem exec_bind_ok {f : α → Prog S ε β} {b : β} : Exec (p.bind f) t (.ok b) ↔
    ∃ a t₁ t₂, t = t₁ ++ t₂ ∧ Exec p t₁ (.ok a) ∧ Exec (f a) t₂ (.ok b) := by
  rw [exec_bind]
  constructor
  · rintro (h | ⟨x, hx, -⟩)
    · exact h
    · cases hx
  · exact .inl

/-- **One operation**: it succeeds or it fails. -/
theorem exec_call {lift : S.Err → ε} {o : S.Op} {r : Except ε (S.Ans o)} :
    Exec (call lift o) t r ↔ (∃ a, t = [⟨o, .ok a⟩] ∧ r = .ok a) ∨
      ∃ x, t = [⟨o, .error x⟩] ∧ r = .error (lift x) := by
  rw [call, exec_op]
  constructor
  · rintro ⟨x | a, t', rfl, h⟩
    · obtain ⟨rfl, rfl⟩ := exec_raise.1 h
      exact .inr ⟨x, rfl, rfl⟩
    · obtain ⟨rfl, rfl⟩ := exec_ret.1 h
      exact .inl ⟨a, rfl, rfl⟩
  · rintro (⟨a, rfl, rfl⟩ | ⟨x, rfl, rfl⟩)
    · exact ⟨.ok a, [], rfl, .ret a⟩
    · exact ⟨.error x, [], rfl, .raise _⟩

/-- The trace of an operation that succeeded. -/
theorem exec_call_ok {lift : S.Err → ε} {o : S.Op} {a : S.Ans o} :
    Exec (call lift o) t (.ok a) ↔ t = [⟨o, .ok a⟩] := by
  rw [exec_call]
  constructor
  · rintro (⟨b, rfl, hb⟩ | ⟨x, -, hx⟩)
    · cases hb
      rfl
    · cases hx
  · rintro rfl
    exact .inl ⟨a, rfl, rfl⟩

/-- The trace of an operation that failed. -/
theorem exec_call_error {lift : S.Err → ε} {o : S.Op} {x : ε} :
    Exec (call lift o) t (.error x) ↔ ∃ y, t = [⟨o, .error y⟩] ∧ x = lift y := by
  rw [exec_call]
  constructor
  · rintro (⟨b, -, hb⟩ | ⟨y, rfl, hy⟩)
    · cases hb
    · cases hy
      exact ⟨y, rfl, rfl⟩
  · rintro ⟨y, rfl, rfl⟩
    exact .inr ⟨y, rfl, rfl⟩

theorem exec_attempt {r : Except ε (Except ε α)} :
    Exec p.attempt t r ↔ ∃ s, r = .ok s ∧ Exec p t s := by
  induction p generalizing t with
  | ret a =>
    simp only [attempt, exec_ret]
    constructor
    · rintro ⟨rfl, rfl⟩
      exact ⟨_, rfl, rfl, rfl⟩
    · rintro ⟨s, rfl, rfl, rfl⟩
      exact ⟨rfl, rfl⟩
  | raise x =>
    simp only [attempt, exec_ret, exec_raise]
    constructor
    · rintro ⟨rfl, rfl⟩
      exact ⟨_, rfl, rfl, rfl⟩
    · rintro ⟨s, rfl, rfl, rfl⟩
      exact ⟨rfl, rfl⟩
  | op o k ih =>
    simp only [attempt, exec_op]
    constructor
    · rintro ⟨a, t', rfl, h⟩
      obtain ⟨s, rfl, hs⟩ := (ih a).1 h
      exact ⟨s, rfl, a, t', rfl, hs⟩
    · rintro ⟨s, rfl, a, t', rfl, h⟩
      exact ⟨a, t', rfl, (ih a).2 ⟨s, rfl, h⟩⟩

/-- One operation, whatever its outcome. -/
theorem exec_call_lift {lift : S.Err → ε} {o : S.Op} {r : Except ε (S.Ans o)} :
    Exec (call lift o) t r ↔ ∃ res, t = [⟨o, res⟩] ∧ r = res.mapError lift := by
  rw [exec_call]
  constructor
  · rintro (⟨a, rfl, rfl⟩ | ⟨x, rfl, rfl⟩)
    · exact ⟨.ok a, rfl, rfl⟩
    · exact ⟨.error x, rfl, rfl⟩
  · rintro ⟨x | a, rfl, rfl⟩
    · exact .inr ⟨x, rfl, rfl⟩
    · exact .inl ⟨a, rfl, rfl⟩

/-- **What follows an attempt** goes on with its outcome. -/
theorem exec_attempt_bind {f : Except ε α → Prog S ε β} {r : Except ε β} :
    Exec (p.attempt.bind f) t r ↔
      ∃ s t₁ t₂, t = t₁ ++ t₂ ∧ Exec p t₁ s ∧ Exec (f s) t₂ r := by
  rw [exec_bind]
  constructor
  · rintro (⟨s, t₁, t₂, rfl, h₁, h₂⟩ | ⟨x, -, h₁⟩)
    · obtain ⟨s', hs, h₁⟩ := exec_attempt.1 h₁
      cases hs
      exact ⟨s, t₁, t₂, rfl, h₁, h₂⟩
    · obtain ⟨s', hs, -⟩ := exec_attempt.1 h₁
      cases hs
  · rintro ⟨s, t₁, t₂, rfl, h₁, h₂⟩
    exact .inl ⟨s, t₁, t₂, rfl, exec_attempt.2 ⟨s, rfl, h₁⟩, h₂⟩

/-- A program whose outcome is not looked at. -/
theorem exec_swallow {r : Except ε Unit} :
    Exec p.swallow t r ↔ r = .ok () ∧ ∃ s, Exec p t s := by
  rw [swallow, exec_attempt_bind]
  constructor
  · rintro ⟨s, t₁, t₂, rfl, h₁, h₂⟩
    obtain ⟨rfl, rfl⟩ := exec_ret.1 h₂
    exact ⟨rfl, s, by rwa [List.append_nil]⟩
  · rintro ⟨rfl, s, h⟩
    exact ⟨s, t, [], (List.append_nil t).symm, h, .ret ()⟩

/-- An operation whose answer is known, with what follows it. -/
theorem exec_call_bind {lift : S.Err → ε} {o : S.Op} {f : S.Ans o → Prog S ε β}
    {r : Except ε β} {a : S.Ans o} (h : Exec ((call lift o).bind f) t r)
    (hans : ∀ res, (⟨o, res⟩ : Performed S) ∈ t → res = .ok a) :
    ∃ t', t = ⟨o, .ok a⟩ :: t' ∧ Exec (f a) t' r := by
  rcases exec_bind.1 h with ⟨b, t₁, t₂, rfl, hcall, hf⟩ | ⟨x, -, hcall⟩
  · rcases exec_call.1 hcall with ⟨b', rfl, hb⟩ | ⟨x, -, hx⟩
    · cases hb
      cases hans _ List.mem_cons_self
      exact ⟨t₂, rfl, hf⟩
    · cases hx
  · rcases exec_call.1 hcall with ⟨b, -, hb⟩ | ⟨y, rfl, -⟩
    · cases hb
    · cases hans _ List.mem_cons_self

/-- **What a program performs** is what it may perform. -/
theorem exec_only {P : S.Op → Prop} {r : Except ε α} (h : Exec p t r) (hp : p.Only P) :
    ∀ e ∈ t, P e.op := by
  induction h with
  | ret a => exact fun e he => absurd he List.not_mem_nil
  | raise x => exact fun e he => absurd he List.not_mem_nil
  | op h ih =>
    intro e he
    rcases List.mem_cons.1 he with rfl | he
    · exact hp.1
    · exact ih (hp.2 _) e he

end exec

end Prog

end Effect
