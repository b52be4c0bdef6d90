import Mathlib.Logic.Function.Basic

/-!
# Effectful programs as syntax

A process talks to the rest of the system through operations: transactions, calls to a message
broker, calls to the outside.  `Prog S ε α` is the free program over a signature `S` of such
operations.  An operation may also fail, with an `S.Err`; the program turns that into one of its
own exceptions `ε`, which `tryCatch`, `attempt` and `finally'` handle as the host language does.
A program is data, so what it may do next can be read off and stepped one operation at a time,
which is what an interleaving of several processes needs.
-/

namespace Effect

/-- A signature: the operations a process can perform, what each answers when it succeeds, and
what it fails with. -/
structure Sig where
  Op : Type
  Ans : Op → Type
  Err : Type

namespace Sig

/-- What an operation comes back with. -/
abbrev Result (S : Sig) (o : S.Op) : Type := Except S.Err (S.Ans o)

end Sig

/-- A program over the operations of `S`, returning `α` or raising an `ε`. -/
inductive Prog (S : Sig) (ε : Type) (α : Type) : Type where
  | ret (a : α)
  | raise (x : ε)
  | op (o : S.Op) (k : S.Result o → Prog S ε α)

namespace Prog

variable {S : Sig} {ε α β γ : Type}

instance [Inhabited α] : Inhabited (Prog S ε α) := ⟨.ret default⟩

protected def bind : Prog S ε α → (α → Prog S ε β) → Prog S ε β
  | .ret a, f => f a
  | .raise x, _ => .raise x
  | .op o k, f => .op o fun r => (k r).bind f

/-- `try: p except Exception as x: h x`. -/
protected def tryCatch : Prog S ε α → (ε → Prog S ε α) → Prog S ε α
  | .ret a, _ => .ret a
  | .raise x, h => h x
  | .op o k, h => .op o fun r => (k r).tryCatch h

instance : Monad (Prog S ε) where
  pure := .ret
  bind := Prog.bind

instance : MonadExceptOf ε (Prog S ε) where
  throw := .raise
  tryCatch := Prog.tryCatch

/-- Perform one operation; its failure is raised as `lift` says. -/
def call (lift : S.Err → ε) (o : S.Op) : Prog S ε (S.Ans o) :=
  .op o fun
    | .ok a => .ret a
    | .error x => .raise (lift x)

/-- Run `p` and hand its outcome on, exception or not. -/
def attempt : Prog S ε α → Prog S ε (Except ε α)
  | .ret a => .ret (.ok a)
  | .raise x => .ret (.error x)
  | .op o k => .op o fun r => (k r).attempt

/-- Return or raise a recorded outcome. -/
def ofExcept : Except ε α → Prog S ε α
  | .ok a => .ret a
  | .error x => .raise x

/-- `try: p finally: q`: `q` runs whatever `p` does, then the outcome of `p` stands. -/
def finally' (p : Prog S ε α) (q : Prog S ε Unit) : Prog S ε α :=
  p.attempt.bind fun r => q.bind fun _ => ofExcept r

/-- `try: p except Exception: pass`. -/
def swallow (p : Prog S ε α) : Prog S ε Unit :=
  p.attempt.bind fun _ => .ret ()

/-- The program has nothing left to do. -/
def isFinal : Prog S ε α → Bool
  | .op _ _ => false
  | _ => true

@[simp] theorem pure_eq (a : α) : (pure a : Prog S ε α) = .ret a := rfl

@[simp] theorem throw_eq (x : ε) : (throw x : Prog S ε α) = .raise x := rfl

@[simp] theorem bind_eq (p : Prog S ε α) (f : α → Prog S ε β) : p >>= f = p.bind f := rfl

@[simp] theorem tryCatch_eq (p : Prog S ε α) (h : ε → Prog S ε α) :
    MonadExcept.tryCatch p h = p.tryCatch h := rfl

@[simp] theorem ret_bind (a : α) (f : α → Prog S ε β) : (Prog.ret a).bind f = f a := rfl

@[simp] theorem raise_bind (x : ε) (f : α → Prog S ε β) :
    (Prog.raise x : Prog S ε α).bind f = .raise x := rfl

@[simp] theorem op_bind (o : S.Op) (k : S.Result o → Prog S ε α) (f : α → Prog S ε β) :
    (Prog.op o k).bind f = .op o fun r => (k r).bind f := rfl

@[simp] theorem isFinal_op (o : S.Op) (k : S.Result o → Prog S ε α) :
    (Prog.op o k).isFinal = false := rfl

end Prog

end Effect
