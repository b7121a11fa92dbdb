import ReactiveMarkup.Eval.Error
import ReactiveMarkup.Value.Basic

/-!
# Computations of the evaluator

An `Evaluation` runs in a frame: the locals, the next free stamp, and a world `σ` in which declared
values live. An error leaves the frame as it is at that moment. An `Accessor` reads and writes
declared values on behalf of an expression; doing so may run other expressions, so the stamps pass
through it.

Main definitions: `Frame`, `Evaluation`, `Accessor`.
-/
namespace ReactiveMarkup

/-- What an evaluation runs in. -/
structure Frame (σ : Type) where
  env : Env
  stamps : Stamp
  world : σ

/-- A computation that may fail; the frame it ends in comes back either way. -/
structure Evaluation (σ α : Type) where
  run : Frame σ → Except EvalError α × Frame σ

namespace Evaluation

variable {σ α β : Type}

/-- The computation that gives a value and changes nothing. -/
def pure (a : α) : Evaluation σ α := ⟨fun f => (.ok a, f)⟩

/-- Goes on with the value of the first computation, unless it fails. -/
def bind (p : Evaluation σ α) (k : α → Evaluation σ β) : Evaluation σ β :=
  ⟨fun f =>
    match p.run f with
    | (.ok a, f) => (k a).run f
    | (.error e, f) => (.error e, f)⟩

instance : Monad (Evaluation σ) where
  pure := pure
  bind := bind

/-- The computation that fails. -/
def fail (e : EvalError) : Evaluation σ α := ⟨fun f => (.error e, f)⟩

/-- A result that may be an error. -/
def ofExcept (r : Except EvalError α) : Evaluation σ α := ⟨fun f => (r, f)⟩

/-- The locals. -/
def env : Evaluation σ Env := ⟨fun f => (.ok f.env, f)⟩

/-- Sets a local. -/
def define (name : String) (v : Value) : Evaluation σ Unit :=
  ⟨fun f => (.ok (), { f with env := Keyed.insert name v f.env })⟩

/-- A result that takes stamps. -/
def stamped (r : Stamp → Except EvalError (α × Stamp)) : Evaluation σ α :=
  ⟨fun f =>
    match r f.stamps with
    | .ok (a, next) => (.ok a, { f with stamps := next })
    | .error e => (.error e, f)⟩

/-- Runs a computation with other locals; the present ones are back afterwards, however it ends. -/
def within (env : Env) (p : Evaluation σ α) : Evaluation σ α :=
  ⟨fun f =>
    let (r, g) := p.run { f with env }
    (r, { g with env := f.env })⟩

@[simp] theorem run_pure (a : α) (f : Frame σ) :
    (Pure.pure a : Evaluation σ α).run f = (.ok a, f) := rfl

theorem run_bind (p : Evaluation σ α) (k : α → Evaluation σ β) (f : Frame σ) :
    (p >>= k).run f =
      match p.run f with
      | (.ok a, f) => (k a).run f
      | (.error e, f) => (.error e, f) := rfl

@[simp] theorem run_fail (e : EvalError) (f : Frame σ) :
    (fail e : Evaluation σ α).run f = (.error e, f) := rfl

@[simp] theorem run_within_env (env : Env) (p : Evaluation σ α) (f : Frame σ) :
    ((within env p).run f).2.env = f.env := rfl

end Evaluation

/-- Reading and writing declared values in a world. -/
structure Accessor (σ : Type) where
  get : ValuePath → Stamp × σ → Except EvalError Value × Stamp × σ
  set : ValuePath → Value → Stamp × σ → Except EvalError Unit × Stamp × σ

namespace Accessor

variable {σ : Type}

/-- Reads a declared value. -/
def read (a : Accessor σ) (path : ValuePath) : Evaluation σ Value :=
  ⟨fun f =>
    let (r, stamps, world) := a.get path (f.stamps, f.world)
    (r, { f with stamps, world })⟩

/-- Writes a declared value. -/
def write (a : Accessor σ) (path : ValuePath) (v : Value) : Evaluation σ Unit :=
  ⟨fun f =>
    let (r, stamps, world) := a.set path v (f.stamps, f.world)
    (r, { f with stamps, world })⟩

/-- The accessor of expressions without declared values: every path is unresolved. -/
def none : Accessor Unit where
  get path s := (.error (.unresolved path), s)
  set path _ s := (.error (.unresolved path), s)

end Accessor

end ReactiveMarkup
