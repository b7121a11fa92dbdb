import ReactiveMarkup.Eval.Basic
import ReactiveMarkup.Eval.Builtin
import ReactiveMarkup.Expr.Reserved

/-!
# Evaluation of expressions

An expression is evaluated by structural recursion, with the way to call a function as a parameter;
`Eval.call` closes the knot by recursion on the number of calls that may still be nested, so every
evaluation ends.

Main definitions: `Eval.expr` and `Expr.eval`.
-/
namespace ReactiveMarkup

namespace Eval

variable {σ : Type}

/-- How a function value is called. -/
abbrev Call (σ : Type) := Value → List Value → Evaluation σ Value

/-- Methods of arrays that call a function on every item. -/
inductive Iteration where
  | map | filter | find | findIndex | some | every
  deriving DecidableEq, Repr, Inhabited

namespace Iteration

/-- The method of a name. -/
def ofName? (name : String) : Option Iteration :=
  if name = "map" then .some map
  else if name = "filter" then .some filter
  else if name = "find" then .some find
  else if name = "findIndex" then .some findIndex
  else if name = "some" then .some some
  else if name = "every" then .some every
  else .none

/-- The result as soon as a call on item `i` decides it. -/
def decided? (m : Iteration) (i : Nat) (item result : Value) : Option Value :=
  match m with
  | map | filter => .none
  | find => if result.truthy then .some item else .none
  | findIndex => if result.truthy then .some (.ofNat i) else .none
  | some => if result.truthy then .some (.bool true) else .none
  | every => if result.truthy then .none else .some (.bool false)

/-- What a call on an item adds to the collected items. -/
def collected (m : Iteration) (item result : Value) : List Value :=
  match m with
  | map => [result]
  | filter => if result.truthy then [item] else []
  | _ => []

/-- The result when no call has decided it. -/
def finish (m : Iteration) (items : List Value) : Evaluation σ Value :=
  match m with
  | map | filter => .stamped fun next => .ok (.array next items, next + 1)
  | find => return .undefined
  | findIndex => return .number (-1)
  | some => return .bool false
  | every => return .bool true

/-- Calls `f` on the items from place `i` on; `done` are the items collected before them. -/
def run (call : Call σ) (m : Iteration) (f : Value) (done : List Value) (i : Nat) :
    List Value → Evaluation σ Value
  | [] => m.finish done
  | item :: rest => do
    let result ← call f [item, .ofNat i]
    match m.decided? i item result with
    | .some v => return v
    | .none => run call m f (done ++ m.collected item result) (i + 1) rest

end Iteration

/-- Calls a method on a receiver. -/
def callMethod (call : Call σ) (receiver : Value) (name : String) (args : List Value) :
    Evaluation σ Value :=
  match receiver with
  | .undefined | .null => .fail (receiver.nullishError name)
  | .array _ items =>
    match Iteration.ofName? name with
    | some m => m.run call (Builtin.arg args 0) [] 0 items
    | none => .stamped fun next => Builtin.callMethod name next receiver args
  | .object _ entries =>
    match entries.lookup name with
    | some f => call f args
    | none => .stamped fun next => Builtin.callMethod name next receiver args
  | _ => .stamped fun next => Builtin.callMethod name next receiver args

/-- Where an assignment goes: a variable, and the keys from it inward. -/
structure Place (root : Type) where
  root : root
  keys : List Value

/-- The variable that an assignment changes. -/
inductive Root where
  | name (name : String)
  | path (path : ValuePath)

/-- The value of a variable that is assigned to. -/
def readRoot (acc : Accessor σ) : Root → Evaluation σ Value
  | .name x => do
    match (← Evaluation.env).lookup x with
    | some v => return v
    | none => .fail (.notDefined x)
  | .path p => acc.read p

/-- Sets a variable. -/
def writeRoot (acc : Accessor σ) : Root → Value → Evaluation σ Unit
  | .name x, v => .define x v
  | .path p, v => acc.write p v

/-- Changes the value at a place by `f`, and gives the value put there. -/
def assign (acc : Accessor σ) (place : Place Root) (f : Value → Value) : Evaluation σ Value := do
  let root ← readRoot acc place.root
  let (root, stored) ← .stamped fun next => do
    let (root, stored, next) ← Value.updateAt f next root place.keys
    return ((root, stored), next)
  writeRoot acc place.root root
  return stored

/-- Whether a name means a host object here. -/
def isGlobal (env : Env) (name : String) : Bool :=
  Reserved.isHostGlobal name && (env.lookup name).isNone

/-- The name of a host object that an expression is. -/
def global? (env : Env) : Expr → Option String
  | .ident _ name => if isGlobal env name then some name else none
  | _ => none

/-- The value of a name. -/
def name (x : String) : Evaluation σ Value := do
  match (← Evaluation.env).lookup x with
  | some v => return v
  | none => if x = Reserved.event then return .undefined else .fail (.notDefined x)

/-- The type of a name that is no local. -/
def typeofGlobal? (env : Env) : Expr → Option Value
  | .ident _ name =>
    if (env.lookup name).isNone then
      some (.string (if Reserved.isHostGlobal name then "object" else "undefined"))
    else none
  | _ => none

mutual

/-- Evaluates an expression, given a way to call functions. -/
def expr (acc : Accessor σ) (call : Call σ) : Expr → Evaluation σ Value
  | .literal _ v => return v.value
  | .ident _ x => name x
  | .get _ path => acc.read path
  | .set _ path value => do
    let v ← expr acc call value
    acc.write path v
    return v
  | .template _ parts => do
    let vs ← exprs acc call parts
    return .string (String.join (Value.itemTexts vs))
  | .member _ object x => do
    match global? (← Evaluation.env) object with
    | some global => return Builtin.globalProperty global x
    | none =>
      let v ← expr acc call object
      .ofExcept (v.property x)
  | .index _ object key => do
    let v ← expr acc call object
    let k ← expr acc call key
    .ofExcept (v.index k)
  | .call _ (.member _ object method) args => do
    match global? (← Evaluation.env) object with
    | some global =>
      let vs ← exprs acc call args
      .stamped fun next => Builtin.callFunction (global ++ "." ++ method) next vs
    | none =>
      let receiver ← expr acc call object
      let vs ← exprs acc call args
      callMethod call receiver method vs
  | .call _ callee args => do
    match global? (← Evaluation.env) callee with
    | some global =>
      let vs ← exprs acc call args
      .stamped fun next => Builtin.callFunction global next vs
    | none =>
      let f ← expr acc call callee
      let vs ← exprs acc call args
      call f vs
  | .unary _ op operand => do
    match op, typeofGlobal? (← Evaluation.env) operand with
    | .typeof, some v => return v
    | _, _ =>
      let v ← expr acc call operand
      return op.apply v
  | .binary _ op left right => do
    let a ← expr acc call left
    match op.shortcut? a with
    | some v => return v
    | none =>
      let b ← expr acc call right
      return if op.yieldsRight then b else op.apply a b
  | .conditional _ test yes no => do
    let t ← expr acc call test
    if t.truthy then expr acc call yes else expr acc call no
  | .assign _ op target value => do
    let v ← expr acc call value
    let p ← place acc call target
    assign acc p fun old => match op with
      | some op => op.apply old v
      | none => v
  | .update _ op before target => do
    let p ← place acc call target
    let new ← assign acc p fun old => .number (old.toNumber + op.delta)
    return if before then new else .number (new.toNumber - op.delta)
  | .array _ items => do
    let vs ← exprs acc call items
    .stamped fun next => .ok (.array next vs, next + 1)
  | .object _ entries => do
    let vs ← entryValues acc call entries
    .stamped fun next => .ok (.object next (Keyed.ofList vs), next + 1)
  | .arrow _ params body => do
    let env ← Evaluation.env
    .stamped fun next => .ok (.function next params body env, next + 1)
  | .letIn _ x value => do
    let v ← expr acc call value
    .define x v
    return .undefined
  | .sequence _ items => do
    let vs ← exprs acc call items
    return vs.getLast?.getD .undefined

/-- Evaluates expressions from left to right. -/
def exprs (acc : Accessor σ) (call : Call σ) : List Expr → Evaluation σ (List Value)
  | [] => return []
  | e :: es => do
    let v ← expr acc call e
    let vs ← exprs acc call es
    return v :: vs

/-- Evaluates the values of entries from left to right. -/
def entryValues (acc : Accessor σ) (call : Call σ) :
    List (String × Expr) → Evaluation σ (List (String × Value))
  | [] => return []
  | (key, e) :: es => do
    let v ← expr acc call e
    let vs ← entryValues acc call es
    return (key, v) :: vs

/-- The place that a target denotes. Its keys are evaluated from the outermost inward. -/
def place (acc : Accessor σ) (call : Call σ) : Expr → Evaluation σ (Place Root)
  | .ident _ x => return ⟨.name x, []⟩
  | .get _ path => return ⟨.path path, []⟩
  | .member _ object x => do
    let p ← place acc call object
    return { p with keys := p.keys ++ [.string x] }
  | .index _ object key => do
    let k ← expr acc call key
    let p ← place acc call object
    return { p with keys := p.keys ++ [k] }
  | _ => .fail .invalidAssignment

end

/-- The locals of a call: parameters without an argument are undefined. -/
def bindParams (env : Env) : List String → List Value → Env
  | [], _ => env
  | x :: xs, args => bindParams (Keyed.insert x (args.head?.getD .undefined) env) xs args.tail

/-- Calls a function, with `left` calls that may still be nested out of `limit`. -/
def call (acc : Accessor σ) (limit : Nat) : (left : Nat) → Call σ
  | left, f, args =>
    match f with
    | .function _ params body env =>
      match left with
      | 0 => .fail (.tooManyCalls limit)
      | left + 1 => .within (bindParams env params args) (expr acc (call acc limit left) body)
    | v => .fail (.notCallable v.toText)

/-- Evaluates an expression under a limit of nested calls. -/
def run (acc : Accessor σ) (limit : Nat) (e : Expr) : Evaluation σ Value :=
  expr acc (call acc limit limit) e

/-- Calls a function from outside of any expression. -/
def runCall (acc : Accessor σ) (limit : Nat) (f : Value) (args : List Value) :
    Evaluation σ Value :=
  call acc limit limit f args

/-- How many calls may be nested unless something else is asked for. -/
def defaultLimit : Nat := 128

end Eval

end ReactiveMarkup
