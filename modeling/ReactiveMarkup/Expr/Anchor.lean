import ReactiveMarkup.Expr.Reserved
import ReactiveMarkup.Scope.Resolver

/-!
# From names to declared values

Anchoring replaces the free names of an expression that stand for declared values: reading one
becomes `get`, assigning to one `set`, and stepping one a `set` of its `get`. Names that the
expression binds itself, anywhere in it, and reserved names are left alone.

Main definitions: `Expr.anchor`, `Anchored`, `AnchorError`.
-/
namespace ReactiveMarkup

/-- Why a name cannot be anchored. -/
inductive AnchorError where
  | bareAlias (name : String) (range : Range)
  | unknownMember (holder name : String) (range : Range)
  deriving DecidableEq, Repr, Inhabited

namespace AnchorError

/-- Where the error lies. -/
def range : AnchorError → Range
  | bareAlias _ r | unknownMember _ _ r => r

/-- What the error says. -/
def message : AnchorError → String
  | bareAlias name _ => "\x60" ++ name ++ "\x60 refers to a scope, not a value"
  | unknownMember holder name _ =>
    "Scope \x60" ++ holder ++ "\x60 does not declare \x60" ++ name ++ "\x60"

end AnchorError

/-- What anchoring finds out about an expression. -/
structure Notes where
  /-- the declared values that it touches, in the order in which they are first seen -/
  dependencies : List ValuePath
  /-- the free names that stand for nothing declared, each where it is first seen -/
  unresolved : List (String × Range)
  deriving Inhabited

namespace Notes

/-- Nothing found yet. -/
def empty : Notes := ⟨[], []⟩

/-- Notes a declared value. -/
def touch (path : ValuePath) (n : Notes) : Notes :=
  if n.dependencies.contains path then n
  else { n with dependencies := n.dependencies ++ [path] }

/-- Notes a name that stands for nothing declared. -/
def leave (name : String) (range : Range) (n : Notes) : Notes :=
  if n.unresolved.any fun u => u.1 == name then n
  else { n with unresolved := n.unresolved ++ [(name, range)] }

end Notes

/-- An anchored expression and what was found out about it. -/
structure Anchored where
  expr : Expr
  notes : Notes
  deriving Inhabited

namespace Expr

mutual

/-- The names that an expression binds: parameters and local declarations. -/
def boundNames : Expr → List String
  | literal .. | ident .. | get .. => []
  | set _ _ value => value.boundNames
  | template _ parts => boundNamesAll parts
  | member _ e _ => e.boundNames
  | index _ e key => e.boundNames ++ key.boundNames
  | call _ callee args => callee.boundNames ++ boundNamesAll args
  | unary _ _ operand => operand.boundNames
  | binary _ _ left right => left.boundNames ++ right.boundNames
  | conditional _ test yes no => test.boundNames ++ yes.boundNames ++ no.boundNames
  | assign _ _ target value => target.boundNames ++ value.boundNames
  | update _ _ _ target => target.boundNames
  | array _ items => boundNamesAll items
  | object _ entries => boundNamesEntries entries
  | arrow _ params body => params ++ body.boundNames
  | letIn _ name value => name :: value.boundNames
  | sequence _ items => boundNamesAll items

/-- The names that expressions bind. -/
def boundNamesAll : List Expr → List String
  | [] => []
  | e :: es => e.boundNames ++ boundNamesAll es

/-- The names that the values of entries bind. -/
def boundNamesEntries : List (String × Expr) → List String
  | [] => []
  | (_, e) :: es => e.boundNames ++ boundNamesEntries es

end

end Expr

namespace Anchoring

/-- The anchoring of names in progress. -/
abbrev Step (α : Type) := StateT Notes (Except AnchorError) α

/-- What names mean in an expression: its bound names, and the resolver for the others. -/
structure Names where
  bound : List String
  resolver : Resolver

namespace Names

/-- Whether a name is looked up. -/
def isFree (n : Names) (name : String) : Bool :=
  !n.bound.contains name && !Reserved.isReserved name

end Names

/-- Aliases that lead to a scope: where they start, the aliases walked, the scope they reach, and
the last name on the way. -/
structure AliasChain where
  anchor : ScopeIndex
  aliases : List String
  target : ScopeIndex
  label : String

/-- The scope that an expression names, if it is an alias or a member chain of aliases. -/
def aliasChain? (n : Names) : Expr → Option AliasChain
  | .ident _ name =>
    if n.isFree name then
      match n.resolver.resolve name with
      | .scope anchor target => some ⟨anchor, if anchor = target then [] else [name], target, name⟩
      | _ => none
    else none
  | .member _ e name =>
    match aliasChain? n e with
    | some c =>
      (n.resolver.aliasOf c.target name).map fun next =>
        ⟨c.anchor, c.aliases ++ [name], next, name⟩
    | none => none
  | _ => none

/-- The declared value that an expression denotes, if it is a free name or a member of a scope. -/
def valuePath? (n : Names) : Expr → Except AnchorError (Option ValuePath)
  | .ident range name =>
    if n.isFree name then
      match n.resolver.resolve name with
      | .value scope => .ok (some ⟨scope, [], name⟩)
      | .scope .. => .error (.bareAlias name range)
      | .unresolved => .ok none
    else .ok none
  | .member range e name =>
    match aliasChain? n e with
    | none => .ok none
    | some c =>
      if n.resolver.declares c.target name then .ok (some ⟨c.anchor, c.aliases, name⟩)
      else if (n.resolver.aliasOf c.target name).isSome then .error (.bareAlias name range)
      else .error (.unknownMember c.label name range)
  | _ => .ok none

/-- Notes a declared value. -/
def touch (path : ValuePath) : Step Unit := modify (Notes.touch path)

/-- The operators that apply a step and take it back. -/
def stepOps : UpdateOp → BinaryOp × BinaryOp
  | .increment => (.add, .sub)
  | .decrement => (.sub, .add)

/-- Stepping a declared value: setting it to one more or less, and taking that back for the value
before if the operator stands behind. -/
def stepOf (range : Range) (op : UpdateOp) (before : Bool) (targetRange : Range)
    (path : ValuePath) : Expr :=
  let (apply, undo) := stepOps op
  let one := Expr.literal range (.number 1)
  let written := Expr.set range path (.binary range apply (.get targetRange path) one)
  if before then written else .binary range undo written one

mutual

/-- Anchors the names of an expression. -/
def expr (n : Names) : Expr → Step Expr
  | .literal range v => return .literal range v
  | .get range path => return .get range path
  | .ident range name => do
    match ← valuePath? n (.ident range name) with
    | some path =>
      touch path
      return .get range path
    | none =>
      if n.isFree name then modify (Notes.leave name range)
      return .ident range name
  | .member range e name => do
    match ← valuePath? n (.member range e name) with
    | some path =>
      touch path
      return .get range path
    | none => return .member range (← expr n e) name
  | .set range path value => do
    touch path
    return .set range path (← expr n value)
  | .assign range op target value => do
    let value ← expr n value
    match ← valuePath? n target with
    | some path =>
      touch path
      match op with
      | some op => return .set range path (.binary range op (.get target.range path) value)
      | none => return .set range path value
    | none => return .assign range op (← expr n target) value
  | .update range op before target => do
    match ← valuePath? n target with
    | some path =>
      touch path
      return stepOf range op before target.range path
    | none => return .update range op before (← expr n target)
  | .template range parts => return .template range (← exprs n parts)
  | .index range e key => do
    let e ← expr n e
    return .index range e (← expr n key)
  | .call range callee args => do
    let callee ← expr n callee
    return .call range callee (← exprs n args)
  | .unary range op operand => return .unary range op (← expr n operand)
  | .binary range op left right => do
    let left ← expr n left
    return .binary range op left (← expr n right)
  | .conditional range test yes no => do
    let test ← expr n test
    let yes ← expr n yes
    return .conditional range test yes (← expr n no)
  | .array range items => return .array range (← exprs n items)
  | .object range es => return .object range (← entries n es)
  | .arrow range params body => return .arrow range params (← expr n body)
  | .letIn range name value => return .letIn range name (← expr n value)
  | .sequence range items => return .sequence range (← exprs n items)

/-- Anchors the names of expressions from left to right. -/
def exprs (n : Names) : List Expr → Step (List Expr)
  | [] => return []
  | e :: es => do
    let e ← expr n e
    return e :: (← exprs n es)

/-- Anchors the names of the values of entries from left to right. -/
def entries (n : Names) : List (String × Expr) → Step (List (String × Expr))
  | [] => return []
  | (key, e) :: es => do
    let e ← expr n e
    return (key, e) :: (← entries n es)

end

end Anchoring

namespace Expr

/-- Replaces the free names of an expression that stand for declared values. -/
def anchor (r : Resolver) (e : Expr) : Except AnchorError Anchored := do
  let (e, notes) ← (Anchoring.expr ⟨e.boundNames, r⟩ e).run .empty
  return ⟨e, notes⟩

end Expr

end ReactiveMarkup
