import ReactiveMarkup.Compile.Outline
import ReactiveMarkup.Compile.Part
import ReactiveMarkup.Text.Similarity

/-!
# From the outline to templates

The second pass, when all names are known: the texts of declarations become constants or anchored
expressions. A declaration that fails gives an error and no template; the others are not affected.

Main definitions: `Emission`, `Emission.scope`, `ScopeTree.assemble`.
-/
namespace ReactiveMarkup

/-- What the templates of a document are made from. -/
structure EmitContext where
  options : CompileOptions
  source : Option SourceMap
  tree : ScopeTree

/-- A step that may fail; the warnings that it gave before stay. -/
abbrev Emission (α : Type) := ExceptT CompileCause (StateM (List CompileWarning)) α

namespace Emission

/-! ## Warnings -/

/-- How alike two names have to be. -/
def likeness : Float := 0.85

/-- The names that may be meant by one that nothing declares. -/
def similarNames (visible : List String) (name : String) : List String :=
  visible.filter fun v =>
    v != name && !Reserved.isGenerated v && Similarity.jaroWinkler name v > likeness

/-- The warning about a name that nothing declares. -/
def unresolvedWarning (visible : List String) (u : String × Range) : CompileWarning :=
  ⟨u.1, u.2.start, similarNames visible u.1⟩

/-- Warns of names that nothing declares. -/
def warn (c : EmitContext) (scope : ScopeIndex) (unresolved : List (String × Range)) :
    Emission Unit := do
  if c.options.warnUnresolved then
    let visible := c.tree.visibleNames scope
    modify (· ++ unresolved.map (unresolvedWarning visible))

/-! ## Expressions -/

/-- The position from which the positions in an expression count; `place` is the byte of the source
where the text with it stands, and `offset` the byte of the text where it stands. -/
def base (c : EmitContext) (place : Option Nat) (offset : Nat) : Position :=
  match c.source, place with
  | some m, some place => m.position (place + offset)
  | _, _ => Position.start

/-- The expression of one part and the values that it touches. -/
def part (c : EmitContext) (scope : ScopeIndex) (property : Option String) (place : Option Nat) :
    Part → Emission (Expr × List ValuePath)
  | .text s => return (.literal Range.initial (.string s), [])
  | .code code offset => do
    match Expr.parse (base c place offset) code with
    | .error e => throw (.expression (.syntactic e))
    | .ok e =>
      match e.anchor (c.tree.resolver scope property) with
      | .error e => throw (.expression (.anchor e))
      | .ok t =>
        warn c scope t.notes.unresolved
        return (t.expr, t.notes.dependencies)

/-- The smallest range over some expressions. -/
def rangeOver : List Expr → Range
  | [] => Range.initial
  | e :: es => es.foldl (fun r e => r.join e.range) e.range

/-- What a declaration's text stands for: a constant if it holds no expression, one expression if it
is nothing else, and a template otherwise. `property` is the value that it defines. -/
def text (c : EmitContext) (scope : ScopeIndex) (property : Option String) (raw : String)
    (place : Option Nat) : Emission (Init × List ValuePath) := do
  match Part.split? raw with
  | none => throw (.unterminatedExpression raw)
  | some parts =>
    if parts.any Part.isCode then
      let compiled ← parts.mapM (part c scope property place)
      let exprs := compiled.map (·.1)
      let dependencies := compiled.flatMap (·.2)
      match exprs with
      | [e] => return (.compute e, dependencies)
      | _ => return (.compute (.template (rangeOver exprs) exprs), dependencies)
    else return (.constant (.string raw), [])

/-! ## Declarations -/

/-- The kind of a value. A handler may watch only what is declared. -/
def kind (c : EmitContext) (scope : ScopeIndex) (v : PendingValue) : Emission ValueKind :=
  match v.kind with
  | .known kind => return kind
  | .watching name =>
    match (c.tree.resolver scope none).resolve name with
    | .value owner => return .handler ⟨owner, [], name⟩
    | _ => throw (.unknownWatch v.name name)

/-- What a value observes besides what its expression touches: a list observes its window, and a
handler observes what it watches and nothing else. -/
def observed (scope : ScopeIndex) (dependencies : List ValuePath) : ValueKind → List ValuePath
  | .handler watched => [watched]
  | .data => dependencies ++ [⟨scope, [], ValueName.dataOffset⟩, ⟨scope, [], ValueName.dataLength⟩]
  | _ => dependencies

/-- The template of a value. -/
def value (c : EmitContext) (scope : ScopeIndex) (v : PendingValue) : Emission ValueTemplate := do
  let kind ← kind c scope v
  let (init, dependencies) ← match v.definition with
    | .implied value => pure (Init.constant value, [])
    | .markup raw place => text c scope (some v.name) raw place
  return ⟨v.name, kind, init, (observed scope dependencies kind).eraseDups⟩

/-- The template of an event handler, which has to be one expression. -/
def event (c : EmitContext) (scope : ScopeIndex) (e : PendingEvent) : Emission EventTemplate := do
  match ← text c scope none e.raw e.place, Part.split? e.raw with
  | (.compute handler, _), some [.code ..] => return ⟨e.event, handler⟩
  | _, _ => throw (.invalidHandler e.event)

/-! ## Scopes -/

/-- The errors and warnings met so far. -/
structure Findings where
  errors : List CompileError
  warnings : List CompileWarning
  deriving Inhabited

/-- Runs a step; a failure is an error at `place`, and then there is no result. -/
def collect {α : Type} (c : EmitContext) (place : Option Nat) (step : Emission α) :
    StateM Findings (List α) := fun f =>
  match step.run f.warnings with
  | (.ok a, warnings) => ([a], { f with warnings })
  | (.error cause, warnings) =>
    ([], ⟨f.errors ++ [Outline.errorAt c.options c.source cause place], warnings⟩)

/-- Inserts a value behind those that may stand before it. -/
def insertSorted (v : ValueTemplate) : List ValueTemplate → List ValueTemplate
  | [] => [v]
  | w :: ws => if v.name < w.name then v :: w :: ws else w :: insertSorted v ws

/-- Values by name; those of one name stay in order. -/
def sorted (vs : List ValueTemplate) : List ValueTemplate :=
  vs.foldl (fun acc v => insertSorted v acc) []

/-- The templates of a scope's values and events. Handlers come last. -/
def scope (c : EmitContext) (index : ScopeIndex) (p : PendingScope) :
    StateM Findings (List ValueTemplate × List EventTemplate) := do
  let values ← p.values.mapM fun v =>
    collect c (v.definition.place?.or p.element) (value c index v)
  let events ← p.events.mapM fun e => collect c (e.place.or p.element) (event c index e)
  let (handlers, others) := values.flatten.partition fun v => v.kind.isHandler
  return (sorted others ++ sorted handlers, events.flatten)

end Emission

namespace ScopeTree

/-- The template of a scope with all below it, down to `depth` levels. -/
def assemble (t : ScopeTree) (templates : List (List ValueTemplate × List EventTemplate)) :
    (depth : Nat) → ScopeIndex → ScopeTemplate
  | 0, index => ⟨index, none, [], [], []⟩
  | depth + 1, index =>
    let s := (t.get? index).getD (.empty none)
    let (values, events) := (templates[index]?).getD ([], [])
    ⟨index, s.ownAlias, values, events, s.children.map (assemble t templates depth)⟩

end ScopeTree

end ReactiveMarkup
