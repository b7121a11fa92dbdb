import ReactiveMarkup.Document.Basic
import ReactiveMarkup.Expr.Print
import ReactiveMarkup.Text.Quoted
import ReactiveMarkup.Value.Basic

/-!
# Programs

A program is a tree of scope templates. A template tells which values and events a scope has. To
instantiate it is to build the scope on an element, then its values with their links, then its
events, and then each child scope whose element is found.

Main definitions: `ScopeTemplate`, `Program`, `Builder`, `ScopeTemplate.instantiate`.
-/
namespace ReactiveMarkup

/-- What a value's output does. -/
inductive ValueKind where
  /-- nothing; it only feeds other values -/
  | plain
  /-- it decides whether the element has a class -/
  | className (name : String)
  | style (property : String)
  | attr (name : String)
  /-- it is the text of the node at a place under the element -/
  | text (place : Nat)
  /-- it replicates the element -/
  | data
  /-- it is sent out as a request -/
  | request
  /-- its expression runs when the watched value changes -/
  | handler (watched : ValuePath)
  deriving DecidableEq, Repr, Inhabited

namespace ValueKind

/-- Whether a value runs its expression for its effects. -/
def isHandler : ValueKind → Bool
  | handler _ => true
  | _ => false

end ValueKind

/-- Where a value's first output comes from. -/
inductive Init where
  | constant (value : Literal)
  | compute (expr : Expr)
  deriving Inhabited

/-- A value to be built. -/
structure ValueTemplate where
  name : String
  kind : ValueKind
  init : Init
  /-- the values that it observes, each once, in the order of first use -/
  dependencies : List ValuePath
  deriving Inhabited

namespace ValueTemplate

/-- How the value is listed: its name and its constant or expression. -/
def toText (v : ValueTemplate) : String :=
  match v.init with
  | .constant value => v.name ++ " = " ++ Quoted.encode value.value.toText
  | .compute expr => v.name ++ " = " ++ expr.toText

end ValueTemplate

/-- An event handler to be attached. -/
structure EventTemplate where
  event : String
  handler : Expr
  deriving Inhabited

namespace EventTemplate

/-- How the handler is listed. -/
def toText (e : EventTemplate) : String := "on " ++ e.event ++ " = " ++ e.handler.toText

end EventTemplate

/-- A scope to be built. -/
structure ScopeTemplate where
  index : ScopeIndex
  ownAlias : Option String
  /-- handlers stand after all other values, both sorted by name -/
  values : List ValueTemplate
  events : List EventTemplate
  children : List ScopeTemplate
  deriving Inhabited

/-- The steps of building a scope tree in a world `σ`. -/
structure Builder (σ Scope Value : Type) where
  /-- the element of a scope under a node -/
  locate : ScopeIndex → NodeId → StateM σ (Option NodeId)
  scope : ScopeTemplate → Option Scope → NodeId → StateM σ Scope
  value : Scope → ValueTemplate → StateM σ Value
  /-- makes a value observe what a path leads to -/
  link : Scope → Value → ValuePath → StateM σ Unit
  event : Scope → EventTemplate → StateM σ Unit

namespace ScopeTemplate

mutual

/-- A template and all below it in tree order. -/
def walk : ScopeTemplate → List ScopeTemplate
  | t@⟨_, _, _, _, children⟩ => t :: walkAll children

/-- Templates and all below them in tree order. -/
def walkAll : List ScopeTemplate → List ScopeTemplate
  | [] => []
  | t :: ts => walk t ++ walkAll ts

end

/-- How the scope is listed: a line for itself and one for each of its values and events. -/
def lines (t : ScopeTemplate) : List String :=
  let shown := match t.ownAlias with
    | some a => " as " ++ a
    | none => ""
  let children := ", ".intercalate (t.children.map fun c => toString c.index)
  ("scope " ++ toString t.index ++ shown ++ " [" ++ children ++ "]")
    :: t.values.map (fun v => "  " ++ v.toText) ++ t.events.map fun e => "  " ++ e.toText

variable {σ Scope Value : Type}

/-- Builds a value and its links. -/
def buildValue (b : Builder σ Scope Value) (scope : Scope) (v : ValueTemplate) : StateM σ Unit := do
  let value ← b.value scope v
  v.dependencies.forM fun path => b.link scope value path

mutual

/-- Builds a scope on an element, and each scope below it whose element is found. -/
def instantiate (b : Builder σ Scope Value) (parent : Option Scope) (node : NodeId) :
    ScopeTemplate → StateM σ Scope
  | t@⟨_, _, values, events, children⟩ => do
    let scope ← b.scope t parent node
    values.forM (buildValue b scope)
    events.forM (b.event scope)
    instantiateAll b scope node children
    return scope

/-- Builds the scopes under another one. -/
def instantiateAll (b : Builder σ Scope Value) (parent : Scope) (within : NodeId) :
    List ScopeTemplate → StateM σ Unit
  | [] => return ()
  | t :: ts => do
    match ← b.locate t.index within with
    | some node => discard <| instantiate b (some parent) node t
    | none => pure ()
    instantiateAll b parent within ts

end

end ScopeTemplate

/-- A compiled document's scopes. -/
structure Program where
  root : Option ScopeTemplate
  /-- the attribute that holds the index of an element's scope -/
  scopeAttribute : String
  deriving Inhabited

namespace Program

/-- All templates in tree order. -/
def scopes (p : Program) : List ScopeTemplate :=
  match p.root with
  | some t => t.walk
  | none => []

/-- The listing of a program, each line with its end. -/
def toText (p : Program) : String :=
  String.join ((p.scopes.flatMap ScopeTemplate.lines).map (· ++ "\n"))

/-- Builds all scopes, the first one on `node`. -/
def instantiate {σ Scope Value : Type} (p : Program) (b : Builder σ Scope Value) (node : NodeId) :
    StateM σ (Option Scope) :=
  match p.root with
  | some t => some <$> t.instantiate b none node
  | none => return none

end Program

end ReactiveMarkup
