import ReactiveMarkup.Document.Markers
import ReactiveMarkup.Graph.Diagnostic
import ReactiveMarkup.Graph.Options
import ReactiveMarkup.Program
import ReactiveMarkup.Slots

/-!
# Graphs of live values

A graph is what a program becomes on a document: live scopes, each on an element, and in each scope
the cells of its values. A cell observes others, and is brought up to date when one of them changes.
All work belongs to a cycle, and in one cycle a cell is evaluated at most once.

Main definitions: `Cell`, `LiveScope`, `Listener`, `Run`, `Graph`, `Graph.resolve?`, `Graph.lookup?`.
-/
namespace ReactiveMarkup

/-- What finds a live scope. -/
abbrev ScopeId := Slots.Key

/-- What finds a cell. -/
abbrev ValueId := Slots.Key

/-- What finds a listener. -/
abbrev ListenerId := Slots.Key

/-- What a list was last made from. -/
structure Replica where
  source : Value
  offset : Value
  length : Value
  /-- whether a list was made yet -/
  applied : Bool
  deriving Inhabited

/-- A live value. -/
structure Cell where
  template : ValueTemplate
  scope : ScopeId
  output : Value
  /-- the expression that gives the output, until the value is assigned -/
  compute : Option Expr
  /-- the cycle of the last evaluation -/
  evaluated : Option Nat
  observers : List ValueId
  observing : List ValueId
  /-- there for the data of a scope that makes a list -/
  replica : Option Replica
  /-- the node that a text is written to -/
  text : Option NodeId
  deriving Inhabited

/-- A scope on an element. -/
structure LiveScope where
  template : ScopeTemplate
  parent : Option ScopeId
  node : NodeId
  values : List (String × ValueId)
  /-- the children with an alias; copies are never among them -/
  aliases : List (String × ScopeId)
  children : List ScopeId
  /-- the copies that the list of this scope has made, in order -/
  clones : List ScopeId
  /-- the place among the copies, for a copy -/
  cloneIndex : Option Nat
  listeners : List ListenerId
  /-- the item that the data of a copy starts with, until it is built -/
  seed : Option Value
  deriving Inhabited

/-- An event handler on an element. -/
structure Listener where
  scope : ScopeId
  node : NodeId
  template : EventTemplate
  attached : Bool
  deriving Inhabited

/-- A link still to be made: `observer`, a value of `scope`, is to observe what `path` leads to. -/
structure PendingLink where
  scope : ScopeId
  observer : ValueId
  path : ValuePath
  deriving DecidableEq, Repr, Inhabited

/-- A request without an answer yet. -/
structure PendingRequest where
  request : Request
  /-- the value that gets the answer -/
  target : ValueId
  /-- the element that keeps the answer in the markup -/
  echo : Option NodeId
  deriving Inhabited

/-- Whose expression is run. -/
inductive Runner where
  /-- a value that is evaluated -/
  | value (id : ValueId)
  /-- a handler of changes -/
  | handler (id : ValueId)
  /-- a handler of events -/
  | event
  deriving DecidableEq, Repr, Inhabited

/-- A run of an expression, in the cycle in which it begins. -/
structure Run where
  runner : Runner
  cycle : Nat
  deriving DecidableEq, Repr, Inhabited

/-- A graph with its host. -/
structure Graph where
  host : Host
  program : Program
  options : GraphOptions
  cycle : Nat
  /-- how many steps are under way within which writes do not begin a cycle -/
  pushLevel : Nat
  /-- how many reads and writes are under way within each other -/
  depth : Nat
  scopes : Slots LiveScope
  values : Slots Cell
  /-- the live values, in the order of creation -/
  order : List ValueId
  listeners : Slots Listener
  requests : List (RequestId × PendingRequest)
  /-- how many requests were sent out -/
  issued : Nat
  pendingLinks : List PendingLink
  pendingListeners : List ListenerId
  /-- the place and the item of the scope built next, if that is a copy -/
  seed : Option (Nat × Value)
  root : Option ScopeId
  diagnostics : List Diagnostic
  /-- the runs of expressions of values and handlers, the last one first -/
  runs : List Run
  /-- how many times an output was shown or a list was made -/
  effects : Nat
  /-- how many times the last pending request was answered -/
  settled : Nat
  stamps : Stamp
  deriving Inhabited

/-- A computation on a graph. -/
abbrev GraphM (α : Type) := StateM Graph α

namespace Graph

/-- A graph in which nothing is built yet. -/
def ofProgram (program : Program) (options : GraphOptions) (host : Host) : Graph where
  host := host
  program := program
  options := options
  cycle := 0
  pushLevel := 0
  depth := 0
  scopes := .empty
  values := .empty
  order := []
  listeners := .empty
  requests := []
  issued := 0
  pendingLinks := []
  pendingListeners := []
  seed := none
  root := none
  diagnostics := []
  runs := []
  effects := 0
  settled := 0
  stamps := 0

/-! ## Scopes -/

/-- A scope and the scopes around it, nearest first, at most `count` of them. -/
def ancestorsUpTo (g : Graph) : (count : Nat) → ScopeId → List (ScopeId × LiveScope)
  | 0, _ => []
  | count + 1, id =>
    match g.scopes.get? id with
    | none => []
    | some s =>
      (id, s) :: match s.parent with
        | some p => ancestorsUpTo g count p
        | none => []

/-- A scope and the scopes around it, nearest first. No more than all scopes are around one. -/
def ancestors (g : Graph) (scope : ScopeId) : List (ScopeId × LiveScope) :=
  g.ancestorsUpTo g.scopes.size scope

/-- The value of a name that a scope itself declares. -/
def scopeValue? (g : Graph) (scope : ScopeId) (name : String) : Option ValueId :=
  (g.scopes.get? scope).bind (·.values.lookup name)

/-- The value of a name that the nearest scope declares. -/
def lookup? (g : Graph) (scope : ScopeId) (name : String) : Option ValueId :=
  (g.ancestors scope).findSome? fun (_, s) => s.values.lookup name

/-- The value that a path leads to from a scope. The path starts at the nearest instance of its
anchor around the scope, so it means the same in every copy of the scope. -/
def resolve? (g : Graph) (scope : ScopeId) (path : ValuePath) : Option ValueId := do
  let (anchor, _) ← (g.ancestors scope).find? fun (_, s) => s.template.index = path.anchor
  let owner ← path.aliases.foldlM (fun id name => do (← g.scopes.get? id).aliases.lookup name) anchor
  g.scopeValue? owner path.name

/-- The element of a scope. -/
def scopeNode? (g : Graph) (scope : ScopeId) : Option NodeId :=
  (g.scopes.get? scope).map (·.node)

/-- The scope on an element. -/
def scopeAt? (g : Graph) (node : NodeId) : Option ScopeId :=
  (g.scopes.entries.find? fun (_, s) => s.node = node).map (·.1)

/-- The copies that the list of a scope has made, in order. -/
def clones (g : Graph) (scope : ScopeId) : List ScopeId :=
  ((g.scopes.get? scope).map (·.clones)).getD []

/-! ## Values -/

/-- How many expressions of values and handlers were run. -/
def evaluations (g : Graph) : Nat := g.runs.length

/-- The output of a value. -/
def output? (g : Graph) (id : ValueId) : Option Value := (g.values.get? id).map (·.output)

/-- The name of a value. -/
def nameOf (g : Graph) (id : ValueId) : String :=
  ((g.values.get? id).map (·.template.name)).getD ""

/-! ## Elements -/

/-- The element with the index of a scope in a subtree down to `depth` levels; copies are left
out with all below them. -/
def elementTo? (d : Document) (mark index : String) : (depth : Nat) → NodeId → Option NodeId
  | 0, _ => none
  | depth + 1, node =>
    if (d.attribute? node Marker.clone).isSome then none
    else if d.attribute? node mark = some index then some node
    else (d.children node).findSome? (elementTo? d mark index depth)

/-- The first element below a node that has the index of a scope and is no copy. -/
def elementOf? (g : Graph) (index : ScopeIndex) (within : NodeId) : Option NodeId :=
  let d := g.host.document
  (d.children within).findSome? (elementTo? d g.program.scopeAttribute (toString index) d.nodes.size)

/-- The node at a place under an element, copies not counted. -/
def textNode? (g : Graph) (node : NodeId) (place : Nat) : Option NodeId :=
  let d := g.host.document
  ((d.children node).filter fun c => (d.attribute? c Marker.clone).isNone)[place]?

/-! ## Changes -/

/-- A computation that looks at the graph first. -/
theorem run_get_bind {α : Type} (k : Graph → GraphM α) (g : Graph) :
    (get >>= k).run g = (k g).run g := rfl

/-- Changes a scope. -/
def modifyScope (id : ScopeId) (f : LiveScope → LiveScope) : GraphM Unit :=
  modify fun g => { g with scopes := g.scopes.modify id f }

/-- Changes a cell. -/
def modifyCell (id : ValueId) (f : Cell → Cell) : GraphM Unit :=
  modify fun g => { g with values := g.values.modify id f }

/-- Notes a diagnostic. -/
def report (d : Diagnostic) : GraphM Unit :=
  modify fun g => { g with diagnostics := g.diagnostics ++ [d] }

/-- Notes a run of an expression. -/
def noteRun (runner : Runner) : GraphM Unit :=
  modify fun g => { g with runs := ⟨runner, g.cycle⟩ :: g.runs }

/-- Counts an effect. -/
def countEffect : GraphM Unit := modify fun g => { g with effects := g.effects + 1 }

/-- Runs a step within which writes do not begin a cycle. -/
def pushing {α : Type} (step : GraphM α) : GraphM α := do
  modify fun g => { g with pushLevel := g.pushLevel + 1 }
  let a ← step
  modify fun g => { g with pushLevel := g.pushLevel - 1 }
  return a

/-- Changes the host, unless it refuses. -/
def tell (f : Host → Host.Change) : ExceptT HostError (StateM Graph) Unit := fun g =>
  match f g.host with
  | .ok host => (.ok (), { g with host })
  | .error e => (.error e, g)

end Graph

end ReactiveMarkup
