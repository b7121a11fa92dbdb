import ReactiveMarkup.Compile.Compilation
import ReactiveMarkup.Document.Read
import ReactiveMarkup.Graph.Propagate

/-!
# Driving a graph from outside

A graph is mounted once its program is known. From then on values are read and written, events are
dispatched, and requests are completed. Each of these returns when everything it reaches is up to
date. How values are read and assigned is a parameter; the settings of a graph decide it.

Main definitions: `Graph.mount`, `Graph.read`, `Graph.write`, `Graph.dispatch`, `Graph.complete`.
-/
namespace ReactiveMarkup

namespace Graph

section

/-! ## Mounting -/

variable (entry : Graph → Reentry)

/-- Makes the links and attaches the listeners that wait, and evaluates every value in a new
cycle. -/
def startWith : GraphM Unit := do
  resolveLinks
  attachListeners
  modify fun g => { g with cycle := g.cycle + 1 }
  let g ← get
  pushing (g.order.forM fun id => discard ((entry g).pull id))

/-- Builds the program's scopes on the document and starts. Gives the first scope, unless the
program has none or its element is missing. -/
def mountWith : GraphM (Option ScopeId) := do
  let g ← get
  match g.program.root with
  | none => return none
  | some t =>
    match g.elementOf? t.index Document.root with
    | none => return none
    | some node =>
      let root ← t.instantiate builder none node
      modify fun g => { g with root := some root }
      startWith entry
      return some root

/-! ## Values -/

/-- Reads a value that is found in the graph. -/
def getWith (id : ValueId) : GraphM Value := do (entry (← get)).pull id

/-- Reads a value by its name, as seen from a scope. -/
def readWith (scope : ScopeId) (name : String) : GraphM (Option Value) := do
  match (← get).lookup? scope name with
  | some id => some <$> getWith entry id
  | none => return none

/-- Assigns a value that is found in the graph. -/
def putWith (id : ValueId) (v : Value) : GraphM Unit := do (entry (← get)).assign id v

/-- Assigns a value by its name, as seen from a scope. Tells whether there is one. -/
def writeWith (scope : ScopeId) (name : String) (v : Value) : GraphM Bool := do
  match (← get).lookup? scope name with
  | some id =>
    putWith entry id v
    return true
  | none => return false

/-! ## Events -/

/-- The handlers of an event on a node, with their scopes. -/
def handlers (g : Graph) (node : NodeId) (event : String) : List (ScopeId × EventTemplate) :=
  g.listeners.entries.filterMap fun (_, l) =>
    if l.attached && l.node = node && l.template.event = event then some (l.scope, l.template)
    else none

/-- Runs one handler. -/
def handleWith (scope : ScopeId) (e : EventTemplate) (payload : Value) : GraphM Unit := do
  noteRun .event
  if let .error error ← evaluate (entry (← get)) scope e.handler (some payload) then
    report (.handler e.event error)

/-- Runs the handlers of an event on a node, and tells how many there are. -/
def dispatchWith (node : NodeId) (event : String) (payload : Value) : GraphM Nat := do
  let targets := (← get).handlers node event
  targets.forM fun (scope, e) => handleWith entry scope e payload
  return targets.length

/-! ## Requests -/

/-- Keeps the body of a response in the markup, if that was asked for. -/
def keepEcho (echo : Option NodeId) (outcome : Except RequestError Response) : GraphM Unit := do
  match echo, outcome with
  | some node, .ok response =>
    if response.isSuccess then
      if let .error e ← (tell (·.setAttribute node Marker.echo response.body)).run then
        report (.sideEffect ValueName.requestEcho e)
  | _, _ => return ()

/-- Notes that no request is pending. -/
def settle : GraphM Unit :=
  modify fun g => if g.requests.isEmpty then { g with settled := g.settled + 1 } else g

/-- Takes the outcome of a request. Tells whether the request was pending. -/
def completeWith (id : RequestId) (outcome : Except RequestError Response) : GraphM Bool := do
  match (← get).requests.lookup id with
  | none => return false
  | some pending =>
    modify fun g => { g with requests := g.requests.filter fun r => r.1 != id }
    keepEcho pending.echo outcome
    deliver (entry (← get)).assign pending.target pending.request.url outcome
    settle
    return true

end

/-! ## As the settings of the graph have it -/

/-- Starts a graph. -/
def start : GraphM Unit := startWith reentry

/-- Mounts a graph. -/
def mount : GraphM (Option ScopeId) := mountWith reentry

/-- Reads a value by its name, as seen from a scope. -/
def read (scope : ScopeId) (name : String) : GraphM (Option Value) := readWith reentry scope name

/-- Assigns a value that is found in the graph. -/
def put (id : ValueId) (v : Value) : GraphM Unit := putWith reentry id v

/-- Assigns a value by its name, as seen from a scope. Tells whether there is one. -/
def write (scope : ScopeId) (name : String) (v : Value) : GraphM Bool :=
  writeWith reentry scope name v

/-- Runs the handlers of an event on a node, and tells how many there are. -/
def dispatch (node : NodeId) (event : String) (payload : Value) : GraphM Nat :=
  dispatchWith reentry node event payload

/-- Takes the outcome of a request. Tells whether the request was pending. -/
def complete (id : RequestId) (outcome : Except RequestError Response) : GraphM Bool :=
  completeWith reentry id outcome

end Graph

namespace Document

/-- Compiles a document and mounts its program, with the usual settings. -/
def mount (o : CompileOptions) (source : Option String) (d : Document) : Compilation × Graph :=
  let c := d.compile o source
  let g := Graph.ofProgram c.program .standard (.ofDocument c.document)
  (c, (Graph.mount.run g).2)

/-- Compiles and mounts a page. -/
def mountPage (o : CompileOptions) (html : String) : Compilation × Graph :=
  (ofPage html).mount o (some html)

/-- Compiles and mounts a fragment. -/
def mountFragment (o : CompileOptions) (html : String) : Compilation × Graph :=
  (ofFragment html).mount o (some html)

end Document

end ReactiveMarkup
