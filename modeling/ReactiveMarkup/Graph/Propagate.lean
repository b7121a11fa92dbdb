import ReactiveMarkup.Graph.Binding
import ReactiveMarkup.Graph.Build
import ReactiveMarkup.Graph.Window

/-!
# Propagation

Reading a value evaluates it, at most once in a cycle, and what a change reaches is brought up to
date at once: the value is shown in the document, a list is made from it, a request is sent out, and
its observers are read. All of this may read and assign other values. So the steps below take the
two operations that they use on the way, and the operations themselves are defined by how many more
of them may be under way within each other.

Main definitions: `Graph.pull` (reading a value), `Graph.assign` (assigning one).
-/
namespace ReactiveMarkup

/-- Reading and assigning values within a step. -/
structure Reentry where
  pull : ValueId → GraphM Value
  assign : ValueId → Value → GraphM Unit

namespace Graph

/-! ## Expressions -/

/-- How an expression of a scope reads and writes values. -/
def accessor (r : Reentry) (scope : ScopeId) : Accessor Graph where
  get path := fun (stamps, g) =>
    let g := { g with stamps }
    match g.resolve? scope path with
    | none => (.error (.unresolved path), g.stamps, g)
    | some id =>
      let (v, g) := (r.pull id).run g
      (.ok v, g.stamps, g)
  set path v := fun (stamps, g) =>
    let g := { g with stamps }
    match g.resolve? scope path with
    | none => (.error (.unresolved path), g.stamps, g)
    | some id =>
      let (_, g) := (r.assign id v).run g
      (.ok (), g.stamps, g)

/-- Evaluates an expression of a scope, with the value of an event if there is one. -/
def evaluate (r : Reentry) (scope : ScopeId) (body : Expr) (event : Option Value) :
    GraphM (Except EvalError Value) := fun g =>
  let env := match event with
    | some v => [(Reserved.event, v)]
    | none => []
  let (result, frame) :=
    (Eval.run (accessor r scope) g.options.maxCalls body).run ⟨env, g.stamps, g⟩
  (result, { frame.world with stamps := frame.stamps })

/-- Runs an expression of a value. If it fails, that is reported. -/
def attempt (r : Reentry) (id : ValueId) (scope : ScopeId) (body : Expr) : GraphM (Option Value) := do
  match ← evaluate r scope body none with
  | .ok v => return some v
  | .error e =>
    report (.recompute ((← get).nameOf id) e)
    return none

/-- The new output of a handler is what it watches. If that has changed, the handler runs. -/
def runHandler (r : Reentry) (id : ValueId) (cell : Cell) (watched : ValuePath) (first : Bool) :
    GraphM Value := do
  let current ← match (← get).resolve? cell.scope watched with
    | some w => r.pull w
    | none => pure .undefined
  match cell.compute with
  | some body =>
    if !first && !current.looseEq cell.output then
      noteRun (.handler id)
      discard (attempt r id cell.scope body)
  | none => pure ()
  return current

/-- The new output of a value, if there is one: what its expression gives, or the source of a list
that was assigned. An expression that fails gives none. -/
def recompute (r : Reentry) (id : ValueId) (first : Bool) : GraphM (Option Value) := do
  match (← get).values.get? id with
  | none => return none
  | some cell =>
    match cell.template.kind, cell.compute with
    | .handler watched, _ => some <$> runHandler r id cell watched first
    | _, some body =>
      noteRun (.value id)
      attempt r id cell.scope body
    | _, none => return cell.replica.map (·.source)

/-! ## Requests -/

/-- Gives the outcome of a request to its target: the value of the response, or an object that tells
what went wrong. -/
def deliver (assign : ValueId → Value → GraphM Unit) (target : ValueId) (url : String)
    (outcome : Except RequestError Response) : GraphM Unit := do
  let value ← match outcome.bind (·.value (← get).stamps) with
    | .ok (v, stamps) =>
      modify fun g => { g with stamps }
      pure v
    | .error e =>
      let stamp := (← get).stamps
      modify fun g => { g with stamps := stamp + 1 }
      report (.request url e)
      pure (e.payload stamp)
  if (← get).values.contains target then assign target value

/-- Sends out a request for a value. -/
def send (request : Request) (target : ValueId) (echo : Option NodeId) : GraphM Unit :=
  modify fun g =>
    { g with
      requests := g.requests ++ [(g.issued, ⟨request, target, echo⟩)]
      issued := g.issued + 1
      host := g.host.send g.issued request }

/-- Sends out the request that a value describes. At first, a response that the markup has kept is
taken instead. -/
def issue (r : Reentry) (id : ValueId) (first : Bool) : GraphM Unit := do
  let g ← get
  match g.values.get? id with
  | none => return ()
  | some cell =>
    if cell.output.isNullish then return ()
    match Request.ofValue cell.output with
    | .error e => report (.request cell.output.toText e)
    | .ok request =>
      match g.scopeValue? cell.scope ValueName.data, g.scopeNode? cell.scope with
      | none, _ => report (.request request.url .missingTarget)
      | some _, none => return ()
      | some target, some node =>
        match first, g.host.document.attribute? node Marker.echo with
        | true, some body => deliver r.assign target request.url (.ok (.ok body))
        | _, _ =>
          let echo ← match g.scopeValue? cell.scope ValueName.requestEcho with
            | some echo => Value.truthy <$> r.pull echo
            | none => pure false
          send request target (if echo then some node else none)

/-! ## Showing outputs -/

/-- Shows the output of a value. -/
def apply (r : Reentry) (id : ValueId) (first : Bool) : GraphM Unit := do
  let g ← get
  match g.values.get? id with
  | none => return ()
  | some cell =>
    let kind := cell.template.kind
    if kind.isBound then
      let target := match kind with
        | .text _ => cell.text
        | _ => g.scopeNode? cell.scope
      match target with
      | none => report (.sideEffect cell.template.name (.other "bound text node is missing"))
      | some node =>
        countEffect
        pushing do
          match kind with
          | .request => issue r id first
          | _ =>
            if let .error e ← (tell fun h => kind.bind node cell.output h).run then
              report (.sideEffect cell.template.name e)

/-! ## Lists -/

/-- The elements before that of a scope that are copies of it, nearest first. -/
def siblingClones (g : Graph) (scope : ScopeId) : List NodeId :=
  match g.scopes.get? scope with
  | none => []
  | some s =>
    let d := g.host.document
    (d.previousSiblings s.node).filter fun n =>
      d.attribute? n g.program.scopeAttribute == some (toString s.template.index)
        && (d.attribute? n Marker.clone).isSome

/-- The elements of the copies of a scope. -/
def ownedNodes (g : Graph) (scope : ScopeId) : List NodeId := (g.clones scope).filterMap g.scopeNode?

/-- A copy's element that the markup already holds for a place, if no copy has it. -/
def adoptable? (g : Graph) (scope : ScopeId) (place : Nat) : Option NodeId :=
  let owned := g.ownedNodes scope
  (g.siblingClones scope).find? fun n =>
    !owned.contains n && g.host.document.attribute? n Marker.clone == some (toString place)

/-- Copies an element to before it, with its place among the copies. -/
def copyElement (element : NodeId) (place : Nat) : ExceptT HostError (StateM Graph) NodeId := do
  let g ← get
  match g.host.cloneFragment element with
  | .error e => throw e
  | .ok (node, host) =>
    set { g with host }
    tell (·.setAttribute node Marker.clone (toString place))
    tell (·.insertBefore element node)
    return node

/-- Brings values to life that were built last, all but the first `count`. -/
def activate (r : Reentry) (count : Nat) : GraphM Unit := do
  resolveLinks
  attachListeners
  let fresh := (← get).order.drop count
  pushing (fresh.forM fun id => discard (r.pull id))

/-- Builds a copy of a scope for an item. -/
def spawn (r : Reentry) (scope : ScopeId) (place : Nat) (item : Value) :
    ExceptT HostError (StateM Graph) Unit := do
  match (← get).scopes.get? scope with
  | none => return ()
  | some s =>
    let node ← match (← get).adoptable? scope place with
      | some node => pure node
      | none => copyElement s.node place
    let count := (← get).order.length
    modify fun g => { g with seed := some (place, item) }
    let clone ← (s.template.instantiate builder s.parent node : GraphM ScopeId)
    modify fun g => { g with seed := none }
    modifyScope scope fun s => { s with clones := s.clones ++ [clone] }
    activate r count

/-- Builds copies for items from a place on, until the host refuses one. -/
def spawnAll (r : Reentry) (id : ValueId) (scope : ScopeId) : (place : Nat) → List Value → GraphM Unit
  | _, [] => return ()
  | place, item :: items => do
    match ← (spawn r scope place item).run with
    | .ok () => spawnAll r id scope (place + 1) items
    | .error e => report (.replication ((← get).nameOf id) e)

/-- Removes an element. -/
def removeElement (node : NodeId) : GraphM Unit := do
  if let .error e ← (tell (·.removeFragment node)).run then report (.replication ValueName.data e)

/-- Removes a copy with its element. -/
def removeClone (clone : ScopeId) : GraphM Unit := do
  let node := (← get).scopeNode? clone
  destroy clone
  match node with
  | some n => removeElement n
  | none => return ()

/-- Removes all copies but the first `keep`, the last one first. -/
def trim (scope : ScopeId) (keep : Nat) : GraphM Unit := do
  let removed := ((← get).clones scope).drop keep
  modifyScope scope fun s => { s with clones := s.clones.take keep }
  if !removed.isEmpty then
    removed.reverse.forM removeClone
    modify fun g => { g with order := g.order.filter g.values.contains }

/-- Removes the copies' elements that no copy has. -/
def sweep (scope : ScopeId) : GraphM Unit := do
  let g ← get
  let owned := g.ownedNodes scope
  ((g.siblingClones scope).filter fun n => !owned.contains n).forM removeElement

/-- Gives an item to a copy. -/
def refill (r : Reentry) (clone : ScopeId) (item : Value) : GraphM Unit := do
  match (← get).scopeValue? clone ValueName.data with
  | some data => r.assign data item
  | none => return ()

/-- Makes as many copies of a scope as there are items, each with its item. -/
def syncClones (r : Reentry) (id : ValueId) (scope : ScopeId) (items : List Value) : GraphM Unit := do
  let existing := (← get).clones scope
  pushing do
    (existing.zip items).forM fun (clone, item) => refill r clone item
    spawnAll r id scope existing.length (items.drop existing.length)
    trim scope items.length
    sweep scope

/-- Makes a list from a source, and gives what the scope itself shows: the last item of the window,
or the source if that is no array. -/
def replicate (r : Reentry) (id : ValueId) (scope : ScopeId) (source offset length : Value) :
    GraphM Value := do
  match source with
  | .array _ all =>
    let items := window all offset length
    syncClones r id scope items.dropLast
    return items.getLast?.getD .undefined
  | _ =>
    syncClones r id scope []
    return source

/-- The value of a name that a scope itself declares; undefined if it declares none. -/
def companion (r : Reentry) (scope : ScopeId) (name : String) : GraphM Value := do
  match (← get).scopeValue? scope name with
  | some id => r.pull id
  | none => return .undefined

/-! ## Commitment -/

/-- Stores an output, and tells whether it has changed. -/
def storeOutput (id : ValueId) (v : Value) : GraphM Bool := do
  match (← get).values.get? id with
  | none => return false
  | some cell =>
    if cell.output.looseEq v then return false
    else
      modifyCell id fun c => { c with output := v }
      return true

/-- Makes a list anew from a source, unless nothing has changed, and tells whether the output has
changed. -/
def commitData (r : Reentry) (id : ValueId) (scope : ScopeId) (source : Value) (first : Bool) :
    GraphM Bool := do
  let offset ← companion r scope ValueName.dataOffset
  let length ← companion r scope ValueName.dataLength
  match ((← get).values.get? id).bind (·.replica) with
  | none => return false
  | some last =>
    let unchanged := last.applied && last.source.looseEq source && last.offset.looseEq offset
      && last.length.looseEq length
    if unchanged && !first then return false
    else
      modifyCell id fun c => { c with replica := some ⟨source, offset, length, true⟩ }
      countEffect
      storeOutput id (← replicate r id scope source offset length)

/-- Takes a new output over and shows it, and tells whether it is a change. -/
def commit (r : Reentry) (id : ValueId) (next : Value) (first : Bool) : GraphM Bool := do
  match (← get).values.get? id with
  | none => return false
  | some cell =>
    if cell.replica.isSome then commitData r id cell.scope next first
    else
      let changed ← storeOutput id next
      if changed || first then apply r id first
      return changed

/-- Brings the observers of a value up to date. -/
def notify (r : Reentry) (id : ValueId) : GraphM Unit := do
  ((← get).observersOf id).forM fun observer => discard (r.pull observer)

/-! ## Reading and assigning -/

/-- Runs a step within a read or write, if one more may be under way; `r` is missing if not. -/
def entering (r : Option Reentry) (id : ValueId) (step : Reentry → GraphM Unit) : GraphM Unit := do
  match r with
  | none =>
    let g ← get
    report (.depthExceeded (g.nameOf id) g.options.maxDepth)
  | some r =>
    modify fun g => { g with depth := g.depth + 1 }
    step r
    modify fun g => { g with depth := g.depth - 1 }

/-- Evaluates a value for the first or a further time. -/
def refresh (r : Reentry) (id : ValueId) (first : Bool) : GraphM Unit := do
  match ← recompute r id first with
  | some next => if ← commit r id next first then notify r id
  | none => if first then apply r id true

/-- Reads a value; it is evaluated unless it was in this cycle. -/
def pullWith (r : Option Reentry) (id : ValueId) : GraphM Value := do
  let g ← get
  match g.values.get? id with
  | none => return .undefined
  | some cell =>
    if cell.evaluated = some g.cycle then return cell.output
    else
      modifyCell id fun c => { c with evaluated := some g.cycle }
      entering r id fun r => refresh r id cell.evaluated.isNone
      return ((← get).output? id).getD .undefined

/-- Notifies the observers of a value that was assigned. This begins a cycle, unless it happens
within another step. -/
def announce (r : Reentry) (id : ValueId) : GraphM Unit := do
  if (← get).pushLevel = 0 then modify fun g => { g with cycle := g.cycle + 1 }
  let cycle := (← get).cycle
  modifyCell id fun c => { c with evaluated := some cycle }
  pushing (notify r id)

/-- Assigns a value; its expression, unless it is a handler, is dropped. -/
def assignWith (r : Option Reentry) (id : ValueId) (v : Value) : GraphM Unit := do
  match (← get).values.get? id with
  | none => return ()
  | some cell =>
    if !cell.template.kind.isHandler then modifyCell id fun c => { c with compute := none }
    entering r id fun r => do
      let changed ← commit r id v false
      if changed && !cell.observers.isEmpty then announce r id

mutual

/-- Reads a value, with at most `remaining` reads and writes within each other. -/
def pull : (remaining : Nat) → ValueId → GraphM Value
  | 0, id => pullWith none id
  | remaining + 1, id => pullWith (some ⟨pull remaining, assign remaining⟩) id

/-- Assigns a value, with at most `remaining` reads and writes within each other. -/
def assign : (remaining : Nat) → ValueId → Value → GraphM Unit
  | 0, id, v => assignWith none id v
  | remaining + 1, id, v => assignWith (some ⟨pull remaining, assign remaining⟩) id v

end

/-- Reading and assigning as deep as the settings allow. -/
def reentry (g : Graph) : Reentry :=
  let remaining := g.options.maxDepth - g.depth
  ⟨pull remaining, assign remaining⟩

end Graph

end ReactiveMarkup
