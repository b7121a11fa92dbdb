import ReactiveMarkup.Compile.Declaration
import ReactiveMarkup.Graph.Basic

/-!
# Building and destroying scopes

Scopes, cells and listeners are built from templates. Links and listeners wait until a whole tree of
scopes stands. A link that would close a cycle of observers is left out.

Main definitions: `Graph.builder`, `Graph.reaches`, `Graph.resolveLinks`, `Graph.destroy`.
-/
namespace ReactiveMarkup.Graph

/-! ## Scopes and values -/

/-- Builds a scope. A seed that waits makes it a copy; otherwise its parent takes it in, under its
alias if it has one. -/
def buildScope (t : ScopeTemplate) (parent : Option ScopeId) (node : NodeId) : GraphM ScopeId := do
  let seed := (← get).seed
  let s : LiveScope :=
    { template := t, parent, node, values := [], aliases := [], children := [], clones := []
      cloneIndex := seed.map (·.1), listeners := [], seed := seed.map (·.2) }
  let (id, scopes) := (← get).scopes.insert s
  modify fun g => { g with scopes, seed := none }
  match seed, parent with
  | none, some p =>
    modifyScope p fun q =>
      { q with
        children := q.children ++ [id]
        aliases := match t.ownAlias with
          | some name => Keyed.insert name id q.aliases
          | none => q.aliases }
  | _, _ => pure ()
  return id

/-- The cell of a value before it observes anything. -/
def newCell (g : Graph) (scope : ScopeId) (v : ValueTemplate) : Cell where
  template := v
  scope := scope
  output := match v.init with
    | .constant value => value.value
    | .compute _ => .undefined
  compute := match v.init with
    | .constant _ => none
    | .compute e => some e
  evaluated := none
  observers := []
  observing := []
  replica := none
  text := match v.kind with
    | .text place => (g.scopeNode? scope).bind fun node => g.textNode? node place
    | _ => none

/-- Builds a value. Data takes the item of a copy, if there is one to take; otherwise it makes a
list. -/
def buildValue (scope : ScopeId) (v : ValueTemplate) : GraphM ValueId := do
  let cell := newCell (← get) scope v
  let cell ← match v.kind with
    | .data =>
      match ((← get).scopes.get? scope).bind (·.seed) with
      | some item => do
        modifyScope scope fun s => { s with seed := none }
        pure { cell with output := item, compute := none }
      | none =>
        pure { cell with output := .undefined, replica := some ⟨cell.output, .undefined, .undefined, false⟩ }
    | _ => pure cell
  let (id, values) := (← get).values.insert cell
  modify fun g => { g with values, order := g.order ++ [id] }
  modifyScope scope fun s => { s with values := Keyed.insert v.name id s.values }
  return id

/-- Leaves a link to be made. -/
def buildLink (scope : ScopeId) (observer : ValueId) (path : ValuePath) : GraphM Unit :=
  modify fun g => { g with pendingLinks := g.pendingLinks ++ [⟨scope, observer, path⟩] }

/-- Builds a listener and leaves it to be attached. -/
def buildListener (scope : ScopeId) (e : EventTemplate) : GraphM Unit := do
  match (← get).scopeNode? scope with
  | none => return ()
  | some node =>
    let (id, listeners) := (← get).listeners.insert ⟨scope, node, e, false⟩
    modify fun g => { g with listeners, pendingListeners := g.pendingListeners ++ [id] }
    modifyScope scope fun s => { s with listeners := s.listeners ++ [id] }

/-- The steps of building live scopes. -/
def builder : Builder Graph ScopeId ValueId where
  locate index within := return (← get).elementOf? index within
  scope := buildScope
  value := buildValue
  link := buildLink
  event := buildListener

/-! ## Links -/

/-- How many links lead on from values that were not seen yet. -/
def unseenLinks (cells : List (ValueId × Cell)) (seen : List ValueId) : Nat :=
  ((cells.filter fun e => !seen.contains e.1).flatMap fun e => e.2.observers).length

/-- The observers of a value. -/
def observersOf (g : Graph) (id : ValueId) : List ValueId :=
  ((g.values.get? id).map (·.observers)).getD []

theorem unseenLinks_cons_le (cells : List (ValueId × Cell)) (id : ValueId) (seen : List ValueId) :
    unseenLinks cells (id :: seen) ≤ unseenLinks cells seen := by
  simp only [unseenLinks]
  induction cells with
  | nil => simp
  | cons e cells ih => grind

theorem unseenLinks_cons_add_le {cells : List (ValueId × Cell)} {id : ValueId} {c : Cell}
    {seen : List ValueId} (hm : (id, c) ∈ cells) (hs : seen.contains id = false) :
    unseenLinks cells (id :: seen) + c.observers.length ≤ unseenLinks cells seen := by
  induction cells with
  | nil => simp at hm
  | cons e cells ih =>
    have := unseenLinks_cons_le cells id seen
    simp only [unseenLinks] at *
    grind

theorem unseenLinks_observersOf_le (g : Graph) {id : ValueId} {seen : List ValueId}
    (hs : seen.contains id = false) :
    unseenLinks g.values.entries (id :: seen) + (g.observersOf id).length
      ≤ unseenLinks g.values.entries seen := by
  unfold observersOf
  match h : g.values.get? id with
  | none => simpa using unseenLinks_cons_le _ _ _
  | some c => simpa using unseenLinks_cons_add_le (Slots.mem_entries_iff.2 h) hs

/-- Whether a value is among those of a list or observes one of them, directly or through others.
The observers of those in `seen` were looked at or are in the list. -/
def reachesFrom (g : Graph) (target : ValueId) (seen : List ValueId) : List ValueId → Bool
  | [] => false
  | id :: rest =>
    if id = target then true
    else if hs : seen.contains id then reachesFrom g target seen rest
    else
      have := unseenLinks_observersOf_le g (Bool.eq_false_iff.2 hs)
      reachesFrom g target (id :: seen) (g.observersOf id ++ rest)
termination_by ids => unseenLinks g.values.entries seen + ids.length
decreasing_by
  all_goals simp only [List.length_append, List.length_cons]
  all_goals omega

/-- Whether `target` is `id` or observes it, directly or through others. -/
def reaches (g : Graph) (id target : ValueId) : Bool := g.reachesFrom target [] [id]

/-- Adds something at the end of a list, unless it is there. -/
def addNew (id : ValueId) (ids : List ValueId) : List ValueId :=
  if ids.contains id then ids else ids ++ [id]

/-- Makes a link, unless its path leads nowhere or it would close a cycle. -/
def resolveLink (l : PendingLink) : GraphM Unit := do
  let g ← get
  match g.resolve? l.scope l.path with
  | none => report (.unresolved (g.nameOf l.observer) l.path)
  | some observed =>
    if g.options.detectCycles && g.reaches l.observer observed then
      report (.cycle (g.nameOf l.observer) l.path)
    else do
      modifyCell observed fun c => { c with observers := addNew l.observer c.observers }
      modifyCell l.observer fun c => { c with observing := addNew observed c.observing }

/-- Makes the links that wait. -/
def resolveLinks : GraphM Unit := do
  let links := (← get).pendingLinks
  modify fun g => { g with pendingLinks := [] }
  links.forM resolveLink

/-! ## Listeners -/

/-- Attaches a listener to its element. -/
def attachListener (id : ListenerId) : GraphM Unit := do
  match (← get).listeners.get? id with
  | none => return ()
  | some l =>
    if !l.attached then
      modify fun g =>
        { g with
          listeners := g.listeners.modify id fun l => { l with attached := true }
          host := g.host.listen l.node l.template.event }

/-- Attaches the listeners that wait. -/
def attachListeners : GraphM Unit := do
  let ids := (← get).pendingListeners
  modify fun g => { g with pendingListeners := [] }
  ids.forM attachListener

/-! ## Destruction -/

/-- Removes a value from the graph and from what it observes and what observes it. -/
def removeValue (id : ValueId) : GraphM Unit := do
  match (← get).values.get? id with
  | none => return ()
  | some c =>
    modify fun g => { g with values := g.values.erase id }
    c.observing.forM fun other =>
      modifyCell other fun d => { d with observers := d.observers.filter (· != id) }
    c.observers.forM fun other =>
      modifyCell other fun d => { d with observing := d.observing.filter (· != id) }

/-- Removes a listener, and takes it off its element. -/
def removeListener (id : ListenerId) : GraphM Unit := do
  match (← get).listeners.get? id with
  | none => return ()
  | some l =>
    modify fun g => { g with listeners := g.listeners.erase id }
    if l.attached then modify fun g => { g with host := g.host.unlisten l.node l.template.event }

/-- Removes a scope and everything that was built under it, down to `depth` levels. -/
def destroyTo : (depth : Nat) → ScopeId → GraphM Unit
  | 0, _ => return ()
  | depth + 1, id => do
    match (← get).scopes.get? id with
    | none => return ()
    | some s =>
      modify fun g => { g with scopes := g.scopes.erase id }
      (s.children ++ s.clones).forM (destroyTo depth)
      s.values.forM fun (_, v) => removeValue v
      s.listeners.forM removeListener

/-- Removes a scope and everything that was built under it. The document stays. A tree of scopes is
no deeper than there are scopes. -/
def destroy (id : ScopeId) : GraphM Unit := do destroyTo (← get).scopes.size id

end ReactiveMarkup.Graph
