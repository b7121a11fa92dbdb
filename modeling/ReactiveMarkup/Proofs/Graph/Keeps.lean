import ReactiveMarkup.Graph.Drive
import ReactiveMarkup.Proofs.Eval.Confined

/-!
# What propagation keeps

Reading and assigning values is made of a few kinds of step: a cell is revised or marked, a cycle
begins, something is shown or sent out, a copy is built, copies are removed. A property that each of
them keeps is kept by reading and assigning, however deep they nest. Also, a step cannot tell apart
two ways to read and assign that do the same on graphs with such a property.

The property may depend on how much is under way: on an index that changes where a step pushes and
where it enters a read or write.

Reading and assigning may send out requests, but take no answers. A property that answers break can
still be followed through them.

Main definitions: `Graph.Keeps`, `Graph.Agree`, `Graph.Routine`, `Graph.Regimen`,
`Graph.Discipline`, `Graph.Invariant`.
Main results: `Graph.Routine.refresh_agree`, `Graph.Regimen.with_agree`,
`Graph.Regimen.reentry_agree`.
-/
namespace ReactiveMarkup

/-- Whether a diagnostic is about links, which are made when scopes are built. -/
def Diagnostic.isLink : Diagnostic → Bool
  | unresolved .. | cycle .. => true
  | _ => false

/-- A cell as propagation may revise it: its place in the graph stays, and it gets no expression. -/
structure Cell.Revised (c c' : Cell) : Prop where
  template : c'.template = c.template
  scope : c'.scope = c.scope
  observers : c'.observers = c.observers
  observing : c'.observing = c.observing
  text : c'.text = c.text
  compute : c'.compute = c.compute ∨ c'.compute = none

/-- A cell as propagation may revise it within a cycle: it is marked as evaluated in that one, if it
is marked anew. -/
structure Cell.RevisedIn (cycle : Nat) (c c' : Cell) : Prop extends Cell.Revised c c' where
  evaluated : c'.evaluated = c.evaluated ∨ c'.evaluated = some cycle

/-- A host changes in its document only. -/
theorem Host.change_eq_ok {m : HostMethod} {f : Document → Document.Change} {h h' : Host}
    (ok : h.change m f = .ok h') : ∃ d, f h.document = .ok d ∧ h' = { h with document := d } := by
  unfold Host.change at ok
  split at ok
  · cases ok
  · split at ok
    · rename_i d hd
      cases ok
      exact ⟨d, hd, rfl⟩
    · cases ok

theorem Host.cloneFragment_eq_ok {node copy : NodeId} {h h' : Host}
    (ok : h.cloneFragment node = .ok (copy, h')) : ∃ d, h' = { h with document := d } := by
  unfold Host.cloneFragment at ok
  split at ok
  · cases ok
  · split at ok
    · rename_i d hd
      cases ok
      exact ⟨d, rfl⟩
    · cases ok

/-- Showing a value changes the document only. -/
theorem ValueKind.bind_eq_ok {kind : ValueKind} {node : NodeId} {v : Value} {h h' : Host}
    (ok : kind.bind node v h = .ok h') : ∃ d, h' = { h with document := d } := by
  have hchange {m : HostMethod} {f : Document → Document.Change} (ok : h.change m f = .ok h') :
      ∃ d, h' = { h with document := d } :=
    (Host.change_eq_ok ok).imp fun _ hd => hd.2
  cases kind with
  | className c =>
    unfold bind at ok
    dsimp only at ok
    split at ok <;> exact hchange ok
  | style p =>
    unfold bind at ok
    dsimp only at ok
    split at ok <;> exact hchange ok
  | attr name =>
    unfold bind at ok
    dsimp only at ok
    split at ok <;> exact hchange ok
  | text place => exact hchange (m := .setText) (f := (·.setText node v.rendered)) ok
  | plain | data | request | handler =>
    cases ok
    exact ⟨_, rfl⟩

namespace Graph

variable {α β : Type} {I : Graph → Prop}

/-- A step after which a graph satisfies `I` if it did before. -/
def Keeps (I : Graph → Prop) (m : GraphM α) : Prop := ∀ g, I g → I (m.run g).2

namespace Keeps

theorem pure (a : α) : Keeps I (Pure.pure a : GraphM α) := fun _ h => h

theorem bind {m : GraphM α} {k : α → GraphM β} (hm : Keeps I m) (hk : ∀ a, Keeps I (k a)) :
    Keeps I (m >>= k) :=
  fun g h => hk _ _ (hm g h)

/-- After a look at the graph, what was seen may be used. -/
theorem get_bind {k : Graph → GraphM β} (hk : ∀ g, I g → I ((k g).run g).2) :
    Keeps I (get >>= k) :=
  fun g h => hk g h

theorem look {k : Graph → GraphM β} (hk : ∀ g, Keeps I (k g)) : Keeps I (get >>= k) :=
  fun g h => hk g g h

theorem modify {f : Graph → Graph} (h : ∀ g, I g → I (f g)) :
    Keeps I (modify f : GraphM Unit) :=
  fun g hg => h g hg

theorem map {m : GraphM α} (hm : Keeps I m) (f : α → β) : Keeps I (f <$> m) :=
  fun g h => hm g h

theorem discard {m : GraphM α} (hm : Keeps I m) : Keeps I (discard m) := hm.map _

theorem forM {xs : List α} {f : α → GraphM PUnit} (hf : ∀ x ∈ xs, Keeps I (f x)) :
    Keeps I (xs.forM f) := by
  induction xs with
  | nil => exact .pure _
  | cons x xs ih =>
    change Keeps I (f x >>= fun _ => xs.forM f)
    refine (hf x (List.mem_cons_self ..)).bind fun _ => ih fun y hy => ?_
    exact hf y (List.mem_cons_of_mem _ hy)

end Keeps

/-- On graphs that satisfy `I`, both steps do the same, and the graph satisfies `I` afterwards. -/
def Agree (I : Graph → Prop) (m m' : GraphM α) : Prop :=
  ∀ g, I g → m.run g = m'.run g ∧ I (m.run g).2

theorem Keeps.agree {m : GraphM α} (h : Keeps I m) : Agree I m m := fun g hg => ⟨rfl, h g hg⟩

namespace Agree

theorem keeps {m m' : GraphM α} (h : Agree I m m') : Keeps I m := fun g hg => (h g hg).2

theorem pure (a : α) : Agree I (Pure.pure a) (Pure.pure a) := (Keeps.pure a).agree

theorem bind {m m' : GraphM α} {k k' : α → GraphM β} (hm : Agree I m m')
    (hk : ∀ a, Agree I (k a) (k' a)) : Agree I (m >>= k) (m' >>= k') := by
  intro g hg
  obtain ⟨heq, hI⟩ := hm g hg
  rw [StateT.run_bind, StateT.run_bind, ← heq]
  exact hk _ _ hI

theorem get_bind {k k' : Graph → GraphM β}
    (hk : ∀ g, I g → (k g).run g = (k' g).run g ∧ I ((k g).run g).2) :
    Agree I (get >>= k) (get >>= k') :=
  fun g hg => hk g hg

theorem map {m m' : GraphM α} (hm : Agree I m m') (f : α → β) : Agree I (f <$> m) (f <$> m') := by
  intro g hg
  obtain ⟨heq, hI⟩ := hm g hg
  rw [StateT.run_map, StateT.run_map, ← heq]
  exact ⟨rfl, hI⟩

theorem discard {m m' : GraphM α} (hm : Agree I m m') : Agree I (discard m) (discard m') := hm.map _

theorem forM {xs : List α} {f f' : α → GraphM PUnit} (hf : ∀ x ∈ xs, Agree I (f x) (f' x)) :
    Agree I (xs.forM f) (xs.forM f') := by
  induction xs with
  | nil => exact .pure _
  | cons x xs ih =>
    change Agree I (f x >>= fun _ => xs.forM f) (f' x >>= fun _ => xs.forM f')
    refine (hf x (List.mem_cons_self ..)).bind fun _ => ih fun y hy => ?_
    exact hf y (List.mem_cons_of_mem _ hy)

end Agree

theorem run_tell (f : Host → Host.Change) (g : Graph) :
    ((tell f).run : GraphM (Except HostError Unit)).run g =
      match f g.host with
      | .ok host => (.ok (), { g with host })
      | .error e => (.error e, g) := by
  cases h : f g.host <;> simp [tell, ExceptT.run, StateT.run, h]

theorem run_pushing (m : GraphM α) (g : Graph) :
    (pushing m).run g =
      ((m.run { g with pushLevel := g.pushLevel + 1 }).1,
        { (m.run { g with pushLevel := g.pushLevel + 1 }).2 with
          pushLevel := (m.run { g with pushLevel := g.pushLevel + 1 }).2.pushLevel - 1 }) := rfl

/-- Graphs that differ at most in counters, and in diagnostics that are not about links. -/
structure Quiet (g g' : Graph) : Prop where
  host : g'.host = g.host
  program : g'.program = g.program
  options : g'.options = g.options
  scopes : g'.scopes = g.scopes
  values : g'.values = g.values
  order : g'.order = g.order
  listeners : g'.listeners = g.listeners
  requests : g'.requests = g.requests
  pendingLinks : g'.pendingLinks = g.pendingLinks
  pendingListeners : g'.pendingListeners = g.pendingListeners
  seed : g'.seed = g.seed
  root : g'.root = g.root
  diagnostics : ∃ ds, g'.diagnostics = g.diagnostics ++ ds ∧ ∀ d ∈ ds, d.isLink = false

/-- Counters do not matter. -/
theorem Quiet.of_counters {g g' : Graph}
    (h : g' = { g with
      cycle := g'.cycle, pushLevel := g'.pushLevel, depth := g'.depth, runs := g'.runs
      effects := g'.effects, settled := g'.settled, stamps := g'.stamps, issued := g'.issued }) :
    Quiet g g' := by
  rw [h]
  exact ⟨rfl, rfl, rfl, rfl, rfl, rfl, rfl, rfl, rfl, rfl, rfl, rfl, [], (List.append_nil _).symm,
    fun _ h => by cases h⟩

/-- Graphs that are quiet to each other, in the same cycle, with as much under way, with the same runs
noted and with as many requests sent out. -/
structure Still (g g' : Graph) : Prop extends Quiet g g' where
  cycle : g'.cycle = g.cycle
  pushLevel : g'.pushLevel = g.pushLevel
  depth : g'.depth = g.depth
  runs : g'.runs = g.runs
  issued : g'.issued = g.issued
  settled : g'.settled = g.settled

theorem Still.of_counters {g g' : Graph}
    (h : g' = { g with effects := g'.effects, stamps := g'.stamps }) : Still g g' := by
  rw [h]
  exact { Quiet.of_counters rfl with
    cycle := rfl
    pushLevel := rfl
    depth := rfl
    runs := rfl
    issued := rfl
    settled := rfl }

theorem Still.of_report {g : Graph} {d : Diagnostic} (h : d.isLink = false) :
    Still g { g with diagnostics := g.diagnostics ++ [d] } :=
  ⟨⟨rfl, rfl, rfl, rfl, rfl, rfl, rfl, rfl, rfl, rfl, rfl, rfl, [d], rfl, by simpa using h⟩,
    rfl, rfl, rfl, rfl, rfl, rfl⟩

/-- Building a copy of a scope on an element that stands ready, with its links. -/
def plant (scope : ScopeId) (s : LiveScope) (place : Nat) (item : Value) (node : NodeId) :
    GraphM Unit := do
  modify fun g => { g with seed := some (place, item) }
  let clone ← (s.template.instantiate builder s.parent node : GraphM ScopeId)
  modify fun g => { g with seed := none }
  modifyScope scope fun s => { s with clones := s.clones ++ [clone] }
  resolveLinks

/-- A graph in which a value is marked as evaluated in the cycle. -/
def marked (g : Graph) (id : ValueId) : Graph :=
  { g with values := g.values.modify id fun c => { c with evaluated := some g.cycle } }

/-- A graph that has noted that it stopped at a value with this name. -/
def refused (g : Graph) (name : String) : Graph :=
  { g with diagnostics := g.diagnostics ++ [.depthExceeded name g.options.maxDepth] }

/-- A graph in which a run of an expression is noted. -/
def noted (g : Graph) (runner : Runner) : Graph :=
  { g with runs := ⟨runner, g.cycle⟩ :: g.runs }

/-- What may be used within a read or write, with at most `remaining` of them within each other. -/
def reentryWithin : (remaining : Nat) → Option Reentry
  | 0 => none
  | remaining + 1 => some ⟨pull remaining, assign remaining⟩

theorem pull_eq (remaining : Nat) : pull remaining = pullWith (reentryWithin remaining) := by
  cases remaining <;> rfl

theorem assign_eq (remaining : Nat) : assign remaining = assignWith (reentryWithin remaining) := by
  cases remaining <;> rfl

/-- Reading a live value gives its output, after it was evaluated unless it was in this cycle. -/
theorem run_pullWith {g : Graph} {id : ValueId} {c : Cell} (hc : g.values.get? id = some c) (r : Option Reentry) :
    (pullWith r id).run g =
      if c.evaluated = some g.cycle then (c.output, g)
      else
        let g' := ((entering r id fun r => refresh r id c.evaluated.isNone).run (g.marked id)).2
        ((g'.output? id).getD .undefined, g') := by
  rw [pullWith, run_get_bind, hc]
  dsimp only
  split <;> rfl

/-- Reading a value marks it and evaluates it, unless it was evaluated in this cycle. -/
theorem snd_run_pullWith (r : Option Reentry) (id : ValueId) (g : Graph) :
    ((pullWith r id).run g).2 =
      match g.values.get? id with
      | none => g
      | some c =>
        if c.evaluated = some g.cycle then g
        else ((entering r id fun r => refresh r id c.evaluated.isNone).run (g.marked id)).2 := by
  rw [pullWith, run_get_bind]
  cases g.values.get? id with
  | none => rfl
  | some c =>
    dsimp only
    split <;> rfl

theorem run_pull (remaining : Nat) (id : ValueId) (g : Graph) :
    ((pull remaining id).run g).2 =
      match g.values.get? id with
      | none => g
      | some c =>
        if c.evaluated = some g.cycle then g
        else
          let refreshing := entering (reentryWithin remaining) id fun r => refresh r id c.evaluated.isNone
          (refreshing.run (g.marked id)).2 := by
  rw [pull_eq]
  exact snd_run_pullWith _ id g

/-- Assigning a value drops its expression, unless it is a handler, and commits what is assigned. -/
theorem snd_run_assignWith (r : Option Reentry) (id : ValueId) (v : Value) (g : Graph) :
    ((assignWith r id v).run g).2 =
      match g.values.get? id with
      | none => g
      | some c =>
        let committing := entering r id fun r => do
          let changed ← commit r id v false
          if changed && !c.observers.isEmpty then announce r id
        (committing.run (if c.template.kind.isHandler then g else { g with
          values := g.values.modify id fun c => { c with compute := none } })).2 := by
  rw [assignWith, run_get_bind]
  cases g.values.get? id with
  | none => rfl
  | some c =>
    dsimp only
    cases c.template.kind.isHandler <;> rfl

theorem run_assign (remaining : Nat) (id : ValueId) (v : Value) (g : Graph) :
    ((assign remaining id v).run g).2 =
      match g.values.get? id with
      | none => g
      | some c =>
        let committing := entering (reentryWithin remaining) id fun r => do
          let changed ← commit r id v false
          if changed && !c.observers.isEmpty then announce r id
        (committing.run (if c.template.kind.isHandler then g else { g with
          values := g.values.modify id fun c => { c with compute := none } })).2 := by
  rw [assign_eq]
  exact snd_run_assignWith _ id v g

theorem run_entering_none (id : ValueId) (step : Reentry → GraphM Unit) (g : Graph) :
    (entering none id step).run g = ((), g.refused (g.nameOf id)) := rfl

/-- The cycle in which a write notifies: within a step that pushes it is the present one. -/
def noticeCycle (g : Graph) : Nat := if g.pushLevel = 0 then g.cycle + 1 else g.cycle

/-- The observers of a value are notified in a cycle that is its own. -/
theorem run_announce (r : Reentry) (id : ValueId) (g : Graph) :
    ((announce r id).run g).2 =
      ((pushing (notify r id)).run ({ g with cycle := g.noticeCycle }.marked id)).2 := by
  rw [announce, run_get_bind, noticeCycle]
  split <;> rfl

/-- Reading the values that were built last, all but the first `count`. -/
def enliven (r : Reentry) (count : Nat) : GraphM Unit := do
  let fresh := (← get).order.drop count
  pushing (fresh.forM fun id => discard (r.pull id))

theorem run_copyElement (element : NodeId) (place : Nat) (g : Graph) :
    (copyElement element place).run.run g =
      match g.host.cloneFragment element with
      | .error e => (.error e, g)
      | .ok (node, host₁) =>
        match host₁.setAttribute node Marker.clone (toString place) with
        | .error e => (.error e, { g with host := host₁ })
        | .ok host₂ =>
          match host₂.insertBefore element node with
          | .error e => (.error e, { g with host := host₂ })
          | .ok host => (.ok node, { g with host }) := by
  unfold copyElement
  rw [run_run_get_bind]
  cases g.host.cloneFragment element with
  | error e => rfl
  | ok u =>
    obtain ⟨node, host₁⟩ := u
    dsimp only
    have hset : (set { g with host := host₁ } : ExceptT HostError (StateM Graph) PUnit).run.run g =
        (.ok (), { g with host := host₁ }) := rfl
    rw [run_run_bind, hset]
    dsimp only
    rw [run_run_bind]
    have htell := run_tell (·.setAttribute node Marker.clone (toString place))
      { g with host := host₁ }
    rw [htell]
    cases host₁.setAttribute node Marker.clone (toString place) with
    | error e => rfl
    | ok host₂ =>
      dsimp only
      rw [run_run_bind, run_tell]
      dsimp only
      cases host₂.insertBefore element node <;> rfl

/-- Copying an element changes the document at most. -/
theorem Keeps.copyElement
    (h : ∀ {g : Graph} document, I g → I { g with host := { g.host with document } })
    (element : NodeId) (place : Nat) : Keeps I (Graph.copyElement element place).run := by
  intro g hg
  have hrun := run_copyElement element place g
  rw [hrun]
  cases hclone : g.host.cloneFragment element with
  | error e => exact hg
  | ok u =>
    obtain ⟨node, host₁⟩ := u
    obtain ⟨d, rfl⟩ := Host.cloneFragment_eq_ok hclone
    dsimp only
    cases hset : { g.host with document := d }.setAttribute node Marker.clone (toString place) with
    | error e => exact h d hg
    | ok host₂ =>
      obtain ⟨d₂, -, rfl⟩ := Host.change_eq_ok hset
      dsimp only
      cases hinsert : { g.host with document := d₂ }.insertBefore element node with
      | error e => exact h d₂ hg
      | ok host₃ =>
        obtain ⟨d₃, -, rfl⟩ := Host.change_eq_ok hinsert
        exact h d₃ hg

/-- A change that the host is told of changes the document at most. -/
theorem Keeps.tell (h : ∀ {g : Graph} document, I g → I { g with host := { g.host with document } })
    (m : HostMethod) (f : Document → Document.Change) : Keeps I (Graph.tell (·.change m f)).run := by
  intro g hg
  rw [run_tell]
  split
  · rename_i host hhost
    obtain ⟨d, -, rfl⟩ := Host.change_eq_ok hhost
    exact h d hg
  · exact hg

/-- Removing an element changes the document, or is reported. -/
theorem Keeps.removeElement
    (h : ∀ {g : Graph} document ds, I g →
      I { g with host := { g.host with document }, diagnostics := g.diagnostics ++ ds })
    (node : NodeId) : Keeps I (Graph.removeElement node) := by
  have htell : Keeps I (Graph.tell (·.removeFragment node)).run := by
    refine .tell (fun {g} d hg => ?_) .removeFragment _
    have hchanged := h d [] hg
    rwa [List.append_nil] at hchanged
  unfold Graph.removeElement
  refine htell.bind fun result => ?_
  split
  · exact .modify fun g hg => h g.host.document _ hg
  · exact .pure _

/-- Spawning is planting a copy on an element found or made for it, attaching its listeners and
reading its values. -/
theorem run_spawn (r : Reentry) (scope : ScopeId) (place : Nat) (item : Value) (g : Graph) :
    (spawn r scope place item).run.run g =
      match g.scopes.get? scope with
      | none => (.ok (), g)
      | some s =>
        match g.adoptable? scope place with
        | some node =>
          let planted := ((plant scope s place item node >>= fun _ => attachListeners).run g).2
          (.ok (), ((enliven r g.order.length).run planted).2)
        | none =>
          match (copyElement s.node place).run.run g with
          | (.ok node, g') =>
            let planted := ((plant scope s place item node >>= fun _ => attachListeners).run g').2
            (.ok (), ((enliven r g'.order.length).run planted).2)
          | (.error e, g') => (.error e, g') := by
  unfold spawn
  rw [run_run_get_bind]
  cases hs : g.scopes.get? scope with
  | none => rfl
  | some s =>
    dsimp only
    rw [run_run_get_bind]
    cases ha : g.adoptable? scope place with
    | some node => rfl
    | none =>
      dsimp only
      rw [run_run_bind]
      generalize hc : (copyElement s.node place).run.run g = u
      obtain ⟨result, g'⟩ := u
      cases result with
      | ok node => rfl
      | error e => rfl

/-- What a handler does once it has what it watches. -/
def handled (r : Reentry) (id : ValueId) (cell : Cell) (first : Bool) (current : Value) :
    GraphM Value := do
  match cell.compute with
  | some body =>
    if !first && !current.looseEq cell.output then
      noteRun (.handler id)
      discard (attempt r id cell.scope body)
  | none => pure ()
  return current

/-- Revising a cell keeps a property. -/
def Revises {ι : Type} (I : ι → Graph → Prop) (id : ValueId) : Prop :=
  ∀ (i : ι) (g : Graph) (f : Cell → Cell), I i g → (∀ c, Cell.RevisedIn g.cycle c (f c)) →
    I i { g with values := g.values.modify id f }

/-- Marking a value as evaluated in the cycle keeps a property. -/
def Marks {ι : Type} (I : ι → Graph → Prop) (id : ValueId) : Prop :=
  ∀ (i : ι) (g : Graph), I i g → I i (g.marked id)

/-- Noting a run of the expression of a value keeps a property. -/
def Notes {ι : Type} (I : ι → Graph → Prop) (id : ValueId) : Prop :=
  ∀ (i : ι) (g : Graph), I i g → I i (g.noted (.value id)) ∧ I i (g.noted (.handler id))

/-- Making a list anew from a source, once the window is known. -/
def remake (r : Reentry) (id : ValueId) (scope : ScopeId) (source : Value) (first : Bool)
    (offset length : Value) : GraphM Bool := do
  match ((← get).values.get? id).bind (·.replica) with
  | none => return false
  | some last =>
    let unchanged := last.applied && last.source.looseEq source && last.offset.looseEq offset
      && last.length.looseEq length
    if unchanged && !first then return false
    else
      modifyCell id fun c => { c with replica := some ⟨source, offset, length, true⟩ }
      countEffect
      storeOutput id (← replicate r id scope source offset length)

/-- What is done to make as many copies as there are items, once it is known which copies there are. -/
def synced (r : Reentry) (id : ValueId) (scope : ScopeId) (items : List Value)
    (existing : List ScopeId) : GraphM Unit := do
  (existing.zip items).forM fun (clone, item) => refill r clone item
  spawnAll r id scope existing.length (items.drop existing.length)
  trim scope items.length
  sweep scope

/-- What is done with a new output, or with there being none. -/
def concluded (r : Reentry) (id : ValueId) (first : Bool) : Option Value → GraphM Unit
  | some next => do if ← commit r id next first then notify r id
  | none => do if first then apply r id true

/-- A property that every kind of step of reading and assigning keeps, but for the revision of a cell, its
mark and the run of its expression. Its index tells what is under way, and `inner` is what is under way
within a step that pushes. Values are of the kinds in `K`. -/
structure Routine {ι : Type} (inner : ι → ι) (K : ValueKind → Prop) (I : ι → Graph → Prop) :
    Prop where
  still : ∀ {i g g'}, I i g → Still g g' → I i g'
  pushed : ∀ {i} {g : Graph}, I i g → I (inner i) { g with pushLevel := g.pushLevel + 1 }
  popped : ∀ {i} {g : Graph}, I (inner i) g → I i { g with pushLevel := g.pushLevel - 1 }
  begun : ∀ {i} {g : Graph}, I i g → g.pushLevel = 0 → I i { g with cycle := g.cycle + 1 }
  kinds : ∀ {i g id c}, I i g → g.values.get? id = some c → K c.template.kind
  shown : ∀ {i} {g : Graph} {kind node v host}, I i g → K kind → kind.bind node v g.host = .ok host →
    I i { g with host }
  sent : ∀ {i g} request target echo, I i g → K .request →
    I i ((send request target echo).run g).2
  adopted : ∀ {i g scope s place node} item, I i g → g.scopes.get? scope = some s →
    g.adoptable? scope place = some node →
    I i ((plant scope s place item node >>= fun _ => attachListeners).run g).2
  copied : ∀ {i g scope s} place item, I i g → g.scopes.get? scope = some s →
    match (copyElement s.node place).run.run g with
    | (.ok node, g') => I i ((plant scope s place item node >>= fun _ => attachListeners).run g').2
    | (.error _, g') => I i g'
  trimmed : ∀ i scope keep, Keeps (I i) (trim scope keep)
  swept : ∀ i scope, Keeps (I i) (sweep scope)

/-- A property that every kind of step of reading and assigning keeps. -/
structure Regimen {ι : Type} (inner : ι → ι) (K : ValueKind → Prop) (I : ι → Graph → Prop) :
    Prop extends Routine inner K I where
  revised : ∀ {i g id} {f : Cell → Cell}, I i g → (∀ c, Cell.RevisedIn g.cycle c (f c)) →
    I i { g with values := g.values.modify id f }
  noted : ∀ {i} {g : Graph} (runner : Runner), I i g → I i (g.noted runner)

/-- A property that taking an answer keeps. -/
structure Answering {ι : Type} (I : ι → Graph → Prop) : Prop where
  answered : ∀ {i} {g : Graph} {id pending}, I i g → g.requests.lookup id = some pending →
    I i { g with requests := g.requests.filter fun r => r.1 != id } ∧
      ∀ node body host, pending.echo = some node →
        g.host.setAttribute node Marker.echo body = .ok host →
        I i { g with host, requests := g.requests.filter fun r => r.1 != id }
  settled : ∀ {i} {g : Graph} (settled : Nat), I i g → I i { g with settled }

/-- A property that every kind of step keeps, and taking an answer as well. -/
structure Discipline {ι : Type} (inner : ι → ι) (K : ValueKind → Prop) (I : ι → Graph → Prop) :
    Prop extends Regimen inner K I, Answering I

/-- A property of graphs between reads and writes, and one within a further read or write. -/
structure Enters {ι : Type} (I J : ι → Graph → Prop) : Prop where
  entered : ∀ {i} {g : Graph}, I i g → J i { g with depth := g.depth + 1 }
  left : ∀ {i} {g : Graph}, J i g → I i { g with depth := g.depth - 1 }

end Graph

/-- Two ways to read and assign that do the same on graphs with a property, and keep it. -/
structure Reentry.Agree (I : Graph → Prop) (r r' : Reentry) : Prop where
  pull : ∀ id, Graph.Agree I (r.pull id) (r'.pull id)
  assign : ∀ id v, Graph.Agree I (r.assign id v) (r'.assign id v)

namespace Graph

variable {α β : Type}

section

variable {ι : Type} {inner : ι → ι} {K : ValueKind → Prop} {I J : ι → Graph → Prop}
  {r r' : Reentry} {id : ValueId}

/-- Marking a cell is revising it. -/
theorem Revises.marks (hid : Revises I id) : Marks I id :=
  fun i g h => hid i g _ h fun _ => ⟨⟨rfl, rfl, rfl, rfl, rfl, .inl rfl⟩, .inr rfl⟩

/-- Revising a cell in what is not the mark of its evaluation. -/
theorem Revises.modifyCell_keeps (hid : Revises I id) {f : Cell → Cell}
    (hf : ∀ c, Cell.Revised c (f c) ∧ (f c).evaluated = c.evaluated) (i : ι) :
    Keeps (I i) (modifyCell id f) :=
  .modify fun g hg => hid i g f hg fun c => ⟨(hf c).1, .inl (hf c).2⟩

namespace Routine

variable (hI : Routine inner K I)
include hI

theorem counters {f : Graph → Graph}
    (h : ∀ g, f g = { g with effects := (f g).effects, stamps := (f g).stamps }) (i : ι) :
    Keeps (I i) (modify f : GraphM Unit) :=
  .modify fun g hg => hI.still hg (.of_counters (h g))

theorem report_keeps {d : Diagnostic} (h : d.isLink = false) (i : ι) : Keeps (I i) (report d) :=
  .modify fun _ hg => hI.still hg (.of_report h)

theorem countEffect_keeps (i : ι) : Keeps (I i) countEffect := hI.counters (fun _ => rfl) i

theorem pushing_agree {m m' : GraphM α} {i : ι} (hm : Agree (I (inner i)) m m') :
    Agree (I i) (pushing m) (pushing m') := by
  intro g hg
  obtain ⟨heq, hm'⟩ := hm _ (hI.pushed hg)
  rw [run_pushing, run_pushing, ← heq]
  exact ⟨rfl, hI.popped hm'⟩

/-! ## Expressions -/

variable (hr : ∀ i, Reentry.Agree (I i) r r')
include hr

theorem accessor_sameOn (scope : ScopeId) (i : ι) :
    Accessor.SameOn (I i) (accessor r scope) (accessor r' scope) where
  get path next g hg := by
    have hg' : I i { g with stamps := next } := hI.still hg (.of_counters rfl)
    simp only [accessor]
    cases resolve? { g with stamps := next } scope path with
    | none => exact ⟨rfl, hg'⟩
    | some id =>
      obtain ⟨heq, h⟩ := (hr i).pull id _ hg'
      dsimp only
      rw [← heq]
      exact ⟨rfl, h⟩
  set path v next g hg := by
    have hg' : I i { g with stamps := next } := hI.still hg (.of_counters rfl)
    simp only [accessor]
    cases resolve? { g with stamps := next } scope path with
    | none => exact ⟨rfl, hg'⟩
    | some id =>
      obtain ⟨heq, h⟩ := (hr i).assign id v _ hg'
      dsimp only
      rw [← heq]
      exact ⟨rfl, h⟩

theorem evaluate_agree (scope : ScopeId) (body : Expr) (event : Option Value) (i : ι) :
    Agree (I i) (evaluate r scope body event) (evaluate r' scope body event) := by
  intro g hg
  have hwith (env : Env) (hrun : ∀ r, (evaluate r scope body event).run g =
      let out := (Eval.run (accessor r scope) g.options.maxCalls body).run ⟨env, g.stamps, g⟩
      (out.1, { out.2.world with stamps := out.2.stamps })) :
      (evaluate r scope body event).run g = (evaluate r' scope body event).run g ∧
        I i ((evaluate r scope body event).run g).2 := by
    obtain ⟨heq, h⟩ := Eval.run_sameOn (hI.accessor_sameOn hr scope i) g.options.maxCalls body
      (f := ⟨env, g.stamps, g⟩) hg
    rw [hrun, hrun, ← heq]
    exact ⟨rfl, hI.still h (.of_counters rfl)⟩
  cases event with
  | none => exact hwith [] fun _ => rfl
  | some v => exact hwith [(Reserved.event, v)] fun _ => rfl

theorem attempt_agree (id : ValueId) (scope : ScopeId) (body : Expr) (i : ι) :
    Agree (I i) (attempt r id scope body) (attempt r' id scope body) := by
  unfold attempt
  refine (hI.evaluate_agree hr _ _ _ i).bind fun result => ?_
  cases result with
  | ok v => exact .pure _
  | error e =>
    refine .get_bind fun g hg => ?_
    exact (hI.report_keeps rfl i).agree.bind (fun _ => .pure _) g hg

theorem handled_agree (hid : Notes I id) (cell : Cell) (first : Bool) (current : Value) (i : ι) :
    Agree (I i) (handled r id cell first current) (handled r' id cell first current) := by
  unfold handled
  cases cell.compute with
  | none => exact .pure _
  | some body =>
    dsimp only
    split
    · refine Agree.bind (m := noteRun _) (Keeps.modify fun g hg => (hid i g hg).2).agree fun _ => ?_
      exact (hI.attempt_agree hr id _ _ i).discard.bind fun _ => .pure _
    · exact .pure _

theorem runHandler_agree (hid : Notes I id) (cell : Cell) (watched : ValuePath) (first : Bool) (i : ι) :
    Agree (I i) (runHandler r id cell watched first) (runHandler r' id cell watched first) := by
  unfold runHandler
  refine .get_bind fun g hg => ?_
  have hrest (current : Value) := hI.handled_agree hr hid cell first current i
  cases g.resolve? cell.scope watched with
  | some w => exact ((hr i).pull w).bind hrest g hg
  | none => exact Agree.bind (.pure _) hrest g hg

theorem recompute_agree (hid : Notes I id) (first : Bool) (i : ι) :
    Agree (I i) (recompute r id first) (recompute r' id first) := by
  unfold recompute
  refine .get_bind fun g hg => ?_
  cases g.values.get? id with
  | none => exact ⟨rfl, hg⟩
  | some cell =>
    dsimp only
    split
    · exact (hI.runHandler_agree hr hid _ _ _ i).map _ g hg
    · exact Agree.bind (m := noteRun _) (Keeps.modify fun g hg => (hid i g hg).1).agree
        (fun _ => hI.attempt_agree hr id _ _ i) g hg
    · exact ⟨rfl, hg⟩

/-! ## Effects -/

omit hr in
theorem deliver_agree {assign assign' : ValueId → Value → GraphM Unit} (i : ι)
    (hassign : ∀ id v, Agree (I i) (assign id v) (assign' id v)) (target : ValueId) (url : String)
    (outcome : Except RequestError Response) :
    Agree (I i) (deliver assign target url outcome) (deliver assign' target url outcome) := by
  have hfinish (v : Value) : Agree (I i)
      (do if (← get).values.contains target then assign target v)
      (do if (← get).values.contains target then assign' target v) := by
    refine .get_bind fun g hg => ?_
    split
    · exact hassign _ _ g hg
    · exact ⟨rfl, hg⟩
  unfold deliver
  refine .get_bind fun g hg => ?_
  dsimp only
  split
  · exact Agree.bind (m := modify _) (hI.counters (fun _ => rfl) i).agree (fun _ => hfinish _) g hg
  · refine Agree.get_bind (fun g hg => ?_) g hg
    refine Agree.bind (m := modify _) (hI.counters (fun _ => rfl) i).agree (fun _ => ?_) g hg
    exact (hI.report_keeps rfl i).agree.bind fun _ => hfinish _

omit hr in
theorem issue_agree (i : ι) (hr : Reentry.Agree (I i) r r') (hK : K .request) (id : ValueId)
    (first : Bool) : Agree (I i) (issue r id first) (issue r' id first) := by
  have hsend (request : Request) (target : ValueId) (echo : Option NodeId) :
      Agree (I i) (send request target echo) (send request target echo) :=
    Keeps.agree fun g hg => hI.sent _ _ _ hg hK
  unfold issue
  refine .get_bind fun g hg => ?_
  cases g.values.get? id with
  | none => exact ⟨rfl, hg⟩
  | some cell =>
    dsimp only
    split
    · exact ⟨rfl, hg⟩
    · cases Request.ofValue cell.output with
      | error e => exact (hI.report_keeps rfl i).agree g hg
      | ok request =>
        dsimp only
        split
        · exact (hI.report_keeps rfl i).agree g hg
        · exact ⟨rfl, hg⟩
        · split
          · exact hI.deliver_agree i hr.assign _ _ _ g hg
          · cases g.scopeValue? cell.scope ValueName.requestEcho with
            | some echo => exact ((hr.pull _).map _).bind (fun _ => hsend _ _ _) g hg
            | none => exact Agree.bind (.pure _) (fun _ => hsend _ _ _) g hg

omit hr in
theorem bind_keeps {kind : ValueKind} (hK : K kind) (node : NodeId) (v : Value) (i : ι) :
    Keeps (I i) (tell fun h => kind.bind node v h).run := by
  intro g hg
  rw [run_tell]
  split
  · rename_i host hhost
    exact hI.shown hg hK hhost
  · exact hg

omit hr

/-! Within a step that pushes it is enough if reading and assigning agree on what is under way there. -/

variable (hin : ∀ i, Reentry.Agree (I (inner i)) r r')
include hin

theorem apply_agree (id : ValueId) (first : Bool) (i : ι) :
    Agree (I i) (apply r id first) (apply r' id first) := by
  unfold apply
  refine .get_bind fun g hg => ?_
  cases hcell : g.values.get? id with
  | none => exact ⟨rfl, hg⟩
  | some cell =>
    have hK := hI.kinds hg hcell
    dsimp only
    split
    · split
      · exact (hI.report_keeps rfl i).agree g hg
      · refine Agree.bind (hI.countEffect_keeps i).agree (fun _ => hI.pushing_agree ?_) g hg
        split
        · rename_i hkind
          exact hI.issue_agree _ (hin i) (hkind ▸ hK) id first
        · refine (hI.bind_keeps hK _ _ _).agree.bind fun result => ?_
          split
          · exact (hI.report_keeps rfl _).agree
          · exact .pure _
    · exact ⟨rfl, hg⟩

/-! ## Lists -/

theorem enliven_agree (count : Nat) (i : ι) : Agree (I i) (enliven r count) (enliven r' count) := by
  unfold enliven
  refine .get_bind fun g hg => ?_
  exact hI.pushing_agree (.forM fun id _ => ((hin i).pull id).discard) g hg

theorem spawn_agree (scope : ScopeId) (place : Nat) (item : Value) (i : ι) :
    Agree (I i) (spawn r scope place item).run (spawn r' scope place item).run := by
  intro g hg
  have h₁ := run_spawn r scope place item g
  have h₂ := run_spawn r' scope place item g
  rw [ExceptT.run] at h₁ h₂ ⊢
  rw [ExceptT.run, h₁, h₂]
  cases hs : g.scopes.get? scope with
  | none => exact ⟨rfl, hg⟩
  | some s =>
    dsimp only
    have henliven (count : Nat) : Agree (I i) (enliven r count) (enliven r' count) :=
      hI.enliven_agree hin count i
    cases hnode : g.adoptable? scope place with
    | some node =>
      obtain ⟨heq, h⟩ := henliven g.order.length _ (hI.adopted item hg hs hnode)
      dsimp only
      rw [← heq]
      exact ⟨rfl, h⟩
    | none =>
      have hcopied := hI.copied place item hg hs
      dsimp only
      generalize (copyElement s.node place).run.run g = u at hcopied ⊢
      obtain ⟨result, g'⟩ := u
      cases result with
      | error e => exact ⟨rfl, hcopied⟩
      | ok node =>
        obtain ⟨heq, h⟩ := henliven g'.order.length _ hcopied
        dsimp only
        rw [← heq]
        exact ⟨rfl, h⟩

theorem spawnAll_agree (id : ValueId) (scope : ScopeId) (place : Nat) (items : List Value) (i : ι) :
    Agree (I i) (spawnAll r id scope place items) (spawnAll r' id scope place items) := by
  induction items generalizing place with
  | nil => exact .pure _
  | cons item items ih =>
    rw [spawnAll, spawnAll]
    refine (hI.spawn_agree hin scope place item i).bind fun result => ?_
    split
    · exact ih _
    · exact .get_bind fun g hg => (hI.report_keeps rfl i).agree g hg

omit hI hin in
theorem refill_agree {P : Graph → Prop} (hr : Reentry.Agree P r r') (clone : ScopeId) (item : Value) :
    Agree P (refill r clone item) (refill r' clone item) := by
  unfold refill
  refine .get_bind fun g hg => ?_
  split
  · exact hr.assign _ _ g hg
  · exact ⟨rfl, hg⟩

theorem synced_agree {i : ι} (hr : Reentry.Agree (I i) r r') (id : ValueId) (scope : ScopeId)
    (items : List Value) (existing : List ScopeId) :
    Agree (I i) (synced r id scope items existing) (synced r' id scope items existing) := by
  refine .bind (.forM fun p _ => refill_agree hr p.1 p.2) fun _ => ?_
  refine (hI.spawnAll_agree hin _ _ _ _ _).bind fun _ => ?_
  exact (hI.trimmed _ _ _).agree.bind fun _ => (hI.swept _ _).agree

theorem syncClones_agree (id : ValueId) (scope : ScopeId) (items : List Value) (i : ι) :
    Agree (I i) (syncClones r id scope items) (syncClones r' id scope items) :=
  .get_bind fun g hg => hI.pushing_agree (hI.synced_agree hin (hin i) id scope items _) g hg

theorem replicate_agree (id : ValueId) (scope : ScopeId) (source offset length : Value) (i : ι) :
    Agree (I i) (replicate r id scope source offset length)
      (replicate r' id scope source offset length) := by
  unfold replicate
  split
  · exact (hI.syncClones_agree hin _ _ _ i).bind fun _ => .pure _
  · exact (hI.syncClones_agree hin _ _ _ i).bind fun _ => .pure _

omit hI hin in
theorem companion_agree {P : Graph → Prop} (hr : Reentry.Agree P r r') (scope : ScopeId)
    (name : String) : Agree P (companion r scope name) (companion r' scope name) := by
  unfold companion
  refine .get_bind fun g hg => ?_
  split
  · exact hr.pull _ g hg
  · exact ⟨rfl, hg⟩

/-! ## Commitment -/

omit hI hin in
theorem storeOutput_keeps (hid : Revises I id) (v : Value) (i : ι) : Keeps (I i) (storeOutput id v) := by
  unfold storeOutput
  refine .get_bind fun g hg => ?_
  split
  · exact hg
  · split
    · exact hg
    · refine Keeps.bind (hid.modifyCell_keeps ?_ i) (fun _ => .pure _) g hg
      exact fun c => ⟨⟨rfl, rfl, rfl, rfl, rfl, .inl rfl⟩, rfl⟩

theorem remake_agree (hid : Revises I id) (scope : ScopeId) (source : Value) (first : Bool)
    (offset length : Value) (i : ι) :
    Agree (I i) (remake r id scope source first offset length)
      (remake r' id scope source first offset length) := by
  unfold remake
  refine .get_bind fun g hg => ?_
  split
  · exact ⟨rfl, hg⟩
  · dsimp only
    split
    · exact ⟨rfl, hg⟩
    · refine Agree.bind (hid.modifyCell_keeps ?_ i).agree (fun _ => ?_) g hg
      · exact fun c => ⟨⟨rfl, rfl, rfl, rfl, rfl, .inl rfl⟩, rfl⟩
      · refine (hI.countEffect_keeps i).agree.bind fun _ => ?_
        exact (hI.replicate_agree hin _ _ _ _ _ i).bind fun v => (storeOutput_keeps hid v i).agree

omit hin
include hr

theorem commitData_agree (hid : Revises I id) (scope : ScopeId) (source : Value) (first : Bool) (i : ι) :
    Agree (I i) (commitData r id scope source first) (commitData r' id scope source first) :=
  (companion_agree (hr i) _ _).bind fun offset => (companion_agree (hr i) _ _).bind fun length =>
    hI.remake_agree (fun _ => hr _) hid scope source first offset length i

theorem commit_agree (hid : Revises I id) (next : Value) (first : Bool) (i : ι) :
    Agree (I i) (commit r id next first) (commit r' id next first) := by
  unfold commit
  refine .get_bind fun g hg => ?_
  split
  · exact ⟨rfl, hg⟩
  · split
    · exact hI.commitData_agree hr hid _ _ _ i g hg
    · refine Agree.bind (storeOutput_keeps hid next i).agree (fun changed => ?_) g hg
      split
      · exact (hI.apply_agree (fun _ => hr _) id first i).bind fun _ => .pure _
      · exact .pure _

omit hI hr in
theorem notify_agree {P : Graph → Prop} (hr : Reentry.Agree P r r') (id : ValueId) :
    Agree P (notify r id) (notify r' id) := by
  unfold notify
  refine .get_bind fun g hg => ?_
  exact Agree.forM (fun o _ => (hr.pull o).discard) g hg

/-! ## Reading and assigning -/

theorem concluded_agree (hid : Revises I id) (first : Bool) (result : Option Value) (i : ι) :
    Agree (I i) (concluded r id first result) (concluded r' id first result) := by
  cases result with
  | some next =>
    refine (hI.commit_agree hr hid _ _ i).bind fun changed => ?_
    split
    · exact notify_agree (hr i) id
    · exact .pure _
  | none =>
    simp only [concluded]
    split
    · exact hI.apply_agree (fun _ => hr _) id true i
    · exact .pure _

theorem refresh_agree (hid : Revises I id) (hrun : Notes I id) (first : Bool) (i : ι) :
    Agree (I i) (refresh r id first) (refresh r' id first) :=
  (hI.recompute_agree hr hrun first i).bind fun result => hI.concluded_agree hr hid first result i

omit hr in
include hin in
theorem announce_agree (hid : Marks I id) (i : ι) : Agree (I i) (announce r id) (announce r' id) := by
  have hnotify : Agree (I i)
      (do
        let cycle := (← get).cycle
        modifyCell id fun c => { c with evaluated := some cycle }
        pushing (notify r id))
      (do
        let cycle := (← get).cycle
        modifyCell id fun c => { c with evaluated := some cycle }
        pushing (notify r' id)) := by
    exact .get_bind fun g hg => hI.pushing_agree (notify_agree (hin i) id) _ (hid i g hg)
  unfold announce
  refine .get_bind fun g hg => ?_
  dsimp only
  split
  · rename_i hlevel
    exact hnotify _ (hI.begun hg hlevel)
  · exact hnotify g hg

theorem assigned_agree (hid : Revises I id) (v : Value) (cell : Cell) (i : ι) :
    Agree (I i)
      (do
        let changed ← commit r id v false
        if changed && !cell.observers.isEmpty then announce r id)
      (do
        let changed ← commit r' id v false
        if changed && !cell.observers.isEmpty then announce r' id) := by
  refine (hI.commit_agree hr hid v false i).bind fun changed => ?_
  split
  · exact hI.announce_agree (fun _ => hr _) hid.marks i
  · exact .pure _

omit hI hr in
theorem entering_agree (hIJ : Enters I J) (id : ValueId) {step step' : Reentry → GraphM Unit} {i : ι}
    (hstep : Agree (J i) (step r) (step' r')) :
    Agree (I i) (entering (some r) id step) (entering (some r') id step') := by
  intro g hg
  obtain ⟨heq, h⟩ := hstep _ (hIJ.entered hg)
  have hrun (r : Reentry) (step : Reentry → GraphM Unit) : (entering (some r) id step).run g =
      ((), { ((step r).run { g with depth := g.depth + 1 }).2 with
        depth := ((step r).run { g with depth := g.depth + 1 }).2.depth - 1 }) := rfl
  rw [hrun, hrun, ← heq]
  exact ⟨rfl, hIJ.left h⟩

omit hI hr in
theorem pullWith_agree_of_entering {r r' : Option Reentry} (hid : Marks I id) (i : ι)
    (h : ∀ first, Agree (I i) (entering r id fun r => refresh r id first)
      (entering r' id fun r => refresh r id first)) :
    Agree (I i) (pullWith r id) (pullWith r' id) := by
  unfold pullWith
  refine .get_bind fun g hg => ?_
  split
  · exact ⟨rfl, hg⟩
  · split
    · exact ⟨rfl, hg⟩
    · rename_i cell hcell hmark
      have hrest : Agree (I i)
          (do
            entering r id fun r => refresh r id cell.evaluated.isNone
            return ((← get).output? id).getD .undefined)
          (do
            entering r' id fun r => refresh r id cell.evaluated.isNone
            return ((← get).output? id).getD .undefined) :=
        (h _).bind fun _ => .get_bind fun g hg => ⟨rfl, hg⟩
      exact hrest _ (hid i g hg)

omit hI hr in
theorem assignWith_agree_of_entering {r r' : Option Reentry} (hid : Revises I id) (v : Value) (i : ι)
    (h : ∀ cell : Cell, Agree (I i)
      (entering r id fun r => do
        let changed ← commit r id v false
        if changed && !cell.observers.isEmpty then announce r id)
      (entering r' id fun r => do
        let changed ← commit r id v false
        if changed && !cell.observers.isEmpty then announce r id)) :
    Agree (I i) (assignWith r id v) (assignWith r' id v) := by
  unfold assignWith
  refine .get_bind fun g hg => ?_
  split
  · exact ⟨rfl, hg⟩
  · rename_i cell hcell
    dsimp only
    split
    · refine Agree.bind (hid.modifyCell_keeps ?_ i).agree (fun _ => h cell) g hg
      exact fun c => ⟨⟨rfl, rfl, rfl, rfl, rfl, .inr rfl⟩, rfl⟩
    · exact h cell g hg

omit hr in
/-- A read or write that may not be entered notes that and does nothing else. -/
theorem entering_none_keeps (id : ValueId) (step : Reentry → GraphM Unit) (i : ι) :
    Keeps (I i) (entering none id step) :=
  .get_bind fun g hg => hI.report_keeps rfl i g hg

/-! ## Two properties -/

omit hr in
theorem and {K' : ValueKind → Prop} (hJ : Routine inner K' J) (hK : ∀ {kind}, K kind → K' kind) :
    Routine inner K fun i g => I i g ∧ J i g where
  still h hs := ⟨hI.still h.1 hs, hJ.still h.2 hs⟩
  pushed h := ⟨hI.pushed h.1, hJ.pushed h.2⟩
  popped h := ⟨hI.popped h.1, hJ.popped h.2⟩
  begun h hlevel := ⟨hI.begun h.1 hlevel, hJ.begun h.2 hlevel⟩
  kinds h hc := hI.kinds h.1 hc
  shown h hkind hhost := ⟨hI.shown h.1 hkind hhost, hJ.shown h.2 (hK hkind) hhost⟩
  sent request target echo h hkind :=
    ⟨hI.sent request target echo h.1 hkind, hJ.sent request target echo h.2 (hK hkind)⟩
  adopted item h hs hnode := ⟨hI.adopted item h.1 hs hnode, hJ.adopted item h.2 hs hnode⟩
  copied {i g scope s} place item h hs := by
    have hcopied := hI.copied place item h.1 hs
    have hcopied' := hJ.copied place item h.2 hs
    generalize (copyElement s.node place).run.run g = u at hcopied hcopied' ⊢
    obtain ⟨result, g'⟩ := u
    cases result <;> exact ⟨hcopied, hcopied'⟩
  trimmed i scope keep g h := ⟨hI.trimmed i scope keep g h.1, hJ.trimmed i scope keep g h.2⟩
  swept i scope g h := ⟨hI.swept i scope g h.1, hJ.swept i scope g h.2⟩

omit hr in
theorem or (hJ : Routine inner K J) : Routine inner K fun i g => I i g ∨ J i g where
  still h hs := h.imp (hI.still · hs) (hJ.still · hs)
  pushed h := h.imp hI.pushed hJ.pushed
  popped h := h.imp hI.popped hJ.popped
  begun h hlevel := h.imp (hI.begun · hlevel) (hJ.begun · hlevel)
  kinds h hc := h.elim (hI.kinds · hc) (hJ.kinds · hc)
  shown h hK hhost := h.imp (hI.shown · hK hhost) (hJ.shown · hK hhost)
  sent request target echo h hK :=
    h.imp (hI.sent request target echo · hK) (hJ.sent request target echo · hK)
  adopted item h hs hnode := h.imp (hI.adopted item · hs hnode) (hJ.adopted item · hs hnode)
  copied {i g scope s} place item h hs := by
    have hcopied (h : I i g) := hI.copied place item h hs
    have hcopied' (h : J i g) := hJ.copied place item h hs
    generalize (copyElement s.node place).run.run g = u at hcopied hcopied' ⊢
    obtain ⟨result, g'⟩ := u
    cases result <;> exact h.imp hcopied hcopied'
  trimmed i scope keep g h := h.imp (hI.trimmed i scope keep g) (hJ.trimmed i scope keep g)
  swept i scope g h := h.imp (hI.swept i scope g) (hJ.swept i scope g)

end Routine

namespace Regimen

variable (hI : Regimen inner K I)
include hI

theorem or (hJ : Regimen inner K J) : Regimen inner K fun i g => I i g ∨ J i g where
  toRoutine := hI.toRoutine.or hJ.toRoutine
  revised h hf := h.imp (hI.revised · hf) (hJ.revised · hf)
  noted runner := Or.imp (hI.noted runner) (hJ.noted runner)

theorem revises (id : ValueId) : Revises I id := fun _ _ _ => hI.revised

theorem marks (id : ValueId) : Marks I id := (hI.revises id).marks

theorem notes (id : ValueId) : Notes I id := fun _ _ h => ⟨hI.noted _ h, hI.noted _ h⟩

theorem without_agree (i : ι) :
    Reentry.Agree (I i) ⟨pullWith none, assignWith none⟩ ⟨pullWith none, assignWith none⟩ where
  pull id := Routine.pullWith_agree_of_entering (hI.marks id) i fun _ =>
    (hI.entering_none_keeps id _ i).agree
  assign id v := Routine.assignWith_agree_of_entering (hI.revises id) v i fun _ =>
    (hI.entering_none_keeps id _ i).agree

/-- Reading and assigning with ways that agree within a further read or write. -/
theorem with_agree (hJ : Regimen inner K J) (hIJ : Enters I J)
    (hr : ∀ i, Reentry.Agree (J i) r r') (i : ι) :
    Reentry.Agree (I i) ⟨pullWith (some r), assignWith (some r)⟩
      ⟨pullWith (some r'), assignWith (some r')⟩ where
  pull id := Routine.pullWith_agree_of_entering (hI.marks id) i fun _ =>
    Routine.entering_agree hIJ id (hJ.refresh_agree hr (hJ.revises id) (hJ.notes id) _ i)
  assign id v := Routine.assignWith_agree_of_entering (hI.revises id) v i fun cell =>
    Routine.entering_agree hIJ id (hJ.assigned_agree hr (hJ.revises id) v cell i)

/-- Reading and assigning keep what every kind of step keeps, whatever depth is left. -/
theorem reentry_agree (hII : Enters I I) (remaining : Nat) (i : ι) :
    Reentry.Agree (I i) ⟨pull remaining, assign remaining⟩ ⟨pull remaining, assign remaining⟩ := by
  induction remaining generalizing i with
  | zero => exact hI.without_agree i
  | succ remaining ih => exact hI.with_agree hI hII ih i

/-- So does what is done within a read or write. -/
theorem entering_keeps (hII : Enters I I) (remaining : Nat) (id : ValueId)
    {step : Reentry → GraphM Unit} {i : ι}
    (hstep : ∀ r, (∀ i, Reentry.Agree (I i) r r) → Keeps (I i) (step r)) :
    Keeps (I i) (entering (reentryWithin remaining) id step) := by
  cases remaining with
  | zero => exact hI.entering_none_keeps id step i
  | succ remaining =>
    have hr := hI.reentry_agree hII remaining
    exact (Routine.entering_agree hII id (hstep _ hr).agree).keeps

end Regimen

end

/-- What is under way may be told in another way. -/
theorem Routine.reindex {ι κ : Type} {inner : ι → ι} {within : κ → κ} {K : ValueKind → Prop}
    {I : κ → ι → Graph → Prop} {f : κ → ι} (hI : ∀ k, Routine inner K (I k))
    (hwithin : ∀ k, I (within k) (f (within k)) = I k (inner (f k))) :
    Routine within K fun k => I k (f k) where
  still h hs := (hI _).still h hs
  pushed h := by
    rw [hwithin]
    exact (hI _).pushed h
  popped h := by
    rw [hwithin] at h
    exact (hI _).popped h
  begun h hlevel := (hI _).begun h hlevel
  kinds h hc := (hI _).kinds h hc
  shown h hK hhost := (hI _).shown h hK hhost
  sent request target echo h hK := (hI _).sent request target echo h hK
  adopted item h hs hnode := (hI _).adopted item h hs hnode
  copied place item h hs := (hI _).copied place item h hs
  trimmed k := (hI k).trimmed (f k)
  swept k := (hI k).swept (f k)

/-- A property that every kind of step keeps, whatever is under way. Values are of the kinds in
`K`. -/
structure Invariant (K : ValueKind → Prop) (I : Graph → Prop) : Prop where
  quiet : ∀ {g g'}, I g → Quiet g g' → I g'
  kinds : ∀ {g id c}, I g → g.values.get? id = some c → K c.template.kind
  revised : ∀ {g id} {f : Cell → Cell}, I g → (∀ c, Cell.Revised c (f c)) →
    I { g with values := g.values.modify id f }
  shown : ∀ {g : Graph} {kind node v host}, I g → K kind → kind.bind node v g.host = .ok host →
    I { g with host }
  sent : ∀ {g} request target echo, I g → K .request → I ((send request target echo).run g).2
  answered : ∀ {g : Graph} {id pending}, I g → g.requests.lookup id = some pending →
    I { g with requests := g.requests.filter fun r => r.1 != id } ∧
      ∀ node body host, pending.echo = some node →
        g.host.setAttribute node Marker.echo body = .ok host →
        I { g with host, requests := g.requests.filter fun r => r.1 != id }
  adopted : ∀ {g scope s place node} item, I g → g.scopes.get? scope = some s →
    g.adoptable? scope place = some node →
    I ((plant scope s place item node >>= fun _ => attachListeners).run g).2
  copied : ∀ {g scope s} place item, I g → g.scopes.get? scope = some s →
    match (copyElement s.node place).run.run g with
    | (.ok node, g') => I ((plant scope s place item node >>= fun _ => attachListeners).run g').2
    | (.error _, g') => I g'
  trimmed : ∀ scope keep, Keeps I (trim scope keep)
  swept : ∀ scope, Keeps I (sweep scope)

namespace Invariant

variable {K : ValueKind → Prop} {I : Graph → Prop} (hI : Invariant K I)
include hI

/-- What is under way does not matter. -/
theorem discipline : Discipline (ι := Unit) id K fun _ => I where
  still h hs := hI.quiet h hs.toQuiet
  pushed h := hI.quiet h (.of_counters rfl)
  popped h := hI.quiet h (.of_counters rfl)
  begun h _ := hI.quiet h (.of_counters rfl)
  kinds := hI.kinds
  revised h hf := hI.revised h fun c => (hf c).toRevised
  noted _ h := hI.quiet h (.of_counters rfl)
  shown := hI.shown
  sent := hI.sent
  adopted := hI.adopted
  copied := hI.copied
  trimmed _ := hI.trimmed
  swept _ := hI.swept
  answered := hI.answered
  settled _ h := hI.quiet h (.of_counters rfl)

theorem enters : Enters (ι := Unit) (fun _ => I) fun _ => I where
  entered h := hI.quiet h (.of_counters rfl)
  left h := hI.quiet h (.of_counters rfl)

omit hI

section

variable {κ : Type} {s : κ → Prop} {P : κ → Graph → Prop}

/-- Many properties that every kind of step keeps. -/
theorem all (hP : ∀ k, Invariant (fun _ => True) (P k)) :
    Invariant (fun _ => True) fun g => ∀ k, s k → P k g where
  quiet h hq k hk := (hP k).quiet (h k hk) hq
  kinds _ _ := trivial
  revised h hf k hk := (hP k).revised (h k hk) hf
  shown h hK hhost k hk := (hP k).shown (h k hk) hK hhost
  sent request target echo h hK k hk := (hP k).sent request target echo (h k hk) hK
  answered h hpending := ⟨fun k hk => ((hP k).answered (h k hk) hpending).1,
    fun node body host hecho hset k hk => ((hP k).answered (h k hk) hpending).2 node body host hecho hset⟩
  adopted item h hs hnode k hk := (hP k).adopted item (h k hk) hs hnode
  copied {g scope t} place item h hs := by
    have hcopied (k : κ) (hk : s k) := (hP k).copied place item (h k hk) hs
    generalize (copyElement t.node place).run.run g = u at hcopied ⊢
    obtain ⟨result, g'⟩ := u
    cases result <;> exact hcopied
  trimmed scope keep g h k hk := (hP k).trimmed scope keep g (h k hk)
  swept scope g h k hk := (hP k).swept scope g (h k hk)

/-- One of many properties that every kind of step keeps. -/
theorem any (hP : ∀ k, Invariant (fun _ => True) (P k)) :
    Invariant (fun _ => True) fun g => ∃ k, s k ∧ P k g where
  quiet h hq := h.imp fun k hk => ⟨hk.1, (hP k).quiet hk.2 hq⟩
  kinds _ _ := trivial
  revised h hf := h.imp fun k hk => ⟨hk.1, (hP k).revised hk.2 hf⟩
  shown h hK hhost := h.imp fun k hk => ⟨hk.1, (hP k).shown hk.2 hK hhost⟩
  sent request target echo h hK := h.imp fun k hk => ⟨hk.1, (hP k).sent request target echo hk.2 hK⟩
  answered h hpending := ⟨h.imp fun k hk => ⟨hk.1, ((hP k).answered hk.2 hpending).1⟩,
    fun node body host hecho hset => h.imp fun k hk =>
      ⟨hk.1, ((hP k).answered hk.2 hpending).2 node body host hecho hset⟩⟩
  adopted item h hs hnode := h.imp fun k hk => ⟨hk.1, (hP k).adopted item hk.2 hs hnode⟩
  copied {g scope t} place item h hs := by
    obtain ⟨k, hk, hP'⟩ := h
    have hcopied := (hP k).copied place item hP' hs
    generalize (copyElement t.node place).run.run g = u at hcopied ⊢
    obtain ⟨result, g'⟩ := u
    cases result <;> exact ⟨k, hk, hcopied⟩
  trimmed scope keep g h := h.imp fun k hk => ⟨hk.1, (hP k).trimmed scope keep g hk.2⟩
  swept scope g h := h.imp fun k hk => ⟨hk.1, (hP k).swept scope g hk.2⟩

end

end Invariant

end Graph

end ReactiveMarkup
