import ReactiveMarkup.Proofs.Graph.Keeps

/-!
# Driving a graph from outside

A graph is driven by operations, each of which reads and assigns in the way that the graph gives at
that moment. What reading and assigning keep is kept by the operations, if those that complete
requests keep it, and they do not tell apart two ways to read and assign that do the same.

Main definitions: `Operation`, `Operation.runWith`.
Main results: `Graph.Routine.operation_agree`, `Graph.Discipline.operation_agree`,
`Graph.Discipline.operation_keeps`.
-/
namespace ReactiveMarkup

/-- What may be done to a graph from outside. -/
inductive Operation where
  | mount
  | start
  | get (id : ValueId)
  | set (id : ValueId) (v : Value)
  | read (scope : ScopeId) (name : String)
  | write (scope : ScopeId) (name : String) (v : Value)
  | dispatch (node : NodeId) (event : String) (payload : Value)
  | complete (id : RequestId) (outcome : Except RequestError Response)

/-- Carries an operation out, with a way to read and assign for each graph. -/
def Operation.runWith (entry : Graph → Reentry) : Operation → GraphM Unit
  | mount => discard (Graph.mountWith entry)
  | start => Graph.startWith entry
  | get id => discard (Graph.getWith entry id)
  | set id v => Graph.putWith entry id v
  | read scope name => discard (Graph.readWith entry scope name)
  | write scope name v => discard (Graph.writeWith entry scope name v)
  | dispatch node event payload => discard (Graph.dispatchWith entry node event payload)
  | complete id outcome => discard (Graph.completeWith entry id outcome)

/-- Carries an operation out as the settings of the graph have it. -/
def Operation.run (op : Operation) : GraphM Unit := op.runWith Graph.reentry

namespace Graph

variable {ι : Type} {inner : ι → ι} {K : ValueKind → Prop} {I : ι → Graph → Prop}
  {entry entry' : Graph → Reentry}

namespace Routine

section

variable (hI : Routine inner K I)
  (hin : ∀ i g, I i g → ∀ j, Reentry.Agree (I (inner j)) (entry g) (entry' g))

include hI hin

/-- Starting a graph makes its links and attaches its listeners first, and begins a cycle. -/
theorem startWith_agree {i : ι} (hbegin : ∀ {g : Graph}, I i g → I i { g with cycle := g.cycle + 1 })
    {g : Graph} (hg : I i ((resolveLinks >>= fun _ => attachListeners).run g).2) :
    (startWith entry).run g = (startWith entry').run g ∧ I i ((startWith entry).run g).2 := by
  have hrest : Agree (I i)
      (do
        modify fun g => { g with cycle := g.cycle + 1 }
        let g ← get
        pushing (g.order.forM fun id => discard ((entry g).pull id)))
      (do
        modify fun g => { g with cycle := g.cycle + 1 }
        let g ← get
        pushing (g.order.forM fun id => discard ((entry' g).pull id))) := by
    refine Agree.bind (Keeps.modify fun g hg => hbegin hg).agree fun _ => .get_bind fun g hg => ?_
    have hpull := hin i g hg
    exact hI.pushing_agree (.forM fun id _ => ((hpull i).pull id).discard) g hg
  exact hrest _ hg

/-- Mounting builds scopes before it starts the graph. -/
theorem mountWith_agree {i : ι} (hbegin : ∀ {g : Graph}, I i g → I i { g with cycle := g.cycle + 1 })
    (hbuilt : ∀ {g : Graph} {t : ScopeTemplate} {node : NodeId}, I i g → g.program.root = some t →
      g.elementOf? t.index Document.root = some node →
      let built := (t.instantiate builder none node).run g
      I i ((resolveLinks >>= fun _ => attachListeners).run { built.2 with root := some built.1 }).2) :
    Agree (I i) (mountWith entry) (mountWith entry') := by
  intro g hg
  unfold mountWith
  rw [run_get_bind, run_get_bind]
  cases hroot : g.program.root with
  | none => exact ⟨rfl, hg⟩
  | some t =>
    dsimp only
    cases hnode : g.elementOf? t.index Document.root with
    | none => exact ⟨rfl, hg⟩
    | some node =>
      obtain ⟨heq, h⟩ := hI.startWith_agree hin hbegin (hbuilt hg hroot hnode)
      let built := (t.instantiate builder none node).run g
      have hrun (entry : Graph → Reentry) :
          (do
            let root ← t.instantiate builder none node
            modify fun g => { g with root := some root }
            startWith entry
            return some root : GraphM (Option ScopeId)).run g =
          (some built.1, ((startWith entry).run { built.2 with root := some built.1 }).2) := rfl
      dsimp only
      rw [hrun, hrun, ← heq]
      exact ⟨rfl, h⟩

end

variable (hI : Routine inner K I)
  (hentry : ∀ i g, I i g → ∀ j, Reentry.Agree (I j) (entry g) (entry' g))

include hI hentry

omit hI in
theorem getWith_agree (id : ValueId) (i : ι) : Agree (I i) (getWith entry id) (getWith entry' id) :=
  .get_bind fun g hg => (hentry i g hg i).pull id g hg

omit hI in
theorem putWith_agree (id : ValueId) (v : Value) (i : ι) :
    Agree (I i) (putWith entry id v) (putWith entry' id v) :=
  .get_bind fun g hg => (hentry i g hg i).assign id v g hg

omit hI in
theorem readWith_agree (scope : ScopeId) (name : String) (i : ι) :
    Agree (I i) (readWith entry scope name) (readWith entry' scope name) := by
  unfold readWith
  refine .get_bind fun g hg => ?_
  split
  · exact ((getWith_agree hentry _ i).map _) g hg
  · exact ⟨rfl, hg⟩

omit hI in
theorem writeWith_agree (scope : ScopeId) (name : String) (v : Value) (i : ι) :
    Agree (I i) (writeWith entry scope name v) (writeWith entry' scope name v) := by
  unfold writeWith
  refine .get_bind fun g hg => ?_
  split
  · exact Agree.bind (putWith_agree hentry _ v i) (fun _ => .pure _) g hg
  · exact ⟨rfl, hg⟩

theorem dispatchWith_agree (hevent : ∀ {i} {g : Graph}, I i g → I i (g.noted .event)) (node : NodeId)
    (event : String) (payload : Value) (i : ι) :
    Agree (I i) (dispatchWith entry node event payload) (dispatchWith entry' node event payload) := by
  unfold dispatchWith
  refine .get_bind fun g hg => ?_
  refine Agree.bind (.forM fun x _ => ?_) (fun _ => .pure _) g hg
  unfold handleWith
  refine Agree.bind (m := noteRun _) (Keeps.modify fun _ => hevent).agree fun _ => ?_
  refine .get_bind fun g hg => ?_
  refine Agree.bind (hI.evaluate_agree (hentry i g hg) _ _ _ i) (fun result => ?_) g hg
  split
  · exact (hI.report_keeps rfl i).agree
  · exact .pure _

theorem completeWith_agree (hA : Answering I) (id : RequestId)
    (outcome : Except RequestError Response) (i : ι) :
    Agree (I i) (completeWith entry id outcome) (completeWith entry' id outcome) := by
  unfold completeWith
  refine .get_bind fun g hg => ?_
  split
  · exact ⟨rfl, hg⟩
  · rename_i pending hpending
    obtain ⟨hanswered, hechoed⟩ := hA.answered hg hpending
    have hecho : I i ((keepEcho pending.echo outcome).run
        { g with requests := g.requests.filter fun r => r.1 != id }).2 := by
      unfold keepEcho
      split
      · rename_i node response hnode
        split
        · rw [StateT.run_bind, run_tell]
          cases hset : g.host.setAttribute node Marker.echo response.body with
          | ok host => exact hechoed node _ host hnode hset
          | error e => exact hI.report_keeps rfl i _ hanswered
        · exact hanswered
      · exact hanswered
    have hrest : Agree (I i)
        (do
          deliver (entry (← get)).assign pending.target pending.request.url outcome
          settle
          return true)
        (do
          deliver (entry' (← get)).assign pending.target pending.request.url outcome
          settle
          return true) := by
      refine .get_bind fun g hg => ?_
      refine Agree.bind (hI.deliver_agree i (hentry i g hg i).assign _ _ _) (fun _ => ?_) g hg
      refine Agree.bind (Keeps.agree (.modify fun g hg => ?_)) fun _ => .pure _
      split
      · exact hA.settled _ hg
      · exact hg
    exact hrest _ hecho

/-- Operations do the same with two ways to read and assign that do the same, and keep what these
keep, if beginning a cycle, noting the run of an event's handler, making links, mounting and completing
a request does. -/
theorem operation_agree {i : ι} (hevent : ∀ {i} {g : Graph}, I i g → I i (g.noted .event))
    (hbegin : ∀ {g : Graph}, I i g → I i { g with cycle := g.cycle + 1 })
    (hlinks : Keeps (I i) (resolveLinks >>= fun _ => attachListeners))
    {op : Operation} (hmount : op = .mount → Agree (I i) (mountWith entry) (mountWith entry'))
    (hcomplete : ∀ id outcome, op = .complete id outcome →
      Agree (I i) (completeWith entry id outcome) (completeWith entry' id outcome)) :
    Agree (I i) (op.runWith entry) (op.runWith entry') := by
  cases op with
  | mount => exact (hmount rfl).discard
  | start => exact fun g hg => hI.startWith_agree (fun i g hg j => hentry i g hg _) hbegin (hlinks g hg)
  | get id => exact (getWith_agree hentry id i).discard
  | set id v => exact putWith_agree hentry id v i
  | read scope name => exact (readWith_agree hentry scope name i).discard
  | write scope name v => exact (writeWith_agree hentry scope name v i).discard
  | dispatch node event payload => exact (hI.dispatchWith_agree hentry hevent node event payload i).discard
  | complete id outcome => exact (hcomplete id outcome rfl).discard

end Routine

/-- Operations do the same with two ways to read and assign that do the same, and keep what these
keep, if beginning a cycle, making links, mounting and completing a request does. -/
theorem Regimen.operation_agree (hI : Regimen inner K I)
    (hentry : ∀ i g, I i g → ∀ j, Reentry.Agree (I j) (entry g) (entry' g)) {i : ι}
    (hbegin : ∀ {g : Graph}, I i g → I i { g with cycle := g.cycle + 1 })
    (hlinks : Keeps (I i) (resolveLinks >>= fun _ => attachListeners))
    {op : Operation} (hmount : op = .mount → Agree (I i) (mountWith entry) (mountWith entry'))
    (hcomplete : ∀ id outcome, op = .complete id outcome →
      Agree (I i) (completeWith entry id outcome) (completeWith entry' id outcome)) :
    Agree (I i) (op.runWith entry) (op.runWith entry') :=
  hI.toRoutine.operation_agree hentry (hI.noted .event) hbegin hlinks hmount hcomplete

namespace Discipline

variable (hI : Discipline inner K I)
  (hentry : ∀ i g, I i g → ∀ j, Reentry.Agree (I j) (entry g) (entry' g))

include hI hentry

/-- Operations do the same with two ways to read and assign that do the same, and keep what these
keep, if beginning a cycle, making links and mounting does. -/
theorem operation_agree {i : ι} (hbegin : ∀ {g : Graph}, I i g → I i { g with cycle := g.cycle + 1 })
    (hlinks : Keeps (I i) (resolveLinks >>= fun _ => attachListeners))
    {op : Operation} (hmount : op = .mount → Agree (I i) (mountWith entry) (mountWith entry')) :
    Agree (I i) (op.runWith entry) (op.runWith entry') :=
  hI.toRegimen.operation_agree hentry hbegin hlinks hmount fun id outcome _ =>
    hI.completeWith_agree hentry hI.toAnswering id outcome i

omit hentry in
/-- Operations keep what every kind of step keeps, if beginning a cycle, making links and mounting
does. -/
theorem operation_keeps (hII : Enters I I) {i : ι}
    (hbegin : ∀ {g : Graph}, I i g → I i { g with cycle := g.cycle + 1 })
    (hlinks : Keeps (I i) (resolveLinks >>= fun _ => attachListeners))
    (hbuilt : ∀ {g : Graph} {t : ScopeTemplate} {node : NodeId}, I i g → g.program.root = some t →
      g.elementOf? t.index Document.root = some node →
      let built := (t.instantiate builder none node).run g
      I i ((resolveLinks >>= fun _ => attachListeners).run { built.2 with root := some built.1 }).2)
    (op : Operation) : Keeps (I i) op.run := by
  have hentry : ∀ i g, I i g → ∀ j, Reentry.Agree (I j) g.reentry g.reentry :=
    fun _ _ _ j => hI.reentry_agree hII _ j
  have hmount := hI.mountWith_agree (fun i g hg j => hentry i g hg _) hbegin hbuilt
  exact (hI.operation_agree hentry hbegin hlinks fun _ => hmount).keeps

end Discipline

end Graph

/-- Operations keep what every kind of step keeps whatever is under way, if making links and
mounting does. -/
theorem Graph.Invariant.operation_keeps {K : ValueKind → Prop} {I : Graph → Prop}
    (hI : Invariant K I) (hlinks : Keeps I (resolveLinks >>= fun _ => attachListeners))
    (hbuilt : ∀ {g : Graph} {t : ScopeTemplate} {node : NodeId}, I g → g.program.root = some t →
      g.elementOf? t.index Document.root = some node →
      let built := (t.instantiate builder none node).run g
      I ((resolveLinks >>= fun _ => attachListeners).run { built.2 with root := some built.1 }).2)
    (op : Operation) : Keeps I op.run :=
  hI.discipline.operation_keeps hI.enters (i := ()) (fun h => hI.quiet h (.of_counters rfl)) hlinks
    hbuilt op

end ReactiveMarkup
