import ReactiveMarkup.Proofs.Graph.Building
import ReactiveMarkup.Proofs.Graph.Keeps
import ReactiveMarkup.Proofs.Graph.Observing

/-!
# What building and removing leave alone

Building scopes, making links, attaching listeners and removing scopes change neither the program
nor the settings nor how much is under way, and have nothing to do with requests. If no item waits to
be taken by a copy, none does afterwards. Cells come without links and go, but of a cell that stays the
links alone change, and no live observer is lost.

Main definitions: `Graph.Aside`, `Graph.Inward`, `Graph.Enduring`, `Graph.Upheld`, `Graph.Secluded`,
`Graph.Aloof`.
Main results: `Graph.Enduring.instantiate_keeps`, `Graph.Upheld.plant_keeps`, `Graph.Upheld.trim_keeps`,
`Graph.Upheld.sweep_keeps`, `Graph.Upheld.routine`, `Graph.Upheld.regimen`,
`Graph.Upheld.discipline`, `Graph.Aloof.discipline`.
-/
namespace ReactiveMarkup

/-- A cell with other links. The observers that are live stay. -/
structure Cell.Relinked (live : ValueId → Prop) (c c' : Cell) : Prop where
  eq : c' = { c with observers := c'.observers, observing := c'.observing }
  observers : ∀ o ∈ c.observers, live o → o ∈ c'.observers

/-- A cell with fewer links. The observers that are live stay. -/
structure Cell.Pruned (live : ValueId → Prop) (c c' : Cell) : Prop extends Relinked live c c' where
  fewer : c'.observers ⊆ c.observers

namespace Graph

/-- A change of something else. -/
structure Aside (g g' : Graph) : Prop where
  program : g'.program = g.program
  options : g'.options = g.options
  cycle : g'.cycle = g.cycle
  depth : g'.depth = g.depth
  pushLevel : g'.pushLevel = g.pushLevel
  values : g'.values = g.values
  seed : g'.seed = g.seed ∨ g'.seed = none
  diagnostics : g.diagnostics <+: g'.diagnostics

theorem Aside.of_same {g g' : Graph}
    (h : g' = { g with
      host := g'.host, scopes := g'.scopes, order := g'.order, listeners := g'.listeners
      pendingLinks := g'.pendingLinks, pendingListeners := g'.pendingListeners, root := g'.root
      requests := g'.requests, issued := g'.issued, settled := g'.settled
      diagnostics := g'.diagnostics, runs := g'.runs })
    (hdiagnostics : g.diagnostics <+: g'.diagnostics) : Aside g g' := by
  refine ⟨?_, ?_, ?_, ?_, ?_, ?_, .inl ?_, hdiagnostics⟩
  all_goals rw [h]

/-- A change of something else, by which no request is sent out or answered and no expression is
run. -/
structure Inward (g g' : Graph) : Prop extends Aside g g' where
  runs : g'.runs = g.runs
  requests : g'.requests = g.requests
  issued : g'.issued = g.issued
  settled : g'.settled = g.settled
  outbox : g'.host.outbox = g.host.outbox

theorem Inward.of_same {g g' : Graph}
    (h : g' = { g with
      host := g'.host, scopes := g'.scopes, order := g'.order, listeners := g'.listeners
      pendingLinks := g'.pendingLinks, pendingListeners := g'.pendingListeners, root := g'.root
      diagnostics := g'.diagnostics }) (houtbox : g'.host.outbox = g.host.outbox)
    (hdiagnostics : g.diagnostics <+: g'.diagnostics) : Inward g g' := by
  refine { Aside.of_same ?_ hdiagnostics with
    runs := ?_, requests := ?_, issued := ?_, settled := ?_, outbox := houtbox }
  all_goals rw [h]

/-- A property that is kept by changes of something else that are not about requests, and by cells that
come without links. -/
structure Enduring (I : Graph → Prop) : Prop where
  of_inward : ∀ {g g' : Graph}, I g → Inward g g' → I g'
  inserted : ∀ {g : Graph} {c : Cell}, I g → c.evaluated = none →
    c.observers = [] ∧ c.observing = [] → I { g with values := (g.values.insert c).2 }

/-- A property that is also kept by links and cells that go, and by making a link that waits. -/
structure Upheld (I : Graph → Prop) : Prop extends Enduring I where
  pruned : ∀ {g : Graph} {id} {f : Cell → Cell}, I g →
    (∀ c, Cell.Pruned (fun o => g.values.contains o) c (f c)) →
    I { g with values := g.values.modify id f }
  erased : ∀ {g : Graph} id, I g → I { g with values := g.values.erase id }
  linked : ∀ l, Keeps I (resolveLink l)

variable {I : Graph → Prop}

namespace Enduring

variable (hI : Enduring I)
include hI

theorem modify_keeps {f : Graph → Graph} (h : ∀ g, Inward g (f g)) :
    Keeps I (modify f : GraphM Unit) :=
  .modify fun g hg => hI.of_inward hg (h g)

theorem modifyScope_keeps (id : ScopeId) (f : LiveScope → LiveScope) :
    Keeps I (modifyScope id f) := hI.modify_keeps fun _ => .of_same rfl rfl List.prefix_rfl

/-! ## Building -/

theorem buildScope_keeps (t : ScopeTemplate) (parent : Option ScopeId) (node : NodeId) :
    Keeps I (buildScope t parent node) := by
  unfold buildScope
  refine .look fun g => .look fun g => ?_
  refine Keeps.bind (hI.modify_keeps fun _ => ⟨⟨rfl, rfl, rfl, rfl, rfl, rfl, .inr rfl, List.prefix_rfl⟩, rfl, rfl, rfl, rfl, rfl⟩) fun _ => ?_
  dsimp only
  split
  · exact (hI.modifyScope_keeps _ _).bind fun _ => .pure _
  · exact .pure _

theorem buildValue_keeps (scope : ScopeId) (v : ValueTemplate) :
    Keeps I (buildValue scope v) := by
  intro g hg
  obtain ⟨c, g₁, -, -, hmark, hlinks, hg₁, hrun⟩ := run_buildValue scope v g
  have hfirst : I g₁ := by
    rcases hg₁ with rfl | rfl
    · exact hg
    · exact hI.of_inward hg (.of_same rfl rfl List.prefix_rfl)
  rw [hrun, run_addCell]
  exact hI.of_inward (hI.inserted hfirst hmark hlinks) (.of_same rfl rfl List.prefix_rfl)

theorem buildListener_keeps (scope : ScopeId) (e : EventTemplate) :
    Keeps I (buildListener scope e) := by
  unfold buildListener
  refine .look fun g => ?_
  split
  · exact .pure _
  · refine .look fun g => Keeps.bind (hI.modify_keeps fun _ => .of_same rfl rfl List.prefix_rfl) fun _ => ?_
    exact hI.modifyScope_keeps _ _

theorem buildLink_keeps (scope : ScopeId) (observer : ValueId) (path : ValuePath) :
    Keeps I (buildLink scope observer path) := hI.modify_keeps fun _ => .of_same rfl rfl List.prefix_rfl

theorem buildTemplateValue_keeps (scope : ScopeId) (v : ValueTemplate) :
    Keeps I (ScopeTemplate.buildValue builder scope v) :=
  (hI.buildValue_keeps scope v).bind fun id => .forM fun path _ => hI.buildLink_keeps scope id path

omit hI

mutual

theorem instantiate_keeps (hI : Enduring I) (parent : Option ScopeId) (node : NodeId) :
    ∀ t : ScopeTemplate, Keeps I (t.instantiate builder parent node)
  | ⟨index, ownAlias, values, events, children⟩ => by
    rw [ScopeTemplate.instantiate]
    refine (hI.buildScope_keeps _ _ _).bind fun scope => ?_
    refine Keeps.bind (.forM fun v _ => hI.buildTemplateValue_keeps scope v) fun _ => ?_
    refine Keeps.bind (.forM fun e _ => hI.buildListener_keeps scope e) fun _ => ?_
    exact (hI.instantiateAll_keeps scope node children).bind fun _ => .pure _

theorem instantiateAll_keeps (hI : Enduring I) (parent : ScopeId) (within : NodeId) :
    ∀ ts : List ScopeTemplate, Keeps I (ScopeTemplate.instantiateAll builder parent within ts)
  | [] => .pure _
  | t :: ts => by
    rw [ScopeTemplate.instantiateAll]
    refine Keeps.bind (m := builder.locate t.index within) (.look fun g => .pure _) fun node => ?_
    cases node with
    | some node =>
      exact (hI.instantiate_keeps (some parent) node t).discard.bind fun _ =>
        hI.instantiateAll_keeps parent within ts
    | none => exact hI.instantiateAll_keeps parent within ts

end

include hI

theorem attachListener_keeps (id : ListenerId) : Keeps I (attachListener id) := by
  unfold attachListener
  refine .look fun g => ?_
  split
  · exact .pure _
  · split
    · exact hI.modify_keeps fun _ => .of_same rfl rfl List.prefix_rfl
    · exact .pure _

theorem attachListeners_keeps : Keeps I attachListeners :=
  .look fun _ => Keeps.bind (hI.modify_keeps fun _ => .of_same rfl rfl List.prefix_rfl) fun _ =>
    .forM fun l _ => hI.attachListener_keeps l

end Enduring

namespace Upheld

variable (hI : Upheld I)
include hI

theorem resolveLinks_keeps : Keeps I resolveLinks :=
  .look fun _ => Keeps.bind (hI.modify_keeps fun _ => .of_same rfl rfl List.prefix_rfl) fun _ =>
    .forM fun l _ => hI.linked l

/-- An item waits while a copy is built, and not afterwards. -/
theorem plant_keeps (scope : ScopeId) (s : LiveScope) (place : Nat) (item : Value) (node : NodeId) :
    Keeps I (plant scope s place item node >>= fun _ => attachListeners) := by
  have hwaiting : Enduring fun g => I { g with seed := none } :=
    { of_inward := fun hg hinward => hI.of_inward hg { hinward with seed := .inl rfl }
      inserted := hI.inserted }
  intro g hg
  have hseeded : I { g with seed := none } := hI.of_inward hg ⟨⟨rfl, rfl, rfl, rfl, rfl, rfl, .inr rfl, List.prefix_rfl⟩, rfl, rfl, rfl, rfl, rfl⟩
  have hbuilt := hwaiting.instantiate_keeps s.parent node s.template
    { g with seed := some (place, item) } hseeded
  have hrest (clone : ScopeId) : Keeps I (do
      modifyScope scope fun s => { s with clones := s.clones ++ [clone] }
      resolveLinks
      attachListeners) :=
    (hI.modifyScope_keeps _ _).bind fun _ => hI.resolveLinks_keeps.bind fun _ => hI.attachListeners_keeps
  exact hrest _ _ hbuilt

/-- Planting a copy on an element that is made for it, or not planting it if that fails. -/
theorem copied {g : Graph} (hg : I g) (scope : ScopeId) (s : LiveScope) (place : Nat) (item : Value) :
    match (copyElement s.node place).run.run g with
    | (.ok node, g') => I ((plant scope s place item node >>= fun _ => attachListeners).run g').2
    | (.error _, g') => I g' := by
  have hkept := Keeps.copyElement (fun _ hg => hI.of_inward hg (.of_same rfl rfl List.prefix_rfl)) s.node place g hg
  generalize (copyElement s.node place).run.run g = u at hkept ⊢
  obtain ⟨result, g'⟩ := u
  cases result with
  | ok node => exact hI.plant_keeps scope s place item node g' hkept
  | error e => exact hkept

/-! ## Removal -/

theorem removeElement_keeps (node : NodeId) : Keeps I (removeElement node) :=
  .removeElement (fun _ _ hg => hI.of_inward hg (.of_same rfl rfl (List.prefix_append ..))) node

/-- At the other ends of its links a value is forgotten that is not live any more. -/
theorem removeValue_keeps (id : ValueId) : Keeps I (removeValue id) := by
  have hforget {f : Cell → Cell} (v : ValueId) (hf : ∀ c, Cell.Pruned (· ≠ id) c (f c)) :
      Keeps (fun g => I g ∧ g.values.get? id = none) (modifyCell v f) := by
    refine .modify fun g hg =>
      ⟨hI.pruned hg.1 fun c => ⟨⟨(hf c).eq, fun o ho hlive => ?_⟩, (hf c).fewer⟩, ?_⟩
    · refine (hf c).observers o ho fun h => ?_
      rw [h, Slots.contains, hg.2] at hlive
      cases hlive
    · rw [Slots.get?_modify]
      split
      · rename_i h
        rw [← h, hg.2]
        rfl
      · exact hg.2
  unfold removeValue
  refine .get_bind fun g hg => ?_
  split
  · exact hg
  · rename_i c hc
    have hrest : Keeps (fun g => I g ∧ g.values.get? id = none) (do
        c.observing.forM fun other =>
          modifyCell other fun d => { d with observers := d.observers.filter (· != id) }
        c.observers.forM fun other =>
          modifyCell other fun d => { d with observing := d.observing.filter (· != id) }) := by
      refine Keeps.bind (.forM fun v _ => hforget v fun d => ⟨⟨rfl, fun o ho hne => ?_⟩, ?_⟩) fun _ => ?_
      · exact List.mem_filter.2 ⟨ho, bne_iff_ne.2 hne⟩
      · exact List.filter_sublist.subset
      · exact .forM fun v _ => hforget v fun d => ⟨⟨rfl, fun o ho _ => ho⟩, List.Subset.refl _⟩
    exact (hrest _ ⟨hI.erased id hg, Slots.get?_erase_self id g.values⟩).1

theorem removeListener_keeps (id : ListenerId) : Keeps I (removeListener id) := by
  unfold removeListener
  refine .look fun g => ?_
  split
  · exact .pure _
  · refine Keeps.bind (hI.modify_keeps fun _ => .of_same rfl rfl List.prefix_rfl) fun _ => ?_
    split
    · exact hI.modify_keeps fun _ => .of_same rfl rfl List.prefix_rfl
    · exact .pure _

theorem destroyTo_keeps (room : Nat) (id : ScopeId) : Keeps I (destroyTo room id) := by
  induction room generalizing id with
  | zero => exact .pure _
  | succ room ih =>
    rw [destroyTo]
    refine .look fun g => ?_
    split
    · exact .pure _
    · refine Keeps.bind (hI.modify_keeps fun _ => .of_same rfl rfl List.prefix_rfl) fun _ => ?_
      refine Keeps.bind (.forM fun c _ => ih c) fun _ => ?_
      refine Keeps.bind (.forM fun v _ => hI.removeValue_keeps v.2) fun _ => ?_
      exact .forM fun l _ => hI.removeListener_keeps l

theorem trim_keeps (scope : ScopeId) (keep : Nat) : Keeps I (trim scope keep) := by
  have hremove (clone : ScopeId) : Keeps I (removeClone clone) := by
    unfold removeClone
    refine .look fun g => Keeps.bind (.look fun g => hI.destroyTo_keeps _ _) fun _ => ?_
    split
    · exact hI.removeElement_keeps _
    · exact .pure _
  unfold trim
  refine .look fun g => (hI.modifyScope_keeps _ _).bind fun _ => ?_
  split
  · refine Keeps.bind (.forM fun c _ => hremove c) fun _ => ?_
    exact hI.modify_keeps fun _ => .of_same rfl rfl List.prefix_rfl
  · exact .pure _

theorem sweep_keeps (scope : ScopeId) : Keeps I (sweep scope) :=
  .look fun _ => .forM fun n _ => hI.removeElement_keeps n

/-! ## Driving a graph -/

/-- Making the links that wait, and attaching the listeners. -/
theorem linked_keeps : Keeps I (resolveLinks >>= fun _ => attachListeners) :=
  hI.resolveLinks_keeps.bind fun _ => hI.attachListeners_keeps

/-- Building a first scope, with its links. -/
theorem built {g : Graph} (hg : I g) (t : ScopeTemplate) (node : NodeId) :
    let built := (t.instantiate builder none node).run g
    I ((resolveLinks >>= fun _ => attachListeners).run { built.2 with root := some built.1 }).2 :=
  hI.linked_keeps _ (hI.of_inward (hI.instantiate_keeps none node t g hg) (.of_same rfl rfl List.prefix_rfl))

omit hI in
/-- A property that building and removing keep is kept by every kind of step of reading and assigning
but the revision of a cell and its mark, if pushing, beginning a cycle and sending out a request keeps
it. -/
theorem routine {ι : Type} {inner : ι → ι} {I : ι → Graph → Prop} (hI : ∀ i, Upheld (I i))
    (hpushed : ∀ {i} {g : Graph}, I i g → I (inner i) { g with pushLevel := g.pushLevel + 1 })
    (hpopped : ∀ {i} {g : Graph}, I (inner i) g → I i { g with pushLevel := g.pushLevel - 1 })
    (hbegun : ∀ {i} {g : Graph}, I i g → g.pushLevel = 0 → I i { g with cycle := g.cycle + 1 })
    (hsent : ∀ {i g} request target echo, I i g → I i ((send request target echo).run g).2) :
    Routine inner (fun _ => True) I where
  still h hs := (hI _).of_inward h
    ⟨⟨hs.program, hs.options, hs.cycle, hs.depth, hs.pushLevel, hs.values, .inl hs.seed,
        hs.diagnostics.imp fun _ hds => hds.1.symm⟩,
      hs.runs, hs.requests, hs.issued, hs.settled, congrArg Host.outbox hs.host⟩
  pushed := hpushed
  popped := hpopped
  begun := hbegun
  kinds _ _ := trivial
  shown h _ hhost := by
    obtain ⟨d, rfl⟩ := ValueKind.bind_eq_ok hhost
    exact (hI _).of_inward h (.of_same rfl rfl List.prefix_rfl)
  sent request target echo h _ := hsent request target echo h
  adopted item h _ _ := (hI _).plant_keeps _ _ _ item _ _ h
  copied place item h _ := (hI _).copied h _ _ place item
  trimmed i := (hI i).trim_keeps
  swept i := (hI i).sweep_keeps

omit hI in
/-- A property that building and removing keep is kept by every kind of step of reading and assigning,
if revising cells, noting runs, pushing, beginning a cycle and sending out a request keeps it. -/
theorem regimen {ι : Type} {inner : ι → ι} {I : ι → Graph → Prop} (hI : ∀ i, Upheld (I i))
    (hpushed : ∀ {i} {g : Graph}, I i g → I (inner i) { g with pushLevel := g.pushLevel + 1 })
    (hpopped : ∀ {i} {g : Graph}, I (inner i) g → I i { g with pushLevel := g.pushLevel - 1 })
    (hbegun : ∀ {i} {g : Graph}, I i g → g.pushLevel = 0 → I i { g with cycle := g.cycle + 1 })
    (hrevised : ∀ {i g id} {f : Cell → Cell}, I i g → (∀ c, Cell.RevisedIn g.cycle c (f c)) →
      I i { g with values := g.values.modify id f })
    (hnoted : ∀ {i} {g : Graph} runner, I i g → I i (g.noted runner))
    (hsent : ∀ {i g} request target echo, I i g → I i ((send request target echo).run g).2) :
    Regimen inner (fun _ => True) I where
  toRoutine := routine hI hpushed hpopped hbegun hsent
  revised := hrevised
  noted := hnoted

omit hI in
/-- A property that building and removing keep is kept by every kind of step, if changes of something
else, revising cells, pushing and beginning a cycle keep it. -/
theorem discipline {ι : Type} {inner : ι → ι} {I : ι → Graph → Prop} (hI : ∀ i, Upheld (I i))
    (haside : ∀ {i} {g g' : Graph}, I i g → Aside g g' → I i g')
    (hpushed : ∀ {i} {g : Graph}, I i g → I (inner i) { g with pushLevel := g.pushLevel + 1 })
    (hpopped : ∀ {i} {g : Graph}, I (inner i) g → I i { g with pushLevel := g.pushLevel - 1 })
    (hbegun : ∀ {i} {g : Graph}, I i g → g.pushLevel = 0 → I i { g with cycle := g.cycle + 1 })
    (hrevised : ∀ {i g id} {f : Cell → Cell}, I i g → (∀ c, Cell.RevisedIn g.cycle c (f c)) →
      I i { g with values := g.values.modify id f }) :
    Discipline inner (fun _ => True) I where
  toRegimen := regimen hI hpushed hpopped hbegun hrevised (fun _ h => haside h (.of_same rfl List.prefix_rfl))
    fun _ _ _ h => haside h (.of_same rfl List.prefix_rfl)
  answered h _ := ⟨haside h (.of_same rfl List.prefix_rfl), fun _ _ _ _ _ => haside h (.of_same rfl List.prefix_rfl)⟩
  settled _ h := haside h (.of_same rfl List.prefix_rfl)

end Upheld

/-! ## Properties that links do not matter for -/

/-- Making a link keeps what other links do not matter for. -/
theorem resolveLink_keeps_of_relinked (hinward : ∀ {g g' : Graph}, I g → Inward g g' → I g')
    (hrelinked : ∀ {g : Graph} {id} {f : Cell → Cell}, I g →
      (∀ c, Cell.Relinked (fun o => g.values.contains o) c (f c)) →
      I { g with values := g.values.modify id f }) (l : PendingLink) : Keeps I (resolveLink l) := by
  have hreport (d : Diagnostic) : Keeps I (report d) :=
    .modify fun g hg => hinward hg (.of_same rfl rfl (List.prefix_append ..))
  have hrelink {id : ValueId} {f : Cell → Cell}
      (hf : ∀ (g : Graph) c, Cell.Relinked (fun o => g.values.contains o) c (f c)) :
      Keeps I (modifyCell id f) := .modify fun g hg => hrelinked hg (hf g)
  unfold resolveLink
  refine .look fun g => ?_
  split
  · exact hreport _
  · split
    · exact hreport _
    · refine (hrelink fun _ c => ⟨rfl, fun _ ho _ => mem_addNew.2 (.inl ho)⟩).bind fun _ => ?_
      exact hrelink fun _ c => ⟨rfl, fun _ ho _ => ho⟩

/-- A property that is kept by changes of something else that are not about requests, and by cells that
come and go, whatever links they have. -/
structure Secluded (I : Graph → Prop) : Prop extends Upheld I where
  relinked : ∀ {g : Graph} {id} {f : Cell → Cell}, I g →
    (∀ c, Cell.Relinked (fun o => g.values.contains o) c (f c)) →
    I { g with values := g.values.modify id f }
  pruned := fun hg hf => relinked hg fun c => (hf c).toRelinked
  linked := resolveLink_keeps_of_relinked of_inward relinked

/-- A property that is kept by changes of something else, and by cells that come and go. -/
structure Aloof (I : Graph → Prop) : Prop extends Secluded I where
  of_aside : ∀ {g g' : Graph}, I g → Aside g g' → I g'
  of_inward := fun hg hinward => of_aside hg hinward.toAside

/-- Cells do not matter. -/
theorem Secluded.of_any (h : ∀ {g g' : Graph}, I g → Inward g { g' with values := g.values } → I g') :
    Secluded I where
  of_inward hg hinward := h hg { hinward with values := rfl }
  inserted hg _ _ := h hg (.of_same rfl rfl List.prefix_rfl)
  relinked hg _ := h hg (.of_same rfl rfl List.prefix_rfl)
  erased _ hg := h hg (.of_same rfl rfl List.prefix_rfl)

namespace Aloof

/-- Cells do not matter. -/
theorem of_any (h : ∀ {g g' : Graph}, I g → Aside g { g' with values := g.values } → I g') : Aloof I where
  of_aside hg haside := h hg { haside with values := rfl }
  inserted hg _ _ := h hg (.of_same rfl List.prefix_rfl)
  relinked hg _ := h hg (.of_same rfl List.prefix_rfl)
  erased _ hg := h hg (.of_same rfl List.prefix_rfl)

/-- A property that building and removing keep is kept by every kind of step, if revising cells,
pushing and beginning a cycle keeps it. -/
theorem discipline {ι : Type} {inner : ι → ι} {I : ι → Graph → Prop} (hI : ∀ i, Aloof (I i))
    (hpushed : ∀ {i} {g : Graph}, I i g → I (inner i) { g with pushLevel := g.pushLevel + 1 })
    (hpopped : ∀ {i} {g : Graph}, I (inner i) g → I i { g with pushLevel := g.pushLevel - 1 })
    (hbegun : ∀ {i} {g : Graph}, I i g → g.pushLevel = 0 → I i { g with cycle := g.cycle + 1 })
    (hrevised : ∀ {i g id} {f : Cell → Cell}, I i g → (∀ c, Cell.RevisedIn g.cycle c (f c)) →
      I i { g with values := g.values.modify id f }) :
    Discipline inner (fun _ => True) I :=
  Upheld.discipline (fun i => (hI i).toUpheld) (hI _).of_aside hpushed hpopped hbegun hrevised

end Aloof

end Graph

end ReactiveMarkup
