import ReactiveMarkup.Proofs.Compile.Emit
import ReactiveMarkup.Proofs.Document.Read
import ReactiveMarkup.Proofs.Graph.Aloof
import ReactiveMarkup.Proofs.Graph.Operation
import ReactiveMarkup.Proofs.Graph.Resting

/-!
# Names at compile time and at run time

A compiled document is mounted as a graph that mirrors the scope tree of its outline, and stays so
under all operations. So a name that stands for a value when the document is compiled stands for a
live value of the nearest instance wherever the scope is live, and no link is ever left open.

Main definitions: `Graph.Mirror`, `Graph.Resolves`.
Main results: `Graph.mirror_operation_keeps`, `Graph.run_mirror`, `Graph.run_resolves`.
-/
namespace ReactiveMarkup

theorem Host.document_ofDocument (d : Document) : (Host.ofDocument d).document = d := rfl

namespace Graph

variable {tree : ScopeTree} {mark : String} {program : Program} {g g' : Graph}

/-- A graph between operations: it runs a program, and mirrors a tree. -/
structure Mirror (tree : ScopeTree) (mark : String) (program : Program) (g : Graph) : Prop where
  resting : Resting tree mark g
  program_eq : g.program = program
  seed : g.seed = none

namespace Mirror

theorem aloof (program : Program) : Aloof fun g => g.program = program ∧ g.seed = none := by
  refine .of_any fun {g g'} h haside => ⟨haside.program.trans h.1, ?_⟩
  have hseed : g'.seed = g.seed ∨ g'.seed = none := haside.seed
  rcases hseed with hseed | hseed
  · exact hseed.trans h.2
  · exact hseed

theorem of_aloof (hresting : Resting tree mark g) (h : g.program = program ∧ g.seed = none) :
    Mirror tree mark program g := ⟨hresting, h.1, h.2⟩

theorem fixed (h : Mirror tree mark program g) : g.program = program ∧ g.seed = none :=
  ⟨h.program_eq, h.seed⟩

end Mirror

/-- Every kind of step keeps a graph the mirror of a tree. -/
theorem mirror_invariant (ht : tree.ParentsFirst) :
    Invariant (ValueKind.Spares mark) (Mirror tree mark program) where
  quiet h hq := ⟨h.resting.of_quiet hq, hq.program.trans h.program_eq, hq.seed.trans h.seed⟩
  kinds h hc := (resting_invariant ht).kinds h.resting hc
  revised h hf := ⟨(resting_invariant ht).revised h.resting hf, h.program_eq, h.seed⟩
  shown h hK hok := ⟨(resting_invariant ht).shown h.resting hK hok, h.program_eq, h.seed⟩
  sent request target echo h hK :=
    ⟨(resting_invariant ht).sent request target echo h.resting hK, h.program_eq, h.seed⟩
  answered h hpending := by
    obtain ⟨hfewer, hechoed⟩ := (resting_invariant ht).answered h.resting hpending
    exact ⟨⟨hfewer, h.program_eq, h.seed⟩, fun node body host hecho hset =>
      ⟨hechoed node body host hecho hset, h.program_eq, h.seed⟩⟩
  adopted item h hs hnode := .of_aloof ((resting_invariant ht).adopted item h.resting hs hnode)
    ((Mirror.aloof program).plant_keeps _ _ _ _ _ _ h.fixed)
  copied {g scope s} place item h hs := by
    have hresting := (resting_invariant ht).copied place item h.resting hs
    have hfixed := (Mirror.aloof program).copied h.fixed scope s place item
    generalize (copyElement s.node place).run.run g = u at hresting hfixed ⊢
    obtain ⟨result, g'⟩ := u
    cases result with
    | ok node => exact .of_aloof hresting hfixed
    | error e => exact .of_aloof hresting hfixed
  trimmed scope keep g h := .of_aloof ((resting_invariant ht).trimmed scope keep g h.resting)
    ((Mirror.aloof program).trim_keeps scope keep g h.fixed)
  swept scope g h := .of_aloof ((resting_invariant ht).swept scope g h.resting)
    ((Mirror.aloof program).sweep_keeps scope g h.fixed)

/-- Making the links of a standing graph, and attaching its listeners. -/
theorem Resting.of_standing (h : Standing tree mark g) (ht : tree.ParentsFirst) :
    Resting tree mark ((Graph.resolveLinks >>= fun _ => Graph.attachListeners).run g).2 := by
  obtain ⟨hlinked, hpending⟩ := h.resolveLinks ht
  exact Resting.attachListeners _ ⟨hlinked, hpending⟩

/-- Mounting builds a scope for the root of the program, under nothing. -/
theorem Mirror.mount (h : Mirror tree mark program g) (ht : tree.ParentsFirst) {t : ScopeTemplate}
    (hfits : t.Fits tree mark none) {node : NodeId}
    (hnode : g.elementOf? t.index Document.root = some node) :
    let built := (t.instantiate builder none node).run g
    Mirror tree mark program
      ((resolveLinks >>= fun _ => attachListeners).run { built.2 with root := some built.1 }).2 := by
  intro built
  obtain ⟨hmark, hdistinct⟩ := attribute?_of_elementOf? hnode
  have hsite : Site tree (fun _ => False) g t none node := by
    refine ⟨hdistinct, fun _ => ?_, fun p hp => (by cases hp), fun _ p hp => (by cases hp), hmark,
      fun hsome => ?_⟩
    · rw [h.resting.standing.mark_eq]
      exact hfits
    · rw [h.seed] at hsome
      cases hsome
  obtain ⟨id, g₁, hrun, h₁, hraised⟩ := Sound.instantiate t h.resting.standing hsite
  have hfixed := (Mirror.aloof program).instantiate_keeps none node t g h.fixed
  have hbuilt : built = (id, g₁) := hrun
  rw [hrun] at hfixed
  rw [hbuilt]
  have hstanding : Standing tree mark { g₁ with root := some id } := by
    have hfinished : Standing tree mark g₁ := by
      refine h₁.finish (fun _ _ _ hb => hb.elim) fun k u p _ _ ho => ?_
      rcases ho with ho | ⟨hsome, -⟩
      · exact ho.elim
      · rw [h.seed] at hsome
        cases hsome
    exact Sound.congr hfinished rfl rfl rfl rfl rfl (fun _ hd => .inl hd) fun l hl => .inl hl
  have hlinks := (Mirror.aloof program).linked_keeps { g₁ with root := some id } hfixed
  exact .of_aloof (.of_standing hstanding ht) hlinks

/-- Every operation keeps a graph the mirror of a tree. -/
theorem mirror_operation_keeps (ht : tree.ParentsFirst)
    (hroot : ∀ t, program.root = some t → t.Fits tree mark none) (op : Operation) :
    Keeps (Mirror tree mark program) op.run := by
  have hinvariant : Invariant _ (Mirror tree mark program) := mirror_invariant ht
  have hlinks : Keeps (Mirror tree mark program) (resolveLinks >>= fun _ => attachListeners) := by
    intro g hg
    exact .of_aloof (.of_standing hg.resting.standing ht)
      ((Mirror.aloof program).linked_keeps g hg.fixed)
  refine hinvariant.operation_keeps hlinks (fun {g t node} hg ht' hnode => ?_) op
  rw [hg.program_eq] at ht'
  exact hg.mount ht (hroot t ht') hnode

theorem mirror_ofProgram {options : GraphOptions} {host : Host} (hlinked : host.document.Linked)
    (hfurnished : host.document.Furnished program.scopeAttribute tree.parts) :
    Mirror tree program.scopeAttribute program (ofProgram program options host) where
  resting :=
    { standing :=
        { mark_eq := rfl
          linked := hlinked
          furnished := hfurnished
          scope := fun _ _ hs => by simp [ofProgram] at hs
          cells := fun _ _ hc => by simp [ofProgram] at hc
          links := fun l hl => by cases hl
          requests := fun r hr => by cases hr
          resolved := fun _ _ hd => by cases hd }
      pendingLinks := rfl }
  program_eq := rfl
  seed := rfl

/-! ## Compiled documents -/

/-- Names of a tree lead to live values of a graph. -/
structure Resolves (tree : ScopeTree) (g : Graph) : Prop where
  /-- a name that stands for a value leads to one live value, by its path and by itself; it belongs
  to the nearest instance of the scope that the name is looked up in -/
  value : ∀ id s name owner, g.scopes.get? id = some s →
    (tree.resolver s.template.index none).resolve name = .value owner →
    ∃ v c near t, g.resolve? id ⟨owner, [], name⟩ = some v ∧ g.lookup? id name = some v ∧
      g.values.get? v = some c ∧ c.scope = near ∧
      (g.ancestors id).find? (fun x => x.2.template.index = owner) = some (near, t) ∧
      t.values.lookup name = some v
  /-- so does whatever a value observes -/
  dependency : ∀ id s, g.scopes.get? id = some s → ∀ w ∈ s.template.values, ∀ p ∈ w.dependencies,
    ∃ v c, g.resolve? id p = some v ∧ g.values.get? v = some c
  /-- and no link is left open -/
  linked : ∀ observer path, Diagnostic.unresolved observer path ∉ g.diagnostics

theorem Mirror.resolves (h : Mirror tree mark program g) (ht : tree.ParentsFirst) : Resolves tree g where
  value id s name owner hs hresolve :=
    h.resting.standing.resolves_value (fun _ hb => hb) ht hs hresolve
  dependency id s hs w hw p hp := by
    obtain ⟨parent, hfits⟩ := h.resting.standing.exists_fits hs
    obtain ⟨-, -, hleads, -⟩ := hfits
    exact h.resting.standing.resolve?_of_leads (fun _ hb => hb) ht hs (hleads w hw p hp)
  linked := h.resting.standing.resolved

/-- The graph of a document without marks that compiles without errors mirrors the scope tree of the
document, after any operations. -/
theorem run_mirror (o : CompileOptions) (source : Option String) {d : Document} (hd : d.IsTree)
    (hfree : d.MarkerFree o.scopeAttribute) (hok : (d.compile o source).isOk = true)
    (options : GraphOptions) (host : Host) (hhost : host.document = (d.compile o source).document)
    (operations : List Operation) :
    let program := (d.compile o source).program
    let tree := (Outline.ofDocument o source d).tree
    tree.ParentsFirst ∧ Mirror tree program.scopeAttribute program
      ((operations.forM Operation.run).run (ofProgram program options host)).2 := by
  have herrors : ((Outline.ofDocument o source d).emit o).errors = [] := List.isEmpty_iff.1 hok
  obtain ⟨houtline, templates, hprogram, -⟩ := Outline.errors_of_emit herrors
  obtain ⟨homes, hfaithful⟩ := Outline.ofDocument_faithful hd hfree houtline
  have hmark : (d.compile o source).program.scopeAttribute = o.scopeAttribute :=
    congrArg Program.scopeAttribute hprogram
  have hlinked : host.document.Linked := by
    rw [hhost]
    exact hfaithful.linked hd.linked
  have hfurnished : host.document.Furnished (d.compile o source).program.scopeAttribute
      (Outline.ofDocument o source d).tree.parts := by
    rw [hhost, hmark]
    exact hfaithful.furnished hfree
  have hroot (t : ScopeTemplate) (ht : (d.compile o source).program.root = some t) :
      t.Fits (Outline.ofDocument o source d).tree (d.compile o source).program.scopeAttribute none := by
    rw [hmark]
    exact hfaithful.root_fits herrors ht
  have hall : Keeps (Mirror _ _ _) (operations.forM Operation.run) :=
    .forM fun op _ => mirror_operation_keeps hfaithful.tree.first hroot op
  exact ⟨hfaithful.tree.first, hall _ (mirror_ofProgram hlinked hfurnished)⟩

/-- Take any document without marks that compiles without errors, any settings and host, and any
operations on its program one after the other. Afterwards, wherever a scope is live, each name that
stood for a value when the document was compiled stands for a live value of the nearest instance of
the scope that declares it, every value that is observed is live, and no link was left open. -/
theorem run_resolves (o : CompileOptions) (source : Option String) {d : Document} (hd : d.IsTree)
    (hfree : d.MarkerFree o.scopeAttribute) (hok : (d.compile o source).isOk = true)
    (options : GraphOptions) (host : Host) (hhost : host.document = (d.compile o source).document)
    (operations : List Operation) :
    Resolves (Outline.ofDocument o source d).tree ((operations.forM Operation.run).run
      (ofProgram (d.compile o source).program options host)).2 := by
  obtain ⟨ht, hmirror⟩ := run_mirror o source hd hfree hok options host hhost operations
  exact hmirror.resolves ht

/-- A list of three items, each with a text that takes a name from beside the list: the scope of the item
and two clones of it are live. -/
theorem run_resolves_list :
    let d := Document.ofFragment
      "<div><i :aka=box :a='[[1]]'></i><ul :xs='[[ [] ]]'><li :data='[[xs]]'>[[data + box.a]]</li></ul></div>"
    let c := d.compile .standard none
    let grow := Operation.write ⟨2, 2⟩ "xs" (.array 1 [.number 1, .number 2, .number 3])
    let g := (([Operation.mount, grow].forM Operation.run).run
      (ofProgram c.program .standard (.ofDocument c.document))).2
    d.MarkerFree Marker.scope ∧ c.isOk = true ∧
      g.scopes.entries.map (fun x => (x.2.template.index, x.2.cloneIndex)) =
        [(0, none), (1, none), (2, none), (3, none), (3, some 0), (3, some 1)] ∧
      Resolves (Outline.ofDocument .standard none d).tree g := by
  intro d c grow g
  have hd : d.IsTree := Document.isTree_ofFragment _
  have hfree : d.MarkerFree Marker.scope := by decide +kernel
  have hok : c.isOk = true := by decide +kernel
  have hhost : (Host.ofDocument c.document).document = c.document := Host.document_ofDocument _
  exact ⟨hfree, hok, by decide +kernel, run_resolves .standard none hd hfree hok .standard (.ofDocument c.document) hhost
    [.mount, grow]⟩

end Graph

end ReactiveMarkup
