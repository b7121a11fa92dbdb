import ReactiveMarkup.Proofs.Graph.Aloof
import ReactiveMarkup.Proofs.Graph.Operation

/-!
# Making the links that wait

A link that waits is made, unless its path leads nowhere or cycles are to be detected and there is a
way from its observer to what it is to observe. Of many links, made one after another, each one is
there afterwards or would close a cycle with those that are. Nothing else makes links, so a graph that
has no cycle keeps none, whatever is done with it.

Main definitions: `Graph.Settles`, `Graph.Linking`, `Graph.CycleFree`.
Main results: `Graph.settles`, `Graph.linking_forM`, `Graph.CycleFree.run_keeps`,
`Graph.links_close_no_cycle`.
-/
namespace ReactiveMarkup.Graph

variable {g g' g'' : Graph} {l : PendingLink} {links links' : List PendingLink}

/-- What becomes of a link that waits: it is reported, or made. -/
inductive Settles (g : Graph) (l : PendingLink) : Graph → Prop
  | unresolved (hpath : g.resolve? l.scope l.path = none) :
      Settles g l { g with diagnostics := g.diagnostics ++ [.unresolved (g.nameOf l.observer) l.path] }
  | rejected {u : ValueId} (hpath : g.resolve? l.scope l.path = some u)
      (hcycles : g.options.detectCycles = true)
      (closes : Relation.ReflTransGen g.Notifies l.observer u) :
      Settles g l { g with diagnostics := g.diagnostics ++ [.cycle (g.nameOf l.observer) l.path] }
  | made {u : ValueId} (hpath : g.resolve? l.scope l.path = some u)
      (leaves : g.options.detectCycles = true → ¬Relation.ReflTransGen g.Notifies l.observer u) :
      Settles g l (g.withLink u l.observer)

theorem settles (g : Graph) (l : PendingLink) : Settles g l ((resolveLink l).run g).2 := by
  unfold resolveLink
  rw [run_get_bind]
  cases hpath : g.resolve? l.scope l.path with
  | none => exact .unresolved hpath
  | some u =>
    dsimp only
    split
    · rename_i hcycle
      rw [Bool.and_eq_true] at hcycle
      exact .rejected hpath hcycle.1 (reaches_iff.1 hcycle.2)
    · rename_i hcycle
      refine .made hpath fun hcycles hback => hcycle ?_
      rw [hcycles, reaches_iff.2 hback, Bool.and_self]

theorem nameOf_withLink (g : Graph) (u v w : ValueId) : (g.withLink u v).nameOf w = g.nameOf w := by
  have hcell (g : Graph) (id : ValueId) {f : Cell → Cell} (hf : ∀ c, (f c).template = c.template) :
      (g.withCell id f).nameOf w = g.nameOf w := by
    rw [nameOf, withCell, Slots.get?_modify]
    split
    · rename_i hw
      rw [nameOf, hw, Option.map_map]
      congr 2
      funext c
      exact congrArg ValueTemplate.name (hf c)
    · rfl
  rw [withLink, withObserving, hcell, withObservers, hcell]
  all_goals intro; rfl

theorem contains_withLink (g : Graph) (u v w : ValueId) :
    (g.withLink u v).values.contains w = g.values.contains w := by
  have hcell (g : Graph) (id : ValueId) (f : Cell → Cell) :
      (g.withCell id f).values.contains w = g.values.contains w := Slots.contains_modify ..
  rw [withLink, withObserving, hcell, withObservers, hcell]

theorem resolve?_congr (h : g'.scopes = g.scopes) (scope : ScopeId) (path : ValuePath) :
    g'.resolve? scope path = g.resolve? scope path := by
  have hancestors (count : Nat) (id : ScopeId) : g'.ancestorsUpTo count id = g.ancestorsUpTo count id := by
    induction count generalizing id with
    | zero => rfl
    | succ count ih => simp only [ancestorsUpTo, h, ih]
  simp only [resolve?, ancestors, hancestors, scopeValue?, h]

/-! ## One link after another -/

/-- What becomes of links that are made one after another. -/
structure Linking (links : List PendingLink) (g g' : Graph) : Prop where
  frame : g' = { g with values := g'.values, diagnostics := g'.diagnostics }
  contains : ∀ id, g'.values.contains id = g.values.contains id
  nameOf : ∀ id, g'.nameOf id = g.nameOf id
  reported : g.diagnostics ⊆ g'.diagnostics
  kept : ∀ {u v}, g.Notifies u v → g'.Notifies u v
  /-- what is new is one of the links -/
  made : ∀ {u v}, g'.Notifies u v →
    g.Notifies u v ∨ ∃ l ∈ links, g.resolve? l.scope l.path = some u ∧ l.observer = v
  unresolved : ∀ l ∈ links, g.resolve? l.scope l.path = none →
    .unresolved (g.nameOf l.observer) l.path ∈ g'.diagnostics
  /-- a link is there, or the way that would have made it close a cycle is still there -/
  settled : ∀ l ∈ links, ∀ u, g.resolve? l.scope l.path = some u → g.values.contains u →
    g'.Notifies u l.observer ∨
      g.options.detectCycles = true ∧ Relation.ReflTransGen g'.Notifies l.observer u ∧
        .cycle (g.nameOf l.observer) l.path ∈ g'.diagnostics
  acyclic : g.options.detectCycles = true → Acyclic g → Acyclic g'

namespace Linking

theorem resolve? (h : Linking links g g') (scope : ScopeId) (path : ValuePath) :
    g'.resolve? scope path = g.resolve? scope path :=
  resolve?_congr (by rw [h.frame]) scope path

theorem options (h : Linking links g g') : g'.options = g.options := by rw [h.frame]

theorem nil (g : Graph) : Linking [] g g where
  frame := rfl
  contains _ := rfl
  nameOf _ := rfl
  reported := List.Subset.refl _
  kept h := h
  made := .inl
  unresolved _ hl := by cases hl
  settled _ hl := by cases hl
  acyclic _ h := h

/-- A report changes no link. -/
theorem of_report {d : Diagnostic}
    (hunresolved : g.resolve? l.scope l.path = none → d = .unresolved (g.nameOf l.observer) l.path)
    (hsettled : ∀ u, g.resolve? l.scope l.path = some u → g.options.detectCycles = true ∧
      Relation.ReflTransGen g.Notifies l.observer u ∧ d = .cycle (g.nameOf l.observer) l.path) :
    Linking [l] g { g with diagnostics := g.diagnostics ++ [d] } where
  frame := rfl
  contains _ := rfl
  nameOf _ := rfl
  reported := List.subset_append_left _ _
  kept h := h
  made := .inl
  unresolved m hm hpath := by
    cases List.mem_singleton.1 hm
    exact List.mem_append_right _ (hunresolved hpath ▸ List.mem_singleton_self _)
  settled m hm u hpath _ := by
    cases List.mem_singleton.1 hm
    obtain ⟨hcycles, hback, hd⟩ := hsettled u hpath
    exact .inr ⟨hcycles, hback, List.mem_append_right _ (hd ▸ List.mem_singleton_self _)⟩
  acyclic _ h := h

theorem of_made {u : ValueId} (hpath : g.resolve? l.scope l.path = some u)
    (leaves : g.options.detectCycles = true → ¬Relation.ReflTransGen g.Notifies l.observer u) :
    Linking [l] g (g.withLink u l.observer) where
  frame := rfl
  contains := contains_withLink g u l.observer
  nameOf := nameOf_withLink g u l.observer
  reported := List.Subset.refl _
  kept h := notifies_withLink.2 (.inl h)
  made h := (notifies_withLink.1 h).imp_right fun ⟨_, hu, hv⟩ =>
    ⟨l, List.mem_singleton_self l, by rw [hpath, hu], hv.symm⟩
  unresolved m hm hnone := by
    cases List.mem_singleton.1 hm
    rw [hpath] at hnone
    cases hnone
  settled m hm w hw hlive := by
    cases List.mem_singleton.1 hm
    cases hpath.symm.trans hw
    exact .inl (notifies_withLink.2 (.inr ⟨hlive, rfl, rfl⟩))
  acyclic hcycles h := by
    by_cases hu : g.values.contains u
    · exact (acyclic_withLink_iff hu).2 ⟨h, leaves hcycles⟩
    · refine h.mono fun w => ?_
      rw [observersOf_withLink_of_gone hu]
      exact List.Subset.refl _

theorem of_settles (h : Settles g l g') : Linking [l] g g' := by
  cases h with
  | unresolved hpath => exact .of_report (fun _ => rfl) fun u hu => by cases hpath.symm.trans hu
  | rejected hpath hcycles closes =>
    refine .of_report (fun hnone => by cases hpath.symm.trans hnone) fun u hu => ?_
    cases hpath.symm.trans hu
    exact ⟨hcycles, closes, rfl⟩
  | made hpath leaves => exact .of_made hpath leaves

/-- Links that are made after others. -/
theorem append (h : Linking links g g') (h' : Linking links' g' g'') :
    Linking (links ++ links') g g'' where
  frame := by rw [h'.frame, h.frame]
  contains id := (h'.contains id).trans (h.contains id)
  nameOf id := (h'.nameOf id).trans (h.nameOf id)
  reported := List.Subset.trans h.reported h'.reported
  kept hstep := h'.kept (h.kept hstep)
  made hstep := by
    rcases h'.made hstep with hstep | ⟨l, hl, hpath, hv⟩
    · refine (h.made hstep).imp_right fun ⟨l, hl, hlink⟩ => ⟨l, List.mem_append_left _ hl, hlink⟩
    · exact .inr ⟨l, List.mem_append_right _ hl, by rw [← h.resolve?, hpath], hv⟩
  unresolved l hl hpath := by
    rcases List.mem_append.1 hl with hl | hl
    · exact h'.reported (h.unresolved l hl hpath)
    · rw [← h.nameOf]
      exact h'.unresolved l hl ((h.resolve? ..).trans hpath)
  settled l hl u hpath hu := by
    rcases List.mem_append.1 hl with hl | hl
    · rcases h.settled l hl u hpath hu with hmade | ⟨hcycles, hback, hreport⟩
      · exact .inl (h'.kept hmade)
      · have hstays := Relation.ReflTransGen.mono (fun _ _ hstep => h'.kept hstep) _ _ hback
        exact .inr ⟨hcycles, hstays, h'.reported hreport⟩
    · rw [← h.nameOf, ← h.options]
      exact h'.settled l hl u ((h.resolve? ..).trans hpath) ((h.contains u).trans hu)
  acyclic hcycles hg := h'.acyclic (h.options ▸ hcycles) (h.acyclic hcycles hg)

end Linking

theorem linking_forM (links : List PendingLink) (g : Graph) :
    Linking links g ((links.forM resolveLink).run g).2 := by
  induction links generalizing g with
  | nil => exact .nil g
  | cons l links ih => exact (Linking.of_settles (settles g l)).append (ih _)

theorem linking_resolveLinks (g : Graph) :
    Linking g.pendingLinks { g with pendingLinks := [] } (resolveLinks.run g).2 :=
  linking_forM g.pendingLinks { g with pendingLinks := [] }

/-! ## Whole runs -/

/-- A graph without cycles, in which they are to be detected. -/
structure CycleFree (g : Graph) : Prop where
  detects : g.options.detectCycles = true
  acyclic : Acyclic g

namespace CycleFree

theorem of_observers (h : CycleFree g) (hoptions : g'.options = g.options)
    (hfewer : ∀ u, g'.observersOf u ⊆ g.observersOf u) : CycleFree g' :=
  ⟨hoptions ▸ h.detects, h.acyclic.mono hfewer⟩

theorem of_values (h : CycleFree g) (hoptions : g'.options = g.options)
    (hvalues : g'.values = g.values) : CycleFree g' :=
  ⟨hoptions ▸ h.detects, h.acyclic.congr (.of_values hvalues)⟩

theorem modified (h : CycleFree g) (id : ValueId) {f : Cell → Cell}
    (hf : ∀ c, (f c).observers ⊆ c.observers) :
    CycleFree { g with values := g.values.modify id f } := by
  refine h.of_observers rfl fun u => ?_
  change (g.withCell id f).observersOf u ⊆ g.observersOf u
  rw [observersOf_withCell]
  split
  · rename_i hu
    rw [hu, observersOf]
    cases g.values.get? id with
    | none => exact List.nil_subset _
    | some c => exact hf c
  · exact List.Subset.refl _

/-- While scopes are built, linked and removed, links that wait are all that is added. -/
theorem upheld : Upheld CycleFree where
  of_inward h hinward := h.of_values hinward.options hinward.values
  inserted h _ hlinks := ⟨h.detects, h.acyclic.congr (.of_insert rfl hlinks.1 hlinks.2)⟩
  pruned h hf := h.modified _ fun c => (hf c).fewer
  erased id h := h.of_observers rfl fun u => by
    rw [observersOf_erase]
    split
    · exact List.nil_subset _
    · exact List.Subset.refl _
  linked l g h := by
    have hlink := Linking.of_settles (settles g l)
    exact ⟨hlink.options ▸ h.detects, hlink.acyclic h.detects h.acyclic⟩

theorem discipline : Discipline (fun _ : Unit => ()) (fun _ => True) fun _ => CycleFree :=
  Upheld.discipline (fun _ => upheld) (fun h haside => h.of_values haside.options haside.values)
    (·.of_values rfl rfl) (·.of_values rfl rfl) (fun h _ => h.of_values rfl rfl)
    fun h hf => h.modified _ fun c => (hf c).observers ▸ List.Subset.refl _

theorem run_keeps (operations : List Operation) : Keeps CycleFree (operations.forM Operation.run) :=
  .forM fun op _ => discipline.operation_keeps (i := ()) ⟨(·.of_values rfl rfl), (·.of_values rfl rfl)⟩
    (·.of_values rfl rfl) upheld.linked_keeps (fun hg _ _ => upheld.built hg _ _) op

end CycleFree

theorem acyclic_ofProgram (program : Program) (options : GraphOptions) (host : Host) :
    Acyclic (ofProgram program options host) := by
  intro u hu
  obtain ⟨v, -, hv⟩ := Relation.TransGen.tail'_iff.1 hu
  simp [Notifies, observersOf, ofProgram] at hv

/-- In any graph, whether it has cycles or not, a value reaches another one just if there is a way of
links from the one to the other; every search for it, whichever of the values that wait it takes next,
ends after at most one look more than there are links, with the same answer. That is also whether a link
back would close a cycle, as each link from a value to itself does. So of links that are made one after
another, while cycles are to be detected, those and only those are left out that would close a cycle with
the others, and a graph without cycles, as a new one is, stays one whatever is done with it. -/
theorem links_close_no_cycle (g : Graph) :
    let g' := (resolveLinks.run g).2
    (∀ u target : ValueId,
      (g.reaches u target = true ↔ Relation.ReflTransGen g.Notifies u target) ∧
      (∀ answer, Answers g target ⟨[], [u]⟩ answer ↔ answer = g.reaches u target) ∧
      ∀ run, List.IsChain (Looks g target) (⟨[], [u]⟩ :: run) →
        run.length ≤ (g.values.entries.flatMap fun e => e.2.observers).length + 1) ∧
    (∀ u v : ValueId,
      (g.reaches v u = true ↔ Relation.ReflTransGen (g.withLink u v).Notifies v u) ∧
      (g.values.contains u → (Acyclic (g.withLink u v) ↔ Acyclic g ∧ g.reaches v u = false))) ∧
    (∀ u : ValueId, g.reaches u u = true) ∧
    (∀ l, Settles g l ((resolveLink l).run g).2) ∧
    Linking g.pendingLinks { g with pendingLinks := [] } g' ∧
    (g.options.detectCycles = true → Acyclic g →
      Acyclic g' ∧
      (∀ l ∈ g.pendingLinks, ∀ u, g.resolve? l.scope l.path = some u → g.values.contains u →
        (g'.Notifies u l.observer ↔ ¬Relation.ReflTransGen g'.Notifies l.observer u)) ∧
      ∀ operations : List Operation, Acyclic ((operations.forM Operation.run).run g).2) ∧
    ∀ program options host, Acyclic (ofProgram program options host) := by
  intro g'
  have hlinks := linking_resolveLinks g
  refine ⟨fun u target => ⟨reaches_iff, fun answer => answers_iff, fun run hrun => ?_⟩,
    fun u v => ⟨reaches_iff.trans reflTransGen_withLink.symm, fun hu => ?_⟩,
    fun u => reaches_iff.2 .refl, settles g, hlinks,
    fun hcycles hg => ⟨hlinks.acyclic hcycles hg, fun l hl u hpath hu => ⟨fun hstep hback => ?_,
      fun hnone => ?_⟩, fun operations => ?_⟩, acyclic_ofProgram⟩
  · have hroom : g.room ⟨[], [u]⟩ = (g.values.entries.flatMap fun e => e.2.observers).length + 1 := by
      simp [room, unseenLinks]
    exact hroom ▸ length_le_room hrun
  · rw [acyclic_withLink_iff hu, ← Bool.not_eq_true, reaches_iff]
  · exact hlinks.acyclic hcycles hg u (.head' hstep hback)
  · refine (hlinks.settled l hl u ?_ hu).resolve_right fun hclosed => hnone hclosed.2.1
    exact (resolve?_congr (by rfl) l.scope l.path).trans hpath
  · exact (CycleFree.run_keeps operations g ⟨hcycles, hg⟩).acyclic

/-- A value whose expression reads it does not come to observe itself. -/
theorem links_close_no_cycle_self :
    let path : ValuePath := ⟨0, [], "x"⟩
    let t : ScopeTemplate :=
      ⟨0, none, [⟨"x", .plain, .compute (.get ⟨⟨1, 1⟩, ⟨1, 2⟩⟩ path), [path]⟩], [], []⟩
    let start := ofProgram ⟨some t, "data-scope"⟩ .standard (.ofDocument .empty)
    let g := ((t.instantiate builder none Document.root : GraphM ScopeId).run start).2
    let g' := (resolveLinks.run g).2
    let x : ValueId := ⟨0, 0⟩
    g.options.detectCycles = true ∧ Acyclic g ∧ g.pendingLinks.map (·.observer) = [x] ∧
      Acyclic g' ∧ ¬g'.Notifies x x ∧ .cycle "x" path ∈ g'.diagnostics := by
  intro path t start g g' x
  have hcycles : g.options.detectCycles = true := rfl
  have hpending : g.pendingLinks = [⟨⟨0, 0⟩, x, path⟩] := rfl
  have hpath : g.resolve? ⟨0, 0⟩ path = some x := by decide +kernel
  have hlive : g.values.contains x := by decide +kernel
  have hstart : Acyclic start := acyclic_ofProgram _ _ _
  have hg : Acyclic g := hstart.congr (.of_insert rfl rfl rfl)
  obtain ⟨-, -, -, -, hlinks, hmade, -⟩ := links_close_no_cycle g
  obtain ⟨hg', hmade, -⟩ := hmade hcycles hg
  have hlink := hpending ▸ List.mem_singleton_self (⟨⟨0, 0⟩, x, path⟩ : PendingLink)
  have hself : ¬g'.Notifies x x := fun hstep => (hmade _ hlink x hpath hlive).1 hstep .refl
  refine ⟨hcycles, hg, by rw [hpending]; rfl, hg', hself, ?_⟩
  exact ((hlinks.settled _ hlink x hpath hlive).resolve_left hself).2.2

end ReactiveMarkup.Graph
