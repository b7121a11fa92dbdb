import ReactiveMarkup.Proofs.Compile.Outcome
import ReactiveMarkup.Proofs.Graph.Tidy

/-!
# The names of a scope

The values of a scope have the names that its element declares, and those of the companions that are
implied. A companion is added only where its name is free, but nothing keeps two attributes of an
element from declaring the same name. So the names of a scope are told apart just where its element
declares none twice.

Main definitions: `Document.TellsApart`.
Main results: `Emission.names_rendered_perm`, `Document.compile_tellsApart`.
-/
namespace ReactiveMarkup

namespace Emission

variable {c : EmitContext} {i : ScopeIndex}

/-- A template has the name that was declared. -/
theorem name_toldValue {element : Option Nat} {v : PendingValue} {w : ValueTemplate}
    (h : toldValue c i element v = .ok w) : w.name = v.name := by
  have hyields : Yields (value c i v) w := by
    rw [toldValue, told] at h
    cases houtcome : outcome (value c i v) with
    | error cause =>
      rw [houtcome] at h
      cases h
    | ok w' =>
      rw [houtcome] at h
      obtain rfl := Except.ok.inj h
      exact ⟨[], _, Prod.ext houtcome rfl⟩
  unfold value at hyields
  obtain ⟨k, -, hyields⟩ := yields_bind hyields
  dsimp only at hyields
  split at hyields
  all_goals
    obtain ⟨⟨init, dependencies⟩, -, hyields⟩ := yields_bind hyields
    rw [yields_pure hyields]

/-- The results of steps that keep names have names of what the steps were made for. -/
theorem map_results_sublist {α β γ ε : Type} {step : α → Except ε β} {name : α → γ} {name' : β → γ}
    (hstep : ∀ a b, step a = .ok b → name' b = name a) (as : List α) :
    (((as.map step).filterMap Except.toOption).map name').Sublist (as.map name) := by
  induction as with
  | nil => exact .slnil
  | cons a as ih =>
    rw [List.map_cons, List.map_cons]
    cases hresult : step a with
    | ok b =>
      rw [← hstep a b hresult]
      exact ih.cons_cons _
    | error e => exact ih.cons _

/-- The values of a scope have some of the names that were declared, each for another declaration. -/
theorem names_rendered_subperm (p : PendingScope) :
    ((rendered c i p).1.map (·.name)).Subperm (p.values.map (·.name)) :=
  ((rendered_values_perm p).map _).subperm.trans
    (map_results_sublist (fun _ _ => name_toldValue) p.values).subperm

/-- Where nothing fails, the values of a scope have all names that were declared. -/
theorem names_rendered_perm {p : PendingScope} (h : failures c i p = []) :
    ((rendered c i p).1.map (·.name)).Perm (p.values.map (·.name)) := by
  have hnone : (p.values.map (toldValue c i p.element)).filterMap failure? = [] :=
    (List.append_eq_nil_iff.1 h).1
  have hlength := (perm_results_failures id (toldValue c i p.element) p.values).length_eq
  rw [hnone, List.map_id, List.map_nil, List.append_nil, List.length_map, List.length_map,
    ← (rendered_values_perm p).length_eq] at hlength
  refine (names_rendered_subperm p).perm_of_length_le ?_
  rw [List.length_map, List.length_map, hlength]

end Emission

namespace Document

variable {o : CompileOptions} {source : Option String} {d : Document}

/-- All that an element declares has the names that are its own and those that are implied. -/
theorem names_declared (d : Document) (place : String → Option Nat) (n : NodeId) :
    Declared.names (d.declared place n) = d.ownNames n ++ d.impliedNames n := by
  rw [← names_declaredItself d place, ← map_name_companions d place, declared, Declared.names,
    Declared.names, List.filterMap_append, List.map_append, List.filterMap_map]
  congr 2
  exact List.filterMap_some

/-- Companions have names of their own. -/
theorem nodup_names_iff (d : Document) (n : NodeId) :
    (d.ownNames n ++ d.impliedNames n).Nodup ↔ (d.ownNames n).Nodup := by
  refine ⟨fun h => (List.nodup_append.1 h).1, fun h => List.nodup_append.2 ⟨h, ?_, ?_⟩⟩
  · rw [impliedNames]
    split
    · exact List.Nodup.filter _ (by decide)
    · exact .nil
  · rintro name hname _ hname' rfl
    rw [impliedNames] at hname'
    split at hname'
    · have hfree := (List.mem_filter.1 hname').2
      simp [hname] at hfree
    · cases hname'

/-- No element with a scope declares a name twice. -/
def TellsApart (d : Document) : Prop := ∀ n ∈ d.scopeElements, (d.ownNames n).Nodup

/-- The values of the program are those that are rendered for the sites. -/
theorem Surveyed.values {l : Outline} (h : d.Surveyed o source l) :
    (l.emit o).program.scopes.map (·.values) = (d.sites o source).map fun s =>
      (Emission.rendered (l.context o) s.scope (Outline.draft source d s.node s.element)).1 := by
  rcases h.spans with ⟨hsites, hsize⟩ | ⟨hspans, hlength⟩
  · rw [hsites, Program.scopes, (Outline.emit_eq o l).2, if_pos hsize]
    rfl
  · have hrendered := congrArg (List.map fun u : ScopeIndex × List ValueTemplate × List EventTemplate =>
      u.2.1) (Outline.emit_rendered (o := o) hspans hlength)
    rw [h.pending, List.map_map, List.map_map, List.map_map] at hrendered
    exact hrendered

/-- What a scope is to have. -/
theorem names_draft (d : Document) (s : Site) :
    (Outline.draft source d s.node s.element).values.map (·.name) = d.ownNames s.node ++ d.impliedNames s.node := by
  rw [← names_declared d (placeIn source s.element)]
  rfl

namespace Surveyed

variable {l : Outline}

/-- Elements that declare no name twice have scopes with distinct names. -/
theorem distinct (h : d.Surveyed o source l) (hapart : d.TellsApart) {t : ScopeTemplate}
    (ht : t ∈ (l.emit o).program.scopes) : (t.values.map (·.name)).Nodup := by
  have hvalues : t.values ∈ (l.emit o).program.scopes.map (·.values) := List.mem_map_of_mem ht
  rw [h.values] at hvalues
  obtain ⟨s, hs, hrendered⟩ := List.mem_map.1 hvalues
  have hnode : s.node ∈ d.scopeElements := by
    rw [← h.nodes]
    exact List.mem_map_of_mem hs
  obtain ⟨names, hperm, hsublist⟩ := Emission.names_rendered_subperm (c := l.context o) (i := s.scope)
    (Outline.draft source d s.node s.element)
  rw [names_draft] at hsublist
  rw [← hrendered, ← hperm.nodup_iff]
  exact ((nodup_names_iff d s.node).2 (hapart s.node hnode)).sublist hsublist

/-- Without errors the names of a scope are distinct only if its element declares none twice. -/
theorem tellsApart (h : d.Surveyed o source l) (herrors : (l.emit o).errors = [])
    (hdistinct : ∀ t ∈ (l.emit o).program.scopes, (t.values.map (·.name)).Nodup) : d.TellsApart := by
  intro n hn
  rw [← h.nodes] at hn
  obtain ⟨s, hs, rfl⟩ := List.mem_map.1 hn
  have hmem := List.mem_map_of_mem (f := fun s : Site =>
    (Emission.rendered (l.context o) s.scope (Outline.draft source d s.node s.element)).1) hs
  rw [← h.values] at hmem
  obtain ⟨t, ht, hvalues⟩ := List.mem_map.1 hmem
  have hfailures : Emission.failures (l.context o) s.scope
      (Outline.draft source d s.node s.element) = [] := by
    have hnone := h.emit_errors
    rw [herrors, List.filter_nil] at hnone
    exact List.flatMap_eq_nil_iff.1 (List.append_eq_nil_iff.1 hnone.symm).2 s hs
  have hnodup := hdistinct t ht
  rw [hvalues, (Emission.names_rendered_perm hfailures).nodup_iff, names_draft] at hnodup
  exact (nodup_names_iff d s.node).1 hnodup

end Surveyed

/-- Take a document that compiles without errors. In each scope of its program the names of the values
are distinct, just if no element of it declares a name twice. Then, after any operations in any
settings, each live value is the one that its scope has under its name. -/
theorem compile_tellsApart (o : CompileOptions) (source : Option String) (hd : d.IsTree)
    (hnames : d.UniqueNames) (herrors : (d.compile o source).errors = []) :
    let program := (d.compile o source).program
    ((∀ t ∈ program.scopes, (t.values.map (·.name)).Nodup) ↔ d.TellsApart) ∧
      (d.TellsApart → ∀ (options : GraphOptions) (host : Host) (operations : List Operation),
        let g := ((operations.forM Operation.run).run (Graph.ofProgram program options host)).2
        ∀ v c, g.values.get? v = some c →
          ∃ s, g.scopes.get? c.scope = some s ∧ s.values.lookup c.template.name = some v) := by
  intro program
  have h := d.surveyed o source hd hnames
  refine ⟨⟨h.tellsApart herrors, fun hapart t ht => h.distinct hapart ht⟩, ?_⟩
  intro hapart options host operations
  have hdistinct : ∀ t ∈ program.scopes, (t.values.map (·.name)).Nodup :=
    fun t ht => h.distinct hapart ht
  have horderly : Graph.Keeps Graph.Orderly (operations.forM Operation.run) :=
    .forM fun op _ => Graph.orderly_operation_keeps op
  exact (horderly _ (Graph.orderly_ofProgram hdistinct options host)).consistent.home

/-- A list whose companions are implied, with one that is declared, and attributes of three kinds that
would be spelled alike but for their prefixes. -/
theorem compile_tellsApart_list :
    let d := Document.ofMarkup [.element "ul" [(":data", "[[[1, 2]]]"), (":data-offset", "[[1]]"),
      (":class-open", "[[true]]"), (":open", "[[1]]"), (":attr-open", "[[2]]")] []]
    let host := Host.ofDocument (d.compile .standard none).document
    d.IsTree ∧ d.UniqueNames ∧ (d.compile .standard none).errors.length = 0 ∧ d.TellsApart ∧
      (∀ t ∈ (d.compile .standard none).program.scopes, (t.values.map (·.name)).Nodup) ∧
      let g := (([Operation.mount].forM Operation.run).run
        (Graph.ofProgram (d.compile .standard none).program .standard host)).2
      ∀ v c, g.values.get? v = some c →
        ∃ s, g.scopes.get? c.scope = some s ∧ s.values.lookup c.template.name = some v := by
  intro d host
  have hmade : d.WellMade := Document.wellMade_ofMarkup _
  have herrors : (d.compile .standard none).errors.length = 0 := by decide +kernel
  have hapart : d.TellsApart := by
    have hall : (d.scopeElements.all fun n => decide (d.ownNames n).Nodup) = true := by decide +kernel
    exact fun n hn => of_decide_eq_true (List.all_eq_true.1 hall n hn)
  obtain ⟨hdistinct, hhome⟩ := compile_tellsApart .standard none hmade.layered.isTree hmade.names
    (List.eq_nil_of_length_eq_zero herrors)
  exact ⟨hmade.layered.isTree, hmade.names, herrors, hapart, hdistinct.2 hapart,
    hhome hapart .standard host [.mount]⟩

/-- Names that are spelled differently in attributes may be the same. -/
example :
    let d := Document.ofMarkup [.element "div" [(":foo-bar", "[[1]]"), (":foo_bar", "[[2]]")] []]
    d.scopeElements.map d.ownNames = [["fooBar", "fooBar"]] := by
  decide +kernel

end Document

end ReactiveMarkup
