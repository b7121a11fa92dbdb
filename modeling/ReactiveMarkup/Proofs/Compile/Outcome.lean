import Mathlib.Algebra.GroupWithZero.Nat
import ReactiveMarkup.Proofs.Compile.Drafting
import ReactiveMarkup.Proofs.Compile.Emit

/-!
# The outcome of each declaration

Every declaration ends as one template or as one error, and which of them it is can be told from the
declaration and the scopes alone. The second pass makes each step by itself: what was found before it
is kept, and neither an error nor a warning of another declaration changes what comes of this one, nor
of what it warns.

Main definitions: `Emission.Steady`, `Emission.Finds`, `Declared.outcome`, `Document.declarations`.
Main results: `Emission.finds_scope`, `Document.outcomes_perm`, `Document.warnings_perm`.
-/
namespace ReactiveMarkup

namespace CompileCause

/-- Whether the second pass finds the cause. -/
def isLate : CompileCause → Bool
  | expression _ | unterminatedExpression _ | unknownWatch .. | invalidHandler _ => true
  | emptyName _ | duplicateAlias _ | document _ => false

/-- Whether the cause is that the document refuses a change. -/
def isDocument : CompileCause → Bool
  | document _ => true
  | _ => false

variable {cause : CompileCause}

theorem isDuplicateAlias_of_isLate (h : cause.isLate) : cause.isDuplicateAlias = false := by
  cases cause <;> first | rfl | cases h

theorem isDocument_of_isLate (h : cause.isLate) : cause.isDocument = false := by
  cases cause <;> first | rfl | cases h

theorem isDocument_of_isDuplicateAlias (h : cause.isDuplicateAlias) : cause.isDocument = false := by
  cases cause <;> first | rfl | cases h

end CompileCause

/-! ## Results and failures -/

section

variable {ε α β γ : Type}

/-- The failure of a step that has no result. -/
def failure? : Except ε α → Option ε
  | .ok _ => none
  | .error e => some e

/-- Results that are kept in lists of at most one. -/
theorem flatten_results (as : List α) (f : α → Except ε β) :
    (as.map fun a => (f a).toOption.toList).flatten = (as.map f).filterMap Except.toOption := by
  rw [List.filterMap_map, List.filterMap_eq_flatMap_toList, List.flatMap_def]
  rfl

theorem flatMap_failures (as : List α) (f : α → Except ε β) :
    as.flatMap (fun a => (failure? (f a)).toList) = (as.map f).filterMap failure? := by
  rw [List.filterMap_map, List.filterMap_eq_flatMap_toList]
  rfl

/-- Of some steps, each has a result or a failure. -/
theorem perm_results_failures (f : β → γ) (step : α → Except ε β) (as : List α) :
    ((((as.map step).filterMap Except.toOption).map f).map Except.ok ++
      ((as.map step).filterMap failure?).map Except.error).Perm (as.map fun a => f <$> step a) := by
  induction as with
  | nil => exact .refl _
  | cons a as ih =>
    rw [List.map_cons, List.map_cons]
    cases step a with
    | ok b => exact ih.cons _
    | error e => exact List.perm_middle.trans (ih.cons _)

end

namespace Emission

variable {α β : Type} {c : EmitContext} {i : ScopeIndex}

/-! ## Single declarations -/

/-- What comes of a step that is made by itself. -/
def outcome (step : Emission α) : Except CompileCause α := (step.run []).1

/-- What a step that is made by itself warns of. -/
def added (step : Emission α) : List CompileWarning := (step.run []).2

/-- A step that is not affected by the warnings before it and keeps them, and that fails only for causes
that the second pass finds. -/
structure Steady (step : Emission α) : Prop where
  run : ∀ warnings, step.run warnings = (outcome step, warnings ++ added step)
  late : ∀ cause, outcome step = .error cause → cause.isLate

namespace Steady

theorem pure (a : α) : Steady (Pure.pure a) :=
  ⟨fun warnings => congrArg _ (List.append_nil warnings).symm, fun _ h => by cases h⟩

theorem throw {cause : CompileCause} (h : cause.isLate) : Steady (throw cause : Emission α) :=
  ⟨fun warnings => congrArg _ (List.append_nil warnings).symm, fun _ hcause => by cases hcause; exact h⟩

theorem bind {step : Emission α} {next : α → Emission β} (hstep : Steady step)
    (hnext : ∀ a, Steady (next a)) : Steady (step >>= next) := by
  have hrun (warnings : List CompileWarning) : (step >>= next).run warnings =
      match outcome step with
      | .ok a => (outcome (next a), warnings ++ added step ++ added (next a))
      | .error cause => (.error cause, warnings ++ added step) := by
    rw [ExceptT.run_bind]
    simp only [Bind.bind, StateT.bind, hstep.run warnings]
    cases outcome step with
    | ok a => exact (hnext a).run _
    | error cause => rfl
  refine ⟨fun warnings => ?_, fun cause hcause => ?_⟩
  · rw [outcome, added, hrun, hrun]
    cases outcome step <;> simp
  · rw [outcome, hrun] at hcause
    cases hresult : outcome step with
    | ok a =>
      rw [hresult] at hcause
      exact (hnext a).late cause hcause
    | error cause' =>
      rw [hresult] at hcause
      cases hcause
      exact hstep.late cause hresult

theorem mapM {step : α → Emission β} (h : ∀ a, Steady (step a)) (as : List α) :
    Steady (as.mapM step) := by
  induction as with
  | nil =>
    rw [List.mapM_nil]
    exact pure []
  | cons a as ih =>
    rw [List.mapM_cons]
    exact (h a).bind fun b => ih.bind fun bs => pure (b :: bs)

end Steady

theorem steady_warn (unresolved : List (String × Range)) : Steady (warn c i unresolved) := by
  unfold warn
  split
  · exact ⟨fun _ => rfl, fun _ h => by cases h⟩
  · exact .pure ()

theorem steady_part (property : Option String) (place : Option Nat) (p : Part) :
    Steady (part c i property place p) := by
  cases p with
  | text => exact .pure _
  | code code offset =>
    rw [part]
    split
    · exact .throw rfl
    · split
      · exact .throw rfl
      · exact (steady_warn _).bind fun _ => .pure _

theorem steady_text (property : Option String) (raw : String) (place : Option Nat) :
    Steady (text c i property raw place) := by
  rw [text]
  split
  · exact .throw rfl
  · split
    · refine (Steady.mapM (steady_part property place) _).bind fun compiled => ?_
      dsimp only
      split <;> exact .pure _
    · exact .pure _

theorem steady_kind (v : PendingValue) : Steady (kind c i v) := by
  rw [kind]
  split
  · exact .pure _
  · split
    · exact .pure _
    · exact .throw rfl

theorem steady_value (v : PendingValue) : Steady (value c i v) := by
  rw [value]
  refine (steady_kind v).bind fun kind => ?_
  dsimp only
  split
  · exact (Steady.pure _).bind fun _ => .pure _
  · exact (steady_text _ _ _).bind fun _ => .pure _

theorem steady_event (e : PendingEvent) : Steady (event c i e) := by
  rw [event]
  refine (steady_text _ _ _).bind fun r => ?_
  split
  · exact .pure _
  · exact .throw rfl

/-! ## All declarations -/

/-- A step that has a result and finds errors and warnings, whatever was found before. -/
def Finds (m : StateM Findings α) (a : α) (found : Findings) : Prop :=
  ∀ f, m.run f = (a, ⟨f.errors ++ found.errors, f.warnings ++ found.warnings⟩)

namespace Finds

variable {a : α} {b : β} {es es' : List CompileError} {ws ws' : List CompileWarning}

theorem pure (a : α) : Finds (Pure.pure a) a ⟨[], []⟩ := fun f => by
  rw [List.append_nil, List.append_nil]
  rfl

theorem bind {m : StateM Findings α} {next : α → StateM Findings β} (hm : Finds m a ⟨es, ws⟩)
    (hnext : Finds (next a) b ⟨es', ws'⟩) : Finds (m >>= next) b ⟨es ++ es', ws ++ ws'⟩ := by
  intro f
  rw [StateT.run_bind, hm f]
  refine (hnext _).trans ?_
  simp only [List.append_assoc]

theorem mapM {step : α → StateM Findings β} {result : α → β} {errors : α → List CompileError}
    {warnings : α → List CompileWarning}
    (h : ∀ a, Finds (step a) (result a) ⟨errors a, warnings a⟩) (as : List α) :
    Finds (as.mapM step) (as.map result) ⟨as.flatMap errors, as.flatMap warnings⟩ := by
  induction as with
  | nil =>
    rw [List.mapM_nil]
    exact pure []
  | cons a as ih =>
    rw [List.mapM_cons, List.flatMap_cons, List.flatMap_cons, ← List.append_nil (as.flatMap errors),
      ← List.append_nil (as.flatMap warnings)]
    exact (h a).bind (ih.bind (pure _))

end Finds

/-- What comes of a step, where the cause of a failure is told at `place`. -/
def told (c : EmitContext) (place : Option Nat) (step : Emission α) : Except CompileError α :=
  (outcome step).mapError fun cause => Outline.errorAt c.options c.source cause place

theorem finds_collect {step : Emission α} (h : Steady step) (place : Option Nat) :
    Finds (collect c place step) (told c place step).toOption.toList
      ⟨(failure? (told c place step)).toList, added step⟩ := by
  intro f
  have hrun := h.run f.warnings
  rw [told]
  cases hresult : outcome step with
  | error cause =>
    rw [hresult] at hrun
    simp only [collect, StateT.run, hrun]
    rfl
  | ok a =>
    rw [hresult] at hrun
    simp only [collect, StateT.run, hrun]
    exact congrArg (Prod.mk [a]) (congrArg (Findings.mk · _) (List.append_nil _).symm)

/-- Only causes that the second pass finds are told. -/
theorem isLate_told {step : Emission α} (h : Steady step) {place : Option Nat} {e : CompileError}
    (he : failure? (told c place step) = some e) : e.cause.isLate := by
  rw [told] at he
  cases hresult : outcome step with
  | ok a =>
    rw [hresult] at he
    cases he
  | error cause =>
    rw [hresult] at he
    cases he
    exact h.late cause hresult

/-! ## Scopes -/

theorem insertSorted_perm (v : ValueTemplate) (ws : List ValueTemplate) :
    (insertSorted v ws).Perm (v :: ws) := by
  induction ws with
  | nil => exact .refl _
  | cons w ws ih =>
    rw [insertSorted]
    split
    · exact .refl _
    · exact (ih.cons w).trans (.swap ..)

theorem sorted_perm (vs : List ValueTemplate) : (sorted vs).Perm vs := by
  have hall (acc : List ValueTemplate) :
      (vs.foldl (fun acc v => insertSorted v acc) acc).Perm (vs ++ acc) := by
    induction vs generalizing acc with
    | nil => exact .refl _
    | cons v vs ih =>
      rw [List.foldl_cons]
      exact (ih _).trans (((insertSorted_perm v acc).append_left vs).trans List.perm_middle)
  have h := hall []
  rwa [List.append_nil] at h

/-- What comes of a declared value. -/
def toldValue (c : EmitContext) (i : ScopeIndex) (element : Option Nat) (v : PendingValue) :
    Except CompileError ValueTemplate :=
  told c (v.definition.place?.or element) (value c i v)

/-- What comes of a declared event handler. -/
def toldEvent (c : EmitContext) (i : ScopeIndex) (element : Option Nat) (e : PendingEvent) :
    Except CompileError EventTemplate :=
  told c (e.place.or element) (event c i e)

/-- The errors of the second pass in one scope. -/
def failures (c : EmitContext) (i : ScopeIndex) (p : PendingScope) : List CompileError :=
  (p.values.map (toldValue c i p.element)).filterMap failure? ++
    (p.events.map (toldEvent c i p.element)).filterMap failure?

/-- The warnings of the second pass in one scope. -/
def warned (c : EmitContext) (i : ScopeIndex) (p : PendingScope) : List CompileWarning :=
  p.values.flatMap (fun v => added (value c i v)) ++ p.events.flatMap fun e => added (event c i e)

/-- The templates of a scope. -/
def rendered (c : EmitContext) (i : ScopeIndex) (p : PendingScope) :
    List ValueTemplate × List EventTemplate :=
  let (handlers, others) := ((p.values.map (toldValue c i p.element)).filterMap
    Except.toOption).partition fun v => v.kind.isHandler
  (sorted others ++ sorted handlers, (p.events.map (toldEvent c i p.element)).filterMap Except.toOption)

theorem finds_scope (p : PendingScope) :
    Finds (scope c i p) (rendered c i p) ⟨failures c i p, warned c i p⟩ := by
  have hvalues := Finds.mapM (fun v : PendingValue => finds_collect (c := c)
    (steady_value (c := c) (i := i) v) (v.definition.place?.or p.element)) p.values
  have hevents := Finds.mapM (fun e : PendingEvent => finds_collect (c := c)
    (steady_event (c := c) (i := i) e) (e.place.or p.element)) p.events
  rw [rendered, failures, warned, ← flatten_results, ← flatten_results, ← flatMap_failures,
    ← flatMap_failures, ← List.append_nil (p.events.flatMap fun e => (failure? _).toList),
    ← List.append_nil (p.events.flatMap fun e => added _)]
  exact hvalues.bind (hevents.bind (.pure _))

theorem rendered_values_perm (p : PendingScope) : (rendered c i p).1.Perm
    ((p.values.map (toldValue c i p.element)).filterMap Except.toOption) := by
  rw [rendered]
  simp only [List.partition_eq_filter_filter]
  refine ((sorted_perm _).append (sorted_perm _)).trans (List.perm_append_comm.trans ?_)
  exact List.filter_append_perm _ _

/-- The second pass finds no other errors than those of texts. -/
theorem isLate_of_mem_failures {p : PendingScope} {e : CompileError} (he : e ∈ failures c i p) :
    e.cause.isLate := by
  rcases List.mem_append.1 he with he | he
  · obtain ⟨r, hr, he⟩ := List.mem_filterMap.1 he
    obtain ⟨v, -, rfl⟩ := List.mem_map.1 hr
    exact isLate_told (steady_value v) he
  · obtain ⟨r, hr, he⟩ := List.mem_filterMap.1 he
    obtain ⟨e', -, rfl⟩ := List.mem_map.1 hr
    exact isLate_told (steady_event e') he

end Emission

namespace Declaration

theorem not_ownAlias_of_mem_forms {form : String × (String → Declaration)} (h : form ∈ forms)
    (rest : String) : form.2 rest ≠ .ownAlias := by
  simp only [forms, List.mem_cons, List.not_mem_nil, or_false] at h
  rcases h with rfl | rfl | rfl | rfl | rfl <;> exact fun heq => by cases heq

/-- An alias is given by one attribute only. -/
theorem classify_eq_ownAlias_iff {name text : String} :
    classify name text = .declares .ownAlias ↔ name = ":aka" := by
  have hname (rest : List Char) : ofName? rest = some .ownAlias ↔ rest = "aka".toList := by
    rw [ofName?]
    split
    · exact iff_of_true rfl ‹_›
    · refine iff_of_false (fun h => ?_) ‹_›
      split at h
      · rename_i start make hfind
        dsimp only at h
        split at h
        · cases h
        · exact not_ownAlias_of_mem_forms (List.mem_of_find?_eq_some hfind) _ (Option.some.inj h)
      · dsimp only at h
        split at h <;> cases h
  rw [classify, ← String.toList_inj]
  split
  · rename_i rest hrest
    have haka : name.toList = ":aka".toList ↔ rest = "aka".toList := by
      rw [hrest]
      exact ⟨fun h => (List.cons.inj h).2, congrArg (':' :: ·)⟩
    rw [haka, ← hname]
    cases ofName? rest <;> simp
  · rename_i hcolon
    refine iff_of_false (fun h => ?_) fun h => hcolon "aka".toList h
    split at h <;> cases h

end Declaration

/-- A template of a value or of an event handler, in a scope. -/
abbrev TemplateIn : Type := ScopeIndex × (ValueTemplate ⊕ EventTemplate)

/-- The templates of a scope's values and events. -/
def ScopeTemplate.templates (t : ScopeTemplate) : List TemplateIn :=
  t.values.map (t.index, .inl ·) ++ t.events.map (t.index, .inr ·)

namespace Declared

variable {c : EmitContext} {i : ScopeIndex} {element : Option Nat}

/-- What comes of something that is declared in a scope, where the tag of the element stands at
`element` in the source: a template or an error. -/
def outcome (c : EmitContext) (i : ScopeIndex) (element : Option Nat) :
    Declared → Except CompileError TemplateIn
  | value v => (i, .inl ·) <$> Emission.toldValue c i element v
  | event e => (i, .inr ·) <$> Emission.toldEvent c i element e
  | nameless name => .error (Outline.errorAt c.options c.source (.emptyName name) element)

/-- What a declaration in a scope warns of. -/
def warnings (c : EmitContext) (i : ScopeIndex) : Declared → List CompileWarning
  | value v => Emission.added (Emission.value c i v)
  | event e => Emission.added (Emission.event c i e)
  | nameless _ => []

/-- Dynamic attributes declare something, unless they give an alias. -/
theorem isSome_ofAttribute? (place : String → Option Nat) (a : String × String) :
    (ofAttribute? place a).isSome = (Declaration.isDynamic a.1 a.2 && a.1 != ":aka") := by
  have hstatic : Declaration.classify a.1 a.2 = .static ↔ Declaration.isDynamic a.1 a.2 = false :=
    Declaration.classify_eq_static_iff
  have halias : Declaration.classify a.1 a.2 = .declares .ownAlias ↔ a.1 = ":aka" :=
    Declaration.classify_eq_ownAlias_iff
  unfold ofAttribute?
  rcases hrole : Declaration.classify a.1 a.2 with _ | declared | _
  · rw [hstatic.1 hrole]
    rfl
  all_goals
    rw [hrole] at hstatic halias
    have hdynamic : Declaration.isDynamic a.1 a.2 = true := by
      rw [← Bool.not_eq_false, ← hstatic]
      exact fun h => by cases h
    rw [hdynamic, Bool.true_and]
  · cases declared with
    | ownAlias =>
      rw [halias.1 rfl]
      rfl
    | value | handler | event =>
      have hname : a.1 ≠ ":aka" := fun h => by cases halias.2 h
      simp [hname]
  · have hname : a.1 ≠ ":aka" := fun h => by cases halias.2 h
    simp [hname]

/-- Values, events and what has no name are told apart. -/
theorem map_perm {β : Type} (f : Declared → β) (g : CompileCause → β)
    (hg : ∀ name, f (nameless name) = g (.emptyName name)) (xs : List Declared) :
    ((xs.filterMap value?).map (fun v => f (value v)) ++
      ((xs.filterMap event?).map (fun e => f (event e)) ++
        (xs.filterMap emptyName?).map g)).Perm (xs.map f) := by
  induction xs with
  | nil => exact .refl _
  | cons x xs ih =>
    cases x with
    | value v => exact ih.cons _
    | event e => exact List.perm_middle.trans (ih.cons _)
    | nameless name =>
      rw [List.map_cons, hg, ← List.append_assoc] at *
      exact List.perm_middle.trans (ih.cons _)

/-- What comes of all that is declared in one scope: its templates, its errors of the second pass, and
those about empty names. -/
theorem outcomes_perm (c : EmitContext) (i : ScopeIndex) (element : Option Nat) (xs : List Declared) :
    let p : PendingScope := ⟨xs.filterMap value?, xs.filterMap event?, element⟩
    let r := Emission.rendered c i p
    (xs.map (outcome c i element)).Perm
      ((r.1.map (i, Sum.inl ·) ++ r.2.map (i, Sum.inr ·)).map Except.ok ++
        (Emission.failures c i p ++ (xs.filterMap emptyName?).map fun cause =>
          Outline.errorAt c.options c.source cause element).map Except.error) := by
  intro p r
  have hall := map_perm (outcome c i element)
    (fun cause => .error (Outline.errorAt c.options c.source cause element)) (fun _ => rfl) xs
  have hvalues := perm_results_failures (fun w => (⟨i, .inl w⟩ : TemplateIn))
    (Emission.toldValue c i element) p.values
  have hevents := perm_results_failures (fun w => (⟨i, .inr w⟩ : TemplateIn))
    (Emission.toldEvent c i element) p.events
  have hrendered := ((Emission.rendered_values_perm (c := c) (i := i) p).map
    fun w => (⟨i, .inl w⟩ : TemplateIn)).map (Except.ok (ε := CompileError))
  have hnames : ((xs.filterMap emptyName?).map fun cause =>
      Except.error (Outline.errorAt c.options c.source cause element)) =
        ((xs.filterMap emptyName?).map fun cause => Outline.errorAt c.options c.source cause element).map
          (Except.error (α := TemplateIn)) := (List.map_map ..).symm
  refine hall.symm.trans ((hvalues.symm.append (hevents.symm.append_right _)).trans ?_)
  simp only [hnames, Emission.failures, List.map_append, List.append_assoc]
  refine hrendered.symm.append ?_
  exact List.perm_append_comm_assoc ..

/-- What is warned of in one scope. -/
theorem warnings_perm (c : EmitContext) (i : ScopeIndex) (element : Option Nat) (xs : List Declared) :
    (xs.flatMap (warnings c i)).Perm
      (Emission.warned c i ⟨xs.filterMap value?, xs.filterMap event?, element⟩) := by
  have hall := (map_perm (warnings c i) (fun _ => []) (fun _ => rfl) xs).flatten
  have hnone : ((xs.filterMap emptyName?).map fun _ => ([] : List CompileWarning)).flatten = [] := by
    simp
  rw [List.flatten_append, List.flatten_append, hnone, List.append_nil] at hall
  exact hall.symm

end Declared

/-! ## The program -/

namespace Outline

variable {o : CompileOptions} {l : Outline}

/-- How the templates of an outline are made. -/
def context (o : CompileOptions) (l : Outline) : EmitContext := ⟨o, l.source, l.tree⟩

theorem emit_finds (o : CompileOptions) (l : Outline) :
    (l.pending.zipIdx.mapM fun (p, index) => Emission.scope (l.context o) index p).run ⟨l.errors, []⟩ =
      (l.pending.zipIdx.map fun p => Emission.rendered (l.context o) p.2 p.1,
        ⟨l.errors ++ l.pending.zipIdx.flatMap fun p => Emission.failures (l.context o) p.2 p.1,
          l.pending.zipIdx.flatMap fun p => Emission.warned (l.context o) p.2 p.1⟩) :=
  Emission.Finds.mapM (fun p : PendingScope × Nat => Emission.finds_scope p.1) l.pending.zipIdx
    ⟨l.errors, []⟩

/-- The second pass renders the scopes one after the other. -/
theorem emit_eq (o : CompileOptions) (l : Outline) :
    (l.emit o).errors = l.errors ++
        l.pending.zipIdx.flatMap (fun p => Emission.failures (l.context o) p.2 p.1) ∧
      (l.emit o).program.root = if l.tree.size = 0 then none else some (l.tree.assemble
        (l.pending.zipIdx.map fun p => Emission.rendered (l.context o) p.2 p.1) l.tree.size 0) := by
  have hfinds := emit_finds o l
  have hresult : _ = l.pending.zipIdx.map fun p => Emission.rendered (l.context o) p.2 p.1 :=
    congrArg Prod.fst hfinds
  refine ⟨congrArg (fun r => r.2.errors) hfinds, ?_⟩
  rw [← hresult]
  rfl

/-- They warn one after the other. -/
theorem emit_warnings (o : CompileOptions) (l : Outline) : (l.emit o).warnings =
    l.pending.zipIdx.flatMap fun p => Emission.warned (l.context o) p.2 p.1 :=
  congrArg (fun r => r.2.warnings) (emit_finds o l)

/-- A program whose scopes are numbered in tree order holds what was rendered for each of them. -/
theorem emit_rendered (hspans : l.tree.Spans [0] 0 l.tree.size)
    (hlength : l.pending.length = l.tree.size) :
    (l.emit o).program.scopes.map (fun u => (u.index, u.values, u.events)) =
      l.pending.zipIdx.map fun p => (p.2, Emission.rendered (l.context o) p.2 p.1) := by
  have hsize : l.tree.size ≠ 0 := by
    cases hspans with
    | cons below rest =>
      have := below.le
      have := rest.le
      omega
  rw [Program.scopes, (emit_eq o l).2, if_neg hsize]
  dsimp only
  rw [hspans.walk_rendered]
  refine List.ext_getElem (by simp [hlength]) fun i hi hi' => ?_
  have hlt : i < l.pending.length := by simpa using hi'
  simp [hlt]

end Outline

/-! ## The declarations of a document -/

/-- An element with its scope; its tag stands at `element` in the source. -/
structure Site where
  node : NodeId
  scope : ScopeIndex
  element : Option Nat

namespace Document

variable {o : CompileOptions} {source : Option String} {d : Document}

/-- The elements that get scopes. -/
def scopeElements (d : Document) : List NodeId :=
  match d.documentElement? with
  | some root => d.annotated root
  | none => []

/-- The elements with their scopes. -/
def sites (o : CompileOptions) (source : Option String) (d : Document) : List Site :=
  (d.scopeElements.zip ((Outline.ofDocument o source d).pending.map (·.element))).zipIdx.map
    fun p => ⟨p.1.1, p.2, p.1.2⟩

/-- What the element of a site declares. -/
def declaredAt (source : Option String) (d : Document) (s : Site) : List Declared :=
  d.declared (placeIn source s.element) s.node

/-- All that is declared, with where it is. -/
def declarations (o : CompileOptions) (source : Option String) (d : Document) :
    List (Site × Declared) :=
  (d.sites o source).flatMap fun s => (d.declaredAt source s).map (s, ·)

/-- What comes of a declaration. -/
def outcome (o : CompileOptions) (source : Option String) (d : Document) (x : Site × Declared) :
    Except CompileError TemplateIn :=
  x.2.outcome ((Outline.ofDocument o source d).context o) x.1.scope x.1.element

/-- What a declaration warns of. -/
def warned (o : CompileOptions) (source : Option String) (d : Document) (x : Site × Declared) :
    List CompileWarning :=
  x.2.warnings ((Outline.ofDocument o source d).context o) x.1.scope

/-- The outline of a document in terms of its sites. -/
structure Surveyed (o : CompileOptions) (source : Option String) (d : Document) (l : Outline) : Prop where
  text : l.source.map (·.source) = source
  nodes : (d.sites o source).map (·.node) = d.scopeElements
  pending : l.pending.zipIdx =
    (d.sites o source).map fun s => (Outline.draft source d s.node s.element, s.scope)
  errors : l.errors.filter (fun e => !e.cause.isDuplicateAlias) =
    (d.sites o source).flatMap fun s => Outline.nameless o source d s.node s.element
  spans : (d.sites o source = [] ∧ l.tree.size = 0) ∨
    l.tree.Spans [0] 0 l.tree.size ∧ l.pending.length = l.tree.size

theorem surveyed (o : CompileOptions) (source : Option String) (hd : d.IsTree) (hnames : d.UniqueNames) :
    d.Surveyed o source (Outline.ofDocument o source d) := by
  cases hroot : d.documentElement? with
  | none =>
    have helements : d.scopeElements = [] := by rw [scopeElements, hroot]
    have hsites : d.sites o source = [] := by rw [sites, helements]; rfl
    have houtline : Outline.ofDocument o source d = ⟨d, source.map .ofSource, .empty, [], []⟩ := by
      rw [Outline.ofDocument, hroot]
    rw [houtline]
    refine ⟨by cases source <;> rfl, ?_, ?_, ?_, .inl ⟨hsites, rfl⟩⟩
    all_goals rw [hsites]
    · rw [helements]; rfl
    · rfl
    · rfl
  | some root =>
    have helement : d.isElement root := List.find?_some hroot
    have hvisits := Outline.ofDocument_visits (o := o) source hd hnames hroot
    have hdrafts := hvisits.drafts hd hnames helement
    have hspans := (Outline.ofDocument_progress (o := o) source hd hnames hroot).2
    have hsize := hvisits.size hd hnames helement
    have helements : d.scopeElements = (d.elements root).filter d.isAnnotated := by
      rw [scopeElements, hroot]
      rfl
    have hsites : d.sites o source = (((d.elements root).filter d.isAnnotated).zip
        ((Outline.ofDocument o source d).pending.map (·.element))).zipIdx.map
          fun p => ⟨p.1.1, p.2, p.1.2⟩ := by
      rw [sites, helements]
    generalize Outline.ofDocument o source d = l at hdrafts hspans hsize hsites ⊢
    have hlength : ((d.elements root).filter d.isAnnotated).length =
        (l.pending.map (·.element)).length := by
      rw [List.length_map, hdrafts.length]
    have hmap {β : Type} (f : NodeId → Option Nat → β) :
        (d.sites o source).map (fun s => f s.node s.element) =
          List.zipWith f ((d.elements root).filter d.isAnnotated) (l.pending.map (·.element)) := by
      rw [hsites, List.map_map, ← List.map_uncurry_zip_eq_zipWith]
      refine (List.map_map (f := Prod.fst) (g := Function.uncurry f) ..).symm.trans ?_
      rw [List.zipIdx_map_fst]
    refine ⟨hdrafts.text, ?_, ?_, ?_, .inr ⟨hspans, hdrafts.length.trans hsize.symm⟩⟩
    · rw [helements, hmap fun n _ => n, ← List.map_uncurry_zip_eq_zipWith]
      exact List.map_fst_zip (Nat.le_of_eq hlength)
    · calc l.pending.zipIdx
        _ = (List.zipWith (Outline.draft source d) ((d.elements root).filter d.isAnnotated)
              (l.pending.map (·.element))).zipIdx := congrArg List.zipIdx hdrafts.pending
        _ = (d.sites o source).map fun s => (Outline.draft source d s.node s.element, s.scope) := by
          rw [hsites, ← List.map_uncurry_zip_eq_zipWith, List.zipIdx_map, List.map_map]
          rfl
    · rw [hdrafts.errors, ← hmap, List.flatMap_def]

namespace Surveyed

variable {l : Outline}

/-- The program has what is rendered for the sites. -/
theorem templates (h : d.Surveyed o source l) : (l.emit o).program.scopes.flatMap (·.templates) =
    (d.sites o source).flatMap fun s =>
      let r := Emission.rendered (l.context o) s.scope (Outline.draft source d s.node s.element)
      r.1.map (s.scope, Sum.inl ·) ++ r.2.map (s.scope, Sum.inr ·) := by
  rcases h.spans with ⟨hsites, hsize⟩ | ⟨hspans, hlength⟩
  · rw [hsites, Program.scopes, (Outline.emit_eq o l).2, if_pos hsize]
    rfl
  · have hrendered := Outline.emit_rendered (o := o) hspans hlength
    rw [h.pending, List.map_map] at hrendered
    have hflat := congrArg (List.flatMap fun u : ScopeIndex × List ValueTemplate × List EventTemplate =>
      u.2.1.map (u.1, Sum.inl ·) ++ u.2.2.map (u.1, Sum.inr ·)) hrendered
    rwa [List.flatMap_map, List.flatMap_map] at hflat

/-- The errors are those about names that are empty and those of the second pass, besides those about
aliases. -/
theorem emit_errors (h : d.Surveyed o source l) :
    (l.emit o).errors.filter (fun e => !e.cause.isDuplicateAlias) =
      ((d.sites o source).flatMap fun s => Outline.nameless o source d s.node s.element) ++
        (d.sites o source).flatMap fun s => Emission.failures (l.context o) s.scope
          (Outline.draft source d s.node s.element) := by
  rw [(Outline.emit_eq o l).1, List.filter_append, h.errors, h.pending, List.flatMap_map]
  congr 1
  rw [List.filter_eq_self]
  intro e he
  obtain ⟨s, -, he⟩ := List.mem_flatMap.1 he
  rw [CompileCause.isDuplicateAlias_of_isLate (Emission.isLate_of_mem_failures he)]
  rfl

end Surveyed

/-- Each declaration comes out as one template in its scope or as one error, and there are no other
templates, and no other errors but those about aliases. -/
theorem outcomes_perm (o : CompileOptions) (source : Option String) (hd : d.IsTree)
    (hnames : d.UniqueNames) : ((d.declarations o source).map (d.outcome o source)).Perm
      (((d.compile o source).program.scopes.flatMap (·.templates)).map Except.ok ++
        ((d.compile o source).errors.filter fun e => !e.cause.isDuplicateAlias).map Except.error) := by
  have h := d.surveyed o source hd hnames
  have hsite (s : Site) := Declared.outcomes_perm ((Outline.ofDocument o source d).context o) s.scope
    s.element (d.declaredAt source s)
  have herror (cause : CompileCause) (element : Option Nat) :
      Outline.errorAt o (Outline.ofDocument o source d).source cause element =
        Outline.errorAt o (source.map .ofSource) cause element := Outline.errorAt_eq h.text cause element
  rw [compile, h.templates, h.emit_errors, declarations, List.map_flatMap]
  simp only [List.map_map]
  refine (List.Perm.flatMap_left _ fun s _ => hsite s).trans ?_
  simp only [Outline.context, herror]
  refine (List.flatMap_append_perm ..).symm.trans ?_
  rw [← List.map_flatMap, ← List.map_flatMap]
  exact ((List.flatMap_append_perm ..).symm.trans List.perm_append_comm).map Except.error |>.append_left _

/-- The warnings are those of the declarations. -/
theorem warnings_perm (o : CompileOptions) (source : Option String) (hd : d.IsTree)
    (hnames : d.UniqueNames) :
    ((d.declarations o source).flatMap (d.warned o source)).Perm (d.compile o source).warnings := by
  have h := d.surveyed o source hd hnames
  rw [compile, Outline.emit_warnings, h.pending, List.flatMap_map, declarations, List.flatMap_assoc]
  refine List.Perm.flatMap_left _ fun s _ => ?_
  rw [List.flatMap_map]
  exact Declared.warnings_perm _ s.scope s.element (d.declaredAt source s)

/-- No change of the document is ever refused. -/
theorem isDocument_of_mem_errors (o : CompileOptions) (source : Option String) (hd : d.IsTree)
    (hnames : d.UniqueNames) {e : CompileError} (he : e ∈ (d.compile o source).errors) :
    e.cause.isDocument = false := by
  have h := d.surveyed o source hd hnames
  by_cases htaken : e.cause.isDuplicateAlias
  · exact CompileCause.isDocument_of_isDuplicateAlias htaken
  · have hmem : e ∈ (d.compile o source).errors.filter fun e => !e.cause.isDuplicateAlias :=
      List.mem_filter.2 ⟨he, by simpa using htaken⟩
    rw [compile, h.emit_errors, List.mem_append, List.mem_flatMap, List.mem_flatMap] at hmem
    rcases hmem with ⟨s, -, he⟩ | ⟨s, -, he⟩
    · obtain ⟨cause, hcause, rfl⟩ := List.mem_map.1 he
      obtain ⟨x, -, hx⟩ := List.mem_filterMap.1 hcause
      cases x with
      | nameless name =>
        obtain rfl := Option.some.inj hx
        rfl
      | value | event => cases hx
    · exact CompileCause.isDocument_of_isLate (Emission.isLate_of_mem_failures he)

/-! ## How many there are -/

/-- The names of the values that an element declares by its attributes and texts. -/
def ownNames (d : Document) (n : NodeId) : List String :=
  Declared.names (d.declaredItself (fun _ => none) n)

/-- The names of the companions that a list or a request of an element implies. -/
def impliedNames (d : Document) (n : NodeId) : List String :=
  if (d.ownNames n).contains ValueName.data || (d.ownNames n).contains ValueName.request then
    [ValueName.data, ValueName.dataOffset, ValueName.dataLength].filter fun name =>
      !(d.ownNames n).contains name
  else []

/-- How many declarations an element has: dynamic attributes but for an alias, texts with expressions, and
implied companions. -/
def declarationCount (d : Document) (n : NodeId) : Nat :=
  ((d.attributes n).countP fun a => Declaration.isDynamic a.1 a.2 && a.1 != ":aka") +
    ((d.children n).countP fun c => (d.expressionText? c).isSome) + (d.impliedNames n).length

/-- Where a text stands does not matter for the names. -/
theorem names_declaredItself (d : Document) (place : String → Option Nat) (n : NodeId) :
    Declared.names (d.declaredItself place n) = d.ownNames n := by
  have hname (a : String × String) :
      (Declared.ofAttribute? place a).bind (fun x => x.value?.map (·.name)) =
        (Declared.ofAttribute? (fun _ => none) a).bind fun x => x.value?.map (·.name) := by
    unfold Declared.ofAttribute?
    rcases Declaration.classify a.1 a.2 with _ | declared | _
    · rfl
    · cases declared <;> rfl
    · rfl
  rw [ownNames, Declared.names, Declared.names, List.map_filterMap, List.map_filterMap, declaredItself,
    declaredItself, List.filterMap_append, List.filterMap_append]
  congr 1
  · rw [List.filterMap_filterMap, List.filterMap_filterMap]
    exact List.filterMap_congr fun a _ => hname a
  · rw [List.filterMap_map, List.filterMap_map]
    rfl

theorem map_name_companions (d : Document) (place : String → Option Nat) (n : NodeId) :
    (Declared.companions (d.declaredItself place n)).map (·.name) = d.impliedNames n := by
  rw [Declared.companions, impliedNames, names_declaredItself]
  split
  · have hnames : [ValueName.data, ValueName.dataOffset, ValueName.dataLength] =
        ScopeDraft.companions.map (·.name) := rfl
    rw [hnames, List.filter_map]
    rfl
  · rfl

theorem length_declared (d : Document) (place : String → Option Nat) (n : NodeId) :
    (d.declared place n).length = d.declarationCount n := by
  have htexts : (Outline.texts d n).length = (d.children n).countP fun c => (d.expressionText? c).isSome := by
    rw [List.countP_eq_length_filter, ← Outline.map_texts, List.length_map]
  have hcompanions := congrArg List.length (d.map_name_companions place n)
  rw [List.length_map] at hcompanions
  rw [declared, List.length_append, List.length_map, hcompanions, declaredItself, List.length_append,
    List.length_map, htexts, List.length_filterMap_eq_countP, declarationCount]
  simp only [Declared.isSome_ofAttribute?]

/-- As many templates and errors come out as there are declarations, errors about aliases aside. -/
theorem count_outcomes (o : CompileOptions) (source : Option String) (hd : d.IsTree)
    (hnames : d.UniqueNames) :
    ((d.compile o source).program.scopes.map fun t => t.values.length + t.events.length).sum +
        ((d.compile o source).errors.filter fun e => !e.cause.isDuplicateAlias).length =
      (d.scopeElements.map d.declarationCount).sum := by
  have htemplates (ts : List ScopeTemplate) : (ts.flatMap (·.templates)).length =
      (ts.map fun t => t.values.length + t.events.length).sum := by
    rw [List.length_flatMap]
    refine congrArg List.sum (List.map_congr_left fun t _ => ?_)
    rw [ScopeTemplate.templates, List.length_append, List.length_map, List.length_map]
  have hdeclarations : (d.declarations o source).length =
      (d.scopeElements.map d.declarationCount).sum := by
    rw [declarations, List.length_flatMap, ← (d.surveyed o source hd hnames).nodes, List.map_map]
    refine congrArg List.sum (List.map_congr_left fun s _ => ?_)
    rw [List.length_map, declaredAt, length_declared]
    rfl
  have hlength := (d.outcomes_perm o source hd hnames).length_eq
  rw [List.length_map, List.length_append, List.length_map, List.length_map, htemplates,
    hdeclarations] at hlength
  exact hlength.symm

end Document

end ReactiveMarkup
