import ReactiveMarkup.Proofs.Graph.Cycle
import ReactiveMarkup.Proofs.Graph.Sparing
import ReactiveMarkup.Proofs.Graph.Ways

/-!
# What a handler watches

A handler of changes remembers what it read last, and reads what it watches by a path. It may be followed
what both show, and how many times the handler was run, as long as neither is assigned on the way: every
step but an evaluation of one of the two leaves this alone.

A value may be removed at any time, or a scope on the way of the path, and a read or write may be refused.
None of this is undone then, so these are cases of their own which every step keeps.

Main definitions: `Vigil`, `Cell.Source`, `Graph.fired`, `Graph.Over`, `Graph.Keeping`.
Main results: `Graph.over_regimen`, `Graph.keeping_routine`, `Graph.pull_source`,
`Graph.refresh_source_keeps`.
-/
namespace ReactiveMarkup

/-- A handler with the value that it watches. The path from the one to the other leads there wherever
the scopes on the way stand. -/
structure Vigil where
  handler : ValueId
  watched : ValueId
  scope : ScopeId
  path : ValuePath
  body : Expr
  way : List (ScopeId × ScopeRecord)
  ne : watched ≠ handler
  leads : ∀ g : Graph, (∀ p ∈ way, g.Stands p) → g.resolve? scope path = some watched

/-- The values that are followed. -/
def Vigil.ids (V : Vigil) : List ValueId := [V.watched, V.handler]

theorem Vigil.mem_ids {V : Vigil} {id : ValueId} : id ∈ V.ids ↔ id = V.watched ∨ id = V.handler := by
  simp [Vigil.ids]

/-- The cell of the handler, with what it remembers. -/
structure Cell.Posted (V : Vigil) (memory : Value) (c : Cell) : Prop where
  kind : c.template.kind = .handler V.path
  scope : c.scope = V.scope
  compute : c.compute = some V.body
  replica : c.replica = none
  evaluated : c.evaluated.isSome
  output : c.output = memory

/-- An expression of a scope that gives what equals a value, and does nothing else. -/
def Graph.Constant (scope : ScopeId) (e : Expr) (v : Value) : Prop :=
  ∀ (r : Reentry) (g : Graph), ∃ v' stamps,
    (Graph.evaluate r scope e none).run g = (.ok v', { g with stamps }) ∧ v.looseEq v' = true

/-- A value that makes no list and sends out no request. It shows `v`, and an evaluation gives nothing
else. -/
structure Cell.Source (v : Value) (c : Cell) : Prop where
  isHandler : c.template.kind.isHandler = false
  isRequest : c.template.kind ≠ .request
  replica : c.replica = none
  evaluated : c.evaluated.isSome
  output : c.output = v
  compute : ∀ e, c.compute = some e → Graph.Constant c.scope e v

theorem Cell.Posted.kept {V : Vigil} {memory : Value} {c c' : Cell} (h : c.Posted V memory)
    (hk : Cell.Kept c c') : c'.Posted V memory := by
  refine ⟨?_, ?_, ?_, ?_, hk.evaluated h.evaluated, ?_⟩
  all_goals rw [hk.eq]
  exacts [h.kind, h.scope, h.compute, h.replica, h.output]

theorem Cell.Source.kept {v : Value} {c c' : Cell} (h : c.Source v) (hk : Cell.Kept c c') :
    c'.Source v := by
  refine ⟨?_, ?_, ?_, hk.evaluated h.evaluated, ?_, ?_⟩
  all_goals rw [hk.eq]
  exacts [h.isHandler, h.isRequest, h.replica, h.output, h.compute]

namespace Graph

variable {V : Vigil} {shown memory v : Value} {total : Nat} {mark : Option Nat → Prop} {id : ValueId}
  {r : Reentry} {g g' : Graph}

/-- A literal gives its value, which equals itself unless it is not a number. -/
theorem constant_literal (scope : ScopeId) (range : Range) {l : Literal}
    (h : l.value.looseEq l.value = true) : Constant scope (.literal range l) l.value :=
  fun _ g => ⟨l.value, g.stamps, rfl, h⟩

/-! ## The end of a vigil -/

/-- How many times a handler was run. -/
def fired (g : Graph) (id : ValueId) : Nat := g.runs.countP (·.runner = .handler id)

/-- A graph in which a read or write was refused. -/
def Refused (g : Graph) : Prop := ∃ name limit, Diagnostic.depthExceeded name limit ∈ g.diagnostics

/-- A vigil that is over: something of it is gone, or a read or write was refused. -/
def Over (V : Vigil) (g : Graph) : Prop :=
  (∃ p, p ∈ V.way ∧ Naming p.1 (fun _ => False) g) ∨ Holding V.watched (fun _ => False) g ∨
    Holding V.handler (fun _ => False) g ∨ Refused g

theorem refused_aloof : Aloof Refused := .of_any fun h haside => by
  obtain ⟨name, limit, hmem⟩ := h
  exact ⟨name, limit, haside.diagnostics.subset hmem⟩

theorem over_regimen (V : Vigil) : Regimen (ι := Unit) (fun i => i) (fun _ => True) fun _ => Over V := by
  have hrefused : Discipline (fun _ : Unit => ()) (fun _ => True) fun _ => Refused :=
    Aloof.discipline (fun _ => refused_aloof) (fun h => h) (fun h => h) (fun h _ => h) fun h _ => h
  have hscopes : Invariant (fun _ => True) fun g => ∃ p, p ∈ V.way ∧ Naming p.1 (fun _ => False) g :=
    .any fun p => naming_invariant
  exact hscopes.discipline.toRegimen.or (gone_regimen.or (gone_regimen.or hrefused.toRegimen))

theorem Over.congr (h : Over V g) (hscopes : g'.scopes = g.scopes) (hvalues : g'.values = g.values)
    (hdiagnostics : g'.diagnostics = g.diagnostics) : Over V g' := by
  rcases h with ⟨p, hp, h⟩ | h | h | ⟨name, limit, h⟩
  · exact .inl ⟨p, hp, Naming.scopewise h hscopes⟩
  · exact .inr (.inl (h.of_values hvalues))
  · exact .inr (.inr (.inl (h.of_values hvalues)))
  · exact .inr (.inr (.inr ⟨name, limit, hdiagnostics ▸ h⟩))

theorem over_enters (V : Vigil) : Enters (fun _ : Unit => Over V) fun _ => Over V :=
  ⟨(·.congr rfl rfl rfl), (·.congr rfl rfl rfl)⟩

theorem over_of_refused (V : Vigil) (g : Graph) (name : String) : Over V (g.refused name) :=
  .inr (.inr (.inr ⟨name, _, List.mem_append_right _ (List.mem_singleton_self _)⟩))

/-! ## What is followed -/

/-- The scopes on the way of the path are what they were built as, if they are live. -/
def Sited (V : Vigil) (g : Graph) : Prop := ∀ p, p ∈ V.way → Naming p.1 (· = p.2) g

/-- A handler that remembers `memory` and was run `total` times, and watches a value that shows `shown`. -/
structure Keeping (V : Vigil) (shown memory : Value) (total : Nat) (mark : Option Nat → Prop) (g : Graph) :
    Prop where
  sited : Sited V g
  source : Holding V.watched (Cell.Source shown) g
  posted : Holding V.handler (fun c => c.Posted V memory ∧ mark c.evaluated) g
  fired : g.fired V.handler = total

theorem fired_noted_value (g : Graph) (v id : ValueId) : (g.noted (.value v)).fired id = g.fired id := by
  simp [fired, noted]

theorem fired_noted_self (g : Graph) (id : ValueId) : (g.noted (.handler id)).fired id = g.fired id + 1 := by
  simp [fired, noted]

theorem fired_noted_of_ne {v : ValueId} (h : v ≠ id) (g : Graph) :
    (g.noted (.handler v)).fired id = g.fired id := by
  simp [fired, noted, h]

theorem fired_secluded (id : ValueId) (total : Nat) : Secluded fun g => g.fired id = total :=
  .of_any fun h hinward => by
    rw [← h, fired, fired, ← hinward.runs]

theorem sited_invariant (V : Vigil) : Invariant (fun _ => True) (Sited V) :=
  .all fun _ => naming_invariant

/-- Every kind of step but an evaluation or assignment of what is followed leaves it alone. -/
theorem keeping_routine (V : Vigil) (shown memory : Value) (total : Nat) (mark : Option Nat → Prop) :
    Routine (ι := Unit) (fun i => i) (fun _ => True) fun _ => Keeping V shown memory total mark := by
  have hsource : Routine (ι := Unit) (fun i => i) (fun _ => True)
      fun _ => Holding V.watched (Cell.Source shown) := holding_routine fun h => h.kept .relinked
  have hposted : Routine (ι := Unit) (fun i => i) (fun _ => True)
      fun _ => Holding V.handler fun c => c.Posted V memory ∧ mark c.evaluated :=
    holding_routine fun h => ⟨h.1.kept .relinked, h.2⟩
  have hfired : Routine (ι := Unit) (fun i => i) (fun _ => True) fun _ g => g.fired V.handler = total :=
    Upheld.routine (fun _ => (fired_secluded V.handler total).toUpheld) (fun h => h) (fun h => h)
      (fun h _ => h) fun _ _ _ h => h
  have hboth := (sited_invariant V).discipline.toRoutine.and (hsource.and (hposted.and hfired id) id) id
  have heq : (fun g => Sited V g ∧ Holding V.watched (Cell.Source shown) g ∧
      Holding V.handler (fun c => c.Posted V memory ∧ mark c.evaluated) g ∧ g.fired V.handler = total) =
      Keeping V shown memory total mark := by
    funext g
    exact propext ⟨fun h => ⟨h.1, h.2.1, h.2.2.1, h.2.2.2⟩, fun h => ⟨h.1, h.2, h.3, h.4⟩⟩
  rw [← heq]
  exact hboth

namespace Keeping

variable (h : Keeping V shown memory total mark g)
include h

theorem congr (hscopes : g'.scopes = g.scopes) (hvalues : g'.values = g.values)
    (hruns : g'.runs = g.runs) : Keeping V shown memory total mark g' where
  sited p hp := Naming.scopewise (h.sited p hp) hscopes
  source := h.source.of_values hvalues
  posted := h.posted.of_values hvalues
  fired := by rw [← h.fired, Graph.fired, Graph.fired, hruns]

/-- Values that are not followed may be revised. -/
theorem modify_of_ne (hid : id ∉ V.ids) (f : Cell → Cell) :
    Keeping V shown memory total mark { g with values := g.values.modify id f } := by
  rw [Vigil.mem_ids, not_or] at hid
  exact ⟨fun p hp => Naming.scopewise (h.sited p hp) rfl, h.source.modify_of_ne (Ne.symm hid.1) f,
    h.posted.modify_of_ne (Ne.symm hid.2) f, h.fired⟩

/-- The watched value is revised. -/
theorem revise_watched {f : Cell → Cell} (hf : ∀ c, c.Source shown → (f c).Source v) :
    Keeping V v memory total mark { g with values := g.values.modify V.watched f } :=
  ⟨fun p hp => Naming.scopewise (h.sited p hp) rfl, h.source.revise hf,
    h.posted.modify_of_ne (Ne.symm V.ne) f, h.fired⟩

/-- The handler is revised. -/
theorem revise_handler {mark' : Option Nat → Prop} {f : Cell → Cell}
    (hf : ∀ c, c.Posted V memory → mark c.evaluated → (f c).Posted V v ∧ mark' (f c).evaluated) :
    Keeping V shown v total mark' { g with values := g.values.modify V.handler f } :=
  ⟨fun p hp => Naming.scopewise (h.sited p hp) rfl, h.source.modify_of_ne V.ne f,
    h.posted.revise fun c hc => hf c hc.1 hc.2, h.fired⟩

/-- Runs of others may be noted, and a run of the handler itself counts. -/
theorem noted_value (id : ValueId) : Keeping V shown memory total mark (g.noted (.value id)) :=
  ⟨fun p hp => Naming.scopewise (h.sited p hp) rfl, h.source.of_values rfl, h.posted.of_values rfl,
    (fired_noted_value g id V.handler).trans h.fired⟩

theorem noted_of_ne (hid : id ≠ V.handler) : Keeping V shown memory total mark (g.noted (.handler id)) :=
  ⟨fun p hp => Naming.scopewise (h.sited p hp) rfl, h.source.of_values rfl, h.posted.of_values rfl,
    (fired_noted_of_ne hid g).trans h.fired⟩

theorem noted_handler : Keeping V shown memory (total + 1) mark (g.noted (.handler V.handler)) :=
  ⟨fun p hp => Naming.scopewise (h.sited p hp) rfl, h.source.of_values rfl, h.posted.of_values rfl,
    (fired_noted_self g V.handler).trans (congrArg (· + 1) h.fired)⟩

/-- The path leads to the watched value, unless a scope on the way is gone. -/
theorem leads_or_over : g.resolve? V.scope V.path = some V.watched ∨ Over V g := by
  by_cases hstands : ∀ p ∈ V.way, g.Stands p
  · exact .inl (V.leads g hstands)
  · simp only [not_forall] at hstands
    obtain ⟨p, hp, hnot⟩ := hstands
    refine .inr (.inl ⟨p, hp, (h.sited p hp).gone ?_⟩)
    cases hs : g.scopes.get? p.1 with
    | none => rfl
    | some s => exact absurd ⟨s, hs, (h.sited p hp).record s hs⟩ hnot

/-- Without the watched value a vigil is over. -/
theorem over_of_watched (hnone : g.values.get? V.watched = none) : Over V g :=
  .inr (.inl (h.source.gone hnone))

/-- So it is without the handler. -/
theorem over_of_handler (hnone : g.values.get? V.handler = none) : Over V g :=
  .inr (.inr (.inl (h.posted.gone hnone)))

end Keeping

/-! ## Evaluating the watched value -/

/-- What is done with a new output, once it is known. -/
theorem run_refresh_of {first : Bool} {result : Option Value}
    (h : (recompute r id first).run g = (result, g')) :
    (refresh r id first).run g = (concluded r id first result).run g' := by
  change (recompute r id first >>= concluded r id first).run g = _
  rw [StateT.run_bind, h]
  rfl

/-- A source that is evaluated again changes nothing, but the run is noted if it has an expression. -/
theorem run_refresh_source {c : Cell} (hc : g.values.get? id = some c) (h : c.Source v) (r : Reentry) :
    ∃ g', (refresh r id false).run g = ((), g') ∧
      (g' = g ∨ ∃ stamps, g' = { g.noted (.value id) with stamps }) := by
  have hkind := h.isHandler
  cases hcompute : c.compute with
  | none =>
    have hrecompute : (recompute r id false).run g = (none, g) := by
      rw [recompute, run_get_bind, hc]
      dsimp only
      rw [hcompute, h.replica]
      cases hk : c.template.kind with
      | handler => simp [hk, ValueKind.isHandler] at hkind
      | _ => rfl
    exact ⟨g, run_refresh_of hrecompute, .inl rfl⟩
  | some e =>
    obtain ⟨v', stamps, hgives, hsame⟩ := h.compute e hcompute r (g.noted (.value id))
    obtain ⟨after, hafter⟩ : ∃ after : Graph, after = { g.noted (.value id) with stamps } := ⟨_, rfl⟩
    rw [← hafter] at hgives
    have hattempt : (attempt r id c.scope e).run (g.noted (.value id)) = (some v', after) := by
      rw [attempt, StateT.run_bind, hgives]
      rfl
    have hrecompute : (recompute r id false).run g = (some v', after) := by
      rw [recompute, run_get_bind, hc]
      dsimp only
      rw [hcompute]
      cases hk : c.template.kind with
      | handler => simp [hk, ValueKind.isHandler] at hkind
      | _ => exact hattempt
    have hlive : after.values.get? id = some c := by rw [hafter]; exact hc
    have hcommit : (commit r id v' false).run after = (false, after) := by
      rw [run_commit v' hlive h.replica, h.output, if_pos hsame]
    refine ⟨after, ?_, .inr ⟨stamps, hafter⟩⟩
    rw [run_refresh_of hrecompute, concluded, StateT.run_bind, hcommit]
    rfl

/-- So it keeps what a note of the run keeps. -/
theorem refresh_source_keeps {P : Graph → Prop} (hstamps : ∀ {g} stamps, P g → P { g with stamps })
    (hnoted : ∀ {g}, P g → P (g.noted (.value id))) {c : Cell} (hc : g.values.get? id = some c)
    (h : c.Source v) (r : Reentry) (hg : P g) : P ((refresh r id false).run g).2 := by
  obtain ⟨g', hrun, rfl | ⟨stamps, rfl⟩⟩ := run_refresh_source hc h r
  · rw [hrun]
    exact hg
  · rw [hrun]
    exact hstamps stamps (hnoted hg)

/-- The watched value is read as it is, unless the vigil is over. -/
theorem pull_source {P : Graph → Prop}
    (hP : ∀ {g}, P g → Over V g ∨ Holding V.watched (Cell.Source v) g) {within : Option Reentry}
    (hkeeps : Keeps P (pullWith within V.watched)) (hg : P g) :
    let out := (pullWith within V.watched).run g
    P out.2 ∧ (Over V out.2 ∨ out.1 = v) := by
  intro out
  have hout : P out.2 := hkeeps g hg
  refine ⟨hout, ?_⟩
  rcases hP hout with hover | hsource
  · exact .inl hover
  · cases hc' : out.2.values.get? V.watched with
    | none => exact .inl (.inr (.inl (hsource.gone hc')))
    | some c' =>
      have hshown : c'.output = v := (hsource.cell c' hc').output
      right
      cases hc : g.values.get? V.watched with
      | none =>
        have hsame : out = (.undefined, g) := by
          change (pullWith within V.watched).run g = _
          rw [pullWith, run_get_bind, hc]
          rfl
        rw [hsame, hc] at hc'
        cases hc'
      | some c =>
        have hrun : out = _ := run_pullWith hc within
        by_cases hmark : c.evaluated = some g.cycle
        · rw [if_pos hmark] at hrun
          rw [hrun] at hc' ⊢
          obtain rfl := Option.some.inj (hc.symm.trans hc')
          exact hshown
        · rw [if_neg hmark] at hrun
          rw [hrun] at hc' ⊢
          simpa [output?, hc'] using hshown

end Graph

end ReactiveMarkup
