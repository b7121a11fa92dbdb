import ReactiveMarkup.Proofs.Graph.Depth
import ReactiveMarkup.Proofs.Graph.Names
import ReactiveMarkup.Proofs.Graph.Sparing

/-!
# What data shows

Data that is given a value from which no list is made shows that value, or one that equals it, until
something else is assigned to it. Evaluating it again makes no difference as long as its window stays
the same: what shall be shown is kept beside the output.

A part of the data may be removed at any time. It does not come back then, so this is a case of its own
which every step keeps.

Main definitions: `DataSite`, `Graph.Showing`, `Graph.Lost`, `Graph.Serving`, `Graph.Tends`.
Main results: `Graph.serving_routine`, `Graph.commit_shows`, `Graph.sparing_tends`.
-/
namespace ReactiveMarkup

/-- The data of a scope, with the values that tell which items of a list it shows. -/
structure DataSite where
  scope : ScopeId
  data : ValueId
  offset : ValueId
  length : ValueId

namespace DataSite

/-- The values of the site. -/
def ids (σ : DataSite) : List ValueId := [σ.data, σ.offset, σ.length]

end DataSite

/-! ## Outputs and what they are made from -/

/-- What data shows and what it was given, if that is no list. -/
structure Value.Matching (source shown : Value) : Prop where
  isArray : source.isArray = false
  shown : shown = source ∨ shown.isNullish ∧ source.isNullish

namespace Value.Matching

variable {source shown : Value}

theorem refl {v : Value} (h : v.isArray = false) : Matching v v := ⟨h, .inl rfl⟩

/-- They equal the same values. -/
theorem looseEq_eq (h : Matching source shown) (v : Value) : shown.looseEq v = source.looseEq v := by
  rcases h.shown with rfl | ⟨hshown, hsource⟩
  · rfl
  · rw [looseEq_of_isNullish hshown, looseEq_of_isNullish hsource]

/-- They differ at most where the source equals itself. -/
theorem eq_of_looseEq_self (h : Matching source shown) (hself : source.looseEq source = false) :
    shown = source := by
  refine h.shown.resolve_right fun hnullish => ?_
  rw [looseEq_of_isNullish hnullish.2, hnullish.2] at hself
  cases hself

/-- Tells that a source and what is shown are the same text, or both nothing. -/
def test : (source shown : Value) → Bool
  | .string source, .string shown => source == shown
  | source, shown => source.isNullish && shown.isNullish

end Value.Matching

/-- A value that only an assignment can change. -/
structure Cell.Fixed (v : Value) (c : Cell) : Prop where
  isHandler : c.template.kind.isHandler = false
  compute : c.compute = none
  evaluated : c.evaluated.isSome
  output : c.output = v

theorem Cell.Fixed.kept {v : Value} {c c' : Cell} (h : c.Fixed v) (hk : Cell.Kept c c') :
    c'.Fixed v := by
  refine ⟨?_, ?_, hk.evaluated h.evaluated, ?_⟩
  all_goals rw [hk.eq]
  exacts [h.isHandler, h.compute, h.output]

/-- A value that only an assignment can change, and that is no data. -/
structure Cell.Plain (v : Value) (c : Cell) : Prop extends Cell.Fixed v c where
  replica : c.replica = none

/-- Tells that a value is plain and was evaluated in a cycle. -/
def Cell.Plain.test (cycle : Nat) (c : Cell) : Bool :=
  !c.template.kind.isHandler && c.compute.isNone && c.evaluated == some cycle && c.replica.isNone

/-- Data that shows `shown`, after a list was made from `source` in a window. -/
structure Cell.Data (scope : ScopeId) (offset length source shown : Value) (c : Cell) : Prop
    extends Cell.Fixed shown c where
  scope : c.scope = scope
  replica : ∃ r, c.replica = some r ∧ r.source = source ∧ r.applied = true ∧
    r.offset.looseEq offset = true ∧ r.length.looseEq length = true

theorem Cell.Plain.kept {v : Value} {c c' : Cell} (h : c.Plain v) (hk : Cell.Kept c c') :
    c'.Plain v where
  toFixed := h.toFixed.kept hk
  replica := by
    rw [hk.eq]
    exact h.replica

theorem Cell.Data.kept {scope : ScopeId} {offset length source shown : Value} {c c' : Cell}
    (h : c.Data scope offset length source shown) (hk : Cell.Kept c c') :
    c'.Data scope offset length source shown where
  toFixed := h.toFixed.kept hk
  scope := by
    rw [hk.eq]
    exact h.scope
  replica := by
    rw [hk.eq]
    exact h.replica

namespace Graph

variable {α β : Type} {σ : DataSite} {offset length source shown source' shown' v : Value} {r : Reentry}
  {g g' : Graph}

/-- What a step leaves that goes on with the result of another one. -/
theorem snd_run_bind (m : GraphM α) (k : α → GraphM β) (g : Graph) :
    ((m >>= k).run g).2 = ((k (m.run g).1).run (m.run g).2).2 := rfl

/-! ## What a site shows -/

/-- A site of which something is gone. -/
def Lost (σ : DataSite) (g : Graph) : Prop :=
  Naming σ.scope (fun _ => False) g ∨ Holding σ.data (fun _ => False) g ∨
    Holding σ.offset (fun _ => False) g ∨ Holding σ.length (fun _ => False) g

/-- A site that shows `shown`, made from `source`. Its scope finds the window by name. -/
def Showing (σ : DataSite) (offset length source shown : Value) (g : Graph) : Prop :=
  Naming σ.scope (fun built => built.values.lookup ValueName.dataOffset = some σ.offset ∧
      built.values.lookup ValueName.dataLength = some σ.length) g ∧
    Holding σ.data (Cell.Data σ.scope offset length source shown) g ∧
    Holding σ.offset (Cell.Plain offset) g ∧ Holding σ.length (Cell.Plain length) g

/-- A site that shows something as long as nothing of it is gone. -/
def Serving (σ : DataSite) (offset length source shown : Value) (g : Graph) : Prop :=
  Lost σ g ∨ Showing σ offset length source shown g

theorem lost_regimen : Regimen (ι := Unit) (fun i => i) (fun _ => True) fun _ => Lost σ :=
  naming_invariant.discipline.toRegimen.or (gone_regimen.or (gone_regimen.or gone_regimen))

theorem serving_routine : Routine (ι := Unit) (fun i => i) (fun _ => True)
    fun _ => Serving σ offset length source shown :=
  lost_regimen.toRoutine.or (naming_invariant.discipline.toRoutine.and
    ((holding_routine fun h => h.kept .relinked).and
      ((holding_routine fun h => h.kept .relinked).and (holding_routine fun h => h.kept .relinked) id)
        id) id)

theorem Lost.congr (h : Lost σ g) (hscopes : g'.scopes = g.scopes) (hvalues : g'.values = g.values) :
    Lost σ g' :=
  h.imp (Naming.scopewise · hscopes) <| Or.imp (·.of_values hvalues) <|
    Or.imp (·.of_values hvalues) (·.of_values hvalues)

theorem Lost.modify (h : Lost σ g) (id : ValueId) (f : Cell → Cell) :
    Lost σ { g with values := g.values.modify id f } := by
  rcases h with h | h | h | h
  · exact .inl (Naming.scopewise h rfl)
  · exact .inr (.inl (h.modify id fun _ h => h))
  · exact .inr (.inr (.inl (h.modify id fun _ h => h)))
  · exact .inr (.inr (.inr (h.modify id fun _ h => h)))

theorem Showing.congr (h : Showing σ offset length source shown g) (hscopes : g'.scopes = g.scopes)
    (hvalues : g'.values = g.values) : Showing σ offset length source shown g' :=
  ⟨Naming.scopewise h.1 hscopes, h.2.1.of_values hvalues, h.2.2.1.of_values hvalues,
    h.2.2.2.of_values hvalues⟩

theorem Serving.congr (h : Serving σ offset length source shown g) (hscopes : g'.scopes = g.scopes)
    (hvalues : g'.values = g.values) : Serving σ offset length source shown g' :=
  h.imp (·.congr hscopes hvalues) (·.congr hscopes hvalues)

theorem lost_enters : Enters (fun _ : Unit => Lost σ) fun _ => Lost σ :=
  ⟨(·.congr rfl rfl), (·.congr rfl rfl)⟩

theorem serving_enters : Enters (fun _ : Unit => Serving σ offset length source shown)
    fun _ => Serving σ offset length source shown :=
  ⟨(·.congr rfl rfl), (·.congr rfl rfl)⟩

theorem serving_marks (id : ValueId) :
    Marks (fun _ : Unit => Serving σ offset length source shown) id := by
  rintro ⟨⟩ g (h | ⟨hnames, hdata, hoffset, hlength⟩)
  · exact .inl (lost_regimen.marks id () g h)
  · exact .inr ⟨Naming.scopewise hnames rfl, hdata.marked Cell.Data.kept id,
      hoffset.marked Cell.Plain.kept id, hlength.marked Cell.Plain.kept id⟩

/-- Values that are not of the site may be revised. -/
theorem serving_revises {id : ValueId} (hid : id ∉ σ.ids) :
    Revises (fun _ : Unit => Serving σ offset length source shown) id := by
  simp only [DataSite.ids, List.mem_cons, List.not_mem_nil, or_false, not_or] at hid
  rintro ⟨⟩ g f (h | ⟨hnames, hdata, hoffset, hlength⟩) hf
  · exact .inl (lost_regimen.revised (i := ()) h hf)
  · exact .inr ⟨Naming.scopewise hnames rfl, hdata.modify_of_ne (Ne.symm hid.1) f,
      hoffset.modify_of_ne (Ne.symm hid.2.1) f, hlength.modify_of_ne (Ne.symm hid.2.2) f⟩

/-- A site whose data is changed. -/
theorem Serving.revise_data (h : Serving σ offset length source shown g) {f : Cell → Cell}
    (hf : ∀ c, c.Data σ.scope offset length source shown →
      (f c).Data σ.scope offset length source' shown') :
    Serving σ offset length source' shown' { g with values := g.values.modify σ.data f } := by
  rcases h with h | ⟨hnames, hdata, hoffset, hlength⟩
  · exact .inl (h.modify σ.data f)
  · -- data is live only if it is none of the values of the window
    cases hc : g.values.get? σ.data with
    | none =>
      refine .inl (.inr (.inl ?_))
      exact (hdata.gone hc).modify _ fun _ h => h
    | some c =>
      obtain ⟨r, hr, -⟩ := (hdata.cell c hc).replica
      have hne {id : ValueId} {v : Value} (hid : Holding id (Cell.Plain v) g) : id ≠ σ.data := by
        rintro rfl
        have hnone := (hid.cell c hc).replica
        rw [hr] at hnone
        cases hnone
      exact .inr ⟨Naming.scopewise hnames rfl, hdata.revise hf, hoffset.modify_of_ne (hne hoffset) f,
        hlength.modify_of_ne (hne hlength) f⟩

/-! ## Steps within another read or write -/

/-- A way to read and assign that keeps what a site shows, and reads its window as it is. -/
structure Tends (σ : DataSite) (offset length source shown : Value) (r : Reentry) : Prop where
  agree : Reentry.Agree (Serving σ offset length source shown) r r
  lost : Reentry.Agree (Lost σ) r r
  reads_offset : ∀ g, Serving σ offset length source shown g →
    Lost σ ((r.pull σ.offset).run g).2 ∨ ((r.pull σ.offset).run g).1 = offset
  reads_length : ∀ g, Serving σ offset length source shown g →
    Lost σ ((r.pull σ.length).run g).2 ∨ ((r.pull σ.length).run g).1 = length

/-- A value of the window is read as it is. -/
theorem companion_window (hr : Tends σ offset length source shown r) {name : String} {id : ValueId}
    (hname : ∀ g s, Showing σ offset length source shown g → g.scopes.get? σ.scope = some s →
      s.values.lookup name = some id)
    (hread : ∀ g, Serving σ offset length source shown g →
      Lost σ ((r.pull id).run g).2 ∨ ((r.pull id).run g).1 = v)
    (h : Serving σ offset length source shown g) :
    Serving σ offset length source shown ((companion r σ.scope name).run g).2 ∧
      (Lost σ ((companion r σ.scope name).run g).2 ∨ ((companion r σ.scope name).run g).1 = v) := by
  refine ⟨(Routine.companion_agree hr.agree σ.scope name).keeps g h, ?_⟩
  rcases h with h | h
  · exact .inl ((Routine.companion_agree hr.lost σ.scope name).keeps g h)
  · cases hs : g.scopes.get? σ.scope with
    | none =>
      have hgone : Lost σ g := .inl (h.1.gone hs)
      exact .inl ((Routine.companion_agree hr.lost σ.scope name).keeps g hgone)
    | some s =>
      unfold companion
      rw [run_get_bind, scopeValue?, hs, Option.bind_some, hname g s h hs]
      exact hread g (.inr h)

/-- Whatever a list is made from, that takes the window as it is. -/
theorem commitData_shows (hr : Tends σ offset length source shown r)
    (hremake : ∀ g, Serving σ offset length source shown g → Serving σ offset length source' shown'
      ((remake r σ.data σ.scope v false offset length).run g).2)
    (h : Serving σ offset length source shown g) :
    Serving σ offset length source' shown' ((commitData r σ.data σ.scope v false).run g).2 := by
  have hlost (x y : Value) : Keeps (Lost σ) (remake r σ.data σ.scope v false x y) :=
    (lost_regimen.remake_agree (fun _ => hr.lost) (lost_regimen.revises σ.data) σ.scope v false x y
      ()).keeps
  have hoffset := companion_window hr (fun g s h hs => (h.1.record s hs).1) hr.reads_offset h
  have hrun : ((commitData r σ.data σ.scope v false).run g).2 =
      let one := (companion r σ.scope ValueName.dataOffset).run g
      let two := (companion r σ.scope ValueName.dataLength).run one.2
      ((remake r σ.data σ.scope v false one.1 two.1).run two.2).2 := rfl
  rw [hrun]
  generalize (companion r σ.scope ValueName.dataOffset).run g = one at hoffset ⊢
  have hlength := companion_window hr (fun g s h hs => (h.1.record s hs).2) hr.reads_length hoffset.1
  have hkeep : Keeps (Lost σ) (companion r σ.scope ValueName.dataLength) :=
    (Routine.companion_agree hr.lost σ.scope _).keeps
  have hkept := hkeep one.2
  dsimp only
  generalize (companion r σ.scope ValueName.dataLength).run one.2 = two at hlength hkept ⊢
  rcases hoffset.2 with hgone | hone
  · exact .inl (hlost _ _ _ (hkept hgone))
  · rcases hlength.2 with hgone | htwo
    · exact .inl (hlost _ _ _ hgone)
    · rw [hone, htwo]
      exact hremake _ hlength.1

/-- Data takes a value as a list is made from it. -/
theorem commit_shows (hr : Tends σ offset length source shown r)
    (hremake : ∀ g, Serving σ offset length source shown g → Serving σ offset length source' shown'
      ((remake r σ.data σ.scope v false offset length).run g).2)
    (h : Serving σ offset length source shown g) :
    Serving σ offset length source' shown' ((commit r σ.data v false).run g).2 := by
  rcases h with h | h
  · exact .inl ((lost_regimen.commit_agree (fun _ => hr.lost) (lost_regimen.revises σ.data) v false
      ()).keeps g h)
  · unfold commit
    rw [run_get_bind]
    cases hc : g.values.get? σ.data with
    | none => exact .inl (.inr (.inl (h.2.1.gone hc)))
    | some c =>
      have hdata := h.2.1.cell c hc
      obtain ⟨r', hr', -⟩ := hdata.replica
      dsimp only
      rw [hr', hdata.scope]
      exact commitData_shows hr hremake (.inr h)

/-- Where there are no items, no copy is made and none gets an item. -/
theorem syncClones_nil (r r' : Reentry) (id : ValueId) (scope : ScopeId) :
    syncClones r id scope [] = syncClones r' id scope [] := by
  unfold syncClones
  simp only [List.zip_nil_right, List.drop_nil]
  rfl

theorem syncClones_nil_keeps {I : Graph → Prop}
    (hI : Routine (ι := Unit) (fun i => i) (fun _ => True) fun _ => I) (r : Reentry) (id : ValueId)
    (scope : ScopeId) : Keeps I (syncClones r id scope []) := by
  let idle : Reentry := ⟨fun _ => pure .undefined, fun _ _ => pure ()⟩
  have hidle : Reentry.Agree I idle idle := ⟨fun _ => .pure _, fun _ _ => .pure _⟩
  rw [syncClones_nil r idle]
  exact (hI.syncClones_agree (fun _ => hidle) id scope [] ()).keeps

/-- No list is made from what is no array. -/
theorem replicate_of_isArray_eq_false (hv : v.isArray = false) (r : Reentry) (id : ValueId)
    (scope : ScopeId) (offset length : Value) :
    replicate r id scope v offset length = (do syncClones r id scope []; return v) := by
  cases v with
  | array => cases hv
  | _ => rfl

/-- What equals the source changes nothing. -/
theorem remake_same (hsame : source.looseEq v = true) (hlost : Reentry.Agree (Lost σ) r r)
    (h : Serving σ offset length source shown g) : Serving σ offset length source shown
      ((remake r σ.data σ.scope v false offset length).run g).2 := by
  rcases h with h | h
  · exact .inl ((lost_regimen.remake_agree (fun _ => hlost) (lost_regimen.revises σ.data) σ.scope v false
      offset length ()).keeps g h)
  · unfold remake
    rw [run_get_bind]
    cases hc : g.values.get? σ.data with
    | none => exact .inr h
    | some c =>
      obtain ⟨last, hlast, hsource, happlied, hoffset, hlength⟩ := (h.2.1.cell c hc).replica
      dsimp only [Option.bind_some]
      rw [hlast]
      dsimp only
      rw [happlied, hsource, hsame, hoffset, hlength]
      exact .inr h

/-- What differs from the source is shown from then on. -/
theorem remake_new (hm : Value.Matching source shown) (hv : v.isArray = false)
    (hoffset : offset.looseEq offset = true) (hlength : length.looseEq length = true)
    (hnew : source.looseEq v = false) (hlost : Reentry.Agree (Lost σ) r r)
    (h : Serving σ offset length source shown g) : Serving σ offset length v v
      ((remake r σ.data σ.scope v false offset length).run g).2 := by
  have hstore : ∀ g, Serving σ offset length v shown g →
      Serving σ offset length v v ((storeOutput σ.data v).run g).2 := by
    rintro g (h | h)
    · exact .inl (Routine.storeOutput_keeps (lost_regimen.revises σ.data) v () g h)
    · unfold storeOutput
      rw [run_get_bind]
      cases hc : g.values.get? σ.data with
      | none => exact .inl (.inr (.inl (h.2.1.gone hc)))
      | some c =>
        dsimp only
        rw [(h.2.1.cell c hc).output, hm.looseEq_eq, hnew]
        exact Serving.revise_data (.inr h) fun c hc =>
          { hc with output := rfl }
  have hrest : ∀ g, Serving σ offset length v shown g → Serving σ offset length v v
      ((do countEffect
           storeOutput σ.data (← replicate r σ.data σ.scope v offset length) : GraphM Bool).run g).2 := by
    intro g hg
    have hcounted := serving_routine.countEffect_keeps () g hg
    have hcleared := syncClones_nil_keeps serving_routine r σ.data σ.scope _ hcounted
    rw [replicate_of_isArray_eq_false hv, snd_run_bind, bind_assoc, snd_run_bind, pure_bind]
    exact hstore _ hcleared
  rcases h with h | h
  · exact .inl ((lost_regimen.remake_agree (fun _ => hlost) (lost_regimen.revises σ.data) σ.scope v false
      offset length ()).keeps g h)
  · unfold remake
    rw [run_get_bind]
    cases hc : g.values.get? σ.data with
    | none => exact .inl (.inr (.inl (h.2.1.gone hc)))
    | some c =>
      obtain ⟨last, hlast, hsource, -⟩ := (h.2.1.cell c hc).replica
      dsimp only [Option.bind_some]
      rw [hlast]
      dsimp only
      rw [hsource, hnew, Bool.and_false, Bool.false_and, Bool.false_and, Bool.false_and,
        if_neg Bool.false_ne_true, snd_run_bind]
      refine hrest _ (Serving.revise_data (.inr h) fun c hc => ?_)
      exact { hc with replica := ⟨_, rfl, rfl, rfl, hoffset, hlength⟩ }

/-- Data that is evaluated again shows what it did. -/
theorem refresh_data (hr : Tends σ offset length source shown r) (hm : Value.Matching source shown)
    (hoffset : offset.looseEq offset = true) (hlength : length.looseEq length = true)
    (h : Serving σ offset length source shown g) :
    Serving σ offset length source shown ((refresh r σ.data false).run g).2 := by
  rcases h with h | h
  · exact .inl ((lost_regimen.refresh_agree (fun _ => hr.lost) (lost_regimen.revises σ.data)
      (lost_regimen.notes σ.data) false ()).keeps g h)
  · have hremake : ∀ g, Serving σ offset length source shown g → Serving σ offset length source shown
        ((remake r σ.data σ.scope source false offset length).run g).2 := by
      intro g hg
      cases hself : source.looseEq source with
      | true => exact remake_same hself hr.lost hg
      | false =>
        have hnew := remake_new hm hm.isArray hoffset hlength hself hr.lost hg
        rwa [← hm.eq_of_looseEq_self hself] at hnew ⊢
    unfold refresh
    rw [snd_run_bind]
    cases hc : g.values.get? σ.data with
    | none =>
      have hrecompute : (recompute r σ.data false).run g = (none, g) := by
        rw [recompute, run_get_bind, hc]
        rfl
      rw [hrecompute]
      exact .inr h
    | some c =>
      have hdata := h.2.1.cell c hc
      obtain ⟨last, hlast, hsource, -⟩ := hdata.replica
      have hrecompute : (recompute r σ.data false).run g = (some source, g) := by
        rw [recompute, run_get_bind, hc]
        dsimp only
        have hkind := hdata.isHandler
        rw [hdata.compute, hlast]
        cases hk : c.template.kind with
        | handler => rw [hk] at hkind; cases hkind
        | _ => exact congrArg (fun v => (some v, g)) hsource
      rw [hrecompute]
      dsimp only
      have hcommitted := commit_shows hr hremake (.inr h)
      rw [snd_run_bind]
      split
      · exact (Routine.notify_agree hr.agree σ.data).keeps _ hcommitted
      · exact hcommitted

/-- A value that nothing computes is left as it is. -/
theorem run_refresh_plain {id : ValueId} {c : Cell} (hc : g.values.get? id = some c) (h : c.Plain v)
    (r : Reentry) : (refresh r id false).run g = ((), g) := by
  have hrecompute : (recompute r id false).run g = (none, g) := by
    rw [recompute, run_get_bind, hc]
    dsimp only
    have hkind := h.isHandler
    rw [h.compute, h.replica]
    cases hk : c.template.kind with
    | handler => rw [hk] at hkind; cases hkind
    | _ => rfl
  rw [refresh, StateT.run_bind, hrecompute]
  rfl

/-- What is done within a further read or write. -/
theorem entering_shows (id : ValueId) {step : Reentry → GraphM Unit}
    (hstep : ∀ g, Serving σ offset length source shown g →
      Serving σ offset length source' shown' ((step r).run g).2)
    (h : Serving σ offset length source shown g) :
    Serving σ offset length source' shown' ((entering (some r) id step).run g).2 := by
  have hentered : Serving σ offset length source shown { g with depth := g.depth + 1 } :=
    h.congr rfl rfl
  exact (hstep _ hentered).congr rfl rfl

/-- So is a value of the window. -/
theorem refresh_plain (hr : Tends σ offset length source shown r) {id : ValueId}
    (hplain : ∀ g, Showing σ offset length source shown g → Holding id (Cell.Plain v) g)
    (h : Serving σ offset length source shown g) :
    Serving σ offset length source shown ((refresh r id false).run g).2 := by
  rcases h with h | h
  · exact .inl ((lost_regimen.refresh_agree (fun _ => hr.lost) (lost_regimen.revises id)
      (lost_regimen.notes id) false ()).keeps g h)
  · cases hc : g.values.get? id with
    | none =>
      rw [refresh, snd_run_bind, recompute, run_get_bind, hc]
      exact .inr h
    | some c =>
      rw [run_refresh_plain hc ((hplain g h).cell c hc)]
      exact .inr h

section

variable {within : Option Reentry}
  (hr : ∀ r, within = some r → Tends σ offset length source shown r)
  (hlost : Reentry.Agree (Lost σ) (.within within) (.within within))

include hlost in
/-- Reading a value that was evaluated keeps what evaluating it again keeps. -/
theorem pullWith_keeps {id : ValueId}
    (hcell : ∀ g, Showing σ offset length source shown g → Holding id (·.evaluated.isSome) g)
    (hrefresh : ∀ r, within = some r → ∀ g, Serving σ offset length source shown g →
      Serving σ offset length source shown ((refresh r id false).run g).2) :
    Keeps (Serving σ offset length source shown) (pullWith within id) := by
  rintro g (h | h)
  · exact .inl ((hlost.pull id).keeps g h)
  · cases hc : g.values.get? id with
    | none =>
      rw [pullWith, run_get_bind, hc]
      exact .inr h
    | some c =>
      have hmarked := serving_marks id () g (.inr h)
      rw [run_pullWith hc]
      split
      · exact .inr h
      · rw [Option.isNone_eq_false_iff.2 ((hcell g h).cell c hc)]
        dsimp only
        cases within with
        | none => exact serving_routine.entering_none_keeps id _ () _ hmarked
        | some r => exact entering_shows id (hrefresh r rfl) hmarked

include hr hlost in
/-- A value of the window is read as it is, unless it is gone. -/
theorem pullWith_plain {id : ValueId}
    (hplain : ∀ g, Showing σ offset length source shown g → Holding id (Cell.Plain v) g)
    (hgone : ∀ g, Holding id (fun _ => False) g → Lost σ g)
    (h : Serving σ offset length source shown g) :
    Serving σ offset length source shown ((pullWith within id).run g).2 ∧
      (Lost σ ((pullWith within id).run g).2 ∨ ((pullWith within id).run g).1 = v) := by
  have hkept := pullWith_keeps hlost
    (fun g h => ⟨(hplain g h).built, fun c hc => ((hplain g h).cell c hc).evaluated⟩)
    (fun r hwithin _ => refresh_plain (hr r hwithin) hplain) g h
  refine ⟨hkept, ?_⟩
  rcases h with h | h
  · exact .inl ((hlost.pull id).keeps g h)
  · cases hc : g.values.get? id with
    | none => exact .inl ((hlost.pull id).keeps g (hgone g ((hplain g h).gone hc)))
    | some c =>
      rw [run_pullWith hc] at hkept ⊢
      split at hkept
      · rename_i hmark
        rw [if_pos hmark]
        exact .inr ((hplain g h).cell c hc).output
      · rename_i hmark
        rw [if_neg hmark]
        dsimp only at hkept ⊢
        generalize ((entering within id fun r => refresh r id c.evaluated.isNone).run (g.marked id)).2 = g'
          at hkept ⊢
        rcases hkept with hkept | hkept
        · exact .inl hkept
        · cases hc' : g'.values.get? id with
          | none => exact .inl (hgone g' ((hplain g' hkept).gone hc'))
          | some c' =>
            refine .inr ?_
            rw [output?, hc']
            exact ((hplain g' hkept).cell c' hc').output

variable (hm : Value.Matching source shown) (hoffset : offset.looseEq offset = true)
  (hlength : length.looseEq length = true)

include hr hlost hm hoffset hlength in
/-- Whatever is read and assigned, if the site is left unassigned. -/
theorem within_tends :
    Tends σ offset length source shown ((Reentry.within within).without σ.ids) := by
  have hwindow (id : ValueId) {v : Value}
      (hplain : ∀ g, Showing σ offset length source shown g → Holding id (Cell.Plain v) g)
      (hgone : ∀ g, Holding id (fun _ => False) g → Lost σ g) (g : Graph)
      (h : Serving σ offset length source shown g) := pullWith_plain hr hlost hplain hgone h
  have hwindow_offset := hwindow σ.offset (fun g h => h.2.2.1) fun g h => .inr (.inr (.inl h))
  have hwindow_length := hwindow σ.length (fun g h => h.2.2.2) fun g h => .inr (.inr (.inr h))
  have hdata : Keeps (Serving σ offset length source shown) (pullWith within σ.data) :=
    pullWith_keeps hlost
      (fun g h => ⟨h.2.1.built, fun c hc => (h.2.1.cell c hc).evaluated⟩)
      fun r hwithin _ => refresh_data (hr r hwithin) hm hoffset hlength
  have hother {id : ValueId} (hid : id ∉ σ.ids) (first : Bool) :
      Agree (Serving σ offset length source shown) (entering within id fun r => refresh r id first)
        (entering within id fun r => refresh r id first) := by
    cases within with
    | none => exact (serving_routine.entering_none_keeps id _ ()).agree
    | some r =>
      exact Routine.entering_agree serving_enters (i := ()) id
        (serving_routine.refresh_agree (fun _ => (hr r rfl).agree) (serving_revises hid)
          (fun _ _ h => ⟨h.congr rfl rfl, h.congr rfl rfl⟩) first ())
  have hassigned {id : ValueId} (hid : id ∉ σ.ids) (v : Value) (cell : Cell) :
      Agree (Serving σ offset length source shown)
        (entering within id fun r => do
          let changed ← commit r id v false
          if changed && !cell.observers.isEmpty then announce r id)
        (entering within id fun r => do
          let changed ← commit r id v false
          if changed && !cell.observers.isEmpty then announce r id) := by
    cases within with
    | none => exact (serving_routine.entering_none_keeps id _ ()).agree
    | some r =>
      have hagree : ∀ _ : Unit, Reentry.Agree (Serving σ offset length source shown) r r :=
        fun _ => (hr r rfl).agree
      exact Routine.entering_agree serving_enters (i := ()) id
        (serving_routine.assigned_agree hagree (serving_revises hid) v cell ())
  refine ⟨⟨fun id => ?_, fun id v => ?_⟩, hlost.without σ.ids, fun g h => (hwindow_offset g h).2,
    fun g h => (hwindow_length g h).2⟩
  · by_cases hid : id ∈ σ.ids
    · simp only [DataSite.ids, List.mem_cons, List.not_mem_nil, or_false] at hid
      rcases hid with rfl | rfl | rfl
      · exact hdata.agree
      · exact Keeps.agree fun g h => (hwindow_offset g h).1
      · exact Keeps.agree fun g h => (hwindow_length g h).1
    · exact Routine.pullWith_agree_of_entering (serving_marks id) () (hother hid)
  · dsimp only [Reentry.without]
    split
    · exact .pure _
    · rename_i hid
      exact Routine.assignWith_agree_of_entering (serving_revises hid) v () (hassigned hid v)

end

/-- As deep as reads and writes may nest, a site shows what it did if it is left unassigned. -/
theorem sparing_tends (hm : Value.Matching source shown) (hoffset : offset.looseEq offset = true)
    (hlength : length.looseEq length = true) (remaining : Nat) :
    ∀ r, sparing σ.ids remaining = some r → Tends σ offset length source shown r := by
  induction remaining with
  | zero => exact fun r h => by cases h
  | succ remaining ih =>
    rintro r hr
    obtain rfl := Option.some.inj hr
    exact within_tends ih (within_sparing_agree lost_regimen lost_enters σ.ids remaining ()) hm hoffset
      hlength

end Graph

end ReactiveMarkup
