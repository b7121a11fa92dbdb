import ReactiveMarkup.Compile.Compilation
import ReactiveMarkup.Proofs.Compile.Outline
import ReactiveMarkup.Proofs.Expr.Dependencies
import ReactiveMarkup.Proofs.Expr.Derivation
import ReactiveMarkup.Proofs.Expr.Rewrite

/-!
# What templates tell about their outline

If no declaration fails, every declared value has its template: it has the value's name, and it
observes what names lead to in the scope tree. So the program fits the tree, and the document that
comes with it has all elements of its scopes.

Main definitions: `Emission.Yields`, `Emission.Clean`.
Main results: `Emission.leads_of_value`, `Outline.Faithful.fits`, `Outline.Faithful.furnished`.
-/
namespace ReactiveMarkup

namespace ScopeTree

variable {t : ScopeTree} {i : ScopeIndex} {s : Scope}

/-! ## Names in expressions -/

/-- What an expression may refer to is around its scope. -/
theorem mem_ancestors_of_resolver (ht : t.ParentsFirst) (hs : t.get? i = some s) (property : Option String)
    (name : String) {x : ScopeIndex × Scope} (hx : x ∈ t.ancestors
      (if property = some name then (t.get? i).bind (·.parent) else some i)) :
    x ∈ t.ancestors (some i) := by
  split at hx
  · rw [hs, Option.bind_some] at hx
    rw [ancestors_eq ht hs]
    exact List.mem_cons_of_mem _ hx
  · exact hx

/-- A name that stands for a value leads there. -/
theorem leads_of_resolve (ht : t.ParentsFirst) (hs : t.get? i = some s) {property : Option String}
    {name : String} {owner : ScopeIndex}
    (h : (t.resolver i property).resolve name = .value owner) : t.Leads i ⟨owner, [], name⟩ := by
  obtain ⟨before, q, after, happ, hname, -⟩ := resolveFrom_eq_value h
  have hmem : (owner, q) ∈ t.ancestors
      (if property = some name then (t.get? i).bind (·.parent) else some i) := by
    rw [happ]
    exact List.mem_append_right _ (List.mem_cons_self ..)
  exact .of_follow (mem_ancestors_of_resolver ht hs property name hmem) rfl
    (get?_of_mem_ancestors hmem) hname

theorem follow?_append {start next : ScopeIndex} {aliases more : List String}
    (h : t.follow? start aliases = some next) :
    t.follow? start (aliases ++ more) = t.follow? next more := by
  rw [follow?, List.foldlM_append, ← follow?, h]
  rfl

/-- A chain of aliases leads to the scope that it names. -/
theorem follow?_of_aliasChain (ht : t.ParentsFirst) (hs : t.get? i = some s) {property : Option String}
    {bound : List String} {e : Expr} {chain : Anchoring.AliasChain}
    (h : Anchoring.aliasChain? ⟨bound, t.resolver i property⟩ e = some chain) :
    ∃ a, (chain.anchor, a) ∈ t.ancestors (some i) ∧
      t.follow? chain.anchor chain.aliases = some chain.target := by
  fun_induction Anchoring.aliasChain? ⟨bound, t.resolver i property⟩ e generalizing chain with
  | case1 range name hfree anchor target hresolve =>
    obtain rfl := Option.some.inj h
    obtain ⟨a, ha, htarget⟩ := resolveFrom_eq_scope hresolve
    refine ⟨a, mem_ancestors_of_resolver ht hs property name ha, ?_⟩
    dsimp only
    split
    · rename_i hself
      rw [← hself]
      rfl
    · rename_i hother
      have hlookup := htarget.resolve_left (Ne.symm hother)
      simp [follow?, get?_of_mem_ancestors ha, hlookup]
  | case4 range e name inner hinner ih =>
    obtain ⟨next, hnext, rfl⟩ := Option.map_eq_some_iff.1 h
    obtain ⟨a, ha, hfollow⟩ := ih hinner
    refine ⟨a, ha, ?_⟩
    rw [follow?_append hfollow, follow?, List.foldlM_cons]
    obtain ⟨q, hq, hlookup⟩ := Option.bind_eq_some_iff.1 hnext
    simp [hq, hlookup]
  | case2 | case3 | case5 | case6 => cases h

/-- What an expression denotes, names lead to. -/
theorem leads_of_valuePath (ht : t.ParentsFirst) (hs : t.get? i = some s) {property : Option String}
    {bound : List String} {e : Expr} {path : ValuePath}
    (h : Anchoring.valuePath? ⟨bound, t.resolver i property⟩ e = .ok (some path)) : t.Leads i path := by
  unfold Anchoring.valuePath? at h
  split at h
  · rename_i range name
    split at h
    · split at h
      · rename_i owner howner
        cases h
        exact leads_of_resolve ht hs howner
      · cases h
      · cases h
    · cases h
  · rename_i range holder name
    split at h
    · cases h
    · rename_i chain hchain
      split at h
      · rename_i hdeclares
        cases h
        obtain ⟨a, ha, hfollow⟩ := follow?_of_aliasChain ht hs hchain
        dsimp only [resolver] at hdeclares
        cases hq : t.get? chain.target with
        | none =>
          rw [hq] at hdeclares
          cases hdeclares
        | some q =>
          rw [hq] at hdeclares
          exact .of_follow ha hfollow hq (by simpa using hdeclares)
      · split at h <;> cases h
  · cases h

end ScopeTree

namespace Emission

variable {α β : Type} {c : EmitContext} {i : ScopeIndex} {s : Scope}

/-! ## Single declarations -/

/-- A step may give a result. -/
def Yields (step : Emission α) (a : α) : Prop :=
  ∃ before after, step.run before = (.ok a, after)

theorem yields_pure {a b : α} (h : Yields (pure a) b) : b = a := by
  obtain ⟨_, _, hrun⟩ := h
  cases hrun
  rfl

theorem not_yields_throw {cause : CompileCause} {a : α} : ¬Yields (throw cause) a := by
  rintro ⟨_, _, hrun⟩
  cases hrun

theorem yields_bind {step : Emission α} {next : α → Emission β} {b : β} (h : Yields (step >>= next) b) :
    ∃ a, Yields step a ∧ Yields (next a) b := by
  obtain ⟨before, after, hrun⟩ := h
  rw [ExceptT.run_bind] at hrun
  rcases hstep : step.run before with ⟨_ | a, between⟩
  · simp only [bind, StateT.bind, hstep] at hrun
    cases hrun
  · exact ⟨a, ⟨before, between, hstep⟩, between, after, by simpa [bind, StateT.bind, hstep] using hrun⟩

theorem yields_mapM {step : α → Emission β} {xs : List α} {ys : List β} (h : Yields (xs.mapM step) ys) :
    List.Forall₂ (fun x y => Yields (step x) y) xs ys := by
  induction xs generalizing ys with
  | nil =>
    rw [List.mapM_nil] at h
    rw [yields_pure h]
    exact .nil
  | cons x xs ih =>
    rw [List.mapM_cons] at h
    obtain ⟨y, hy, h⟩ := yields_bind h
    obtain ⟨ys, hys, h⟩ := yields_bind h
    rw [yields_pure h]
    exact .cons hy (ih hys)

/-- What a part touches, names lead to. -/
theorem leads_of_part (ht : c.tree.ParentsFirst) (hs : c.tree.get? i = some s) {property : Option String}
    {place : Option Nat} {p : Part} {r : Expr × List ValuePath}
    (h : Yields (part c i property place p) r) : ∀ path ∈ r.2, c.tree.Leads i path := by
  cases p with
  | text text =>
    rw [yields_pure h]
    exact fun path hpath => by cases hpath
  | code code offset =>
    unfold part at h
    dsimp only at h
    split at h
    · exact absurd h not_yields_throw
    · rename_i e hparse
      split at h
      · exact absurd h not_yields_throw
      · rename_i anchored hanchor
        obtain ⟨_, -, h⟩ := yields_bind h
        rw [yields_pure h]
        intro path hpath
        obtain ⟨-, -, hdenoted⟩ := Expr.anchor_dependencies (Expr.parse_isSource hparse) hanchor
        obtain ⟨d, hd⟩ := hdenoted path hpath
        exact ScopeTree.leads_of_valuePath ht hs hd

/-- What a text touches, names lead to. -/
theorem leads_of_text (ht : c.tree.ParentsFirst) (hs : c.tree.get? i = some s) {property : Option String}
    {raw : String} {place : Option Nat} {r : Init × List ValuePath}
    (h : Yields (text c i property raw place) r) : ∀ path ∈ r.2, c.tree.Leads i path := by
  unfold text at h
  split at h
  · exact absurd h not_yields_throw
  · split at h
    · obtain ⟨compiled, hcompiled, h⟩ := yields_bind h
      have hall : ∀ path ∈ compiled.flatMap (·.2), c.tree.Leads i path := by
        intro path hpath
        obtain ⟨x, hx, hpath⟩ := List.mem_flatMap.1 hpath
        obtain ⟨p, -, hp⟩ := exists_mem_of_forall₂_right (yields_mapM hcompiled) hx
        exact leads_of_part ht hs hp path hpath
      dsimp only at h
      split at h
      · rw [yields_pure h]
        exact hall
      · rw [yields_pure h]
        exact hall
    · rw [yields_pure h]
      exact fun path hpath => by cases hpath

/-- A template that stands for a declared value of a scope. -/
structure Made (tree : ScopeTree) (mark : String) (i : ScopeIndex) (v : PendingValue)
    (w : ValueTemplate) : Prop where
  name : w.name = v.name
  spares : w.kind.Spares mark
  leads : ∀ path ∈ w.dependencies, tree.Leads i path

/-- The template of a value has its name, and observes what names lead to. -/
theorem made_of_value (ht : c.tree.ParentsFirst) (hs : c.tree.get? i = some s) {mark : String}
    {p : PendingScope} (hp : Outline.Drafted mark s p) {v : PendingValue} (hv : v ∈ p.values)
    {w : ValueTemplate} (h : Yields (value c i v) w) : Made c.tree mark i v w := by
  unfold value at h
  obtain ⟨k, hk, h⟩ := yields_bind h
  obtain ⟨init, dependencies, hleads, rfl⟩ : ∃ init dependencies,
      (∀ path ∈ dependencies, c.tree.Leads i path) ∧
        w = ⟨v.name, k, init, (observed i dependencies k).eraseDups⟩ := by
    dsimp only at h
    split at h
    · obtain ⟨_, hinit, h⟩ := yields_bind h
      rw [yields_pure hinit] at h
      exact ⟨_, [], fun path hpath => (by cases hpath), yields_pure h⟩
    · obtain ⟨⟨init, dependencies⟩, hinit, h⟩ := yields_bind h
      exact ⟨init, dependencies, leads_of_text ht hs hinit, yields_pure h⟩
  have hkind : v.kind = .known k ∨ ∃ watched, k = .handler watched ∧ c.tree.Leads i watched := by
    unfold kind at hk
    split at hk
    · rename_i k' hknown
      rw [yields_pure hk]
      exact .inl hknown
    · split at hk
      · rename_i owner howner
        rw [yields_pure hk]
        exact .inr ⟨_, rfl, ScopeTree.leads_of_resolve ht hs howner⟩
      · exact absurd hk not_yields_throw
  refine ⟨rfl, ?_, fun path hpath => ?_⟩
  · rcases hkind with hknown | ⟨watched, rfl, -⟩
    · exact hp.spares v hv k hknown
    · exact fun _ hk => by cases hk
  · rw [List.mem_eraseDups] at hpath
    unfold observed at hpath
    split at hpath
    · rcases hkind with hknown | ⟨watched, hhandler, hwatched⟩
      · exact absurd hknown (hp.unknown v hv _)
      · cases hhandler
        rw [List.mem_singleton.1 hpath]
        exact hwatched
    · rcases hkind with hknown | ⟨watched, hhandler, -⟩
      · obtain ⟨hoffset, hlength⟩ := hp.window v hv hknown
        simp only [List.mem_append, List.mem_cons, List.not_mem_nil, or_false] at hpath
        rcases hpath with hpath | rfl | rfl
        · exact hleads path hpath
        · exact .own ht hs hoffset
        · exact .own ht hs hlength
      · cases hhandler
    · exact hleads path hpath

/-! ## All declarations -/

/-- A step that ends without an error began without one, and its result satisfies `Q`. -/
def Clean (Q : α → Prop) (m : StateM Findings α) : Prop :=
  ∀ f, (m.run f).2.errors = [] → f.errors = [] ∧ Q (m.run f).1

namespace Clean

variable {Q : α → Prop}

theorem pure {a : α} (h : Q a) : Clean Q (pure a) := fun _ hf => ⟨hf, h⟩

theorem bind {R : α → β → Prop} {m : StateM Findings α} {next : α → StateM Findings β}
    (hm : Clean Q m) (hnext : ∀ a, Clean (R a) (next a)) :
    Clean (fun b => ∃ a, Q a ∧ R a b) (m >>= next) := by
  intro f h
  obtain ⟨hbetween, hR⟩ := hnext _ _ h
  obtain ⟨hf, hQ⟩ := hm f hbetween
  exact ⟨hf, _, hQ, hR⟩

theorem mono {Q' : α → Prop} {m : StateM Findings α} (hm : Clean Q m) (h : ∀ a, Q a → Q' a) :
    Clean Q' m :=
  fun f hf => ⟨(hm f hf).1, h _ (hm f hf).2⟩

theorem mapM {R : α → β → Prop} {step : α → StateM Findings β} (h : ∀ x, Clean (R x) (step x))
    (xs : List α) : Clean (List.Forall₂ R xs) (xs.mapM step) := by
  induction xs with
  | nil =>
    rw [List.mapM_nil]
    exact pure .nil
  | cons x xs ih =>
    rw [List.mapM_cons]
    refine ((h x).bind fun y => ih.bind fun ys => pure (Q := (· = y :: ys)) rfl).mono ?_
    rintro _ ⟨y, hy, ys, hys, rfl⟩
    exact .cons hy hys

theorem collect (place : Option Nat) (step : Emission α) :
    Clean (fun as => ∃ a, as = [a] ∧ Yields step a) (collect c place step) := by
  intro f hf
  rcases hstep : step.run f.warnings with ⟨_ | a, after⟩
  · simp [Emission.collect, StateT.run, hstep] at hf
  · simp only [Emission.collect, StateT.run, hstep] at hf ⊢
    exact ⟨hf, a, rfl, _, _, hstep⟩

end Clean

theorem mem_insertSorted {v w : ValueTemplate} {ws : List ValueTemplate} :
    w ∈ insertSorted v ws ↔ w = v ∨ w ∈ ws := by
  fun_induction insertSorted v ws <;> grind

theorem mem_sorted {w : ValueTemplate} (vs : List ValueTemplate) : w ∈ sorted vs ↔ w ∈ vs := by
  have hall (vs acc : List ValueTemplate) :
      w ∈ vs.foldl (fun acc v => insertSorted v acc) acc ↔ w ∈ acc ∨ w ∈ vs := by
    induction vs generalizing acc with
    | nil => simp
    | cons v vs ih =>
      rw [List.foldl_cons, ih, mem_insertSorted]
      grind
  rw [sorted, hall]
  simp

/-- The templates of a scope are those of its declared values. -/
def Renders (c : EmitContext) (i : ScopeIndex) (p : PendingScope) (ws : List ValueTemplate) : Prop :=
  (∀ w ∈ ws, ∃ v ∈ p.values, Yields (value c i v) w) ∧
    ∀ v ∈ p.values, ∃ w ∈ ws, Yields (value c i v) w

theorem scope_clean (p : PendingScope) : Clean (fun r => Renders c i p r.1) (scope c i p) := by
  unfold scope
  refine ((Clean.mapM (fun v => .collect _ (value c i v)) p.values).bind fun values =>
    (Clean.mapM (fun e => .collect _ (event c i e)) p.events).bind fun events =>
      Clean.pure (Q := (· = (sorted (values.flatten.partition fun v => v.kind.isHandler).2 ++
        sorted (values.flatten.partition fun v => v.kind.isHandler).1, events.flatten))) rfl).mono ?_
  rintro _ ⟨values, hvalues, events, -, rfl⟩
  have hmem (w : ValueTemplate) : w ∈ sorted (values.flatten.partition fun v => v.kind.isHandler).2 ++
      sorted (values.flatten.partition fun v => v.kind.isHandler).1 ↔ ∃ ws ∈ values, w ∈ ws := by
    rw [List.mem_append, mem_sorted, mem_sorted, ← List.mem_flatten]
    simp only [List.partition_eq_filter_filter, List.mem_filter]
    cases hkind : w.kind.isHandler <;> simp [hkind]
  refine ⟨fun w hw => ?_, fun v hv => ?_⟩
  · obtain ⟨ws, hws, hw⟩ := (hmem w).1 hw
    obtain ⟨v, hv, a, rfl, ha⟩ := exists_mem_of_forall₂_right hvalues hws
    obtain rfl := List.mem_singleton.1 hw
    exact ⟨v, hv, ha⟩
  · obtain ⟨ws, hws, a, rfl, ha⟩ := exists_mem_of_forall₂_left hvalues hv
    exact ⟨a, (hmem a).2 ⟨_, hws, List.mem_singleton_self a⟩, ha⟩

end Emission

/-! ## The program and its document -/

namespace Outline

variable {o : CompileOptions} {l : Outline} {d : Document} {homes : List NodeId}

/-- If both passes find no error, all scopes have the templates of their values. -/
theorem errors_of_emit (h : (l.emit o).errors = []) : l.errors = [] ∧
    ∃ templates, (l.emit o).program = ⟨if l.tree.size = 0 then none else
      some (l.tree.assemble templates l.tree.size 0), o.scopeAttribute⟩ ∧
      List.Forall₂ (fun p r => Emission.Renders ⟨o, l.source, l.tree⟩ p.2 p.1 r.1) l.pending.zipIdx
        templates := by
  have hclean := Emission.Clean.mapM (fun p : PendingScope × Nat =>
    Emission.scope_clean (c := ⟨o, l.source, l.tree⟩) (i := p.2) p.1) l.pending.zipIdx
  obtain ⟨herrors, hall⟩ := hclean ⟨l.errors, []⟩ h
  exact ⟨herrors, _, rfl, hall⟩

namespace Faithful

/-- Every scope has templates. -/
theorem exists_renders (h : Faithful d o.scopeAttribute homes l)
    {templates : List (List ValueTemplate × List EventTemplate)}
    (htemplates : List.Forall₂ (fun p r => Emission.Renders ⟨o, l.source, l.tree⟩ p.2 p.1 r.1)
      l.pending.zipIdx templates) {i : ScopeIndex} {s : Scope} (hs : l.tree.get? i = some s) :
    ∃ p r, l.pending[i]? = some p ∧ templates[i]? = some r ∧
      Emission.Renders ⟨o, l.source, l.tree⟩ i p r.1 := by
  have hlt : i < l.pending.length := by
    rw [h.pending_length]
    exact ScopeTree.lt_size hs
  have hlt' : i < templates.length := by
    rw [← htemplates.length_eq, List.length_zipIdx]
    exact hlt
  have hrenders := (List.forall₂_iff_get.1 htemplates).2 i (by rwa [List.length_zipIdx]) hlt'
  simp only [List.get_eq_getElem, List.getElem_zipIdx, Nat.zero_add] at hrenders
  exact ⟨_, _, List.getElem?_eq_getElem hlt, List.getElem?_eq_getElem hlt', hrenders⟩

/-- The template of a scope fits the tree. -/
theorem assemble_fits (h : Faithful d o.scopeAttribute homes l)
    {templates : List (List ValueTemplate × List EventTemplate)}
    (htemplates : List.Forall₂ (fun p r => Emission.Renders ⟨o, l.source, l.tree⟩ p.2 p.1 r.1)
      l.pending.zipIdx templates) {depth : Nat} {i : ScopeIndex} {s : Scope}
    (hs : l.tree.get? i = some s) (hdepth : l.tree.size ≤ depth + i) :
    (l.tree.assemble templates depth i).Fits l.tree o.scopeAttribute s.parent ∧
      (l.tree.assemble templates depth i).index = i ∧
      (l.tree.assemble templates depth i).ownAlias = s.ownAlias := by
  induction depth generalizing i s with
  | zero => exact absurd (ScopeTree.lt_size hs) (Nat.not_lt.2 (by simpa using hdepth))
  | succ depth ih =>
    obtain ⟨p, r, hp, hr, hrenders⟩ := h.exists_renders htemplates hs
    have hdrafted := h.pending i s p hs hp
    have hmade (v : PendingValue) (hv : v ∈ p.values) {w : ValueTemplate} (hw : Emission.Yields _ w) :=
      Emission.made_of_value (c := ⟨o, l.source, l.tree⟩) h.tree.first hs hdrafted hv hw
    have hchild {c : ScopeIndex} (hc : c ∈ s.children) : ∃ u, l.tree.get? c = some u ∧
        u.parent = some i ∧ (l.tree.assemble templates depth c).Fits l.tree o.scopeAttribute (some i) ∧
        (l.tree.assemble templates depth c).index = c ∧
        (l.tree.assemble templates depth c).ownAlias = u.ownAlias := by
      obtain ⟨u, hu, hparent⟩ := (h.tree.children_iff i s c hs).1 hc
      have hlater : i + 1 ≤ c := (h.tree.first c u i hu hparent).1
      have hbelow := ih hu (Nat.le_trans hdepth (by rw [Nat.add_right_comm]; exact Nat.add_le_add_left hlater depth))
      rw [hparent] at hbelow
      exact ⟨u, hu, hparent, hbelow⟩
    have heq : l.tree.assemble templates (depth + 1) i =
        ⟨i, s.ownAlias, r.1, r.2, s.children.map (l.tree.assemble templates depth)⟩ := by
      rw [ScopeTree.assemble, hs, hr]
      rfl
    rw [heq]
    refine ⟨.intro hs (fun x => ?_) (fun w hw => ?_) (fun w hw => ?_) (fun name c => ?_)
      (fun u hu => ?_) fun u hu => ?_, rfl, rfl⟩
    · rw [hdrafted.declared]
      constructor
      · rintro ⟨v, hv, rfl⟩
        obtain ⟨w, hw, hyields⟩ := hrenders.2 v hv
        exact ⟨w, hw, (hmade v hv hyields).name⟩
      · rintro ⟨w, hw, rfl⟩
        obtain ⟨v, hv, hyields⟩ := hrenders.1 w hw
        exact ⟨v, hv, (hmade v hv hyields).name.symm⟩
    · obtain ⟨v, hv, hyields⟩ := hrenders.1 w hw
      exact (hmade v hv hyields).leads
    · obtain ⟨v, hv, hyields⟩ := hrenders.1 w hw
      exact (hmade v hv hyields).spares
    · rw [h.tree.aliases_iff i s name c hs]
      constructor
      · rintro ⟨u, hu, hparent, hown⟩
        have hc := (h.tree.children_iff i s c hs).2 ⟨u, hu, hparent⟩
        obtain ⟨u', hu', -, -, hindex, hown'⟩ := hchild hc
        obtain rfl := Option.some.inj (hu.symm.trans hu')
        exact ⟨_, List.mem_map_of_mem hc, hindex, hown'.trans hown⟩
      · rintro ⟨_, hu, rfl, hown⟩
        obtain ⟨c, hc, rfl⟩ := List.mem_map.1 hu
        obtain ⟨u, hu, hparent, -, hindex, hown'⟩ := hchild hc
        rw [hindex]
        exact ⟨u, hu, hparent, hown'.symm.trans hown⟩
    · obtain ⟨c, hc, rfl⟩ := List.mem_map.1 hu
      obtain ⟨u, -, -, -, hindex, -⟩ := hchild hc
      rw [hindex]
      exact hc
    · obtain ⟨c, hc, rfl⟩ := List.mem_map.1 hu
      obtain ⟨u, -, -, hfits, -⟩ := hchild hc
      exact hfits

/-- The root of the program fits the tree, and is the template of the first scope. -/
theorem root_fits (h : Faithful d o.scopeAttribute homes l) (herrors : (l.emit o).errors = [])
    {t : ScopeTemplate} (ht : (l.emit o).program.root = some t) :
    t.Fits l.tree o.scopeAttribute none := by
  obtain ⟨-, templates, hprogram, htemplates⟩ := errors_of_emit herrors
  rw [hprogram] at ht
  dsimp only at ht
  split at ht
  · cases ht
  · rename_i hsize
    obtain rfl := Option.some.inj ht
    obtain ⟨s, hs⟩ : ∃ s, l.tree.get? 0 = some s :=
      ⟨_, List.getElem?_eq_getElem (Nat.pos_of_ne_zero hsize)⟩
    have hfits := (h.assemble_fits htemplates hs (Nat.le_refl _)).1
    cases hparent : s.parent with
    | none => rwa [hparent] at hfits
    | some p => exact absurd (h.tree.first 0 _ p hs hparent).1 (Nat.not_lt_zero p)

/-- Scopes with one mark are one. -/
theorem eq_of_toString_eq {i j : Nat} (h : toString i = toString j) : i = j := by
  have hdigits := congrArg String.toList h
  rw [Nat.toString_eq_repr, Nat.toString_eq_repr, Nat.toList_repr, Nat.toList_repr] at hdigits
  calc i = Nat.ofDigitChars 10 (Nat.toDigits 10 i) 0 := Nat.ofDigitChars_ten_toDigits.symm
    _ = Nat.ofDigitChars 10 (Nat.toDigits 10 j) 0 := by rw [hdigits]
    _ = j := Nat.ofDigitChars_ten_toDigits

theorem linked (h : Faithful d o.scopeAttribute homes l) (hd : d.Linked) : l.document.Linked :=
  hd.congr h.parent h.children

/-- The document has the elements of its scopes, each below that of its parent. -/
theorem furnished (h : Faithful d o.scopeAttribute homes l) (hfree : d.MarkerFree o.scopeAttribute) :
    l.document.Furnished o.scopeAttribute l.tree.parts := by
  intro hmark n k hn i hi
  have hhome : homes[k]? = some n := by
    by_cases hmem : n ∈ homes
    · obtain ⟨j, hj⟩ := List.mem_iff_getElem?.1 hmem
      have hsame := h.marked j n hj
      rw [hn] at hsame
      rw [eq_of_toString_eq (Option.some.inj hsame)]
      exact hj
    · rw [Document.attribute?_congr_attributes (h.attributes n hmem), (hfree.attribute?_eq_none n).1] at hn
      cases hn
  unfold ScopeTree.parts at hi
  cases hq : l.tree.get? k with
  | none =>
    rw [hq] at hi
    cases hi
  | some q =>
    rw [hq] at hi
    obtain ⟨s, hs, hparent⟩ := (h.tree.children_iff k q i hq).1 hi
    obtain ⟨n', m, c, depth, hn', hm, hc, hopen, hlt⟩ := h.below i s k hs hparent
    obtain rfl := Option.some.inj (hhome.symm.trans hn')
    have hopen' : l.document.Open depth c m ∧ True :=
      hopen.spared (P := fun _ => True) (fun x _ _ => h.clone hmark x)
        (fun x _ y hy _ => ⟨by rw [h.children]; exact hy, trivial⟩) trivial
    refine ⟨c, by rw [h.children]; exact hc, depth, m, hopen'.1, ?_, h.marked i m hm⟩
    rw [h.size]
    exact hlt

end Faithful

end Outline

end ReactiveMarkup
