import ReactiveMarkup.Proofs.Graph.Mounted

/-!
# What a function means elsewhere

A function takes along its locals, but not the scope that it was written in: its paths are followed from
the scope of whoever calls it. Within the scope that it was written in they lead to the same values as
there. Elsewhere a path to a value of that scope leads to another value, or nowhere.

Main definitions: `Graph.Encloses`, `Graph.Anchors`.
Main results: `Graph.Sound.resolve?_of_encloses`, `Graph.run_anchors`.
-/
namespace ReactiveMarkup.Graph

variable {tree : ScopeTree} {mark : String} {building orphan : ScopeId → Prop} {g : Graph}
variable {a b : ScopeId} {s t : LiveScope}

/-- A scope is another one, or lies around it. -/
def Encloses (g : Graph) (b a : ScopeId) : Prop := b ∈ (g.ancestors a).map Prod.fst

namespace Sound

/-- What lies around an enclosing scope lies around the scope, after what lies in between. By induction
on the scope, whose parent was made before it. -/
theorem exists_between (h : Sound tree mark building orphan g) (ha : g.scopes.get? a = some s)
    (hb : g.Encloses b a) : ∃ between, g.ancestors a = between ++ g.ancestors b := by
  obtain ⟨n, hn⟩ : ∃ n, n = a.serial := ⟨_, rfl⟩
  induction n using Nat.strongRecOn generalizing a s with
  | ind n ih =>
    have hancestors := h.ancestors_eq ha
    rw [Encloses, hancestors, List.map_cons, List.mem_cons] at hb
    rcases hb with rfl | hb
    · exact ⟨[], rfl⟩
    · cases hp : s.parent with
      | none =>
        rw [hp] at hb
        cases hb
      | some p =>
        rw [hp] at hb hancestors
        obtain ⟨hlt, q, hq, -⟩ := (h.scope a s ha).parent p hp
        obtain ⟨between, hbetween⟩ := ih p.serial (hn ▸ hlt) hq hb rfl
        refine ⟨(a, s) :: between, ?_⟩
        rw [hancestors, List.cons_append, ← hbetween]

/-- The scopes around a scope are instances of different templates. -/
theorem indexes_nodup (h : Sound tree mark building orphan g) (ht : tree.ParentsFirst)
    (ha : g.scopes.get? a = some s) : ((g.ancestors a).map (·.2.template.index)).Nodup := by
  have hindexes : (g.ancestors a).map (·.2.template.index) =
      (tree.ancestors (some s.template.index)).map Prod.fst := by
    have hmatch := h.ancestors_match ht ha
    generalize g.ancestors a = xs at hmatch
    generalize tree.ancestors (some s.template.index) = ys at hmatch
    induction hmatch with
    | nil => rfl
    | cons hxy _ ih => rw [List.map_cons, List.map_cons, hxy.2.1, ih]
  rw [hindexes]
  exact (ScopeTree.ancestors_nodup ht s.template.index).1

/-- A path that leads to a value from a scope leads to the same value from every scope within it: no
scope in between is another instance of the path's anchor. -/
theorem resolve?_of_encloses (h : Sound tree mark building orphan g) (ht : tree.ParentsFirst)
    (ha : g.scopes.get? a = some s) (hb : g.Encloses b a) {path : ValuePath} {v : ValueId}
    (hv : g.resolve? b path = some v) : g.resolve? a path = some v := by
  obtain ⟨between, hancestors⟩ := h.exists_between ha hb
  have hnodup := h.indexes_nodup ht ha
  rw [hancestors, List.map_append, List.nodup_append] at hnodup
  rw [resolve?] at hv ⊢
  cases hfind : (g.ancestors b).find? (fun x => x.2.template.index = path.anchor) with
  | none =>
    rw [hfind] at hv
    cases hv
  | some x =>
    have hx : x.2.template.index = path.anchor := by simpa using List.find?_some hfind
    have hnone : between.find? (fun x => x.2.template.index = path.anchor) = none := by
      refine List.find?_eq_none.2 fun y hy hanchor => ?_
      have hmem := List.mem_of_find?_eq_some hfind
      refine hnodup.2.2 _ (List.mem_map_of_mem hy) _ (List.mem_map_of_mem hmem) ?_
      rw [hx]
      simpa using hanchor
    rw [hancestors, List.find?_append, hnone, Option.none_or]
    exact hv

/-- From anywhere else, a path to a value of a scope does not lead to that value. -/
theorem encloses_of_resolve? (h : Sound tree mark building orphan g) (hbuilt : ∀ id, ¬building id)
    (hb : g.scopes.get? b = some t) {name : String} {v : ValueId} (hv : t.values.lookup name = some v)
    (hresolve : g.resolve? a ⟨t.template.index, [], name⟩ = some v) : g.Encloses b a := by
  have hlive : ∃ c, g.values.get? v = some c := by
    obtain ⟨w, hw, rfl⟩ := (h.scope b t hb).declared name v hv
    obtain ⟨v', c, hv', hc⟩ := (h.scope b t hb).values (hbuilt b) w hw
    exact ⟨c, Option.some.inj (hv'.symm.trans hv) ▸ hc⟩
  obtain ⟨c, hc⟩ := hlive
  rw [resolve?] at hresolve
  obtain ⟨x, hx, hvalue⟩ := Option.bind_eq_some_iff.1 hresolve
  obtain ⟨q, hq, hlookup⟩ : ∃ q, g.scopes.get? x.1 = some q ∧ q.values.lookup name = some v :=
    Option.bind_eq_some_iff.1 hvalue
  -- the value belongs to both scopes
  have hown := ((h.scope b t hb).own name v (Keyed.mem_of_lookup hv)).2 c hc
  have hnear := ((h.scope x.1 q hq).own name v (Keyed.mem_of_lookup hlookup)).2 c hc
  rw [Encloses, ← hown, hnear]
  exact List.mem_map_of_mem (List.mem_of_find?_eq_some hx)

end Sound

/-- What the expressions of a scope mean where they are called from. -/
structure Anchors (tree : ScopeTree) (g : Graph) : Prop where
  /-- within the scope, every path of an expression leads to the live value that it leads to there -/
  within : ∀ a b s t, g.scopes.get? a = some s → g.scopes.get? b = some t → g.Encloses b a →
    ∀ base source e property anchored, Expr.parse base source = .ok e →
      e.anchor (tree.resolver t.template.index property) = .ok anchored →
      ∀ p ∈ anchored.expr.paths, ∃ v c, g.resolve? b p = some v ∧ g.resolve? a p = some v ∧
        g.values.get? v = some c
  /-- a path to a value of the scope leads there from within, and from nowhere else -/
  own : ∀ a b s t, g.scopes.get? a = some s → g.scopes.get? b = some t →
    ∀ name v, t.values.lookup name = some v →
      (g.resolve? a ⟨t.template.index, [], name⟩ = some v ↔ g.Encloses b a)

theorem Mirror.anchors {program : Program} (h : Mirror tree mark program g) (ht : tree.ParentsFirst) :
    Anchors tree g where
  within a b s t ha hb hencloses base source e property anchored hparse hanchor p hp := by
    have hstanding := h.resting.standing
    obtain ⟨parent, hfits⟩ := hstanding.exists_fits hb
    obtain ⟨htemplate, -⟩ := hfits
    obtain ⟨-, hpaths, hdenoted⟩ := Expr.anchor_dependencies (Expr.parse_isSource hparse) hanchor
    obtain ⟨d, hd⟩ := hdenoted p ((hpaths p).2 hp)
    have hleads := ScopeTree.leads_of_valuePath ht htemplate hd
    obtain ⟨v, c, hv, hc⟩ := hstanding.resolve?_of_leads (fun _ hb => hb) ht hb hleads
    exact ⟨v, c, hv, hstanding.resolve?_of_encloses ht ha hencloses hv, hc⟩
  own a b s t ha hb name v hv := by
    have hstanding := h.resting.standing
    refine ⟨hstanding.encloses_of_resolve? (fun _ hb => hb) hb hv, fun hencloses => ?_⟩
    refine hstanding.resolve?_of_encloses ht ha hencloses ?_
    have hself : (g.ancestors b).find? (fun x => x.2.template.index = t.template.index) =
        some (b, t) := by
      rw [hstanding.ancestors_eq hb, List.find?_cons_of_pos (by simp)]
    have hvalue : g.scopeValue? b name = some v := Option.bind_eq_some_iff.2 ⟨t, hb, hv⟩
    rw [resolve?, hself]
    exact hvalue

/-- Take any document without marks that compiles without errors, any settings and host, and any
operations on its program one after the other. A function that was written in an expression of a live
scope means there, and in every live scope within, the same values; anywhere else a path to a value of
that scope does not lead to it. -/
theorem run_anchors (o : CompileOptions) (source : Option String) {d : Document} (hd : d.IsTree)
    (hfree : d.MarkerFree o.scopeAttribute) (hok : (d.compile o source).isOk = true)
    (options : GraphOptions) (host : Host) (hhost : host.document = (d.compile o source).document)
    (operations : List Operation) :
    Anchors (Outline.ofDocument o source d).tree ((operations.forM Operation.run).run
      (ofProgram (d.compile o source).program options host)).2 := by
  obtain ⟨ht, hmirror⟩ := run_mirror o source hd hfree hok options host hhost operations
  exact hmirror.anchors ht

/-- A function that is called from within its scope, and from a scope beside it. -/
theorem run_anchors_beside :
    let d := Document.ofFragment
      "<div><p :aka=lib :n='[[5]]' :f='[[() => n]]'><i :x='[[f()]]'></i></p><b :y='[[lib.f()]]'></b></div>"
    let c := d.compile .standard none
    let g := (([Operation.mount].forM Operation.run).run
      (ofProgram c.program .standard (.ofDocument c.document))).2
    d.MarkerFree Marker.scope ∧ c.isOk = true ∧ Anchors (Outline.ofDocument .standard none d).tree g := by
  intro d c g
  have hd : d.IsTree := Document.isTree_ofFragment _
  have hfree : d.MarkerFree Marker.scope := by decide +kernel
  have hok : c.isOk = true := by decide +kernel
  have hhost : (Host.ofDocument c.document).document = c.document := Host.document_ofDocument _
  exact ⟨hfree, hok, run_anchors .standard none hd hfree hok .standard (.ofDocument c.document) hhost
    [.mount]⟩

end ReactiveMarkup.Graph
