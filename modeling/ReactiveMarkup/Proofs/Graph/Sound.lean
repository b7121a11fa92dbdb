import ReactiveMarkup.Graph.Build
import ReactiveMarkup.Proofs.Basic
import ReactiveMarkup.Proofs.Scope.Tree
import ReactiveMarkup.Proofs.Slots

/-!
# Live scopes that mirror a scope tree

A graph is sound for a scope tree if its live scopes are instances of the tree's scopes: each has a
template that fits, stands under an instance of its parent, has live values for all names that it
declares and instances of all aliased children. Then names and paths lead to the same place in the
tree and in the graph.

Scopes under construction lack some values and aliases yet, and a copy that was not taken into its
list yet, or no more, is an orphan; `Sound` names both.

Main definitions: `Graph.Sound`, `Graph.SoundScope`, `Graph.Filled`, `Graph.Aliased`.
Main results: `Graph.Sound.ancestors_eq`, `Graph.Sound.resolve?_of_leads`,
`Graph.Sound.resolves_value`.
-/
namespace ReactiveMarkup.Graph

variable {tree : ScopeTree} {mark : String} {building orphan : ScopeId → Prop} {g : Graph}

/-- A scope has live values for the names of value templates. -/
def Filled (g : Graph) (s : LiveScope) (ws : List ValueTemplate) : Prop :=
  ∀ w ∈ ws, ∃ v c, s.values.lookup w.name = some v ∧ g.values.get? v = some c

/-- A scope has live children for the aliases of scope templates. -/
def Aliased (g : Graph) (s : LiveScope) (us : List ScopeTemplate) : Prop :=
  ∀ u ∈ us, ∀ name, u.ownAlias = some name →
    ∃ c t, s.aliases.lookup name = some c ∧ c ∈ s.children ∧ g.scopes.get? c = some t ∧
      t.template.index = u.index

/-- What holds of one live scope. -/
structure SoundScope (tree : ScopeTree) (building orphan : ScopeId → Prop) (g : Graph)
    (id : ScopeId) (s : LiveScope) : Prop where
  root : s.parent = none → s.template.Fits tree g.program.scopeAttribute none
  parent : ∀ p, s.parent = some p → p.serial < id.serial ∧ ∃ q, g.scopes.get? p = some q ∧
    s.template.Fits tree g.program.scopeAttribute (some q.template.index)
  distinct : g.program.scopeAttribute ≠ Marker.clone
  node_lt : s.node < g.host.document.nodes.size
  marked : g.host.document.contains s.node →
    g.host.document.attribute? s.node g.program.scopeAttribute = some (toString s.template.index)
  marked_clone : g.host.document.contains s.node → s.cloneIndex.isSome →
    (g.host.document.attribute? s.node Marker.clone).isSome
  known : ∀ c, c ∈ s.children ∨ c ∈ s.clones → c.serial < g.scopes.next
  child : ∀ c ∈ s.children, ∀ t, g.scopes.get? c = some t →
    t.parent = some id ∧ t.cloneIndex = none
  clone : ∀ c ∈ s.clones, ∀ t, g.scopes.get? c = some t →
    t.parent = s.parent ∧ t.cloneIndex.isSome ∧ id.serial < c.serial
  owner : ∀ p, s.parent = some p → orphan id ∨
    (∃ q, g.scopes.get? p = some q ∧ id ∈ q.children) ∨
    ∃ z t, g.scopes.get? z = some t ∧ t.parent = some p ∧ id ∈ t.clones
  declared : ∀ name v, s.values.lookup name = some v → ∃ w ∈ s.template.values, w.name = name
  own : ∀ name v, (name, v) ∈ s.values →
    v.serial < g.values.next ∧ ∀ c, g.values.get? v = some c → c.scope = id
  values : ¬building id → Filled g s s.template.values
  aliases : ¬building id → Aliased g s s.template.children

/-- A graph whose live scopes mirror a tree. -/
structure Sound (tree : ScopeTree) (mark : String) (building orphan : ScopeId → Prop) (g : Graph) : Prop where
  mark_eq : g.program.scopeAttribute = mark
  linked : g.host.document.Linked
  furnished : g.host.document.Furnished g.program.scopeAttribute tree.parts
  scope : ∀ id s, g.scopes.get? id = some s → SoundScope tree building orphan g id s
  cells : ∀ id c, g.values.get? id = some c → c.template.kind.Spares g.program.scopeAttribute
  links : ∀ l ∈ g.pendingLinks, ∃ s, g.scopes.get? l.scope = some s ∧
    tree.Leads s.template.index l.path
  requests : ∀ r ∈ g.requests, r.2.echo.isSome → Marker.echo ≠ g.program.scopeAttribute
  resolved : ∀ observer path, Diagnostic.unresolved observer path ∉ g.diagnostics

/-! ## Ancestors -/

@[simp] theorem ancestorsUpTo_zero (g : Graph) (id : ScopeId) : g.ancestorsUpTo 0 id = [] := rfl

theorem ancestorsUpTo_succ {id : ScopeId} {s : LiveScope} (count : Nat)
    (h : g.scopes.get? id = some s) :
    g.ancestorsUpTo (count + 1) id = (id, s) :: match s.parent with
      | some p => g.ancestorsUpTo count p
      | none => [] := by
  cases hp : s.parent <;> simp [ancestorsUpTo, h, hp]

namespace Sound

/-- All scopes around a scope, however far they are looked for. -/
theorem exists_chain (h : Sound tree mark building orphan g) {id : ScopeId} {s : LiveScope}
    (hs : g.scopes.get? id = some s) :
    ∃ chain : List (ScopeId × LiveScope), (∀ count, g.ancestorsUpTo count id = chain.take count) ∧
      (chain.map Prod.fst).Nodup ∧
      ∀ x ∈ chain, (g.scopes.get? x.1).isSome ∧ x.1.serial ≤ id.serial := by
  obtain ⟨n, hn⟩ : ∃ n, n = id.serial := ⟨_, rfl⟩
  induction n using Nat.strongRecOn generalizing id s with
  | ind n ih =>
    cases hp : s.parent with
    | none =>
      refine ⟨[(id, s)], fun count => ?_, by simp, ?_⟩
      · cases count with
        | zero => rfl
        | succ count =>
          rw [ancestorsUpTo_succ count hs, hp]
          simp
      · intro x hx
        obtain rfl := List.mem_singleton.1 hx
        simp [hs]
    | some p =>
      obtain ⟨hlt, q, hq, -⟩ := (h.scope id s hs).parent p hp
      obtain ⟨chain, htake, hnodup, hlive⟩ := ih p.serial (hn ▸ hlt) hq rfl
      refine ⟨(id, s) :: chain, fun count => ?_, ?_, ?_⟩
      · cases count with
        | zero => rfl
        | succ count =>
          rw [ancestorsUpTo_succ count hs, hp]
          simp [htake]
      · rw [List.map_cons, List.nodup_cons]
        refine ⟨fun hm => ?_, hnodup⟩
        obtain ⟨x, hx, hxid⟩ := List.mem_map.1 hm
        have := (hlive x hx).2
        simp only [hxid] at this
        omega
      · intro x hx
        rcases List.mem_cons.1 hx with rfl | hx
        · simp [hs]
        · exact ⟨(hlive x hx).1, Nat.le_trans (hlive x hx).2 (Nat.le_of_lt hlt)⟩

/-- The scopes around a scope are the scope itself and those around its parent. -/
theorem ancestors_eq (h : Sound tree mark building orphan g) {id : ScopeId} {s : LiveScope}
    (hs : g.scopes.get? id = some s) :
    g.ancestors id = (id, s) :: match s.parent with
      | some p => g.ancestors p
      | none => [] := by
  -- no chain is longer than there are scopes, so the count never cuts one off
  have hall : ∀ id s, g.scopes.get? id = some s → ∃ chain : List (ScopeId × LiveScope),
      (∀ count, g.ancestorsUpTo count id = chain.take count) ∧ chain.length ≤ g.scopes.size := by
    intro id s hs
    obtain ⟨chain, htake, hnodup, hlive⟩ := h.exists_chain hs
    refine ⟨chain, htake, ?_⟩
    rw [← List.length_map Prod.fst]
    refine Slots.length_le_size _ hnodup fun k hk => ?_
    obtain ⟨x, hx, rfl⟩ := List.mem_map.1 hk
    exact (hlive x hx).1
  obtain ⟨chain, htake, hlen⟩ := hall id s hs
  have hchain : chain = (id, s) :: match s.parent with
      | some p => g.ancestorsUpTo g.scopes.size p
      | none => [] := by
    rw [← ancestorsUpTo_succ _ hs, htake, List.take_of_length_le (by omega)]
  rw [ancestors, htake, List.take_of_length_le hlen]
  exact hchain

/-- The scope of the tree that a live scope is an instance of. -/
theorem exists_fits (h : Sound tree mark building orphan g) {id : ScopeId} {s : LiveScope}
    (hs : g.scopes.get? id = some s) :
    ∃ p, s.template.Fits tree g.program.scopeAttribute p := by
  have hscope := h.scope id s hs
  cases hp : s.parent with
  | none => exact ⟨none, hscope.root hp⟩
  | some p =>
    obtain ⟨-, q, -, hfits⟩ := hscope.parent p hp
    exact ⟨_, hfits⟩

/-- The scopes around a live scope are instances of the ancestors of its scope, in order. -/
theorem ancestors_match (h : Sound tree mark building orphan g) (ht : tree.ParentsFirst) {id : ScopeId}
    {s : LiveScope} (hs : g.scopes.get? id = some s) :
    List.Forall₂ (fun x y => g.scopes.get? x.1 = some x.2 ∧ x.2.template.index = y.1 ∧
      tree.get? y.1 = some y.2) (g.ancestors id) (tree.ancestors (some s.template.index)) := by
  obtain ⟨n, hn⟩ : ∃ n, n = id.serial := ⟨_, rfl⟩
  induction n using Nat.strongRecOn generalizing id s with
  | ind n ih =>
    have hscope := h.scope id s hs
    rw [h.ancestors_eq hs]
    cases hp : s.parent with
    | none =>
      have hfits := hscope.root hp
      generalize hpi : (none : Option ScopeIndex) = pi at hfits
      obtain ⟨hget⟩ := hfits
      rw [ScopeTree.ancestors_eq ht hget, ← hpi, ScopeTree.ancestors_none]
      exact .cons ⟨hs, rfl, hget⟩ .nil
    | some p =>
      obtain ⟨hlt, q, hq, hfits⟩ := hscope.parent p hp
      generalize hpi : some q.template.index = pi at hfits
      obtain ⟨hget⟩ := hfits
      rw [ScopeTree.ancestors_eq ht hget, ← hpi]
      exact .cons ⟨hs, rfl, hget⟩ (ih p.serial (hn ▸ hlt) hq rfl)

/-! ## Names and paths -/

/-- Aliases lead to an instance of the scope that they lead to in the tree. -/
theorem follow (h : Sound tree mark building orphan g) (hb : ∀ id, ¬building id) {id : ScopeId}
    {s : LiveScope} (hs : g.scopes.get? id = some s) {aliases : List String} {owner : ScopeIndex}
    (hf : tree.follow? s.template.index aliases = some owner) :
    ∃ id' s', aliases.foldlM (fun id name => do (← g.scopes.get? id).aliases.lookup name) id =
      some id' ∧ g.scopes.get? id' = some s' ∧ s'.template.index = owner := by
  induction aliases generalizing id s with
  | nil => exact ⟨id, s, rfl, hs, Option.some.inj hf⟩
  | cons name aliases ih =>
    rw [ScopeTree.follow?, List.foldlM_cons] at hf
    obtain ⟨next, hnext, hrest⟩ := Option.bind_eq_some_iff.1 hf
    obtain ⟨p, hfits⟩ := h.exists_fits hs
    obtain ⟨hget, -, -, -, haliases, -, -⟩ := hfits
    rw [hget] at hnext
    obtain ⟨u, hu, hindex, hown⟩ := (haliases name next).1 hnext
    obtain ⟨c, t, hlookup, -, hc, hti⟩ := (h.scope id s hs).aliases (hb id) u hu name hown
    have hrest' : tree.follow? t.template.index aliases = some owner := by
      rw [hti, hindex]
      exact hrest
    obtain ⟨id', s', hfold, hs', howner⟩ := ih hc hrest'
    refine ⟨id', s', ?_, hs', howner⟩
    rw [List.foldlM_cons, hs]
    simp only [Option.bind_eq_bind, Option.bind_some, hlookup]
    exact hfold

/-- A declared name of a live scope has a live value that belongs to the scope. -/
theorem scopeValue?_of_declared (h : Sound tree mark building orphan g) (hb : ∀ id, ¬building id)
    {id : ScopeId} {s : LiveScope} {scope : Scope} {name : String}
    (hs : g.scopes.get? id = some s) (hscope : tree.get? s.template.index = some scope)
    (hname : name ∈ scope.declared) :
    ∃ v c, s.values.lookup name = some v ∧ g.values.get? v = some c ∧ c.scope = id := by
  obtain ⟨p, hfits⟩ := h.exists_fits hs
  obtain ⟨hget, hvalues, -⟩ := hfits
  obtain rfl := Option.some.inj (hget.symm.trans hscope)
  obtain ⟨w, hw, rfl⟩ := (hvalues name).1 hname
  obtain ⟨v, c, hv, hc⟩ := (h.scope id s hs).values (hb id) w hw
  exact ⟨v, c, hv, hc, ((h.scope id s hs).own w.name v (Keyed.mem_of_lookup hv)).2 c hc⟩

/-- A live scope has values for declared names only. -/
theorem declared_of_lookup (h : Sound tree mark building orphan g) {id v : ScopeId} {s : LiveScope}
    {scope : Scope} {name : String} (hs : g.scopes.get? id = some s)
    (hscope : tree.get? s.template.index = some scope) (hv : s.values.lookup name = some v) :
    name ∈ scope.declared := by
  obtain ⟨p, hfits⟩ := h.exists_fits hs
  obtain ⟨hget, hvalues, -⟩ := hfits
  obtain rfl := Option.some.inj (hget.symm.trans hscope)
  exact (hvalues name).2 ((h.scope id s hs).declared name v hv)

/-- A path that leads to a value in the tree leads to a live value from every instance. -/
theorem resolve?_of_leads (h : Sound tree mark building orphan g) (hb : ∀ id, ¬building id)
    (ht : tree.ParentsFirst) {id : ScopeId} {s : LiveScope} (hs : g.scopes.get? id = some s)
    {path : ValuePath} (hl : tree.Leads s.template.index path) :
    ∃ v c, g.resolve? id path = some v ∧ g.values.get? v = some c := by
  obtain ⟨hanchor, owner, scope, hfollow, hscope, hname⟩ := hl
  have hmatch := h.ancestors_match ht hs
  have hfind : ∃ A a, (g.ancestors id).find? (fun x => x.2.template.index = path.anchor) =
      some (A, a) ∧ g.scopes.get? A = some a ∧ a.template.index = path.anchor := by
    obtain ⟨y, hy, hya⟩ := List.mem_map.1 hanchor
    obtain ⟨x, hx, hxy⟩ := exists_mem_of_forall₂_right hmatch hy
    have hsome : ((g.ancestors id).find? (fun x => x.2.template.index = path.anchor)).isSome := by
      rw [List.find?_isSome]
      exact ⟨x, hx, by simp [hxy.2.1, hya]⟩
    obtain ⟨⟨A, a⟩, hA⟩ := Option.isSome_iff_exists.1 hsome
    obtain ⟨z, -, hz⟩ := exists_mem_of_forall₂_left hmatch (List.mem_of_find?_eq_some hA)
    exact ⟨A, a, hA, hz.1, by simpa using List.find?_some hA⟩
  obtain ⟨A, a, hfind, ha, hindex⟩ := hfind
  rw [← hindex] at hfollow
  obtain ⟨O, o, hfold, ho, howner⟩ := h.follow hb ha hfollow
  rw [← howner] at hscope
  obtain ⟨v, c, hv, hc, -⟩ := h.scopeValue?_of_declared hb ho hscope hname
  refine ⟨v, c, ?_, hc⟩
  rw [resolve?, hfind]
  simp only [Option.bind_eq_bind, Option.bind_some, scopeValue?] at hfold ⊢
  rw [hfold]
  simp [ho, hv]

/-- A name that stands for a value in the tree stands for one live value from every instance, by its
path and by itself. The value belongs to the nearest instance of the scope that declares it. -/
theorem resolves_value (h : Sound tree mark building orphan g) (hb : ∀ id, ¬building id)
    (ht : tree.ParentsFirst) {id : ScopeId} {s : LiveScope} (hs : g.scopes.get? id = some s)
    {name : String} {owner : ScopeIndex}
    (hr : tree.resolveFrom (some s.template.index) name = .value owner) :
    ∃ v c A a, g.resolve? id ⟨owner, [], name⟩ = some v ∧ g.lookup? id name = some v ∧
      g.values.get? v = some c ∧ c.scope = A ∧
      (g.ancestors id).find? (fun x => x.2.template.index = owner) = some (A, a) ∧
      a.values.lookup name = some v := by
  obtain ⟨before, scope, after, happ, hname, hbefore⟩ := ScopeTree.resolveFrom_eq_value hr
  have hmatch := h.ancestors_match ht hs
  have hnodup := (ScopeTree.ancestors_nodup ht s.template.index).1
  rw [happ] at hmatch hnodup
  obtain ⟨before', ⟨A, a⟩, after', happ', hmatch', ha, hindex, hscope⟩ :=
    forall₂_append_cons_right hmatch
  simp only at ha hindex hscope
  rw [← hindex] at hscope
  obtain ⟨v, c, hv, hc, hcs⟩ := h.scopeValue?_of_declared hb ha hscope hname
  -- no scope nearer than `A` is another instance of the owner, nor does it declare the name
  have hnear : ∀ x ∈ before', x.2.template.index ≠ owner ∧ x.2.values.lookup name = none := by
    intro x hx
    obtain ⟨y, hy, hxs, hxi, hys⟩ := exists_mem_of_forall₂_left hmatch' hx
    refine ⟨fun he => ?_, ?_⟩
    · rw [List.map_append, List.map_cons, List.nodup_append] at hnodup
      refine hnodup.2.2 y.1 (List.mem_map_of_mem hy) owner (List.mem_cons_self ..) ?_
      rw [← hxi, he]
    · cases hl : x.2.values.lookup name with
      | none => rfl
      | some w =>
        rw [← hxi] at hys
        exact absurd (h.declared_of_lookup hxs hys hl) (hbefore y hy)
  have hfind : (g.ancestors id).find? (fun x => x.2.template.index = owner) = some (A, a) := by
    rw [happ', List.find?_append, List.find?_eq_none.2, Option.none_or]
    · rw [List.find?_cons_of_pos]
      simpa using hindex
    · intro x hx
      simpa using (hnear x hx).1
  refine ⟨v, c, A, a, ?_, ?_, hc, hcs, hfind, hv⟩
  · rw [resolve?, hfind]
    simp [scopeValue?, ha, hv]
  · rw [lookup?, happ', List.findSome?_append, List.findSome?_eq_none_iff.2, Option.none_or]
    · rw [List.findSome?_cons]
      simp only [hv]
    · intro x hx
      exact (hnear x hx).2

end Sound

end ReactiveMarkup.Graph
