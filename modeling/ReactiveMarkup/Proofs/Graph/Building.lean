import ReactiveMarkup.Proofs.Graph.Sound

/-!
# Building keeps graphs sound

Building changes a graph in one direction: scopes and values are added, and of the old scopes the
parent alone changes, which takes the new child in. So what holds of a live scope still holds while
others are built, and a scope is done when all of its values and children are there.

Main definitions: `Graph.Grown`, `Graph.Raised`.
Main results: `Graph.Sound.instantiate`.
-/
namespace ReactiveMarkup

/-- A live scope as building may change it: its place stays, and it loses nothing. -/
structure LiveScope.Grown (s s' : LiveScope) : Prop where
  template : s'.template = s.template
  parent : s'.parent = s.parent
  node : s'.node = s.node
  cloneIndex : s'.cloneIndex = s.cloneIndex
  children : s.children ⊆ s'.children
  clones : s.clones ⊆ s'.clones

/-- A scope that has nothing yet. -/
def LiveScope.newborn (template : ScopeTemplate) (parent : Option ScopeId) (node : NodeId)
    (seed : Option (Nat × Value)) : LiveScope where
  template := template
  parent := parent
  node := node
  values := []
  aliases := []
  children := []
  clones := []
  cloneIndex := seed.map (·.1)
  listeners := []
  seed := seed.map (·.2)

/-- A scope with one more child. -/
def LiveScope.adopt (s : LiveScope) (name : Option String) (id : ScopeId) : LiveScope :=
  { s with
    children := s.children ++ [id]
    aliases := match name with
      | some name => Keyed.insert name id s.aliases
      | none => s.aliases }

@[simp] theorem LiveScope.children_adopt (s : LiveScope) (name : Option String) (id : ScopeId) :
    (s.adopt name id).children = s.children ++ [id] := rfl

@[simp] theorem LiveScope.aliases_adopt_none (s : LiveScope) (id : ScopeId) :
    (s.adopt none id).aliases = s.aliases := rfl

@[simp] theorem LiveScope.aliases_adopt_some (s : LiveScope) (name : String) (id : ScopeId) :
    (s.adopt (some name) id).aliases = Keyed.insert name id s.aliases := rfl

namespace LiveScope.Grown

variable {s s' s'' : LiveScope}

theorem refl (s : LiveScope) : Grown s s :=
  ⟨rfl, rfl, rfl, rfl, List.Subset.refl _, List.Subset.refl _⟩

theorem trans (h : Grown s s') (h' : Grown s' s'') : Grown s s'' where
  template := h'.template.trans h.template
  parent := h'.parent.trans h.parent
  node := h'.node.trans h.node
  cloneIndex := h'.cloneIndex.trans h.cloneIndex
  children := List.Subset.trans h.children h'.children
  clones := List.Subset.trans h.clones h'.clones

end LiveScope.Grown

theorem LiveScope.grown_adopt (s : LiveScope) (name : Option String) (id : ScopeId) :
    s.Grown (s.adopt name id) :=
  ⟨rfl, rfl, rfl, rfl, List.subset_append_left .., List.Subset.refl _⟩

namespace Graph

variable {tree : ScopeTree} {mark : String} {building building' orphan orphan' : ScopeId → Prop}
  {g g' g'' : Graph} {id : ScopeId} {s : LiveScope}

/-! ## Growth -/

/-- A graph with more scopes and values, and otherwise the same. -/
structure Grown (g g' : Graph) : Prop where
  host : g'.host = g.host
  program : g'.program = g.program
  scopes_next : g.scopes.next ≤ g'.scopes.next
  values_next : g.values.next ≤ g'.values.next
  scope : ∀ {id s}, g.scopes.get? id = some s → ∃ s', g'.scopes.get? id = some s' ∧ s.Grown s'
  scope_old : ∀ {id s'}, g'.scopes.get? id = some s' → id.serial < g.scopes.next →
    ∃ s, g.scopes.get? id = some s
  cell : ∀ {id c}, g.values.get? id = some c → ∃ c', g'.values.get? id = some c' ∧
    c'.scope = c.scope ∧ c'.template = c.template
  cell_old : ∀ {id c'}, g'.values.get? id = some c' → id.serial < g.values.next →
    ∃ c, g.values.get? id = some c

namespace Grown

theorem refl (g : Graph) : Grown g g where
  host := rfl
  program := rfl
  scopes_next := Nat.le_refl _
  values_next := Nat.le_refl _
  scope h := ⟨_, h, .refl _⟩
  scope_old h _ := ⟨_, h⟩
  cell h := ⟨_, h, rfl, rfl⟩
  cell_old h _ := ⟨_, h⟩

theorem trans (h : Grown g g') (h' : Grown g' g'') : Grown g g'' where
  host := h'.host.trans h.host
  program := h'.program.trans h.program
  scopes_next := Nat.le_trans h.scopes_next h'.scopes_next
  values_next := Nat.le_trans h.values_next h'.values_next
  scope hs := by
    obtain ⟨s', hs', hgrown⟩ := h.scope hs
    obtain ⟨s'', hs'', hgrown'⟩ := h'.scope hs'
    exact ⟨s'', hs'', hgrown.trans hgrown'⟩
  scope_old hs hlt := by
    obtain ⟨s', hs'⟩ := h'.scope_old hs (Nat.lt_of_lt_of_le hlt h.scopes_next)
    exact h.scope_old hs' hlt
  cell hc := by
    obtain ⟨c', hc', hscope, htemplate⟩ := h.cell hc
    obtain ⟨c'', hc'', hscope', htemplate'⟩ := h'.cell hc'
    exact ⟨c'', hc'', hscope'.trans hscope, htemplate'.trans htemplate⟩
  cell_old hc hlt := by
    obtain ⟨c', hc'⟩ := h'.cell_old hc (Nat.lt_of_lt_of_le hlt h.values_next)
    exact h.cell_old hc' hlt

end Grown

/-- What holds of a live scope still holds in a larger graph. -/
theorem SoundScope.grow (h : SoundScope tree building orphan g id s) (hg : Grown g g')
    (hbuilding : building id → building' id) (horphan : orphan id → orphan' id) :
    SoundScope tree building' orphan' g' id s where
  root := by
    rw [hg.program]
    exact h.root
  parent p hp := by
    obtain ⟨hlt, q, hq, hfits⟩ := h.parent p hp
    obtain ⟨q', hq', hgrown⟩ := hg.scope hq
    refine ⟨hlt, q', hq', ?_⟩
    rw [hg.program, hgrown.template]
    exact hfits
  distinct := by
    rw [hg.program]
    exact h.distinct
  node_lt := by
    rw [hg.host]
    exact h.node_lt
  marked := by
    rw [hg.host, hg.program]
    exact h.marked
  marked_clone := by
    rw [hg.host]
    exact h.marked_clone
  known c hc := Nat.lt_of_lt_of_le (h.known c hc) hg.scopes_next
  child c hc t' ht' := by
    obtain ⟨t, ht⟩ := hg.scope_old ht' (h.known c (.inl hc))
    obtain ⟨t'', ht'', hgrown⟩ := hg.scope ht
    obtain rfl := Option.some.inj (ht''.symm.trans ht')
    rw [hgrown.parent, hgrown.cloneIndex]
    exact h.child c hc t ht
  clone c hc t' ht' := by
    obtain ⟨t, ht⟩ := hg.scope_old ht' (h.known c (.inr hc))
    obtain ⟨t'', ht'', hgrown⟩ := hg.scope ht
    obtain rfl := Option.some.inj (ht''.symm.trans ht')
    rw [hgrown.parent, hgrown.cloneIndex]
    exact h.clone c hc t ht
  owner p hp := by
    rcases h.owner p hp with ho | ⟨q, hq, hmem⟩ | ⟨z, t, ht, htp, hmem⟩
    · exact .inl (horphan ho)
    · obtain ⟨q', hq', hgrown⟩ := hg.scope hq
      exact .inr (.inl ⟨q', hq', hgrown.children hmem⟩)
    · obtain ⟨t', ht', hgrown⟩ := hg.scope ht
      exact .inr (.inr ⟨z, t', ht', hgrown.parent.trans htp, hgrown.clones hmem⟩)
  declared := h.declared
  own name v hv := by
    obtain ⟨hlt, hown⟩ := h.own name v hv
    refine ⟨Nat.lt_of_lt_of_le hlt hg.values_next, fun c' hc' => ?_⟩
    obtain ⟨c, hc⟩ := hg.cell_old hc' hlt
    obtain ⟨c'', hc'', hscope, -⟩ := hg.cell hc
    obtain rfl := Option.some.inj (hc''.symm.trans hc')
    rw [hscope]
    exact hown c hc
  values hb w hw := by
    obtain ⟨v, c, hv, hc⟩ := h.values (fun hb' => hb (hbuilding hb')) w hw
    obtain ⟨c', hc', -⟩ := hg.cell hc
    exact ⟨v, c', hv, hc'⟩
  aliases hb u hu name hname := by
    obtain ⟨c, t, hc, hmem, ht, hindex⟩ := h.aliases (fun hb' => hb (hbuilding hb')) u hu name hname
    obtain ⟨t', ht', hgrown⟩ := hg.scope ht
    refine ⟨c, t', hc, hmem, ht', ?_⟩
    rw [hgrown.template]
    exact hindex

/-- A larger graph is sound if what is new in it is. -/
theorem Sound.grow (h : Sound tree mark building orphan g) (hg : Grown g g')
    (hbuilding : ∀ id, building id → building' id) (horphan : ∀ id, orphan id → orphan' id)
    (hrequests : g'.requests = g.requests) (hdiagnostics : ∀ d ∈ g'.diagnostics,
      d ∈ g.diagnostics ∨ ∀ observer path, d ≠ .unresolved observer path)
    (hscope : ∀ id s', g'.scopes.get? id = some s' → g.scopes.get? id ≠ some s' →
      SoundScope tree building' orphan' g' id s')
    (hcell : ∀ id c', g'.values.get? id = some c' → g.values.get? id = none →
      c'.template.kind.Spares g.program.scopeAttribute)
    (hlinks : ∀ l ∈ g'.pendingLinks, l ∈ g.pendingLinks ∨
      ∃ s, g.scopes.get? l.scope = some s ∧ tree.Leads s.template.index l.path) :
    Sound tree mark building' orphan' g' where
  mark_eq := by rw [hg.program, h.mark_eq]
  linked := by
    rw [hg.host]
    exact h.linked
  furnished := by
    rw [hg.host, hg.program]
    exact h.furnished
  scope id s' hs' := by
    by_cases hs : g.scopes.get? id = some s'
    · exact (h.scope id s' hs).grow hg (hbuilding id) (horphan id)
    · exact hscope id s' hs' hs
  cells id c' hc' := by
    rw [hg.program]
    cases hc : g.values.get? id with
    | none => exact hcell id c' hc' hc
    | some c =>
      obtain ⟨c'', hc'', -, htemplate⟩ := hg.cell hc
      obtain rfl := Option.some.inj (hc''.symm.trans hc')
      rw [htemplate]
      exact h.cells id c hc
  links l hl := by
    have hlead : ∃ s, g.scopes.get? l.scope = some s ∧ tree.Leads s.template.index l.path := by
      rcases hlinks l hl with hl | hl
      · exact h.links l hl
      · exact hl
    obtain ⟨s, hs, hleads⟩ := hlead
    obtain ⟨s', hs', hgrown⟩ := hg.scope hs
    refine ⟨s', hs', ?_⟩
    rw [hgrown.template]
    exact hleads
  requests := by
    rw [hrequests, hg.program]
    exact h.requests
  resolved observer path hd := by
    rcases hdiagnostics _ hd with hd | hd
    · exact h.resolved observer path hd
    · exact hd observer path rfl

/-- What is complete is not under construction any more, and what is owned is no orphan. -/
theorem Sound.finish (h : Sound tree mark building orphan g)
    (hbuilding : ∀ id s, g.scopes.get? id = some s → building id → ¬building' id →
      Filled g s s.template.values ∧ Aliased g s s.template.children)
    (horphan : ∀ id s p, g.scopes.get? id = some s → s.parent = some p → orphan id →
      orphan' id ∨ (∃ q, g.scopes.get? p = some q ∧ id ∈ q.children) ∨
      ∃ z t, g.scopes.get? z = some t ∧ t.parent = some p ∧ id ∈ t.clones) :
    Sound tree mark building' orphan' g where
  __ := h
  scope id s hs :=
    have hscope := h.scope id s hs
    { hscope with
      owner := by
        intro p hp
        rcases hscope.owner p hp with ho | ho
        · exact horphan id s p hs hp ho
        · exact .inr ho
      values := by
        intro hb
        by_cases hb' : building id
        · exact (hbuilding id s hs hb' hb).1
        · exact hscope.values hb'
      aliases := by
        intro hb
        by_cases hb' : building id
        · exact (hbuilding id s hs hb' hb).2
        · exact hscope.aliases hb' }

/-! ## Single changes -/

theorem Grown.congr (hhost : g'.host = g.host) (hprogram : g'.program = g.program)
    (hscopes : g'.scopes = g.scopes) (hvalues : g'.values = g.values) : Grown g g' where
  host := hhost
  program := hprogram
  scopes_next := by simp [hscopes]
  values_next := by simp [hvalues]
  scope hs := ⟨_, hscopes ▸ hs, .refl _⟩
  scope_old hs _ := ⟨_, hscopes ▸ hs⟩
  cell hc := ⟨_, hvalues ▸ hc, rfl, rfl⟩
  cell_old hc _ := ⟨_, hvalues ▸ hc⟩

theorem Grown.insertScope (g : Graph) (s : LiveScope) (seed : Option (Nat × Value)) :
    Grown g { g with scopes := (g.scopes.insert s).2, seed } where
  host := rfl
  program := rfl
  scopes_next := by simp
  values_next := Nat.le_refl _
  scope hs := ⟨_, Slots.get?_insert_of_some hs s, .refl _⟩
  scope_old := by
    intro id t ht hlt
    rcases Slots.of_get?_insert ht with ⟨rfl, -⟩ | hold
    · rw [Slots.insert_serial] at hlt
      exact absurd hlt (Nat.lt_irrefl _)
    · exact ⟨t, hold⟩
  cell hc := ⟨_, hc, rfl, rfl⟩
  cell_old hc _ := ⟨_, hc⟩

theorem Grown.modifyScope (id : ScopeId) {f : LiveScope → LiveScope}
    (hf : ∀ s, g.scopes.get? id = some s → s.Grown (f s)) :
    Grown g { g with scopes := g.scopes.modify id f } where
  host := rfl
  program := rfl
  scopes_next := Nat.le_refl _
  values_next := Nat.le_refl _
  scope := by
    intro k s hs
    rw [Slots.get?_modify]
    split
    · rename_i hk
      rw [hk] at hs
      exact ⟨f s, by rw [hs]; rfl, hf s hs⟩
    · exact ⟨s, hs, .refl s⟩
  scope_old := by
    intro k s' hs' _
    rw [Slots.get?_modify] at hs'
    split at hs'
    · rename_i hk
      obtain ⟨s, hs, -⟩ := Option.map_eq_some_iff.1 hs'
      exact ⟨s, hk ▸ hs⟩
    · exact ⟨s', hs'⟩
  cell hc := ⟨_, hc, rfl, rfl⟩
  cell_old hc _ := ⟨_, hc⟩

theorem Grown.insertCell (g : Graph) (c : Cell) (order : List ValueId) :
    Grown g { g with values := (g.values.insert c).2, order } where
  host := rfl
  program := rfl
  scopes_next := Nat.le_refl _
  values_next := by simp
  scope hs := ⟨_, hs, .refl _⟩
  scope_old hs _ := ⟨_, hs⟩
  cell hc := ⟨_, Slots.get?_insert_of_some hc c, rfl, rfl⟩
  cell_old := by
    intro k c' hc' hlt
    rcases Slots.of_get?_insert hc' with ⟨rfl, -⟩ | hold
    · rw [Slots.insert_serial] at hlt
      exact absurd hlt (Nat.lt_irrefl _)
    · exact ⟨c', hold⟩

theorem Grown.modifyCell (g : Graph) (v : ValueId) {f : Cell → Cell}
    (hf : ∀ c, (f c).scope = c.scope ∧ (f c).template = c.template) :
    Grown g { g with values := g.values.modify v f } where
  host := rfl
  program := rfl
  scopes_next := Nat.le_refl _
  values_next := Nat.le_refl _
  scope hs := ⟨_, hs, .refl _⟩
  scope_old hs _ := ⟨_, hs⟩
  cell := by
    intro k c hc
    rw [Slots.get?_modify]
    split
    · rename_i hk
      rw [hk] at hc
      exact ⟨f c, by rw [hc]; rfl, hf c⟩
    · exact ⟨c, hc, rfl, rfl⟩
  cell_old := by
    intro k c' hc' _
    rw [Slots.get?_modify] at hc'
    split at hc'
    · rename_i hk
      obtain ⟨c, hc, -⟩ := Option.map_eq_some_iff.1 hc'
      exact ⟨c, hk ▸ hc⟩
    · exact ⟨c', hc'⟩

/-- What else a graph has does not matter. -/
theorem Sound.congr (h : Sound tree mark building orphan g) (hhost : g'.host = g.host)
    (hprogram : g'.program = g.program) (hscopes : g'.scopes = g.scopes)
    (hvalues : g'.values = g.values) (hrequests : g'.requests = g.requests)
    (hdiagnostics : ∀ d ∈ g'.diagnostics,
      d ∈ g.diagnostics ∨ ∀ observer path, d ≠ .unresolved observer path)
    (hlinks : ∀ l ∈ g'.pendingLinks, l ∈ g.pendingLinks ∨
      ∃ s, g.scopes.get? l.scope = some s ∧ tree.Leads s.template.index l.path) :
    Sound tree mark building orphan g' := by
  refine h.grow (.congr hhost hprogram hscopes hvalues) (fun _ hb => hb) (fun _ ho => ho) hrequests
    hdiagnostics ?_ ?_ hlinks
  · intro k s' hs' hne
    rw [hscopes] at hs'
    exact absurd hs' hne
  · intro k c' hc' hnone
    rw [hvalues, hnone] at hc'
    cases hc'

/-- A scope changed so that all that must hold of it still holds. -/
theorem Sound.modifyScope (h : Sound tree mark building orphan g) (id : ScopeId)
    {f : LiveScope → LiveScope}
    (hgrown : ∀ s, g.scopes.get? id = some s → s.Grown (f s))
    (hf : ∀ s, g.scopes.get? id = some s → SoundScope tree building orphan g id (f s)) :
    Sound tree mark building orphan { g with scopes := g.scopes.modify id f } := by
  refine h.grow (.modifyScope id hgrown) (fun _ hb => hb) (fun _ ho => ho) rfl (fun _ hd => .inl hd)
    ?_ ?_ (fun _ hl => .inl hl)
  · intro k s' hs' hne
    rw [Slots.get?_modify] at hs'
    split at hs'
    · rename_i hk
      obtain ⟨s, hs, rfl⟩ := Option.map_eq_some_iff.1 hs'
      subst hk
      exact (hf s hs).grow (.modifyScope _ hgrown) (fun hb => hb) (fun ho => ho)
    · exact absurd hs' hne
  · intro k c hc hnone
    rw [hnone] at hc
    cases hc

/-- A cell changed in what does not place it in the graph. -/
theorem Sound.modifyCell (h : Sound tree mark building orphan g) (v : ValueId) {f : Cell → Cell}
    (hf : ∀ c, (f c).scope = c.scope ∧ (f c).template = c.template) :
    Sound tree mark building orphan { g with values := g.values.modify v f } := by
  have hgrown := Grown.modifyCell g v hf
  refine h.grow hgrown (fun _ hb => hb) (fun _ ho => ho) rfl (fun _ hd => .inl hd)
    (fun k s hs hne => absurd hs hne) (fun k c' hc' hnone => ?_) (fun _ hl => .inl hl)
  obtain ⟨c, hc⟩ : ∃ c, g.values.get? k = some c := by
    rw [Slots.get?_modify] at hc'
    split at hc'
    · rename_i hk
      obtain ⟨c, hc, -⟩ := Option.map_eq_some_iff.1 hc'
      exact ⟨c, hk ▸ hc⟩
    · exact ⟨c', hc'⟩
  rw [hnone] at hc
  cases hc

/-- A cell that shows itself nowhere near the marks. -/
theorem Sound.insertCell (h : Sound tree mark building orphan g) {c : Cell} (order : List ValueId)
    (hc : c.template.kind.Spares g.program.scopeAttribute) :
    Sound tree mark building orphan { g with values := (g.values.insert c).2, order } := by
  refine h.grow (.insertCell g c order) (fun _ hb => hb) (fun _ ho => ho) rfl (fun _ hd => .inl hd)
    (fun k s hs hne => absurd hs hne) ?_ (fun _ hl => .inl hl)
  intro k c' hc' hnone
  rcases Slots.of_get?_insert hc' with ⟨-, rfl⟩ | hold
  · exact hc
  · rw [hnone] at hold
    cases hold

/-! ## Work on one scope -/

/-- What happens while a scope is under construction: other scopes stay, and its names keep live
values. -/
structure Working (id : ScopeId) (g g' : Graph) : Prop where
  grown : Grown g g'
  seed : g'.seed = g.seed
  aside : ∀ k s, k ≠ id → g.scopes.get? k = some s → g'.scopes.get? k = some s
  filled : ∀ s s', g.scopes.get? id = some s → g'.scopes.get? id = some s' →
    ∀ ws, Filled g s ws → Filled g' s' ws

theorem Filled.grow {ws : List ValueTemplate} (h : Filled g s ws) (hg : Grown g g') :
    Filled g' s ws := by
  intro w hw
  obtain ⟨v, c, hv, hc⟩ := h w hw
  obtain ⟨c', hc', -⟩ := hg.cell hc
  exact ⟨v, c', hv, hc'⟩

namespace Working

/-- The scope itself stays as well. -/
theorem of_eq (id : ScopeId) (hg : Grown g g') (hseed : g'.seed = g.seed)
    (hscopes : g'.scopes = g.scopes) : Working id g g' where
  grown := hg
  seed := hseed
  aside _ _ _ hs := hscopes ▸ hs
  filled s s' hs hs' ws h := by
    rw [hscopes, hs] at hs'
    obtain rfl := Option.some.inj hs'
    exact h.grow hg

theorem refl (id : ScopeId) (g : Graph) : Working id g g := .of_eq id (.refl g) rfl rfl

theorem trans (h : Working id g g') (h' : Working id g' g'') : Working id g g'' where
  grown := h.grown.trans h'.grown
  seed := h'.seed.trans h.seed
  aside k s hk hs := h'.aside k s hk (h.aside k s hk hs)
  filled s s'' hs hs'' ws hw := by
    obtain ⟨s', hs', -⟩ := h.grown.scope hs
    exact h'.filled s' s'' hs' hs'' ws (h.filled s s' hs hs' ws hw)

theorem modifyScope {f : LiveScope → LiveScope}
    (hgrown : ∀ s, g.scopes.get? id = some s → s.Grown (f s))
    (hf : ∀ s ws, Filled g s ws → Filled g (f s) ws) :
    Working id g { g with scopes := g.scopes.modify id f } where
  grown := .modifyScope id hgrown
  seed := rfl
  aside k s hk hs := by
    rw [Slots.get?_modify, if_neg hk]
    exact hs
  filled s s' hs hs' ws h := by
    rw [Slots.get?_modify, if_pos rfl, hs] at hs'
    obtain rfl := Option.some.inj hs'
    exact (hf s ws h).grow (.modifyScope id hgrown)

end Working

/-- Adding a cell to a scope, the last part of building a value. -/
def addCell (scope : ScopeId) (name : String) (cell : Cell) : GraphM ValueId := do
  let (id, values) := (← get).values.insert cell
  modify fun g => { g with values, order := g.order ++ [id] }
  modifyScope scope fun s => { s with values := Keyed.insert name id s.values }
  return id

theorem run_addCell (scope : ScopeId) (name : String) (cell : Cell) (g : Graph) :
    (addCell scope name cell).run g = ((g.values.insert cell).1, { g with
      values := (g.values.insert cell).2, order := g.order ++ [(g.values.insert cell).1]
      scopes := g.scopes.modify scope fun s =>
        { s with values := Keyed.insert name (g.values.insert cell).1 s.values } }) := rfl

/-- Building a value adds a cell without links that was never evaluated, for which the item of a copy
may be taken from the scope. -/
theorem run_buildValue (scope : ScopeId) (w : ValueTemplate) (g : Graph) :
    ∃ (c : Cell) (g₁ : Graph), c.template = w ∧ c.scope = scope ∧ c.evaluated = none ∧
      (c.observers = [] ∧ c.observing = []) ∧
      (g₁ = g ∨ g₁ = { g with scopes := g.scopes.modify scope fun s => { s with seed := none } }) ∧
      (buildValue scope w).run g = (addCell scope w.name c).run g₁ := by
  obtain ⟨c, hc⟩ : ∃ c, c = newCell g scope w := ⟨_, rfl⟩
  have htemplate : c.template = w := by rw [hc]; rfl
  have hscope : c.scope = scope := by rw [hc]; rfl
  have hmark : c.evaluated = none := by rw [hc]; rfl
  have hlinks : c.observers = [] ∧ c.observing = [] := by rw [hc]; exact ⟨rfl, rfl⟩
  unfold buildValue
  rw [run_get_bind, ← hc]
  cases w.kind with
  | data =>
    dsimp only
    rw [run_get_bind]
    cases (g.scopes.get? scope).bind (·.seed) with
    | some item =>
      exact ⟨{ c with output := item, compute := none }, _, htemplate, hscope, hmark, hlinks, .inr rfl,
        rfl⟩
    | none =>
      exact ⟨{ c with output := .undefined, replica := some ⟨c.output, .undefined, .undefined, false⟩ },
        g, htemplate, hscope, hmark, hlinks, .inl rfl, rfl⟩
  | _ => exact ⟨c, g, htemplate, hscope, hmark, hlinks, .inl rfl, rfl⟩

/-- A live cell of a scope under construction gets its name there. -/
theorem Sound.nameCell (h : Sound tree mark building orphan g) (hbuilding : building id)
    (hs : g.scopes.get? id = some s) {v : ValueId} {c : Cell} (hv : g.values.get? v = some c)
    (hcs : c.scope = id) (hc : c.template ∈ s.template.values) :
    let g' : Graph := { g with scopes := g.scopes.modify id fun t =>
      { t with values := Keyed.insert c.template.name v t.values } }
    Sound tree mark building orphan g' ∧ Working id g g' ∧
      ∀ s', g'.scopes.get? id = some s' → Filled g' s' [c.template] := by
  have hrename (t : LiveScope) :
      t.Grown { t with values := Keyed.insert c.template.name v t.values } :=
    ⟨rfl, rfl, rfl, rfl, List.Subset.refl _, List.Subset.refl _⟩
  refine ⟨h.modifyScope id (fun t _ => hrename t) fun t ht => ?_,
    .modifyScope (fun t _ => hrename t) fun t ws hws w hw => ?_, fun s' hs' w hw => ?_⟩
  · have hold := h.scope id t ht
    obtain rfl := Option.some.inj (hs.symm.trans ht)
    exact {
      hold with
      declared := by
        intro name x hx
        by_cases hname : name = c.template.name
        · exact ⟨c.template, hc, hname.symm⟩
        · rw [Keyed.lookup_insert_of_ne hname] at hx
          exact hold.declared name x hx
      own := by
        intro name x hx
        rcases Keyed.mem_insert hx with he | hx
        · obtain ⟨-, rfl⟩ := Prod.mk.inj he
          refine ⟨Slots.serial_lt hv, fun c' hc' => ?_⟩
          rw [hv] at hc'
          rw [← Option.some.inj hc', hcs]
        · exact hold.own name x hx
      values := fun hb => absurd hbuilding hb
      aliases := fun hb => absurd hbuilding hb }
  · by_cases hname : w.name = c.template.name
    · refine ⟨v, c, ?_, hv⟩
      rw [hname]
      exact Keyed.lookup_insert_self ..
    · obtain ⟨x, cx, hx, hcx⟩ := hws w hw
      exact ⟨x, cx, by rw [← hx]; exact Keyed.lookup_insert_of_ne hname .., hcx⟩
  · obtain rfl := List.mem_singleton.1 hw
    rw [Slots.get?_modify, if_pos rfl, hs] at hs'
    obtain rfl := Option.some.inj hs'
    exact ⟨v, c, Keyed.lookup_insert_self .., hv⟩

/-- Adding the cell of one of its values to a scope under construction. -/
theorem Sound.addCell (h : Sound tree mark building orphan g) (hbuilding : building id)
    (hs : g.scopes.get? id = some s) {c : Cell} (hcs : c.scope = id)
    (hc : c.template ∈ s.template.values) :
    ∃ v g', (Graph.addCell id c.template.name c).run g = (v, g') ∧ Sound tree mark building orphan g' ∧
      Working id g g' ∧ ∀ s', g'.scopes.get? id = some s' → Filled g' s' [c.template] := by
  have hspares : c.template.kind.Spares g.program.scopeAttribute := by
    obtain ⟨p, hfits⟩ := h.exists_fits hs
    obtain ⟨-, -, -, hspares, -⟩ := hfits
    exact hspares _ hc
  have hinsert := h.insertCell (g.order ++ [(g.values.insert c).1]) hspares
  have hgrown := Grown.insertCell g c (g.order ++ [(g.values.insert c).1])
  obtain ⟨h', hwork, hfilled⟩ :=
    hinsert.nameCell hbuilding hs (Slots.get?_insert_self c g.values) hcs hc
  exact ⟨_, _, run_addCell .., h', (Working.of_eq id hgrown rfl rfl).trans hwork, hfilled⟩

/-- Building one of its values in a scope under construction. -/
theorem Sound.buildValue (h : Sound tree mark building orphan g) (hbuilding : building id)
    (hs : g.scopes.get? id = some s) {w : ValueTemplate} (hw : w ∈ s.template.values) :
    ∃ v g', (Graph.buildValue id w).run g = (v, g') ∧ Sound tree mark building orphan g' ∧
      Working id g g' ∧ ∀ s', g'.scopes.get? id = some s' → Filled g' s' [w] := by
  obtain ⟨c, g₁, rfl, hcs, -, -, hg₁, hrun⟩ := run_buildValue id w g
  have hfirst : Sound tree mark building orphan g₁ ∧ Working id g g₁ ∧
      ∃ t, g₁.scopes.get? id = some t ∧ t.template = s.template := by
    rcases hg₁ with rfl | rfl
    · exact ⟨h, .refl id g₁, s, hs, rfl⟩
    · have hgrown (t : LiveScope) : t.Grown { t with seed := none } :=
        ⟨rfl, rfl, rfl, rfl, List.Subset.refl _, List.Subset.refl _⟩
      refine ⟨h.modifyScope id (fun t _ => hgrown t) fun t ht => ?_,
        .modifyScope (fun t _ => hgrown t) fun t ws hws => hws, { s with seed := none }, ?_, rfl⟩
      · exact { h.scope id t ht with }
      · rw [Slots.get?_modify, if_pos rfl, hs]
        rfl
  obtain ⟨h₁, hwork, t, ht, htemplate⟩ := hfirst
  obtain ⟨v, g', hrun', h', hwork', hfilled⟩ := h₁.addCell hbuilding ht hcs (htemplate ▸ hw)
  exact ⟨v, g', hrun.trans hrun', h', hwork.trans hwork', hfilled⟩

theorem run_buildLinks (id : ScopeId) (v : ValueId) (paths : List ValuePath) (g : Graph) :
    (paths.forM fun p => buildLink id v p).run g =
      ((), { g with pendingLinks := g.pendingLinks ++ paths.map fun p => ⟨id, v, p⟩ }) := by
  induction paths generalizing g with
  | nil => simp only [List.map_nil, List.append_nil]; rfl
  | cons p paths ih =>
    refine (ih _).trans ?_
    simp only [List.map_cons, List.append_assoc, List.singleton_append]

/-- Building some of its values, with their links, in a scope under construction. -/
theorem Sound.buildValues (h : Sound tree mark building orphan g) (hbuilding : building id)
    (hs : g.scopes.get? id = some s) (ws : List ValueTemplate)
    (hws : ∀ w ∈ ws, w ∈ s.template.values) :
    ∃ g', (ws.forM (ScopeTemplate.buildValue builder id)).run g = ((), g') ∧
      Sound tree mark building orphan g' ∧ Working id g g' ∧
      ∀ s', g'.scopes.get? id = some s' → Filled g' s' ws := by
  induction ws generalizing g s with
  | nil => exact ⟨g, rfl, h, .refl id g, fun s' _ w hw => by cases hw⟩
  | cons w ws ih =>
    obtain ⟨v, g₁, hrun₁, h₁, hwork₁, hfilled₁⟩ := h.buildValue hbuilding hs (hws w (List.mem_cons_self ..))
    obtain ⟨s₁, hs₁, hgrown₁⟩ := hwork₁.grown.scope hs
    -- the links of the value start at its scope
    generalize hg₂ : ({ g₁ with
      pendingLinks := g₁.pendingLinks ++ w.dependencies.map fun p => ⟨id, v, p⟩ } : Graph) = g₂
    have h₂ : Sound tree mark building orphan g₂ := by
      subst hg₂
      refine h₁.congr rfl rfl rfl rfl rfl (fun d hd => .inl hd) fun l hl => ?_
      rcases List.mem_append.1 hl with hl | hl
      · exact .inl hl
      · obtain ⟨p, hp, rfl⟩ := List.mem_map.1 hl
        obtain ⟨q, hfits⟩ := h₁.exists_fits hs₁
        obtain ⟨-, -, hleads, -⟩ := hfits
        rw [hgrown₁.template] at hleads
        refine .inr ⟨s₁, hs₁, ?_⟩
        rw [hgrown₁.template]
        exact hleads w (hws w (List.mem_cons_self ..)) p hp
    have hscopes₂ : g₂.scopes = g₁.scopes := by rw [← hg₂]
    have hwork₂ : Working id g₁ g₂ := by
      subst hg₂
      exact .of_eq id (.congr rfl rfl rfl rfl) rfl rfl
    have hs₂ : g₂.scopes.get? id = some s₁ := by rw [hscopes₂, hs₁]
    obtain ⟨g', hrun', h', hwork', hfilled'⟩ := ih h₂ hs₂ fun u hu => by
      rw [hgrown₁.template]
      exact hws u (List.mem_cons_of_mem _ hu)
    refine ⟨g', ?_, h', hwork₁.trans (hwork₂.trans hwork'), fun s' hs' u hu => ?_⟩
    · rw [← hrun', ← hg₂]
      change (ws.forM (ScopeTemplate.buildValue builder id)).run
        ((w.dependencies.forM fun p =>
          buildLink id ((Graph.buildValue id w).run g).1 p).run ((Graph.buildValue id w).run g).2).2 = _
      rw [hrun₁, run_buildLinks]
    · rcases List.mem_cons.1 hu with rfl | hu
      · have hfilled₂ : Filled g₂ s₁ [u] := (hfilled₁ s₁ hs₁).grow hwork₂.grown
        exact hwork'.filled s₁ s' hs₂ hs' [u] hfilled₂ u (List.mem_singleton_self u)
      · exact hfilled' s' hs' u hu

/-- Building events of a scope. -/
theorem Sound.buildListeners (h : Sound tree mark building orphan g) (id : ScopeId)
    (es : List EventTemplate) :
    ∃ g', (es.forM (buildListener id)).run g = ((), g') ∧ Sound tree mark building orphan g' ∧
      Working id g g' := by
  induction es generalizing g with
  | nil => exact ⟨g, rfl, h, .refl id g⟩
  | cons e es ih =>
    have hfirst : ∃ g₁, (buildListener id e).run g = ((), g₁) ∧ Sound tree mark building orphan g₁ ∧
        Working id g g₁ := by
      unfold buildListener
      rw [run_get_bind]
      cases g.scopeNode? id with
      | none => exact ⟨g, rfl, h, .refl id g⟩
      | some node =>
        have hlisten (l : ListenerId) (t : LiveScope) :
            t.Grown { t with listeners := t.listeners ++ [l] } :=
          ⟨rfl, rfl, rfl, rfl, List.Subset.refl _, List.Subset.refl _⟩
        dsimp only
        rw [run_get_bind]
        generalize g.listeners.insert ⟨id, node, e, false⟩ = u
        obtain ⟨l, listeners⟩ := u
        have h₁ : Sound tree mark building orphan
            { g with listeners, pendingListeners := g.pendingListeners ++ [l] } :=
          h.congr rfl rfl rfl rfl rfl (fun d hd => .inl hd) fun l hl => .inl hl
        have hwork : Working id g { g with listeners, pendingListeners := g.pendingListeners ++ [l] } :=
          .of_eq id (.congr rfl rfl rfl rfl) rfl rfl
        refine ⟨{ g with
          listeners, pendingListeners := g.pendingListeners ++ [l]
          scopes := g.scopes.modify id fun t => { t with listeners := t.listeners ++ [l] } }, rfl,
          h₁.modifyScope id (fun t _ => hlisten l t) fun t ht => ?_, ?_⟩
        · exact { h₁.scope id t ht with }
        · exact hwork.trans (.modifyScope (fun t _ => hlisten l t) fun t ws hws => hws)
    obtain ⟨g₁, hrun₁, h₁, hwork₁⟩ := hfirst
    obtain ⟨g', hrun', h', hwork'⟩ := ih h₁
    refine ⟨g', ?_, h', hwork₁.trans hwork'⟩
    rw [← hrun']
    change (es.forM (buildListener id)).run ((buildListener id e).run g).2 = _
    rw [hrun₁]

/-! ## New scopes -/

/-- Where a template is built. The parent of an original is under construction. -/
structure Site (tree : ScopeTree) (building : ScopeId → Prop) (g : Graph) (t : ScopeTemplate)
    (parent : Option ScopeId) (node : NodeId) : Prop where
  distinct : g.program.scopeAttribute ≠ Marker.clone
  top : parent = none → t.Fits tree g.program.scopeAttribute none
  under : ∀ p, parent = some p → ∃ q, g.scopes.get? p = some q ∧
    t.Fits tree g.program.scopeAttribute (some q.template.index)
  building : g.seed = none → ∀ p, parent = some p → building p
  marked : g.host.document.attribute? node g.program.scopeAttribute = some (toString t.index)
  copy : g.seed.isSome → (g.host.document.attribute? node Marker.clone).isSome

/-- What building a template has done: there is a new scope, and its parent has taken it in unless
it is a copy. -/
structure Raised (g : Graph) (t : ScopeTemplate) (parent : Option ScopeId) (id : ScopeId)
    (g' : Graph) : Prop where
  grown : Grown g g'
  seed : g'.seed = none
  fresh : g.scopes.next ≤ id.serial
  live : ∃ s, g'.scopes.get? id = some s ∧ s.template = t ∧ s.parent = parent ∧
    s.cloneIndex = g.seed.map (·.1)
  aside : ∀ k s, g.scopes.get? k = some s → (g.seed = none → parent ≠ some k) →
    g'.scopes.get? k = some s
  adopted : g.seed = none → ∀ p q, parent = some p → g.scopes.get? p = some q →
    g'.scopes.get? p = some (q.adopt t.ownAlias id)

namespace Raised

variable {t : ScopeTemplate} {parent : Option ScopeId}

theorem ne_of_live (h : Raised g t parent id g') {k : ScopeId} (hs : g.scopes.get? k = some s) :
    k ≠ id := by
  rintro rfl
  exact Nat.lt_irrefl _ (Nat.lt_of_lt_of_le (Slots.serial_lt hs) h.fresh)

/-- Work on the new scope leaves the others as they are. -/
theorem working (h : Raised g t parent id g') (hw : Working id g' g'') :
    Raised g t parent id g'' where
  grown := h.grown.trans hw.grown
  seed := hw.seed.trans h.seed
  fresh := h.fresh
  live := by
    obtain ⟨s, hs, htemplate, hparent, hindex⟩ := h.live
    obtain ⟨s', hs', hgrown⟩ := hw.grown.scope hs
    exact ⟨s', hs', hgrown.template.trans htemplate, hgrown.parent.trans hparent,
      hgrown.cloneIndex.trans hindex⟩
  aside k s hs hne := hw.aside k s (h.ne_of_live hs) (h.aside k s hs hne)
  adopted hseed p q hp hq := hw.aside p _ (h.ne_of_live hq) (h.adopted hseed p q hp hq)

end Raised

/-- A new scope, which nothing owns yet. -/
theorem Sound.insertScope (h : Sound tree mark building orphan g) {t : ScopeTemplate}
    {parent : Option ScopeId} {node : NodeId} (hsite : Site tree building g t parent node)
    {u : ScopeId × Slots LiveScope} (hu : u = g.scopes.insert (.newborn t parent node g.seed)) :
    Sound tree mark (fun k => building k ∨ k = u.1) (fun k => orphan k ∨ k = u.1)
      { g with scopes := u.2, seed := none } := by
  have hgrown : Grown g { g with scopes := u.2, seed := none } := by
    rw [hu]
    exact .insertScope g _ none
  refine h.grow hgrown (fun _ hb => .inl hb) (fun _ ho => .inl ho) rfl (fun _ hd => .inl hd) ?_ ?_
    (fun _ hl => .inl hl)
  · intro k s' hs' hne
    have hs'' : u.2.get? k = some s' := hs'
    rw [hu, Slots.get?_insert, ← hu] at hs''
    split at hs''
    · rename_i hk
      obtain rfl := Option.some.inj hs''
      obtain ⟨x, hx⟩ := Document.contains_iff.1 (Document.contains_of_attribute? hsite.marked)
      exact {
        root := hsite.top
        parent := by
          intro p hp
          obtain ⟨q, hq, hfits⟩ := hsite.under p hp
          obtain ⟨q', hq', hgrown'⟩ := hgrown.scope hq
          refine ⟨?_, q', hq', ?_⟩
          · rw [hk, hu, Slots.insert_serial]
            exact Slots.serial_lt hq
          · rw [hgrown'.template]
            exact hfits
        distinct := hsite.distinct
        node_lt := Document.lt_size hx
        marked := fun _ => hsite.marked
        marked_clone := by
          intro _ hindex
          refine hsite.copy ?_
          rwa [LiveScope.newborn, Option.isSome_map] at hindex
        known := by
          intro c hc
          rcases hc with hc | hc <;> cases hc
        child := fun c hc => by cases hc
        clone := fun c hc => by cases hc
        owner := fun p _ => .inl (.inr hk)
        declared := fun name v hv => by cases hv
        own := fun name v hv => by cases hv
        values := fun hb => absurd (.inr hk) hb
        aliases := fun hb => absurd (.inr hk) hb }
    · exact absurd hs'' hne
  · intro k c hc hnone
    rw [hnone] at hc
    cases hc

/-- A copy, or a scope under nothing, is taken in by no parent. -/
theorem run_buildScope_alone (t : ScopeTemplate) {parent : Option ScopeId} (node : NodeId)
    {u : ScopeId × Slots LiveScope} (h : g.seed = none → parent = none)
    (hu : u = g.scopes.insert (.newborn t parent node g.seed)) :
    (buildScope t parent node).run g = (u.1, { g with scopes := u.2, seed := none }) := by
  subst hu
  unfold buildScope
  rw [run_get_bind]
  cases hseed : g.seed with
  | some seed => rfl
  | none =>
    rw [h hseed]
    rfl

theorem run_buildScope_child (t : ScopeTemplate) (p : ScopeId) (node : NodeId)
    {u : ScopeId × Slots LiveScope} (h : g.seed = none)
    (hu : u = g.scopes.insert (.newborn t (some p) node g.seed)) :
    (buildScope t (some p) node).run g = (u.1,
      { g with scopes := u.2.modify p fun q => q.adopt t.ownAlias u.1, seed := none }) := by
  subst hu
  unfold buildScope
  rw [run_get_bind, h]
  rfl

/-- When a scope is built, a newborn one is put into the graph, and a parent that is to have it takes it
in. -/
theorem of_buildScope {P : ScopeId → Graph → Prop} (t : ScopeTemplate) (parent : Option ScopeId)
    (node : NodeId)
    (hnew : P (g.scopes.insert (.newborn t parent node g.seed)).1
      { g with scopes := (g.scopes.insert (.newborn t parent node g.seed)).2, seed := none })
    (hadopt : ∀ {id : ScopeId} {g : Graph} (p c : ScopeId), P id g →
      P id { g with scopes := g.scopes.modify p fun q => q.adopt t.ownAlias c }) :
    P ((buildScope t parent node).run g).1 ((buildScope t parent node).run g).2 := by
  obtain ⟨u, hu⟩ : ∃ u, u = g.scopes.insert (.newborn t parent node g.seed) := ⟨_, rfl⟩
  rw [← hu] at hnew
  by_cases halone : g.seed = none → parent = none
  · rw [run_buildScope_alone t node halone hu]
    exact hnew
  · obtain ⟨hseed, hparent⟩ := Classical.not_imp.1 halone
    obtain ⟨p, rfl⟩ := Option.ne_none_iff_exists'.1 hparent
    rw [run_buildScope_child t p node hseed hu]
    exact hadopt p u.1 hnew

/-- A scope under construction takes in one that was built under it. -/
theorem Sound.adopt (h : Sound tree mark building orphan g) {p c : ScopeId} {t : LiveScope}
    (hbuilding : building p) (hc : g.scopes.get? c = some t) (hparent : t.parent = some p)
    (horiginal : t.cloneIndex = none) (name : Option String) :
    Sound tree mark building orphan
      { g with scopes := g.scopes.modify p fun q => q.adopt name c } := by
  refine h.modifyScope p (fun q _ => q.grown_adopt name c) fun q hq => ?_
  have hscope := h.scope p q hq
  exact {
    hscope with
    known := by
      intro k hk
      rw [LiveScope.children_adopt, List.mem_append, List.mem_singleton] at hk
      rcases hk with (hk | rfl) | hk
      · exact hscope.known k (.inl hk)
      · exact Slots.serial_lt hc
      · exact hscope.known k (.inr hk)
    child := by
      intro k hk u hu
      rw [LiveScope.children_adopt, List.mem_append, List.mem_singleton] at hk
      rcases hk with hk | rfl
      · exact hscope.child k hk u hu
      · obtain rfl := Option.some.inj (hc.symm.trans hu)
        exact ⟨hparent, horiginal⟩
    values := fun hn => absurd hbuilding hn
    aliases := fun hn => absurd hbuilding hn }

/-- Building a scope. It is under construction then. -/
theorem Sound.buildScope (h : Sound tree mark building orphan g) {t : ScopeTemplate}
    {parent : Option ScopeId} {node : NodeId} (hsite : Site tree building g t parent node) :
    ∃ id g', (Graph.buildScope t parent node).run g = (id, g') ∧
      Sound tree mark (fun k => building k ∨ k = id) (fun k => orphan k ∨ g.seed.isSome ∧ k = id) g' ∧
      Raised g t parent id g' := by
  obtain ⟨u, hu⟩ : ∃ u, u = g.scopes.insert (.newborn t parent node g.seed) := ⟨_, rfl⟩
  have hfirst := h.insertScope hsite hu
  have hgrown : Grown g { g with scopes := u.2, seed := none } := by
    rw [hu]
    exact .insertScope g _ none
  have hlive : u.2.get? u.1 = some (.newborn t parent node g.seed) := by
    rw [hu]
    exact Slots.get?_insert_self ..
  have hfresh : u.1.serial = g.scopes.next := by
    rw [hu]
    exact Slots.insert_serial ..
  have hold {k : ScopeId} {s : LiveScope} (hs : g.scopes.get? k = some s) : u.2.get? k = some s := by
    rw [hu]
    exact Slots.get?_insert_of_some hs _
  by_cases halone : g.seed = none → parent = none
  · refine ⟨_, _, run_buildScope_alone t node halone hu, ?_, hgrown, rfl, Nat.le_of_eq hfresh.symm,
      ⟨_, hlive, rfl, rfl, rfl⟩, fun k s hs _ => hold hs, fun hseed p q hp => ?_⟩
    · refine hfirst.finish (fun _ _ _ hb hn => absurd hb hn) fun k s p hs hp ho => ?_
      rcases ho with ho | ho
      · exact .inl (.inl ho)
      · refine .inl (.inr ⟨?_, ho⟩)
        rw [ho, hlive] at hs
        obtain rfl := Option.some.inj hs
        cases hseed : g.seed with
        | some seed => rfl
        | none =>
          rw [LiveScope.newborn, halone hseed] at hp
          cases hp
    · rw [halone hseed] at hp
      cases hp
  · obtain ⟨hseed, hparent⟩ := Classical.not_imp.1 halone
    obtain ⟨p, rfl⟩ := Option.ne_none_iff_exists'.1 hparent
    obtain ⟨q, hq, -⟩ := hsite.under p rfl
    have hsecond := hfirst.adopt (.inl (hsite.building hseed p rfl)) hlive rfl
      (by rw [LiveScope.newborn, hseed]; rfl) t.ownAlias
    have hmodify := Grown.modifyScope (g := { g with scopes := u.2, seed := none }) p
      (f := fun q => q.adopt t.ownAlias u.1) fun q _ => q.grown_adopt t.ownAlias u.1
    have hne : u.1 ≠ p := by
      rintro rfl
      exact Nat.lt_irrefl _ (hfresh ▸ Slots.serial_lt hq)
    have hp : (u.2.modify p fun q => q.adopt t.ownAlias u.1).get? p =
        some (q.adopt t.ownAlias u.1) := by
      rw [Slots.get?_modify, if_pos rfl, hold hq]
      rfl
    refine ⟨_, _, run_buildScope_child t p node hseed hu, ?_, hgrown.trans hmodify, rfl,
      Nat.le_of_eq hfresh.symm, ⟨.newborn t (some p) node g.seed, ?_, rfl, rfl, rfl⟩, ?_, ?_⟩
    · refine hsecond.finish (fun _ _ _ hb hn => absurd hb hn) fun k s p' hs hp' ho => ?_
      rcases ho with ho | rfl
      · exact .inl (.inl ho)
      · have hs' : (u.2.modify p fun q => q.adopt t.ownAlias u.1).get? u.1 = some s := hs
        rw [Slots.get?_modify, if_neg hne, hlive] at hs'
        obtain rfl := Option.some.inj hs'
        obtain rfl := Option.some.inj hp'
        exact .inr (.inl ⟨_, hp, List.mem_append_right _ (List.mem_singleton_self _)⟩)
    · rw [Slots.get?_modify, if_neg hne]
      exact hlive
    · intro k s hs hk
      have hkp : k ≠ p := by
        rintro rfl
        exact hk hseed rfl
      rw [Slots.get?_modify, if_neg hkp]
      exact hold hs
    · intro _ p' q' hp' hq'
      obtain rfl := Option.some.inj hp'
      rw [hq] at hq'
      obtain rfl := Option.some.inj hq'
      exact hp

/-! ## Elements -/

section

variable {d : Document} {mark index : String} {n m : NodeId}

/-- What is found is marked so, and is no copy. -/
theorem attribute?_of_elementTo? {depth : Nat} (h : elementTo? d mark index depth n = some m) :
    d.attribute? m mark = some index ∧ d.attribute? m Marker.clone = none := by
  induction depth generalizing n with
  | zero => cases h
  | succ depth ih =>
    rw [elementTo?] at h
    split at h
    · cases h
    · rename_i hclone
      split at h
      · rename_i hn
        rw [← Option.some.inj h]
        exact ⟨hn, Option.not_isSome_iff_eq_none.1 hclone⟩
      · obtain ⟨c, -, hc⟩ := List.exists_of_findSome?_eq_some h
        exact ih hc

/-- An element that is found for a scope has its mark, which is not that of copies. -/
theorem attribute?_of_elementOf? {i : ScopeIndex} (h : g.elementOf? i n = some m) :
    g.host.document.attribute? m g.program.scopeAttribute = some (toString i) ∧
      g.program.scopeAttribute ≠ Marker.clone := by
  obtain ⟨c, -, hc⟩ := List.exists_of_findSome?_eq_some h
  obtain ⟨hmark, hclone⟩ := attribute?_of_elementTo? hc
  refine ⟨hmark, fun hsame => ?_⟩
  rw [hsame, hclone] at hmark
  cases hmark

/-- An element at the end of an open path is found, if not another one before it. -/
theorem isSome_elementTo? {k depth : Nat} (h : d.Open k n m)
    (hm : d.attribute? m mark = some index) (hk : k < depth) :
    (elementTo? d mark index depth n).isSome := by
  induction h generalizing depth with
  | here hn =>
    obtain ⟨depth, rfl⟩ := Nat.exists_eq_add_one_of_ne_zero (Nat.ne_of_gt (Nat.zero_lt_of_lt hk))
    rw [elementTo?, hn, hm]
    simp
  | @under k n c m hn hc rest ih =>
    obtain ⟨depth, rfl⟩ := Nat.exists_eq_add_one_of_ne_zero (Nat.ne_of_gt (Nat.zero_lt_of_lt hk))
    rw [elementTo?, hn]
    simp only [Option.isSome_none, Bool.false_eq_true, if_false]
    split
    · rfl
    · rw [List.isSome_findSome?, List.any_eq_true]
      exact ⟨c, hc, ih hm (Nat.lt_of_succ_lt_succ hk)⟩

end

/-- The element of each child is found. -/
theorem Sound.exists_elementOf? (h : Sound tree mark building orphan g) {t u : ScopeTemplate}
    {p : Option ScopeIndex} {node : NodeId} (ht : t.Fits tree g.program.scopeAttribute p)
    (hu : u ∈ t.children) (hmark : g.program.scopeAttribute ≠ Marker.clone)
    (hnode : g.host.document.attribute? node g.program.scopeAttribute = some (toString t.index)) :
    ∃ m, g.elementOf? u.index node = some m ∧
      g.host.document.attribute? m g.program.scopeAttribute = some (toString u.index) := by
  obtain ⟨hscope, -, -, -, -, hparts, -⟩ := ht
  have hmem : u.index ∈ tree.parts t.index := by
    rw [ScopeTree.parts, hscope]
    exact hparts u hu
  obtain ⟨c, hc, l, m, hopen, hl, hm⟩ := h.furnished hmark node t.index hnode u.index hmem
  have hsome : (g.elementOf? u.index node).isSome := by
    rw [elementOf?, List.isSome_findSome?, List.any_eq_true]
    exact ⟨c, hc, isSome_elementTo? hopen hm hl⟩
  obtain ⟨m', hm'⟩ := Option.isSome_iff_exists.1 hsome
  exact ⟨m', hm', (attribute?_of_elementOf? hm').1⟩

/-! ## Trees of scopes -/

/-- A child that was taken in has live instances for the aliases of those before and its own. -/
theorem Raised.aliased {u : ScopeTemplate} {p : Option ScopeId} {q : LiveScope}
    {done : List ScopeTemplate} (h : Raised g u p id g') (hdone : Aliased g q done)
    (hunique : ∀ v ∈ done, ∀ name, v.ownAlias = some name → u.ownAlias = some name →
      v.index = u.index) : Aliased g' (q.adopt u.ownAlias id) (done ++ [u]) := by
  obtain ⟨s, hs, htemplate, -⟩ := h.live
  have hself : id ∈ (q.adopt u.ownAlias id).children := by simp
  intro v hv name hname
  rcases List.mem_append.1 hv with hv | hv
  · by_cases hu : u.ownAlias = some name
    · refine ⟨id, s, ?_, hself, hs, ?_⟩
      · rw [hu, LiveScope.aliases_adopt_some]
        exact Keyed.lookup_insert_self ..
      · rw [htemplate]
        exact (hunique v hv name hname hu).symm
    · obtain ⟨c, w, hc, hmem, hw, hindex⟩ := hdone v hv name hname
      obtain ⟨w', hw', hgrown⟩ := h.grown.scope hw
      refine ⟨c, w', ?_, by simp [hmem], hw', by rw [hgrown.template, hindex]⟩
      rw [← hc]
      cases hother : u.ownAlias with
      | none => rfl
      | some other =>
        rw [LiveScope.aliases_adopt_some]
        refine Keyed.lookup_insert_of_ne ?_ ..
        rintro rfl
        exact hu hother
  · obtain rfl := List.mem_singleton.1 hv
    refine ⟨id, s, ?_, hself, hs, by rw [htemplate]⟩
    rw [hname, LiveScope.aliases_adopt_some]
    exact Keyed.lookup_insert_self ..

mutual

/-- Building a template gives a sound graph again. A copy is an orphan until its list takes it. -/
theorem Sound.instantiate (t : ScopeTemplate) {building orphan : ScopeId → Prop} {g : Graph}
    (h : Sound tree mark building orphan g) {parent : Option ScopeId} {node : NodeId}
    (hsite : Site tree building g t parent node) :
    ∃ id g', (t.instantiate builder parent node).run g = (id, g') ∧
      Sound tree mark building (fun k => orphan k ∨ g.seed.isSome ∧ k = id) g' ∧
      Raised g t parent id g' := by
  obtain ⟨index, ownAlias, values, events, children⟩ := t
  generalize ht : (⟨index, ownAlias, values, events, children⟩ : ScopeTemplate) = t at hsite ⊢
  obtain ⟨id, g₁, hrun₁, h₁, hraised₁⟩ := h.buildScope hsite
  obtain ⟨s₁, hs₁, htemplate₁, hparent₁, -⟩ := hraised₁.live
  obtain ⟨g₂, hrun₂, h₂, hwork₂, hfilled₂⟩ := h₁.buildValues (.inr rfl) hs₁ values <| by
    rw [htemplate₁, ← ht]
    exact fun w hw => hw
  obtain ⟨g₃, hrun₃, h₃, hwork₃⟩ := h₂.buildListeners id events
  have hraised₃ := (hraised₁.working hwork₂).working hwork₃
  obtain ⟨s₃, hs₃, htemplate₃, hparent₃, -⟩ := hraised₃.live
  have hnode : g₃.host.document.attribute? node g₃.program.scopeAttribute =
      some (toString s₃.template.index) := by
    rw [hraised₃.grown.host, hraised₃.grown.program, htemplate₃]
    exact hsite.marked
  obtain ⟨g', hrun', h', hwork', haliased'⟩ := Sound.instantiateAll children h₃ node (.inr rfl)
    hraised₃.seed hs₃ hnode [] (fun u hu => by cases hu) <| by
      rw [htemplate₃, ← ht]
      exact fun u hu => hu
  have hraised' := hraised₃.working hwork'
  refine ⟨id, g', ?_, h'.finish (fun k s hs hb hn => ?_) (fun _ _ _ _ _ ho => .inl ho), hraised'⟩
  · have hsteps : (t.instantiate builder parent node).run g =
        let made := (Graph.buildScope t parent node).run g
        let filled := (values.forM (ScopeTemplate.buildValue builder made.1)).run made.2
        let heard := (events.forM (buildListener made.1)).run filled.2
        (made.1, ((ScopeTemplate.instantiateAll builder made.1 node children).run heard.2).2) := by
      rw [← ht]
      rfl
    simp only [hsteps, hrun₁, hrun₂, hrun₃, hrun']
  · -- no other scope was completed
    obtain rfl : k = id := hb.resolve_left hn
    obtain ⟨s₂, hs₂, -⟩ := hwork₂.grown.scope hs₁
    obtain ⟨s', hs', htemplate', -⟩ := hraised'.live
    obtain rfl := Option.some.inj (hs.symm.trans hs')
    rw [htemplate', ← ht]
    refine ⟨?_, haliased' s hs⟩
    exact (hwork₃.trans hwork').filled s₂ s hs₂ hs values (hfilled₂ s₂ hs₂)

theorem Sound.instantiateAll (ts : List ScopeTemplate) {building orphan : ScopeId → Prop}
    {g : Graph} (h : Sound tree mark building orphan g) {id : ScopeId} {s : LiveScope} (node : NodeId)
    (hbuilding : building id) (hseed : g.seed = none) (hs : g.scopes.get? id = some s)
    (hnode : g.host.document.attribute? node g.program.scopeAttribute =
      some (toString s.template.index))
    (done : List ScopeTemplate) (hdone : Aliased g s done)
    (hts : ∀ u ∈ done ++ ts, u ∈ s.template.children) :
    ∃ g', (ScopeTemplate.instantiateAll builder id node ts).run g = ((), g') ∧
      Sound tree mark building orphan g' ∧ Working id g g' ∧
      ∀ s', g'.scopes.get? id = some s' → Aliased g' s' (done ++ ts) := by
  cases ts with
  | nil =>
    refine ⟨g, rfl, h, .refl id g, fun s' hs' => ?_⟩
    rw [hs] at hs'
    rw [← Option.some.inj hs', List.append_nil]
    exact hdone
  | cons u ts =>
    obtain ⟨p, hfits⟩ := h.exists_fits hs
    have hu : u ∈ s.template.children := hts u (by simp)
    have hscope := h.scope id s hs
    obtain ⟨m, helement, hm⟩ := h.exists_elementOf? hfits hu hscope.distinct hnode
    have hsite : Site tree building g u (some id) m := by
      obtain ⟨-, -, -, -, -, -, hchildren⟩ := hfits
      refine ⟨hscope.distinct, fun htop => (by cases htop), fun p hp => ?_, fun _ p hp => ?_, hm, fun hsome => ?_⟩
      · obtain rfl := Option.some.inj hp
        exact ⟨s, hs, hchildren u hu⟩
      · obtain rfl := Option.some.inj hp
        exact hbuilding
      · rw [hseed] at hsome
        cases hsome
    obtain ⟨c, g₁, hrun₁, h₁, hraised⟩ := Sound.instantiate u h hsite
    have horphans : Sound tree mark building orphan g₁ :=
      h₁.finish (fun _ _ _ hb hn => absurd hb hn) fun k t q _ _ ho => by
        rcases ho with ho | ⟨hsome, -⟩
        · exact .inl ho
        · rw [hseed] at hsome
          cases hsome
    have hs₁ := hraised.adopted hseed id s rfl hs
    have hwork₁ : Working id g g₁ := by
      refine ⟨hraised.grown, hraised.seed.trans hseed.symm, fun k t hk ht => ?_, ?_⟩
      · refine hraised.aside k t ht fun _ he => hk ?_
        exact (Option.some.inj he).symm
      · intro t t' ht ht' ws hws
        rw [hs] at ht
        rw [hs₁] at ht'
        obtain rfl := Option.some.inj ht
        obtain rfl := Option.some.inj ht'
        exact hws.grow hraised.grown
    have hdone₁ : Aliased g₁ (s.adopt u.ownAlias c) (done ++ [u]) := by
      refine hraised.aliased hdone fun v hv name hname hname' => ?_
      obtain ⟨-, -, -, -, haliases, -, -⟩ := hfits
      have hv' := (haliases name v.index).2 ⟨v, hts v (List.mem_append_left _ hv), rfl, hname⟩
      have hu' := (haliases name u.index).2 ⟨u, hu, rfl, hname'⟩
      rw [hv'] at hu'
      exact Option.some.inj hu'
    obtain ⟨g', hrun', h', hwork', hdone'⟩ := Sound.instantiateAll ts horphans node
      hbuilding hraised.seed hs₁ (by rw [hraised.grown.host, hraised.grown.program]; exact hnode)
      _ hdone₁ fun v hv => hts v (by simpa using hv)
    refine ⟨g', ?_, h', hwork₁.trans hwork', by simpa using hdone'⟩
    have hlocate : (builder.locate u.index node).run g = (some m, g) := by
      rw [← helement]
      rfl
    have hchild : (discard (ScopeTemplate.instantiate builder (some id) m u)).run g = ((), g₁) := by
      change ((), ((ScopeTemplate.instantiate builder (some id) m u).run g).2) = _
      rw [hrun₁]
    rw [ScopeTemplate.instantiateAll, StateT.run_bind, hlocate]
    change (ScopeTemplate.instantiateAll builder id node ts).run
      ((discard (ScopeTemplate.instantiate builder (some id) m u)).run g).2 = _
    rw [hchild, hrun']

end

end Graph

end ReactiveMarkup
