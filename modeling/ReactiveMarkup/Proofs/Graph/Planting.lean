import ReactiveMarkup.Proofs.Graph.Building
import ReactiveMarkup.Proofs.Graph.Keeps

/-!
# Planting keeps graphs sound

A copy of a scope is built like an original, and then its list takes it in. Its links lead to live
values, so none of them is reported.

Main results: `Graph.Standing.resolveLinks`, `Graph.Standing.plant`.
-/
namespace ReactiveMarkup.Graph

variable {tree : ScopeTree} {mark : String} {building orphan : ScopeId → Prop} {g : Graph}

/-- A sound graph in which nothing is under construction. -/
def Standing (tree : ScopeTree) (mark : String) (g : Graph) : Prop :=
  Sound tree mark (fun _ => False) (fun _ => False) g

/-! ## Links -/

/-- Making a link that leads somewhere. -/
theorem Standing.resolveLink (h : Standing tree mark g) (ht : tree.ParentsFirst) {l : PendingLink}
    (hl : ∃ s, g.scopes.get? l.scope = some s ∧ tree.Leads s.template.index l.path) :
    Standing tree mark ((Graph.resolveLink l).run g).2 ∧
      ((Graph.resolveLink l).run g).2.scopes = g.scopes ∧
      ((Graph.resolveLink l).run g).2.pendingLinks = g.pendingLinks := by
  obtain ⟨s, hs, hleads⟩ := hl
  obtain ⟨v, c, hv, -⟩ := Sound.resolve?_of_leads h (fun _ hb => hb) ht hs hleads
  unfold Graph.resolveLink
  rw [run_get_bind, hv]
  dsimp only
  split
  · refine ⟨h.congr rfl rfl rfl rfl rfl (fun d hd => ?_) fun l hl => .inl hl, rfl, rfl⟩
    rcases List.mem_append.1 hd with hd | hd
    · exact .inl hd
    · rw [List.mem_singleton.1 hd]
      exact .inr fun _ _ hd => by cases hd
  · refine ⟨?_, rfl, rfl⟩
    have hobserved := Sound.modifyCell h v
      (f := fun c => { c with observers := addNew l.observer c.observers }) fun _ => ⟨rfl, rfl⟩
    exact hobserved.modifyCell l.observer
      (f := fun c => { c with observing := addNew v c.observing }) fun _ => ⟨rfl, rfl⟩

theorem Standing.resolveLinks_forM (ht : tree.ParentsFirst) {links : List PendingLink}
    (h : Standing tree mark g)
    (hlinks : ∀ l ∈ links, ∃ s, g.scopes.get? l.scope = some s ∧
      tree.Leads s.template.index l.path) :
    Standing tree mark ((links.forM Graph.resolveLink).run g).2 ∧
      ((links.forM Graph.resolveLink).run g).2.pendingLinks = g.pendingLinks := by
  induction links generalizing g with
  | nil => exact ⟨h, rfl⟩
  | cons l links ih =>
    obtain ⟨h₁, hscopes, hpending⟩ := h.resolveLink ht (hlinks l (List.mem_cons_self ..))
    have hrest := ih h₁ fun m hm => by
      rw [hscopes]
      exact hlinks m (List.mem_cons_of_mem _ hm)
    exact ⟨hrest.1, hrest.2.trans hpending⟩

/-- Making the links that wait. All of them lead somewhere. -/
theorem Standing.resolveLinks (h : Standing tree mark g) (ht : tree.ParentsFirst) :
    Standing tree mark (Graph.resolveLinks.run g).2 ∧ (Graph.resolveLinks.run g).2.pendingLinks = [] := by
  have hcleared : Standing tree mark { g with pendingLinks := [] } :=
    Sound.congr h rfl rfl rfl rfl rfl (fun _ hd => .inl hd) fun l hl => by cases hl
  exact hcleared.resolveLinks_forM ht h.links

/-! ## Copies -/

/-- A list takes a younger copy of its scope in. -/
theorem Sound.adoptClone (h : Sound tree mark building orphan g) {scope c : ScopeId} {s t : LiveScope}
    (hs : g.scopes.get? scope = some s) (hc : g.scopes.get? c = some t) (hparent : t.parent = s.parent)
    (hcopy : t.cloneIndex.isSome) (hlt : scope.serial < c.serial) :
    Sound tree mark building orphan { g with
      scopes := g.scopes.modify scope fun q => { q with clones := q.clones ++ [c] } } := by
  have hgrown (q : LiveScope) : q.Grown { q with clones := q.clones ++ [c] } :=
    ⟨rfl, rfl, rfl, rfl, List.Subset.refl _, List.subset_append_left ..⟩
  refine h.modifyScope scope (fun q _ => hgrown q) fun q hq => ?_
  obtain rfl := Option.some.inj (hs.symm.trans hq)
  have hold := h.scope scope s hs
  exact {
    hold with
    known := by
      intro k hk
      rcases hk with hk | hk
      · exact hold.known k (.inl hk)
      · rcases List.mem_append.1 hk with hk | hk
        · exact hold.known k (.inr hk)
        · rw [List.mem_singleton.1 hk]
          exact Slots.serial_lt hc
    clone := by
      intro k hk u hu
      rcases List.mem_append.1 hk with hk | hk
      · exact hold.clone k hk u hu
      · rw [List.mem_singleton.1 hk] at hu ⊢
        obtain rfl := Option.some.inj (hc.symm.trans hu)
        exact ⟨hparent, hcopy, hlt⟩ }

/-- Planting a copy on an element that is marked as one. -/
theorem Standing.plant (h : Standing tree mark g) (ht : tree.ParentsFirst) {scope : ScopeId}
    {s : LiveScope} (hs : g.scopes.get? scope = some s) (place : Nat) (item : Value) (node : NodeId)
    (hmark : g.host.document.attribute? node g.program.scopeAttribute =
      some (toString s.template.index))
    (hclone : (g.host.document.attribute? node Marker.clone).isSome) :
    Standing tree mark ((Graph.plant scope s place item node).run g).2 ∧
      ((Graph.plant scope s place item node).run g).2.pendingLinks = [] := by
  have hscope := h.scope scope s hs
  have hseeded : Standing tree mark { g with seed := some (place, item) } :=
    Sound.congr h rfl rfl rfl rfl rfl (fun _ hd => .inl hd) fun l hl => .inl hl
  have hsite : Site tree (fun _ => False) { g with seed := some (place, item) } s.template s.parent
      node := by
    refine ⟨hscope.distinct, hscope.root, fun p hp => ?_, fun hseed => (by cases hseed), hmark, fun _ => hclone⟩
    obtain ⟨-, hq⟩ := hscope.parent p hp
    exact hq
  obtain ⟨id, g₁, hrun₁, h₁, hraised⟩ := Sound.instantiate s.template hseeded hsite
  have hlt : scope.serial < id.serial := Nat.lt_of_lt_of_le (Slots.serial_lt hs) hraised.fresh
  obtain ⟨t, hlive, htemplate, hparent, hindex⟩ := hraised.live
  have hs₁ := hraised.aside scope s hs fun hseed => by cases hseed
  have hunseeded : Sound tree mark (fun _ => False) (fun k => False ∨ _ ∧ k = id)
      { g₁ with seed := none } :=
    h₁.congr rfl rfl rfl rfl rfl (fun _ hd => .inl hd) fun l hl => .inl hl
  have htaken := hunseeded.adoptClone hs₁ hlive hparent (by rw [hindex]; rfl) hlt
  have hstanding : Standing tree mark { g₁ with
      seed := none
      scopes := g₁.scopes.modify scope fun q => { q with clones := q.clones ++ [id] } } := by
    refine htaken.finish (fun _ _ _ hb => hb.elim) fun k u p hu hp ho => ?_
    rcases ho with ho | ⟨-, rfl⟩
    · exact ho.elim
    · refine .inr (.inr ⟨scope, { s with clones := s.clones ++ [k] }, ?_, ?_, ?_⟩)
      · rw [Slots.get?_modify, if_pos rfl, hs₁]
        rfl
      · have hne : k ≠ scope := by
          rintro rfl
          exact Nat.lt_irrefl _ hlt
        rw [Slots.get?_modify, if_neg hne] at hu
        obtain rfl := Option.some.inj (hlive.symm.trans hu)
        exact hparent.symm.trans hp
      · exact List.mem_append_right _ (List.mem_singleton_self k)
  have hrun : (Graph.plant scope s place item node).run g = Graph.resolveLinks.run { g₁ with
      seed := none
      scopes := g₁.scopes.modify scope fun q => { q with clones := q.clones ++ [id] } } := by
    have hsteps : (Graph.plant scope s place item node).run g =
        let made := (s.template.instantiate builder s.parent node).run
          { g with seed := some (place, item) }
        Graph.resolveLinks.run { made.2 with
          seed := none
          scopes := made.2.scopes.modify scope fun q =>
            { q with clones := q.clones ++ [made.1] } } := rfl
    simp only [hsteps, hrun₁]
  rw [hrun]
  exact hstanding.resolveLinks ht

end ReactiveMarkup.Graph
