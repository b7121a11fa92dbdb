import ReactiveMarkup.Proofs.Graph.Building
import ReactiveMarkup.Proofs.Graph.Keeps

/-!
# The names of values

A scope is built from a template under a parent, and is told the names of its values while it is built.
From then on it keeps all that as long as it is live: building other scopes, making links and removing
scopes change nothing about it. A scope that is gone does not come back.

Main definitions: `ScopeRecord`, `Graph.Scopewise`, `Graph.Lasting`, `Graph.Naming`.
Main results: `Graph.naming_invariant`.
-/
namespace ReactiveMarkup

/-- What a scope is built as. -/
structure ScopeRecord where
  template : ScopeTemplate
  parent : Option ScopeId
  values : List (String × ValueId)

/-- What a live scope was built as. -/
def LiveScope.record (s : LiveScope) : ScopeRecord := ⟨s.template, s.parent, s.values⟩

namespace Graph

variable {scope : ScopeId} {p : ScopeRecord → Prop} {I : Graph → Prop} {g g' : Graph}

/-! ## Steps that leave scopes alone -/

/-- A property that depends on the scopes alone. -/
def Scopewise (I : Graph → Prop) : Prop := ∀ {g g' : Graph}, I g → g'.scopes = g.scopes → I g'

namespace Scopewise

variable (hI : Scopewise I)
include hI

theorem modify_keeps {f : Graph → Graph} (h : ∀ g, (f g).scopes = g.scopes) :
    Keeps I (modify f : GraphM Unit) := .modify fun g hg => hI hg (h g)

theorem modifyCell_keeps (id : ValueId) (f : Cell → Cell) : Keeps I (modifyCell id f) :=
  hI.modify_keeps fun _ => rfl

theorem resolveLinks_keeps : Keeps I resolveLinks := by
  have hlink (l : PendingLink) : Keeps I (resolveLink l) := by
    unfold resolveLink
    refine .look fun g => ?_
    split
    · exact hI.modify_keeps fun _ => rfl
    · split
      · exact hI.modify_keeps fun _ => rfl
      · exact (hI.modifyCell_keeps _ _).bind fun _ => hI.modifyCell_keeps _ _
  unfold resolveLinks
  exact .look fun g => Keeps.bind (hI.modify_keeps fun _ => rfl) fun _ => .forM fun l _ => hlink l

theorem attachListeners_keeps : Keeps I attachListeners := by
  have hattach (id : ListenerId) : Keeps I (attachListener id) := by
    unfold attachListener
    refine .look fun g => ?_
    split
    · exact .pure _
    · split
      · exact hI.modify_keeps fun _ => rfl
      · exact .pure _
  unfold attachListeners
  exact .look fun g => Keeps.bind (hI.modify_keeps fun _ => rfl) fun _ => .forM fun l _ => hattach l

theorem linked_keeps : Keeps I (resolveLinks >>= fun _ => attachListeners) :=
  hI.resolveLinks_keeps.bind fun _ => hI.attachListeners_keeps

theorem removeValue_keeps (id : ValueId) : Keeps I (removeValue id) := by
  unfold removeValue
  refine .look fun g => ?_
  split
  · exact .pure _
  · refine Keeps.bind (hI.modify_keeps fun _ => rfl) fun _ => ?_
    refine Keeps.bind (.forM fun v _ => hI.modifyCell_keeps v _) fun _ => ?_
    exact .forM fun v _ => hI.modifyCell_keeps v _

theorem removeListener_keeps (id : ListenerId) : Keeps I (removeListener id) := by
  unfold removeListener
  refine .look fun g => ?_
  split
  · exact .pure _
  · refine Keeps.bind (hI.modify_keeps fun _ => rfl) fun _ => ?_
    split
    · exact hI.modify_keeps fun _ => rfl
    · exact .pure _

theorem removeElement_keeps (node : NodeId) : Keeps I (removeElement node) :=
  .removeElement (fun _ _ hg => hI hg rfl) node

end Scopewise

/-! ## Steps that remove scopes -/

/-- A property of the scopes that lasts when scopes are removed, and when a scope gets or loses copies and
listeners. -/
structure Lasting (I : Graph → Prop) : Prop where
  scopewise : Scopewise I
  modifyScope : ∀ {g} (id : ScopeId) {f : LiveScope → LiveScope},
    (∀ s, ∃ clones listeners, f s = { s with clones, listeners }) → I g →
      I { g with scopes := g.scopes.modify id f }
  eraseScope : ∀ {g} (id : ScopeId), I g → I { g with scopes := g.scopes.erase id }

namespace Lasting

variable (hI : Lasting I)
include hI

theorem modify_keeps {f : Graph → Graph} (h : ∀ g, (f g).scopes = g.scopes) :
    Keeps I (modify f : GraphM Unit) := Scopewise.modify_keeps @hI.scopewise h

theorem modifyScope_keeps (id : ScopeId) {f : LiveScope → LiveScope}
    (hf : ∀ s, ∃ clones listeners, f s = { s with clones, listeners }) :
    Keeps I (Graph.modifyScope id f) := .modify fun _ hg => hI.modifyScope id hf hg

theorem buildListener_keeps (id : ScopeId) (e : EventTemplate) : Keeps I (buildListener id e) := by
  unfold buildListener
  refine .look fun g => ?_
  split
  · exact .pure _
  · refine .look fun g => Keeps.bind (hI.modify_keeps fun _ => rfl) fun _ => ?_
    exact hI.modifyScope_keeps _ fun _ => ⟨_, _, rfl⟩

theorem destroyTo_keeps (room : Nat) (id : ScopeId) : Keeps I (destroyTo room id) := by
  induction room generalizing id with
  | zero => exact .pure _
  | succ room ih =>
    rw [destroyTo]
    refine .look fun g => ?_
    split
    · exact .pure _
    · refine Keeps.bind (m := modify _) (.modify fun g hg => hI.eraseScope id hg) fun _ => ?_
      refine Keeps.bind (.forM fun c _ => ih c) fun _ => ?_
      refine Keeps.bind (.forM fun v _ => Scopewise.removeValue_keeps @hI.scopewise v.2) fun _ => ?_
      exact .forM fun l _ => Scopewise.removeListener_keeps @hI.scopewise l

theorem trim_keeps (list : ScopeId) (keep : Nat) : Keeps I (trim list keep) := by
  have hremove (clone : ScopeId) : Keeps I (removeClone clone) := by
    unfold removeClone
    refine .look fun g => Keeps.bind (.look fun g => hI.destroyTo_keeps _ _) fun _ => ?_
    split
    · exact Scopewise.removeElement_keeps @hI.scopewise _
    · exact .pure _
  unfold trim
  refine .look fun g => Keeps.bind (hI.modifyScope_keeps _ fun _ => ⟨_, _, rfl⟩) fun _ => ?_
  split
  · refine Keeps.bind (.forM fun c _ => hremove c) fun _ => ?_
    exact hI.modify_keeps fun _ => rfl
  · exact .pure _

end Lasting

/-! ## What a scope was built as -/

/-- A scope that was built satisfies `p`, as long as it is live. -/
structure Naming (scope : ScopeId) (p : ScopeRecord → Prop) (g : Graph) : Prop where
  built : scope.serial < g.scopes.next
  record : ∀ s, g.scopes.get? scope = some s → p s.record

namespace Naming

theorem scopewise : Scopewise (Naming scope p) := fun h hscopes =>
  ⟨hscopes ▸ h.built, hscopes ▸ h.record⟩

/-- A scope that is not live is gone for good. -/
theorem gone (h : Naming scope p g) (hnone : g.scopes.get? scope = none) :
    Naming scope (fun _ => False) g := by
  refine ⟨h.built, fun s hs => ?_⟩
  rw [hnone] at hs
  cases hs

theorem modifyScope (h : Naming scope p g) {id : ScopeId} {f : LiveScope → LiveScope}
    (hf : id ≠ scope ∨ ∀ s, (f s).record = s.record) :
    Naming scope p { g with scopes := g.scopes.modify id f } := by
  refine ⟨h.built, fun s hs => ?_⟩
  rw [Slots.get?_modify] at hs
  split at hs
  · rename_i hid
    obtain ⟨t, ht, rfl⟩ := Option.map_eq_some_iff.1 hs
    rw [hf.resolve_left fun hne => hne hid.symm]
    exact h.record t (hid ▸ ht)
  · exact h.record s hs

/-- A new scope is another one. -/
theorem insertScope (h : Naming scope p g) (s : LiveScope) (seed : Option (Nat × Value)) :
    (g.scopes.insert s).1 ≠ scope ∧
      Naming scope p { g with scopes := (g.scopes.insert s).2, seed } := by
  have hne : (g.scopes.insert s).1 ≠ scope := by
    rintro hid
    have hlt := h.built
    rw [← hid, Slots.insert_serial] at hlt
    exact Nat.lt_irrefl _ hlt
  refine ⟨hne, ?_, fun t ht => ?_⟩
  · change scope.serial < (g.scopes.insert s).2.next
    rw [Slots.next_insert]
    exact Nat.lt_succ_of_lt h.built
  · rw [Slots.get?_insert, if_neg hne.symm] at ht
    exact h.record t ht

/-- What a scope was built as lasts while others are removed. -/
theorem lasting : Lasting (Naming scope p) where
  scopewise := scopewise
  modifyScope _ _ hf h := h.modifyScope (.inr fun s => by
    obtain ⟨_, _, heq⟩ := hf s
    rw [heq]
    rfl)
  eraseScope {g} id h := by
    refine ⟨?_, fun s hs => ?_⟩
    · change scope.serial < (g.scopes.erase id).next
      rw [Slots.next_erase]
      exact h.built
    · rw [Slots.get?_erase] at hs
      split at hs
      · cases hs
      · exact h.record s hs

/-! ### Building -/

theorem buildScope (h : Naming scope p g) (t : ScopeTemplate) (parent : Option ScopeId)
    (node : NodeId) : ((Graph.buildScope t parent node).run g).1 ≠ scope ∧
      Naming scope p ((Graph.buildScope t parent node).run g).2 := by
  refine of_buildScope (P := fun id g => id ≠ scope ∧ Naming scope p g) t parent node ?_ fun q c h => ?_
  · exact h.insertScope _ none
  · exact ⟨h.1, h.2.modifyScope (.inr fun _ => rfl)⟩

/-- Values are named in the scope under construction. -/
theorem buildValue_keeps {id : ScopeId} (hid : id ≠ scope) (v : ValueTemplate) :
    Keeps (Naming scope p) (ScopeTemplate.buildValue builder id v) := by
  have hvalue : Keeps (Naming scope p) (Graph.buildValue id v) := by
    intro g hg
    obtain ⟨c, g₁, -, -, -, -, hg₁, hrun⟩ := run_buildValue id v g
    have hfirst : Naming scope p g₁ := by
      rcases hg₁ with rfl | rfl
      · exact hg
      · exact hg.modifyScope (.inl hid)
    rw [hrun, run_addCell]
    have hadded : Naming scope p { g₁ with
        values := (g₁.values.insert c).2, order := g₁.order ++ [(g₁.values.insert c).1] } :=
      scopewise hfirst rfl
    exact hadded.modifyScope (.inl hid)
  exact hvalue.bind fun v => .forM fun path _ => scopewise.modify_keeps fun _ => rfl

mutual

theorem instantiate_keeps (parent : Option ScopeId) (node : NodeId) :
    ∀ t : ScopeTemplate, Keeps (Naming scope p) (t.instantiate builder parent node)
  | ⟨index, ownAlias, values, events, children⟩ => by
    intro g hg
    obtain ⟨hne, hbuilt⟩ := hg.buildScope ⟨index, ownAlias, values, events, children⟩ parent node
    have hrest {id : ScopeId} (hid : id ≠ scope) : Keeps (Naming scope p) (do
        values.forM (ScopeTemplate.buildValue builder id)
        events.forM (buildListener id)
        ScopeTemplate.instantiateAll builder id node children
        return id) := by
      refine Keeps.bind (.forM fun v _ => buildValue_keeps hid v) fun _ => ?_
      refine Keeps.bind (.forM fun e _ => lasting.buildListener_keeps id e) fun _ => ?_
      exact (instantiateAll_keeps id node children).bind fun _ => .pure _
    rw [ScopeTemplate.instantiate]
    exact hrest hne _ hbuilt

theorem instantiateAll_keeps (parent : ScopeId) (within : NodeId) :
    ∀ ts : List ScopeTemplate,
      Keeps (Naming scope p) (ScopeTemplate.instantiateAll builder parent within ts)
  | [] => .pure _
  | t :: ts => by
    rw [ScopeTemplate.instantiateAll]
    have hrest := instantiateAll_keeps parent within ts
    refine Keeps.bind (m := builder.locate t.index within) (.look fun g => .pure _) fun node => ?_
    cases node with
    | some node => exact (instantiate_keeps (some parent) node t).discard.bind fun _ => hrest
    | none => exact hrest

end

theorem plant_keeps (list : ScopeId) (s : LiveScope) (place : Nat) (item : Value) (node : NodeId) :
    Keeps (Naming scope p) (plant list s place item node >>= fun _ => attachListeners) := by
  have hplant : Keeps (Naming scope p) (plant list s place item node) := by
    unfold plant
    refine Keeps.bind (scopewise.modify_keeps fun _ => rfl) fun _ => ?_
    refine (instantiate_keeps s.parent node s.template).bind fun clone => ?_
    refine Keeps.bind (scopewise.modify_keeps fun _ => rfl) fun _ => ?_
    exact Keeps.bind (lasting.modifyScope_keeps _ fun _ => ⟨_, _, rfl⟩) fun _ =>
      scopewise.resolveLinks_keeps
  exact hplant.bind fun _ => scopewise.attachListeners_keeps

end Naming

/-- A scope that was built stays what it was built as, in every kind of step. -/
theorem naming_invariant : Invariant (fun _ => True) (Naming scope p) where
  quiet h hq := Naming.scopewise h hq.scopes
  kinds _ _ := trivial
  revised h _ := Naming.scopewise h rfl
  shown h _ _ := Naming.scopewise h rfl
  sent _ _ _ h _ := Naming.scopewise h rfl
  answered h _ := ⟨Naming.scopewise h rfl, fun _ _ _ _ _ => Naming.scopewise h rfl⟩
  adopted item h _ _ := Naming.plant_keeps _ _ _ item _ _ h
  copied {g list s} place item h _ := by
    have hcopied := Keeps.copyElement (fun _ hg => Naming.scopewise hg rfl) s.node place g h
    generalize (copyElement s.node place).run.run g = u at hcopied ⊢
    obtain ⟨result, g'⟩ := u
    cases result with
    | ok node => exact Naming.plant_keeps list s place item node g' hcopied
    | error e => exact hcopied
  trimmed := Naming.lasting.trim_keeps
  swept _ := .look fun _ => .forM fun n _ => Naming.scopewise.removeElement_keeps n

end Graph

end ReactiveMarkup
