import ReactiveMarkup.Proofs.Graph.Removal

/-!
# The listeners of scopes

A scope that is built gets a listener for each event of its template, one after the other, and each of
them waits to be attached. Building values, making links and removing values have nothing to do with
that.

Main definitions: `Graph.Staffed`, `Graph.Enlisting`.
Main results: `Graph.Staffed.congr`, `Graph.Enlisting.instantiate_keeps`.
-/
namespace ReactiveMarkup

/-- What the listeners of a scope depend on, and which they are. -/
def LiveScope.staff (s : LiveScope) : ScopeTemplate × NodeId × List ListenerId :=
  (s.template, s.node, s.listeners)

/-- What the host listens for because of a listener. -/
def Listener.post? (l : Listener) : Option (NodeId × String) :=
  if l.attached then some (l.node, l.template.event) else none

namespace Graph

variable {base : List (NodeId × String)} {missing : ScopeId → List EventTemplate}
  {orphan : ListenerId → Prop} {I : Graph → Prop} {g g' : Graph}

/-- What the host listens for because of listeners. -/
def manned (g : Graph) : List (NodeId × String) := g.listeners.entries.filterMap fun e => e.2.post?

/-! ## Staff -/

/-- Graphs with the same listeners, and the same scopes as far as these are concerned. -/
structure SameStaff (g g' : Graph) : Prop where
  scope : ∀ k, (g'.scopes.get? k).map LiveScope.staff = (g.scopes.get? k).map LiveScope.staff
  listeners : g'.listeners = g.listeners
  pendingListeners : g'.pendingListeners = g.pendingListeners
  host : g'.host.listeners = g.host.listeners

namespace SameStaff

theorem of_eq (hscopes : g'.scopes = g.scopes) (hlisteners : g'.listeners = g.listeners)
    (hpending : g'.pendingListeners = g.pendingListeners)
    (hhost : g'.host.listeners = g.host.listeners) : SameStaff g g' :=
  ⟨fun _ => by rw [hscopes], hlisteners, hpending, hhost⟩

theorem modifyScope (g : Graph) (id : ScopeId) {f : LiveScope → LiveScope}
    (hf : ∀ s, (f s).staff = s.staff) : SameStaff g { g with scopes := g.scopes.modify id f } :=
  ⟨Slots.map_get?_modify g.scopes id hf, rfl, rfl, rfl⟩

end SameStaff

/-! ### Steps that have nothing to do with listeners -/

section

variable (hI : ∀ {g g' : Graph}, I g → SameStaff g g' → I g')
include hI

theorem keeps_of_same {f : Graph → Graph} (h : ∀ g, SameStaff g (f g)) :
    Keeps I (modify f : GraphM Unit) := .modify fun g hg => hI hg (h g)

theorem keeps_modifyCell (id : ValueId) (f : Cell → Cell) : Keeps I (modifyCell id f) :=
  keeps_of_same hI fun _ => .of_eq rfl rfl rfl rfl

theorem keeps_modifyScope (id : ScopeId) {f : LiveScope → LiveScope} (hf : ∀ s, (f s).staff = s.staff) :
    Keeps I (modifyScope id f) := keeps_of_same hI fun g => .modifyScope g id hf

theorem keeps_buildValue (scope : ScopeId) (v : ValueTemplate) :
    Keeps I (ScopeTemplate.buildValue builder scope v) := by
  have hvalue : Keeps I (buildValue scope v) := by
    intro g hg
    obtain ⟨c, g₁, -, -, -, -, hg₁, hrun⟩ := run_buildValue scope v g
    have hfirst : I g₁ := by
      rcases hg₁ with rfl | rfl
      · exact hg
      · exact hI hg (.modifyScope g scope fun _ => rfl)
    rw [hrun, run_addCell]
    have hadded : I { g₁ with
        values := (g₁.values.insert c).2, order := g₁.order ++ [(g₁.values.insert c).1] } :=
      hI hfirst (.of_eq rfl rfl rfl rfl)
    exact hI hadded (.modifyScope _ scope fun _ => rfl)
  exact hvalue.bind fun id => .forM fun path _ => keeps_of_same hI fun _ => .of_eq rfl rfl rfl rfl

theorem keeps_resolveLinks : Keeps I resolveLinks := by
  have hlink (l : PendingLink) : Keeps I (resolveLink l) := by
    unfold resolveLink
    refine .look fun g => ?_
    split
    · exact keeps_of_same hI fun _ => .of_eq rfl rfl rfl rfl
    · split
      · exact keeps_of_same hI fun _ => .of_eq rfl rfl rfl rfl
      · exact (keeps_modifyCell hI _ _).bind fun _ => keeps_modifyCell hI _ _
  unfold resolveLinks
  refine .look fun g => Keeps.bind (keeps_of_same hI fun _ => .of_eq rfl rfl rfl rfl) fun _ => ?_
  exact .forM fun l _ => hlink l

theorem keeps_removeValue (id : ValueId) : Keeps I (removeValue id) := by
  unfold removeValue
  refine .look fun g => ?_
  split
  · exact .pure _
  · refine Keeps.bind (keeps_of_same hI fun _ => .of_eq rfl rfl rfl rfl) fun _ => ?_
    refine Keeps.bind (.forM fun v _ => keeps_modifyCell hI v _) fun _ => ?_
    exact .forM fun v _ => keeps_modifyCell hI v _

theorem keeps_removeElement (node : NodeId) : Keeps I (removeElement node) :=
  .removeElement (fun _ _ hg => hI hg (.of_eq rfl rfl rfl rfl)) node

end

/-! ### Scopes with their listeners -/

/-- A listener is that of a scope on an element for an event. -/
def Serves (g : Graph) (scope : ScopeId) (node : NodeId) (k : ListenerId) (e : EventTemplate) : Prop :=
  ∃ attached, g.listeners.get? k = some ⟨scope, node, e, attached⟩

/-- A graph in which each live scope has one listener for each of its events, but for those that are
missing, and each listener has its scope, but for orphans, whose scope is gone. The host listens for
`base` whatever the scopes are. -/
structure Staffed (base : List (NodeId × String)) (missing : ScopeId → List EventTemplate)
    (orphan : ListenerId → Prop) (g : Graph) : Prop where
  nodup : ∀ id s, g.scopes.get? id = some s → s.listeners.Nodup
  serves : ∀ id s, g.scopes.get? id = some s → ∃ es, s.template.events = es ++ missing id ∧
    List.Forall₂ (g.Serves id s.node) s.listeners es
  home : ∀ k l, g.listeners.get? k = some l →
    orphan k ∨ ∃ s, g.scopes.get? l.scope = some s ∧ k ∈ s.listeners
  stray : ∀ k l, orphan k → g.listeners.get? k = some l → g.scopes.get? l.scope = none
  host : g.host.listeners.Perm (base ++ g.manned)

namespace Staffed

theorem congr (h : Staffed base missing orphan g) (hs : SameStaff g g') :
    Staffed base missing orphan g' := by
  have hback {id : ScopeId} {s' : LiveScope} (hs' : g'.scopes.get? id = some s') :
      ∃ s, g.scopes.get? id = some s ∧ s.template = s'.template ∧ s.node = s'.node ∧
        s.listeners = s'.listeners := by
    obtain ⟨s, hlive, hstaff⟩ := exists_of_map_eq (hs.scope id) hs'
    obtain ⟨htemplate, hstaff⟩ := Prod.mk.inj hstaff
    exact ⟨s, hlive, htemplate, Prod.mk.inj hstaff⟩
  refine ⟨fun id s' hs' => ?_, fun id s' hs' => ?_, fun k l hl => ?_, fun k l ho hl => ?_, ?_⟩
  · obtain ⟨s, hlive, -, -, hlisteners⟩ := hback hs'
    exact hlisteners ▸ h.nodup id s hlive
  · obtain ⟨s, hlive, htemplate, hnode, hlisteners⟩ := hback hs'
    obtain ⟨es, hes, hserves⟩ := h.serves id s hlive
    refine ⟨es, htemplate ▸ hes, hlisteners ▸ hnode ▸ hserves.imp fun k e => ?_⟩
    rw [Serves, Serves, hs.listeners]
    exact fun hk => hk
  · rw [hs.listeners] at hl
    rcases h.home k l hl with ho | ⟨s, hlive, hk⟩
    · exact .inl ho
    · obtain ⟨s', hs', hstaff⟩ := exists_of_map_eq (hs.scope l.scope).symm hlive
      exact .inr ⟨s', hs', (Prod.mk.inj (Prod.mk.inj hstaff).2).2 ▸ hk⟩
  · rw [hs.listeners] at hl
    have hnone := hs.scope l.scope
    rw [h.stray k l ho hl] at hnone
    exact Option.map_eq_none_iff.1 hnone
  · rw [manned, hs.listeners, hs.host]
    exact h.host

/-- A listener that a live scope has is found, and belongs to that scope. -/
theorem scope_eq (h : Staffed base missing orphan g) {id : ScopeId} {s : LiveScope}
    (hs : g.scopes.get? id = some s) {k : ListenerId} (hk : k ∈ s.listeners) :
    ∃ l, g.listeners.get? k = some l ∧ l.scope = id := by
  obtain ⟨es, -, hserves⟩ := h.serves id s hs
  obtain ⟨e, -, attached, hl⟩ := exists_mem_of_forall₂_left hserves hk
  exact ⟨_, hl, rfl⟩

end Staffed

/-! ## Building -/

/-- The events that are still missing where one scope is under construction. -/
def owing (scope : ScopeId) (es : List EventTemplate) (id : ScopeId) : List EventTemplate :=
  if id = scope then es else []

@[simp] theorem owing_nil (scope : ScopeId) : owing scope [] = fun _ => [] := by
  funext id
  simp [owing]

/-- A graph with one more listener, which its scope is told of and which waits to be attached. -/
def withListener (g : Graph) (l : Listener) : Graph :=
  { g with
    listeners := (g.listeners.insert l).2
    pendingListeners := g.pendingListeners ++ [(g.listeners.insert l).1]
    scopes := g.scopes.modify l.scope fun s =>
      { s with listeners := s.listeners ++ [(g.listeners.insert l).1] } }

theorem run_buildListener (scope : ScopeId) (e : EventTemplate) (g : Graph) :
    ((buildListener scope e).run g).2 =
      match g.scopes.get? scope with
      | none => g
      | some s => g.withListener ⟨scope, s.node, e, false⟩ := by
  rw [buildListener, run_get_bind, scopeNode?]
  cases g.scopes.get? scope <;> rfl

/-- A graph in which listeners that are not attached wait for that. -/
structure Enlisting (base : List (NodeId × String)) (missing : ScopeId → List EventTemplate)
    (g : Graph) : Prop extends Staffed base missing (fun _ => False) g where
  waiting : ∀ k l, g.listeners.get? k = some l → l.attached = false → k ∈ g.pendingListeners

namespace Enlisting

theorem congr (h : Enlisting base missing g) (hs : SameStaff g g') : Enlisting base missing g' where
  toStaffed := h.toStaffed.congr hs
  waiting k l hl hk := by
    rw [hs.listeners] at hl
    rw [hs.pendingListeners]
    exact h.waiting k l hl hk

/-- A new scope misses all its listeners. -/
theorem insertScope (h : Enlisting base (fun _ => []) g) {s : LiveScope} (hs : s.listeners = [])
    (seed : Option (Nat × Value)) :
    Enlisting base (owing (g.scopes.insert s).1 s.template.events)
      { g with scopes := (g.scopes.insert s).2, seed } := by
  have hcases {id : ScopeId} {t : LiveScope} (ht : (g.scopes.insert s).2.get? id = some t) :
      id = (g.scopes.insert s).1 ∧ t = s ∨ id ≠ (g.scopes.insert s).1 ∧ g.scopes.get? id = some t := by
    rw [Slots.get?_insert] at ht
    split at ht
    · rename_i hid
      exact .inl ⟨hid, (Option.some.inj ht).symm⟩
    · rename_i hid
      exact .inr ⟨hid, ht⟩
  refine { h with nodup := ?_, serves := ?_, home := ?_, stray := fun _ _ ho => ho.elim }
  · intro id t ht
    rcases hcases ht with ⟨-, rfl⟩ | ⟨-, ht⟩
    · rw [hs]
      exact .nil
    · exact h.nodup id t ht
  · intro id t ht
    rcases hcases ht with ⟨rfl, rfl⟩ | ⟨hid, ht⟩
    · rw [hs, owing, if_pos rfl]
      exact ⟨[], rfl, .nil⟩
    · rw [owing, if_neg hid]
      exact h.serves id t ht
  · intro k l hl
    obtain ⟨t, ht, hk⟩ := (h.home k l hl).resolve_left id
    exact .inr ⟨t, Slots.get?_insert_of_some ht s, hk⟩

/-- A scope is built without listeners. -/
theorem buildScope (h : Enlisting base (fun _ => []) g) (t : ScopeTemplate) (parent : Option ScopeId)
    (node : NodeId) :
    Enlisting base (owing ((Graph.buildScope t parent node).run g).1 t.events)
      ((Graph.buildScope t parent node).run g).2 := by
  refine of_buildScope (P := fun id g => Enlisting base (owing id t.events) g) t parent node ?_
    fun p c h => ?_
  · exact h.insertScope (s := .newborn t parent node g.seed) rfl none
  · exact h.congr (.modifyScope _ p fun _ => rfl)

/-- A scope has one more listener, which waits to be attached. -/
theorem addListener {scope : ScopeId} {s : LiveScope} {e : EventTemplate} {es : List EventTemplate}
    (h : Enlisting base (owing scope (e :: es)) g) (hs : g.scopes.get? scope = some s) :
    Enlisting base (owing scope es) (g.withListener ⟨scope, s.node, e, false⟩) := by
  obtain ⟨l, hl⟩ : ∃ l, l = (⟨scope, s.node, e, false⟩ : Listener) := ⟨_, rfl⟩
  have hnew : g.listeners.get? (g.listeners.insert l).1 = none := Slots.get?_insert_key l _
  have hself : (g.listeners.insert l).2.get? (g.listeners.insert l).1 = some l :=
    Slots.get?_insert_self l _
  have hcases {j : ListenerId} {m : Listener} (hm : (g.listeners.insert l).2.get? j = some m) :
      j = (g.listeners.insert l).1 ∧ m = l ∨ g.listeners.get? j = some m := Slots.of_get?_insert hm
  have hkeep {j : ListenerId} {m : Listener} (hm : g.listeners.get? j = some m) :
      (g.listeners.insert l).2.get? j = some m := Slots.get?_insert_of_some hm l
  have hentries := Slots.entries_insert l g.listeners
  have hscope : l.scope = scope := by rw [hl]
  rw [← hl, withListener, hscope]
  generalize (g.listeners.insert l).1 = k at *
  generalize (g.listeners.insert l).2 = listeners at *
  generalize hf : (fun s : LiveScope => { s with listeners := s.listeners ++ [k] }) = f
  have hfs : f s = { s with listeners := s.listeners ++ [k] } := by rw [← hf]
  have hscopes (id : ScopeId) : (g.scopes.modify scope f).get? id =
      if id = scope then some (f s) else g.scopes.get? id := by
    rw [Slots.get?_modify, hs]
    rfl
  have hserve {id : ScopeId} {node : NodeId} {j : ListenerId} {d : EventTemplate}
      (hj : g.Serves id node j d) : ∃ attached, listeners.get? j = some ⟨id, node, d, attached⟩ :=
    hj.imp fun _ => hkeep
  exact {
    nodup := by
      intro id t ht
      rw [hscopes] at ht
      split at ht
      · rw [← Option.some.inj ht, hfs]
        refine List.nodup_append.2 ⟨h.nodup scope s hs, List.nodup_singleton k, ?_⟩
        -- the new listener was not found before
        intro j hj i hi
        obtain ⟨m, hm, -⟩ := h.scope_eq hs hj
        rintro rfl
        rw [List.mem_singleton.1 hi, hnew] at hm
        cases hm
      · exact h.nodup id t ht
    serves := by
      intro id t ht
      rw [hscopes] at ht
      split at ht
      · rename_i hid
        obtain ⟨ds, hds, hserves⟩ := h.serves scope s hs
        rw [owing, if_pos rfl] at hds
        rw [← Option.some.inj ht, hfs, hid, owing, if_pos rfl]
        refine ⟨ds ++ [e], by simpa using hds, ?_⟩
        refine List.rel_append (hserves.imp fun _ _ => hserve) (.cons ⟨false, ?_⟩ .nil)
        rw [hself, hl]
      · rename_i hid
        obtain ⟨ds, hds, hserves⟩ := h.serves id t ht
        rw [owing, if_neg hid] at hds
        rw [owing, if_neg hid]
        exact ⟨ds, hds, hserves.imp fun _ _ => hserve⟩
    home := by
      intro j m hm
      rw [hscopes]
      rcases hcases hm with ⟨rfl, rfl⟩ | hm
      · refine .inr ⟨f s, if_pos hscope, ?_⟩
        rw [hfs]
        exact List.mem_append_right _ (List.mem_singleton_self _)
      · obtain ⟨t, ht, hj⟩ := (h.home j m hm).resolve_left id
        refine .inr ?_
        split
        · rename_i hid
          rw [hid, hs] at ht
          obtain rfl := Option.some.inj ht
          rw [hfs]
          exact ⟨_, rfl, List.mem_append_left _ hj⟩
        · exact ⟨t, ht, hj⟩
    stray := fun _ _ ho => ho.elim
    host := by
      have hpost : l.post? = none := by rw [hl]; rfl
      refine h.host.trans (List.Perm.append_left base ?_)
      rw [manned, manned]
      simpa [hpost] using (hentries.filterMap fun e => e.2.post?).symm
    waiting := by
      intro j m hm hattached
      rcases hcases hm with ⟨rfl, -⟩ | hm
      · exact List.mem_append_right _ (List.mem_singleton_self _)
      · exact List.mem_append_left _ (h.waiting j m hm hattached) }

/-- A scope gets the first of the listeners that are missing. Where it is not live, none is. -/
theorem buildListener {scope : ScopeId} {e : EventTemplate} {es : List EventTemplate}
    (h : Enlisting base (owing scope (e :: es)) g) :
    Enlisting base (owing scope es) ((Graph.buildListener scope e).run g).2 := by
  rw [run_buildListener]
  cases hs : g.scopes.get? scope with
  | some s => exact h.addListener hs
  | none =>
    refine { h with serves := fun id s hlive => ?_ }
    have hne : id ≠ scope := by
      rintro rfl
      rw [hs] at hlive
      cases hlive
    obtain ⟨ds, hds, hserves⟩ := h.serves id s hlive
    rw [owing, if_neg hne] at hds
    rw [owing, if_neg hne]
    exact ⟨ds, hds, hserves⟩

/-- A scope gets all the listeners that are missing. -/
theorem buildListeners {scope : ScopeId} (es : List EventTemplate)
    (h : Enlisting base (owing scope es) g) :
    Enlisting base (fun _ => []) ((es.forM (Graph.buildListener scope)).run g).2 := by
  induction es generalizing g with
  | nil =>
    rw [owing_nil] at h
    exact h
  | cons e es ih => exact ih h.buildListener

mutual

theorem instantiate_keeps (parent : Option ScopeId) (node : NodeId) :
    ∀ t : ScopeTemplate, Keeps (Enlisting base fun _ => []) (t.instantiate builder parent node)
  | ⟨index, ownAlias, values, events, children⟩ => by
    intro g hg
    have hscope := hg.buildScope ⟨index, ownAlias, values, events, children⟩ parent node
    rw [ScopeTemplate.instantiate]
    have hvalues (scope : ScopeId) : Keeps (Enlisting base (owing scope events))
        (values.forM (ScopeTemplate.buildValue builder scope)) :=
      .forM fun v _ => keeps_buildValue congr scope v
    have hlisteners := (hvalues _ _ hscope).buildListeners events
    have hrest (scope : ScopeId) : Keeps (Enlisting base fun _ => []) (do
        ScopeTemplate.instantiateAll builder scope node children
        return scope) :=
      (instantiateAll_keeps scope node children).bind fun _ => .pure _
    exact hrest _ _ hlisteners

theorem instantiateAll_keeps (parent : ScopeId) (within : NodeId) :
    ∀ ts : List ScopeTemplate, Keeps (Enlisting base fun _ => [])
      (ScopeTemplate.instantiateAll builder parent within ts)
  | [] => .pure _
  | t :: ts => by
    rw [ScopeTemplate.instantiateAll]
    have hrest := instantiateAll_keeps parent within ts
    refine Keeps.bind (m := builder.locate t.index within) (.look fun g => .pure _) fun node => ?_
    cases node with
    | some node => exact (instantiate_keeps (some parent) node t).discard.bind fun _ => hrest
    | none => exact hrest

end

end Enlisting

end Graph

end ReactiveMarkup
