import ReactiveMarkup.Proofs.Graph.Planting
import ReactiveMarkup.Proofs.Graph.Rendering

/-!
# Removing copies keeps graphs sound

Removing scopes takes away everything that was built under them, and nothing else: what stays has
its parent, its owner, its children and its values. So a list may drop copies at any time.

Main definitions: `Graph.Holds`, `Graph.Pruned`, `Graph.Shed`.
Main results: `Graph.destroyTo_shed`, `Graph.Sound.shed`, `Graph.trim_pruned`, `Graph.Standing.trim`.
-/
namespace ReactiveMarkup

/-- A cell with perhaps fewer links. -/
structure Cell.Unlinked (c c' : Cell) : Prop where
  template : c'.template = c.template
  scope : c'.scope = c.scope

namespace Graph

variable {tree : ScopeTree} {mark : String} {building orphan : ScopeId → Prop} {g g' g'' : Graph}

/-! ## Values and listeners -/

/-- A graph with the same scopes that has lost some values, all of them in `vs`. -/
structure Lighter (vs : List ValueId) (g g' : Graph) : Prop where
  document : g'.host.document = g.host.document
  program : g'.program = g.program
  options : g'.options = g.options
  scopes : g'.scopes = g.scopes
  requests : g'.requests = g.requests
  diagnostics : g'.diagnostics = g.diagnostics
  pendingLinks : g'.pendingLinks = g.pendingLinks
  pendingListeners : g'.pendingListeners = g.pendingListeners
  order : g'.order = g.order
  values_next : g'.values.next = g.values.next
  cell : ∀ v c, g.values.get? v = some c →
    v ∈ vs ∨ ∃ c', g'.values.get? v = some c' ∧ c.Unlinked c'
  cell_old : ∀ v c', g'.values.get? v = some c' → ∃ c, g.values.get? v = some c ∧ c.Unlinked c'

namespace Lighter

variable {vs ws : List ValueId}

theorem refl (g : Graph) : Lighter [] g g where
  document := rfl
  program := rfl
  options := rfl
  scopes := rfl
  requests := rfl
  diagnostics := rfl
  pendingLinks := rfl
  pendingListeners := rfl
  order := rfl
  values_next := rfl
  cell _ c hc := .inr ⟨c, hc, rfl, rfl⟩
  cell_old _ c hc := ⟨c, hc, rfl, rfl⟩

theorem trans (h : Lighter vs g g') (h' : Lighter ws g' g'') : Lighter (vs ++ ws) g g'' where
  document := h'.document.trans h.document
  program := h'.program.trans h.program
  options := h'.options.trans h.options
  scopes := h'.scopes.trans h.scopes
  requests := h'.requests.trans h.requests
  diagnostics := h'.diagnostics.trans h.diagnostics
  pendingLinks := h'.pendingLinks.trans h.pendingLinks
  pendingListeners := h'.pendingListeners.trans h.pendingListeners
  order := h'.order.trans h.order
  values_next := h'.values_next.trans h.values_next
  cell v c hc := by
    rcases h.cell v c hc with hv | ⟨c', hc', hu⟩
    · exact .inl (List.mem_append_left _ hv)
    · rcases h'.cell v c' hc' with hv | ⟨c'', hc'', hu'⟩
      · exact .inl (List.mem_append_right _ hv)
      · exact .inr ⟨c'', hc'', hu'.template.trans hu.template, hu'.scope.trans hu.scope⟩
  cell_old v c'' hc'' := by
    obtain ⟨c', hc', hu'⟩ := h'.cell_old v c'' hc''
    obtain ⟨c, hc, hu⟩ := h.cell_old v c' hc'
    exact ⟨c, hc, hu'.template.trans hu.template, hu'.scope.trans hu.scope⟩

/-- Changing the links of a cell. -/
theorem modifyCell (g : Graph) (v : ValueId) {f : Cell → Cell} (hf : ∀ c : Cell, c.Unlinked (f c)) :
    Lighter [] g { g with values := g.values.modify v f } where
  document := rfl
  program := rfl
  options := rfl
  scopes := rfl
  requests := rfl
  diagnostics := rfl
  pendingLinks := rfl
  pendingListeners := rfl
  order := rfl
  values_next := rfl
  cell w c hc := by
    rw [Slots.get?_modify]
    split
    · rename_i hw
      rw [hw] at hc
      exact .inr ⟨f c, by rw [hc]; rfl, hf c⟩
    · exact .inr ⟨c, hc, rfl, rfl⟩
  cell_old w c' hc' := by
    rw [Slots.get?_modify] at hc'
    split at hc'
    · rename_i hw
      obtain ⟨c, hc, rfl⟩ := Option.map_eq_some_iff.1 hc'
      exact ⟨c, hw ▸ hc, hf c⟩
    · exact ⟨c', hc', rfl, rfl⟩

/-- Changing the links of several cells. -/
theorem forM_modifyCell (ws : List ValueId) {f : Cell → Cell} (hf : ∀ c : Cell, c.Unlinked (f c))
    (g : Graph) : Lighter [] g ((ws.forM fun w => Graph.modifyCell w f).run g).2 := by
  induction ws generalizing g with
  | nil => exact .refl g
  | cons w ws ih => exact (modifyCell g w hf).trans (ih { g with values := g.values.modify w f })

/-- Steps that each lose values of their own. -/
theorem forM {α : Type} {step : α → GraphM PUnit} (lost : α → List ValueId) (xs : List α)
    (hstep : ∀ x ∈ xs, ∀ g, Lighter (lost x) g ((step x).run g).2) (g : Graph) :
    Lighter (xs.flatMap lost) g ((xs.forM step).run g).2 := by
  induction xs generalizing g with
  | nil => exact .refl g
  | cons x xs ih =>
    exact (hstep x (List.mem_cons_self ..) g).trans
      (ih (fun y hy => hstep y (List.mem_cons_of_mem _ hy)) _)

end Lighter

/-- After its cell, a value's links are removed. -/
theorem removeValue_erased {v : ValueId} {c : Cell} {g : Graph} (hv : g.values.get? v = some c) :
    Lighter [] { g with values := g.values.erase v } ((removeValue v).run g).2 := by
  have hobserving := Lighter.forM_modifyCell c.observing
    (f := fun d => { d with observers := d.observers.filter (· != v) }) (fun _ => ⟨rfl, rfl⟩)
    { g with values := g.values.erase v }
  have hobservers := fun g => Lighter.forM_modifyCell c.observers
    (f := fun d => { d with observing := d.observing.filter (· != v) }) (fun _ => ⟨rfl, rfl⟩) g
  unfold removeValue
  rw [run_get_bind, hv]
  exact hobserving.trans (hobservers _)

/-- Removing a value takes one cell away. -/
theorem removeValue_lighter (v : ValueId) (g : Graph) :
    Lighter [v] g ((removeValue v).run g).2 := by
  cases hv : g.values.get? v with
  | none =>
    rw [removeValue, run_get_bind, hv]
    refine { Lighter.refl g with cell := fun w c hc => .inr ⟨c, hc, rfl, rfl⟩ }
  | some c =>
    have herase : Lighter [v] g { g with values := g.values.erase v } := by
      refine ⟨rfl, rfl, rfl, rfl, rfl, rfl, rfl, rfl, rfl, Slots.next_erase .., fun w c hc => ?_,
        fun w c' hc' => ?_⟩
      · by_cases hw : w = v
        · exact .inl (by simp [hw])
        · refine .inr ⟨c, ?_, rfl, rfl⟩
          rw [Slots.get?_erase, if_neg hw]
          exact hc
      · rw [Slots.get?_erase] at hc'
        split at hc'
        · cases hc'
        · exact ⟨c', hc', rfl, rfl⟩
    exact herase.trans (removeValue_erased hv)

/-- A removed value is not found any more. -/
theorem get?_removeValue_self (v : ValueId) (g : Graph) :
    ((removeValue v).run g).2.values.get? v = none := by
  cases hv : g.values.get? v with
  | none =>
    rw [removeValue, run_get_bind, hv]
    exact hv
  | some c =>
    refine Option.eq_none_iff_forall_ne_some.2 fun c' hc' => ?_
    obtain ⟨c₀, hc₀, -⟩ := (removeValue_erased hv).cell_old v c' hc'
    rw [Slots.get?_erase_self] at hc₀
    cases hc₀

/-- Removing a listener takes no cell away. -/
theorem removeListener_lighter (l : ListenerId) (g : Graph) :
    Lighter [] g ((removeListener l).run g).2 := by
  unfold removeListener
  rw [run_get_bind]
  cases g.listeners.get? l with
  | none => exact .refl g
  | some x =>
    dsimp only
    cases x.attached <;> exact { Lighter.refl g with }

/-! ## Scopes -/

/-- A scope holds its children, and the copies that its list has made. -/
def Holds (g : Graph) (z k : ScopeId) : Prop :=
  ∃ t, g.scopes.get? z = some t ∧ (k ∈ t.children ∨ k ∈ t.clones)

/-- A graph that has lost the scopes `ids` with all that these hold, directly or through others, and no
other scope. -/
structure Pruned (ids : List ScopeId) (g g' : Graph) : Prop where
  size_le : g'.scopes.size ≤ g.scopes.size
  scope : ∀ k, g'.scopes.get? k = none ∨ g'.scopes.get? k = g.scopes.get? k
  gone : ∀ k ∈ ids, g'.scopes.get? k = none
  closed : ∀ z t, g.scopes.get? z = some t → g'.scopes.get? z = none →
    ∀ k, k ∈ t.children ∨ k ∈ t.clones → g'.scopes.get? k = none
  below : ∀ k s, g.scopes.get? k = some s → g'.scopes.get? k = none →
    ∃ x ∈ ids, Relation.ReflTransGen g.Holds x k

namespace Pruned

variable {ids ids' : List ScopeId}

/-- Nothing is lost with scopes that are not there. -/
theorem of_dead (hscopes : g'.scopes = g.scopes) (h : ∀ k ∈ ids, g.scopes.get? k = none) :
    Pruned ids g g' where
  size_le := Nat.le_of_eq (by rw [hscopes])
  scope _ := .inr (by rw [hscopes])
  gone := by
    rw [hscopes]
    exact h
  closed z t ht hz := by
    rw [hscopes, ht] at hz
    cases hz
  below k s hs hk := by
    rw [hscopes, hs] at hk
    cases hk

/-- Only the scopes matter. -/
theorem congr (h : Pruned ids g g') (hscopes : g''.scopes = g'.scopes) : Pruned ids g g'' where
  size_le := by
    rw [hscopes]
    exact h.size_le
  scope := by
    rw [hscopes]
    exact h.scope
  gone := by
    rw [hscopes]
    exact h.gone
  closed := by
    rw [hscopes]
    exact h.closed
  below := by
    rw [hscopes]
    exact h.below

theorem dead (h : Pruned ids g g') {k : ScopeId} (hk : g.scopes.get? k = none) :
    g'.scopes.get? k = none := by
  rcases h.scope k with hs | hs
  · exact hs
  · rw [hs, hk]

theorem get?_eq (h : Pruned ids g g') {k : ScopeId} {s : LiveScope}
    (hs : g'.scopes.get? k = some s) : g.scopes.get? k = some s := by
  rcases h.scope k with hk | hk
  · rw [hk] at hs
    cases hs
  · rw [← hk, hs]

/-- Fewer scopes hold fewer. -/
theorem holds (h : Pruned ids g g') {z k : ScopeId} (hz : g'.Holds z k) : g.Holds z k :=
  hz.imp fun _ ht => ⟨h.get?_eq ht.1, ht.2⟩

/-- What one of the scopes holds is lost. -/
theorem lost (h : Pruned ids g g') {x k : ScopeId} (hx : x ∈ ids)
    (hk : Relation.ReflTransGen g.Holds x k) : g'.scopes.get? k = none := by
  induction hk with
  | refl => exact h.gone x hx
  | tail _ hz ih =>
    obtain ⟨t, ht, hmem⟩ := hz
    exact h.closed _ t ht ih _ hmem

/-- What is lost was to go, or is held by something lost. -/
theorem origin (h : Pruned ids g g') (k : ScopeId) (s : LiveScope) (hs : g.scopes.get? k = some s)
    (hk : g'.scopes.get? k = none) : k ∈ ids ∨
      ∃ z t, g.scopes.get? z = some t ∧ g'.scopes.get? z = none ∧ (k ∈ t.children ∨ k ∈ t.clones) := by
  obtain ⟨x, hx, hreach⟩ := h.below k s hs hk
  rcases Relation.ReflTransGen.cases_tail hreach with rfl | ⟨z, hz, t, ht, hmem⟩
  · exact .inl hx
  · exact .inr ⟨z, t, ht, h.lost hx hz, hmem⟩

theorem trans (h : Pruned ids g g') (h' : Pruned ids' g' g'') : Pruned (ids ++ ids') g g'' where
  size_le := Nat.le_trans h'.size_le h.size_le
  scope k := by
    rcases h'.scope k with hk | hk
    · exact .inl hk
    · rw [hk]
      exact h.scope k
  gone k hk := by
    rcases List.mem_append.1 hk with hk | hk
    · exact h'.dead (h.gone k hk)
    · exact h'.gone k hk
  closed z t ht hz k hk := by
    cases hz' : g'.scopes.get? z with
    | none => exact h'.dead (h.closed z t ht hz' k hk)
    | some t' =>
      obtain rfl := Option.some.inj ((h.get?_eq hz').symm.trans ht)
      exact h'.closed z t' hz' hz k hk
  below k s hs hk := by
    cases hs' : g'.scopes.get? k with
    | none =>
      obtain ⟨x, hx, hreach⟩ := h.below k s hs hs'
      exact ⟨x, List.mem_append_left _ hx, hreach⟩
    | some s' =>
      obtain ⟨x, hx, hreach⟩ := h'.below k s' hs' hk
      exact ⟨x, List.mem_append_right _ hx, Relation.ReflTransGen.mono (fun _ _ => h.holds) _ _ hreach⟩

/-- The order in which scopes are lost does not matter. -/
theorem of_mem_iff (h : Pruned ids g g') (hids : ∀ k, k ∈ ids ↔ k ∈ ids') : Pruned ids' g g' where
  __ := h
  gone k hk := h.gone k ((hids k).2 hk)
  below k s hs hk := (h.below k s hs hk).imp fun x hx => ⟨(hids x).1 hx.1, hx.2⟩

/-- Scopes that are lost one after the other. -/
theorem forM {step : ScopeId → GraphM PUnit} (hstep : ∀ id g, Pruned [id] g ((step id).run g).2)
    (ids : List ScopeId) (g : Graph) : Pruned ids g ((ids.forM step).run g).2 := by
  induction ids generalizing g with
  | nil => exact of_dead rfl fun k hk => by cases hk
  | cons id ids ih => exact (hstep id g).trans (ih _)

/-- A scope is lost, and then what it holds. -/
theorem of_erase {id : ScopeId} {s : LiveScope} (hs : g.scopes.get? id = some s)
    (h : Pruned (s.children ++ s.clones) { g with scopes := g.scopes.erase id } g') :
    Pruned [id] g g' where
  size_le := by
    have hsize := Slots.size_erase hs
    have hle := h.size_le
    simp only at hle
    omega
  scope k := by
    rcases h.scope k with hk | hk
    · exact .inl hk
    · rw [hk, Slots.get?_erase]
      split
      · exact .inl rfl
      · exact .inr rfl
  gone k hk := by
    refine h.dead ?_
    rw [Slots.get?_erase, if_pos (List.mem_singleton.1 hk)]
  closed z t ht hz k hk := by
    by_cases hid : z = id
    · subst hid
      obtain rfl := Option.some.inj (hs.symm.trans ht)
      exact h.gone k (List.mem_append.2 hk)
    · refine h.closed z t ?_ hz k hk
      rw [Slots.get?_erase, if_neg hid]
      exact ht
  below k t ht hk := by
    refine ⟨id, List.mem_singleton_self id, ?_⟩
    by_cases hid : k = id
    · rw [hid]
    · have ht' : (g.scopes.erase id).get? k = some t := by
        rw [Slots.get?_erase, if_neg hid]
        exact ht
      have hfewer (z j : ScopeId) : ({ g with scopes := g.scopes.erase id } : Graph).Holds z j →
          g.Holds z j := by
        rintro ⟨u, hu, hj⟩
        have hu' : (g.scopes.erase id).get? z = some u := hu
        rw [Slots.get?_erase] at hu'
        split at hu'
        · cases hu'
        · exact ⟨u, hu', hj⟩
      obtain ⟨x, hx, hreach⟩ := h.below k t ht' hk
      exact .head ⟨s, hs, List.mem_append.1 hx⟩ (Relation.ReflTransGen.mono hfewer _ _ hreach)

end Pruned

/-- A graph that has lost the scopes `ids` with all that was built under them, and nothing else. -/
structure Shed (ids : List ScopeId) (g g' : Graph) : Prop extends Pruned ids g g' where
  document : g'.host.document = g.host.document
  program : g'.program = g.program
  requests : g'.requests = g.requests
  diagnostics : g'.diagnostics = g.diagnostics
  pendingLinks : g'.pendingLinks = g.pendingLinks
  scopes_next : g'.scopes.next = g.scopes.next
  values_next : g'.values.next = g.values.next
  cell : ∀ v c, g.values.get? v = some c →
    (∃ c', g'.values.get? v = some c' ∧ c.Unlinked c') ∨
    ∃ z t name, g.scopes.get? z = some t ∧ g'.scopes.get? z = none ∧ (name, v) ∈ t.values
  cell_old : ∀ v c', g'.values.get? v = some c' → ∃ c, g.values.get? v = some c ∧ c.Unlinked c'

namespace Shed

variable {ids ids' : List ScopeId}

/-- Nothing is lost with scopes that are not there. -/
theorem of_dead (h : ∀ k ∈ ids, g.scopes.get? k = none) : Shed ids g g where
  toPruned := .of_dead rfl h
  document := rfl
  program := rfl
  requests := rfl
  diagnostics := rfl
  pendingLinks := rfl
  scopes_next := rfl
  values_next := rfl
  cell _ c hc := .inl ⟨c, hc, rfl, rfl⟩
  cell_old _ c hc := ⟨c, hc, rfl, rfl⟩

theorem trans (h : Shed ids g g') (h' : Shed ids' g' g'') : Shed (ids ++ ids') g g'' where
  toPruned := h.toPruned.trans h'.toPruned
  document := h'.document.trans h.document
  program := h'.program.trans h.program
  requests := h'.requests.trans h.requests
  diagnostics := h'.diagnostics.trans h.diagnostics
  pendingLinks := h'.pendingLinks.trans h.pendingLinks
  scopes_next := h'.scopes_next.trans h.scopes_next
  values_next := h'.values_next.trans h.values_next
  cell v c hc := by
    rcases h.cell v c hc with ⟨c', hc', hu⟩ | ⟨z, t, name, ht, hz, hv⟩
    · rcases h'.cell v c' hc' with ⟨c'', hc'', hu'⟩ | ⟨z, t, name, ht, hz, hv⟩
      · exact .inl ⟨c'', hc'', hu'.template.trans hu.template, hu'.scope.trans hu.scope⟩
      · exact .inr ⟨z, t, name, h.get?_eq ht, hz, hv⟩
    · exact .inr ⟨z, t, name, ht, h'.dead hz, hv⟩
  cell_old v c'' hc'' := by
    obtain ⟨c', hc', hu'⟩ := h'.cell_old v c'' hc''
    obtain ⟨c, hc, hu⟩ := h.cell_old v c' hc'
    exact ⟨c, hc, hu'.template.trans hu.template, hu'.scope.trans hu.scope⟩

/-- Scopes that are lost one after the other, with room for each. -/
theorem forM (room : Nat) {step : ScopeId → GraphM PUnit}
    (hstep : ∀ id g, g.scopes.size ≤ room → Shed [id] g ((step id).run g).2) (ids : List ScopeId)
    (g : Graph) (hg : g.scopes.size ≤ room) : Shed ids g ((ids.forM step).run g).2 := by
  induction ids generalizing g with
  | nil => exact of_dead fun k hk => by cases hk
  | cons id ids ih =>
    have hfirst := hstep id g hg
    exact hfirst.trans (ih _ (Nat.le_trans hfirst.size_le hg))

/-- A scope is lost together with what is built under it, and then with its values. -/
theorem of_erase {id : ScopeId} {s : LiveScope} {vs : List ValueId}
    (hs : g.scopes.get? id = some s)
    (h : Shed (s.children ++ s.clones) { g with scopes := g.scopes.erase id } g')
    (hvalues : Lighter vs g' g'') (hvs : ∀ v ∈ vs, ∃ name, (name, v) ∈ s.values) :
    Shed [id] g g'' where
  toPruned := .of_erase hs (h.toPruned.congr hvalues.scopes)
  document := hvalues.document.trans h.document
  program := hvalues.program.trans h.program
  requests := hvalues.requests.trans h.requests
  diagnostics := hvalues.diagnostics.trans h.diagnostics
  pendingLinks := hvalues.pendingLinks.trans h.pendingLinks
  scopes_next := by
    rw [hvalues.scopes, h.scopes_next]
    exact Slots.next_erase ..
  values_next := hvalues.values_next.trans h.values_next
  cell v c hc := by
    rcases h.cell v c hc with ⟨c', hc', hu⟩ | ⟨z, t, name, ht, hz, hv⟩
    · rcases hvalues.cell v c' hc' with hv | ⟨c'', hc'', hu'⟩
      · obtain ⟨name, hname⟩ := hvs v hv
        refine .inr ⟨id, s, name, hs, ?_, hname⟩
        rw [hvalues.scopes]
        refine h.dead ?_
        rw [Slots.get?_erase, if_pos rfl]
      · exact .inl ⟨c'', hc'', hu'.template.trans hu.template, hu'.scope.trans hu.scope⟩
    · refine .inr ⟨z, t, name, ?_, by rw [hvalues.scopes]; exact hz, hv⟩
      have ht' : (g.scopes.erase id).get? z = some t := ht
      rw [Slots.get?_erase] at ht'
      split at ht'
      · cases ht'
      · exact ht'
  cell_old v c'' hc'' := by
    obtain ⟨c', hc', hu'⟩ := hvalues.cell_old v c'' hc''
    obtain ⟨c, hc, hu⟩ := h.cell_old v c' hc'
    exact ⟨c, hc, hu'.template.trans hu.template, hu'.scope.trans hu.scope⟩

end Shed

/-- Removing a scope removes what was built under it, however deep that is. -/
theorem destroyTo_shed (depth : Nat) (id : ScopeId) (g : Graph) (hg : g.scopes.size ≤ depth) :
    Shed [id] g ((destroyTo depth id).run g).2 := by
  induction depth generalizing id g with
  | zero =>
    refine .of_dead fun k hk => ?_
    cases hs : g.scopes.get? k with
    | none => rfl
    | some s =>
      have hlen := Slots.length_le_size (s := g.scopes) [k] (List.nodup_singleton k) <| by
        simp [hs]
      rw [List.length_singleton] at hlen
      omega
  | succ depth ih =>
    rw [destroyTo, run_get_bind]
    cases hs : g.scopes.get? id with
    | none =>
      refine .of_dead fun k hk => ?_
      rw [List.mem_singleton.1 hk]
      exact hs
    | some s =>
      have hsize := Slots.size_erase hs
      have hbelow := Shed.forM depth ih (s.children ++ s.clones)
        { g with scopes := g.scopes.erase id } (by simp only; omega)
      have hvalues := fun g => Lighter.forM (fun e : String × ValueId => [e.2]) s.values
        (fun e _ g => removeValue_lighter e.2 g) g
      have hlisteners := fun g => Lighter.forM (fun _ : ListenerId => []) s.listeners
        (fun l _ g => removeListener_lighter l g) g
      refine .of_erase hs hbelow ((hvalues _).trans (hlisteners _)) fun v hv => ?_
      rcases List.mem_append.1 hv with hv | hv
      · obtain ⟨e, he, hve⟩ := List.mem_flatMap.1 hv
        rw [List.mem_singleton.1 hve]
        exact ⟨e.1, he⟩
      · obtain ⟨l, -, hl⟩ := List.mem_flatMap.1 hv
        cases hl

/-! ## What stays -/

namespace Sound

variable {ids : List ScopeId}

/-- What is lost is as young as one of the scopes that were to go. -/
theorem exists_le_of_lost (h : Sound tree mark building orphan g) (hshed : Shed ids g g') {k : ScopeId}
    {s : LiveScope} (hs : g.scopes.get? k = some s) (hk : g'.scopes.get? k = none) :
    ∃ x ∈ ids, (∃ u, g.scopes.get? x = some u) ∧ x.serial ≤ k.serial := by
  obtain ⟨n, hn⟩ : ∃ n, n = k.serial := ⟨_, rfl⟩
  induction n using Nat.strongRecOn generalizing k s with
  | ind n ih =>
    rcases hshed.origin k s hs hk with hmem | ⟨z, t, ht, hz, hmem⟩
    · exact ⟨k, hmem, ⟨s, hs⟩, Nat.le_refl _⟩
    · have hlt : z.serial < k.serial := by
        have hscope := h.scope z t ht
        rcases hmem with hmem | hmem
        · have hparent := (hscope.child k hmem s hs).1
          exact ((h.scope k s hs).parent z hparent).1
        · exact (hscope.clone k hmem s hs).2.2
      obtain ⟨x, hx, hlive, hle⟩ := ih z.serial (hn ▸ hlt) ht hz rfl
      exact ⟨x, hx, hlive, Nat.le_trans hle (Nat.le_of_lt hlt)⟩

/-- What stood under something lost is lost. -/
theorem lost_of_parent (h : Sound tree mark building orphan g) (hshed : Shed ids g g')
    (horphan : ∀ k t p, orphan k → g.scopes.get? k = some t → t.parent = some p →
      ∀ x ∈ ids, (∃ u, g.scopes.get? x = some u) → p.serial < x.serial)
    {k p : ScopeId} {s q : LiveScope} (hs : g.scopes.get? k = some s) (hp : s.parent = some p)
    (hq : g.scopes.get? p = some q) (hlost : g'.scopes.get? p = none) :
    g'.scopes.get? k = none := by
  obtain ⟨n, hn⟩ : ∃ n, n = k.serial := ⟨_, rfl⟩
  induction n using Nat.strongRecOn generalizing k s with
  | ind n ih =>
    rcases (h.scope k s hs).owner p hp with ho | ⟨q', hq', hmem⟩ | ⟨z, t, ht, htp, hmem⟩
    · -- an orphan's parent is older than everything lost
      obtain ⟨x, hx, hlive, hle⟩ := h.exists_le_of_lost hshed hq hlost
      exact absurd (horphan k s p ho hs hp x hx hlive) (Nat.not_lt.2 hle)
    · exact hshed.closed p q' hq' hlost k (.inl hmem)
    · have hlt := ((h.scope z t ht).clone k hmem s hs).2.2
      have hz := ih z.serial (hn ▸ hlt) ht htp rfl
      exact hshed.closed z t ht hz k (.inr hmem)

/-- What stays has its parent. -/
theorem parent_stays (h : Sound tree mark building orphan g) (hshed : Shed ids g g')
    (horphan : ∀ k t p, orphan k → g.scopes.get? k = some t → t.parent = some p →
      ∀ x ∈ ids, (∃ u, g.scopes.get? x = some u) → p.serial < x.serial)
    {k p : ScopeId} {s : LiveScope} (hs : g'.scopes.get? k = some s) (hp : s.parent = some p) :
    g'.scopes.get? p = g.scopes.get? p := by
  rcases hshed.scope p with hlost | hsame
  · obtain ⟨-, q, hq, -⟩ := (h.scope k s (hshed.get?_eq hs)).parent p hp
    have := h.lost_of_parent hshed horphan (hshed.get?_eq hs) hp hq hlost
    rw [this] at hs
    cases hs
  · exact hsame

/-- What stays has its children, as long as only copies were to go. -/
theorem child_stays (h : Sound tree mark building orphan g) (hshed : Shed ids g g')
    (hcopies : ∀ x ∈ ids, ∀ t, g.scopes.get? x = some t → t.cloneIndex.isSome)
    {k c : ScopeId} {s t : LiveScope} (hs : g'.scopes.get? k = some s) (hc : c ∈ s.children)
    (ht : g.scopes.get? c = some t) : g'.scopes.get? c = some t := by
  obtain ⟨hparent, horiginal⟩ := (h.scope k s (hshed.get?_eq hs)).child c hc t ht
  rcases hshed.scope c with hlost | hsame
  · rcases hshed.origin c t ht hlost with hx | ⟨z, q, hq, hz, hcz | hcz⟩
    · have := hcopies c hx t ht
      rw [horiginal] at this
      cases this
    · -- it is the child of one scope, and this one is still there
      have hz' := ((h.scope z q hq).child c hcz t ht).1
      obtain rfl := Option.some.inj (hparent.symm.trans hz')
      rw [hs] at hz
      cases hz
    · have := ((h.scope z q hq).clone c hcz t ht).2.1
      rw [horiginal] at this
      cases this
  · exact hsame.trans ht

/-- A graph that has lost copies is sound if no orphan stood under one. -/
theorem shed (h : Sound tree mark building orphan g) (hshed : Shed ids g g')
    (hcopies : ∀ x ∈ ids, ∀ t, g.scopes.get? x = some t → t.cloneIndex.isSome)
    (horphan : ∀ k t p, orphan k → g.scopes.get? k = some t → t.parent = some p →
      ∀ x ∈ ids, (∃ u, g.scopes.get? x = some u) → p.serial < x.serial)
    (hlinks : g.pendingLinks = []) : Sound tree mark building orphan g' := by
  refine ⟨by rw [hshed.program, h.mark_eq], ?_, ?_, fun id s hs => ?_, fun v c' hc' => ?_, ?_, ?_,
    ?_⟩
  · rw [hshed.document]
    exact h.linked
  · rw [hshed.document, hshed.program]
    exact h.furnished
  · have hs₀ := hshed.get?_eq hs
    have hscope := h.scope id s hs₀
    exact {
      root := by
        rw [hshed.program]
        exact hscope.root
      parent := by
        intro p hp
        obtain ⟨hlt, q, hq, hfits⟩ := hscope.parent p hp
        refine ⟨hlt, q, ?_, ?_⟩
        · rw [h.parent_stays hshed horphan hs hp]
          exact hq
        · rw [hshed.program]
          exact hfits
      distinct := by
        rw [hshed.program]
        exact hscope.distinct
      node_lt := by
        rw [hshed.document]
        exact hscope.node_lt
      marked := by
        rw [hshed.document, hshed.program]
        exact hscope.marked
      marked_clone := by
        rw [hshed.document]
        exact hscope.marked_clone
      known := by
        rw [hshed.scopes_next]
        exact hscope.known
      child := fun c hc t ht => hscope.child c hc t (hshed.get?_eq ht)
      clone := fun c hc t ht => hscope.clone c hc t (hshed.get?_eq ht)
      owner := by
        intro p hp
        rcases hscope.owner p hp with ho | ⟨q, hq, hmem⟩ | ⟨z, t, ht, htp, hmem⟩
        · exact .inl ho
        · refine .inr (.inl ⟨q, ?_, hmem⟩)
          rw [h.parent_stays hshed horphan hs hp]
          exact hq
        · rcases hshed.scope z with hz | hz
          · have := hshed.closed z t ht hz id (.inr hmem)
            rw [this] at hs
            cases hs
          · exact .inr (.inr ⟨z, t, hz.trans ht, htp, hmem⟩)
      declared := hscope.declared
      own := by
        intro name v hv
        obtain ⟨hlt, hown⟩ := hscope.own name v hv
        refine ⟨by rw [hshed.values_next]; exact hlt, fun c' hc' => ?_⟩
        obtain ⟨c, hc, hu⟩ := hshed.cell_old v c' hc'
        rw [hu.scope]
        exact hown c hc
      values := by
        intro hb w hw
        obtain ⟨v, c, hv, hc⟩ := hscope.values hb w hw
        rcases hshed.cell v c hc with ⟨c', hc', -⟩ | ⟨z, t, name, ht, hz, hmem⟩
        · exact ⟨v, c', hv, hc'⟩
        · -- a value belongs to one scope, and this one is still there
          have hthis := (hscope.own w.name v (Keyed.mem_of_lookup hv)).2 c hc
          have hthat := ((h.scope z t ht).own name v hmem).2 c hc
          rw [← hthat, hthis, hs] at hz
          cases hz
      aliases := by
        intro hb u hu name hname
        obtain ⟨c, t, hc, hmem, ht, hindex⟩ := hscope.aliases hb u hu name hname
        exact ⟨c, t, hc, hmem, h.child_stays hshed hcopies hs hmem ht, hindex⟩ }
  · obtain ⟨c, hc, hu⟩ := hshed.cell_old v c' hc'
    rw [hu.template, hshed.program]
    exact h.cells v c hc
  · rw [hshed.pendingLinks, hlinks]
    exact fun l hl => by cases hl
  · rw [hshed.requests, hshed.program]
    exact h.requests
  · rw [hshed.diagnostics]
    exact h.resolved

end Sound

/-! ## Trimming lists -/

/-- A graph in which a list has dropped its copies from a place on. -/
def dropClones (g : Graph) (scope : ScopeId) (keep : Nat) : Graph :=
  { g with scopes := g.scopes.modify scope fun s => { s with clones := s.clones.take keep } }

/-- Nothing but the lists of copies differs, and these are shorter. -/
theorem of_get?_dropClones {scope k : ScopeId} {keep : Nat} {t : LiveScope}
    (ht : (g.dropClones scope keep).scopes.get? k = some t) :
    ∃ t₀, g.scopes.get? k = some t₀ ∧ t = { t₀ with clones := t.clones } ∧ t.clones ⊆ t₀.clones := by
  rw [dropClones, Slots.get?_modify] at ht
  split at ht
  · rename_i hk
    obtain ⟨t₀, ht₀, rfl⟩ := Option.map_eq_some_iff.1 ht
    exact ⟨t₀, hk ▸ ht₀, rfl, List.take_subset ..⟩
  · exact ⟨t, ht, rfl, List.Subset.refl _⟩

/-- A copy is still in its list, or it was dropped. -/
theorem get?_dropClones {k : ScopeId} {t : LiveScope} (ht : g.scopes.get? k = some t) (scope : ScopeId)
    (keep : Nat) : ∃ t', (g.dropClones scope keep).scopes.get? k = some t' ∧
      t' = { t with clones := t'.clones } ∧
      ∀ c ∈ t.clones, c ∈ t'.clones ∨ c ∈ (g.clones scope).drop keep := by
  rw [dropClones, Slots.get?_modify]
  split
  · rename_i hk
    rw [hk] at ht
    refine ⟨{ t with clones := t.clones.take keep }, by rw [ht]; rfl, rfl, fun c hc => ?_⟩
    rw [clones, ht, ← List.mem_append]
    change c ∈ t.clones.take keep ++ t.clones.drop keep
    rw [List.take_append_drop]
    exact hc
  · exact ⟨t, ht, rfl, fun c hc => .inl hc⟩

/-- The copies that a list drops are orphans. -/
theorem Standing.dropClones (h : Standing tree mark g) (scope : ScopeId) (keep : Nat) :
    Sound tree mark (fun _ => False) (· ∈ (g.clones scope).drop keep) (g.dropClones scope keep) := by
  refine ⟨h.mark_eq, h.linked, h.furnished, fun id s' hs' => ?_, h.cells, fun l hl => ?_, h.requests,
    h.resolved⟩
  · obtain ⟨s, hs, hsame, hclones⟩ := of_get?_dropClones hs'
    have hscope := h.scope id s hs
    rw [hsame]
    exact {
      hscope with
      parent := by
        intro p hp
        obtain ⟨hlt, q, hq, hfits⟩ := hscope.parent p hp
        obtain ⟨q', hq', hsame', -⟩ := get?_dropClones hq scope keep
        refine ⟨hlt, q', hq', ?_⟩
        rw [hsame']
        exact hfits
      known := by
        intro c hc
        rcases hc with hc | hc
        · exact hscope.known c (.inl hc)
        · exact hscope.known c (.inr (hclones hc))
      child := by
        intro c hc t' ht'
        obtain ⟨t, ht, hsame', -⟩ := of_get?_dropClones ht'
        rw [hsame']
        exact hscope.child c hc t ht
      clone := by
        intro c hc t' ht'
        obtain ⟨t, ht, hsame', -⟩ := of_get?_dropClones ht'
        rw [hsame']
        exact hscope.clone c (hclones hc) t ht
      owner := by
        intro p hp
        rcases hscope.owner p hp with ho | ⟨q, hq, hmem⟩ | ⟨z, t, ht, htp, hmem⟩
        · exact ho.elim
        · obtain ⟨q', hq', hsame', -⟩ := get?_dropClones hq scope keep
          refine .inr (.inl ⟨q', hq', ?_⟩)
          rw [hsame']
          exact hmem
        · obtain ⟨t', ht', hsame', hkept⟩ := get?_dropClones ht scope keep
          rcases hkept id hmem with hmem | hmem
          · refine .inr (.inr ⟨z, t', ht', ?_, hmem⟩)
            rw [hsame']
            exact htp
          · exact .inl hmem
      aliases := by
        intro hb u hu name hname
        obtain ⟨c, t, hc, hmem, ht, hindex⟩ := hscope.aliases hb u hu name hname
        obtain ⟨t', ht', hsame', -⟩ := get?_dropClones ht scope keep
        refine ⟨c, t', hc, hmem, ht', ?_⟩
        rw [hsame']
        exact hindex }
  · obtain ⟨s, hs, hleads⟩ := h.links l hl
    obtain ⟨s', hs', hsame, -⟩ := get?_dropClones hs scope keep
    refine ⟨s', hs', ?_⟩
    rw [hsame]
    exact hleads

/-- A copy is destroyed, and then its element is removed. -/
theorem run_removeClone (x : ScopeId) (g : Graph) : ((removeClone x).run g).2 =
    match g.scopeNode? x with
    | some n => ((removeElement n).run ((destroy x).run g).2).2
    | none => ((destroy x).run g).2 := by
  rw [removeClone, run_get_bind]
  cases g.scopeNode? x <;> rfl

/-- A list drops copies, and removes what it has dropped. -/
theorem run_trim (scope : ScopeId) (keep : Nat) (g : Graph) : ((trim scope keep).run g).2 =
    let ids := (g.clones scope).drop keep
    let g' := ((ids.reverse.forM removeClone).run (g.dropClones scope keep)).2
    if ids.isEmpty then g.dropClones scope keep
    else { g' with order := g'.order.filter g'.values.contains } := by
  rw [trim, run_get_bind]
  dsimp only
  cases ((g.clones scope).drop keep).isEmpty <;> rfl

theorem removeClone_pruned (x : ScopeId) (g : Graph) : Pruned [x] g ((removeClone x).run g).2 := by
  have hshed : Shed [x] g ((destroy x).run g).2 := destroyTo_shed _ x g (Nat.le_refl _)
  rw [run_removeClone]
  cases g.scopeNode? x with
  | none => exact hshed.toPruned
  | some n =>
    refine hshed.toPruned.congr ?_
    exact Keeps.removeElement (I := fun g' => g'.scopes = ((destroy x).run g).2.scopes)
      (fun _ _ h => h) n _ rfl

/-- Trimming a list removes the copies that it drops, with all that they hold. -/
theorem trim_pruned (scope : ScopeId) (keep : Nat) (g : Graph) :
    Pruned ((g.clones scope).drop keep) (g.dropClones scope keep) ((trim scope keep).run g).2 := by
  have hremoved := Pruned.forM removeClone_pruned ((g.clones scope).drop keep).reverse
    (g.dropClones scope keep)
  rw [run_trim]
  dsimp only
  split
  · rename_i hempty
    rw [List.isEmpty_iff.1 hempty]
    exact .of_dead rfl fun k hk => by cases hk
  · exact (hremoved.of_mem_iff fun k => List.mem_reverse).congr rfl

/-- Copies that wait to be removed, all of them under one parent. -/
structure Dropping (tree : ScopeTree) (mark : String) (ids : List ScopeId) (parent : Option ScopeId) (g : Graph) :
    Prop where
  sound : Sound tree mark (fun _ => False) (· ∈ ids) g
  copies : ∀ x ∈ ids, ∀ t, g.scopes.get? x = some t → t.cloneIndex.isSome ∧ t.parent = parent ∧
    ∀ p, parent = some p → p.serial < x.serial
  pendingLinks : g.pendingLinks = []

namespace Dropping

variable {ids : List ScopeId} {parent : Option ScopeId}

/-- Removing one of the copies, with its element. -/
theorem removeClone (h : Dropping tree mark ids parent g) {x : ScopeId} (hx : x ∈ ids) :
    Dropping tree mark ids parent ((Graph.removeClone x).run g).2 := by
  obtain ⟨g₁, hg₁⟩ : ∃ g₁, g₁ = ((destroy x).run g).2 := ⟨_, rfl⟩
  have hshed : Shed [x] g g₁ := by
    rw [hg₁]
    exact destroyTo_shed g.scopes.size x g (Nat.le_refl _)
  have h₁ : Dropping tree mark ids parent g₁ := by
    refine ⟨h.sound.shed hshed (fun y hy t ht => ?_) ?_ h.pendingLinks, fun y hy t ht => ?_,
      hshed.pendingLinks.trans h.pendingLinks⟩
    · rw [List.mem_singleton.1 hy] at ht
      exact (h.copies x hx t ht).1
    · rintro k t p hk ht hp y hy ⟨u, hu⟩
      rw [List.mem_singleton.1 hy] at hu ⊢
      refine (h.copies x hx u hu).2.2 p ?_
      rw [← hp, (h.copies k hk t ht).2.1]
    · exact h.copies y hy t (hshed.get?_eq ht)
  rw [run_removeClone, ← hg₁]
  cases hnode : g.scopeNode? x with
  | none => exact h₁
  | some n =>
    obtain ⟨s, hs, rfl⟩ := Option.map_eq_some_iff.1 hnode
    obtain ⟨hsound, hrendered⟩ := h₁.sound.removeElement s.node <| by
      rw [hshed.document]
      intro hin
      exact (h.sound.scope x s hs).marked_clone hin (h.copies x hx s hs).1
    refine ⟨hsound, ?_, ?_⟩
    · rw [hrendered.scopes]
      exact h₁.copies
    · rw [hrendered.pendingLinks]
      exact h₁.pendingLinks

/-- Removing some of the copies. -/
theorem forM_removeClone (h : Dropping tree mark ids parent g) (xs : List ScopeId)
    (hxs : ∀ x ∈ xs, x ∈ ids) :
    Dropping tree mark ids parent ((xs.forM Graph.removeClone).run g).2 := by
  induction xs generalizing g with
  | nil => exact h
  | cons x xs ih =>
    exact ih (h.removeClone (hxs x (List.mem_cons_self ..)))
      fun y hy => hxs y (List.mem_cons_of_mem _ hy)

end Dropping

/-- Trimming a list removes copies, and nothing else. -/
theorem Standing.trim (h : Standing tree mark g) (hlinks : g.pendingLinks = []) (scope : ScopeId)
    (keep : Nat) :
    Standing tree mark ((Graph.trim scope keep).run g).2 ∧
      ((Graph.trim scope keep).run g).2.pendingLinks = [] := by
  have hdropping : Dropping tree mark ((g.clones scope).drop keep)
      ((g.scopes.get? scope).bind (·.parent)) (g.dropClones scope keep) := by
    refine ⟨h.dropClones scope keep, fun x hx t ht => ?_, hlinks⟩
    have hx := List.mem_of_mem_drop hx
    unfold clones at hx
    cases hs : g.scopes.get? scope with
    | none =>
      rw [hs] at hx
      cases hx
    | some s =>
      rw [hs] at hx
      have hscope := h.scope scope s hs
      obtain ⟨t', ht', hsame, -⟩ := of_get?_dropClones ht
      obtain ⟨hpar, hcopy, hlt⟩ := hscope.clone x hx t' ht'
      rw [hsame]
      refine ⟨hcopy, by rw [hpar]; rfl, fun p hp => ?_⟩
      exact Nat.lt_trans (hscope.parent p hp).1 hlt
  have hgone := (trim_pruned scope keep g).gone
  -- no orphan is left once those that were dropped are gone
  have hfinish {g' : Graph} (h' : Dropping tree mark ((g.clones scope).drop keep)
      ((g.scopes.get? scope).bind (·.parent)) g') (hscopes : ((Graph.trim scope keep).run g).2.scopes =
        g'.scopes) : Standing tree mark g' := by
    refine h'.sound.finish (fun _ _ _ hb => hb.elim) fun k s p hs _ hk => ?_
    rw [← hscopes, hgone k hk] at hs
    cases hs
  have hsteps := run_trim scope keep g
  dsimp only at hsteps
  split at hsteps
  · rw [hsteps]
    exact ⟨hfinish hdropping (by rw [hsteps]), hdropping.pendingLinks⟩
  · have h' := hdropping.forM_removeClone ((g.clones scope).drop keep).reverse fun x hx => by
      simpa using hx
    have hstanding := hfinish h' (by rw [hsteps])
    rw [hsteps]
    exact ⟨Sound.congr hstanding rfl rfl rfl rfl rfl (fun _ hd => .inl hd) fun l hl => .inl hl,
      h'.pendingLinks⟩

end Graph

end ReactiveMarkup
