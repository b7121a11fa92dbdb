import ReactiveMarkup.Proofs.Graph.Depth
import ReactiveMarkup.Proofs.Graph.Linking
import ReactiveMarkup.Proofs.Graph.Removal

/-!
# Graphs in good order

Between operations, each live value is noted where it belongs: in its scope under its name, in the
order of creation once, and at the other ends of its links. Building adds values to a scope under new
names, and a scope is removed together with its values. While that is under way, values of a removed
scope are orphans.

Main definitions: `ScopeTemplate.Distinct`, `Graph.Tidy`, `Graph.Orderly`.
Main results: `Graph.orderly_invariant`, `Graph.run_consistent`.
-/
namespace ReactiveMarkup

/-- In this template and all below it, no two values have the same name. -/
def ScopeTemplate.Distinct (t : ScopeTemplate) : Prop :=
  ∀ u ∈ t.walk, (u.values.map (·.name)).Nodup

theorem ScopeTemplate.Distinct.child {t u : ScopeTemplate} (h : t.Distinct) (hu : u ∈ t.children) :
    u.Distinct := by
  obtain ⟨index, ownAlias, values, events, children⟩ := t
  have hall : ∀ us : List ScopeTemplate, u ∈ us → ∀ w ∈ u.walk, w ∈ walkAll us := by
    intro us hu w hw
    induction us with
    | nil => cases hu
    | cons v us ih =>
      rw [walkAll]
      rcases List.mem_cons.1 hu with rfl | hu
      · exact List.mem_append_left _ hw
      · exact List.mem_append_right _ (ih hu)
  intro w hw
  refine h w ?_
  rw [walk]
  exact List.mem_cons_of_mem _ (hall children hu w hw)

/-- Where a cell belongs. -/
def Cell.place (c : Cell) : ScopeId × String := (c.scope, c.template.name)

/-- Which values a scope has, and is to have. -/
def LiveScope.register (s : LiveScope) : ScopeTemplate × List (String × ValueId) :=
  (s.template, s.values)

namespace Graph

variable {orphan : ValueId → Prop} {g g' g'' : Graph}

/-! ## Places -/

/-- Graphs whose cells and scopes belong to each other in the same way. -/
structure SamePlaces (g g' : Graph) : Prop where
  options : g'.options = g.options
  program : g'.program = g.program
  order : g'.order = g.order
  next : g'.values.next = g.values.next
  cell : ∀ v, (g'.values.get? v).map Cell.place = (g.values.get? v).map Cell.place
  scope : ∀ k, (g'.scopes.get? k).map LiveScope.register = (g.scopes.get? k).map LiveScope.register

namespace SamePlaces

theorem of_eq (hoptions : g'.options = g.options) (hprogram : g'.program = g.program)
    (horder : g'.order = g.order) (hvalues : g'.values = g.values) (hscopes : g'.scopes = g.scopes) :
    SamePlaces g g' :=
  ⟨hoptions, hprogram, horder, by rw [hvalues], fun _ => by rw [hvalues], fun _ => by rw [hscopes]⟩

theorem trans (h : SamePlaces g g') (h' : SamePlaces g' g'') : SamePlaces g g'' where
  options := h'.options.trans h.options
  program := h'.program.trans h.program
  order := h'.order.trans h.order
  next := h'.next.trans h.next
  cell v := (h'.cell v).trans (h.cell v)
  scope k := (h'.scope k).trans (h.scope k)

theorem withCell (g : Graph) (id : ValueId) {f : Cell → Cell} (hf : ∀ c, (f c).place = c.place) :
    SamePlaces g (g.withCell id f) where
  options := rfl
  program := rfl
  order := rfl
  next := rfl
  cell := Slots.map_get?_modify g.values id hf
  scope _ := rfl

theorem modifyScope (g : Graph) (id : ScopeId) {f : LiveScope → LiveScope}
    (hf : ∀ s, (f s).register = s.register) :
    SamePlaces g { g with scopes := g.scopes.modify id f } where
  options := rfl
  program := rfl
  order := rfl
  next := rfl
  cell _ := rfl
  scope := Slots.map_get?_modify g.scopes id hf

theorem contains (h : SamePlaces g g') (v : ValueId) :
    g'.values.contains v = g.values.contains v := by
  rw [Slots.contains, Slots.contains, ← Option.isSome_map (f := Cell.place), h.cell, Option.isSome_map]

end SamePlaces

/-! ## Good order -/

/-- A graph in which each value is where it belongs, but for orphans, whose scope is gone. -/
structure Tidy (orphan : ValueId → Prop) (g : Graph) : Prop where
  links : Mutual g
  acyclic : g.options.detectCycles = true → Acyclic g
  home : ∀ v c, g.values.get? v = some c → orphan v ∨
    ∃ s, g.scopes.get? c.scope = some s ∧ s.values.lookup c.template.name = some v
  stray : ∀ v c, orphan v → g.values.get? v = some c → g.scopes.get? c.scope = none
  tenant : ∀ k s, g.scopes.get? k = some s → ∀ name v, (name, v) ∈ s.values →
    ∃ c, g.values.get? v = some c ∧ c.scope = k ∧ c.template.name = name
  sorted : g.order.Pairwise fun u v => u.serial < v.serial
  known : ∀ v ∈ g.order, v.serial < g.values.next
  listed : ∀ v, g.values.contains v → v ∈ g.order
  templates : ∀ k s, g.scopes.get? k = some s → s.template.Distinct
  program : ∀ t, g.program.root = some t → t.Distinct

namespace Tidy

/-- Links may change in a way of their own. -/
theorem relink (h : Tidy orphan g) (hp : SamePlaces g g') (hlinks : Mutual g')
    (hacyclic : g.options.detectCycles = true → Acyclic g') : Tidy orphan g' where
  links := hlinks
  acyclic := by
    rw [hp.options]
    exact hacyclic
  home v c' hc' := by
    obtain ⟨c, hc, hplace⟩ := exists_of_map_eq (hp.cell v) hc'
    obtain ⟨hscope, hname⟩ := Prod.mk.inj hplace
    rcases h.home v c hc with ho | ⟨s, hs, hv⟩
    · exact .inl ho
    · obtain ⟨s', hs', hregister⟩ := exists_of_map_eq (hp.scope c.scope).symm hs
      refine .inr ⟨s', hscope ▸ hs', ?_⟩
      rw [(Prod.mk.inj hregister).2, ← hname]
      exact hv
  stray v c' ho hc' := by
    obtain ⟨c, hc, hplace⟩ := exists_of_map_eq (hp.cell v) hc'
    have hgone := hp.scope c.scope
    rw [h.stray v c ho hc, (Prod.mk.inj hplace).1] at hgone
    exact Option.map_eq_none_iff.1 hgone
  tenant k s' hs' name v hv := by
    obtain ⟨s, hs, hregister⟩ := exists_of_map_eq (hp.scope k) hs'
    rw [← (Prod.mk.inj hregister).2] at hv
    obtain ⟨c, hc, hscope, hname⟩ := h.tenant k s hs name v hv
    obtain ⟨c', hc', hplace⟩ := exists_of_map_eq (hp.cell v).symm hc
    obtain ⟨hscope', hname'⟩ := Prod.mk.inj hplace
    exact ⟨c', hc', hscope'.trans hscope, hname'.trans hname⟩
  sorted := by
    rw [hp.order]
    exact h.sorted
  known := by
    rw [hp.order, hp.next]
    exact h.known
  listed v hv := by
    rw [hp.contains] at hv
    rw [hp.order]
    exact h.listed v hv
  templates k s' hs' := by
    obtain ⟨s, hs, hregister⟩ := exists_of_map_eq (hp.scope k) hs'
    rw [← (Prod.mk.inj hregister).1]
    exact h.templates k s hs
  program := by
    rw [hp.program]
    exact h.program

theorem congr (h : Tidy orphan g) (hp : SamePlaces g g') (hlinks : SameLinks g g') :
    Tidy orphan g' :=
  h.relink hp (h.links.congr hlinks) fun hcycles => (h.acyclic hcycles).congr hlinks

/-- What a path leads to is live. -/
theorem contains_of_resolve? (h : Tidy orphan g) {scope : ScopeId} {path : ValuePath} {v : ValueId}
    (hv : g.resolve? scope path = some v) : g.values.contains v := by
  simp only [resolve?, Option.bind_eq_bind, Option.bind_eq_some_iff] at hv
  obtain ⟨_, -, owner, -, hv⟩ := hv
  obtain ⟨s, hs, hv⟩ := Option.bind_eq_some_iff.1 hv
  obtain ⟨c, hc, -⟩ := h.tenant owner s hs path.name v (Keyed.mem_of_lookup hv)
  exact Slots.contains_of_get? hc

end Tidy

/-! ## Building -/

/-- A tidy graph in which links wait, those of live values. -/
structure Rising (g : Graph) : Prop extends Tidy (fun _ => False) g where
  alive : ∀ v ∈ g.order, g.values.contains v
  waiting : ∀ l ∈ g.pendingLinks, g.values.contains l.observer

namespace Rising

theorem congr (h : Rising g) (hp : SamePlaces g g') (hlinks : SameLinks g g')
    (hpending : ∀ l ∈ g'.pendingLinks, l ∈ g.pendingLinks ∨ g.values.contains l.observer) :
    Rising g' where
  toTidy := h.toTidy.congr hp hlinks
  alive v hv := by
    rw [hp.order] at hv
    rw [hp.contains]
    exact h.alive v hv
  waiting l hl := by
    rw [hp.contains]
    rcases hpending l hl with hl | hl
    · exact h.waiting l hl
    · exact hl

/-- A scope is changed in what is not about values. -/
theorem modifyScope_keeps (id : ScopeId) {f : LiveScope → LiveScope}
    (hf : ∀ s, (f s).register = s.register) : Keeps Rising (modifyScope id f) :=
  .modify fun g hg => hg.congr (.modifyScope g id hf) (.of_values rfl) fun _ hl => .inl hl

/-- A new scope has no values. -/
theorem insertScope (h : Rising g) {s : LiveScope} (hs : s.template.Distinct) (hvalues : s.values = [])
    (seed : Option (Nat × Value)) : Rising { g with scopes := (g.scopes.insert s).2, seed } := by
  refine { h with
    toTidy := { h.toTidy with
      links := h.links.congr (.of_values rfl)
      home := fun v c hc => ?_
      stray := fun v c ho => ho.elim
      tenant := fun k t ht name v hv => ?_
      templates := fun k t ht => ?_ } }
  · rcases h.home v c hc with ho | ⟨t, ht, hv⟩
    · exact .inl ho
    · exact .inr ⟨t, Slots.get?_insert_of_some ht s, hv⟩
  · rcases Slots.of_get?_insert ht with ⟨-, rfl⟩ | ht
    · rw [hvalues] at hv
      cases hv
    · exact h.tenant k t ht name v hv
  · rcases Slots.of_get?_insert ht with ⟨-, rfl⟩ | ht
    · exact hs
    · exact h.templates k t ht

end Rising

/-- A rising graph with a scope whose values have some of these names so far. -/
structure Filling (scope : ScopeId) (names : List String) (g : Graph) : Prop extends Rising g where
  room : ∃ s, g.scopes.get? scope = some s ∧ ∀ e ∈ s.values, e.1 ∈ names

namespace Filling

variable {scope : ScopeId} {names : List String}

/-- A scope is changed in what is not about values. -/
theorem modifyScope (h : Filling scope names g) (id : ScopeId) {f : LiveScope → LiveScope}
    (hf : ∀ s, (f s).register = s.register) :
    Filling scope names { g with scopes := g.scopes.modify id f } where
  toRising := Rising.modifyScope_keeps id hf g h.toRising
  room := by
    obtain ⟨s, hs, hnames⟩ := h.room
    obtain ⟨s', hs', hregister⟩ := exists_of_map_eq ((SamePlaces.modifyScope g id hf).scope scope).symm hs
    refine ⟨s', hs', ?_⟩
    rw [(Prod.mk.inj hregister).2]
    exact hnames

/-- A cell is added under a new name. -/
theorem addCell (h : Filling scope names g) {c : Cell} (hscope : c.scope = scope)
    (hlinks : c.observers = [] ∧ c.observing = []) (hnew : c.template.name ∉ names) :
    Filling scope (names ++ [c.template.name]) ((Graph.addCell scope c.template.name c).run g).2 ∧
      ((Graph.addCell scope c.template.name c).run g).2.values.contains
        ((Graph.addCell scope c.template.name c).run g).1 := by
  obtain ⟨s, hs, hnames⟩ := h.room
  have hlive : (g.values.insert c).2.get? (g.values.insert c).1 = some c :=
    Slots.get?_insert_self c g.values
  have hcases {w : ValueId} {d : Cell} (hd : (g.values.insert c).2.get? w = some d) :
      w = (g.values.insert c).1 ∧ d = c ∨ g.values.get? w = some d := Slots.of_get?_insert hd
  have hserial : (g.values.insert c).1.serial = g.values.next := Slots.insert_serial c g.values
  have hnext : (g.values.insert c).2.next = g.values.next + 1 := Slots.next_insert c g.values
  rw [run_addCell]
  generalize (g.values.insert c).1 = v at *
  generalize hf : (fun t : LiveScope =>
    { t with values := Keyed.insert c.template.name v t.values }) = f
  have hfs : f s = { s with values := Keyed.insert c.template.name v s.values } := by rw [← hf]
  have hscopes (k : ScopeId) : (g.scopes.modify scope f).get? k =
      if k = scope then some (f s) else g.scopes.get? k := by
    rw [Slots.get?_modify, hs]
    rfl
  have horder {w : ValueId} (hw : w ∈ g.order ++ [v]) : w ∈ g.order ∨ w = v := by simpa using hw
  have hcontains : (g.values.insert c).2.contains v := Slots.contains_of_get? hlive
  refine ⟨?_, hcontains⟩
  exact {
    links := h.links.congr (.of_insert rfl hlinks.1 hlinks.2)
    acyclic := fun hcycles => (h.acyclic hcycles).congr (.of_insert rfl hlinks.1 hlinks.2)
    home := by
      intro w d hd
      rw [hscopes]
      rcases hcases hd with ⟨rfl, rfl⟩ | hd
      · rw [if_pos hscope, hfs]
        exact .inr ⟨_, rfl, Keyed.lookup_insert_self ..⟩
      · obtain ⟨t, ht, hw⟩ := (h.home w d hd).resolve_left id
        split
        · rename_i hk
          rw [hk, hs] at ht
          obtain rfl := Option.some.inj ht
          -- the names of the scope so far are others
          have hne : d.template.name ≠ c.template.name := by
            intro heq
            exact hnew (heq ▸ hnames _ (Keyed.mem_of_lookup hw))
          rw [hfs]
          exact .inr ⟨_, rfl, (Keyed.lookup_insert_of_ne hne ..).trans hw⟩
        · exact .inr ⟨t, ht, hw⟩
    stray := fun _ _ ho => ho.elim
    tenant := by
      intro k t ht name w hw
      rw [hscopes] at ht
      split at ht
      · rename_i hk
        rw [← Option.some.inj ht, hfs] at hw
        rcases Keyed.mem_insert hw with he | hw
        · obtain ⟨rfl, rfl⟩ := Prod.mk.inj he
          exact ⟨c, hlive, hscope.trans hk.symm, rfl⟩
        · obtain ⟨d, hd, hplace⟩ := h.tenant scope s hs name w hw
          rw [hk]
          exact ⟨d, Slots.get?_insert_of_some hd c, hplace⟩
      · obtain ⟨d, hd, hplace⟩ := h.tenant k t ht name w hw
        exact ⟨d, Slots.get?_insert_of_some hd c, hplace⟩
    sorted := by
      refine List.pairwise_append.2 ⟨h.sorted, List.pairwise_singleton .., fun u hu w hw => ?_⟩
      rw [List.mem_singleton.1 hw, hserial]
      exact h.known u hu
    known := by
      intro w hw
      rcases horder hw with hw | rfl
      · exact hnext ▸ Nat.lt_succ_of_lt (h.known w hw)
      · exact hnext ▸ hserial ▸ Nat.lt_succ_self _
    listed := by
      intro w hw
      obtain ⟨d, hd⟩ := Option.isSome_iff_exists.1 hw
      rcases hcases hd with ⟨rfl, -⟩ | hd
      · exact List.mem_append_right _ (List.mem_singleton_self w)
      · exact List.mem_append_left _ (h.listed w (Slots.contains_of_get? hd))
    templates := by
      intro k t ht
      rw [hscopes] at ht
      split at ht
      · rw [← Option.some.inj ht, hfs]
        exact h.templates scope s hs
      · exact h.templates k t ht
    program := h.program
    alive := by
      intro w hw
      rcases horder hw with hw | rfl
      · exact Slots.contains_insert (h.alive w hw) c
      · exact hcontains
    waiting := fun l hl => Slots.contains_insert (h.waiting l hl) c
    room := by
      refine ⟨f s, by rw [hscopes, if_pos rfl], fun e he => ?_⟩
      rw [hfs] at he
      rcases Keyed.mem_insert he with rfl | he
      · exact List.mem_append_right _ (List.mem_singleton_self _)
      · exact List.mem_append_left _ (hnames e he) }

/-- A value is built under a new name, with its links. -/
theorem buildValue (h : Filling scope names g) {w : ValueTemplate} (hnew : w.name ∉ names) :
    Filling scope (names ++ [w.name]) ((ScopeTemplate.buildValue builder scope w).run g).2 := by
  obtain ⟨c, g₁, rfl, hscope, -, hlinks, hg₁, hrun⟩ := run_buildValue scope w g
  have h₁ : Filling scope names g₁ := by
    rcases hg₁ with rfl | rfl
    · exact h
    · exact h.modifyScope scope fun _ => rfl
  obtain ⟨h₂, hlive⟩ := h₁.addCell hscope hlinks hnew
  have hsteps : ((ScopeTemplate.buildValue builder scope c.template).run g).2 =
      ((c.template.dependencies.forM fun p =>
        buildLink scope ((Graph.buildValue scope c.template).run g).1 p).run
          ((Graph.buildValue scope c.template).run g).2).2 := rfl
  rw [hsteps, hrun, run_buildLinks]
  refine ⟨h₂.congr (.of_eq rfl rfl rfl rfl rfl) (.of_values rfl) fun l hl => ?_, h₂.room⟩
  rcases List.mem_append.1 hl with hl | hl
  · exact .inl hl
  · obtain ⟨p, -, rfl⟩ := List.mem_map.1 hl
    exact .inr hlive

/-- Values are built under new names. -/
theorem buildValues (ws : List ValueTemplate) (h : Filling scope names g)
    (hdistinct : (names ++ ws.map (·.name)).Nodup) :
    Rising ((ws.forM (ScopeTemplate.buildValue builder scope)).run g).2 := by
  induction ws generalizing names g with
  | nil => exact h.toRising
  | cons w ws ih =>
    have hnew : w.name ∉ names := fun hw =>
      (List.nodup_append.1 hdistinct).2.2 _ hw _ (List.mem_cons_self ..) rfl
    exact ih (h.buildValue hnew) (by simpa using hdistinct)

end Filling

namespace Rising

theorem buildListener_keeps (scope : ScopeId) (e : EventTemplate) :
    Keeps Rising (buildListener scope e) := by
  unfold buildListener
  refine .look fun g => ?_
  split
  · exact .pure _
  · refine .look fun g => Keeps.bind (.modify fun g hg => ?_) fun _ => modifyScope_keeps _ fun _ => rfl
    exact hg.congr (.of_eq rfl rfl rfl rfl rfl) (.of_values rfl) fun _ hl => .inl hl

/-- A scope is built without values. -/
theorem buildScope (h : Rising g) {t : ScopeTemplate} (ht : t.Distinct) (parent : Option ScopeId)
    (node : NodeId) : Filling ((Graph.buildScope t parent node).run g).1 []
      ((Graph.buildScope t parent node).run g).2 := by
  refine of_buildScope (P := fun id g => Filling id [] g) t parent node ?_ fun p c h => ?_
  · exact ⟨h.insertScope ht rfl none, _, Slots.get?_insert_self .., fun e he => by cases he⟩
  · exact h.modifyScope p fun _ => rfl

mutual

theorem instantiate_keeps (parent : Option ScopeId) (node : NodeId) :
    ∀ t : ScopeTemplate, t.Distinct → Keeps Rising (t.instantiate builder parent node)
  | ⟨index, ownAlias, values, events, children⟩ => by
    intro hdistinct g hg
    have hfilling := hg.buildScope hdistinct parent node
    have hvalues := hfilling.buildValues values <| hdistinct ⟨index, ownAlias, values, events, children⟩
      (by simp [ScopeTemplate.walk])
    rw [ScopeTemplate.instantiate]
    have hrest (scope : ScopeId) : Keeps Rising (do
        events.forM (buildListener scope)
        ScopeTemplate.instantiateAll builder scope node children
        return scope) := by
      refine Keeps.bind (.forM fun e _ => buildListener_keeps scope e) fun _ => ?_
      exact (instantiateAll_keeps scope node children hdistinct.child).bind fun _ => .pure _
    exact hrest _ _ hvalues

theorem instantiateAll_keeps (parent : ScopeId) (within : NodeId) :
    ∀ ts : List ScopeTemplate, (∀ {t}, t ∈ ts → t.Distinct) →
      Keeps Rising (ScopeTemplate.instantiateAll builder parent within ts)
  | [], _ => .pure _
  | t :: ts, hdistinct => by
    rw [ScopeTemplate.instantiateAll]
    have hrest := instantiateAll_keeps parent within ts fun ht => hdistinct (List.mem_cons_of_mem _ ht)
    refine Keeps.bind (m := builder.locate t.index within) (.look fun g => .pure _) fun node => ?_
    cases node with
    | some node =>
      exact (instantiate_keeps (some parent) node t (hdistinct (List.mem_cons_self ..))).discard.bind
        fun _ => hrest
    | none => exact hrest

end

/-! ## Links -/

/-- A link of a live value is made, or reported. -/
theorem resolveLink (h : Rising g) {l : PendingLink} (hl : g.values.contains l.observer) :
    Rising ((Graph.resolveLink l).run g).2 ∧ SamePlaces g ((Graph.resolveLink l).run g).2 ∧
      ((Graph.resolveLink l).run g).2.pendingLinks = g.pendingLinks := by
  have hreport (d : Diagnostic) : Rising { g with diagnostics := g.diagnostics ++ [d] } ∧
      SamePlaces g { g with diagnostics := g.diagnostics ++ [d] } :=
    have hp : SamePlaces g { g with diagnostics := g.diagnostics ++ [d] } :=
      .of_eq rfl rfl rfl rfl rfl
    ⟨h.congr hp (.of_values rfl) fun _ hl => .inl hl, hp⟩
  have hstep := settles g l
  generalize ((Graph.resolveLink l).run g).2 = g' at hstep ⊢
  cases hstep with
  | unresolved => exact ⟨(hreport _).1, (hreport _).2, rfl⟩
  | rejected => exact ⟨(hreport _).1, (hreport _).2, rfl⟩
  | @made v hv leaves =>
    have hlive := h.contains_of_resolve? hv
    have hp : SamePlaces g (g.withLink v l.observer) :=
      (SamePlaces.withCell g v
        (f := fun c => { c with observers := addNew l.observer c.observers }) fun _ => rfl).trans
          (.withCell _ l.observer (f := fun c => { c with observing := addNew v c.observing })
            fun _ => rfl)
    have hlinked : Tidy (fun _ => False) (g.withLink v l.observer) := by
      refine h.toTidy.relink hp (h.links.withLink hlive hl) fun hcycles => ?_
      exact (acyclic_withLink_iff hlive).2 ⟨h.acyclic hcycles, leaves hcycles⟩
    refine ⟨⟨hlinked, fun w hw => ?_, fun m hm => ?_⟩, hp, rfl⟩
    · exact (hp.contains w).trans (h.alive w hw)
    · exact (hp.contains m.observer).trans (h.waiting m hm)

/-- No link waits when those that waited are made. -/
theorem resolveLinks (h : Rising g) : Rising (Graph.resolveLinks.run g).2 ∧
    (Graph.resolveLinks.run g).2.pendingLinks = [] := by
  have hall (links : List PendingLink) {g : Graph} (h : Rising g)
      (hlinks : ∀ l ∈ links, g.values.contains l.observer) :
      Rising ((links.forM Graph.resolveLink).run g).2 ∧
        ((links.forM Graph.resolveLink).run g).2.pendingLinks = g.pendingLinks := by
    induction links generalizing g with
    | nil => exact ⟨h, rfl⟩
    | cons l links ih =>
      obtain ⟨h₁, hp, hpending⟩ := h.resolveLink (hlinks l (List.mem_cons_self ..))
      have hrest := ih h₁ fun m hm => by
        rw [hp.contains]
        exact hlinks m (List.mem_cons_of_mem _ hm)
      exact ⟨hrest.1, hrest.2.trans hpending⟩
  have hcleared : Rising { g with pendingLinks := [] } :=
    h.congr (.of_eq rfl rfl rfl rfl rfl) (.of_values rfl) fun _ hl => by cases hl
  exact hall g.pendingLinks hcleared h.waiting

end Rising

/-! ## Removal -/

/-- A tidy graph in which nothing waits. -/
structure Razing (orphan : ValueId → Prop) (g : Graph) : Prop extends Tidy orphan g where
  pendingLinks : g.pendingLinks = []
  pendingListeners : g.pendingListeners = []

namespace Razing

theorem congr (h : Razing orphan g) (hp : SamePlaces g g') (hlinks : SameLinks g g')
    (hpending : g'.pendingLinks = g.pendingLinks)
    (hlisteners : g'.pendingListeners = g.pendingListeners) : Razing orphan g' :=
  ⟨h.toTidy.congr hp hlinks, hpending.trans h.pendingLinks, hlisteners.trans h.pendingListeners⟩

/-- The values of a removed scope are orphans. -/
theorem eraseScope (h : Razing orphan g) {k : ScopeId} {s : LiveScope} (hs : g.scopes.get? k = some s) :
    Razing (fun v => orphan v ∨ v ∈ s.values.map (·.2)) { g with scopes := g.scopes.erase k } := by
  have hback {j : ScopeId} {t : LiveScope} (ht : (g.scopes.erase k).get? j = some t) :
      g.scopes.get? j = some t := by
    rw [Slots.get?_erase] at ht
    split at ht
    · cases ht
    · exact ht
  refine { h with
    links := h.links.congr (.of_values rfl)
    home := fun v c hc => ?_
    stray := fun v c ho hc => ?_
    tenant := fun j t ht => h.tenant j t (hback ht)
    templates := fun j t ht => h.templates j t (hback ht) }
  · rcases h.home v c hc with ho | ⟨t, ht, hv⟩
    · exact .inl (.inl ho)
    · by_cases hk : c.scope = k
      · rw [hk, hs] at ht
        obtain rfl := Option.some.inj ht
        exact .inl (.inr (List.mem_map_of_mem (f := (·.2)) (Keyed.mem_of_lookup hv)))
      · refine .inr ⟨t, ?_, hv⟩
        rw [Slots.get?_erase, if_neg hk]
        exact ht
  · rw [Slots.get?_erase]
    split
    · rfl
    · rename_i hk
      rcases ho with ho | ho
      · exact h.stray v c ho hc
      · obtain ⟨e, he, rfl⟩ := List.mem_map.1 ho
        obtain ⟨c', hc', hscope, -⟩ := h.tenant k s hs e.1 e.2 he
        obtain rfl := Option.some.inj (hc.symm.trans hc')
        exact absurd hscope hk

/-- An orphan is removed. -/
theorem removeValue {v : ValueId} {vs : List ValueId}
    (h : Razing (fun w => orphan w ∨ w ∈ v :: vs) g) :
    Razing (fun w => orphan w ∨ w ∈ vs) ((Graph.removeValue v).run g).2 := by
  have hlight := removeValue_lighter v g
  have hgone := get?_removeValue_self v g
  have hlinks := h.links.removeValue v
  have hacyclic := fun hcycles => (h.acyclic hcycles).removeValue h.links v
  generalize ((Graph.removeValue v).run g).2 = g' at *
  have hback {w : ValueId} {c' : Cell} (hc' : g'.values.get? w = some c') :
      w ≠ v ∧ ∃ c, g.values.get? w = some c ∧ c.Unlinked c' := by
    refine ⟨?_, hlight.cell_old w c' hc'⟩
    rintro rfl
    rw [hgone] at hc'
    cases hc'
  exact {
    links := hlinks
    acyclic := by
      rw [hlight.options]
      exact hacyclic
    home := by
      intro w c' hc'
      obtain ⟨hne, c, hc, hu⟩ := hback hc'
      rw [hlight.scopes, hu.scope, hu.template]
      rcases h.home w c hc with (ho | ho) | hhome
      · exact .inl (.inl ho)
      · exact .inl (.inr ((List.mem_cons.1 ho).resolve_left hne))
      · exact .inr hhome
    stray := by
      intro w c' ho hc'
      obtain ⟨-, c, hc, hu⟩ := hback hc'
      rw [hlight.scopes, hu.scope]
      exact h.stray w c (ho.imp_right (List.mem_cons_of_mem _)) hc
    tenant := by
      intro k s hs name w hw
      rw [hlight.scopes] at hs
      obtain ⟨c, hc, hscope, hname⟩ := h.tenant k s hs name w hw
      rcases hlight.cell w c hc with hv | ⟨c', hc', hu⟩
      · -- an orphan is none of a live scope's values
        have := h.stray w c (.inr (List.mem_cons.2 (.inl (List.mem_singleton.1 hv)))) hc
        rw [hscope, hs] at this
        cases this
      · exact ⟨c', hc', hu.scope.trans hscope, hu.template ▸ hname⟩
    sorted := by
      rw [hlight.order]
      exact h.sorted
    known := by
      rw [hlight.order, hlight.values_next]
      exact h.known
    listed := by
      intro w hw
      obtain ⟨c', hc'⟩ := Option.isSome_iff_exists.1 hw
      obtain ⟨-, c, hc, -⟩ := hback hc'
      rw [hlight.order]
      exact h.listed w (Slots.contains_of_get? hc)
    templates := by
      rw [hlight.scopes]
      exact h.templates
    program := by
      rw [hlight.program]
      exact h.program
    pendingLinks := hlight.pendingLinks.trans h.pendingLinks
    pendingListeners := hlight.pendingListeners.trans h.pendingListeners }

/-- Orphans are removed. -/
theorem removeValues (es : List (String × ValueId))
    (h : Razing (fun w => orphan w ∨ w ∈ es.map (·.2)) g) :
    Razing orphan ((es.forM fun (_, v) => Graph.removeValue v).run g).2 := by
  induction es generalizing g with
  | nil =>
    have hnone : (fun w => orphan w ∨ w ∈ ([] : List (String × ValueId)).map (·.2)) = orphan := by
      simp
    rw [hnone] at h
    exact h
  | cons e es ih => exact ih h.removeValue

theorem removeListener_keeps (l : ListenerId) : Keeps (Razing orphan) (removeListener l) := by
  unfold removeListener
  refine .look fun g => ?_
  split
  · exact .pure _
  · refine Keeps.bind (.modify fun g hg => ?_) fun _ => ?_
    · exact hg.congr (.of_eq rfl rfl rfl rfl rfl) (.of_values rfl) rfl rfl
    · split
      · exact .modify fun g hg => hg.congr (.of_eq rfl rfl rfl rfl rfl) (.of_values rfl) rfl rfl
      · exact .pure _

/-- A scope is removed with everything that was built under it. -/
theorem destroyTo_keeps (depth : Nat) (k : ScopeId) (orphan : ValueId → Prop) :
    Keeps (Razing orphan) (destroyTo depth k) := by
  induction depth generalizing k orphan with
  | zero => exact .pure _
  | succ depth ih =>
    rw [destroyTo]
    refine .get_bind fun g hg => ?_
    cases hs : g.scopes.get? k with
    | none => exact hg
    | some s =>
      have hall : Keeps (Razing fun v => orphan v ∨ v ∈ s.values.map (·.2))
          ((s.children ++ s.clones).forM (destroyTo depth)) := .forM fun c _ => ih c _
      have hbelow := hall _ (hg.eraseScope hs)
      exact Keeps.forM (fun l _ => removeListener_keeps l) _ (hbelow.removeValues s.values)

theorem removeElement_keeps (node : NodeId) : Keeps (Razing orphan) (removeElement node) :=
  .removeElement (fun _ _ hg => hg.congr (.of_eq rfl rfl rfl rfl rfl) (.of_values rfl) rfl rfl) node

theorem removeClone_keeps (clone : ScopeId) : Keeps (Razing orphan) (removeClone clone) := by
  unfold removeClone
  refine .look fun g => Keeps.bind (.look fun g => destroyTo_keeps _ _ _) fun _ => ?_
  split
  · exact removeElement_keeps _
  · exact .pure _

end Razing

/-! ## Operations -/

/-- A graph between operations. -/
structure Orderly (g : Graph) : Prop extends Razing (fun _ => False) g where
  alive : ∀ v ∈ g.order, g.values.contains v

namespace Orderly

theorem congr (h : Orderly g) (hp : SamePlaces g g') (hlinks : SameLinks g g')
    (hpending : g'.pendingLinks = g.pendingLinks)
    (hlisteners : g'.pendingListeners = g.pendingListeners) : Orderly g' where
  toRazing := h.toRazing.congr hp hlinks hpending hlisteners
  alive v hv := by
    rw [hp.order] at hv
    rw [hp.contains]
    exact h.alive v hv

/-- A change of nothing that is about values and scopes. -/
theorem of_eq (h : Orderly g) (hoptions : g'.options = g.options) (hprogram : g'.program = g.program)
    (horder : g'.order = g.order) (hvalues : g'.values = g.values) (hscopes : g'.scopes = g.scopes)
    (hpending : g'.pendingLinks = g.pendingLinks)
    (hlisteners : g'.pendingListeners = g.pendingListeners) : Orderly g' :=
  h.congr (.of_eq hoptions hprogram horder hvalues hscopes) (.of_values hvalues) hpending hlisteners

theorem rising (h : Orderly g) : Rising g where
  toTidy := h.toTidy
  alive := h.alive
  waiting l hl := by
    rw [h.pendingLinks] at hl
    cases hl

/-- When links are made and listeners attached, nothing waits. -/
theorem of_rising (h : Rising g) : Orderly ((resolveLinks >>= fun _ => attachListeners).run g).2 := by
  obtain ⟨h₁, hpending⟩ := h.resolveLinks
  have hattach (l : ListenerId) : Keeps Orderly (attachListener l) := by
    unfold attachListener
    refine .look fun g => ?_
    split
    · exact .pure _
    · split
      · exact .modify fun g hg => hg.of_eq rfl rfl rfl rfl rfl rfl rfl
      · exact .pure _
  have hcleared : Orderly { (resolveLinks.run g).2 with pendingListeners := [] } := by
    refine ⟨⟨?_, hpending, rfl⟩, h₁.alive⟩
    exact h₁.toTidy.congr (.of_eq rfl rfl rfl rfl rfl) (.of_values rfl)
  exact Keeps.forM (fun l _ => hattach l) _ hcleared

/-- A copy is planted. -/
theorem plant (h : Orderly g) (scope : ScopeId) {s : LiveScope} (hs : s.template.Distinct)
    (place : Nat) (item : Value) (node : NodeId) :
    Orderly ((Graph.plant scope s place item node >>= fun _ => attachListeners).run g).2 := by
  have hbuilt : Keeps Rising (do
      modify fun g => { g with seed := some (place, item) }
      let clone ← (s.template.instantiate builder s.parent node : GraphM ScopeId)
      modify fun g => { g with seed := none }
      modifyScope scope fun s => { s with clones := s.clones ++ [clone] }) := by
    have hseed (seed : Option (Nat × Value)) :
        Keeps Rising (modify fun g => { g with seed } : GraphM Unit) :=
      .modify fun g hg => hg.congr (.of_eq rfl rfl rfl rfl rfl) (.of_values rfl) fun _ hl => .inl hl
    refine (hseed _).bind fun _ => ?_
    refine (Rising.instantiate_keeps s.parent node s.template hs).bind fun clone => ?_
    exact (hseed _).bind fun _ => Rising.modifyScope_keeps scope fun _ => rfl
  exact of_rising (hbuilt g h.rising)

/-- Copies are removed. -/
theorem trim_keeps (scope : ScopeId) (keep : Nat) : Keeps Orderly (trim scope keep) := by
  intro g h
  have hcut : Orderly (g.dropClones scope keep) :=
    h.congr (.modifyScope g scope fun _ => rfl) (.of_values rfl) rfl rfl
  have hall : Keeps (Razing fun _ => False) (((g.clones scope).drop keep).reverse.forM removeClone) :=
    .forM fun k _ => Razing.removeClone_keeps k
  have hremoved := hall _ hcut.toRazing
  rw [run_trim]
  dsimp only
  split
  · exact hcut
  · exact { hremoved with
      links := hremoved.links.congr (.of_values rfl)
      sorted := hremoved.sorted.filter _
      known := fun v hv => hremoved.known v (List.mem_filter.1 hv).1
      listed := fun v hv => List.mem_filter.2 ⟨hremoved.listed v hv, hv⟩
      alive := fun v hv => (List.mem_filter.1 hv).2 }

end Orderly

/-- Good order is kept by every kind of step. -/
theorem orderly_invariant : Invariant (fun _ => True) Orderly where
  quiet h hq := h.of_eq hq.options hq.program hq.order hq.values hq.scopes hq.pendingLinks
    hq.pendingListeners
  kinds _ _ := trivial
  revised {g id f} h hf := by
    refine h.congr (.withCell g id fun c => ?_)
      (.withCell g id (fun c => (hf c).observers) fun c => (hf c).observing) rfl rfl
    rw [Cell.place, Cell.place, (hf c).scope, (hf c).template]
  shown h _ _ := h.of_eq rfl rfl rfl rfl rfl rfl rfl
  sent _ _ _ h _ := h.of_eq rfl rfl rfl rfl rfl rfl rfl
  answered h _ :=
    ⟨h.of_eq rfl rfl rfl rfl rfl rfl rfl, fun _ _ _ _ _ => h.of_eq rfl rfl rfl rfl rfl rfl rfl⟩
  adopted item h hs _ := h.plant _ (h.templates _ _ hs) _ item _
  copied {g scope s} place item h hs := by
    have hkept := Keeps.copyElement (fun _ hg => Orderly.of_eq hg rfl rfl rfl rfl rfl rfl rfl)
      s.node place g h
    generalize (copyElement s.node place).run.run g = u at hkept ⊢
    obtain ⟨result, g'⟩ := u
    cases result with
    | ok node => exact hkept.plant scope (h.templates scope s hs) place item node
    | error e => exact hkept
  trimmed := Orderly.trim_keeps
  swept scope := .look fun g => .forM fun node _ =>
    .removeElement (fun _ _ hg => hg.of_eq rfl rfl rfl rfl rfl rfl rfl) node

/-- Every operation keeps good order. -/
theorem orderly_operation_keeps (op : Operation) : Keeps Orderly op.run := by
  have hlinks : Keeps Orderly (resolveLinks >>= fun _ => attachListeners) :=
    fun _ hg => .of_rising hg.rising
  refine orderly_invariant.operation_keeps hlinks (fun {g t node} hg hroot _ => ?_) op
  have hbuilt := Rising.instantiate_keeps none node t (hg.program t hroot) g hg.rising
  exact .of_rising (hbuilt.congr (.of_eq rfl rfl rfl rfl rfl) (.of_values rfl) fun _ hl => .inl hl)

theorem orderly_ofProgram {program : Program} (hdistinct : ∀ t ∈ program.scopes,
    (t.values.map (·.name)).Nodup) (options : GraphOptions) (host : Host) :
    Orderly (ofProgram program options host) where
  links := ⟨by simp [observersOf, observedBy, ofProgram], fun _ => by simp [observersOf, ofProgram],
    fun _ => by simp [observedBy, ofProgram]⟩
  acyclic _ := acyclic_ofProgram program options host
  home _ _ hc := by simp [ofProgram] at hc
  stray _ _ ho := ho.elim
  tenant _ _ hs := by simp [ofProgram] at hs
  sorted := .nil
  known _ hv := by cases hv
  listed _ hv := by simp [Slots.contains, ofProgram] at hv
  templates _ _ hs := by simp [ofProgram] at hs
  program t ht := by
    have hroot : program.root = some t := ht
    have hscopes : program.scopes = t.walk := by rw [Program.scopes, hroot]
    rw [hscopes] at hdistinct
    exact hdistinct
  pendingLinks := rfl
  pendingListeners := rfl
  alive _ hv := by cases hv

/-- What may be relied on between operations. -/
structure Consistent (g : Graph) : Prop where
  /-- a link is noted at both ends -/
  mirror : ∀ u v, v ∈ g.observersOf u ↔ u ∈ g.observedBy v
  observers_nodup : ∀ u, (g.observersOf u).Nodup
  observing_nodup : ∀ u, (g.observedBy u).Nodup
  observers_live : ∀ u, ∀ v ∈ g.observersOf u, g.values.contains v
  observing_live : ∀ v, ∀ u ∈ g.observedBy v, g.values.contains u
  /-- a live value is found in its scope, which is live, under its name -/
  home : ∀ v c, g.values.get? v = some c →
    ∃ s, g.scopes.get? c.scope = some s ∧ s.values.lookup c.template.name = some v
  tenant : ∀ k s, g.scopes.get? k = some s → ∀ name v, s.values.lookup name = some v →
    ∃ c, g.values.get? v = some c ∧ c.scope = k ∧ c.template.name = name
  order_iff : ∀ v, v ∈ g.order ↔ g.values.contains v
  /-- the order is that of creation, in which values are numbered -/
  order_sorted : g.order.Pairwise fun u v => u.serial < v.serial
  pendingLinks : g.pendingLinks = []
  pendingListeners : g.pendingListeners = []

theorem Orderly.consistent (h : Orderly g) : Consistent g where
  mirror _ _ := h.links.mirror
  observers_nodup := h.links.observers_nodup
  observing_nodup := h.links.observing_nodup
  observers_live _ _ hv := contains_of_mem_observedBy (h.links.mirror.1 hv)
  observing_live _ _ hu := contains_of_mem_observersOf (h.links.mirror.2 hu)
  home v c hc := (h.home v c hc).resolve_left id
  tenant k s hs name v hv := h.tenant k s hs name v (Keyed.mem_of_lookup hv)
  order_iff v := ⟨h.alive v, h.listed v⟩
  order_sorted := h.sorted
  pendingLinks := h.pendingLinks
  pendingListeners := h.pendingListeners

/-- Take a program in whose scopes no two values have the same name, any settings and host, and any
operations one after the other. Afterwards each link is noted once at both ends, which are live; the
live values are those that live scopes have under their names, and stand in the order of creation
once each; nothing waits; and if cycles are to be detected, there is none. -/
theorem run_consistent (program : Program) (options : GraphOptions) (host : Host)
    (hdistinct : ∀ t ∈ program.scopes, (t.values.map (·.name)).Nodup)
    (operations : List Operation) :
    let g := ((operations.forM Operation.run).run (ofProgram program options host)).2
    Consistent g ∧ (options.detectCycles = true → Acyclic g) := by
  intro g
  have horderly : Orderly g := Keeps.forM (fun op _ => orderly_operation_keeps op) _
    (orderly_ofProgram hdistinct options host)
  have hunder : Under options 0 0 g := Under.run_keeps operations _ ⟨rfl, rfl, rfl⟩
  refine ⟨horderly.consistent, fun hcycles => horderly.acyclic ?_⟩
  rw [hunder.options]
  exact hcycles

/-- A list that grows to three items, each shown by a text, and shrinks to one. -/
theorem run_consistent_list :
    let item : ScopeTemplate := ⟨1, none, [⟨"data", .data, .constant .undefined, []⟩,
      ⟨"text", .text 0, .compute (.get ⟨⟨1, 1⟩, ⟨1, 5⟩⟩ ⟨1, [], "data"⟩), [⟨1, [], "data"⟩]⟩], [], []⟩
    let program : Program := ⟨some ⟨0, none, [], [], [item]⟩, "data-scope"⟩
    let host := Host.ofDocument (.ofFragment "<ul data-scope=0><li data-scope=1> </li></ul>")
    let grow := Operation.write ⟨1, 1⟩ "data" (.array 0 [.number 1, .number 2, .number 3])
    let shrink := Operation.write ⟨1, 1⟩ "data" (.array 1 [.number 4])
    let g := (([Operation.mount, grow, shrink].forM Operation.run).run
      (ofProgram program .standard host)).2
    (∀ t ∈ program.scopes, (t.values.map (·.name)).Nodup) ∧ Consistent g ∧ Acyclic g := by
  intro item program host grow shrink g
  have hdistinct : ∀ t ∈ program.scopes, (t.values.map (·.name)).Nodup := by
    simp [program, item, Program.scopes, ScopeTemplate.walk, ScopeTemplate.walkAll]
  obtain ⟨hconsistent, hacyclic⟩ :=
    run_consistent program .standard host hdistinct [.mount, grow, shrink]
  exact ⟨hdistinct, hconsistent, hacyclic rfl⟩

end Graph

end ReactiveMarkup
