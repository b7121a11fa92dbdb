import ReactiveMarkup.Proofs.Compile.Aliases
import ReactiveMarkup.Proofs.Document.Read
import ReactiveMarkup.Proofs.Graph.Aloof
import ReactiveMarkup.Proofs.Graph.Names
import ReactiveMarkup.Proofs.Graph.Operation

/-!
# Aliases of live scopes

A live scope finds its children by their aliases. When two of them have the same one, it leads to the
child that was built last, whereas in the scope tree it leads to the first. As long as no alias is taken
twice, both lead to the same scope.

Main definitions: `Graph.Kindred`, `Graph.Bears`, `Graph.Lineage`, `Graph.Hops`.
Main results: `Graph.Kindred.bears`, `Graph.lineage_operation_keeps`, `Graph.run_hops`.
-/
namespace ReactiveMarkup

/-- A live scope that stands where another one stood, and finds its children by the same aliases. -/
structure LiveScope.SameKin (s s' : LiveScope) : Prop where
  template : s'.template = s.template
  parent : s'.parent = s.parent
  cloneIndex : s'.cloneIndex = s.cloneIndex
  aliases : s'.aliases = s.aliases

namespace Graph

variable {tree : ScopeTree} {g g' : Graph} {id : ScopeId} {s : LiveScope}

/-- A graph in which some scopes may be gone, and the others stand as they did. -/
structure Fewer (g g' : Graph) : Prop where
  next : g.scopes.next ≤ g'.scopes.next
  scope : ∀ id s', g'.scopes.get? id = some s' → ∃ s, g.scopes.get? id = some s ∧ s.SameKin s'

namespace Fewer

theorem of_eq (hscopes : g'.scopes = g.scopes) : Fewer g g' where
  next := Nat.le_of_eq (congrArg Slots.next hscopes.symm)
  scope _ s' hs' := ⟨s', hscopes ▸ hs', rfl, rfl, rfl, rfl⟩

theorem modifyScope (g : Graph) (id : ScopeId) {f : LiveScope → LiveScope}
    (hf : ∀ s : LiveScope, s.SameKin (f s)) : Fewer g { g with scopes := g.scopes.modify id f } where
  next := Nat.le_refl _
  scope k s' hs' := by
    rw [Slots.get?_modify] at hs'
    split at hs'
    · rename_i hk
      obtain ⟨s, hs, rfl⟩ := Option.map_eq_some_iff.1 hs'
      exact ⟨s, hk ▸ hs, hf s⟩
    · exact ⟨s', hs', rfl, rfl, rfl, rfl⟩

theorem eraseScope (g : Graph) (id : ScopeId) : Fewer g { g with scopes := g.scopes.erase id } where
  next := Nat.le_of_eq (Slots.next_erase ..).symm
  scope k s' hs' := by
    rw [Slots.get?_erase] at hs'
    split at hs'
    · cases hs'
    · exact ⟨s', hs', rfl, rfl, rfl, rfl⟩

theorem trans {g'' : Graph} (h : Fewer g g') (h' : Fewer g' g'') : Fewer g g'' where
  next := Nat.le_trans h.next h'.next
  scope id s'' hs'' := by
    obtain ⟨s', hs', hkin'⟩ := h'.scope id s'' hs''
    obtain ⟨s, hs, hkin⟩ := h.scope id s' hs'
    exact ⟨s, hs, hkin'.template.trans hkin.template, hkin'.parent.trans hkin.parent,
      hkin'.cloneIndex.trans hkin.cloneIndex, hkin'.aliases.trans hkin.aliases⟩

theorem scopewise : Scopewise (Fewer g) := fun h hscopes => h.trans (.of_eq hscopes)

theorem lasting : Lasting (Fewer g) where
  scopewise := scopewise
  modifyScope id _ hf h := h.trans (.modifyScope _ id fun s => by
    obtain ⟨_, _, heq⟩ := hf s
    rw [heq]
    exact ⟨rfl, rfl, rfl, rfl⟩)
  eraseScope id h := h.trans (.eraseScope _ id)

theorem buildValue_keeps (id : ScopeId) (v : ValueTemplate) :
    Keeps (Fewer g) (ScopeTemplate.buildValue builder id v) := by
  have hvalue : Keeps (Fewer g) (Graph.buildValue id v) := by
    intro g₀ hg₀
    obtain ⟨c, g₁, -, -, -, -, hg₁, hrun⟩ := run_buildValue id v g₀
    have hfirst : Fewer g₀ g₁ := by
      rcases hg₁ with rfl | rfl
      · exact .of_eq rfl
      · exact .modifyScope _ id fun _ => ⟨rfl, rfl, rfl, rfl⟩
    rw [hrun, run_addCell]
    have hadded : Fewer g { g₁ with
        values := (g₁.values.insert c).2, order := g₁.order ++ [(g₁.values.insert c).1] } :=
      (hg₀.trans hfirst).trans (.of_eq rfl)
    refine hadded.trans (.modifyScope _ id ?_)
    exact fun _ => ⟨rfl, rfl, rfl, rfl⟩
  exact hvalue.bind fun v => .forM fun path _ => scopewise.modify_keeps fun _ => rfl

end Fewer

/-- How live scopes stand to each other: each is built from what is below the template of its parent, and
the parent finds it by its alias, unless another child was built later that has the same one. -/
structure Kindred (tree : ScopeTree) (g : Graph) : Prop where
  copies : ∀ id s, g.scopes.get? id = some s → s.template.Copies tree
  known : ∀ id s p, g.scopes.get? id = some s → s.parent = some p → p.serial < g.scopes.next
  under : ∀ id s p q, g.scopes.get? id = some s → s.parent = some p → g.scopes.get? p = some q →
    s.template ∈ q.template.children
  named : ∀ p q name c, g.scopes.get? p = some q → q.aliases.lookup name = some c →
    c.serial < g.scopes.next ∧ ∀ s, g.scopes.get? c = some s →
      s.parent = some p ∧ s.cloneIndex = none ∧ s.template.ownAlias = some name
  latest : ∀ p q name c s, g.scopes.get? p = some q → g.scopes.get? c = some s → s.parent = some p →
    s.cloneIndex = none → s.template.ownAlias = some name →
    ∃ c', q.aliases.lookup name = some c' ∧ c.serial ≤ c'.serial

namespace Kindred

/-- Scopes may go. -/
theorem fewer (h : Kindred tree g) (hf : Fewer g g') : Kindred tree g' where
  copies id s' hs' := by
    obtain ⟨s, hs, hkin⟩ := hf.scope id s' hs'
    rw [hkin.template]
    exact h.copies id s hs
  known id s' p hs' hp := by
    obtain ⟨s, hs, hkin⟩ := hf.scope id s' hs'
    exact Nat.lt_of_lt_of_le (h.known id s p hs (hkin.parent ▸ hp)) hf.next
  under id s' p q' hs' hp hq' := by
    obtain ⟨s, hs, hkin⟩ := hf.scope id s' hs'
    obtain ⟨q, hq, hkin'⟩ := hf.scope p q' hq'
    rw [hkin.template, hkin'.template]
    exact h.under id s p q hs (hkin.parent ▸ hp) hq
  named p q' name c hq' hc := by
    obtain ⟨q, hq, hkin⟩ := hf.scope p q' hq'
    obtain ⟨hlt, hnamed⟩ := h.named p q name c hq (hkin.aliases ▸ hc)
    refine ⟨Nat.lt_of_lt_of_le hlt hf.next, fun s' hs' => ?_⟩
    obtain ⟨s, hs, hkin'⟩ := hf.scope c s' hs'
    rw [hkin'.parent, hkin'.cloneIndex, hkin'.template]
    exact hnamed s hs
  latest p q' name c s' hq' hs' hp horiginal hname := by
    obtain ⟨q, hq, hkin⟩ := hf.scope p q' hq'
    obtain ⟨s, hs, hkin'⟩ := hf.scope c s' hs'
    rw [hkin'.parent] at hp
    rw [hkin'.cloneIndex] at horiginal
    rw [hkin'.template] at hname
    rw [hkin.aliases]
    exact h.latest p q name c s hq hs hp horiginal hname

theorem scopewise : Scopewise (Kindred tree) := fun h hscopes => h.fewer (.of_eq hscopes)

theorem keeps_of_fewer {α : Type} {m : GraphM α} (hm : ∀ g, Keeps (Fewer g) m) : Keeps (Kindred tree) m :=
  fun g hg => hg.fewer (hm g g (.of_eq rfl))

end Kindred

/-! ## Building -/

/-- A graph with one more scope, which is newborn. No other changes but for a parent that takes it in. -/
structure Bears (g : Graph) (t : ScopeTemplate) (parent : Option ScopeId) (node : NodeId)
    (built : ScopeId × Graph) : Prop where
  next : built.2.scopes.next = g.scopes.next + 1
  serial : built.1.serial = g.scopes.next
  get?_eq : ∀ k, built.2.scopes.get? k = if k = built.1 then some (.newborn t parent node g.seed) else
    (g.scopes.get? k).map fun q =>
      if g.seed = none ∧ parent = some k then q.adopt t.ownAlias built.1 else q

theorem bears_buildScope (g : Graph) (t : ScopeTemplate) (parent : Option ScopeId) (node : NodeId)
    (hparent : ∀ p, parent = some p → p.serial < g.scopes.next) :
    Bears g t parent node ((buildScope t parent node).run g) := by
  obtain ⟨u, hu⟩ : ∃ u, u = g.scopes.insert (.newborn t parent node g.seed) := ⟨_, rfl⟩
  have hnext : u.2.next = g.scopes.next + 1 := by rw [hu, Slots.next_insert]
  have hserial : u.1.serial = g.scopes.next := by rw [hu, Slots.insert_serial]
  have hget (k : ScopeId) : u.2.get? k = if k = u.1 then some (.newborn t parent node g.seed)
      else g.scopes.get? k := by
    rw [hu, Slots.get?_insert]
  by_cases halone : g.seed = none → parent = none
  · rw [run_buildScope_alone t node halone hu]
    refine ⟨hnext, hserial, fun k => ?_⟩
    have hnone : ¬(g.seed = none ∧ parent = some k) := fun ⟨hseed, hp⟩ => by
      rw [halone hseed] at hp
      cases hp
    dsimp only
    rw [hget]
    simp [hnone]
  · obtain ⟨hseed, hsome⟩ := Classical.not_imp.1 halone
    obtain ⟨p, rfl⟩ := Option.ne_none_iff_exists'.1 hsome
    rw [run_buildScope_child t p node hseed hu]
    refine ⟨(Slots.next_modify ..).trans hnext, hserial, fun k => ?_⟩
    have hne : p ≠ u.1 := by
      rintro rfl
      exact Nat.ne_of_lt (hparent _ rfl) hserial
    dsimp only
    rw [Slots.get?_modify]
    by_cases hk : k = p
    · subst hk
      rw [if_pos rfl, hget, if_neg hne, if_neg hne]
      simp [hseed]
    · rw [if_neg hk, hget]
      simp [Ne.symm hk]

/-- A graph that may have more scopes, in which those that were there and still are have the templates that
they had. -/
structure Stays (g g' : Graph) : Prop where
  next : g.scopes.next ≤ g'.scopes.next
  scope : ∀ id s', id.serial < g.scopes.next → g'.scopes.get? id = some s' →
    ∃ s, g.scopes.get? id = some s ∧ s'.template = s.template

theorem Fewer.stays (h : Fewer g g') : Stays g g' where
  next := h.next
  scope id s' _ hs' := by
    obtain ⟨s, hs, hkin⟩ := h.scope id s' hs'
    exact ⟨s, hs, hkin.template⟩

theorem Stays.trans {g'' : Graph} (h : Stays g g') (h' : Stays g' g'') : Stays g g'' where
  next := Nat.le_trans h.next h'.next
  scope id s'' hlt hs'' := by
    obtain ⟨s', hs', htemplate'⟩ := h'.scope id s'' (Nat.lt_of_lt_of_le hlt h.next) hs''
    obtain ⟨s, hs, htemplate⟩ := h.scope id s' hlt hs'
    exact ⟨s, hs, htemplate'.trans htemplate⟩

/-- A template may be built under a scope if it is below the template of that scope. -/
def Seat (g : Graph) (parent : Option ScopeId) (t : ScopeTemplate) : Prop :=
  ∀ p, parent = some p → p.serial < g.scopes.next ∧
    ∀ q, g.scopes.get? p = some q → t ∈ q.template.children

theorem Seat.stays {parent : Option ScopeId} {t : ScopeTemplate} (h : Seat g parent t)
    (hs : Stays g g') : Seat g' parent t := by
  intro p hp
  obtain ⟨hlt, hunder⟩ := h p hp
  refine ⟨Nat.lt_of_lt_of_le hlt hs.next, fun q' hq' => ?_⟩
  obtain ⟨q, hq, htemplate⟩ := hs.scope p q' hlt hq'
  rw [htemplate]
  exact hunder q hq

theorem lookup_aliases_adopt (q : LiveScope) (own : Option String) (id : ScopeId) (name : String) :
    (q.adopt own id).aliases.lookup name =
      if own = some name then some id else q.aliases.lookup name := by
  cases own with
  | none => rfl
  | some other =>
    rw [LiveScope.aliases_adopt_some]
    by_cases hname : name = other
    · subst hname
      rw [if_pos rfl, Keyed.lookup_insert_self]
    · rw [if_neg fun heq => hname (Option.some.inj heq).symm, Keyed.lookup_insert_of_ne hname]

namespace Bears

variable {t : ScopeTemplate} {parent : Option ScopeId} {node : NodeId} {built : ScopeId × Graph}

theorem get?_self (h : Bears g t parent node built) :
    built.2.scopes.get? built.1 = some (.newborn t parent node g.seed) := by
  rw [h.get?_eq, if_pos rfl]

/-- The new scope is another one than those that were built before. -/
theorem ne (h : Bears g t parent node built) {k : ScopeId} (hk : k.serial < g.scopes.next) :
    k ≠ built.1 := by
  rintro rfl
  exact Nat.ne_of_lt hk h.serial

theorem lt (h : Bears g t parent node built) {k : ScopeId} (hk : k.serial < g.scopes.next) :
    k.serial < built.2.scopes.next := h.next ▸ Nat.lt_succ_of_lt hk

theorem serial_lt (h : Bears g t parent node built) : built.1.serial < built.2.scopes.next := by
  rw [h.serial, h.next]
  exact Nat.lt_succ_self _

/-- A scope is the new one, or was there before and has perhaps taken the new one in. -/
theorem cases (h : Bears g t parent node built) {k : ScopeId} {s : LiveScope}
    (hs : built.2.scopes.get? k = some s) :
    k = built.1 ∧ s = .newborn t parent node g.seed ∨ ∃ q, g.scopes.get? k = some q ∧
      s.template = q.template ∧ s.parent = q.parent ∧ s.cloneIndex = q.cloneIndex ∧
      ∀ name, s.aliases.lookup name =
        if (g.seed = none ∧ parent = some k) ∧ t.ownAlias = some name then some built.1
        else q.aliases.lookup name := by
  rw [h.get?_eq] at hs
  split at hs
  · rename_i hk
    exact .inl ⟨hk, (Option.some.inj hs).symm⟩
  · obtain ⟨q, hq, rfl⟩ := Option.map_eq_some_iff.1 hs
    refine .inr ⟨q, hq, ?_⟩
    split
    · rename_i hadopted
      refine ⟨rfl, rfl, rfl, fun name => ?_⟩
      rw [lookup_aliases_adopt]
      simp [hadopted]
    · rename_i haside
      exact ⟨rfl, rfl, rfl, fun name => by simp [haside]⟩

/-- A scope that was built before is not the new one. -/
theorem old (h : Bears g t parent node built) {k : ScopeId} {s : LiveScope}
    (hs : built.2.scopes.get? k = some s) (hk : k.serial < g.scopes.next) :
    ∃ q, g.scopes.get? k = some q ∧
      s.template = q.template ∧ s.parent = q.parent ∧ s.cloneIndex = q.cloneIndex ∧
      ∀ name, s.aliases.lookup name =
        if (g.seed = none ∧ parent = some k) ∧ t.ownAlias = some name then some built.1
        else q.aliases.lookup name :=
  (h.cases hs).resolve_left fun hnew => h.ne hk hnew.1

theorem stays (h : Bears g t parent node built) : Stays g built.2 where
  next := h.next ▸ Nat.le_succ _
  scope _ _ hlt hs := by
    obtain ⟨q, hq, htemplate, -⟩ := h.old hs hlt
    exact ⟨q, hq, htemplate⟩

end Bears

namespace Kindred

variable {t : ScopeTemplate} {parent : Option ScopeId} {node : NodeId} {built : ScopeId × Graph}

/-- A new scope is built from what is below the template of its parent, and so are all others. -/
theorem bears_under (h : Kindred tree g) (hseat : Seat g parent t) (hg : Bears g t parent node built)
    {k p : ScopeId} {s q' : LiveScope} (hs : built.2.scopes.get? k = some s) (hp : s.parent = some p)
    (hq' : built.2.scopes.get? p = some q') : s.template ∈ q'.template.children := by
  rcases hg.cases hs with ⟨-, rfl⟩ | ⟨r, hr, htemplate, hparent, -⟩
  · obtain ⟨hlt, hunder⟩ := hseat p hp
    obtain ⟨q, hq, htemplate, -⟩ := hg.old hq' hlt
    rw [htemplate]
    exact hunder q hq
  · rw [hparent] at hp
    obtain ⟨q, hq, htemplate', -⟩ := hg.old hq' (h.known k r p hr hp)
    rw [htemplate, htemplate']
    exact h.under k r p q hr hp hq

/-- An alias leads to the new scope or to where it led before. -/
theorem bears_named (h : Kindred tree g) (hg : Bears g t parent node built) {p c : ScopeId}
    {q' : LiveScope} {name : String} (hq' : built.2.scopes.get? p = some q')
    (hc : q'.aliases.lookup name = some c) :
    c.serial < built.2.scopes.next ∧ ∀ s, built.2.scopes.get? c = some s →
      s.parent = some p ∧ s.cloneIndex = none ∧ s.template.ownAlias = some name := by
  rcases hg.cases hq' with ⟨-, rfl⟩ | ⟨q, hq, -, -, -, haliases⟩
  · cases hc
  · rw [haliases] at hc
    split at hc
    · rename_i hadopted
      obtain ⟨⟨hseed, hparent⟩, hown⟩ := hadopted
      obtain rfl := Option.some.inj hc
      refine ⟨hg.serial_lt, fun s hs => ?_⟩
      obtain rfl := Option.some.inj (hg.get?_self.symm.trans hs)
      exact ⟨hparent, Option.map_eq_none_iff.2 hseed, hown⟩
    · obtain ⟨hlt, hnamed⟩ := h.named p q name c hq hc
      refine ⟨hg.lt hlt, fun s hs => ?_⟩
      obtain ⟨r, hr, htemplate, hparent, hclone, -⟩ := hg.old hs hlt
      rw [htemplate, hparent, hclone]
      exact hnamed r hr

/-- An alias of a child leads to it or to one that was built later. -/
theorem bears_latest (h : Kindred tree g) (hseat : Seat g parent t) (hg : Bears g t parent node built)
    {p c : ScopeId} {q' s : LiveScope} {name : String} (hq' : built.2.scopes.get? p = some q')
    (hs : built.2.scopes.get? c = some s) (hp : s.parent = some p) (horiginal : s.cloneIndex = none)
    (hname : s.template.ownAlias = some name) :
    ∃ c', q'.aliases.lookup name = some c' ∧ c.serial ≤ c'.serial := by
  rcases hg.cases hs with ⟨rfl, rfl⟩ | ⟨r, hr, htemplate, hparent, hclone, -⟩
  · have hseed : g.seed = none := Option.map_eq_none_iff.1 horiginal
    obtain ⟨q, -, -, -, -, haliases⟩ := hg.old hq' (hseat p hp).1
    exact ⟨built.1, (haliases name).trans (if_pos ⟨⟨hseed, hp⟩, hname⟩), Nat.le_refl _⟩
  · rw [hparent] at hp
    rw [hclone] at horiginal
    rw [htemplate] at hname
    obtain ⟨q, hq, -, -, -, haliases⟩ := hg.old hq' (h.known c r p hr hp)
    obtain ⟨c', hc', hle⟩ := h.latest p q name c r hq hr hp horiginal hname
    by_cases hadopted : (g.seed = none ∧ parent = some p) ∧ t.ownAlias = some name
    · refine ⟨built.1, (haliases name).trans (if_pos hadopted), ?_⟩
      rw [hg.serial]
      exact Nat.le_of_lt (Slots.serial_lt hr)
    · exact ⟨c', ((haliases name).trans (if_neg hadopted)).trans hc', hle⟩

/-- A scope is taken in by its parent as the one that was built last. -/
theorem bears (h : Kindred tree g) (ht : t.Copies tree) (hseat : Seat g parent t)
    (hg : Bears g t parent node built) : Kindred tree built.2 where
  copies k s hs := by
    rcases hg.cases hs with ⟨-, rfl⟩ | ⟨q, hq, htemplate, -⟩
    · exact ht
    · rw [htemplate]
      exact h.copies k q hq
  known k s p hs hp := by
    rcases hg.cases hs with ⟨-, rfl⟩ | ⟨q, hq, -, hparent, -⟩
    · exact hg.lt (hseat p hp).1
    · exact hg.lt (h.known k q p hq (hparent ▸ hp))
  under _ _ _ _ hs hp hq := h.bears_under hseat hg hs hp hq
  named _ _ _ _ hq hc := h.bears_named hg hq hc
  latest _ _ _ _ _ hq hs hp horiginal hname := h.bears_latest hseat hg hq hs hp horiginal hname

mutual

/-- Building a template keeps how scopes stand to each other. -/
theorem instantiate (node : NodeId) : ∀ (t : ScopeTemplate) {parent : Option ScopeId} {g : Graph},
    Kindred tree g → t.Copies tree → Seat g parent t →
      let g' := ((t.instantiate builder parent node).run g).2
      Kindred tree g' ∧ Stays g g'
  | ⟨index, ownAlias, values, events, children⟩, parent, g, h, ht, hseat => by
    have hbelow : ∀ u ∈ children, u.Copies tree := by
      cases ht with
      | intro _ _ below => exact below
    let built := (Graph.buildScope ⟨index, ownAlias, values, events, children⟩ parent node).run g
    let filled := ((values.forM (ScopeTemplate.buildValue builder built.1)).run built.2).2
    let heard := ((events.forM (buildListener built.1)).run filled).2
    have hbears : Bears g _ parent node built := bears_buildScope g _ parent node fun p hp => (hseat p hp).1
    have hbuilt : Kindred tree built.2 := h.bears ht hseat hbears
    have hfewer : Fewer built.2 heard :=
      (Keeps.forM fun e _ => Fewer.lasting.buildListener_keeps built.1 e) filled
        ((Keeps.forM fun v _ => Fewer.buildValue_keeps built.1 v) built.2 (.of_eq rfl))
    have hseats : ∀ u ∈ children, Seat heard (some built.1) u := by
      intro u hu p hp
      obtain rfl := Option.some.inj hp
      refine ⟨Nat.lt_of_lt_of_le hbears.serial_lt hfewer.next, fun q hq => ?_⟩
      obtain ⟨s, hs, hkin⟩ := hfewer.scope _ q hq
      obtain rfl := Option.some.inj (hbears.get?_self.symm.trans hs)
      rw [hkin.template]
      exact hu
    obtain ⟨h', hstays'⟩ := Kindred.instantiateAll node children (hbuilt.fewer hfewer) hbelow hseats
    exact ⟨h', hbears.stays.trans (hfewer.stays.trans hstays')⟩

theorem instantiateAll (within : NodeId) : ∀ (ts : List ScopeTemplate) {id : ScopeId} {g : Graph},
    Kindred tree g → (∀ u ∈ ts, u.Copies tree) → (∀ u ∈ ts, Seat g (some id) u) →
      let g' := ((ScopeTemplate.instantiateAll builder id within ts).run g).2
      Kindred tree g' ∧ Stays g g'
  | [], _, g, h, _, _ => ⟨h, (Fewer.of_eq rfl).stays⟩
  | t :: ts, id, g, h, hts, hseats => by
    have hfirst (node : NodeId) : Keeps (fun g' => Kindred tree g' ∧ Stays g g')
        (t.instantiate builder (some id) node) := by
      rintro g₁ ⟨h₁, hstays₁⟩
      obtain ⟨h', hstays'⟩ := Kindred.instantiate node t h₁ (hts t (List.mem_cons_self ..))
        ((hseats t (List.mem_cons_self ..)).stays hstays₁)
      exact ⟨h', hstays₁.trans hstays'⟩
    have hrest : Keeps (fun g' => Kindred tree g' ∧ Stays g g')
        (ScopeTemplate.instantiateAll builder id within ts) := by
      rintro g₁ ⟨h₁, hstays₁⟩
      obtain ⟨h', hstays'⟩ := Kindred.instantiateAll within ts h₁
        (fun u hu => hts u (List.mem_cons_of_mem _ hu))
        fun u hu => (hseats u (List.mem_cons_of_mem _ hu)).stays hstays₁
      exact ⟨h', hstays₁.trans hstays'⟩
    have hall : Keeps (fun g' => Kindred tree g' ∧ Stays g g')
        (ScopeTemplate.instantiateAll builder id within (t :: ts)) := by
      rw [ScopeTemplate.instantiateAll]
      refine Keeps.bind (m := builder.locate t.index within) (.look fun g => .pure _) fun node => ?_
      cases node with
      | some node => exact (hfirst node).discard.bind fun _ => hrest
      | none => exact hrest
    exact hall g ⟨h, (Fewer.of_eq rfl).stays⟩

end

/-- Planting a copy beside a scope. -/
theorem plant (h : Kindred tree g) {list : ScopeId} (hs : g.scopes.get? list = some s) (place : Nat)
    (item : Value) (node : NodeId) :
    Kindred tree ((Graph.plant list s place item node >>= fun _ => attachListeners).run g).2 := by
  have hseat : Seat { g with seed := some (place, item) } s.parent s.template :=
    fun p hp => ⟨h.known list s p hs hp, fun q hq => h.under list s p q hs hp hq⟩
  have hseed : Kindred tree { g with seed := some (place, item) } := scopewise h rfl
  have hrest (clone : ScopeId) : Keeps (Kindred tree) (do
      modify fun g => { g with seed := none }
      modifyScope list fun s => { s with clones := s.clones ++ [clone] }
      resolveLinks
      attachListeners) := by
    refine Keeps.bind (scopewise.modify_keeps fun _ => rfl) fun _ => ?_
    refine Keeps.bind (keeps_of_fewer fun g => Fewer.lasting.modifyScope_keeps list fun _ => ⟨_, _, rfl⟩)
      fun _ => ?_
    exact scopewise.resolveLinks_keeps.bind fun _ => scopewise.attachListeners_keeps
  exact hrest _ _ (hseed.instantiate node s.template (h.copies list s hs) hseat).1

end Kindred

/-- Whatever is done to a graph, its scopes stand to each other as before. -/
theorem kindred_invariant : Invariant (fun _ => True) (Kindred tree) where
  quiet h hq := Kindred.scopewise h hq.scopes
  kinds _ _ := trivial
  revised h _ := Kindred.scopewise h rfl
  shown h _ _ := Kindred.scopewise h rfl
  sent _ _ _ h _ := Kindred.scopewise h rfl
  answered h _ := ⟨Kindred.scopewise h rfl, fun _ _ _ _ _ => Kindred.scopewise h rfl⟩
  adopted item h hs _ := h.plant hs _ item _
  copied {g list s} place item h hs := by
    have hcopied := Keeps.copyElement (I := fun g' => Kindred tree g' ∧ g'.scopes = g.scopes)
      (fun _ hg => ⟨Kindred.scopewise hg.1 rfl, hg.2⟩) s.node place g ⟨h, rfl⟩
    generalize (copyElement s.node place).run.run g = u at hcopied ⊢
    obtain ⟨result, g'⟩ := u
    cases result with
    | ok node => exact hcopied.1.plant (hcopied.2 ▸ hs) place item node
    | error e => exact hcopied.1
  trimmed list keep := Kindred.keeps_of_fewer fun _ => Fewer.lasting.trim_keeps list keep
  swept _ := .look fun _ => .forM fun n _ => Kindred.scopewise.removeElement_keeps n

theorem aloof_program (program : Program) : Aloof fun g => g.program = program :=
  .of_any fun h haside => haside.program.trans h

/-- A graph that runs a program, between operations. -/
structure Lineage (tree : ScopeTree) (program : Program) (g : Graph) : Prop extends Kindred tree g where
  program_eq : g.program = program

theorem lineage_invariant (program : Program) : Invariant (fun _ => True) (Lineage tree program) where
  quiet h hq := ⟨kindred_invariant.quiet h.toKindred hq, hq.program.trans h.program_eq⟩
  kinds _ _ := trivial
  revised h hf := ⟨kindred_invariant.revised h.toKindred hf, h.program_eq⟩
  shown h hK hok := ⟨kindred_invariant.shown h.toKindred hK hok, h.program_eq⟩
  sent request target echo h hK :=
    ⟨kindred_invariant.sent request target echo h.toKindred hK, h.program_eq⟩
  answered h hpending := by
    obtain ⟨hfewer, hechoed⟩ := kindred_invariant.answered h.toKindred hpending
    exact ⟨⟨hfewer, h.program_eq⟩, fun node body host hecho hset =>
      ⟨hechoed node body host hecho hset, h.program_eq⟩⟩
  adopted item h hs hnode := ⟨kindred_invariant.adopted item h.toKindred hs hnode,
    (aloof_program program).plant_keeps _ _ _ _ _ _ h.program_eq⟩
  copied {g scope s} place item h hs := by
    have hkindred := kindred_invariant.copied place item h.toKindred hs
    have hprogram := (aloof_program program).copied h.program_eq scope s place item
    generalize (copyElement s.node place).run.run g = u at hkindred hprogram ⊢
    obtain ⟨result, g'⟩ := u
    cases result with
    | ok node => exact ⟨hkindred, hprogram⟩
    | error e => exact ⟨hkindred, hprogram⟩
  trimmed scope keep g h := ⟨kindred_invariant.trimmed scope keep g h.toKindred,
    (aloof_program program).trim_keeps scope keep g h.program_eq⟩
  swept scope g h := ⟨kindred_invariant.swept scope g h.toKindred,
    (aloof_program program).sweep_keeps scope g h.program_eq⟩

/-- Every operation keeps how scopes stand to each other. -/
theorem lineage_operation_keeps {program : Program}
    (hroot : ∀ t, program.root = some t → t.Copies tree) (op : Operation) :
    Keeps (Lineage tree program) op.run := by
  have hlinks : Keeps (Lineage tree program) (resolveLinks >>= fun _ => attachListeners) := fun g hg =>
    ⟨Kindred.scopewise.linked_keeps g hg.toKindred,
      (aloof_program program).linked_keeps g hg.program_eq⟩
  refine (lineage_invariant program).operation_keeps hlinks (fun {g t node} hg ht _ => ?_) op
  have hseat : Seat g none t := fun p hp => by cases hp
  have hbuilt := (hg.instantiate node t (hroot t (hg.program_eq ▸ ht)) hseat).1
  have hprogram := (aloof_program program).instantiate_keeps none node t g hg.program_eq
  exact hlinks _ ⟨Kindred.scopewise hbuilt rfl, hprogram⟩

theorem lineage_ofProgram (tree : ScopeTree) (program : Program) (options : GraphOptions) (host : Host) :
    Lineage tree program (ofProgram program options host) where
  copies _ _ hs := by simp [ofProgram] at hs
  known _ _ _ hs := by simp [ofProgram] at hs
  under _ _ _ _ hs := by simp [ofProgram] at hs
  named _ _ _ _ hq := by simp [ofProgram] at hq
  latest _ _ _ _ _ hq := by simp [ofProgram] at hq
  program_eq := rfl

/-! ## Following aliases -/

/-- The scope that aliases lead to. -/
def follow? (g : Graph) (start : ScopeId) (aliases : List String) : Option ScopeId :=
  aliases.foldlM (fun id name => do (← g.scopes.get? id).aliases.lookup name) start

/-- A path is followed from its anchor. -/
theorem resolve?_eq (g : Graph) (scope : ScopeId) (path : ValuePath) : g.resolve? scope path =
    ((g.ancestors scope).find? fun x => x.2.template.index = path.anchor).bind fun x =>
      (g.follow? x.1 path.aliases).bind fun owner => g.scopeValue? owner path.name := rfl

/-- Where aliases lead, in a scope tree and in a graph that runs its program. -/
structure Hops (tree : ScopeTree) (g : Graph) : Prop where
  /-- in the tree, to the first scope below that has the alias -/
  first : ∀ i name, tree.aliasOf? i name = (tree.parts i).find? fun c => tree.ownAlias? c = some name
  /-- in the graph, to a child with the alias: of the children that have it, the one that was built last -/
  last : ∀ p q name c s, g.scopes.get? p = some q → q.aliases.lookup name = some c →
    g.scopes.get? c = some s → s.parent = some p ∧ s.template.index ∈ tree.parts q.template.index ∧
      tree.ownAlias? s.template.index = some name ∧
      ∀ c' s', g.scopes.get? c' = some s' → s'.parent = some p → s'.cloneIndex = none →
        tree.ownAlias? s'.template.index = some name → c'.serial ≤ c.serial
  /-- where no two scopes below one have the same alias, to instances of the scopes that they lead to in
  the tree -/
  agree : tree.AliasesApart → ∀ a s aliases b t, g.scopes.get? a = some s →
    g.follow? a aliases = some b → g.scopes.get? b = some t →
      tree.follow? s.template.index aliases = some t.template.index

namespace Kindred

/-- The scope of a live child is below that of its parent in the tree, and has the alias of its template
there. -/
theorem below (h : Kindred tree g) {p c : ScopeId} {q : LiveScope} (hq : g.scopes.get? p = some q)
    (hs : g.scopes.get? c = some s) (hp : s.parent = some p) :
    s.template.index ∈ tree.parts q.template.index ∧
      s.template.ownAlias = tree.ownAlias? s.template.index := by
  have hmem := h.under c s p q hs hp hq
  obtain ⟨hparts, haliases, -⟩ := h.copies p q hq
  rw [← hparts]
  exact ⟨List.mem_map_of_mem hmem, haliases _ hmem⟩

theorem hops (h : Kindred tree g) (ht : tree.FirstNamed) : Hops tree g where
  first := ht.first
  last p q name c s hq hc hs := by
    obtain ⟨-, hnamed⟩ := h.named p q name c hq hc
    obtain ⟨hp, -, hown⟩ := hnamed s hs
    obtain ⟨hmem, halias⟩ := h.below hq hs hp
    refine ⟨hp, hmem, halias ▸ hown, fun c' s' hs' hp' horiginal hown' => ?_⟩
    rw [← (h.below hq hs' hp').2] at hown'
    obtain ⟨c'', hc'', hle⟩ := h.latest p q name c' s' hq hs' hp' horiginal hown'
    obtain rfl := Option.some.inj (hc.symm.trans hc'')
    exact hle
  agree hapart a s aliases b t hs hb ht' := by
    induction aliases generalizing a s with
    | nil =>
      obtain rfl := Option.some.inj hb
      obtain rfl := Option.some.inj (hs.symm.trans ht')
      rfl
    | cons name aliases ih =>
      obtain ⟨c, hc, hrest⟩ : ∃ c, s.aliases.lookup name = some c ∧ g.follow? c aliases = some b := by
        rw [follow?, List.foldlM_cons, hs] at hb
        exact Option.bind_eq_some_iff.1 hb
      have hlive : ∃ u, g.scopes.get? c = some u := by
        cases aliases with
        | nil =>
          obtain rfl := Option.some.inj hrest
          exact ⟨t, ht'⟩
        | cons name' aliases' =>
          rw [follow?, List.foldlM_cons] at hrest
          obtain ⟨x, hx, -⟩ := Option.bind_eq_some_iff.1 hrest
          obtain ⟨u, hu, -⟩ := Option.bind_eq_some_iff.1 hx
          exact ⟨u, hu⟩
      obtain ⟨u, hu⟩ := hlive
      obtain ⟨-, hnamed⟩ := h.named a s name c hs hc
      obtain ⟨hp, -, hown⟩ := hnamed u hu
      obtain ⟨hmem, halias⟩ := h.below hs hu hp
      have hnext : tree.aliasOf? s.template.index name = some u.template.index :=
        ht.aliasOf?_eq hapart hmem (halias ▸ hown)
      rw [ScopeTree.follow?, List.foldlM_cons]
      exact Option.bind_eq_some_iff.2 ⟨_, hnext, ih c u hu hrest⟩

end Kindred

/-- Take any tree document, whatever errors there are, any settings and host, and any operations on its
program one after the other. When two scopes below one have the same alias, the compiler follows it to the
first of them, and the running graph to the one that was built last. If no error tells of such scopes,
both reach the same scope by the same aliases. -/
theorem run_hops (o : CompileOptions) (source : Option String) {d : Document} (hd : d.IsTree)
    (hnames : d.UniqueNames) (options : GraphOptions) (host : Host) (operations : List Operation) :
    let tree := (Outline.ofDocument o source d).tree
    Hops tree ((operations.forM Operation.run).run
        (ofProgram (d.compile o source).program options host)).2 ∧
      ((∀ e ∈ (d.compile o source).errors, e.cause.isDuplicateAlias = false) → tree.AliasesApart) := by
  intro tree
  have hnamed : (Outline.ofDocument o source d).Named := Outline.ofDocument_named o source hd hnames
  have hall : Keeps (Lineage tree (d.compile o source).program) (operations.forM Operation.run) :=
    .forM fun op _ => lineage_operation_keeps (fun t ht => (Outline.copies_emit hnamed ht).1) op
  refine ⟨(hall _ (lineage_ofProgram ..)).hops hnamed.firstNamed, fun hnone => ?_⟩
  refine hnamed.apart fun e he => hnone e ?_
  rw [Document.compile, (Outline.emit_eq o _).1]
  exact List.mem_append_left _ he

/-- Two scopes with one alias, of which the first declares a value that an expression beside it uses. -/
theorem run_hops_twice :
    let d := Document.ofMarkup [.element "div" [(":v", "[[x.n]]")]
      [.element "p" [(":aka", "x"), (":n", "[[1]]")] [], .element "b" [(":aka", "x"), (":m", "[[2]]")] []]]
    let c := d.compile .standard none
    let tree := (Outline.ofDocument .standard none d).tree
    let g := (([Operation.mount].forM Operation.run).run
      (ofProgram c.program .standard (.ofDocument c.document))).2
    d.IsTree ∧ d.UniqueNames ∧ Hops tree g ∧ tree.follow? 0 ["x"] = some 1 ∧
      (g.follow? ⟨0, 0⟩ ["x"]).bind (fun id => (g.scopes.get? id).map (·.template.index)) = some 2 := by
  intro d c tree g
  have hmade : d.WellMade := Document.wellMade_ofMarkup _
  obtain ⟨hhops, -⟩ := run_hops .standard none hmade.layered.isTree hmade.names .standard
    (.ofDocument c.document) [.mount]
  exact ⟨hmade.layered.isTree, hmade.names, hhops, by decide +kernel, by decide +kernel⟩

end Graph

end ReactiveMarkup
