import ReactiveMarkup.Document.InPlace
import ReactiveMarkup.Proofs.Document.Clone
import ReactiveMarkup.Proofs.Document.Tree

/-!
# Changes in place

A change in place works on the document at hand step by step, and one that is refused half-way leaves
what it has done by then. In a document made by such changes every node knows where it stands and
stands there once, so no change is refused after its first step: a refused change has changed nothing.

Main definitions: `Document.InPlace`, `Document.Call`, `Document.Intact`, `Document.TwoWay`.
Main results: `Document.Call.run_eq_settled`, `Document.calls_intact`.
-/
namespace ReactiveMarkup.Document

variable {d d' : Document} {id p c j : NodeId}

/-! ## Both records of where a node stands -/

/-- A tree in which every node with a parent stands under it. -/
structure TwoWay (d : Document) : Prop where
  tree : d.IsTree
  stands : ∀ {p c}, d.parent? c = some p → c ∈ d.children p

namespace TwoWay

theorem mem_children_iff (h : d.TwoWay) : c ∈ d.children p ↔ d.parent? c = some p :=
  ⟨h.tree.linked p c, h.stands⟩

theorem contains_parent (h : d.TwoWay) (hc : d.parent? c = some p) : d.contains p :=
  contains_of_mem_children (h.stands hc)

theorem empty : Document.empty.TwoWay where
  tree := .empty
  stands {p c} hc := by
    rcases c with _ | c
    · cases hc
    · simp [parent?, get?, Document.empty] at hc

theorem create (h : d.TwoWay) (kind : NodeKind) : (d.create kind).2.TwoWay where
  tree := h.tree.create kind
  stands {p c} hc := by
    rw [parent?_create] at hc
    rw [children_create]
    exact h.stands hc

theorem unlink (h : d.TwoWay) (id : NodeId) : (d.unlink id).TwoWay where
  tree := h.tree.unlink id
  stands {p c} hc := by
    rw [parent?_unlink] at hc
    split at hc
    · cases hc
    · rename_i hne
      rw [children_unlink]
      split
      · exact List.mem_filter.2 ⟨h.stands hc, by simpa using hne⟩
      · exact h.stands hc

theorem stands_link (h : d.TwoWay) {parent place : Nat} (hid : d.contains id) (hp : d.contains parent)
    (hplace : place ≤ (d.children parent).length)
    (hc : (d.link parent id place).parent? c = some p) :
    c ∈ (d.link parent id place).children p := by
  rw [parent?_link hid] at hc
  rw [children_link hp]
  split at hc
  · rename_i hcid
    obtain rfl := Option.some.inj hc
    rw [if_pos rfl, hcid]
    exact (List.mem_insertIdx hplace).2 (.inl rfl)
  · have hmem := h.stands hc
    split
    · rename_i hpp
      rw [hpp] at hmem
      exact (List.mem_insertIdx hplace).2 (.inr hmem)
    · exact hmem

theorem append (h : d.TwoWay) {parent child : NodeId} (ok : d.append parent child = .ok d') :
    d'.TwoWay where
  tree := h.tree.append ok
  stands {p c} hc := by
    obtain ⟨hp, hchild, -, rfl⟩ := append_eq_ok ok
    exact (h.unlink child).stands_link (by simpa using hchild) (by simpa using hp) (Nat.le_refl _) hc

/-- The place of a node is one among what stands under its parent. -/
theorem lt_length_of_indexInParent? {place : Nat} (hp : d.parent? id = some p)
    (hplace : d.indexInParent? id = some place) : place < (d.children p).length := by
  rw [indexInParent?, hp, Option.bind_some] at hplace
  exact (List.findIdx?_eq_some_iff_getElem.1 hplace).1

/-- A node that stands under another one has a place there. -/
theorem exists_indexInParent? (h : d.TwoWay) (hp : d.parent? id = some p) :
    ∃ place, d.indexInParent? id = some place := by
  rw [← Option.isSome_iff_exists, indexInParent?, hp, Option.bind_some, List.findIdx?_isSome,
    List.any_eq_true]
  exact ⟨id, h.stands hp, by simp⟩

theorem insertBefore (h : d.TwoWay) {reference node : NodeId}
    (ok : d.insertBefore reference node = .ok d') : d'.TwoWay where
  tree := h.tree.insertBefore ok
  stands {p c} hc := by
    obtain ⟨hn, ⟨-, rfl⟩ | ⟨parent, place, hp, -, hplace, hne, rfl⟩⟩ := insertBefore_eq_ok ok
    · exact h.stands hc
    · have hp' : (d.unlink node).parent? reference = some parent := by
        rw [parent?_unlink, if_neg (Ne.symm hne), hp]
      exact (h.unlink node).stands_link (by simpa using hn) (h.unlink node |>.contains_parent hp')
        (Nat.le_of_lt (lt_length_of_indexInParent? hp' hplace)) hc

theorem detach (h : d.TwoWay) (ok : d.detach id = .ok d') : d'.TwoWay := by
  obtain ⟨u, -, ok⟩ := exists_of_bind_eq_ok ok
  cases ok
  exact h.unlink id

/-- Taking a node out leaves what is below it. -/
theorem below_unlink_iff (h : d.IsTree) : (d.unlink id).Below id j ↔ d.Below id j := by
  refine ⟨IsTree.below_of_unlink, fun hj => ?_⟩
  induction hj with
  | refl => exact .refl
  | @tail q c hq hc ih =>
    refine ih.tail ?_
    rw [children_unlink]
    split
    · -- the way down does not come back to where it started
      refine List.mem_filter.2 ⟨hc, ?_⟩
      have hne : c ≠ id := by
        rintro rfl
        exact h.not_below_child hc hq
      simpa using hne
    · exact hc

/-- A removal takes away the subtree and nothing else. -/
theorem contains_remove (h : d.IsTree) (ok : d.remove id = .ok d') :
    d'.contains j ↔ d.contains j ∧ ¬d.Below id j := by
  obtain ⟨-, hid, rfl⟩ := remove_eq_ok ok
  have hin : (d.unlink id).contains id := by simpa using hid
  have hgone : j ∈ (d.unlink id).descendants id ↔ d.Below id j :=
    ((h.unlink id).mem_descendants hin).trans (below_unlink_iff h)
  rw [contains, get?_free]
  split
  · rename_i hj
    simp [hgone.1 hj]
  · rename_i hj
    rw [← contains, contains_unlink]
    exact ⟨fun hc => ⟨hc, fun hbelow => hj (hgone.2 hbelow)⟩, fun hc => hc.1⟩

theorem remove (h : d.TwoWay) (ok : d.remove id = .ok d') : d'.TwoWay where
  tree := h.tree.remove ok
  stands {p c} hc := by
    obtain ⟨-, hid, rfl⟩ := remove_eq_ok ok
    have hgone (n : NodeId) : n ∈ (d.unlink id).descendants id ↔ (d.unlink id).Below id n :=
      (h.tree.unlink id).mem_descendants (by simpa using hid)
    rw [parent?_free] at hc
    rw [children_free]
    split at hc
    · cases hc
    · rename_i hstays
      have hmem := (h.unlink id).stands hc
      -- what stands under a node that is gone is gone as well
      rw [if_neg fun hp => hstays ((hgone c).2 (((hgone p).1 hp).tail hmem))]
      exact hmem

/-- Copies are put under copies. -/
theorem cloneTo (h : d.TwoWay) {depth : Nat} {copy : NodeId}
    (ok : Document.cloneTo depth d id = .ok (copy, d')) : d'.TwoWay := by
  induction depth generalizing d id copy d' with
  | zero => cases ok
  | succ depth ih =>
    rw [Document.cloneTo] at ok
    cases hn : d.get? id with
    | none =>
      rw [hn] at ok
      cases ok
    | some n =>
      rw [hn] at ok
      obtain ⟨e, hfold, ok⟩ := exists_of_bind_eq_ok ok
      cases ok
      refine foldlM_keeps (fun e child e' he hstep => ?_) (h.create n.kind) hfold
      obtain ⟨⟨childCopy, e₁⟩, hcopy, happend⟩ := exists_of_bind_eq_ok hstep
      exact (ih he hcopy).append happend

end TwoWay

/-! ## Copying is never refused half-way -/

theorem ensure_of_contains (h : d.contains id) : d.ensure id = .ok () := if_pos h

theorem append_of_not_above {parent child : NodeId} (hp : d.contains parent) (hc : d.contains child)
    (habove : d.isAncestorOrSelf child parent = false) : ∃ d', d.append parent child = .ok d' := by
  rw [append, ensure_of_contains hp, ensure_of_contains hc]
  exact ⟨_, if_neg (by simp [habove])⟩

/-- Nothing is above a node without a parent. -/
theorem isAncestorOrSelf_of_parent?_eq_none (hp : d.parent? p = none) (hne : c ≠ p) :
    d.isAncestorOrSelf c p = false := by
  simp [isAncestorOrSelf, ancestors, ancestorsUpTo, hp, hne]

section

variable {d₀ e : Document} {done left : List NodeId} {φ : NodeId → NodeId}

/-- If each child can be copied, the copies can be put under the copy. -/
theorem Copying.exists_foldlM
    (copyOf : Document → NodeId → Except DocumentError (NodeId × Document))
    (hid : d₀.contains id) (hleft : ∀ child ∈ left, d₀.contains child)
    (hcopyOf : ∀ e, Extends d₀ e → e.Linked → ∀ child ∈ left, ∃ copy e₁ ψ,
      copyOf e child = .ok (copy, e₁) ∧ Copied d₀ e e₁ child copy ψ)
    (h : Copying d₀ d e id done φ) :
    ∃ d', left.foldlM (fun e child => do
      let (copy, e) ← copyOf e child
      e.append d.nodes.size copy) e = .ok d' := by
  induction left generalizing e done φ with
  | nil => exact ⟨e, rfl⟩
  | cons child left ih =>
    obtain ⟨copy, e₁, ψ, hcopy, hc⟩ :=
      hcopyOf e (h.base.trans h.grows) h.linked child (List.mem_cons_self ..)
    have hroot : e₁.contains d.nodes.size := by
      rw [contains_iff_kind?, hc.grows.kind? h.lt_size, h.kind?_eq, ← contains_iff_kind?]
      exact hid
    have hnew : e₁.contains copy := by
      have hmirror := hc.mirrors copy (Nat.le_of_eq hc.copy_eq.symm) hc.lt_size
      rw [contains_iff_kind?, hmirror.kind?_eq, hc.root, ← contains_iff_kind?]
      exact hleft child (List.mem_cons_self ..)
    have halone : e₁.parent? d.nodes.size = none := by
      rw [hc.grows.parent? h.lt_size]
      exact h.detached
    have hne : copy ≠ d.nodes.size := by
      rw [hc.copy_eq]
      exact Nat.ne_of_gt h.lt_size
    obtain ⟨e₂, happend⟩ :=
      append_of_not_above hroot hnew (isAncestorOrSelf_of_parent?_eq_none halone hne)
    obtain ⟨d', hrest⟩ := ih (fun c hc => hleft c (List.mem_cons_of_mem _ hc))
      (fun e he hl c hc => hcopyOf e he hl c (List.mem_cons_of_mem _ hc)) (h.append hc happend)
    refine ⟨d', ?_⟩
    rw [List.foldlM_cons, hcopy]
    change (e₁.append d.nodes.size copy >>= _) = _
    rw [happend]
    exact hrest

end

/-- A node that is there can be copied with all that is below it: the levels are never used up. -/
theorem exists_deepClone (h : d.IsTree) (hid : d.contains id) :
    ∃ copy d', d.deepClone id = .ok (copy, d') := by
  obtain ⟨level, hlevel, -, hlast⟩ := h.exists_level
  have hall {depth : Nat} {e : Document} {id : NodeId} (he : Extends d e) (hl : e.Linked)
      (hid : d.contains id) (hdepth : d.nodes.size ≤ level id + depth) :
      ∃ copy d', cloneTo depth e id = .ok (copy, d') := by
    induction depth generalizing e id with
    | zero =>
      obtain ⟨n, hn⟩ := contains_iff.1 hid
      have := hlast id (Document.lt_size hn)
      omega
    | succ depth ih =>
      obtain ⟨n, hn⟩ := contains_iff.1 hid
      have hlt := Document.lt_size hn
      have hchildren : d.children id = n.children := by
        rw [children, hn]
        rfl
      have hunder (child : NodeId) (hc : child ∈ n.children) :
          d.contains child ∧ d.nodes.size ≤ level child + depth := by
        rw [← hchildren] at hc
        have := hlevel id child hc
        exact ⟨h.contains_of_mem hc, by omega⟩
      obtain ⟨d', hfold⟩ := (Copying.start he hl hn).exists_foldlM (cloneTo depth) hid
        (fun child hc => (hunder child hc).1) fun e' he' hl' child hc => by
          obtain ⟨hchild, hdepth'⟩ := hunder child hc
          obtain ⟨copy, e₁, hcopy⟩ := ih he' hl' hchild hdepth'
          obtain ⟨m, hm⟩ := contains_iff.1 hchild
          obtain ⟨ψ, hψ⟩ := cloneTo_copied h.linked he' hl' (Document.lt_size hm) hcopy
          exact ⟨copy, e₁, ψ, hcopy, hψ⟩
      refine ⟨e.nodes.size, d', ?_⟩
      rw [cloneTo, he.get?_eq id hlt, hn]
      change (n.children.foldlM _ (e.create n.kind).2 >>= _) = _
      rw [hfold]
      rfl
  exact hall (.refl d) h.linked hid (by omega)

/-! ## Steps and whole changes -/

/-- What has come of a change to `d`: a refused one has left `d` as it was. -/
def settled {α : Type} (d : Document) : Except DocumentError (α × Document) →
    Except DocumentError α × Document
  | .ok (a, d') => (.ok a, d')
  | .error e => (.error e, d)

namespace InPlace

variable {α β : Type}

theorem run_map (f : α → β) (m : InPlace α) (d : Document) :
    (f <$> m).run.run d = ((m.run.run d).1.map f, (m.run.run d).2) := by
  rw [ExceptT.run_map, StateT.run_map]
  rfl

theorem run_modify_bind (f : Document → Document) (k : PUnit → InPlace α) (d : Document) :
    (modifyThe Document f >>= k).run.run d = (k ⟨⟩).run.run (f d) := rfl

theorem run_ensure (d : Document) (id : NodeId) :
    (ensure id).run.run d = (d.ensure id, d) := by
  rw [ensure, run_run_get_bind, Document.ensure]
  split <;> rfl

theorem run_append (d : Document) (parent child : NodeId) :
    (append parent child).run.run d = settled d ((d.append parent child).map ((), ·)) := by
  rw [append, run_run_bind, run_ensure, Document.append]
  cases d.ensure parent with
  | error e => rfl
  | ok u =>
    dsimp only
    rw [run_run_bind, run_ensure]
    cases d.ensure child with
    | error e => rfl
    | ok u =>
      dsimp only
      rw [run_run_get_bind]
      cases d.isAncestorOrSelf child parent <;> rfl

/-- With the node taken out, its reference is found where it stood. -/
theorem run_insertBefore (h : d.TwoWay) (reference node : NodeId) :
    (insertBefore reference node).run.run d =
      settled d ((d.insertBefore reference node).map ((), ·)) := by
  rw [insertBefore, run_run_bind, run_ensure, Document.insertBefore]
  cases d.ensure node with
  | error e => rfl
  | ok u =>
    dsimp only
    by_cases heq : node = reference
    · rw [if_pos heq]
      change _ = settled d (Except.map _ (if node = reference then _ else _))
      rw [if_pos heq]
      rfl
    · rw [if_neg heq]
      change _ = settled d (Except.map _ (if node = reference then _ else _))
      rw [if_neg heq, run_run_get_bind]
      cases hp : d.parent? reference with
      | none => rfl
      | some parent =>
        dsimp only
        rw [run_run_get_bind]
        by_cases habove : d.isAncestorOrSelf node parent
        · rw [if_pos habove, if_pos habove]
          rfl
        · rw [if_neg habove, if_neg habove]
          have hp' : (d.unlink node).parent? reference = some parent := by
            rw [parent?_unlink, if_neg (Ne.symm heq), hp]
          obtain ⟨place, hplace⟩ := (h.unlink node).exists_indexInParent? hp'
          rw [run_modify_bind, run_run_get_bind, hplace]
          rfl

theorem run_detach (d : Document) (id : NodeId) :
    (detach id).run.run d = settled d ((d.detach id).map ((), ·)) := by
  rw [detach, run_run_bind, run_ensure, Document.detach]
  cases d.ensure id <;> rfl

theorem run_remove (d : Document) (id : NodeId) :
    (remove id).run.run d = settled d ((d.remove id).map ((), ·)) := by
  rw [remove, Document.remove]
  split
  · rfl
  · rw [run_run_bind, run_detach]
    cases d.detach id <;> rfl

/-- Copying step by step does what copying as a whole does, when that succeeds. -/
theorem run_cloneTo {depth : Nat} {copy : NodeId}
    (ok : Document.cloneTo depth d id = .ok (copy, d')) :
    (cloneTo depth id).run.run d = (.ok copy, d') := by
  induction depth generalizing d id copy d' with
  | zero => cases ok
  | succ depth ih =>
    rw [Document.cloneTo] at ok
    rw [cloneTo, run_run_get_bind]
    cases hn : d.get? id with
    | none =>
      rw [hn] at ok
      cases ok
    | some n =>
      rw [hn] at ok
      obtain ⟨e, hfold, ok⟩ := exists_of_bind_eq_ok ok
      cases ok
      have hstep (child : NodeId) (e e₂ : Document) (hstep : (do
          let (copy, e) ← Document.cloneTo depth e child
          e.append d.nodes.size copy) = .ok e₂) :
          (cloneTo depth child >>= fun copy => append d.nodes.size copy).run.run e =
            (.ok ⟨⟩, e₂) := by
        obtain ⟨⟨copy, e₁⟩, hcopy, happend⟩ := exists_of_bind_eq_ok hstep
        change e₁.append _ copy = _ at happend
        rw [run_run_bind, ih hcopy]
        dsimp only
        rw [run_append, happend]
        rfl
      change (n.children.forM _ >>= fun _ => pure d.nodes.size : InPlace NodeId).run.run
        (d.create n.kind).2 = _
      change n.children.foldlM _ (d.create n.kind).2 = _ at hfold
      rw [run_run_bind, run_run_forM hstep hfold]
      rfl

/-- A copy is refused before its first step, or not at all. -/
theorem run_deepClone (h : d.IsTree) (id : NodeId) :
    (deepClone id).run.run d = settled d (d.deepClone id) := by
  rw [deepClone, run_run_get_bind]
  by_cases hid : d.contains id
  · obtain ⟨copy, d', ok⟩ := exists_deepClone h hid
    rw [ok]
    exact run_cloneTo ok
  · have hnone : d.get? id = none := by simpa [contains] using hid
    rw [Document.deepClone]
    cases d.nodes.size with
    | zero => rfl
    | succ depth =>
      rw [Document.cloneTo, cloneTo, run_run_get_bind, hnone]
      rfl

end InPlace

/-! ## Calls one after the other -/

namespace Call

/-- A call does its change, or nothing. -/
theorem run_eq_settled (h : d.TwoWay) (call : Call) : call.run d = settled d (call.change d) := by
  rw [run, steps.eq_def]
  cases call with
  | create kind => rfl
  | append parent child =>
    rw [change, InPlace.run_map, InPlace.run_append]
    cases d.append parent child <;> rfl
  | insertBefore reference node =>
    rw [change, InPlace.run_map, InPlace.run_insertBefore h]
    cases d.insertBefore reference node <;> rfl
  | detach id =>
    rw [change, InPlace.run_map, InPlace.run_detach]
    cases d.detach id <;> rfl
  | remove id =>
    rw [change, InPlace.run_map, InPlace.run_remove]
    cases d.remove id <;> rfl
  | deepClone id =>
    rw [change, InPlace.run_map, InPlace.run_deepClone h.tree]
    cases d.deepClone id <;> rfl

/-- A call that is refused has changed nothing. -/
theorem run_eq_error (h : d.TwoWay) {call : Call} {e : DocumentError}
    (hrun : call.run d = (.error e, d')) : d' = d := by
  rw [run_eq_settled h] at hrun
  cases hchange : call.change d with
  | ok r =>
    rw [hchange] at hrun
    cases congrArg Prod.fst hrun
  | error e' =>
    rw [hchange] at hrun
    exact (congrArg Prod.snd hrun).symm

theorem run_eq_ok (h : d.TwoWay) {call : Call} {made : Option NodeId}
    (hrun : call.run d = (.ok made, d')) : call.change d = .ok (made, d') := by
  rw [run_eq_settled h] at hrun
  cases hchange : call.change d with
  | ok r =>
    rw [hchange] at hrun
    cases hrun
    rfl
  | error e =>
    rw [hchange] at hrun
    cases congrArg Prod.fst hrun

end Call

/-- Every change keeps both records of where a node stands. -/
theorem TwoWay.change (h : d.TwoWay) {call : Call} {made : Option NodeId}
    (ok : call.change d = .ok (made, d')) : d'.TwoWay := by
  cases call with
  | create kind =>
    cases ok
    exact h.create kind
  | append parent child =>
    obtain ⟨e, ok, heq⟩ := exists_of_map_eq_ok ok
    cases heq
    exact h.append ok
  | insertBefore reference node =>
    obtain ⟨e, ok, heq⟩ := exists_of_map_eq_ok ok
    cases heq
    exact h.insertBefore ok
  | detach id =>
    obtain ⟨e, ok, heq⟩ := exists_of_map_eq_ok ok
    cases heq
    exact h.detach ok
  | remove id =>
    obtain ⟨e, ok, heq⟩ := exists_of_map_eq_ok ok
    cases heq
    exact h.remove ok
  | deepClone id =>
    obtain ⟨⟨copy, e⟩, ok, heq⟩ := exists_of_map_eq_ok ok
    cases heq
    exact h.cloneTo ok

theorem TwoWay.run (h : d.TwoWay) (call : Call) : (call.run d).2.TwoWay := by
  rw [call.run_eq_settled h]
  cases hchange : call.change d with
  | ok r => exact h.change hchange
  | error e => exact h

theorem TwoWay.afterCalls (h : d.TwoWay) (calls : List Call) :
    (Document.afterCalls calls d).TwoWay := by
  induction calls generalizing d with
  | nil => exact h
  | cons call calls ih => exact ih (h.run call)

/-- A document whose nodes agree on where they stand: each stands once under its parent and nowhere
else, the way up from it ends, and it names only nodes that are there. -/
structure Intact (d : Document) : Prop where
  once : ∀ p c, d.contains p → d.contains c →
    (d.children p).count c = if d.parent? c = some p then 1 else 0
  grounded : WellFounded fun p c => d.parent? c = some p
  contains_parent : ∀ c p, d.parent? c = some p → d.contains p
  contains_child : ∀ p, ∀ c ∈ d.children p, d.contains c

theorem TwoWay.intact (h : d.TwoWay) : d.Intact where
  once p c _ _ := by
    rw [(h.tree.nodup p).count]
    simp only [h.mem_children_iff]
  grounded := by
    obtain ⟨level, hlevel, -, -⟩ := h.tree.exists_level
    exact Subrelation.wf (fun {p c} hc => hlevel p c (h.stands hc)) (measure level).wf
  contains_parent _ _ hc := h.contains_parent hc
  contains_child _ _ hc := h.tree.contains_of_mem hc

/-- However a document has been made by calls, those that were refused included, it is intact, and
the next call does its change as a whole or nothing; a removal takes away the subtree and nothing
else. -/
theorem calls_intact (calls : List Call) :
    let d := afterCalls calls .empty
    d.Intact ∧ (∀ call : Call, call.run d = settled d (call.change d)) ∧
      (∀ (call : Call) (e : DocumentError) (d' : Document),
        call.run d = (.error e, d') → d' = d) ∧
      ∀ (id : NodeId) (made : Option NodeId) (d' : Document),
        (Call.remove id).run d = (.ok made, d') →
          ∀ j, d'.contains j ↔ d.contains j ∧ ¬d.Below id j := by
  intro d
  have h : d.TwoWay := TwoWay.empty.afterCalls calls
  refine ⟨h.intact, Call.run_eq_settled h, fun call e d' => Call.run_eq_error h,
    fun id made d' hrun j => ?_⟩
  obtain ⟨e, ok, heq⟩ := exists_of_map_eq_ok (Call.run_eq_ok h hrun)
  cases heq
  exact TwoWay.contains_remove h.tree ok

end ReactiveMarkup.Document
