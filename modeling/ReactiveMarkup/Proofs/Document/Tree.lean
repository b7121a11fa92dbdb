import Mathlib.Data.Finset.Card
import Mathlib.Data.Finset.Range
import ReactiveMarkup.Proofs.Document.Linked

/-!
# Documents that are trees

In a tree every node knows where it stands, stands there once, and is not below itself. So nothing is
below two nodes unless one of them is below the other. A document that is made by changes is a tree:
a change that would put a node below itself is refused.

Main definitions: `Document.IsTree`, `Document.Below`, `Document.Built`.
Main results: `Document.IsTree.not_below_both`, `Document.IsTree.mem_ancestors`,
`Document.Built.isTree`.
-/
namespace ReactiveMarkup.Document

variable {d d' : Document} {id p a b x : NodeId}

@[simp] theorem children_empty (p : NodeId) : Document.empty.children p = [] := by
  rcases p with _ | p
  · rfl
  · simp [children, get?, Document.empty]

/-- A node is another one or stands below it. -/
def Below (d : Document) : NodeId → NodeId → Prop :=
  Relation.ReflTransGen fun p c => c ∈ d.children p

/-- A document whose nodes form trees. -/
structure IsTree (d : Document) : Prop where
  linked : d.Linked
  nodup : ∀ p, (d.children p).Nodup
  acyclic : ∀ p, ¬Relation.TransGen (fun p c => c ∈ d.children p) p p

namespace IsTree

/-- No node is below one that stands under it. -/
theorem not_below_child (h : d.IsTree) (ha : a ∈ d.children p) : ¬d.Below a p :=
  fun hp => h.acyclic p (.head' ha hp)

/-- Of two nodes with a common one below them, one is below the other. -/
theorem below_or_below (h : d.IsTree) (ha : d.Below a x) (hb : d.Below b x) :
    d.Below a b ∨ d.Below b a := by
  induction ha with
  | refl => exact .inr hb
  | @tail y z hay hz ih =>
    rcases Relation.ReflTransGen.cases_tail hb with rfl | ⟨w, hbw, hw⟩
    · exact .inl (hay.tail hz)
    · obtain rfl := h.linked.parent_unique hz hw
      exact ih hbw

/-- Nothing is below two nodes that stand under the same one. -/
theorem not_below_both (h : d.IsTree) (ha : a ∈ d.children p) (hb : b ∈ d.children p) (hab : a ≠ b)
    (hx : d.Below a x) : ¬d.Below b x := by
  have hapart {a b : NodeId} (ha : a ∈ d.children p) (hb : b ∈ d.children p) (hab : a ≠ b) :
      ¬d.Below a b := by
    intro hbelow
    rcases Relation.ReflTransGen.cases_tail hbelow with rfl | ⟨q, haq, hq⟩
    · exact hab rfl
    · obtain rfl := h.linked.parent_unique hb hq
      exact h.not_below_child ha haq
  intro hx'
  rcases h.below_or_below hx hx' with hbelow | hbelow
  · exact hapart ha hb hab hbelow
  · exact hapart hb ha (Ne.symm hab) hbelow

/-! ## The way up -/

/-- The nodes have levels: each stands under one of a lower level, there are no more levels than
numbers given so far, and a node that is there is on none but the last of them. -/
theorem exists_level (h : d.IsTree) : ∃ level : NodeId → Nat,
    (∀ p, ∀ c ∈ d.children p, level p < level c) ∧ (∀ x, level x ≤ d.nodes.size) ∧
      ∀ x < d.nodes.size, level x < d.nodes.size := by
  classical
  -- the level of a node is the number of nodes above it
  let above (x : NodeId) : Finset NodeId :=
    (Finset.range d.nodes.size).filter fun a => Relation.TransGen (fun p c => c ∈ d.children p) a x
  refine ⟨fun x => (above x).card, fun p c hc => Finset.card_lt_card ?_, fun x => ?_, fun x hx => ?_⟩
  · rw [Finset.ssubset_iff_of_subset]
    · have hp : p < d.nodes.size := by
        obtain ⟨n, hn⟩ := contains_iff.1 (contains_of_mem_children hc)
        exact Document.lt_size hn
      exact ⟨p, by simp [above, hp, Relation.TransGen.single (r := fun p c => c ∈ d.children p) hc],
        by simp [above, h.acyclic p]⟩
    · intro a ha
      simp only [above, Finset.mem_filter] at ha ⊢
      exact ⟨ha.1, ha.2.tail hc⟩
  · exact (Finset.card_filter_le _ _).trans_eq (Finset.card_range _)
  · -- a node is not above itself
    have hlt : above x ⊂ Finset.range d.nodes.size :=
      Finset.filter_ssubset.2 ⟨x, Finset.mem_range.2 hx, h.acyclic x⟩
    exact (Finset.card_lt_card hlt).trans_eq (Finset.card_range _)

/-- The search upward from a node finds every node that it is below. -/
theorem mem_ancestors (h : d.IsTree) (hx : d.Below a x) : a ∈ d.ancestors x := by
  obtain ⟨level, hlevel, hle, -⟩ := h.exists_level
  have hup {count : Nat} (hcount : level x < count) : a ∈ d.ancestorsUpTo count x := by
    induction hx generalizing count with
    | refl =>
      obtain ⟨count, rfl⟩ := Nat.exists_eq_succ_of_ne_zero (Nat.ne_of_gt (Nat.zero_lt_of_lt hcount))
      rw [ancestorsUpTo]
      split <;> exact List.mem_cons_self ..
    | @tail q c _ hc ih =>
      obtain ⟨count, rfl⟩ := Nat.exists_eq_succ_of_ne_zero (Nat.ne_of_gt (Nat.zero_lt_of_lt hcount))
      rw [ancestorsUpTo, h.linked q c hc]
      exact List.mem_cons_of_mem _ (ih (by have := hlevel q c hc; omega))
  exact hup (Nat.lt_succ_of_le (hle x))

theorem not_below_of_isAncestorOrSelf (h : d.IsTree) (hx : d.isAncestorOrSelf a x = false) :
    ¬d.Below a x := by
  intro hbelow
  rw [isAncestorOrSelf, List.contains_eq_mem, decide_eq_false_iff_not] at hx
  exact hx (h.mem_ancestors hbelow)

/-! ## The way down -/

/-- What the walk through a subtree meets is below its root. -/
theorem below_of_mem_descendantsTo {depth : Nat} (hx : x ∈ d.descendantsTo depth id) :
    d.Below id x := by
  induction depth generalizing id with
  | zero => cases hx
  | succ depth ih =>
    rw [descendantsTo] at hx
    cases hn : d.get? id with
    | none =>
      rw [hn] at hx
      cases hx
    | some n =>
      rw [hn] at hx
      rcases List.mem_cons.1 hx with rfl | hx
      · exact .refl
      · obtain ⟨c, hc, hx⟩ := List.mem_flatMap.1 hx
        have hchildren : d.children id = n.children := by
          rw [children, hn]
          rfl
        exact .head (by rwa [hchildren]) (ih hx)

theorem contains_of_mem (h : d.IsTree) (ha : a ∈ d.children p) : d.contains a :=
  contains_of_parent? (h.linked p a ha)

/-- The walk through the subtree of a node that is there meets all that is below it. -/
theorem mem_descendants (h : d.IsTree) (hid : d.contains id) :
    x ∈ d.descendants id ↔ d.Below id x := by
  refine ⟨below_of_mem_descendantsTo, fun hx => ?_⟩
  obtain ⟨level, hlevel, -, hlast⟩ := h.exists_level
  have hdown {depth : Nat} (hdepth : d.nodes.size ≤ level id + depth) :
      x ∈ d.descendantsTo depth id := by
    induction depth generalizing id with
    | zero =>
      obtain ⟨n, hn⟩ := contains_iff.1 hid
      have := hlast id (Document.lt_size hn)
      omega
    | succ depth ih =>
      obtain ⟨n, hn⟩ := contains_iff.1 hid
      have hchildren : d.children id = n.children := by
        rw [children, hn]
        rfl
      rw [descendantsTo, hn]
      rcases Relation.ReflTransGen.cases_head hx with rfl | ⟨c, hc, hcx⟩
      · exact List.mem_cons_self ..
      · have hlt := hlevel id c hc
        exact List.mem_cons_of_mem _ (List.mem_flatMap.2
          ⟨c, by rwa [← hchildren], ih (h.contains_of_mem hc) hcx (by omega)⟩)
  exact hdown (by omega)

/-! ## Changes -/

theorem empty : Document.empty.IsTree where
  linked p c hc := by simp at hc
  nodup p := by simp
  acyclic p hp := by
    obtain ⟨q, -, hq⟩ := Relation.TransGen.tail'_iff.1 hp
    simp at hq

/-- Changes that put nothing under another node. -/
theorem sublist (h : d.IsTree) (hlinked : d'.Linked)
    (hchildren : ∀ p, (d'.children p).Sublist (d.children p)) : d'.IsTree where
  linked := hlinked
  nodup p := (h.nodup p).sublist (hchildren p)
  acyclic p hp := h.acyclic p (Relation.TransGen.mono (fun q _ hc => (hchildren q).subset hc) p p hp)

theorem congr (h : d.IsTree) (hparent : ∀ j, d'.parent? j = d.parent? j)
    (hchildren : ∀ j, d'.children j = d.children j) : d'.IsTree :=
  h.sublist (h.linked.congr hparent hchildren) fun p => by rw [hchildren]

theorem create (h : d.IsTree) (kind : NodeKind) : (d.create kind).2.IsTree :=
  h.congr (parent?_create d kind) (children_create d kind)

theorem unlink (h : d.IsTree) (id : NodeId) : (d.unlink id).IsTree := by
  refine h.sublist (h.linked.unlink id) fun p => ?_
  rw [children_unlink]
  split
  · exact List.filter_sublist
  · exact .refl _

/-- Taking a node out puts nothing below another node. -/
theorem below_of_unlink (hx : (d.unlink id).Below a x) : d.Below a x := by
  refine Relation.ReflTransGen.mono (fun q c hc => ?_) a x hx
  rw [children_unlink] at hc
  split at hc
  · exact (List.mem_filter.1 hc).1
  · exact hc

/-- A node that stands nowhere may be put under another one that is not below it. -/
theorem link (h : d.IsTree) {parent : NodeId} (hid : d.contains id) (hp : d.contains parent)
    (hfree : ∀ q, id ∉ d.children q) (hbelow : ¬d.Below id parent) (place : Nat) :
    (d.link parent id place).IsTree := by
  have hstep (q c : NodeId) (hc : c ∈ (d.link parent id place).children q) :
      c ∈ d.children q ∨ q = parent ∧ c = id := by
    rw [children_link hp] at hc
    split at hc
    · rename_i hq
      rcases mem_of_mem_insertIdx hc with rfl | hc
      · exact .inr ⟨hq, rfl⟩
      · rw [hq]
        exact .inl hc
    · exact .inl hc
  refine ⟨h.linked.link hid hp hfree place, fun q => ?_, fun q hq => ?_⟩
  · rw [children_link hp]
    split
    · exact nodup_insertIdx (h.nodup parent) (hfree parent)
    · exact h.nodup q
  · rcases transGen_of_oneMore hstep hq with hold | ⟨hto, hfrom⟩
    · exact h.acyclic q hold
    · exact hbelow (hfrom.trans hto)

theorem append (h : d.IsTree) {parent child : NodeId} (ok : d.append parent child = .ok d') :
    d'.IsTree := by
  obtain ⟨hp, hc, habove, rfl⟩ := append_eq_ok ok
  exact (h.unlink child).link (by simpa using hc) (by simpa using hp)
    (h.linked.notMem_children_unlink child)
    (fun hbelow => h.not_below_of_isAncestorOrSelf habove (below_of_unlink hbelow)) _

theorem insertBefore (h : d.IsTree) {reference node : NodeId}
    (ok : d.insertBefore reference node = .ok d') : d'.IsTree := by
  obtain ⟨hn, ⟨-, rfl⟩ | ⟨parent, place, hp, habove, hplace, hne, rfl⟩⟩ := insertBefore_eq_ok ok
  · exact h
  · obtain ⟨q, hq, hmem⟩ := contains_of_indexInParent? hplace
    rw [parent?_unlink, if_neg (Ne.symm hne), hp] at hq
    cases hq
    exact (h.unlink node).link (by simpa using hn) (contains_of_mem_children hmem)
      (h.linked.notMem_children_unlink node)
      (fun hbelow => h.not_below_of_isAncestorOrSelf habove (below_of_unlink hbelow)) place

theorem detach (h : d.IsTree) (ok : d.detach id = .ok d') : d'.IsTree := by
  obtain ⟨u, -, ok⟩ := exists_of_bind_eq_ok ok
  cases ok
  exact h.unlink id

theorem remove (h : d.IsTree) (ok : d.remove id = .ok d') : d'.IsTree := by
  refine h.sublist (h.linked.remove ok) fun p => ?_
  obtain ⟨gone, -, -, -, hchildren, -⟩ := remove_spec h.linked ok
  rw [hchildren]
  split
  · exact List.nil_sublist _
  · exact List.filter_sublist

theorem modifyElement (h : d.IsTree) {f : Element → Element} (ok : d.modifyElement id f = .ok d') :
    d'.IsTree := by
  obtain ⟨-, hparent, hchildren, -⟩ := modifyElement_eq_ok ok
  exact h.congr hparent hchildren

theorem setText (h : d.IsTree) {s : String} (ok : d.setText id s = .ok d') : d'.IsTree := by
  obtain ⟨-, hparent, hchildren, -⟩ := setText_eq_ok ok
  exact h.congr hparent hchildren

/-- Copies are put under copies. -/
theorem cloneTo (h : d.IsTree) {depth : Nat} {copy : NodeId}
    (ok : Document.cloneTo depth d id = .ok (copy, d')) : d'.IsTree := by
  induction depth generalizing d id copy d' with
  | zero => cases ok
  | succ depth ih =>
    rw [Document.cloneTo] at ok
    cases hn : d.get? id with
    | none =>
      rw [hn] at ok
      cases ok
    | some n =>
      rw [hn] at ok
      obtain ⟨e, hfold, ok⟩ := exists_of_bind_eq_ok ok
      cases ok
      refine foldlM_keeps (fun e child e' he hstep => ?_) (h.create n.kind) hfold
      obtain ⟨⟨childCopy, e₁⟩, hcopy, happend⟩ := exists_of_bind_eq_ok hstep
      exact (ih he hcopy).append happend

end IsTree

/-- Documents that are made from the empty one by changes. -/
inductive Built : Document → Prop
  | empty : Built .empty
  | create {d : Document} (kind : NodeKind) (h : Built d) : Built (d.create kind).2
  | append {d d' : Document} {parent child : NodeId} (h : Built d)
      (ok : d.append parent child = .ok d') : Built d'
  | insertBefore {d d' : Document} {reference node : NodeId} (h : Built d)
      (ok : d.insertBefore reference node = .ok d') : Built d'
  | detach {d d' : Document} {id : NodeId} (h : Built d) (ok : d.detach id = .ok d') : Built d'
  | remove {d d' : Document} {id : NodeId} (h : Built d) (ok : d.remove id = .ok d') : Built d'
  | deepClone {d d' : Document} {id copy : NodeId} (h : Built d)
      (ok : d.deepClone id = .ok (copy, d')) : Built d'
  | modifyElement {d d' : Document} {id : NodeId} {f : Element → Element} (h : Built d)
      (ok : d.modifyElement id f = .ok d') : Built d'
  | setText {d d' : Document} {id : NodeId} {s : String} (h : Built d)
      (ok : d.setText id s = .ok d') : Built d'

/-- Whatever changes a document is made by, it is a tree. -/
theorem Built.isTree (h : d.Built) : d.IsTree := by
  induction h with
  | empty => exact .empty
  | create kind _ ih => exact ih.create kind
  | append _ ok ih => exact ih.append ok
  | insertBefore _ ok ih => exact ih.insertBefore ok
  | detach _ ok ih => exact ih.detach ok
  | remove _ ok ih => exact ih.remove ok
  | deepClone _ ok ih => exact ih.cloneTo ok
  | modifyElement _ ok ih => exact ih.modifyElement ok
  | setText _ ok ih => exact ih.setText ok

end ReactiveMarkup.Document
