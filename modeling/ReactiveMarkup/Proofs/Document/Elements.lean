import ReactiveMarkup.Proofs.Document.Tree

/-!
# The elements of a subtree

The elements that a walk from element to element meets, in document order. In a tree they are met
once each, and they are the elements of the subtree; where only elements have something under them,
the subtree is everything below its root.

Main definitions: `Document.elements`, `Document.Within`.
Main results: `Document.IsTree.mem_elements`, `Document.IsTree.nodup_elements`,
`Document.IsTree.within_root`.
-/
namespace ReactiveMarkup

theorem flatMap_filter_eq {α β : Type} {p : α → Bool} {f g : α → List β} {xs : List α}
    (h : ∀ a ∈ xs, p a → f a = g a) (h' : ∀ a ∈ xs, ¬p a → g a = []) :
    (xs.filter p).flatMap f = xs.flatMap g := by
  induction xs with
  | nil => rfl
  | cons a xs ih =>
    have ih := ih (fun b hb => h b (List.mem_cons_of_mem _ hb))
      fun b hb => h' b (List.mem_cons_of_mem _ hb)
    by_cases ha : p a
    · rw [List.filter_cons_of_pos ha, List.flatMap_cons, List.flatMap_cons, ih,
        h a (List.mem_cons_self ..) ha]
    · rw [List.filter_cons_of_neg ha, List.flatMap_cons, ih, h' a (List.mem_cons_self ..) ha,
        List.nil_append]

namespace Document

/-- The elements of the subtree of an element in document order, down to `depth` levels. -/
def elementsTo (d : Document) : (depth : Nat) → NodeId → List NodeId
  | 0, _ => []
  | depth + 1, id => id :: (d.elementChildren id).flatMap (elementsTo d depth)

/-- The elements of the subtree of an element in document order. -/
def elements (d : Document) (id : NodeId) : List NodeId := d.elementsTo d.nodes.size id

/-- A node of the subtree of an element: the element itself, or a node under an element of it. -/
def Within (d : Document) : NodeId → NodeId → Prop :=
  Relation.ReflTransGen fun p c => d.isElement p ∧ c ∈ d.children p

variable {d : Document} {id p c x : NodeId}

theorem mem_elementChildren : c ∈ d.elementChildren p ↔ c ∈ d.children p ∧ d.isElement c := by
  rw [elementChildren, List.mem_filter]

theorem kind?_of_isElement (h : d.isElement id) : ∃ e, d.kind? id = some (.element e) := by
  rw [isElement, element?] at h
  split at h
  · exact ⟨_, ‹_›⟩
  · cases h

theorem isElement_of_kind? {e : Element} (h : d.kind? id = some (.element e)) : d.isElement id := by
  rw [isElement, element?, h]
  rfl

theorem contains_of_isElement (h : d.isElement id) : d.contains id := by
  rw [isElement, element?, kind?] at h
  cases hn : d.get? id with
  | none => simp [hn] at h
  | some n => exact contains_iff.2 ⟨n, hn⟩

theorem descendantsTo_succ {depth : Nat} (h : d.contains id) :
    d.descendantsTo (depth + 1) id = id :: (d.children id).flatMap (d.descendantsTo depth) := by
  obtain ⟨n, hn⟩ := contains_iff.1 h
  rw [descendantsTo, children, hn]
  rfl

theorem Within.below (h : d.Within id x) : d.Below id x :=
  Relation.ReflTransGen.mono (fun _ _ hc => hc.2) _ _ h

theorem within_of_mem_elementsTo {depth : Nat} (hid : d.isElement id)
    (hx : x ∈ d.elementsTo depth id) : d.isElement x ∧ d.Within id x := by
  induction depth generalizing id with
  | zero => cases hx
  | succ depth ih =>
    rw [elementsTo] at hx
    rcases List.mem_cons.1 hx with rfl | hx
    · exact ⟨hid, .refl⟩
    · obtain ⟨c, hc, hx⟩ := List.mem_flatMap.1 hx
      obtain ⟨hchild, helement⟩ := mem_elementChildren.1 hc
      obtain ⟨hx, hwithin⟩ := ih helement hx
      exact ⟨hx, .head ⟨hid, hchild⟩ hwithin⟩

namespace IsTree

/-- The walk through the subtree of an element meets all its elements. -/
theorem mem_elements (h : d.IsTree) (hid : d.isElement id) :
    x ∈ d.elements id ↔ d.isElement x ∧ d.Within id x := by
  refine ⟨within_of_mem_elementsTo hid, ?_⟩
  rintro ⟨helement, hx⟩
  obtain ⟨level, hlevel, -, hlast⟩ := h.exists_level
  have hdown {depth : Nat} (hdepth : d.nodes.size ≤ level id + depth) : x ∈ d.elementsTo depth id := by
    induction depth generalizing id with
    | zero =>
      obtain ⟨n, hn⟩ := contains_iff.1 (contains_of_isElement hid)
      have := hlast id (Document.lt_size hn)
      omega
    | succ depth ih =>
      rw [elementsTo]
      rcases Relation.ReflTransGen.cases_head hx with rfl | ⟨c, ⟨-, hc⟩, hcx⟩
      · exact List.mem_cons_self ..
      · have hchild : d.isElement c := by
          rcases Relation.ReflTransGen.cases_head hcx with rfl | ⟨y, ⟨hchild, -⟩, -⟩
          · exact helement
          · exact hchild
        have hlt := hlevel id c hc
        exact List.mem_cons_of_mem _ (List.mem_flatMap.2
          ⟨c, mem_elementChildren.2 ⟨hc, hchild⟩, ih hchild hcx (by omega)⟩)
  exact hdown (by omega)

/-- No element is met twice. -/
theorem nodup_elementsTo (h : d.IsTree) (depth : Nat) (hid : d.isElement id) :
    (d.elementsTo depth id).Nodup := by
  induction depth generalizing id with
  | zero => exact List.nodup_nil
  | succ depth ih =>
    rw [elementsTo, List.nodup_cons, List.nodup_flatMap]
    refine ⟨fun hx => ?_, fun c hc => ih (mem_elementChildren.1 hc).2, ?_⟩
    · obtain ⟨c, hc, hx⟩ := List.mem_flatMap.1 hx
      obtain ⟨hchild, helement⟩ := mem_elementChildren.1 hc
      exact h.not_below_child hchild (within_of_mem_elementsTo helement hx).2.below
    · refine List.Pairwise.imp_of_mem (fun {a b} ha hb hab => ?_) ((h.nodup id).filter _)
      obtain ⟨ha, helement⟩ := mem_elementChildren.1 ha
      obtain ⟨hb, helement'⟩ := mem_elementChildren.1 hb
      exact fun x hx hx' => h.not_below_both ha hb hab (within_of_mem_elementsTo helement hx).2.below
        (within_of_mem_elementsTo helement' hx').2.below

theorem nodup_elements (h : d.IsTree) (hid : d.isElement id) : (d.elements id).Nodup :=
  h.nodup_elementsTo _ hid

end IsTree

/-- In document order the parent of an element comes before it. -/
theorem elementsTo_parent_first {depth : Nat} {before after : List NodeId}
    (h : d.elementsTo depth id = before ++ x :: after) :
    before = [] ∧ x = id ∨ ∃ p ∈ before, x ∈ d.children p := by
  induction depth generalizing id before after x with
  | zero => simp [elementsTo] at h
  | succ depth ih =>
    -- below the element it is the element itself, or a node that comes first in what stands under it
    have hunder (nodes : List NodeId) (hnodes : nodes ⊆ d.children id) {before : List NodeId}
        (h : nodes.flatMap (d.elementsTo depth) = before ++ x :: after) :
        ∃ p ∈ id :: before, x ∈ d.children p := by
      induction nodes generalizing before with
      | nil => simp at h
      | cons n nodes ih' =>
        obtain ⟨hn, hrest⟩ := List.cons_subset.1 hnodes
        rw [List.flatMap_cons, List.append_eq_append_iff] at h
        rcases h with ⟨mid, hmid, h⟩ | ⟨mid, hfirst, h⟩
        · obtain ⟨p, hp, hx⟩ := ih' hrest h
          refine ⟨p, ?_, hx⟩
          rw [hmid]
          simp only [List.mem_cons, List.mem_append] at hp ⊢
          tauto
        · cases mid with
          | nil =>
            rw [List.append_nil] at hfirst
            have hrest' : nodes.flatMap (d.elementsTo depth) = [] ++ x :: after := h.symm
            obtain ⟨p, hp, hx⟩ := ih' hrest hrest'
            obtain rfl | hp := List.mem_cons.1 hp
            · exact ⟨p, List.mem_cons_self .., hx⟩
            · cases hp
          | cons y mid =>
            obtain ⟨rfl, -⟩ := List.cons.inj h
            rcases ih hfirst with ⟨-, rfl⟩ | ⟨p, hp, hx⟩
            · exact ⟨id, List.mem_cons_self .., hn⟩
            · exact ⟨p, List.mem_cons_of_mem _ hp, hx⟩
    rw [elementsTo] at h
    cases before with
    | nil => exact .inl ⟨rfl, (List.cons.inj h).1.symm⟩
    | cons y before =>
      rw [List.cons_append] at h
      obtain ⟨rfl, hrest⟩ := List.cons.inj h
      exact .inr (hunder _ List.filter_sublist.subset hrest)
/-- When the walk comes to an element, it has met nothing that stands under it. -/
theorem IsTree.child_notMem (h : d.IsTree) (hid : d.isElement id) {done : List NodeId}
    (hnext : done ++ [p] <+: d.elements id) (hc : c ∈ d.children p) : c ∉ done := by
  have hnodup : (done ++ [p]).Nodup := (h.nodup_elements hid).sublist hnext.sublist
  have hp : p ∉ done := fun hmem =>
    (List.nodup_append.1 hnodup).2.2 p hmem p (List.mem_singleton.2 rfl) rfl
  intro hmem
  obtain ⟨before, after, rfl⟩ := List.append_of_mem hmem
  obtain ⟨rest, hrest⟩ := hnext
  rw [List.append_assoc, List.append_assoc, List.cons_append] at hrest
  rcases elementsTo_parent_first hrest.symm with ⟨-, rfl⟩ | ⟨q, hq, hcq⟩
  · -- the first element met stands under none of its subtree
    have hwithin := within_of_mem_elementsTo hid (hrest ▸ List.mem_append_right _
      (List.mem_cons_of_mem _ (List.mem_append_right _ (List.mem_cons_self ..))))
    exact h.not_below_child hc hwithin.2.below
  · obtain rfl := h.linked.parent_unique hc hcq
    exact hp (List.mem_append_left _ hq)

/-! ## Documents as they are read

In a document that was read only elements have something under them, apart from its root. -/

section

variable (hleaf : ∀ p, ∀ c ∈ d.children p, p ≠ root → d.isElement p)

include hleaf

theorem children_eq_nil_of_not_isElement (hp : p ≠ root) (helement : ¬d.isElement p) : d.children p = [] :=
  List.eq_nil_iff_forall_not_mem.2 fun c hc => helement (hleaf p c hc hp)

/-- The subtree of an element is then all that is below it. -/
theorem within_iff_below (hroot : ¬d.Below id root) : d.Within id x ↔ d.Below id x := by
  refine ⟨Within.below, fun h => ?_⟩
  induction h with
  | refl => exact .refl
  | @tail p c hp hc ih =>
    refine ih.tail ⟨hleaf p c hc ?_, hc⟩
    rintro rfl
    exact hroot hp

/-- The elements of a subtree are then those of all nodes below its root, in the same order. -/
theorem elementsTo_eq_filter (h : d.IsTree) (depth : Nat) (hid : d.isElement id) (hroot : ¬d.Below id root) :
    d.elementsTo depth id = (d.descendantsTo depth id).filter d.isElement := by
  induction depth generalizing id with
  | zero => rfl
  | succ depth ih =>
    rw [elementsTo, descendantsTo_succ (contains_of_isElement hid), List.filter_cons_of_pos hid,
      List.filter_flatMap, elementChildren]
    refine congrArg (id :: ·) (flatMap_filter_eq (fun c hc helement => ?_) fun c hc helement => ?_)
    · exact ih helement fun hbelow => hroot (.head hc hbelow)
    · -- what is no element has nothing under it
      cases depth with
      | zero => rfl
      | succ depth =>
        have hchildren : d.children c = [] := by
          refine children_eq_nil_of_not_isElement hleaf ?_ helement
          rintro rfl
          exact hroot (.single hc)
        rw [descendantsTo_succ (h.contains_of_mem hc), hchildren, List.flatMap_nil,
          List.filter_cons_of_neg helement, List.filter_nil]

end

/-- The subtree of the outermost element of a document that was read: its nodes are those below the
element, and its elements are among them in the same order. -/
theorem IsTree.within_root (h : d.IsTree)
    (hleaf : ∀ p, ∀ c ∈ d.children p, p ≠ root → d.isElement p) (hid : d.documentElement? = some id) :
    (∀ x, d.Within id x ↔ d.Below id x) ∧ d.elements id = (d.descendants id).filter d.isElement := by
  have hroot : ¬d.Below id root := h.not_below_child (List.mem_of_find?_eq_some hid)
  have helement : d.isElement id := List.find?_some hid
  exact ⟨fun x => within_iff_below hleaf hroot, elementsTo_eq_filter hleaf h _ helement hroot⟩

end Document

end ReactiveMarkup
