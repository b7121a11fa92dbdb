import ReactiveMarkup.Proofs.Document.Clone

/-!
# Elements with everything that belongs below them

Elements are marked with numbers, and a table tells which numbers belong below which. A document is
furnished if each marked element has, below it and outside of copies, an element for every number
that belongs there. Rendering and the making and removing of copies keep documents furnished.

Main definitions: `Document.Furnished`.
Main results: `Document.Furnished.deepClone`, `Document.Furnished.insertBefore`,
`Document.Furnished.remove`.
-/
namespace ReactiveMarkup.Document

/-- Each element marked `k` has elements marked with all of `parts k` below it, outside of copies.
Nothing is asked if what marks elements marks copies as well, as nothing is outside of copies then. -/
def Furnished (d : Document) (mark : String) (parts : Nat → List Nat) : Prop :=
  mark ≠ Marker.clone → ∀ n k, d.attribute? n mark = some (toString k) → ∀ i ∈ parts k, ∃ c ∈ d.children n, ∃ l m,
    d.Open l c m ∧ l < d.nodes.size ∧ d.attribute? m mark = some (toString i)

namespace Furnished

variable {d d' : Document} {mark : String} {parts : Nat → List Nat}

/-- A change that keeps marks, and spares whatever open paths lead through. -/
theorem spared (h : d.Furnished mark parts) (P : NodeId → Prop)
    (hsize : d.nodes.size ≤ d'.nodes.size)
    (hstart : ∀ n v, d'.attribute? n mark = some v → P n)
    (hattr : ∀ n, P n → d'.attribute? n mark = d.attribute? n mark)
    (hopen : ∀ n, P n → (∃ p, n ∈ d.children p) → d.attribute? n Marker.clone = none →
      d'.attribute? n Marker.clone = none)
    (hchildren : ∀ n, P n → ∀ c ∈ d.children n, d.attribute? c Marker.clone = none →
      c ∈ d'.children n ∧ P c) : d'.Furnished mark parts := by
  intro hmark n k hn i hi
  have hP := hstart n _ hn
  rw [hattr n hP] at hn
  obtain ⟨c, hc, l, m, hpath, hl, hm⟩ := h hmark n k hn i hi
  obtain ⟨hc', hPc⟩ := hchildren n hP c hc hpath.start
  obtain ⟨hpath', hPm⟩ := hpath.spared (P := fun n => P n ∧ ∃ p, n ∈ d.children p)
    (fun x hx ho => hopen x hx.1 hx.2 ho)
    (fun x hx y hy ho => ⟨(hchildren x hx.1 y hy ho).1, (hchildren x hx.1 y hy ho).2, x, hy⟩)
    ⟨hPc, n, hc⟩
  refine ⟨c, hc', l, m, hpath', Nat.lt_of_lt_of_le hl hsize, ?_⟩
  rw [hattr m hPm.1]
  exact hm

/-- Changes that leave the tree and both marks alone. -/
theorem congr (h : d.Furnished mark parts) (hsize : d.nodes.size ≤ d'.nodes.size)
    (hchildren : ∀ n, d'.children n = d.children n)
    (hattr : ∀ n, d'.attribute? n mark = d.attribute? n mark)
    (hclone : ∀ n, d'.attribute? n Marker.clone = d.attribute? n Marker.clone) :
    d'.Furnished mark parts := by
  refine h.spared (fun _ => True) hsize (fun _ _ _ => trivial) (fun n _ => hattr n) ?_ ?_
  · intro n _ _ ho
    rw [hclone]
    exact ho
  · intro n _ c hc _
    rw [hchildren]
    exact ⟨hc, trivial⟩

/-- Marking a node as a copy that stands under nothing. -/
theorem markClone (h : d.Furnished mark parts) (hl : d.Linked) {node : NodeId} {v : String}
    (hmark : mark ≠ Marker.clone) (hfree : d.parent? node = none)
    (ok : d.setAttribute node Marker.clone v = .ok d') : d'.Furnished mark parts := by
  obtain ⟨hsize, -, hchildren, e, he, hkind⟩ := modifyElement_eq_ok ok
  refine h.spared (fun _ => True) (Nat.le_of_eq hsize.symm) (fun _ _ _ => trivial) ?_ ?_ ?_
  · intro n _
    by_cases hn : n = node
    · subst hn
      simp only [attribute?, element?, hkind, he, if_true, Option.bind_some]
      exact Element.attribute?_setAttribute_of_ne hmark v
    · exact attribute?_congr (by rw [hkind, if_neg hn]) mark
  · intro n _ hp ho
    obtain ⟨p, hp⟩ := hp
    have hn : n ≠ node := by
      rintro rfl
      exact hl.notMem_of_parent?_eq_none hfree hp
    exact (attribute?_congr (by rw [hkind, if_neg hn]) Marker.clone).trans ho
  · intro n _ c hc _
    rw [hchildren]
    exact ⟨hc, trivial⟩

/-- Inserting a node that stood under nothing. -/
theorem insertBefore (h : d.Furnished mark parts) {reference node : NodeId}
    (hfree : d.parent? node = none) (ok : d.insertBefore reference node = .ok d') :
    d'.Furnished mark parts := by
  obtain ⟨hn, ⟨-, rfl⟩ | ⟨parent, place, hp, -, hplace, hne, rfl⟩⟩ := insertBefore_eq_ok ok
  · exact h
  · rw [unlink_of_parent?_eq_none hfree] at hplace ⊢
    obtain ⟨q, hq, hmem⟩ := contains_of_indexInParent? hplace
    obtain rfl := Option.some.inj (hp.symm.trans hq)
    refine h.spared (fun _ => True) (by simp) (fun _ _ _ => trivial) ?_ ?_ ?_
    · intro n _
      exact attribute?_congr (kind?_link ..) mark
    · intro n _ _ ho
      rw [attribute?_congr (kind?_link ..)]
      exact ho
    · intro n _ c hc _
      rw [children_link (contains_of_mem_children hmem)]
      split
      · rename_i hnp
        refine ⟨?_, trivial⟩
        subst hnp
        by_cases hle : place ≤ (d.children n).length
        · exact (List.mem_insertIdx hle).2 (.inr hc)
        · rw [List.insertIdx_of_length_lt (by omega)]
          exact hc
      · exact ⟨hc, trivial⟩

/-- Removing a copy. -/
theorem remove (h : d.Furnished mark parts) (hl : d.Linked) {node : NodeId}
    (hnode : (d.attribute? node Marker.clone).isSome) (ok : d.remove node = .ok d') :
    d'.Furnished mark parts := by
  obtain ⟨gone, hsize, hkind, -, hchildren, hclosed⟩ := remove_spec hl ok
  have hattr : ∀ n ∉ gone, ∀ name, d'.attribute? n name = d.attribute? n name := by
    intro n hn name
    exact attribute?_congr (by rw [hkind, if_neg hn]) name
  refine h.spared (fun n => n ∉ gone) (Nat.le_of_eq hsize.symm) ?_ ?_ ?_ ?_
  · intro n v hv hg
    have hk := hkind n
    rw [if_pos hg] at hk
    simp [attribute?, element?, hk] at hv
  · intro n hn
    exact hattr n hn mark
  · intro n hn _ ho
    rw [hattr n hn]
    exact ho
  · intro n hn c hc ho
    have hne : c ≠ node := by
      rintro rfl
      rw [ho] at hnode
      cases hnode
    rw [hchildren, if_neg hn, List.mem_filter]
    exact ⟨⟨hc, by simpa using hne⟩, hclosed n hn c hc hne⟩

/-- Copying a subtree. -/
theorem deepClone (h : d.Furnished mark parts) (hl : d.Linked) {node copy : NodeId}
    (ok : d.deepClone node = .ok (copy, d')) : d'.Furnished mark parts := by
  obtain ⟨φ, hc⟩ := deepClone_copied hl ok
  intro hmark n k hn i hi
  have hns : n < d'.nodes.size := by
    obtain ⟨x, hx⟩ := contains_iff.1 (contains_of_attribute? hn)
    exact lt_size hx
  rcases Nat.lt_or_ge n d.nodes.size with hlt | hge
  · -- an old node: its paths are still there
    rw [attribute?_congr (hc.grows.kind? hlt)] at hn
    obtain ⟨c, hmem, l, m, hpath, hlen, hm⟩ := h hmark n k hn i hi
    have hopen : ∀ x < d.nodes.size, d.attribute? x Marker.clone = none →
        d'.attribute? x Marker.clone = none := by
      intro x hx ho
      rw [attribute?_congr (hc.grows.kind? hx)]
      exact ho
    obtain ⟨hpath', hms⟩ := hpath.spared hopen
      (fun x hx y hy _ => ⟨by rw [hc.grows.children hx]; exact hy, hl.lt_size hy⟩)
      (hl.lt_size hmem)
    refine ⟨c, ?_, l, m, hpath', Nat.lt_of_lt_of_le hlen hc.grows.size_le, ?_⟩
    · rw [hc.grows.children hlt]
      exact hmem
    · rw [attribute?_congr (hc.grows.kind? hms)]
      exact hm
  · -- a new node: its paths are those of the node that it mirrors
    have hmir := hc.mirrors n hge hns
    rw [hmir.attribute?_eq] at hn
    obtain ⟨c, hmem, l, m, hpath, hlen, hm⟩ := h hmark (φ n) k hn i hi
    rw [← hmir.children_eq] at hmem
    obtain ⟨c', hc', hφ⟩ := List.mem_map.1 hmem
    obtain ⟨m', hge', hlt', rfl, hpath'⟩ :=
      hc.openPath (hmir.new c' hc') (hc.linked.lt_size hc') hφ hpath
    refine ⟨c', hc', l, m', hpath', Nat.lt_of_lt_of_le hlen hc.grows.size_le, ?_⟩
    rw [(hc.mirrors m' hge' hlt').attribute?_eq]
    exact hm

end Furnished

end ReactiveMarkup.Document
