import ReactiveMarkup.Proofs.Document.Furnished

/-!
# Changes that leave marks alone

A change is harmless if the document stays well formed and furnished, and each old node that is
still there has kept its two marks: the number of its scope and whether it is a copy. All rendering
is harmless, and so is making and removing copies.

Main definitions: `Document.Harmless`.
Main results: `Document.Harmless.modifyElement`, `Document.Harmless.setText`,
`Document.Harmless.remove`, `Document.Harmless.copy`.
-/
namespace ReactiveMarkup.Document

/-- A change that harms neither marks nor what stands below marked elements. -/
structure Harmless (mark : String) (parts : Nat → List Nat) (d d' : Document) : Prop where
  size_le : d.nodes.size ≤ d'.nodes.size
  linked : d'.Linked
  furnished : d'.Furnished mark parts
  old : ∀ n < d.nodes.size, d'.contains n → d.contains n ∧
    d'.attribute? n mark = d.attribute? n mark ∧
    d'.attribute? n Marker.clone = d.attribute? n Marker.clone

variable {d d' : Document} {mark : String} {parts : Nat → List Nat} {id : NodeId}

theorem contains_congr (h : d'.kind? id = d.kind? id) : d'.contains id = d.contains id := by
  rw [contains_iff_kind?, contains_iff_kind?, h]

namespace Harmless

theorem refl (hl : d.Linked) (hf : d.Furnished mark parts) : Harmless mark parts d d :=
  ⟨Nat.le_refl _, hl, hf, fun _ _ hn => ⟨hn, rfl, rfl⟩⟩

/-- A copy that is still there is still marked as one. -/
theorem isSome_clone (h : Harmless mark parts d d') {n : NodeId} (hn : n < d.nodes.size)
    (hclone : d.contains n → (d.attribute? n Marker.clone).isSome) (hin : d'.contains n) :
    (d'.attribute? n Marker.clone).isSome := by
  obtain ⟨hin', -, hsame⟩ := h.old n hn hin
  rw [hsame]
  exact hclone hin'

/-- Changing an element in other attributes. -/
theorem modifyElement (hl : d.Linked) (hf : d.Furnished mark parts) {f : Element → Element}
    (hmark : ∀ e, (f e).attribute? mark = e.attribute? mark)
    (hclone : ∀ e, (f e).attribute? Marker.clone = e.attribute? Marker.clone)
    (ok : d.modifyElement id f = .ok d') : Harmless mark parts d d' := by
  have hlinked := hl.modifyElement ok
  obtain ⟨hsize, -, hchildren, e, he, hkind⟩ := modifyElement_eq_ok ok
  have hattr (name : String) (hname : ∀ e, (f e).attribute? name = e.attribute? name)
      (n : NodeId) : d'.attribute? n name = d.attribute? n name := by
    by_cases hn : n = id
    · subst hn
      simp only [attribute?, element?, hkind, he, if_true, Option.bind_some]
      exact hname e
    · exact attribute?_congr (by rw [hkind, if_neg hn]) name
  refine ⟨Nat.le_of_eq hsize.symm, hlinked,
    hf.congr (Nat.le_of_eq hsize.symm) hchildren (hattr mark hmark) (hattr _ hclone),
    fun n _ hn => ⟨?_, hattr mark hmark n, hattr _ hclone n⟩⟩
  by_cases hnid : n = id
  · rw [hnid, contains_iff_kind?, he]
    rfl
  · have hsame : d'.kind? n = d.kind? n := by rw [hkind, if_neg hnid]
    rwa [contains_congr hsame] at hn

/-- Setting a text. -/
theorem setText (hl : d.Linked) (hf : d.Furnished mark parts) {s : String}
    (ok : d.setText id s = .ok d') : Harmless mark parts d d' := by
  obtain ⟨hsize, hparent, hchildren, helement, hcontains⟩ := setText_eq_ok ok
  have hattr (name : String) (n : NodeId) : d'.attribute? n name = d.attribute? n name := by
    rw [attribute?, attribute?, helement]
  refine ⟨Nat.le_of_eq hsize.symm, hl.congr hparent hchildren,
    hf.congr (Nat.le_of_eq hsize.symm) hchildren (hattr mark) (hattr _),
    fun n _ hn => ⟨?_, hattr mark n, hattr _ n⟩⟩
  rwa [hcontains] at hn

/-- Removing a copy. -/
theorem remove (hl : d.Linked) (hf : d.Furnished mark parts)
    (hcopy : (d.attribute? id Marker.clone).isSome) (ok : d.remove id = .ok d') :
    Harmless mark parts d d' := by
  have hlinked := hl.remove ok
  have hfurnished := hf.remove hl hcopy ok
  obtain ⟨gone, hsize, hkind, -⟩ := remove_spec hl ok
  refine ⟨Nat.le_of_eq hsize.symm, hlinked, hfurnished, fun n _ hn => ?_⟩
  have hg : n ∉ gone := by
    intro hg
    rw [contains_iff_kind?, hkind, if_pos hg] at hn
    cases hn
  have hsame : d'.kind? n = d.kind? n := by rw [hkind, if_neg hg]
  rw [contains_congr hsame] at hn
  exact ⟨hn, attribute?_congr hsame mark, attribute?_congr hsame _⟩

/-- Making a copy that is not marked as one yet, and stands under nothing. -/
theorem deepClone {node : NodeId} (hl : d.Linked) (hf : d.Furnished mark parts)
    (ok : d.deepClone id = .ok (node, d')) : Harmless mark parts d d' := by
  obtain ⟨φ, hc⟩ := deepClone_copied hl ok
  refine ⟨hc.grows.size_le, hc.linked, hf.deepClone hl ok, fun n hn hin => ?_⟩
  have hsame := hc.grows.kind? hn
  rw [contains_congr hsame] at hin
  exact ⟨hin, attribute?_congr hsame mark, attribute?_congr hsame _⟩

/-- Making a copy, which has the first mark of what it copies, and its own second one. -/
theorem copy {d₁ d₂ : Document} {element node : NodeId} {v : String} (hl : d.Linked)
    (hf : d.Furnished mark parts) (hmark : mark ≠ Marker.clone)
    (hclone : d.deepClone element = .ok (node, d₁))
    (hset : d₁.setAttribute node Marker.clone v = .ok d₂) :
    Harmless mark parts d d₂ ∧ d.contains element ∧
      ∀ d₃, d₂.insertBefore element node = .ok d₃ → Harmless mark parts d d₃ ∧
        d₃.attribute? node mark = d.attribute? element mark ∧
        (d₃.attribute? node Marker.clone).isSome := by
  obtain ⟨φ, hc⟩ := deepClone_copied hl hclone
  have hnew : ∀ n < d.nodes.size, n ≠ node := by
    rintro n hn rfl
    rw [hc.copy_eq] at hn
    exact Nat.lt_irrefl _ hn
  have hf₁ := hf.deepClone hl hclone
  have hf₂ := hf₁.markClone hc.linked hmark hc.detached hset
  have hl₂ : d₂.Linked := hc.linked.modifyElement hset
  obtain ⟨hsize, hparent, -, e, he, hkind⟩ := modifyElement_eq_ok hset
  have hdetached : d₂.parent? node = none := by
    rw [hparent]
    exact hc.detached
  have hsize₂ : d.nodes.size ≤ d₂.nodes.size := by
    rw [hsize]
    exact hc.grows.size_le
  have hold : ∀ n < d.nodes.size, d₂.kind? n = d.kind? n := by
    intro n hn
    rw [hkind, if_neg (hnew n hn), hc.grows.kind? hn]
  have hself (name : String) :
      d₂.attribute? node name = (e.setAttribute Marker.clone v).attribute? name := by
    simp [attribute?, element?, hkind]
  have hm := hc.mirrors node (Nat.le_of_eq hc.copy_eq.symm) hc.lt_size
  refine ⟨⟨hsize₂, hl₂, hf₂, fun n hn hin => ?_⟩, ?_, fun d₃ hinsert => ?_⟩
  · have hsame := hold n hn
    rw [contains_congr hsame] at hin
    exact ⟨hin, attribute?_congr hsame mark, attribute?_congr hsame _⟩
  · rw [contains_iff_kind?, ← hc.root, ← hm.kind?_eq, he]
    rfl
  · have hl₃ := hl₂.insertBefore hinsert
    have hf₃ := hf₂.insertBefore hdetached hinsert
    have hkeep : d₃.nodes.size = d₂.nodes.size ∧ ∀ n, d₃.kind? n = d₂.kind? n := by
      obtain ⟨-, ⟨-, rfl⟩ | ⟨parent, place, -, -, -, -, rfl⟩⟩ := insertBefore_eq_ok hinsert
      · exact ⟨rfl, fun n => rfl⟩
      · exact ⟨by simp, fun n => by simp⟩
    refine ⟨⟨hkeep.1 ▸ hsize₂, hl₃, hf₃, fun n hn hin => ?_⟩, ?_, ?_⟩
    · have hsame := (hkeep.2 n).trans (hold n hn)
      rw [contains_congr hsame] at hin
      exact ⟨hin, attribute?_congr hsame mark, attribute?_congr hsame _⟩
    · rw [← hc.root, ← hm.attribute?_eq, attribute?_congr (hkeep.2 node), hself,
        Element.attribute?_setAttribute_of_ne hmark]
      simp [attribute?, element?, he]
    · rw [attribute?_congr (hkeep.2 node), hself, Element.attribute?_setAttribute_self]
      rfl

end Harmless

end ReactiveMarkup.Document
