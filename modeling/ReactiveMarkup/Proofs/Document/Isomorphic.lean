import ReactiveMarkup.Proofs.Document.InPlace
import ReactiveMarkup.Proofs.Document.Walk

/-!
# Copies are like what they were copied from

A copied subtree is new, and its nodes are those of the original in tree order: each is what its
original is, and under it stand the copies of what stands under that. So what is told of a subtree by
going down from its root, its text among it, is the same for both.

Main definitions: `Document.Isomorphic`.
Main results: `Document.Copied.isomorphic`, `Document.Copied.outerHtml_eq`, `Document.deepClone_like`.
-/
namespace ReactiveMarkup.Document

/-- The subtree of `copy` in `d'` is like that of `id` in `d`: in tree order its nodes go to those of
the other by `φ`, which keeps what they are and what stands under them. -/
structure Isomorphic (d : Document) (id : NodeId) (d' : Document) (copy : NodeId)
    (φ : NodeId → NodeId) : Prop where
  root : φ copy = id
  descendants : (d'.descendants copy).map φ = d.descendants id
  kind : ∀ x ∈ d'.descendants copy, d'.kind? x = d.kind? (φ x)
  children : ∀ x ∈ d'.descendants copy, (d'.children x).map φ = d.children (φ x)

variable {d₀ d d' : Document} {id copy j : NodeId} {first : Nat} {φ : NodeId → NodeId}

/-- What a node is decides what it says. -/
theorem ownText_congr {j' : NodeId} (h : d'.kind? j = d.kind? j') : d'.ownText j = d.ownText j' := by
  rw [ownText, ownText, h]

/-! ## Going down from a node and from its copy -/

/-- A node that mirrors another one is there if the other is, as that is and with its children. -/
theorem Mirrors.get?_eq (h : Mirrors d₀ d' first φ j) :
    d'.get? j = none ∧ d₀.get? (φ j) = none ∨
      ∃ n n₀, d'.get? j = some n ∧ d₀.get? (φ j) = some n₀ ∧ n.kind = n₀.kind ∧
        n.children.map φ = n₀.children ∧ ∀ c ∈ n.children, c ∈ d'.children j := by
  have hkind := h.kind?_eq
  have hchildren := h.children_eq
  rw [kind?, kind?] at hkind
  rw [Document.children, Document.children] at hchildren
  cases hn : d'.get? j with
  | none =>
    rw [hn] at hkind
    exact .inl ⟨rfl, Option.map_eq_none_iff.1 hkind.symm⟩
  | some n =>
    rw [hn] at hkind hchildren
    obtain ⟨n₀, hn₀, hsame⟩ := Option.map_eq_some_iff.1 hkind.symm
    rw [hn₀] at hchildren
    refine .inr ⟨n, n₀, rfl, hn₀, hsame.symm, hchildren, fun c hc => ?_⟩
    rw [Document.children, hn]
    exact hc

namespace Copied

/-- The copy and all that is below it mirrors. -/
theorem mirrors_of_below (h : Copied d₀ d d' id copy φ) (hj : d'.Below copy j) :
    Mirrors d₀ d' d.nodes.size φ j := by
  induction hj with
  | refl => exact h.mirrors copy (Nat.le_of_eq h.copy_eq.symm) h.lt_size
  | tail _ hc ih => exact h.mirrors _ (ih.new _ hc) (h.linked.lt_size hc)

/-- All of it is new. -/
theorem size_le_of_below (h : Copied d₀ d d' id copy φ) (hj : d'.Below copy j) :
    d.nodes.size ≤ j := by
  rcases Relation.ReflTransGen.cases_tail hj with rfl | ⟨p, hp, hc⟩
  · exact Nat.le_of_eq h.copy_eq.symm
  · exact (h.mirrors_of_below hp).new j hc

/-- The walk from a node of the copy takes the way of the walk from the original. -/
theorem map_descendantsTo (h : Copied d₀ d d' id copy φ) (hj : d'.Below copy j) (depth : Nat) :
    (d'.descendantsTo depth j).map φ = d₀.descendantsTo depth (φ j) := by
  induction depth generalizing j with
  | zero => rfl
  | succ depth ih =>
    rw [descendantsTo, descendantsTo]
    rcases (h.mirrors_of_below hj).get?_eq with ⟨hn, hn₀⟩ | ⟨n, n₀, hn, hn₀, -, hchildren, hmem⟩
    · rw [hn, hn₀]
      rfl
    · rw [hn, hn₀]
      dsimp only
      rw [List.map_cons, List.map_flatMap, ← hchildren, List.flatMap_map]
      exact congrArg (φ j :: ·) (List.flatMap_congr fun c hc => ih (hj.tail (hmem c hc)))

/-- Both are written alike. -/
theorem htmlTo_eq (h : Copied d₀ d d' id copy φ) (hj : d'.Below copy j) (depth : Nat) (raw : Bool) :
    d'.htmlTo depth raw j = d₀.htmlTo depth raw (φ j) := by
  induction depth generalizing j raw with
  | zero => rfl
  | succ depth ih =>
    rw [htmlTo, htmlTo]
    rcases (h.mirrors_of_below hj).get?_eq with ⟨hn, hn₀⟩ | ⟨n, n₀, hn, hn₀, hkind, hchildren, hmem⟩
    · rw [hn, hn₀]
    · have hunder (raw : Bool) :
          n.children.map (d'.htmlTo depth raw) = n₀.children.map (d₀.htmlTo depth raw) := by
        rw [← hchildren, List.map_map]
        exact List.map_congr_left fun c hc => ih (hj.tail (hmem c hc)) raw
      rw [hn, hn₀]
      simp only [hkind, hunder]

end Copied

/-! ## Copies of whole subtrees -/

namespace Copied

/-- In a tree, the copy of a subtree is like it. -/
theorem isomorphic (h : Copied d d d' id copy φ) (htree : d.IsTree) (hcopy : d'.contains copy)
    (htree' : d'.IsTree) : Isomorphic d id d' copy φ where
  root := h.root
  descendants := by
    rw [Document.descendants, h.map_descendantsTo .refl, h.root]
    exact htree.descendantsTo_eq h.grows.size_le
  kind x hx := (h.mirrors_of_below ((htree'.mem_descendants hcopy).1 hx)).kind?_eq
  children x hx := (h.mirrors_of_below ((htree'.mem_descendants hcopy).1 hx)).children_eq

theorem outerHtml_eq (h : Copied d d d' id copy φ) (htree : d.IsTree) :
    d'.outerHtml copy = d.outerHtml id := by
  rw [outerHtml, h.htmlTo_eq .refl, h.root]
  exact (htree.fits id).htmlTo_eq h.grows.size_le false

theorem contains_copy (h : Copied d d d' id copy φ) (hid : d.contains id) : d'.contains copy := by
  rw [contains_iff_kind?, (h.mirrors_of_below .refl).kind?_eq, h.root, ← contains_iff_kind?]
  exact hid

end Copied

theorem Isomorphic.textContent_eq (h : Isomorphic d id d' copy φ) :
    d'.textContent copy = d.textContent id := by
  rw [textContent, textContent, ← h.descendants, List.map_map]
  refine congrArg String.join (List.map_congr_left fun x hx => ?_)
  exact ownText_congr (h.kind x hx)

/-- A subtree can be copied wherever it stands. The copy is detached, and it is like the original: in
tree order its nodes are copies of those of the original, with their kinds, attributes and texts, and
with the copies of what stands under them. So it is written like the original and says the same. All
of its nodes are new, and those that were there stay as they were. The walks from both roots meet each
node of a subtree once and in tree order. -/
theorem deepClone_like (h : d.Built) (hid : d.contains id) :
    ∃ copy d', d.deepClone id = .ok (copy, d') ∧ d'.parent? copy = none ∧
      (∃ φ, Isomorphic d id d' copy φ) ∧ d'.outerHtml copy = d.outerHtml id ∧
      d'.textContent copy = d.textContent id ∧
      (∀ x ∈ d'.descendants copy, d'.contains x ∧ ¬d.contains x) ∧
      (∀ x, d.contains x → d'.get? x = d.get? x) ∧ d'.TreeOrder id ∧ d'.TreeOrder copy := by
  have htree := h.isTree
  obtain ⟨copy, d', ok⟩ := exists_deepClone htree hid
  obtain ⟨φ, hcopied⟩ := deepClone_copied htree.linked ok
  have htree' := (h.deepClone ok).isTree
  have hcopy := hcopied.contains_copy hid
  have hiso := hcopied.isomorphic htree hcopy htree'
  have hkept (x : NodeId) (hx : d.contains x) : d'.get? x = d.get? x := by
    obtain ⟨n, hn⟩ := contains_iff.1 hx
    exact hcopied.grows.get?_eq x (lt_size hn)
  have hid' : d'.contains id := by
    rw [contains, hkept id hid]
    exact hid
  refine ⟨copy, d', ok, hcopied.detached, ⟨φ, hiso⟩, hcopied.outerHtml_eq htree, hiso.textContent_eq,
    fun x hx => ?_, hkept, htree'.treeOrder hid', htree'.treeOrder hcopy⟩
  have hbelow := (htree'.mem_descendants hcopy).1 hx
  refine ⟨htree'.contains_of_below hcopy hbelow, fun hold => ?_⟩
  obtain ⟨n, hn⟩ := contains_iff.1 hold
  exact Nat.not_lt.2 (hcopied.size_le_of_below hbelow) (lt_size hn)

/-- Copying an item of a list with its text. -/
theorem deepClone_like_item :
    let d : Document := ⟨#[some ⟨.document, none, [1]⟩,
      some ⟨.element ⟨"li", [("id", "first")]⟩, some root, [2]⟩, some ⟨.text "item", some 1, []⟩]⟩
    d.Built ∧ d.contains 1 ∧ ∃ copy d', d.deepClone 1 = .ok (copy, d') ∧ d'.parent? copy = none ∧
      (∃ φ, Isomorphic d 1 d' copy φ) ∧ d'.outerHtml copy = d.outerHtml 1 ∧
      d'.textContent copy = d.textContent 1 := by
  intro d
  have hnodes : (((Document.empty.create (.element ⟨"li", [("id", "first")]⟩)).2.create
      (.text "item")).2).Built := .create _ (.create _ .empty)
  have h : d.Built := @Built.append _ d root 1 (@Built.append _ _ 1 2 hnodes rfl) rfl
  have hid : d.contains 1 := by decide
  obtain ⟨copy, d', ok, halone, hiso, hhtml, htext, -⟩ := deepClone_like h hid
  exact ⟨h, hid, copy, d', ok, halone, hiso, hhtml, htext⟩

end ReactiveMarkup.Document
