import ReactiveMarkup.Document.Print
import ReactiveMarkup.Proofs.Document.Elements

/-!
# Walks through subtrees

What goes down from a node is told how many levels it may go. A subtree fits into a number of levels
if nothing is left below them; then more levels make no difference. In a tree every subtree fits into
as many levels as numbers were given. So the walk through a subtree meets each node of it once: the
node itself, and then what is met in the subtrees under it, one after the other.

Main definitions: `Document.Fits`, `Document.TreeOrder`.
Main results: `Document.IsTree.fits`, `Document.Fits.descendantsTo_eq`, `Document.Fits.htmlTo_eq`,
`Document.IsTree.treeOrder`.
-/
namespace ReactiveMarkup.Document

variable {d : Document} {id x : NodeId} {depth depth' : Nat}

/-- The subtree of a node has no more than this many levels. -/
def Fits (d : Document) : (depth : Nat) → NodeId → Prop
  | 0, id => d.get? id = none
  | depth + 1, id => ∀ c ∈ d.children id, Fits d depth c

namespace Fits

theorem child (h : d.Fits (depth + 1) id) {c : NodeId} (hc : c ∈ d.children id) : d.Fits depth c :=
  h c hc

/-- The walk is the same with more levels. -/
theorem descendantsTo_eq (h : d.Fits depth id) (hle : depth ≤ depth') :
    d.descendantsTo depth' id = d.descendantsTo depth id := by
  induction depth generalizing id depth' with
  | zero =>
    have hid : d.get? id = none := h
    cases depth' with
    | zero => rfl
    | succ depth' => simp only [descendantsTo, hid]
  | succ depth ih =>
    obtain ⟨depth', rfl⟩ : ∃ k, depth' = k + 1 := ⟨depth' - 1, by omega⟩
    rw [descendantsTo, descendantsTo]
    cases hn : d.get? id with
    | none => rfl
    | some n =>
      have hchildren : d.children id = n.children := by
        rw [children, hn]
        rfl
      refine congrArg (id :: ·) (List.flatMap_congr fun c hc => ?_)
      exact ih (h.child (hchildren ▸ hc)) (by omega)

/-- So is the text. -/
theorem htmlTo_eq (h : d.Fits depth id) (hle : depth ≤ depth') (raw : Bool) :
    d.htmlTo depth' raw id = d.htmlTo depth raw id := by
  induction depth generalizing id depth' raw with
  | zero =>
    have hid : d.get? id = none := h
    cases depth' with
    | zero => rfl
    | succ depth' => simp only [htmlTo, hid]
  | succ depth ih =>
    obtain ⟨depth', rfl⟩ : ∃ k, depth' = k + 1 := ⟨depth' - 1, by omega⟩
    rw [htmlTo, htmlTo]
    cases hn : d.get? id with
    | none => rfl
    | some n =>
      have hunder (raw : Bool) :
          n.children.map (d.htmlTo depth' raw) = n.children.map (d.htmlTo depth raw) := by
        refine List.map_congr_left fun c hc => ih (h.child ?_) (by omega) raw
        rw [children, hn]
        exact hc
      simp only [hunder]

end Fits

/-- The nodes of a subtree in tree order: each of them once, and every node before what is met in the
subtrees under it, one after the other. -/
structure TreeOrder (d : Document) (id : NodeId) : Prop where
  mem_iff : ∀ x, x ∈ d.descendants id ↔ d.Below id x
  nodup : (d.descendants id).Nodup
  eq_cons : ∀ x ∈ d.descendants id, d.descendants x = x :: (d.children x).flatMap d.descendants

namespace IsTree

/-- In a tree every subtree fits into as many levels as numbers were given. -/
theorem fits (h : d.IsTree) (id : NodeId) : d.Fits d.nodes.size id := by
  obtain ⟨level, hlevel, -, hlast⟩ := h.exists_level
  have hdown {depth : Nat} (hdepth : d.nodes.size ≤ level id + depth) : d.Fits depth id := by
    induction depth generalizing id with
    | zero =>
      cases hn : d.get? id with
      | none => exact hn
      | some n =>
        have := hlast id (Document.lt_size hn)
        omega
    | succ depth ih =>
      intro c hc
      have := hlevel id c hc
      exact ih c (by omega)
  exact hdown (by omega)

theorem descendantsTo_eq (h : d.IsTree) (hdepth : d.nodes.size ≤ depth) :
    d.descendantsTo depth id = d.descendants id :=
  (h.fits id).descendantsTo_eq hdepth

/-- The walk goes from a node to the subtrees under it. -/
theorem descendants_eq (h : d.IsTree) (hid : d.contains id) :
    d.descendants id = id :: (d.children id).flatMap d.descendants := by
  rw [← h.descendantsTo_eq (Nat.le_succ _), descendantsTo_succ hid]
  rfl

/-- It meets no node twice. -/
theorem nodup_descendantsTo (h : d.IsTree) (depth : Nat) (id : NodeId) :
    (d.descendantsTo depth id).Nodup := by
  induction depth generalizing id with
  | zero => exact List.nodup_nil
  | succ depth ih =>
    cases hid : d.contains id with
    | false =>
      have hnone : d.get? id = none := by simpa [contains] using hid
      simp [descendantsTo, hnone]
    | true =>
      rw [descendantsTo_succ hid, List.nodup_cons, List.nodup_flatMap]
      refine ⟨fun hx => ?_, fun c _ => ih c, ?_⟩
      · obtain ⟨c, hc, hx⟩ := List.mem_flatMap.1 hx
        exact h.not_below_child hc (below_of_mem_descendantsTo hx)
      · refine List.Pairwise.imp_of_mem (fun {a b} ha hb hab => ?_) (h.nodup id)
        exact fun x hx hx' => h.not_below_both ha hb hab (below_of_mem_descendantsTo hx)
          (below_of_mem_descendantsTo hx')

/-- What is below a node that is there is there. -/
theorem contains_of_below (h : d.IsTree) (hid : d.contains id) (hx : d.Below id x) : d.contains x := by
  rcases Relation.ReflTransGen.cases_tail hx with rfl | ⟨p, -, hp⟩
  · exact hid
  · exact h.contains_of_mem hp

theorem treeOrder (h : d.IsTree) (hid : d.contains id) : d.TreeOrder id where
  mem_iff _ := h.mem_descendants hid
  nodup := h.nodup_descendantsTo _ id
  eq_cons _ hx := h.descendants_eq (h.contains_of_below hid ((h.mem_descendants hid).1 hx))

end IsTree

end ReactiveMarkup.Document
