import ReactiveMarkup.Document.Markers
import ReactiveMarkup.Proofs.Document.Edit

/-!
# Nodes know where they stand

In a linked document every node that stands under another one has that one as its parent, so no node
stands in two places. Changes keep documents linked. An open path leads from a node down to another
one without entering a copy; changes outside of it leave it open.

Main definitions: `Document.Linked`, `Document.Open`.
Main results: `Document.Linked.append`, `Document.Linked.insertBefore`, `Document.Linked.remove`,
`Document.Open.spared`.
-/
namespace ReactiveMarkup.Document

variable {d d' : Document} {id p c : NodeId}

/-- Every node that stands under another one has it as its parent. -/
def Linked (d : Document) : Prop := ∀ p, ∀ c ∈ d.children p, d.parent? c = some p

namespace Linked

theorem lt_size (h : d.Linked) (hc : c ∈ d.children p) : c < d.nodes.size := by
  obtain ⟨n, hn⟩ := contains_iff.1 (contains_of_parent? (h p c hc))
  exact Document.lt_size hn

theorem parent_unique {q : NodeId} (h : d.Linked) (hp : c ∈ d.children p)
    (hq : c ∈ d.children q) : p = q :=
  Option.some.inj ((h p c hp).symm.trans (h q c hq))

/-- Changes that leave the tree alone. -/
theorem congr (h : d.Linked) (hparent : ∀ j, d'.parent? j = d.parent? j)
    (hchildren : ∀ j, d'.children j = d.children j) : d'.Linked := by
  intro p c hc
  rw [hchildren] at hc
  rw [hparent]
  exact h p c hc

theorem notMem_of_parent?_eq_none (h : d.Linked) (hid : d.parent? id = none) :
    id ∉ d.children p := by
  intro hm
  rw [h p id hm] at hid
  cases hid

theorem notMem_children_unlink (h : d.Linked) (id p : NodeId) :
    id ∉ (d.unlink id).children p := by
  intro hm
  rw [children_unlink] at hm
  split at hm
  · simp at hm
  · rename_i hp
    exact hp (h p id hm)

theorem unlink (h : d.Linked) (id : NodeId) : (d.unlink id).Linked := by
  intro p c hc
  have hne : c ≠ id := by
    intro hcid
    rw [hcid] at hc
    exact h.notMem_children_unlink id p hc
  rw [parent?_unlink, if_neg hne]
  rw [children_unlink] at hc
  split at hc
  · exact h p c ((List.mem_filter.1 hc).1)
  · exact h p c hc

theorem link (h : d.Linked) {parent : NodeId} (hid : d.contains id) (hp : d.contains parent)
    (hfree : ∀ q, id ∉ d.children q) (place : Nat) : (d.link parent id place).Linked := by
  intro q c hc
  rw [parent?_link hid]
  rw [children_link hp] at hc
  by_cases hq : q = parent
  · rw [if_pos hq] at hc
    split
    · rw [hq]
    · rename_i hne
      rw [hq]
      exact h parent c ((mem_of_mem_insertIdx hc).resolve_left hne)
  · rw [if_neg hq] at hc
    have hne : c ≠ id := by
      intro hcid
      rw [hcid] at hc
      exact hfree q hc
    rw [if_neg hne]
    exact h q c hc

theorem append (h : d.Linked) {parent child : NodeId} (ok : d.append parent child = .ok d') :
    d'.Linked := by
  obtain ⟨hp, hc, -, rfl⟩ := append_eq_ok ok
  exact (h.unlink child).link (by simpa using hc) (by simpa using hp)
    (h.notMem_children_unlink child) _

end Linked

theorem contains_of_indexInParent? {place : Nat} (h : d.indexInParent? id = some place) :
    ∃ p, d.parent? id = some p ∧ id ∈ d.children p := by
  rw [indexInParent?, Option.bind_eq_some_iff] at h
  obtain ⟨p, hp, hi⟩ := h
  obtain ⟨hlt, hx, -⟩ := List.findIdx?_eq_some_iff_getElem.1 hi
  have hx' := beq_iff_eq.1 hx
  exact ⟨p, hp, hx' ▸ List.getElem_mem hlt⟩

theorem Linked.insertBefore (h : d.Linked) {reference node : NodeId}
    (ok : d.insertBefore reference node = .ok d') : d'.Linked := by
  obtain ⟨hn, ⟨-, rfl⟩ | ⟨parent, place, hp, -, hplace, hne, rfl⟩⟩ := insertBefore_eq_ok ok
  · exact h
  · obtain ⟨q, hq, hmem⟩ := contains_of_indexInParent? hplace
    rw [parent?_unlink, if_neg (Ne.symm hne), hp] at hq
    cases hq
    exact (h.unlink node).link (by simpa using hn) (contains_of_mem_children hmem)
      (h.notMem_children_unlink node) place

theorem parent?_create (d : Document) (kind : NodeKind) (j : NodeId) :
    (d.create kind).2.parent? j = d.parent? j := by
  rw [parent?, parent?, get?_create]
  split
  · rename_i h
    rw [get?_eq_none_of_size_le (Nat.le_of_eq h.symm)]
    rfl
  · rfl

theorem children_create (d : Document) (kind : NodeKind) (j : NodeId) :
    (d.create kind).2.children j = d.children j := by
  rw [children, children, get?_create]
  split
  · rename_i h
    rw [get?_eq_none_of_size_le (Nat.le_of_eq h.symm)]
    rfl
  · rfl

theorem Linked.create (h : d.Linked) (kind : NodeKind) : (d.create kind).2.Linked :=
  h.congr (parent?_create d kind) (children_create d kind)

theorem Linked.modifyElement (h : d.Linked) {f : Element → Element}
    (ok : d.modifyElement id f = .ok d') : d'.Linked := by
  obtain ⟨-, hparent, hchildren, -⟩ := modifyElement_eq_ok ok
  exact h.congr hparent hchildren

/-! ## Removing -/

/-- A node of a subtree is its root or stands under another node of it. -/
theorem mem_descendantsTo {depth : Nat} {j : NodeId} (h : j ∈ d.descendantsTo depth id) :
    j = id ∨ ∃ q ∈ d.descendantsTo depth id, j ∈ d.children q := by
  induction depth generalizing id with
  | zero => cases h
  | succ depth ih =>
    rw [descendantsTo] at h ⊢
    cases hn : d.get? id with
    | none =>
      rw [hn] at h
      cases h
    | some n =>
      rw [hn] at h
      simp only [List.mem_cons, List.mem_flatMap] at h ⊢
      rcases h with rfl | ⟨k, hk, hj⟩
      · exact .inl rfl
      · right
        have hk' : k ∈ d.children id := by
          rw [children, hn]
          exact hk
        rcases ih hj with rfl | ⟨q, hq, hjq⟩
        · exact ⟨id, .inl rfl, hk'⟩
        · exact ⟨q, .inr ⟨k, hk, hq⟩, hjq⟩

/-- What a removal takes away: no node that stays has one of the removed nodes under it. -/
theorem remove_spec (h : d.Linked) (ok : d.remove id = .ok d') :
    ∃ gone : List NodeId, d'.nodes.size = d.nodes.size ∧
      (∀ j, d'.kind? j = if j ∈ gone then none else d.kind? j) ∧
      (∀ j, d'.parent? j = if j ∈ gone ∨ j = id then none else d.parent? j) ∧
      (∀ j, d'.children j = if j ∈ gone then [] else (d.children j).filter (· != id)) ∧
      ∀ p ∉ gone, ∀ c ∈ d.children p, c ≠ id → c ∉ gone := by
  obtain ⟨-, -, rfl⟩ := remove_eq_ok ok
  refine ⟨(d.unlink id).descendants id, by simp, fun j => ?_, fun j => ?_, fun j => ?_, ?_⟩
  · rw [kind?, get?_free]
    split
    · rfl
    · exact kind?_unlink d id j
  · rw [parent?, get?_free]
    by_cases hj : j ∈ (d.unlink id).descendants id
    · rw [if_pos hj, if_pos (.inl hj)]
      rfl
    · have hp := parent?_unlink d id j
      rw [if_neg hj, ← parent?, hp]
      by_cases hid : j = id
      · rw [if_pos hid, if_pos (.inr hid)]
      · rw [if_neg hid, if_neg (not_or.2 ⟨hj, hid⟩)]
  · rw [children, get?_free]
    split
    · rfl
    · rw [← children, children_unlink]
      split
      · rfl
      · rename_i hp
        rw [List.filter_eq_self.2]
        intro c hc
        have hne : c ≠ id := by
          intro hcid
          rw [hcid] at hc
          exact hp (h j id hc)
        simpa using hne
  · intro p hp c hc hne hgone
    rcases mem_descendantsTo hgone with rfl | ⟨q, hq, hcq⟩
    · exact hne rfl
    · rw [children_unlink] at hcq
      have hcq' : c ∈ d.children q := by
        split at hcq
        · exact (List.mem_filter.1 hcq).1
        · exact hcq
      rw [h.parent_unique hc hcq'] at hp
      exact hp hq

theorem Linked.remove (h : d.Linked) (ok : d.remove id = .ok d') : d'.Linked := by
  obtain ⟨gone, -, -, hparent, hchildren, hclosed⟩ := remove_spec h ok
  intro p c hc
  rw [hchildren] at hc
  split at hc
  · cases hc
  · rename_i hp
    obtain ⟨hc, hne⟩ := List.mem_filter.1 hc
    have hne : c ≠ id := by simpa using hne
    rw [hparent, if_neg]
    · exact h p c hc
    · rintro (hg | hg)
      · exact hclosed p hp c hc hne hg
      · exact hne hg

/-! ## Open paths -/

/-- A way of some length down from a node to another one on which no node is a copy. -/
inductive Open (d : Document) : Nat → NodeId → NodeId → Prop
  | here {n : NodeId} (h : d.attribute? n Marker.clone = none) : Open d 0 n n
  | under {k : Nat} {n c m : NodeId} (h : d.attribute? n Marker.clone = none)
      (hc : c ∈ d.children n) (rest : Open d k c m) : Open d (k + 1) n m

namespace Open

variable {k : Nat} {n m : NodeId}

theorem start (h : d.Open k n m) : d.attribute? n Marker.clone = none := by
  cases h <;> assumption

/-- A change that spares the nodes of a path, all of which satisfy `P`, leaves it open. -/
theorem spared {P : NodeId → Prop}
    (hmark : ∀ n, P n → d.attribute? n Marker.clone = none → d'.attribute? n Marker.clone = none)
    (hchildren : ∀ n, P n → ∀ c ∈ d.children n, d.attribute? c Marker.clone = none →
      c ∈ d'.children n ∧ P c)
    (h : d.Open k n m) (hn : P n) : d'.Open k n m ∧ P m := by
  induction h with
  | here h => exact ⟨.here (hmark _ hn h), hn⟩
  | under h hc rest ih =>
    obtain ⟨hc', hP⟩ := hchildren _ hn _ hc rest.start
    obtain ⟨hrest, hm⟩ := ih hP
    exact ⟨.under (hmark _ hn h) hc' hrest, hm⟩

/-- Paths may be put together. -/
theorem trans {l : Nat} {c x : NodeId} (h : d.Open k n m) (hc : c ∈ d.children m)
    (h' : d.Open l c x) : d.Open (k + l + 1) n x := by
  induction h with
  | here h =>
    rw [Nat.zero_add]
    exact .under h hc h'
  | @under k n c' m h hc' rest ih =>
    have : k + 1 + l + 1 = k + l + 1 + 1 := by omega
    rw [this]
    exact .under h hc' (ih hc)

end Open

end ReactiveMarkup.Document
