import ReactiveMarkup.Proofs.Document.InPlace
import ReactiveMarkup.Proofs.Document.Walk

/-!
# How long the root stays

Whatever calls are made, all that is below the root is there as long as the root is. A removal refuses
the root, and no other call frees it while it stands under nothing. But a node may be put under any
node that is not below it, and the root is no exception: it can be put into a detached tree, and goes
when that tree is removed.

Main definitions: `Document.Standing`, `Document.Call.Uproots`.
Main results: `Document.TwoWay.append_eq_ok_iff`, `Document.TwoWay.run_standing`,
`Document.afterCalls_root`.
-/
namespace ReactiveMarkup.Document

variable {d d' : Document} {a p x j : NodeId}

/-- The root is there and stands under nothing. -/
structure Standing (d : Document) : Prop where
  contains : d.contains root
  alone : d.parent? root = none

/-- A call that puts the root under another node, one that is not below it. -/
def Call.Uproots (d : Document) : Call → Prop
  | append parent child => child = root ∧ d.contains parent ∧ ¬d.Below root parent
  | insertBefore reference node =>
    node = root ∧ reference ≠ root ∧ ∃ parent, d.parent? reference = some parent ∧ ¬d.Below root parent
  | _ => False

/-! ## Which moves are refused -/

namespace TwoWay

/-- What the search upward meets is above the node or the node itself. -/
theorem below_of_mem_ancestors (h : d.TwoWay) (ha : a ∈ d.ancestors x) : d.Below a x := by
  have hup {count : Nat} {x : NodeId} (ha : a ∈ d.ancestorsUpTo count x) : d.Below a x := by
    induction count generalizing x with
    | zero => cases ha
    | succ count ih =>
      rw [ancestorsUpTo] at ha
      split at ha
      · rename_i p hp
        rcases List.mem_cons.1 ha with rfl | ha
        · exact .refl
        · exact (ih ha).tail (h.stands hp)
      · obtain rfl := List.mem_singleton.1 ha
        exact .refl
  exact hup ha

theorem isAncestorOrSelf_eq_false_iff (h : d.TwoWay) :
    d.isAncestorOrSelf a x = false ↔ ¬d.Below a x := by
  refine ⟨h.tree.not_below_of_isAncestorOrSelf, fun hbelow => ?_⟩
  rw [isAncestorOrSelf, List.contains_eq_mem, decide_eq_false_iff_not]
  exact fun ha => hbelow (h.below_of_mem_ancestors ha)

/-- A node may be put under any node that is not below it. -/
theorem append_eq_ok_iff (h : d.TwoWay) {parent child : NodeId} :
    (∃ d', d.append parent child = .ok d') ↔
      d.contains parent ∧ d.contains child ∧ ¬d.Below child parent := by
  constructor
  · rintro ⟨d', ok⟩
    obtain ⟨hp, hc, habove, -⟩ := append_eq_ok ok
    exact ⟨hp, hc, h.isAncestorOrSelf_eq_false_iff.1 habove⟩
  · rintro ⟨hp, hc, hbelow⟩
    exact append_of_not_above hp hc (h.isAncestorOrSelf_eq_false_iff.2 hbelow)

end TwoWay

/-- A node may be put before any other one that stands under a node not below it. -/
theorem TwoWay.insertBefore_eq_ok_iff (h : d.TwoWay) {reference node : NodeId}
    (hne : reference ≠ node) : (∃ d', d.insertBefore reference node = .ok d') ↔
      d.contains node ∧ ∃ parent, d.parent? reference = some parent ∧ ¬d.Below node parent := by
  constructor
  · rintro ⟨d', ok⟩
    obtain ⟨hn, ⟨heq, -⟩ | ⟨parent, -, hp, habove, -⟩⟩ := insertBefore_eq_ok ok
    · exact absurd heq.symm hne
    exact ⟨hn, parent, hp, h.isAncestorOrSelf_eq_false_iff.1 habove⟩
  · rintro ⟨hn, parent, hp, hbelow⟩
    have hp' : (d.unlink node).parent? reference = some parent := by
      rw [parent?_unlink, if_neg hne, hp]
    obtain ⟨place, hplace⟩ := (h.unlink node).exists_indexInParent? hp'
    have habove := h.isAncestorOrSelf_eq_false_iff.2 hbelow
    refine ⟨(d.unlink node).link parent node place, ?_⟩
    rw [Document.insertBefore, ensure_of_contains hn]
    change (if node = reference then _ else _) = _
    rw [if_neg (Ne.symm hne), hp]
    simp only [habove, hplace]
    rfl

/-! ## What a call does to the root -/

/-- A node that was moved stands under its new parent, and all else stands where it was. -/
theorem link_unlink {parent place id : NodeId} (hid : d.contains id) (j : NodeId) :
    ((d.unlink id).link parent id place).contains j = d.contains j ∧
      ((d.unlink id).link parent id place).parent? j =
        if j = id then some parent else d.parent? j := by
  refine ⟨by rw [contains_link, contains_unlink], ?_⟩
  rw [parent?_link (by simpa using hid), parent?_unlink]
  split <;> rfl

/-- The document after a call: the changed one, or the same if the call is refused. -/
theorem TwoWay.run_snd (h : d.TwoWay) (call : Call) :
    (call.run d).2 = (call.change d).toOption.elim d Prod.snd := by
  rw [call.run_eq_settled h]
  cases call.change d <;> rfl

/-- What a call has made of the root: it is there, and stands under a node if it was put there. -/
structure RootAfter (d' : Document) (uprooted : Prop) : Prop where
  contains : d'.contains root
  alone_iff : d'.parent? root = none ↔ ¬uprooted

namespace Standing

theorem rootAfter (hs : d.Standing) {uprooted : Prop} (hnot : ¬uprooted) : d.RootAfter uprooted where
  contains := hs.contains
  alone_iff := iff_of_true hs.alone hnot

theorem move (hs : d.Standing) {parent place id : NodeId} (hid : d.contains id) :
    ((d.unlink id).link parent id place).RootAfter (id = root) := by
  obtain ⟨hcontains, hparent⟩ : ((d.unlink id).link parent id place).contains root = _ ∧ _ :=
    link_unlink hid root
  refine ⟨hcontains.trans hs.contains, ?_⟩
  rw [hparent, hs.alone]
  by_cases hroot : id = root
  · simp [hroot]
  · simp [hroot, Ne.symm hroot]

/-- Putting a node at the end uproots if the root is put under a node that is not below it. -/
theorem append (h : d.TwoWay) (hs : d.Standing) (parent child : NodeId) :
    ((Call.append parent child).run d).2.RootAfter ((Call.append parent child).Uproots d) := by
  rw [h.run_snd, Call.change]
  cases hresult : d.append parent child with
  | error e =>
    refine hs.rootAfter ?_
    rintro ⟨rfl, hp, hbelow⟩
    obtain ⟨d', ok⟩ := h.append_eq_ok_iff.2 ⟨hp, hs.contains, hbelow⟩
    rw [hresult] at ok
    cases ok
  | ok d' =>
    obtain ⟨hp, hc, habove, heq⟩ := append_eq_ok hresult
    have hbelow := h.isAncestorOrSelf_eq_false_iff.1 habove
    have huproots : (Call.append parent child).Uproots d ↔ child = root := by
      refine ⟨fun hup => hup.1, ?_⟩
      rintro rfl
      exact ⟨rfl, hp, hbelow⟩
    rw [huproots, Except.map, Except.toOption, Option.elim, heq]
    exact hs.move hc

/-- So does putting a node before another one. -/
theorem insertBefore (h : d.TwoWay) (hs : d.Standing) (reference node : NodeId) :
    ((Call.insertBefore reference node).run d).2.RootAfter
      ((Call.insertBefore reference node).Uproots d) := by
  rw [h.run_snd, Call.change]
  by_cases hne : reference = node
  · -- a node is left where it is
    have hnot : ¬(Call.insertBefore reference node).Uproots d := by
      rintro ⟨hroot, hother, -⟩
      exact hother (hne.trans hroot)
    rw [Document.insertBefore, if_pos hne.symm]
    cases d.ensure node <;> exact hs.rootAfter hnot
  · cases hresult : d.insertBefore reference node with
    | error e =>
      refine hs.rootAfter ?_
      rintro ⟨rfl, -, parent, hp, hbelow⟩
      obtain ⟨d', ok⟩ := (h.insertBefore_eq_ok_iff hne).2 ⟨hs.contains, parent, hp, hbelow⟩
      rw [hresult] at ok
      cases ok
    | ok d' =>
      obtain ⟨hn, ⟨hsame, -⟩ | ⟨parent, place, hp, habove, -, -, heq⟩⟩ := insertBefore_eq_ok hresult
      · exact absurd hsame.symm hne
      have hbelow := h.isAncestorOrSelf_eq_false_iff.1 habove
      have huproots : (Call.insertBefore reference node).Uproots d ↔ node = root := by
        refine ⟨fun hup => hup.1, ?_⟩
        rintro rfl
        exact ⟨rfl, hne, parent, hp, hbelow⟩
      rw [huproots, Except.map, Except.toOption, Option.elim, heq]
      exact hs.move hn

/-- Taking a node out leaves the root. -/
theorem unlink (hs : d.Standing) (id : NodeId) : (d.unlink id).Standing where
  contains := by
    rw [contains_unlink]
    exact hs.contains
  alone := by
    rw [parent?_unlink, hs.alone]
    split <;> rfl

/-- A removal spares the root, which is not below the node removed. -/
theorem remove (h : d.TwoWay) (hs : d.Standing) {id : NodeId} (ok : d.remove id = .ok d') :
    d'.Standing where
  contains := by
    refine (TwoWay.contains_remove h.tree ok).2 ⟨hs.contains, fun hbelow => ?_⟩
    rcases Relation.ReflTransGen.cases_tail hbelow with hroot | ⟨p, -, hp⟩
    · exact (remove_eq_ok ok).1 hroot.symm
    · exact h.tree.linked.notMem_of_parent?_eq_none hs.alone hp
  alone := by
    obtain ⟨gone, -, -, hparent, -⟩ := remove_spec h.tree.linked ok
    rw [hparent, hs.alone]
    split <;> rfl

/-- A copy leaves all old nodes as they are. -/
theorem deepClone (h : d.TwoWay) (hs : d.Standing) {id copy : NodeId}
    (ok : d.deepClone id = .ok (copy, d')) : d'.Standing := by
  obtain ⟨φ, hcopied⟩ := deepClone_copied h.tree.linked ok
  obtain ⟨n, hn⟩ := contains_iff.1 hs.contains
  have hroot := hcopied.grows.get?_eq root (lt_size hn)
  refine ⟨contains_iff.2 ⟨n, hroot.trans hn⟩, ?_⟩
  rw [hcopied.grows.parent? (lt_size hn)]
  exact hs.alone

end Standing

/-- Each call leaves the root there, and puts it under another node exactly if it uproots. -/
theorem TwoWay.run_standing (h : d.TwoWay) (hs : d.Standing) (call : Call) :
    (call.run d).2.RootAfter (call.Uproots d) := by
  have hquiet {d' : Document} (hs' : d'.Standing) : d'.RootAfter False := hs'.rootAfter id
  cases call with
  | append parent child => exact hs.append h parent child
  | insertBefore reference node => exact hs.insertBefore h reference node
  | create kind =>
    refine hquiet ⟨?_, (parent?_create d kind root).trans hs.alone⟩
    obtain ⟨n, hn⟩ := contains_iff.1 hs.contains
    rw [h.run_snd]
    rw [Call.change, Except.toOption, Option.elim, contains_iff, get?_create,
      if_neg (Nat.ne_of_lt (lt_size hn))]
    exact ⟨n, hn⟩
  | detach id =>
    rw [h.run_snd, Call.change, Document.detach]
    cases d.ensure id with
    | error e => exact hquiet hs
    | ok u => exact hquiet (hs.unlink id)
  | remove id =>
    rw [h.run_snd, Call.change]
    cases hresult : d.remove id with
    | error e => exact hquiet hs
    | ok d' => exact hquiet (hs.remove h hresult)
  | deepClone id =>
    rw [h.run_snd, Call.change]
    cases hresult : d.deepClone id with
    | error e => exact hquiet hs
    | ok r => exact hquiet (hs.deepClone h hresult)

/-! ## Calls one after the other -/

/-- Without a call that uproots, the root stays where it is. -/
theorem Standing.afterCalls (h : d.TwoWay) (hs : d.Standing) {calls : List Call}
    (hquiet : ∀ before call after, calls = before ++ call :: after →
      ¬call.Uproots (afterCalls before d)) : (Document.afterCalls calls d).Standing := by
  induction calls generalizing d with
  | nil => exact hs
  | cons call calls ih =>
    have hafter := h.run_standing hs call
    refine ih (h.run call) ⟨hafter.contains, hafter.alone_iff.2 (hquiet [] call calls rfl)⟩ ?_
    intro before call' after heq
    exact hquiet (call :: before) call' after (by rw [heq]; rfl)

/-- Take any calls, those that are refused included, from the empty document on. All that is below the
root is there as long as the root is. As long as no call puts the root under another node, it is there
and stands under nothing; so no removal of another node frees it. While it stands under nothing, such
a call is one that puts it under a node that is not below it, thus into a detached tree. -/
theorem afterCalls_root (calls : List Call) :
    let d := afterCalls calls .empty
    (∀ x, d.contains root → d.Below root x → d.contains x) ∧
      ((∀ before call after, calls = before ++ call :: after →
        ¬call.Uproots (afterCalls before .empty)) → d.contains root ∧ d.parent? root = none) ∧
      (d.contains root → d.parent? root = none → ∀ call : Call,
        (call.run d).2.contains root ∧ ((call.run d).2.parent? root = none ↔ ¬call.Uproots d)) := by
  intro d
  have h : d.TwoWay := TwoWay.empty.afterCalls calls
  have hempty : Document.empty.Standing := ⟨by decide, by decide⟩
  refine ⟨fun x hroot hx => ?_, fun hquiet => ?_, fun hroot halone call => ?_⟩
  · exact h.tree.contains_of_below hroot hx
  · have hs := hempty.afterCalls .empty hquiet
    exact ⟨hs.contains, hs.alone⟩
  · have hafter := h.run_standing ⟨hroot, halone⟩ call
    exact ⟨hafter.contains, hafter.alone_iff⟩

/-- In a detached tree the root goes with the tree. -/
example : (afterCalls [.create (.text ""), .append 1 root, .remove 1] .empty).contains root = false := by
  decide

end ReactiveMarkup.Document
