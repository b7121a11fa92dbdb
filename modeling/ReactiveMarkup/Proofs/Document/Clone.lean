import ReactiveMarkup.Proofs.Document.Linked

/-!
# Copies of subtrees

Copying a subtree adds new nodes and leaves the old ones alone. Every new node is what an old one
is, and the copies of what stands under the old one stand under it, in the same order.

Main definitions: `Document.Copied`.
Main results: `Document.deepClone_copied`, `Document.Copied.openPath`.
-/
namespace ReactiveMarkup.Document

/-- A document with all nodes of another one, perhaps with more. -/
structure Extends (d d' : Document) : Prop where
  size_le : d.nodes.size ≤ d'.nodes.size
  get?_eq : ∀ j < d.nodes.size, d'.get? j = d.get? j

namespace Extends

variable {d d' d'' : Document}

theorem refl (d : Document) : Extends d d := ⟨Nat.le_refl _, fun _ _ => rfl⟩

theorem trans (h : Extends d d') (h' : Extends d' d'') : Extends d d'' where
  size_le := Nat.le_trans h.size_le h'.size_le
  get?_eq j hj := (h'.get?_eq j (Nat.lt_of_lt_of_le hj h.size_le)).trans (h.get?_eq j hj)

theorem kind? (h : Extends d d') {j : NodeId} (hj : j < d.nodes.size) :
    d'.kind? j = d.kind? j := by
  rw [Document.kind?, Document.kind?, h.get?_eq j hj]

theorem parent? (h : Extends d d') {j : NodeId} (hj : j < d.nodes.size) :
    d'.parent? j = d.parent? j := by
  rw [Document.parent?, Document.parent?, h.get?_eq j hj]

theorem children (h : Extends d d') {j : NodeId} (hj : j < d.nodes.size) :
    d'.children j = d.children j := by
  rw [Document.children, Document.children, h.get?_eq j hj]

end Extends

/-- From `first` on, the nodes of `d'` are copies of nodes of `d₀`; `φ` tells of which. What stands
under a copy is a copy. -/
structure Mirrors (d₀ d' : Document) (first : Nat) (φ : NodeId → NodeId) (j : NodeId) : Prop where
  lt_size : φ j < d₀.nodes.size
  kind?_eq : d'.kind? j = d₀.kind? (φ j)
  children_eq : (d'.children j).map φ = d₀.children (φ j)
  new : ∀ c ∈ d'.children j, first ≤ c

/-- A document `d'` that came from `d` when the subtree of `id` in `d₀` was copied; the copy stands
under nothing yet. -/
structure Copied (d₀ d d' : Document) (id copy : NodeId) (φ : NodeId → NodeId) : Prop where
  grows : Extends d d'
  copy_eq : copy = d.nodes.size
  lt_size : copy < d'.nodes.size
  linked : d'.Linked
  detached : d'.parent? copy = none
  root : φ copy = id
  mirrors : ∀ j, d.nodes.size ≤ j → j < d'.nodes.size → Mirrors d₀ d' d.nodes.size φ j

/-! ## Copying -/

/-- What stands while a subtree is copied: the copies of `done` are under the copy. -/
structure Copying (d₀ d e : Document) (id : NodeId) (done : List NodeId) (φ : NodeId → NodeId) :
    Prop where
  base : Extends d₀ d
  grows : Extends d e
  lt_size : d.nodes.size < e.nodes.size
  linked : e.Linked
  detached : e.parent? d.nodes.size = none
  root : φ d.nodes.size = id
  kind?_eq : e.kind? d.nodes.size = d₀.kind? id
  children_eq : (e.children d.nodes.size).map φ = done
  new : ∀ c ∈ e.children d.nodes.size, d.nodes.size ≤ c
  mirrors : ∀ j, d.nodes.size < j → j < e.nodes.size → Mirrors d₀ e d.nodes.size φ j

variable {d₀ d d' e e₁ e₂ : Document} {id child copy : NodeId} {done : List NodeId}
  {φ ψ : NodeId → NodeId}

/-- At first the copy stands alone. -/
theorem Copying.start {n : NodeData} (hbase : Extends d₀ d) (hd : d.Linked) (hn : d₀.get? id = some n) :
    Copying d₀ d (d.create n.kind).2 id [] fun _ => id := by
  refine ⟨hbase, ⟨by simp, fun j hj => ?_⟩, by simp, hd.create _, ?_, rfl, ?_, ?_, ?_, ?_⟩
  · rw [get?_create, if_neg (Nat.ne_of_lt hj)]
  · rw [parent?_create, parent?, get?_eq_none_of_size_le (Nat.le_refl _)]
    rfl
  · rw [kind?, get?_create, if_pos rfl, kind?, hn]
    rfl
  · rw [children_create, children, get?_eq_none_of_size_le (Nat.le_refl _)]
    rfl
  · intro c hc
    rw [children_create, children, get?_eq_none_of_size_le (Nat.le_refl _)] at hc
    cases hc
  · intro j hj hjs
    rw [size_create] at hjs
    omega

/-- Putting the copy of a child under the copy. -/
theorem Copying.append (h : Copying d₀ d e id done φ) (hc : Copied d₀ e e₁ child copy ψ)
    (ok : e₁.append d.nodes.size copy = .ok e₂) :
    Copying d₀ d e₂ id (done ++ [child]) (fun j => if j < e.nodes.size then φ j else ψ j) := by
  have hlinked := hc.linked.append ok
  obtain ⟨hp, hcopy, -, rfl⟩ := append_eq_ok ok
  rw [unlink_of_parent?_eq_none hc.detached] at hlinked ⊢
  have hroot := hc.root
  obtain rfl := hc.copy_eq
  have hlt : d.nodes.size < e.nodes.size := h.lt_size
  have hold : ∀ j ∈ e₁.children d.nodes.size, j < e.nodes.size := by
    intro j hj
    rw [hc.grows.children hlt] at hj
    exact h.linked.lt_size hj
  have hkeep : ∀ js : List NodeId, (∀ j ∈ js, j < e.nodes.size) →
      js.map (fun j => if j < e.nodes.size then φ j else ψ j) = js.map φ := by
    intro js hjs
    exact List.map_congr_left fun j hj => if_pos (hjs j hj)
  have hpath : (e₁.link d.nodes.size e.nodes.size (e₁.children d.nodes.size).length).children
      d.nodes.size = e.children d.nodes.size ++ [e.nodes.size] := by
    rw [children_link hp, if_pos rfl, List.insertIdx_length_self, hc.grows.children hlt]
  refine ⟨h.base, ⟨?_, fun j hj => ?_⟩, ?_, hlinked, ?_, ?_, ?_, ?_, fun c hmem => ?_,
    fun j hj hjs => ?_⟩
  · rw [size_link]
    exact Nat.le_trans h.grows.size_le hc.grows.size_le
  · have hje : j < e.nodes.size := Nat.lt_of_lt_of_le hj h.grows.size_le
    rw [link, get?_modify, if_neg (Nat.ne_of_lt hj), get?_modify, if_neg (Nat.ne_of_lt hje),
      hc.grows.get?_eq j hje, h.grows.get?_eq j hj]
  · rw [size_link]
    exact Nat.lt_of_lt_of_le hlt hc.grows.size_le
  · rw [parent?_link hcopy, if_neg (Nat.ne_of_lt hlt), hc.grows.parent? hlt]
    exact h.detached
  · rw [if_pos hlt]
    exact h.root
  · rw [kind?_link, hc.grows.kind? hlt]
    exact h.kind?_eq
  · rw [hpath, List.map_append, hkeep _ fun j hj => h.linked.lt_size hj, h.children_eq]
    simp [hroot]
  · rw [hpath, List.mem_append, List.mem_singleton] at hmem
    rcases hmem with hmem | rfl
    · exact h.new c hmem
    · exact h.grows.size_le
  · rw [size_link] at hjs
    have hchildren : (e₁.link d.nodes.size e.nodes.size (e₁.children d.nodes.size).length).children
        j = e₁.children j := by
      rw [children_link hp, if_neg (Nat.ne_of_gt hj)]
    by_cases hje : j < e.nodes.size
    · have hm := h.mirrors j hj hje
      refine ⟨?_, ?_, ?_, fun c hmem => ?_⟩
      · rw [if_pos hje]
        exact hm.lt_size
      · rw [if_pos hje, kind?_link, hc.grows.kind? hje]
        exact hm.kind?_eq
      · rw [if_pos hje, hchildren, hc.grows.children hje,
          hkeep _ fun c hmem => h.linked.lt_size hmem]
        exact hm.children_eq
      · rw [hchildren, hc.grows.children hje] at hmem
        exact hm.new c hmem
    · have hm := hc.mirrors j (Nat.not_lt.1 hje) hjs
      refine ⟨?_, ?_, ?_, fun c hmem => ?_⟩
      · rw [if_neg hje]
        exact hm.lt_size
      · rw [if_neg hje, kind?_link]
        exact hm.kind?_eq
      · rw [if_neg hje, hchildren, ← hm.children_eq]
        exact List.map_congr_left fun c hmem => if_neg (Nat.not_lt.2 (hm.new c hmem))
      · rw [hchildren] at hmem
        exact Nat.le_trans h.grows.size_le (hm.new c hmem)

/-- Copying the children that are left, given how one child is copied. -/
theorem Copying.foldlM {copyOf : Document → NodeId → Except DocumentError (NodeId × Document)}
    (hcopyOf : ∀ e child copy e₁, Extends d₀ e → e.Linked → child < d₀.nodes.size →
      copyOf e child = .ok (copy, e₁) → ∃ ψ, Copied d₀ e e₁ child copy ψ)
    {left : List NodeId} (hleft : ∀ c ∈ left, c < d₀.nodes.size)
    (h : Copying d₀ d e id done φ)
    (ok : left.foldlM (fun e child => do
      let (copy, e) ← copyOf e child
      e.append d.nodes.size copy) e = .ok d') :
    ∃ φ, Copying d₀ d d' id (done ++ left) φ := by
  induction left generalizing e done φ with
  | nil =>
    cases ok
    rw [List.append_nil]
    exact ⟨φ, h⟩
  | cons child left ih =>
    rw [List.foldlM_cons] at ok
    obtain ⟨e₂, hstep, ok⟩ := exists_of_bind_eq_ok ok
    obtain ⟨⟨copy, e₁⟩, hcopy, happend⟩ := exists_of_bind_eq_ok hstep
    have hbase := h.base.trans h.grows
    obtain ⟨ψ, hc⟩ :=
      hcopyOf e child copy e₁ hbase h.linked (hleft child (List.mem_cons_self ..)) hcopy
    obtain ⟨χ, hχ⟩ := ih (fun c hc => hleft c (List.mem_cons_of_mem _ hc)) (h.append hc happend) ok
    rw [List.append_assoc] at hχ
    exact ⟨χ, hχ⟩

theorem Copying.finish (h : Copying d₀ d d' id (d₀.children id) φ) (hid : id < d₀.nodes.size) :
    Copied d₀ d d' id d.nodes.size φ := by
  refine ⟨h.grows, rfl, h.lt_size, h.linked, h.detached, h.root, fun j hj hjs => ?_⟩
  rcases Nat.lt_or_eq_of_le hj with hlt | rfl
  · exact h.mirrors j hlt hjs
  · refine ⟨?_, ?_, ?_, h.new⟩
    · rw [h.root]
      exact hid
    · rw [h.root]
      exact h.kind?_eq
    · rw [h.root]
      exact h.children_eq

theorem cloneTo_copied (hd₀ : d₀.Linked) {depth : Nat} (hbase : Extends d₀ d) (hd : d.Linked)
    (hid : id < d₀.nodes.size) (ok : cloneTo depth d id = .ok (copy, d')) :
    ∃ φ, Copied d₀ d d' id copy φ := by
  induction depth generalizing d id copy d' with
  | zero => cases ok
  | succ depth ih =>
    rw [cloneTo] at ok
    cases hn : d.get? id with
    | none =>
      rw [hn] at ok
      cases ok
    | some n =>
      rw [hn] at ok
      obtain ⟨e, hfold, ok⟩ := exists_of_bind_eq_ok ok
      cases ok
      have hn₀ : d₀.get? id = some n := (hbase.get?_eq id hid).symm.trans hn
      have hchildren : d₀.children id = n.children := by
        rw [children, hn₀]
        rfl
      obtain ⟨φ, hφ⟩ := (Copying.start hbase hd hn₀).foldlM
        (fun e child copy e₁ he hl hlt ok => ih he hl hlt ok)
        (fun c hc => hd₀.lt_size (hchildren ▸ hc)) hfold
      rw [List.nil_append, ← hchildren] at hφ
      exact ⟨φ, hφ.finish hid⟩

/-- A copied subtree is new, and it mirrors the one that it was copied from. -/
theorem deepClone_copied (hd : d.Linked) (ok : d.deepClone id = .ok (copy, d')) :
    ∃ φ, Copied d d d' id copy φ := by
  rcases Nat.lt_or_ge id d.nodes.size with hid | hge
  · exact cloneTo_copied hd (.refl d) hd hid ok
  · unfold deepClone at ok
    cases hs : d.nodes.size with
    | zero =>
      rw [hs] at ok
      cases ok
    | succ k =>
      rw [hs, cloneTo, get?_eq_none_of_size_le hge] at ok
      cases ok

/-! ## What a copy is like -/

theorem Mirrors.attribute?_eq {first : Nat} {j : NodeId} (h : Mirrors d₀ d' first φ j)
    (name : String) : d'.attribute? j name = d₀.attribute? (φ j) name := by
  rw [attribute?, attribute?, element?, element?, h.kind?_eq]

/-- An open path in the original leads through the copy as well. -/
theorem Copied.openPath (h : Copied d₀ d d' id copy φ) {k : Nat} {j n m : NodeId}
    (hj : d.nodes.size ≤ j) (hjs : j < d'.nodes.size) (hn : φ j = n) (hopen : d₀.Open k n m) :
    ∃ i, d.nodes.size ≤ i ∧ i < d'.nodes.size ∧ φ i = m ∧ d'.Open k j i := by
  induction hopen generalizing j with
  | here hmark =>
    refine ⟨j, hj, hjs, hn, .here ?_⟩
    rw [(h.mirrors j hj hjs).attribute?_eq, hn]
    exact hmark
  | under hmark hc rest ih =>
    have hm := h.mirrors j hj hjs
    rw [← hn, ← hm.children_eq] at hc
    obtain ⟨c', hc', rfl⟩ := List.mem_map.1 hc
    obtain ⟨i, hi, his, hφ, hrest⟩ := ih (hm.new c' hc') (h.linked.lt_size hc') rfl
    refine ⟨i, hi, his, hφ, .under ?_ hc' hrest⟩
    rw [hm.attribute?_eq, hn]
    exact hmark

end ReactiveMarkup.Document
