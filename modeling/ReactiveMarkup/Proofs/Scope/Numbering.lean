import ReactiveMarkup.Compile.Emit
import ReactiveMarkup.Proofs.Scope.Tree

/-!
# Scopes in tree order

A tree whose scopes are numbered in tree order: what is below a scope has the numbers that come next.
Adding the scopes of one part of a document after the other keeps this, and the templates of such a
tree are listed by their numbers.

Main definitions: `ScopeTree.Spans`, `ScopeTree.Adds`, `ScopeTree.Linked`.
Main results: `ScopeTree.Adds.append`, `ScopeTree.Adds.nest`, `ScopeTree.Spans.walk`.
-/
namespace ReactiveMarkup.ScopeTree

variable {t t' t'' : ScopeTree} {is js : List ScopeIndex} {a b c : Nat} {i p : ScopeIndex}

/-- The parent of a scope. -/
def parentOf? (t : ScopeTree) (i : ScopeIndex) : Option ScopeIndex := (t.get? i).bind (·.parent)

/-- The scopes with all below them have the numbers from `a` to `c`, in tree order. -/
inductive Spans (t : ScopeTree) : List ScopeIndex → Nat → Nat → Prop
  | nil (a : Nat) : Spans t [] a a
  | cons {a b c : Nat} {is : List ScopeIndex} (below : Spans t (t.parts a) (a + 1) b)
      (rest : Spans t is b c) : Spans t (a :: is) a c

namespace Spans

theorem le (h : t.Spans is a c) : a ≤ c := by
  induction h with
  | nil => exact Nat.le_refl _
  | cons _ _ ihbelow ihrest => omega

theorem append (h : t.Spans is a b) (h' : t.Spans js b c) : t.Spans (is ++ js) a c := by
  induction h with
  | nil => exact h'
  | cons below _ _ ih => exact .cons below (ih h')

/-- Which numbers are spanned depends on what is below these scopes only. -/
theorem congr (h : t.Spans is a c) (hparts : ∀ i, a ≤ i → i < c → t'.parts i = t.parts i) :
    t'.Spans is a c := by
  induction h with
  | nil => exact .nil _
  | @cons a b c is below rest ihbelow ihrest =>
    have hbelow := below.le
    have hrest := rest.le
    refine .cons ?_ (ihrest fun i hi hic => hparts i (by omega) hic)
    rw [hparts a (Nat.le_refl a) (by omega)]
    exact ihbelow fun i hi hib => hparts i (by omega) (by omega)

end Spans

/-! ## More scopes -/

/-- A tree with more scopes, numbered in tree order; `tops` are those of them that are put under
`parent`, or under nothing. -/
structure Adds (t : ScopeTree) (parent : Option ScopeIndex) (tops : List ScopeIndex)
    (t' : ScopeTree) : Prop where
  parts : ∀ i < t.size, t'.parts i = t.parts i ++ if parent = some i then tops else []
  spans : t'.Spans tops t.size t'.size

namespace Adds

variable {parent : Option ScopeIndex}

theorem refl (t : ScopeTree) (parent : Option ScopeIndex) : Adds t parent [] t :=
  ⟨fun i _ => by simp, .nil _⟩

/-- Scopes under one parent after others under it. -/
theorem append (h : Adds t parent is t') (h' : Adds t' parent js t'')
    (hparent : ∀ p, parent = some p → p < t.size) : Adds t parent (is ++ js) t'' where
  parts i hi := by
    rw [h'.parts i (Nat.lt_of_lt_of_le hi h.spans.le), h.parts i hi]
    split <;> simp
  spans := by
    refine (h.spans.congr fun i hi hlt => ?_).append h'.spans
    rw [h'.parts i hlt, if_neg, List.append_nil]
    exact fun hp => absurd (hparent i hp) (Nat.not_lt.2 hi)

/-- One scope, and scopes under it. -/
theorem nest (h : Adds t parent [t.size] t') (h' : Adds t' (some t.size) js t'')
    (hparts : t'.parts t.size = []) (hsize : t'.size = t.size + 1) : Adds t parent [t.size] t'' where
  parts i hi := by
    rw [h'.parts i (by omega), if_neg, List.append_nil, h.parts i hi]
    exact fun heq => absurd (Option.some.inj heq) (Nat.ne_of_gt hi)
  spans := by
    refine .cons ?_ (.nil _)
    rw [h'.parts t.size (by omega), if_pos rfl, hparts, List.nil_append, ← hsize]
    exact h'.spans

end Adds

/-! ## One more scope -/

section

variable {s : Scope} {f : Scope → Scope}

theorem size_push (t : ScopeTree) (s : Scope) : (t.push s).size = t.size + 1 := by
  unfold push
  cases s.parent <;> simp [size, modify]

theorem parentOf?_push (t : ScopeTree) (s : Scope) (i : ScopeIndex) :
    (t.push s).parentOf? i = if i = t.size then s.parent else t.parentOf? i := by
  rw [parentOf?, get?_push]
  split
  · rfl
  · rw [parentOf?, Option.bind_map]
    congr 1
    funext q
    dsimp only [Function.comp_apply]
    split <;> rfl

theorem parts_push (t : ScopeTree) (s : Scope) (i : ScopeIndex) :
    (t.push s).parts i = if i = t.size then s.children else
      t.parts i ++ if s.parent = some i ∧ i < t.size then [t.size] else [] := by
  rw [parts, get?_push]
  split
  · rfl
  · rw [parts]
    cases hi : t.get? i with
    | none =>
      have hnone : ¬i < t.size := fun hlt => by
        rw [get?, List.getElem?_eq_getElem hlt] at hi
        cases hi
      simp [hnone]
    | some q =>
      have hlt := lt_size hi
      by_cases hp : s.parent = some i <;> simp [hp, hlt]

/-- Changing a scope in nothing but its aliases. -/
theorem parentOf?_modify (hf : ∀ q, (f q).parent = q.parent) :
    (t.modify p f).parentOf? i = t.parentOf? i := by
  rw [parentOf?, get?_modify, parentOf?, Option.bind_map]
  congr 1
  funext q
  dsimp only [Function.comp_apply]
  split
  · exact hf q
  · rfl

theorem parts_modify (hf : ∀ q, (f q).children = q.children) :
    (t.modify p f).parts i = t.parts i := by
  rw [parts, get?_modify, parts, Option.map_map]
  refine congrArg (Option.getD · []) (Option.map_congr fun q _ => ?_)
  dsimp only [Function.comp_apply]
  split
  · exact hf q
  · rfl

end

/-- A tree with one more scope under a parent, perhaps with other aliases. -/
structure OneMore (t : ScopeTree) (parent : Option ScopeIndex) (t' : ScopeTree) : Prop where
  size : t'.size = t.size + 1
  parts : ∀ i, t'.parts i = if i = t.size then [] else
    t.parts i ++ if parent = some i ∧ i < t.size then [t.size] else []
  parentOf : ∀ i, t'.parentOf? i = if i = t.size then parent else t.parentOf? i

/-- Each scope has the scopes below it whose parent it is. -/
def Linked (t : ScopeTree) : Prop := ∀ i c, c ∈ t.parts i ↔ t.parentOf? c = some i

namespace OneMore

variable {parent : Option ScopeIndex}

theorem adds (h : OneMore t parent t') : Adds t parent [t.size] t' where
  parts i hi := by
    rw [h.parts, if_neg (Nat.ne_of_lt hi)]
    simp [hi]
  spans := by
    rw [h.size]
    refine .cons ?_ (.nil _)
    rw [h.parts, if_pos rfl]
    exact .nil _

theorem linked (h : OneMore t parent t') (ht : t.Linked) (hparent : ∀ p, parent = some p → p < t.size) :
    t'.Linked := by
  have hnone : t.get? t.size = none := List.getElem?_eq_none (Nat.le_refl _)
  have hempty : t.parts t.size = [] := by
    rw [ScopeTree.parts, hnone]
    rfl
  intro i c
  rw [h.parts, h.parentOf]
  by_cases hi : i = t.size
  · -- nothing is under the new scope yet
    subst hi
    have hold : t.parentOf? c ≠ some t.size := fun hp => by
      rw [← ht, hempty] at hp
      cases hp
    have hnew : parent ≠ some t.size := fun hp => Nat.lt_irrefl _ (hparent _ hp)
    have hneither : (if c = t.size then parent else t.parentOf? c) ≠ some t.size := by
      split <;> assumption
    rw [if_pos rfl]
    exact iff_of_false List.not_mem_nil hneither
  · rw [if_neg hi, List.mem_append, ht]
    by_cases hc : c = t.size
    · have hfree : t.parentOf? t.size ≠ some i := by
        rw [ScopeTree.parentOf?, hnone]
        exact Option.some_ne_none i ∘ Eq.symm
      subst hc
      by_cases hp : parent = some i
      · simp [hp, hparent i hp]
      · simp [hp, hfree]
    · rw [if_neg hc, or_iff_left]
      split
      · simpa using hc
      · exact List.not_mem_nil

end OneMore

/-! ## Templates -/

/-- How the templates of a part of a tree are made. -/
theorem assemble_succ (templates : List (List ValueTemplate × List EventTemplate)) (depth : Nat)
    (i : ScopeIndex) : ∃ ownAlias, t.assemble templates (depth + 1) i =
      ⟨i, ownAlias, ((templates[i]?).getD ([], [])).1, ((templates[i]?).getD ([], [])).2,
        (t.parts i).map (t.assemble templates depth)⟩ := by
  rw [assemble, parts]
  cases t.get? i <;> exact ⟨_, rfl⟩

theorem index_assemble (templates : List (List ValueTemplate × List EventTemplate)) (depth : Nat)
    (i : ScopeIndex) : (t.assemble templates depth i).index = i := by
  cases depth with
  | zero => rfl
  | succ depth =>
    obtain ⟨_, heq⟩ := assemble_succ (t := t) templates depth i
    rw [heq]

/-- All templates of scopes with all below them are made alike, as what is below is never cut off. -/
theorem Spans.forall_walk (h : t.Spans is a c) {templates : List (List ValueTemplate × List EventTemplate)}
    {P : ScopeTemplate → Prop} (hP : ∀ i depth, P (t.assemble templates (depth + 1) i)) {depth : Nat}
    (hdepth : c ≤ a + depth) :
    ∀ u ∈ ScopeTemplate.walkAll (is.map (t.assemble templates depth)), P u := by
  induction h generalizing depth with
  | nil => exact fun u hu => by cases hu
  | @cons a b c is below rest ihbelow ihrest =>
    have hbelow := below.le
    have hrest := rest.le
    obtain ⟨depth, rfl⟩ := Nat.exists_eq_succ_of_ne_zero (n := depth) (by omega)
    obtain ⟨ownAlias, heq⟩ := assemble_succ (t := t) templates depth a
    have hfirst := hP a depth
    intro u hu
    rw [List.map_cons, ScopeTemplate.walkAll] at hu
    rw [heq] at hu hfirst
    rw [ScopeTemplate.walk, List.cons_append] at hu
    rcases List.mem_cons.1 hu with rfl | hu
    · exact hfirst
    · rcases List.mem_append.1 hu with hu | hu
      · exact ihbelow (by omega) u hu
      · exact ihrest (by omega) u hu

/-- The templates of scopes with all below them, in tree order, have the numbers that the scopes span,
and each has those of its scope under it. -/
theorem Spans.walk (h : t.Spans is a c) (templates : List (List ValueTemplate × List EventTemplate))
    {depth : Nat} (hdepth : c ≤ a + depth) :
    (ScopeTemplate.walkAll (is.map (t.assemble templates depth))).map (·.index) =
        List.range' a (c - a) ∧
      ∀ u ∈ ScopeTemplate.walkAll (is.map (t.assemble templates depth)),
        u.children.map (·.index) = t.parts u.index := by
  refine ⟨?_, h.forall_walk (fun i depth => ?_) hdepth⟩
  · induction h generalizing depth with
    | nil a =>
      rw [Nat.sub_self]
      rfl
    | @cons a b c is below rest ihbelow ihrest =>
      have hbelow := below.le
      have hrest := rest.le
      obtain ⟨depth, rfl⟩ := Nat.exists_eq_succ_of_ne_zero (n := depth) (by omega)
      have hwalk := ihbelow (show b ≤ a + 1 + depth by omega)
      have hwalk' := ihrest (show c ≤ b + (depth + 1) by omega)
      obtain ⟨ownAlias, heq⟩ := assemble_succ (t := t) templates depth a
      have hrange : List.range' a (c - a) =
          a :: (List.range' (a + 1) (b - (a + 1)) ++ List.range' b (c - b)) := by
        have hb : b = a + 1 + (b - (a + 1)) := by omega
        have hc : c - a = b - (a + 1) + (c - b) + 1 := by omega
        rw [hc, List.range'_succ, ← List.range'_append_1, ← hb]
      rw [List.map_cons, ScopeTemplate.walkAll, heq, ScopeTemplate.walk, List.cons_append,
        List.map_cons, List.map_append, hwalk, hwalk', hrange]
  · obtain ⟨ownAlias, heq⟩ := assemble_succ (t := t) templates depth i
    rw [heq, List.map_map]
    exact (List.map_congr_left fun j _ => index_assemble templates depth j).trans (List.map_id _)

/-- Templates of a whole tree hold the values and the events that were made for their numbers. -/
theorem Spans.walk_rendered (h : t.Spans [0] 0 t.size)
    (templates : List (List ValueTemplate × List EventTemplate)) :
    (t.assemble templates t.size 0).walk.map (fun u => (u.index, u.values, u.events)) =
      (List.range t.size).map fun i => (i, (templates[i]?).getD ([], [])) := by
  have hdepth : t.size ≤ 0 + t.size := Nat.le_of_eq (Nat.zero_add _).symm
  have hlisted := (h.walk templates hdepth).1
  have hrendered := h.forall_walk
    (P := fun u => (u.values, u.events) = (templates[u.index]?).getD ([], [])) (fun i depth => by
      obtain ⟨ownAlias, heq⟩ := assemble_succ (t := t) templates depth i
      rw [heq]) hdepth
  rw [List.map_singleton, ScopeTemplate.walkAll, ScopeTemplate.walkAll, List.append_nil] at hlisted hrendered
  rw [Nat.sub_zero, ← List.range_eq_range'] at hlisted
  rw [← hlisted, List.map_map]
  refine List.map_congr_left fun u hu => ?_
  rw [Function.comp_apply, ← hrendered u hu]

end ReactiveMarkup.ScopeTree
