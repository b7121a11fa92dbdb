import Mathlib.Data.List.Nodup
import ReactiveMarkup.Proofs.Basic
import ReactiveMarkup.Proofs.Graph.Reaching
import ReactiveMarkup.Proofs.Slots

/-!
# Links between values

A link is noted at both of its ends: by the value that is observed and by the one that observes it.
Making a link and removing a value keep both notes together, and a link closes a cycle just if there
is a way back.

Main definitions: `Graph.Mutual`, `Graph.Acyclic`.
Main results: `Graph.Mutual.withLink`, `Graph.acyclic_withLink_iff`, `Graph.Mutual.removeValue`.
-/
namespace ReactiveMarkup.Graph

variable {g g' : Graph}

/-- The values that a value observes. -/
def observedBy (g : Graph) (id : ValueId) : List ValueId :=
  ((g.values.get? id).map (·.observing)).getD []

/-- Every link is noted at both ends, once. -/
structure Mutual (g : Graph) : Prop where
  mirror : ∀ {u v}, v ∈ g.observersOf u ↔ u ∈ g.observedBy v
  observers_nodup : ∀ u, (g.observersOf u).Nodup
  observing_nodup : ∀ u, (g.observedBy u).Nodup

/-- No value observes itself, directly or through others. -/
def Acyclic (g : Graph) : Prop := ∀ u, ¬Relation.TransGen g.Notifies u u

theorem contains_of_mem_observersOf {u v : ValueId} (h : v ∈ g.observersOf u) : g.values.contains u := by
  rw [observersOf] at h
  rw [Slots.contains]
  cases hu : g.values.get? u with
  | some c => rfl
  | none =>
    rw [hu] at h
    cases h

theorem contains_of_mem_observedBy {u v : ValueId} (h : u ∈ g.observedBy v) : g.values.contains v := by
  rw [observedBy] at h
  rw [Slots.contains]
  cases hv : g.values.get? v with
  | some c => rfl
  | none =>
    rw [hv] at h
    cases h

/-! ## Changed cells -/

/-- A graph with one cell changed. -/
def withCell (g : Graph) (id : ValueId) (f : Cell → Cell) : Graph :=
  { g with values := g.values.modify id f }

/-- A graph with the observers of one cell changed. -/
def withObservers (g : Graph) (id : ValueId) (f : List ValueId → List ValueId) : Graph :=
  g.withCell id fun c => { c with observers := f c.observers }

/-- A graph with what one cell observes changed. -/
def withObserving (g : Graph) (id : ValueId) (f : List ValueId → List ValueId) : Graph :=
  g.withCell id fun c => { c with observing := f c.observing }

theorem observersOf_withCell (g : Graph) (k : ValueId) (f : Cell → Cell) (w : ValueId) :
    (g.withCell k f).observersOf w =
      if w = k then ((g.values.get? k).map fun c => (f c).observers).getD [] else g.observersOf w := by
  rw [observersOf, withCell, Slots.get?_modify]
  split
  · rw [Option.map_map]
    rfl
  · rfl

theorem observedBy_withCell (g : Graph) (k : ValueId) (f : Cell → Cell) (w : ValueId) :
    (g.withCell k f).observedBy w =
      if w = k then ((g.values.get? k).map fun c => (f c).observing).getD [] else g.observedBy w := by
  rw [observedBy, withCell, Slots.get?_modify]
  split
  · rw [Option.map_map]
    rfl
  · rfl

section

variable {id : ValueId} {f : List ValueId → List ValueId} (w : ValueId)

theorem observersOf_withObservers (h : g.values.contains id ∨ f [] = []) :
    (g.withObservers id f).observersOf w = if w = id then f (g.observersOf id) else g.observersOf w := by
  rw [withObservers, observersOf_withCell]
  split
  · rw [observersOf]
    rw [Slots.contains] at h
    cases hid : g.values.get? id with
    | some c => rfl
    | none =>
      rw [hid] at h
      exact (h.resolve_left fun hc => by cases hc).symm
  · rfl

@[simp] theorem observedBy_withObservers : (g.withObservers id f).observedBy w = g.observedBy w := by
  rw [withObservers, observedBy_withCell]
  split
  · rename_i hw
    rw [hw]
    rfl
  · rfl

theorem observedBy_withObserving (h : g.values.contains id ∨ f [] = []) :
    (g.withObserving id f).observedBy w = if w = id then f (g.observedBy id) else g.observedBy w := by
  rw [withObserving, observedBy_withCell]
  split
  · rw [observedBy]
    rw [Slots.contains] at h
    cases hid : g.values.get? id with
    | some c => rfl
    | none =>
      rw [hid] at h
      exact (h.resolve_left fun hc => by cases hc).symm
  · rfl

@[simp] theorem observersOf_withObserving :
    (g.withObserving id f).observersOf w = g.observersOf w := by
  rw [withObserving, observersOf_withCell]
  split
  · rename_i hw
    rw [hw]
    rfl
  · rfl

end

/-- Graphs with the same links. -/
structure SameLinks (g g' : Graph) : Prop where
  observers : ∀ u, g'.observersOf u = g.observersOf u
  observing : ∀ u, g'.observedBy u = g.observedBy u

namespace SameLinks

theorem of_values (h : g'.values = g.values) : SameLinks g g' :=
  ⟨fun u => by rw [observersOf, observersOf, h], fun u => by rw [observedBy, observedBy, h]⟩

/-- A change that leaves the links of the cell. -/
theorem withCell (g : Graph) (id : ValueId) {f : Cell → Cell}
    (hobservers : ∀ c, (f c).observers = c.observers) (hobserving : ∀ c, (f c).observing = c.observing) :
    SameLinks g (g.withCell id f) := by
  constructor <;> intro u
  · rw [observersOf_withCell]
    split
    · rename_i hu
      simp only [hobservers, hu]
      rfl
    · rfl
  · rw [observedBy_withCell]
    split
    · rename_i hu
      simp only [hobserving, hu]
      rfl
    · rfl

/-- A new cell without links. -/
theorem of_insert {c : Cell} (h : g'.values = (g.values.insert c).2) (hobservers : c.observers = [])
    (hobserving : c.observing = []) : SameLinks g g' := by
  have hnew := Slots.get?_insert_key c g.values
  constructor <;> intro u
  · rw [observersOf, observersOf, h, Slots.get?_insert]
    split
    · rename_i hu
      rw [hu, hnew]
      exact hobservers
    · rfl
  · rw [observedBy, observedBy, h, Slots.get?_insert]
    split
    · rename_i hu
      rw [hu, hnew]
      exact hobserving
    · rfl

end SameLinks

theorem Mutual.congr (h : Mutual g) (hs : SameLinks g g') : Mutual g' where
  mirror := by
    intro u v
    rw [hs.observers, hs.observing]
    exact h.mirror
  observers_nodup u := by
    rw [hs.observers]
    exact h.observers_nodup u
  observing_nodup u := by
    rw [hs.observing]
    exact h.observing_nodup u

/-- Without some links there are no more cycles. -/
theorem Acyclic.mono (h : Acyclic g) (hs : ∀ u, g'.observersOf u ⊆ g.observersOf u) : Acyclic g' :=
  fun u hu => h u (Relation.TransGen.mono (r := g'.Notifies) (fun _ _ hv => hs _ hv) u u hu)

theorem Acyclic.congr (h : Acyclic g) (hs : SameLinks g g') : Acyclic g' :=
  h.mono fun u => by
    rw [hs.observers]
    exact List.Subset.refl _

/-! ## Making links -/

theorem mem_addNew {id w : ValueId} {ids : List ValueId} : w ∈ addNew id ids ↔ w ∈ ids ∨ w = id := by
  unfold addNew
  split
  · rename_i h
    have hid : id ∈ ids := by simpa using h
    refine ⟨.inl, fun hw => ?_⟩
    rcases hw with hw | rfl
    · exact hw
    · exact hid
  · simp

theorem nodup_addNew {id : ValueId} {ids : List ValueId} (h : ids.Nodup) : (addNew id ids).Nodup := by
  unfold addNew
  split
  · exact h
  · rename_i hid
    have hid' : id ∉ ids := by simpa using hid
    exact List.Nodup.append h (List.nodup_singleton id) (List.disjoint_singleton.2 hid')

/-- A graph in which one value observes another one, as noted at both ends. -/
def withLink (g : Graph) (observed observer : ValueId) : Graph :=
  (g.withObservers observed (addNew observer)).withObserving observer (addNew observed)

section

variable {u v : ValueId}

theorem observersOf_withLink (hu : g.values.contains u) (w : ValueId) :
    (g.withLink u v).observersOf w =
      if w = u then addNew v (g.observersOf u) else g.observersOf w := by
  rw [withLink, observersOf_withObserving, observersOf_withObservers w (.inl hu)]

theorem observedBy_withLink (hv : g.values.contains v) (w : ValueId) :
    (g.withLink u v).observedBy w =
      if w = v then addNew u (g.observedBy v) else g.observedBy w := by
  rw [withLink, observedBy_withObserving w (.inl ?_), observedBy_withObservers,
    observedBy_withObservers]
  rw [withObservers, withCell, Slots.contains_modify]
  exact hv

theorem mem_observersOf_withLink (hu : g.values.contains u) {w x : ValueId} :
    x ∈ (g.withLink u v).observersOf w ↔ x ∈ g.observersOf w ∨ w = u ∧ x = v := by
  rw [observersOf_withLink hu]
  split
  · rename_i hw
    rw [mem_addNew, hw]
    simp
  · rename_i hw
    simp [hw]

theorem mem_observedBy_withLink (hv : g.values.contains v) {w x : ValueId} :
    w ∈ (g.withLink u v).observedBy x ↔ w ∈ g.observedBy x ∨ w = u ∧ x = v := by
  rw [observedBy_withLink hv]
  split
  · rename_i hx
    rw [mem_addNew, hx]
    simp
  · rename_i hx
    simp [hx]

/-- Making a link between live values. -/
theorem Mutual.withLink (h : Mutual g) (hu : g.values.contains u) (hv : g.values.contains v) :
    Mutual (g.withLink u v) where
  mirror := by
    intro w x
    rw [mem_observersOf_withLink hu, mem_observedBy_withLink hv, h.mirror]
  observers_nodup w := by
    rw [observersOf_withLink hu]
    split
    · exact nodup_addNew (h.observers_nodup u)
    · exact h.observers_nodup w
  observing_nodup w := by
    rw [observedBy_withLink hv]
    split
    · exact nodup_addNew (h.observing_nodup v)
    · exact h.observing_nodup w

theorem observersOf_withLink_of_gone (hu : ¬g.values.contains u) (w : ValueId) :
    (g.withLink u v).observersOf w = g.observersOf w := by
  have hnone : g.values.get? u = none := by simpa [Slots.contains] using hu
  rw [withLink, observersOf_withObserving, withObservers, observersOf_withCell, hnone]
  split
  · rename_i hw
    rw [hw, observersOf, hnone]
    rfl
  · rfl

theorem notifies_withLink {w x : ValueId} :
    (g.withLink u v).Notifies w x ↔ g.Notifies w x ∨ g.values.contains u ∧ w = u ∧ x = v := by
  by_cases hu : g.values.contains u
  · simp only [Notifies, mem_observersOf_withLink hu, hu, true_and]
  · simp [Notifies, observersOf_withLink_of_gone hu, hu]

/-- A new link leads back to where a way over it began, so it leads nowhere else. -/
theorem reflTransGen_withLink {w : ValueId} :
    Relation.ReflTransGen (g.withLink u v).Notifies v w ↔ Relation.ReflTransGen g.Notifies v w := by
  constructor
  · intro h
    induction h with
    | refl => exact .refl
    | tail _ hstep ih =>
      rcases notifies_withLink.1 hstep with hold | ⟨-, -, rfl⟩
      · exact ih.tail hold
      · exact .refl
  · exact Relation.ReflTransGen.mono (fun _ _ hstep => notifies_withLink.2 (.inl hstep)) _ _

/-- A link closes a cycle just if there is a way from its second end to its first. -/
theorem acyclic_withLink_iff (hu : g.values.contains u) :
    Acyclic (g.withLink u v) ↔ Acyclic g ∧ ¬Relation.ReflTransGen g.Notifies v u := by
  constructor
  · intro h
    refine ⟨h.mono fun w x hx => notifies_withLink.2 (.inl hx), fun hback => h u ?_⟩
    exact .head' (notifies_withLink.2 (.inr ⟨hu, rfl, rfl⟩)) (reflTransGen_withLink.2 hback)
  · rintro ⟨h, hnone⟩ a ha
    rcases transGen_of_oneMore (fun _ _ => (mem_observersOf_withLink hu).1) ha with hold | ⟨hto, hfrom⟩
    · exact h a hold
    · exact hnone (hfrom.trans hto)

end

/-! ## Removing values -/

/-- A graph in which several values are not observed by one any more. -/
def withoutObserver (g : Graph) (id : ValueId) (ids : List ValueId) : Graph :=
  ids.foldl (fun g k => g.withObservers k (·.filter (· != id))) g

/-- A graph in which several values do not observe one any more. -/
def withoutObserved (g : Graph) (id : ValueId) (ids : List ValueId) : Graph :=
  ids.foldl (fun g k => g.withObserving k (·.filter (· != id))) g

section

variable {id : ValueId}

theorem observersOf_withoutObserver (ids : List ValueId) (w : ValueId) :
    (g.withoutObserver id ids).observersOf w =
      if w ∈ ids then (g.observersOf w).filter (· != id) else g.observersOf w := by
  induction ids generalizing g with
  | nil => rfl
  | cons k ids ih =>
    change ((g.withObservers k _).withoutObserver id ids).observersOf w = _
    rw [ih, observersOf_withObservers w (.inr rfl)]
    by_cases hk : w = k
    · subst hk
      simp
    · simp [hk]

theorem observedBy_withoutObserver (ids : List ValueId) (w : ValueId) :
    (g.withoutObserver id ids).observedBy w = g.observedBy w := by
  induction ids generalizing g with
  | nil => rfl
  | cons k ids ih => exact (ih (g := g.withObservers k _)).trans (observedBy_withObservers w)

theorem observedBy_withoutObserved (ids : List ValueId) (w : ValueId) :
    (g.withoutObserved id ids).observedBy w =
      if w ∈ ids then (g.observedBy w).filter (· != id) else g.observedBy w := by
  induction ids generalizing g with
  | nil => rfl
  | cons k ids ih =>
    change ((g.withObserving k _).withoutObserved id ids).observedBy w = _
    rw [ih, observedBy_withObserving w (.inr rfl)]
    by_cases hk : w = k
    · subst hk
      simp
    · simp [hk]

theorem observersOf_withoutObserved (ids : List ValueId) (w : ValueId) :
    (g.withoutObserved id ids).observersOf w = g.observersOf w := by
  induction ids generalizing g with
  | nil => rfl
  | cons k ids ih => exact (ih (g := g.withObserving k _)).trans (observersOf_withObserving w)

/-- Removing a value is forgetting its cell and then it at the other ends of its links. -/
theorem run_removeValue (id : ValueId) (g : Graph) :
    ((removeValue id).run g).2 =
      match g.values.get? id with
      | none => g
      | some c => (({ g with values := g.values.erase id }).withoutObserver id
          c.observing).withoutObserved id c.observers := by
  have hforM (ids : List ValueId) (f : Cell → Cell) (g : Graph) :
      (ids.forM fun k => modifyCell k f).run g = ((), ids.foldl (fun g k => g.withCell k f) g) := by
    induction ids generalizing g with
    | nil => rfl
    | cons k ids ih => exact ih (g.withCell k f)
  unfold removeValue
  rw [run_get_bind]
  cases g.values.get? id with
  | none => rfl
  | some c =>
    change ((c.observers.forM fun k => modifyCell k _).run
      ((c.observing.forM fun k => modifyCell k _).run { g with values := g.values.erase id }).2).2 = _
    rw [hforM, hforM]
    rfl

theorem observersOf_erase (g : Graph) (id w : ValueId) :
    observersOf { g with values := g.values.erase id } w = if w = id then [] else g.observersOf w := by
  rw [observersOf, Slots.get?_erase]
  split
  · rfl
  · rfl

theorem observedBy_erase (g : Graph) (id w : ValueId) :
    observedBy { g with values := g.values.erase id } w = if w = id then [] else g.observedBy w := by
  rw [observedBy, Slots.get?_erase]
  split
  · rfl
  · rfl

namespace Mutual

/-- A removed value is observed by none, and observes none. -/
theorem observersOf_removeValue (h : Mutual g) (id w : ValueId) :
    ((Graph.removeValue id).run g).2.observersOf w =
      if w = id then [] else (g.observersOf w).filter (· != id) := by
  have hkeep (hw : w ∉ g.observedBy id) : (g.observersOf w).filter (· != id) = g.observersOf w := by
    refine List.filter_eq_self.2 fun x hx => bne_iff_ne.2 ?_
    rintro rfl
    exact hw (h.mirror.1 hx)
  rw [run_removeValue]
  cases hid : g.values.get? id with
  | none =>
    dsimp only
    split
    · rename_i hw
      rw [hw, observersOf, hid]
      rfl
    · rw [hkeep]
      rw [observedBy, hid]
      exact List.not_mem_nil
  | some c =>
    have hobserving : c.observing = g.observedBy id := by
      rw [observedBy, hid]
      rfl
    rw [observersOf_withoutObserved, observersOf_withoutObserver, observersOf_erase, hobserving]
    by_cases hw : w = id
    · simp [hw]
    · simp only [if_neg hw]
      split
      · rfl
      · rename_i hmem
        exact (hkeep hmem).symm

theorem observedBy_removeValue (h : Mutual g) (id w : ValueId) :
    ((Graph.removeValue id).run g).2.observedBy w =
      if w = id then [] else (g.observedBy w).filter (· != id) := by
  have hkeep (hw : w ∉ g.observersOf id) : (g.observedBy w).filter (· != id) = g.observedBy w := by
    refine List.filter_eq_self.2 fun x hx => bne_iff_ne.2 ?_
    rintro rfl
    exact hw (h.mirror.2 hx)
  rw [run_removeValue]
  cases hid : g.values.get? id with
  | none =>
    dsimp only
    split
    · rename_i hw
      rw [hw, observedBy, hid]
      rfl
    · rw [hkeep]
      rw [observersOf, hid]
      exact List.not_mem_nil
  | some c =>
    have hobservers : c.observers = g.observersOf id := by
      rw [observersOf, hid]
      rfl
    rw [observedBy_withoutObserved, observedBy_withoutObserver, observedBy_erase, hobservers]
    by_cases hw : w = id
    · simp [hw]
    · simp only [if_neg hw]
      split
      · rfl
      · rename_i hmem
        exact (hkeep hmem).symm

/-- Removing a value with its links. -/
theorem removeValue (h : Mutual g) (id : ValueId) : Mutual ((Graph.removeValue id).run g).2 where
  mirror := by
    intro u v
    rw [h.observersOf_removeValue, h.observedBy_removeValue]
    by_cases hu : u = id
    · simp [hu]
    · by_cases hv : v = id
      · simp [hv]
      · simp [hu, hv, h.mirror]
  observers_nodup u := by
    rw [h.observersOf_removeValue]
    split
    · exact List.nodup_nil
    · exact (h.observers_nodup u).filter _
  observing_nodup u := by
    rw [h.observedBy_removeValue]
    split
    · exact List.nodup_nil
    · exact (h.observing_nodup u).filter _

end Mutual

/-- Removing a value closes no cycle. -/
theorem Acyclic.removeValue (h : Acyclic g) (hg : Mutual g) (id : ValueId) :
    Acyclic ((Graph.removeValue id).run g).2 := by
  refine h.mono fun u => ?_
  rw [hg.observersOf_removeValue]
  split
  · exact List.nil_subset _
  · exact List.filter_sublist.subset

end

end ReactiveMarkup.Graph
