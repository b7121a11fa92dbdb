import Mathlib.Data.List.Perm.Basic
import Mathlib.Logic.Relation
import ReactiveMarkup.Graph.Build

/-!
# Searching along observers

A search looks at the values that wait, one after another, until it meets its target: one that was
seen is dropped, and the observers of another one wait with the rest. No look changes whether the
target can be reached from what waits without what was seen, and each look uses up a link or one that
waits. So every search ends, in cyclic graphs too, and all of them give the same answer, whichever
value they take next.

Main definitions: `Graph.Notifies`, `Graph.Exploration`, `Graph.Looks`, `Graph.Answers`.
Main results: `Graph.Looks.promising_iff`, `Graph.Looks.room_lt`, `Graph.answers_iff`,
`Graph.reaches_iff`.
-/
namespace ReactiveMarkup.Graph

/-- Whether a change of the first value is told to the second one. -/
def Notifies (g : Graph) (u v : ValueId) : Prop := v ∈ g.observersOf u

/-- What a search has seen, and what it still has to look at. -/
structure Exploration where
  seen : List ValueId
  waiting : List ValueId

/-- One look of a search at some value that waits. -/
inductive Looks (g : Graph) (target : ValueId) (s s' : Exploration) : Prop
  | again {id : ValueId} (taken : s.waiting.Perm (id :: s'.waiting)) (hne : id ≠ target)
      (hseen : id ∈ s.seen) (seen : s'.seen = s.seen)
  | on {id : ValueId} {rest : List ValueId} (taken : s.waiting.Perm (id :: rest)) (hne : id ≠ target)
      (hseen : id ∉ s.seen) (seen : s'.seen = id :: s.seen)
      (waiting : s'.waiting.Perm (g.observersOf id ++ rest))

/-- What a search may answer: it has met the target, or nothing waits. -/
inductive Answers (g : Graph) (target : ValueId) : Exploration → Bool → Prop
  | found {s : Exploration} (met : target ∈ s.waiting) : Answers g target s true
  | exhausted {s : Exploration} (done : s.waiting = []) : Answers g target s false
  | look {s s' : Exploration} {answer : Bool} (h : Looks g target s s')
      (rest : Answers g target s' answer) : Answers g target s answer

/-- A way from a value to the target that goes through nothing that was seen. -/
inductive Leads (g : Graph) (target : ValueId) (seen : List ValueId) : ValueId → Prop
  | here : Leads g target seen target
  | on {u v : ValueId} (hu : u ∉ seen) (step : g.Notifies u v) (rest : Leads g target seen v) :
      Leads g target seen u

/-- Whether the target can be reached from what waits without what was seen. -/
def Promising (g : Graph) (target : ValueId) (s : Exploration) : Prop :=
  ∃ u ∈ s.waiting, Leads g target s.seen u

/-- How much a search can still look at: links of values that were not seen, and what waits. -/
def room (g : Graph) (s : Exploration) : Nat :=
  unseenLinks g.values.entries s.seen + s.waiting.length

variable {g : Graph} {target u v : ValueId} {seen : List ValueId} {s s' : Exploration}

/-! ## Ways -/

namespace Leads

theorem eq_of_mem (h : Leads g target seen u) (hu : u ∈ seen) : u = target := by
  cases h with
  | here => rfl
  | on hnot => exact absurd hu hnot

theorem mono {seen' : List ValueId} (h : Leads g target seen u) (hsub : seen' ⊆ seen) :
    Leads g target seen' u := by
  induction h with
  | here => exact .here
  | on hu step _ ih => exact .on (fun hmem => hu (hsub hmem)) step ih

/-- A way goes around a value, or has a last place where it leaves it. -/
theorem around (h : Leads g target seen u) (id : ValueId) :
    Leads g target (id :: seen) u ∨ ∃ v, g.Notifies id v ∧ Leads g target (id :: seen) v := by
  induction h with
  | here => exact .inl .here
  | @on u v hu step _ ih =>
    rcases ih with ih | ih
    · by_cases hid : u = id
      · subst hid
        exact .inr ⟨v, step, ih⟩
      · exact .inl (.on (by simp [hid, hu]) step ih)
    · exact .inr ih

theorem nil_iff : Leads g target [] u ↔ Relation.ReflTransGen g.Notifies u target := by
  constructor
  · intro h
    induction h with
    | here => exact .refl
    | on _ step _ ih => exact .head step ih
  · intro h
    induction h using Relation.ReflTransGen.head_induction_on with
    | refl => exact .here
    | head step _ ih => exact .on List.not_mem_nil step ih

end Leads

/-! ## Looks -/

namespace Looks

/-- No look changes whether the target can be reached. -/
theorem promising_iff (h : Looks g target s s') : g.Promising target s ↔ g.Promising target s' := by
  cases h with
  | @again id taken hne hseen seen =>
    rw [Promising, Promising, seen]
    constructor
    · rintro ⟨u, hu, hleads⟩
      rcases List.mem_cons.1 (taken.mem_iff.1 hu) with rfl | hu
      · exact absurd (hleads.eq_of_mem hseen) hne
      · exact ⟨u, hu, hleads⟩
    · rintro ⟨u, hu, hleads⟩
      exact ⟨u, taken.mem_iff.2 (List.mem_cons_of_mem _ hu), hleads⟩
  | @on id rest taken hne hseen seen waiting =>
    have hsub : s.seen ⊆ id :: s.seen := List.subset_cons_self ..
    rw [Promising, Promising, seen]
    constructor
    · rintro ⟨u, hu, hleads⟩
      rcases hleads.around id with haround | ⟨v, step, haround⟩
      · rcases List.mem_cons.1 (taken.mem_iff.1 hu) with rfl | hu
        · exact absurd (haround.eq_of_mem (List.mem_cons_self ..)) hne
        · exact ⟨u, waiting.mem_iff.2 (List.mem_append_right _ hu), haround⟩
      · exact ⟨v, waiting.mem_iff.2 (List.mem_append_left _ step), haround⟩
    · rintro ⟨u, hu, hleads⟩
      rcases List.mem_append.1 (waiting.mem_iff.1 hu) with hu | hu
      · exact ⟨id, taken.mem_iff.2 (List.mem_cons_self ..), .on hseen hu (hleads.mono hsub)⟩
      · exact ⟨u, taken.mem_iff.2 (List.mem_cons_of_mem _ hu), hleads.mono hsub⟩

theorem room_lt (h : Looks g target s s') : g.room s' < g.room s := by
  cases h with
  | again taken _ _ seen =>
    have hlength := taken.length_eq
    rw [List.length_cons] at hlength
    rw [room, room, seen, hlength]
    omega
  | @on id rest taken _ hseen seen waiting =>
    have hnew : s.seen.contains id = false := by simpa using hseen
    have hlinks := unseenLinks_observersOf_le g hnew
    rw [room, room, seen, waiting.length_eq, taken.length_eq, List.length_append, List.length_cons]
    omega

end Looks

/-- A search looks no more often than it has room. -/
theorem length_le_room {run : List Exploration} (h : (s :: run).IsChain (Looks g target)) :
    run.length ≤ g.room s := by
  induction run generalizing s with
  | nil => exact Nat.zero_le _
  | cons s' run ih =>
    obtain ⟨hlook, hrest⟩ := List.isChain_cons_cons.1 h
    exact Nat.lt_of_le_of_lt (ih hrest) hlook.room_lt

/-! ## Answers -/

theorem Answers.eq_true_iff {answer : Bool} (h : Answers g target s answer) :
    answer = true ↔ g.Promising target s := by
  induction h with
  | found met => exact ⟨fun _ => ⟨target, met, .here⟩, fun _ => rfl⟩
  | @exhausted s done =>
    refine ⟨fun h => absurd h Bool.false_ne_true, ?_⟩
    rintro ⟨u, hu, -⟩
    rw [done] at hu
    cases hu
  | look h _ ih => rw [ih, h.promising_iff]

/-- Looking at the first of those that wait is one of the searches. -/
theorem answers_reachesFrom (g : Graph) (target : ValueId) (seen ids : List ValueId) :
    Answers g target ⟨seen, ids⟩ (g.reachesFrom target seen ids) := by
  fun_induction reachesFrom g target seen ids with
  | case1 seen => exact .exhausted rfl
  | case2 seen rest => exact .found (List.mem_cons_self ..)
  | case3 seen id rest hne hmem ih =>
    have hlook : Looks g target ⟨seen, id :: rest⟩ ⟨seen, rest⟩ :=
      .again (.refl _) hne (by simpa using hmem) rfl
    exact .look hlook ih
  | case4 seen id rest hne hmem _ ih =>
    have hlook : Looks g target ⟨seen, id :: rest⟩ ⟨id :: seen, g.observersOf id ++ rest⟩ :=
      .on (.refl _) hne (by simpa using hmem) rfl (.refl _)
    exact .look hlook ih

/-- Whether the first value reaches the second one is whether there is a way along observers. -/
theorem reaches_iff : g.reaches u target = true ↔ Relation.ReflTransGen g.Notifies u target := by
  rw [reaches, (answers_reachesFrom g target [] [u]).eq_true_iff, ← Leads.nil_iff]
  constructor
  · rintro ⟨w, hw, h⟩
    rwa [List.mem_singleton.1 hw] at h
  · exact fun h => ⟨u, List.mem_singleton_self u, h⟩

/-- Every search from a value has the same answer. -/
theorem answers_iff {answer : Bool} :
    Answers g target ⟨[], [u]⟩ answer ↔ answer = g.reaches u target := by
  have hreaches := answers_reachesFrom g target [] [u]
  constructor
  · intro h
    exact Bool.eq_iff_iff.2 (h.eq_true_iff.trans hreaches.eq_true_iff.symm)
  · rintro rfl
    exact hreaches

end ReactiveMarkup.Graph
