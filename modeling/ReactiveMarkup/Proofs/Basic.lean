import Mathlib.Data.List.Forall2
import Mathlib.Data.List.Perm.Basic
import Mathlib.Logic.Relation
import ReactiveMarkup.Text.Keyed

/-!
# Lists, ways and steps that may fail

Facts about lists of entries, about what is found alike, about lists whose items are related pairwise,
about the ways along a relation that has one more pair, and about steps that may fail.

Main results: `Keyed.mem_of_lookup`, `Keyed.mem_insert`, `exists_mem_of_forall₂_left`,
`transGen_of_oneMore`, `exists_of_bind_eq_ok`.
-/
namespace ReactiveMarkup

namespace Keyed

variable {α : Type} {entries : List (String × α)} {key : String} {a : α}

/-- What is found under a key, of whatever kind, is an entry. -/
theorem mem_of_lookup {κ : Type} [BEq κ] [LawfulBEq κ] {entries : List (κ × α)} {key : κ}
    (h : entries.lookup key = some a) : (key, a) ∈ entries := by
  obtain ⟨l, r, rfl, -⟩ := List.lookup_eq_some_iff.1 h
  exact List.mem_append_right l (List.mem_cons_self ..)

/-- Setting a key adds one entry at most. -/
theorem mem_insert {e : String × α} (h : e ∈ insert key a entries) :
    e = (key, a) ∨ e ∈ entries := by
  fun_induction insert key a entries <;> grind

end Keyed

/-- Where two findings look alike and one is there, so is the other. -/
theorem exists_of_map_eq {α β : Type} {f : α → β} {x y : Option α} {a : α}
    (h : x.map f = y.map f) (hx : x = some a) : ∃ b, y = some b ∧ f b = f a := by
  rw [hx, Option.map_some] at h
  exact Option.map_eq_some_iff.1 h.symm

/-! ## Pairs in two lists -/

section Pairs

variable {α β : Type} {R : α → β → Prop} {xs : List α}

theorem exists_mem_of_forall₂_left {ys : List β}
    (h : List.Forall₂ R xs ys) {x : α} (hx : x ∈ xs) : ∃ y ∈ ys, R x y := by
  induction h with
  | nil => cases hx
  | cons hxy _ ih =>
    rcases List.mem_cons.1 hx with rfl | hx
    · exact ⟨_, List.mem_cons_self .., hxy⟩
    · obtain ⟨y, hy, hxy⟩ := ih hx
      exact ⟨y, List.mem_cons_of_mem _ hy, hxy⟩

theorem exists_mem_of_forall₂_right {ys : List β}
    (h : List.Forall₂ R xs ys) {y : β} (hy : y ∈ ys) : ∃ x ∈ xs, R x y :=
  exists_mem_of_forall₂_left h.flip hy

theorem forall₂_append_cons_right {as bs : List β}
    {b : β} (h : List.Forall₂ R xs (as ++ b :: bs)) :
    ∃ as' b' bs', xs = as' ++ b' :: bs' ∧ List.Forall₂ R as' as ∧ R b' b := by
  induction as generalizing xs with
  | nil =>
    obtain ⟨x, xs, hx, -, rfl⟩ := List.forall₂_cons_right_iff.1 h
    exact ⟨[], x, xs, rfl, .nil, hx⟩
  | cons a as ih =>
    obtain ⟨x, xs, hx, hrest, rfl⟩ := List.forall₂_cons_right_iff.1 h
    obtain ⟨as', b', bs', rfl, has, hb⟩ := ih hrest
    exact ⟨x :: as', b', bs', rfl, .cons hx has, hb⟩

end Pairs

/-! ## One item more -/

section

variable {α : Type} {l : List α} {i : Nat} {a b : α}

theorem mem_of_mem_insertIdx (h : a ∈ l.insertIdx i b) : a = b ∨ a ∈ l := by
  by_cases hi : i ≤ l.length
  · exact (List.mem_insertIdx hi).1 h
  · rw [List.insertIdx_of_length_lt (by omega)] at h
    exact .inr h

theorem nodup_insertIdx (h : l.Nodup) (hb : b ∉ l) : (l.insertIdx i b).Nodup := by
  by_cases hi : i ≤ l.length
  · exact (List.perm_insertIdx b l hi).nodup_iff.2 (List.nodup_cons.2 ⟨hb, h⟩)
  · rw [List.insertIdx_of_length_lt (by omega)]
    exact h

theorem of_getElem?_concat (h : (l ++ [b])[i]? = some a) : l[i]? = some a ∨ i = l.length ∧ a = b := by
  have hi : i < l.length + 1 := by simpa using (List.getElem?_eq_some_iff.1 h).1
  rcases Nat.lt_or_eq_of_le (Nat.le_of_lt_succ hi) with hlt | rfl
  · rw [List.getElem?_append_left hlt] at h
    exact .inl h
  · rw [List.getElem?_concat_length] at h
    exact .inr ⟨rfl, (Option.some.inj h).symm⟩

/-- A way along a relation that has one more pair either was there before or leads over that pair. -/
theorem transGen_of_oneMore {r r' : α → α → Prop} {u v : α}
    (hstep : ∀ a b, r' a b → r a b ∨ a = u ∧ b = v) (h : Relation.TransGen r' a b) :
    Relation.TransGen r a b ∨ Relation.ReflTransGen r a u ∧ Relation.ReflTransGen r v b := by
  induction h with
  | single hb =>
    rcases hstep _ _ hb with hold | ⟨rfl, rfl⟩
    · exact .inl (.single hold)
    · exact .inr ⟨.refl, .refl⟩
  | tail _ hb ih =>
    rcases hstep _ _ hb with hold | ⟨rfl, rfl⟩
    · rcases ih with ih | ⟨hto, hfrom⟩
      · exact .inl (ih.tail hold)
      · exact .inr ⟨hto, hfrom.tail hold⟩
    · rcases ih with ih | ⟨hto, -⟩
      · exact .inr ⟨ih.to_reflTransGen, .refl⟩
      · exact .inr ⟨hto, .refl⟩

end

/-! ## Steps that may fail -/

section

variable {ε α β : Type}

theorem exists_of_bind_eq_ok {x : Except ε α} {f : α → Except ε β} {b : β}
    (h : x >>= f = .ok b) : ∃ a, x = .ok a ∧ f a = .ok b := by
  cases x with
  | ok a => exact ⟨a, rfl, h⟩
  | error e => cases h

theorem exists_of_map_eq_ok {f : α → β} {x : Except ε α} {b : β} (h : x.map f = .ok b) :
    ∃ a, x = .ok a ∧ f a = b := by
  cases x with
  | ok a => exact ⟨a, rfl, by cases h; rfl⟩
  | error e => cases h

/-- What every step keeps, steps one after the other keep. -/
theorem foldlM_keeps {P : β → Prop} {step : β → α → Except ε β}
    (hstep : ∀ b a b', P b → step b a = .ok b' → P b') {xs : List α} {b b' : β} (hb : P b)
    (ok : xs.foldlM step b = .ok b') : P b' := by
  induction xs generalizing b with
  | nil =>
    cases ok
    exact hb
  | cons a xs ih =>
    rw [List.foldlM_cons] at ok
    obtain ⟨b₁, hfirst, ok⟩ := exists_of_bind_eq_ok ok
    exact ih (hstep b a b₁ hb hfirst) ok

end

/-! ## Steps that may fail on a state -/

section

variable {ε σ α β : Type}

theorem run_run_get_bind (k : σ → ExceptT ε (StateM σ) α) (s : σ) :
    (get >>= k : ExceptT ε (StateM σ) α).run.run s = (k s).run.run s := rfl

/-- A failing step ends the run, and the state stays as that step has left it. -/
theorem run_run_bind (m : ExceptT ε (StateM σ) β) (k : β → ExceptT ε (StateM σ) α) (s : σ) :
    (m >>= k).run.run s =
      match m.run.run s with
      | (.ok a, s') => (k a).run.run s'
      | (.error e, s') => (.error e, s') := by
  rw [ExceptT.run_bind, StateT.run_bind]
  generalize m.run.run s = u
  obtain ⟨result, s'⟩ := u
  cases result <;> rfl

/-- A loop of steps, each of which does what `f` does, does what `f` does one after the other. -/
theorem run_run_forM {f : σ → α → Except ε σ} {step : α → ExceptT ε (StateM σ) PUnit}
    (hstep : ∀ a s s', f s a = .ok s' → (step a).run.run s = (.ok ⟨⟩, s')) {xs : List α} {s s' : σ}
    (ok : xs.foldlM f s = .ok s') : (xs.forM step).run.run s = (.ok ⟨⟩, s') := by
  induction xs generalizing s with
  | nil =>
    cases ok
    rfl
  | cons a xs ih =>
    rw [List.foldlM_cons] at ok
    obtain ⟨s₁, hfirst, ok⟩ := exists_of_bind_eq_ok ok
    change (step a >>= fun _ => xs.forM step).run.run s = _
    rw [run_run_bind, hstep a s s₁ hfirst]
    exact ih ok

end

end ReactiveMarkup
