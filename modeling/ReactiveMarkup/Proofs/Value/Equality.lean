import ReactiveMarkup.Proofs.Number
import ReactiveMarkup.Value.Equality

/-!
# What counts as a change

A value that is loosely equal to the one before is no change. The relation goes both ways, holds
between values of equal content and between values that are strictly equal, and of all values only
what is not a number is a change of itself.

Main definitions: `Value.isNaN`.
Main results: `Value.looseEq_comm`, `Value.looseEq_self`, `Value.looseEq_detects`.
-/
namespace ReactiveMarkup.Value

/-- Whether a value is the number that is not a number. -/
def isNaN : Value → Bool
  | number x => x.isNaN
  | _ => false

mutual

/-- Loose equality goes both ways, whatever is converted. -/
theorem looseEq_comm (a b : Value) : looseEq a b = looseEq b a := by
  cases a with
  | number x =>
    cases b with
    | number | bool | string => exact BEq.comm
    | _ => rfl
  | string s =>
    cases b with
    | string t => exact Bool.beq_comm
    | number | bool => exact BEq.comm
    | _ => rfl
  | bool p =>
    cases b with
    | bool q => exact Bool.beq_comm
    | number | string => exact BEq.comm
    | _ => rfl
  | array s as =>
    cases b with
    | array t bs => rw [looseEq, looseEq, looseEqItems_comm as bs, Bool.beq_comm]
    | _ => rfl
  | object s as =>
    cases b with
    | object t bs => rw [looseEq, looseEq, looseEqEntries_comm as bs, Bool.beq_comm]
    | _ => rfl
  | function s =>
    cases b with
    | function t => exact Bool.beq_comm
    | _ => rfl
  | undefined | null => cases b <;> rfl

theorem looseEqItems_comm : ∀ as bs : List Value, looseEqItems as bs = looseEqItems bs as
  | [], [] | [], _ :: _ | _ :: _, [] => rfl
  | a :: as, b :: bs => by
    rw [looseEqItems, looseEqItems, looseEq_comm a b, looseEqItems_comm as bs]

theorem looseEqEntries_comm :
    ∀ as bs : List (String × Value), looseEqEntries as bs = looseEqEntries bs as
  | [], [] | [], _ :: _ | _ :: _, [] => rfl
  | (j, a) :: as, (k, b) :: bs => by
    have hab : looseEq a b = looseEq b a := looseEq_comm a b
    rw [looseEqEntries, looseEqEntries, hab, looseEqEntries_comm as bs, Bool.beq_comm]

end

mutual

/-- Equal content is loosely equal. -/
theorem looseEq_of_same {a b : Value} (h : same a b = true) : looseEq a b = true := by
  cases a with
  | array s as =>
    cases b with
    | array t bs => rw [looseEq, looseEqItems_of_sameItems as bs h, Bool.or_true]
    | _ => cases h
  | object s as =>
    cases b with
    | object t bs => rw [looseEq, looseEqEntries_of_sameEntries as bs h, Bool.or_true]
    | _ => cases h
  | _ => cases b <;> first | exact h | cases h

theorem looseEqItems_of_sameItems :
    ∀ as bs : List Value, sameItems as bs = true → looseEqItems as bs = true
  | [], [], _ => rfl
  | [], _ :: _, h | _ :: _, [], h => by cases h
  | a :: as, b :: bs, h => by
    rw [sameItems, Bool.and_eq_true] at h
    rw [looseEqItems, looseEq_of_same h.1, looseEqItems_of_sameItems as bs h.2, Bool.and_self]

theorem looseEqEntries_of_sameEntries :
    ∀ as bs : List (String × Value), sameEntries as bs = true → looseEqEntries as bs = true
  | [], [], _ => rfl
  | [], _ :: _, h | _ :: _, [], h => by cases h
  | (j, a) :: as, (k, b) :: bs, h => by
    rw [sameEntries, Bool.and_eq_true, Bool.and_eq_true] at h
    have hab : looseEq a b = true := looseEq_of_same h.1.2
    rw [looseEqEntries, hab, h.1.1, looseEqEntries_of_sameEntries as bs h.2]
    rfl

end

/-- Containers that are the same one are loosely equal without a look at what is in them. -/
theorem looseEq_of_strictEq {a b : Value} (h : strictEq a b = true) : looseEq a b = true := by
  cases a with
  | array s as =>
    cases b with
    | array t bs =>
      rw [strictEq] at h
      rw [looseEq, h, Bool.true_or]
    | _ => cases h
  | object s as =>
    cases b with
    | object t bs =>
      rw [strictEq] at h
      rw [looseEq, h, Bool.true_or]
    | _ => cases h
  | _ => cases b <;> exact looseEq_of_same h

/-- A container equals itself even if it holds what is not a number. -/
theorem looseEq_self (a : Value) : looseEq a a = !a.isNaN := by
  cases a with
  | number x => exact Number.beq_self x
  | array s as | object s as =>
    rw [looseEq, beq_self_eq_true, Bool.true_or]
    rfl
  | string s => exact beq_self_eq_true s
  | bool p => exact beq_self_eq_true p
  | function s => exact beq_self_eq_true s
  | undefined | null => rfl

/-- Whether something counts as a change does not depend on which value was there first, equal
content and the same container are no change, and only what is not a number is a change of itself.
Null and undefined are a change of everything but each other. -/
theorem looseEq_detects (a b : Value) :
    looseEq a b = looseEq b a ∧ (same a b = true → looseEq a b = true) ∧
      (strictEq a b = true → looseEq a b = true) ∧ looseEq a a = !a.isNaN ∧
      looseEq null a = a.isNullish ∧ looseEq undefined a = a.isNullish :=
  ⟨looseEq_comm a b, looseEq_of_same, looseEq_of_strictEq, looseEq_self a,
    looseEq_of_isNullish rfl a, looseEq_of_isNullish rfl a⟩

/-- Two arrays of equal content, and an array that holds what is not a number. -/
theorem looseEq_detects_arrays :
    looseEq (array 1 [null, array 2 [bool true]]) (array 3 [null, array 4 [bool true]]) = true ∧
      looseEq (array 5 [number Number.nan]) (array 5 [number Number.nan]) = true := by
  obtain ⟨-, hsame, -⟩ :=
    looseEq_detects (array 1 [null, array 2 [bool true]]) (array 3 [null, array 4 [bool true]])
  obtain ⟨-, -, hstrict, -⟩ :=
    looseEq_detects (array 5 [number Number.nan]) (array 5 [number Number.nan])
  exact ⟨hsame rfl, hstrict rfl⟩

end ReactiveMarkup.Value
