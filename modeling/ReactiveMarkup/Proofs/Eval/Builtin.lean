import ReactiveMarkup.Eval.Builtin
import ReactiveMarkup.Proofs.Basic
import ReactiveMarkup.Proofs.Value.Parts

/-!
# Host functions on alike values

Host functions and methods give alike results on alike arguments, and take as many stamps. Whether
the new containers correspond is up to the stamps that they get.

Main definitions: `StampedAlike`, `Builtin.Function.Congruent`, `Builtin.Method.Congruent`.
Main results: `Builtin.callFunction_alike`, `Builtin.callMethod_alike`.
-/
namespace ReactiveMarkup

/-- Results that took equally many stamps, from `n` and from `m` on, and are related if the stamps
that they took correspond. -/
def StampedAlike {α β : Type} (R : Stamp → Stamp → Prop) (Q : α → β → Prop) (n m : Stamp) :
    Except EvalError (α × Stamp) → Except EvalError (β × Stamp) → Prop :=
  ResultAlike fun p p' => ∃ k, p.2 = n + k ∧ p'.2 = m + k ∧
    ((∀ i < k, R (n + i) (m + i)) → Q p.1 p'.1)

namespace Builtin

open Value

variable {R : Stamp → Stamp → Prop} {T : Twins} {n m : Stamp} {args args' : List Value}

theorem arg_alike (h : List.Forall₂ (Alike R T) args args') (i : Nat) :
    Alike R T (arg args i) (arg args' i) := by
  rw [arg, arg, List.getD_eq_getElem?_getD, List.getD_eq_getElem?_getD]
  exact getD_alike (getElem?_rel h i)

/-- A result that takes no stamp. -/
theorem plain_alike {v w : Value} (h : Alike R T v w) :
    StampedAlike R (Alike R T) n m (plain n v) (plain m w) :=
  .ok ⟨0, rfl, rfl, fun _ => h⟩

/-- A new array takes one stamp. -/
theorem fresh_alike {as bs : List Value} (h : List.Forall₂ (Alike R T) as bs) :
    StampedAlike R (Alike R T) n m (fresh n as) (fresh m bs) :=
  .ok ⟨1, rfl, rfl, fun hn => .array (hn 0 Nat.zero_lt_one) h⟩

theorem map_string_alike {α : Type} (f : α → String) (xs : List α) :
    List.Forall₂ (Alike R T) (xs.map fun x => .string (f x)) (xs.map fun x => .string (f x)) := by
  rw [List.forall₂_map_left_iff, List.forall₂_map_right_iff, List.forall₂_same]
  intro x _
  exact .string _

/-! ## Functions -/

/-- A function that tells no alike arguments apart. -/
def Function.Congruent (f : Function) : Prop :=
  ∀ ⦃R : Stamp → Stamp → Prop⦄ ⦃T : Twins⦄ ⦃n m : Stamp⦄ ⦃args args' : List Value⦄,
    List.Forall₂ (Alike R T) args args' →
    StampedAlike R (Alike R T) n m (f.apply n args) (f.apply m args')

theorem math_congruent (f : Number → Number) : (math f).Congruent := by
  intro R T n m args args' h
  simp only [math, (arg_alike h 0).toNumber_eq]
  exact plain_alike (.number _)

theorem foldl_toNumber_eq (f : Number → Number → Number)
    (h : List.Forall₂ (Alike R T) args args') (start : Number) :
    args'.foldl (fun acc v => f acc v.toNumber) start =
      args.foldl (fun acc v => f acc v.toNumber) start := by
  induction h generalizing start with
  | nil => rfl
  | cons hv _ ih => rw [List.foldl_cons, List.foldl_cons, ih, hv.toNumber_eq]

theorem mathFold_congruent (f : Number → Number → Number) (start : Number) :
    (mathFold f start).Congruent := by
  intro R T n m args args' h
  simp only [mathFold, foldl_toNumber_eq f h]
  exact plain_alike (.number _)

theorem toStringFunction_congruent : toStringFunction.Congruent := by
  intro R T n m args args' h
  cases h with
  | nil => exact plain_alike (.string _)
  | cons hv _ =>
    simp only [toStringFunction, List.head?_cons, Option.map_some, hv.toText_eq]
    exact plain_alike (.string _)

theorem toNumberFunction_congruent : toNumberFunction.Congruent := by
  intro R T n m args args' h
  cases h with
  | nil => exact plain_alike (.number _)
  | cons hv _ =>
    simp only [toNumberFunction, List.head?_cons, Option.map_some, hv.toNumber_eq]
    exact plain_alike (.number _)

theorem toBooleanFunction_congruent : toBooleanFunction.Congruent := by
  intro R T n m args args' h
  simp only [toBooleanFunction, (arg_alike h 0).truthy_eq]
  exact plain_alike (.bool _)

theorem stringify_congruent : stringify.Congruent := by
  intro R T n m args args' h
  have h0 := arg_alike h 0
  simp only [stringify, h0.isOmitted_eq, h0.toJson_eq]
  split
  · exact plain_alike .undefined
  · exact plain_alike (.string _)

theorem ofJsonItems_cons (n : Stamp) (j : Json) (js : List Json) :
    ofJsonItems n (j :: js) = ((ofJson n j).1 :: (ofJsonItems (ofJson n j).2 js).1,
      (ofJsonItems (ofJson n j).2 js).2) := by
  rw [ofJsonItems]

theorem ofJsonMembers_cons (n : Stamp) (key : String) (j : Json) (ms : List (String × Json)) :
    ofJsonMembers n ((key, j) :: ms) = ((key, (ofJson n j).1) :: (ofJsonMembers (ofJson n j).2 ms).1,
      (ofJsonMembers (ofJson n j).2 ms).2) := by
  rw [ofJsonMembers]

mutual

/-- Two readings of one document take equally many stamps. -/
theorem ofJson_alike (j : Json) (n m : Stamp) :
    ∃ k, (ofJson n j).2 = n + k ∧ (ofJson m j).2 = m + k ∧
      ((∀ i < k, R (n + i) (m + i)) → Alike R T (ofJson n j).1 (ofJson m j).1) := by
  cases j with
  | null => exact ⟨0, rfl, rfl, fun _ => .null⟩
  | bool b => exact ⟨0, rfl, rfl, fun _ => .bool b⟩
  | int i => exact ⟨0, rfl, rfl, fun _ => .number _⟩
  | float x => exact ⟨0, rfl, rfl, fun _ => .number x⟩
  | string s => exact ⟨0, rfl, rfl, fun _ => .string s⟩
  | array js =>
    obtain ⟨k, hn, hm, h⟩ := ofJsonItems_alike js (n + 1) (m + 1)
    refine ⟨k + 1, ?_, ?_, fun hR => ?_⟩
    · rw [ofJson, hn, Nat.add_right_comm, Nat.add_assoc]
    · rw [ofJson, hm, Nat.add_right_comm, Nat.add_assoc]
    · rw [ofJson, ofJson]
      refine .array (hR 0 (Nat.succ_pos k)) (h fun i hi => ?_)
      rw [Nat.add_right_comm n, Nat.add_right_comm m]
      exact hR (i + 1) (Nat.succ_lt_succ hi)
  | object ms =>
    obtain ⟨k, hn, hm, h⟩ := ofJsonMembers_alike ms (n + 1) (m + 1)
    refine ⟨k + 1, ?_, ?_, fun hR => ?_⟩
    · rw [ofJson, hn, Nat.add_right_comm, Nat.add_assoc]
    · rw [ofJson, hm, Nat.add_right_comm, Nat.add_assoc]
    · rw [ofJson, ofJson]
      have hs := h fun i hi => by
        rw [Nat.add_right_comm n, Nat.add_right_comm m]
        exact hR (i + 1) (Nat.succ_lt_succ hi)
      exact .object (hR 0 (Nat.succ_pos k)) hs.keys hs.items

theorem ofJsonItems_alike (js : List Json) (n m : Stamp) :
    ∃ k, (ofJsonItems n js).2 = n + k ∧ (ofJsonItems m js).2 = m + k ∧
      ((∀ i < k, R (n + i) (m + i)) →
        List.Forall₂ (Alike R T) (ofJsonItems n js).1 (ofJsonItems m js).1) := by
  cases js with
  | nil => exact ⟨0, rfl, rfl, fun _ => .nil⟩
  | cons j js =>
    obtain ⟨k, hn, hm, h⟩ := ofJson_alike j n m
    obtain ⟨l, hn', hm', h'⟩ := ofJsonItems_alike js (n + k) (m + k)
    refine ⟨k + l, ?_, ?_, fun hR => ?_⟩
    · rw [ofJsonItems_cons, hn, hn', Nat.add_assoc]
    · rw [ofJsonItems_cons, hm, hm', Nat.add_assoc]
    · rw [ofJsonItems_cons, ofJsonItems_cons, hn, hm]
      refine .cons (h fun i hi => hR i (Nat.lt_add_right l hi)) (h' fun i hi => ?_)
      rw [Nat.add_assoc, Nat.add_assoc]
      exact hR (k + i) (Nat.add_lt_add_left hi k)

theorem ofJsonMembers_alike (ms : List (String × Json)) (n m : Stamp) :
    ∃ k, (ofJsonMembers n ms).2 = n + k ∧ (ofJsonMembers m ms).2 = m + k ∧
      ((∀ i < k, R (n + i) (m + i)) →
        EntriesAlike R T (ofJsonMembers n ms).1 (ofJsonMembers m ms).1) := by
  match ms with
  | [] => exact ⟨0, rfl, rfl, fun _ => .nil⟩
  | (key, j) :: ms =>
    obtain ⟨k, hn, hm, h⟩ := ofJson_alike j n m
    obtain ⟨l, hn', hm', h'⟩ := ofJsonMembers_alike ms (n + k) (m + k)
    refine ⟨k + l, ?_, ?_, fun hR => ?_⟩
    · rw [ofJsonMembers_cons, hn, hn', Nat.add_assoc]
    · rw [ofJsonMembers_cons, hm, hm', Nat.add_assoc]
    · rw [ofJsonMembers_cons, ofJsonMembers_cons, hn, hm]
      refine .cons (h fun i hi => hR i (Nat.lt_add_right l hi)) (h' fun i hi => ?_)
      rw [Nat.add_assoc, Nat.add_assoc]
      exact hR (k + i) (Nat.add_lt_add_left hi k)

end

theorem parseJson_congruent : parseJson.Congruent := by
  intro R T n m args args' h
  simp only [parseJson, (arg_alike h 0).toText_eq]
  split
  · exact .ok (ofJson_alike _ n m)
  · exact .error _

theorem isArrayFunction_congruent : isArrayFunction.Congruent := by
  intro R T n m args args' h
  simp only [isArrayFunction, (arg_alike h 0).isArray_eq]
  exact plain_alike (.bool _)

theorem keys_congruent : keys.Congruent := by
  intro R T n m args args' h
  have h0 := arg_alike h 0
  simp only [keys]
  generalize arg args 0 = v at h0 ⊢
  generalize arg args' 0 = w at h0 ⊢
  cases h0 with
  | undefined => exact .error _
  | null => exact .error _
  | array _ items =>
    simp only [items.length_eq]
    exact fresh_alike (map_string_alike toString _)
  | @object s t es fs _ hkeys _ =>
    refine fresh_alike ?_
    have hmap : ∀ xs : List (String × Value),
        (xs.map fun e => Value.string e.1) = (xs.map Prod.fst).map fun k => Value.string k := by
      intro xs
      rw [List.map_map]
      rfl
    rw [hmap es, hmap fs, hkeys]
    exact map_string_alike id _
  | _ => exact fresh_alike .nil

theorem log_congruent : log.Congruent := by
  intro R T n m args args' _
  exact plain_alike .undefined

theorem functions_congruent : ∀ p ∈ functions, p.2.Congruent := by
  intro p hp
  simp only [functions, List.mem_cons, List.not_mem_nil, or_false] at hp
  rcases hp with rfl | rfl | rfl | rfl | rfl | rfl | rfl | rfl | rfl | rfl | rfl | rfl | rfl | rfl
  · exact mathFold_congruent _ _
  · exact mathFold_congruent _ _
  · exact math_congruent _
  · exact math_congruent _
  · exact math_congruent _
  · exact math_congruent _
  · exact toStringFunction_congruent
  · exact toNumberFunction_congruent
  · exact toBooleanFunction_congruent
  · exact stringify_congruent
  · exact parseJson_congruent
  · exact isArrayFunction_congruent
  · exact keys_congruent
  · exact log_congruent

/-- A host function gives alike results on alike arguments. -/
theorem callFunction_alike (name : String) (h : List.Forall₂ (Alike R T) args args') :
    StampedAlike R (Alike R T) n m (callFunction name n args) (callFunction name m args') := by
  rw [callFunction, callFunction]
  cases hf : functions.lookup name with
  | none => exact .error _
  | some f =>
    simp only [h.length_eq]
    split
    · exact functions_congruent _ (Keyed.mem_of_lookup hf) h
    · exact .error _

/-! ## Methods -/

/-- A method that tells no alike receivers and arguments apart. -/
def Method.Congruent (f : Method) : Prop :=
  ∀ ⦃R : Stamp → Stamp → Prop⦄ ⦃T : Twins⦄ ⦃n m : Stamp⦄ ⦃v w : Value⦄ ⦃args args' : List Value⦄,
    Relator.BiUnique R → Alike R T v w → List.Forall₂ (Alike R T) args args' →
    Option.Rel (StampedAlike R (Alike R T) n m) (f n v args) (f m w args')

/-- A method of strings whose result is a text or a truth value. -/
theorem onText_congruent {f : List Char → List Value → Value}
    (hf : ∀ ⦃R : Stamp → Stamp → Prop⦄ ⦃T : Twins⦄ ⦃args args' : List Value⦄ (cs : List Char),
      List.Forall₂ (Alike R T) args args' → Alike R T (f cs args) (f cs args')) :
    Method.Congruent (onText f) := by
  intro R T n m v w args args' _ hv h
  cases hv with
  | string s => exact .some (plain_alike (hf _ h))
  | _ => exact .none

theorem chars_eq {v w : Value} (h : Alike R T v w) : chars w = chars v := by
  rw [chars, chars, h.toText_eq]

theorem toStringMethod_congruent : Method.Congruent toStringMethod := by
  intro R T n m v w args args' _ hv _
  rw [toStringMethod, toStringMethod, hv.toText_eq]
  exact .some (plain_alike (.string _))

theorem join_congruent : Method.Congruent join := by
  intro R T n m v w args args' _ hv h
  cases hv with
  | array _ items =>
    have h0 := arg_alike h 0
    have ht := h0.toText_eq
    simp only [join, Alike.itemTexts_eq items]
    generalize arg args 0 = v at h0 ht ⊢
    generalize arg args' 0 = w at h0 ht ⊢
    cases h0 with
    | undefined => exact .some (plain_alike (.string _))
    | _ =>
      simp only [ht]
      exact .some (plain_alike (.string _))
  | _ => exact .none

theorem relativeIndex_eq {v w : Value} (h : Alike R T v w) (length default : Nat) :
    relativeIndex w length default = relativeIndex v length default := by
  have hn := h.toNumber_eq
  cases h with
  | undefined => rfl
  | _ => simp only [relativeIndex, hn]

theorem slicePart_alike {as bs : List Value} (h : List.Forall₂ (Alike R T) args args')
    (hi : List.Forall₂ (Alike R T) as bs) :
    List.Forall₂ (Alike R T) (slicePart args as) (slicePart args' bs) := by
  simp only [slicePart, relativeIndex_eq (arg_alike h 0), relativeIndex_eq (arg_alike h 1),
    hi.length_eq]
  exact List.forall₂_take _ (List.forall₂_drop _ hi)

theorem slice_congruent : Method.Congruent slice := by
  intro R T n m v w args args' _ hv h
  cases hv with
  | array _ items => exact .some (fresh_alike (slicePart_alike h items))
  | string s =>
    simp only [slice, slicePart, relativeIndex_eq (arg_alike h 0), relativeIndex_eq (arg_alike h 1)]
    exact .some (plain_alike (.string _))
  | _ => exact .none

theorem appended_alike {v w : Value} (h : Alike R T v w) :
    List.Forall₂ (Alike R T) (appended v) (appended w) := by
  have hs : List.Forall₂ (Alike R T) [v] [w] := .cons h .nil
  cases h with
  | array _ items => exact items
  | _ => exact hs

theorem map_toText_eq (h : List.Forall₂ (Alike R T) args args') :
    args'.map Value.toText = args.map Value.toText := by
  induction h with
  | nil => rfl
  | cons hv _ ih => rw [List.map_cons, List.map_cons, hv.toText_eq, ih]

theorem concat_congruent : Method.Congruent concat := by
  intro R T n m v w args args' _ hv h
  cases hv with
  | array _ items =>
    exact .some (fresh_alike (List.rel_append items (List.rel_flatMap h fun _ _ => appended_alike)))
  | string s =>
    simp only [concat, map_toText_eq h]
    exact .some (plain_alike (.string _))
  | _ => exact .none

theorem any_sameOrNaN_eq (hR : Relator.BiUnique R) {as bs : List Value} {v w : Value}
    (h : List.Forall₂ (Alike R T) as bs) (hv : Alike R T v w) :
    bs.any (sameOrNaN · w) = as.any (sameOrNaN · v) := by
  induction h with
  | nil => rfl
  | cons ha _ ih => rw [List.any_cons, List.any_cons, Alike.sameOrNaN_eq hR ha hv, ih]

theorem includes_congruent : Method.Congruent includes := by
  intro R T n m v w args args' hR hv h
  cases hv with
  | array _ items =>
    simp only [includes]
    rw [any_sameOrNaN_eq hR items (arg_alike h 0)]
    exact .some (plain_alike (.bool _))
  | string s =>
    simp only [includes, chars_eq (arg_alike h 0)]
    exact .some (plain_alike (.bool _))
  | _ => exact .none

theorem placeValue_alike (o : Option Nat) : Alike R T (placeValue o) (placeValue o) := by
  cases o <;> exact .number _

theorem findIdx?_strictEq_eq (hR : Relator.BiUnique R) {as bs : List Value} {v w : Value}
    (h : List.Forall₂ (Alike R T) as bs) (hv : Alike R T v w) :
    bs.findIdx? (strictEq · w) = as.findIdx? (strictEq · v) := by
  induction h with
  | nil => rfl
  | cons ha _ ih => rw [List.findIdx?_cons, List.findIdx?_cons, Alike.strictEq_eq hR ha hv, ih]

theorem indexOf_congruent : Method.Congruent indexOf := by
  intro R T n m v w args args' hR hv h
  cases hv with
  | array _ items =>
    simp only [indexOf]
    rw [findIdx?_strictEq_eq hR items (arg_alike h 0)]
    exact .some (plain_alike (placeValue_alike _))
  | string s =>
    simp only [indexOf, chars_eq (arg_alike h 0)]
    exact .some (plain_alike (placeValue_alike _))
  | _ => exact .none

theorem reverse_congruent : Method.Congruent reverse := by
  intro R T n m v w args args' _ hv _
  cases hv with
  | array _ items => exact .some (fresh_alike (List.rel_reverse items))
  | _ => exact .none

theorem splitParts_eq (h : List.Forall₂ (Alike R T) args args') (cs : List Char) :
    splitParts args' cs = splitParts args cs := by
  have h0 := arg_alike h 0
  have hc := chars_eq h0
  simp only [splitParts]
  generalize arg args 0 = v at h0 hc ⊢
  generalize arg args' 0 = w at h0 hc ⊢
  cases h0 with
  | undefined => rfl
  | _ => simp only [hc]

theorem split_congruent : Method.Congruent split := by
  intro R T n m v w args args' _ hv h
  cases hv with
  | string s =>
    simp only [split, splitParts_eq h]
    exact .some (fresh_alike (map_string_alike _ _))
  | _ => exact .none

theorem toFixed_congruent : Method.Congruent toFixed := by
  intro R T n m v w args args' _ hv h
  cases hv with
  | number x =>
    simp only [toFixed, (arg_alike h 0).toNumber_eq]
    exact .some (plain_alike (.string _))
  | _ => exact .none

theorem methods_congruent : ∀ p ∈ methods, Method.Congruent p.2 := by
  intro p hp
  simp only [methods, List.mem_cons, List.not_mem_nil, or_false] at hp
  rcases hp with rfl | rfl | rfl | rfl | rfl | rfl | rfl | rfl | rfl | rfl | rfl | rfl | rfl | rfl |
    rfl <;> dsimp only
  · exact toStringMethod_congruent
  · exact join_congruent
  · exact slice_congruent
  · exact concat_congruent
  · exact includes_congruent
  · exact indexOf_congruent
  · exact reverse_congruent
  · exact onText_congruent fun _ _ _ _ _ _ => .string _
  · exact onText_congruent fun _ _ _ _ _ _ => .string _
  · exact onText_congruent fun _ _ _ _ _ _ => .string _
  · refine onText_congruent fun R T args args' cs h => ?_
    rw [chars_eq (arg_alike h 0)]
    exact .bool _
  · refine onText_congruent fun R T args args' cs h => ?_
    rw [chars_eq (arg_alike h 0)]
    exact .bool _
  · exact split_congruent
  · refine onText_congruent fun R T args args' cs h => ?_
    rw [chars_eq (arg_alike h 0), chars_eq (arg_alike h 1)]
    exact .string _
  · exact toFixed_congruent

theorem getD_stampedAlike {o o' : Option Outcome} (h : Option.Rel (StampedAlike R (Alike R T) n m) o o')
    (e : EvalError) : StampedAlike R (Alike R T) n m (o.getD (.error e)) (o'.getD (.error e)) := by
  cases h with
  | some h => exact h
  | none => exact .error e

/-- A host method gives alike results on alike receivers and arguments. -/
theorem callMethod_alike (hR : Relator.BiUnique R) (name : String) {v w : Value}
    (hv : Alike R T v w) (h : List.Forall₂ (Alike R T) args args') :
    StampedAlike R (Alike R T) n m (callMethod name n v args) (callMethod name m w args') := by
  rw [callMethod, callMethod]
  cases hf : methods.lookup name with
  | none => exact .error _
  | some f => exact getD_stampedAlike (methods_congruent _ (Keyed.mem_of_lookup hf) hR hv h) _

end Builtin

end ReactiveMarkup
