import ReactiveMarkup.Proofs.Number
import ReactiveMarkup.Value.Equality
import ReactiveMarkup.Value.Json

/-!
# Values by way of JSON documents

What becomes null or is left out on the way to a document is gone, and nothing else changes: a value
read back has the same document. A value in which nothing is undefined, a function or a number that
is not finite is read back as it was, up to stamps and the sign of zero.

Main definitions: `Value.fitsJson`.
Main results: `Value.toJson_ofJson`, `Value.same_ofJson`, `Value.ofJson_toJson`.
-/
namespace ReactiveMarkup.Value

mutual

/-- Whether a document can hold everything in a value. -/
def fitsJson : Value → Bool
  | undefined | function .. => false
  | null | bool _ | string _ => true
  | number x => x.isFinite
  | array _ items => itemsFitJson items
  | object _ entries => entriesFitJson entries

/-- Whether a document can hold everything in the items. -/
def itemsFitJson : List Value → Bool
  | [] => true
  | v :: vs => v.fitsJson && itemsFitJson vs

/-- Whether a document can hold everything in the entries. -/
def entriesFitJson : List (String × Value) → Bool
  | [] => true
  | (_, v) :: rest => v.fitsJson && entriesFitJson rest

end

/-! ## Numbers -/

/-- The three ways to write a number. -/
theorem numberJson_eq (x : Number) :
    numberJson x =
      if x.isExactInteger then .int x.toInt else if x.isFinite then .float x else .null :=
  rfl

theorem numberJson_of_isExactInteger {x : Number} (h : x.isExactInteger = true) :
    numberJson x = .int x.toInt := by
  rw [numberJson_eq, if_pos h]

theorem numberJson_of_isFinite {x : Number} (h : x.isExactInteger = false)
    (hx : x.isFinite = true) : numberJson x = .float x := by
  rw [numberJson_eq, if_neg (Bool.eq_false_iff.1 h), if_pos hx]

theorem numberJson_of_not_isFinite {x : Number} (h : x.isExactInteger = false)
    (hx : x.isFinite = false) : numberJson x = .null := by
  rw [numberJson_eq, if_neg (Bool.eq_false_iff.1 h), if_neg (Bool.eq_false_iff.1 hx)]

/-- An integer is read back as itself, other finite numbers are written as they are, and what is not
finite is null from then on. -/
theorem toJson_ofJson_number (x : Number) (next : Stamp) :
    (ofJson next (numberJson x)).1.toJson = numberJson x := by
  cases h : x.isExactInteger with
  | true =>
    obtain ⟨-, hexact, htoInt⟩ := Number.ofInt_toInt h
    rw [numberJson_of_isExactInteger h, ofJson, toJson, numberJson_of_isExactInteger hexact, htoInt]
  | false =>
    cases hx : x.isFinite with
    | true =>
      rw [numberJson_of_isFinite h hx, ofJson, toJson]
      exact numberJson_of_isFinite h hx
    | false =>
      rw [numberJson_of_not_isFinite h hx]
      rfl

theorem same_ofJson_number {x : Number} (hx : x.isFinite = true) (next : Stamp) :
    same (ofJson next (numberJson x)).1 (number x) = true := by
  cases h : x.isExactInteger with
  | true =>
    rw [numberJson_of_isExactInteger h, ofJson, same]
    exact (Number.ofInt_toInt h).1
  | false =>
    rw [numberJson_of_isFinite h hx, ofJson, same, Number.beq_self, Number.isNaN_of_isFinite hx]
    rfl

/-! ## Values -/

/-- No document stands for something that documents leave out. -/
theorem isOmitted_ofJson (next : Stamp) (j : Json) : (ofJson next j).1.isOmitted = false := by
  cases j <;> rfl

theorem isOmitted_of_fitsJson {v : Value} (h : v.fitsJson = true) : v.isOmitted = false := by
  cases v with
  | undefined | function => cases h
  | _ => rfl

mutual

/-- What was read from a value's document has that document. -/
theorem toJson_ofJson (v : Value) (next : Stamp) : (ofJson next v.toJson).1.toJson = v.toJson := by
  cases v with
  | number x => exact toJson_ofJson_number x next
  | array s items => rw [toJson, ofJson, toJson, itemsJson_ofJsonItems items]
  | object s entries => rw [toJson, ofJson, toJson, entriesJson_ofJsonMembers entries]
  | _ => rfl

theorem itemsJson_ofJsonItems : ∀ (vs : List Value) (next : Stamp),
    itemsJson (ofJsonItems next (itemsJson vs)).1 = itemsJson vs
  | [], _ => rfl
  | v :: vs, next => by
    rw [itemsJson, ofJsonItems, itemsJson, toJson_ofJson v, itemsJson_ofJsonItems vs]

theorem entriesJson_ofJsonMembers : ∀ (es : List (String × Value)) (next : Stamp),
    entriesJson (ofJsonMembers next (entriesJson es)).1 = entriesJson es
  | [], _ => rfl
  | (key, v) :: es, next => by
    have hv (next : Stamp) : (ofJson next v.toJson).1.toJson = v.toJson := toJson_ofJson v next
    rw [entriesJson]
    split
    · exact entriesJson_ofJsonMembers es next
    · rw [ofJsonMembers, entriesJson, isOmitted_ofJson, if_neg Bool.false_ne_true, hv,
        entriesJson_ofJsonMembers es]

end

mutual

/-- What a document can hold is read back as it was. -/
theorem same_ofJson {v : Value} (h : v.fitsJson = true) (next : Stamp) :
    same (ofJson next v.toJson).1 v = true := by
  cases v with
  | undefined | function => cases h
  | null => rfl
  | bool b => exact beq_self_eq_true b
  | string s => exact beq_self_eq_true s
  | number x => exact same_ofJson_number h next
  | array s items =>
    rw [toJson, ofJson, same]
    exact sameItems_ofJsonItems items h (next + 1)
  | object s entries =>
    rw [toJson, ofJson, same]
    exact sameEntries_ofJsonMembers entries h (next + 1)

theorem sameItems_ofJsonItems : ∀ vs : List Value, itemsFitJson vs = true → ∀ next : Stamp,
    sameItems (ofJsonItems next (itemsJson vs)).1 vs = true
  | [], _, _ => rfl
  | v :: vs, h, next => by
    rw [itemsFitJson, Bool.and_eq_true] at h
    rw [itemsJson, ofJsonItems, sameItems, same_ofJson h.1, sameItems_ofJsonItems vs h.2,
      Bool.and_self]

theorem sameEntries_ofJsonMembers :
    ∀ es : List (String × Value), entriesFitJson es = true → ∀ next : Stamp,
      sameEntries (ofJsonMembers next (entriesJson es)).1 es = true
  | [], _, _ => rfl
  | (key, v) :: es, h, next => by
    rw [entriesFitJson, Bool.and_eq_true] at h
    have hv : same (ofJson next v.toJson).1 v = true := same_ofJson h.1 next
    rw [entriesJson, isOmitted_of_fitsJson h.1, if_neg Bool.false_ne_true, ofJsonMembers,
      sameEntries, beq_self_eq_true, hv, sameEntries_ofJsonMembers es h.2]
    rfl

end

/-- Reading a value's document gives a value with that document, and the value itself if the
document can hold it. -/
theorem ofJson_toJson (v : Value) (next : Stamp) :
    (ofJson next v.toJson).1.toJson = v.toJson ∧
      (v.fitsJson = true → same (ofJson next v.toJson).1 v = true) :=
  ⟨toJson_ofJson v next, fun h => same_ofJson h next⟩

/-- Items and keys stay in order, whichever way a number is written. -/
theorem ofJson_toJson_nested :
    let v := object 1 [("a", array 2 [number (-3), null, number 0.5]), ("b", string "c")]
    v.fitsJson = true ∧ same (ofJson 7 v.toJson).1 v = true := by
  intro v
  have hfits : v.fitsJson = true := by decide +kernel
  exact ⟨hfits, (ofJson_toJson v 7).2 hfits⟩

end ReactiveMarkup.Value
