import Mathlib.Data.List.Forall2
import ReactiveMarkup.Value.Equality
import ReactiveMarkup.Eval.Access
import ReactiveMarkup.Eval.Operators
import ReactiveMarkup.Value.Json

/-!
# Values that are alike

Two runs of one program need not build the same containers, and two programs that mean the same
need not build the same functions. Their values are alike if they differ in nothing but that: stamps
correspond under a relation, and so do the bodies and the locals of functions. No operation tells
alike values apart.

Main definitions: `Twins`, `Value.Alike`.
Main results: `Value.Alike.toText_eq`, `Value.Alike.looseEq_eq`, `Value.Alike.strictEq_eq`.
-/
namespace ReactiveMarkup

/-- Which functions may stand in for each other. -/
structure Twins where
  /-- the bodies of two functions with these parameters do the same, whatever the locals in `exempt`
  are in the second -/
  bodies : (params : List String) → (body body' : Expr) → (exempt : String → Prop) → Prop
  /-- the values that locals have in the first function wherever they are exempt -/
  fixed : String → Option Value

namespace Twins

/-- No two functions may stand in for each other. -/
def none : Twins := ⟨fun _ _ _ _ => False, fun _ => .none⟩

end Twins

/-- Stamps that correspond one to one tell apart the same containers. -/
theorem stamp_beq_eq {R : Stamp → Stamp → Prop} (hR : Relator.BiUnique R) {s s' t t' : Stamp}
    (hs : R s s') (ht : R t t') : (s' == t') = (s == t) := by
  by_cases h : s = t
  · subst h
    rw [hR.2 hs ht, beq_self_eq_true, beq_self_eq_true]
  · have h' : s' ≠ t' := by
      intro e
      subst e
      exact h (hR.1 hs ht)
    rw [beq_eq_false_iff_ne.2 h, beq_eq_false_iff_ne.2 h']

namespace Value

/-- Values that differ in stamps and in the code of functions only. -/
inductive Alike (R : Stamp → Stamp → Prop) (T : Twins) : Value → Value → Prop
  | undefined : Alike R T undefined undefined
  | null : Alike R T null null
  | bool (b : Bool) : Alike R T (bool b) (bool b)
  | number (x : Number) : Alike R T (number x) (number x)
  | string (s : String) : Alike R T (string s) (string s)
  | array {s t : Stamp} {as bs : List Value} (stamps : R s t) (items : List.Forall₂ (Alike R T) as bs) :
      Alike R T (array s as) (array t bs)
  | object {s t : Stamp} {es fs : List (String × Value)} (stamps : R s t)
      (keys : es.map Prod.fst = fs.map Prod.fst)
      (items : List.Forall₂ (Alike R T) (es.map Prod.snd) (fs.map Prod.snd)) :
      Alike R T (object s es) (object t fs)
  | function {s t : Stamp} {params : List String} {body body' : Expr}
      {env env' : List (String × Value)} (stamps : R s t) (exempt : String → Prop)
      (code : T.bodies params body body' exempt) (locals : String → Option (Value × Value))
      (left : ∀ x, ¬exempt x → env.lookup x = (locals x).map Prod.fst)
      (right : ∀ x, ¬exempt x → env'.lookup x = (locals x).map Prod.snd)
      (shared : ∀ x p, locals x = some p → Alike R T p.1 p.2)
      (fixed : ∀ x v, exempt x → T.fixed x = some v → env.lookup x = some v) :
      Alike R T (function s params body env) (function t params body' env')

mutual

/-- A value with the code of its functions left out. -/
def eraseCode : Value → Value
  | function stamp params _ _ => function stamp params (.literal Range.initial .undefined) []
  | array stamp items => array stamp (eraseItems items)
  | object stamp entries => object stamp (eraseEntries entries)
  | undefined => undefined
  | null => null
  | bool b => bool b
  | number x => number x
  | string s => string s

/-- Items with the code of their functions left out. -/
def eraseItems : List Value → List Value
  | [] => []
  | v :: vs => v.eraseCode :: eraseItems vs

/-- Entries with the code of their functions left out. -/
def eraseEntries : List (String × Value) → List (String × Value)
  | [] => []
  | (key, v) :: es => (key, v.eraseCode) :: eraseEntries es

end

/-- Entries with the same keys and with alike values. -/
structure EntriesAlike (R : Stamp → Stamp → Prop) (T : Twins) (es fs : List (String × Value)) :
    Prop where
  keys : es.map Prod.fst = fs.map Prod.fst
  items : List.Forall₂ (Alike R T) (es.map Prod.snd) (fs.map Prod.snd)

variable {R : Stamp → Stamp → Prop} {T : Twins}

namespace Alike

/-! ## What tells nothing about stamps and code -/

theorem isNullish_eq {v w : Value} (h : Alike R T v w) : w.isNullish = v.isNullish := by
  cases h <;> rfl

theorem isArray_eq {v w : Value} (h : Alike R T v w) : w.isArray = v.isArray := by
  cases h <;> rfl

theorem truthy_eq {v w : Value} (h : Alike R T v w) : w.truthy = v.truthy := by
  cases h <;> rfl

theorem typeName_eq {v w : Value} (h : Alike R T v w) : w.typeName = v.typeName := by
  cases h <;> rfl

theorem isOmitted_eq {v w : Value} (h : Alike R T v w) : w.isOmitted = v.isOmitted := by
  cases h <;> rfl

theorem arrayIndex?_eq {v w : Value} (h : Alike R T v w) : w.arrayIndex? = v.arrayIndex? := by
  cases h <;> rfl

mutual

/-- Alike values have one text. -/
theorem toText_eq : ∀ {v w : Value}, Alike R T v w → w.toText = v.toText
  | _, _, .undefined | _, _, .null | _, _, .bool _ | _, _, .number _ | _, _, .string _ => rfl
  | _, _, .object .. | _, _, .function .. => rfl
  | _, _, .array _ items => by rw [toText, toText, itemTexts_eq items]

theorem itemTexts_eq :
    ∀ {as bs : List Value}, List.Forall₂ (Alike R T) as bs → itemTexts bs = itemTexts as
  | _, _, .nil => rfl
  | _, _, .cons h hs => by
    rw [itemTexts, itemTexts, h.isNullish_eq, toText_eq h, itemTexts_eq hs]

end

/-- Alike values stand for one number. -/
theorem toNumber_eq : ∀ {v w : Value}, Alike R T v w → w.toNumber = v.toNumber
  | _, _, .undefined | _, _, .null | _, _, .bool _ | _, _, .number _ | _, _, .string _ => rfl
  | _, _, .object .. | _, _, .function .. => rfl
  | _, _, .array _ .nil => rfl
  | _, _, .array _ (.cons h .nil) => by rw [toNumber, toNumber, toNumber_eq h]
  | _, _, .array _ (.cons _ (.cons _ _)) => by rw [toNumber, toNumber]

mutual

/-- Alike values have one JSON document. -/
theorem toJson_eq : ∀ {v w : Value}, Alike R T v w → w.toJson = v.toJson
  | _, _, .undefined | _, _, .null | _, _, .bool _ | _, _, .number _ | _, _, .string _ => rfl
  | _, _, .function .. => rfl
  | _, _, .array _ items => by rw [toJson, toJson, itemsJson_eq items]
  | _, _, .object _ keys items => by rw [toJson, toJson, entriesJson_eq keys items]

theorem itemsJson_eq :
    ∀ {as bs : List Value}, List.Forall₂ (Alike R T) as bs → itemsJson bs = itemsJson as
  | _, _, .nil => rfl
  | _, _, .cons h hs => by rw [itemsJson, itemsJson, toJson_eq h, itemsJson_eq hs]

theorem entriesJson_eq : ∀ {es fs : List (String × Value)}, es.map Prod.fst = fs.map Prod.fst →
    List.Forall₂ (Alike R T) (es.map Prod.snd) (fs.map Prod.snd) → entriesJson fs = entriesJson es
  | [], [], _, _ => rfl
  | (j, a) :: es, (k, b) :: fs, keys, .cons h hs => by
    obtain rfl : j = k := (List.cons.inj keys).1
    have hb : b.toJson = a.toJson := toJson_eq h
    have hfs : entriesJson fs = entriesJson es := entriesJson_eq (List.cons.inj keys).2 hs
    rw [entriesJson, entriesJson, hb, hfs, h.isOmitted_eq]

end

mutual

/-- Alike values with the same stamps differ in code only. -/
theorem eraseCode_eq : ∀ {v w : Value}, Alike Eq T v w → w.eraseCode = v.eraseCode
  | _, _, .undefined | _, _, .null | _, _, .bool _ | _, _, .number _ | _, _, .string _ => rfl
  | _, _, .function rfl .. => rfl
  | _, _, .array rfl items => by rw [eraseCode, eraseCode, eraseItems_eq items]
  | _, _, .object rfl keys items => by rw [eraseCode, eraseCode, eraseEntries_eq keys items]

theorem eraseItems_eq :
    ∀ {as bs : List Value}, List.Forall₂ (Alike Eq T) as bs → eraseItems bs = eraseItems as
  | _, _, .nil => rfl
  | _, _, .cons h hs => by rw [eraseItems, eraseItems, eraseCode_eq h, eraseItems_eq hs]

theorem eraseEntries_eq : ∀ {es fs : List (String × Value)}, es.map Prod.fst = fs.map Prod.fst →
    List.Forall₂ (Alike Eq T) (es.map Prod.snd) (fs.map Prod.snd) →
    eraseEntries fs = eraseEntries es
  | [], [], _, _ => rfl
  | (j, a) :: es, (k, b) :: fs, keys, .cons h hs => by
    obtain rfl : j = k := (List.cons.inj keys).1
    have hb : b.eraseCode = a.eraseCode := eraseCode_eq h
    rw [eraseEntries, eraseEntries, hb, eraseEntries_eq (List.cons.inj keys).2 hs]

end

/-! ## Equality -/

theorem strictEq_eq (hR : Relator.BiUnique R) {v v' w w' : Value} (hv : Alike R T v v')
    (hw : Alike R T w w') : strictEq v' w' = strictEq v w := by
  cases hv with
  | array stamps items =>
    cases hw with
    | array stamps' items' => exact stamp_beq_eq hR stamps stamps'
    | _ => rfl
  | object stamps keys items =>
    cases hw with
    | object stamps' keys' items' => exact stamp_beq_eq hR stamps stamps'
    | _ => rfl
  | function stamps =>
    cases hw with
    | function stamps' => exact stamp_beq_eq hR stamps stamps'
    | _ => rfl
  | _ => cases hw <;> rfl

theorem sameOrNaN_eq (hR : Relator.BiUnique R) {v v' w w' : Value} (hv : Alike R T v v')
    (hw : Alike R T w w') : sameOrNaN v' w' = sameOrNaN v w := by
  have h := strictEq_eq hR hv hw
  cases hv with
  | number a =>
    cases hw with
    | number b => rfl
    | _ => exact h
  | _ => exact h

mutual

/-- Alike values are loosely equal to alike values. -/
theorem looseEq_eq (hR : Relator.BiUnique R) {v v' w w' : Value} (hv : Alike R T v v')
    (hw : Alike R T w w') : looseEq v' w' = looseEq v w := by
  cases hv with
  | array stamps items =>
    cases hw with
    | array stamps' items' =>
      rw [looseEq, looseEq, stamp_beq_eq hR stamps stamps', looseEqItems_eq hR items items']
    | _ => rfl
  | object stamps keys items =>
    cases hw with
    | object stamps' keys' items' =>
      rw [looseEq, looseEq, stamp_beq_eq hR stamps stamps', looseEqEntries_eq hR keys items keys' items']
    | _ => rfl
  | function stamps =>
    cases hw with
    | function stamps' => exact stamp_beq_eq hR stamps stamps'
    | _ => rfl
  | _ => cases hw <;> rfl

theorem looseEqItems_eq (hR : Relator.BiUnique R) : ∀ {as as' bs bs' : List Value},
    List.Forall₂ (Alike R T) as as' → List.Forall₂ (Alike R T) bs bs' →
    looseEqItems as' bs' = looseEqItems as bs
  | _, _, _, _, .nil, .nil => rfl
  | _, _, _, _, .nil, .cons _ _ => rfl
  | _, _, _, _, .cons _ _, .nil => rfl
  | _, _, _, _, .cons h hs, .cons h' hs' => by
    rw [looseEqItems, looseEqItems, looseEq_eq hR h h', looseEqItems_eq hR hs hs']

theorem looseEqEntries_eq (hR : Relator.BiUnique R) : ∀ {es es' fs fs' : List (String × Value)},
    es.map Prod.fst = es'.map Prod.fst →
    List.Forall₂ (Alike R T) (es.map Prod.snd) (es'.map Prod.snd) →
    fs.map Prod.fst = fs'.map Prod.fst →
    List.Forall₂ (Alike R T) (fs.map Prod.snd) (fs'.map Prod.snd) →
    looseEqEntries es' fs' = looseEqEntries es fs
  | [], [], [], [], _, _, _, _ => rfl
  | [], [], _ :: _, _ :: _, _, _, _, _ => rfl
  | _ :: _, _ :: _, [], [], _, _, _, _ => rfl
  | (_, a) :: es, (_, a') :: es', (_, b) :: fs, (_, b') :: fs', keys, .cons h hs, keys', .cons h' hs' => by
    have hab : looseEq a' b' = looseEq a b := looseEq_eq hR h h'
    have hes := looseEqEntries_eq hR (List.cons.inj keys).2 hs (List.cons.inj keys').2 hs'
    have hj := (List.cons.inj keys).1
    have hk := (List.cons.inj keys').1
    simp only [] at hj hk
    rw [looseEqEntries, looseEqEntries, hab, hes, hj, hk]

end

end Alike

end Value

end ReactiveMarkup
