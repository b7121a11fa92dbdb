import ReactiveMarkup.Value.Basic

/-!
# Equality of values

Three relations. `Value.same` compares content, `Value.strictEq` is `===` and tells containers apart
by their stamps, and `Value.looseEq` is `==` and also decides whether a change is a change: null and
undefined equal only each other, numbers compare with texts and truth values by number, and
containers compare item by item.
-/
namespace ReactiveMarkup.Value

mutual

/-- Equality of content. Functions are equal only to themselves, and what is not a number to
nothing. -/
def same : Value → Value → Bool
  | undefined, undefined => true
  | null, null => true
  | bool a, bool b => a == b
  | number a, number b => a == b
  | string a, string b => a == b
  | array _ as, array _ bs => sameItems as bs
  | object _ as, object _ bs => sameEntries as bs
  | function s .., function t .. => s == t
  | _, _ => false

/-- Equality of content, item by item. -/
def sameItems : List Value → List Value → Bool
  | [], [] => true
  | a :: as, b :: bs => same a b && sameItems as bs
  | _, _ => false

/-- Equality of keys and content, entry by entry. -/
def sameEntries : List (String × Value) → List (String × Value) → Bool
  | [], [] => true
  | (j, a) :: as, (k, b) :: bs => j == k && same a b && sameEntries as bs
  | _, _ => false

end

/-- Equality of type and value; containers are equal only to themselves. -/
def strictEq : Value → Value → Bool
  | array s _, array t _ => s == t
  | object s _, object t _ => s == t
  | a, b => same a b

mutual

/-- Equality with conversions. -/
def looseEq : Value → Value → Bool
  | undefined, undefined | undefined, null | null, undefined | null, null => true
  | number a, number b => a == b
  | string a, string b => a == b
  | bool a, bool b => a == b
  | array s as, array t bs => s == t || looseEqItems as bs
  | object s as, object t bs => s == t || looseEqEntries as bs
  | function s .., function t .. => s == t
  | number a, bool b => a == (bool b).toNumber
  | string a, bool b => (string a).toNumber == (bool b).toNumber
  | bool a, number b => (bool a).toNumber == b
  | bool a, string b => (bool a).toNumber == (string b).toNumber
  | number a, string b => a == (string b).toNumber
  | string a, number b => (string a).toNumber == b
  | _, _ => false

/-- Equality with conversions, item by item. -/
def looseEqItems : List Value → List Value → Bool
  | [], [] => true
  | a :: as, b :: bs => looseEq a b && looseEqItems as bs
  | _, _ => false

/-- Equality of keys, and of values with conversions, entry by entry. -/
def looseEqEntries : List (String × Value) → List (String × Value) → Bool
  | [], [] => true
  | (j, a) :: as, (k, b) :: bs => j == k && looseEq a b && looseEqEntries as bs
  | _, _ => false

end

/-- Null and undefined equal only each other. -/
theorem looseEq_of_isNullish {a : Value} (h : a.isNullish) (b : Value) :
    looseEq a b = b.isNullish := by
  cases a with
  | undefined | null => cases b <;> rfl
  | _ => cases h

/-- Strict equality under which what is not a number equals itself. -/
def sameOrNaN : Value → Value → Bool
  | number a, number b => a == b || (a.isNaN && b.isNaN)
  | a, b => strictEq a b

end ReactiveMarkup.Value
