/-!
# Entries in key order

Objects and environments are lists of entries that are sorted by key and hold each key once. Keys
are compared by code points, which is the order of their UTF-8 bytes.

Main definitions: `Keyed.insert`, `Keyed.erase`, `Keyed.ofList`; `List.lookup` reads.
-/
namespace ReactiveMarkup.Keyed

variable {α : Type}

/-- Sets the value of a key; other entries stay as they are. -/
def insert (key : String) (a : α) : List (String × α) → List (String × α)
  | [] => [(key, a)]
  | (k, b) :: rest =>
    if key = k then (key, a) :: rest
    else if key < k then (key, a) :: (k, b) :: rest
    else (k, b) :: insert key a rest

/-- Removes a key. -/
def erase (key : String) (entries : List (String × α)) : List (String × α) :=
  entries.filter fun e => e.1 != key

/-- Collects entries; of two with one key the later counts. -/
def ofList (entries : List (String × α)) : List (String × α) :=
  entries.foldl (fun acc e => insert e.1 e.2 acc) []

@[simp] theorem lookup_insert_self (key : String) (a : α) (entries : List (String × α)) :
    (insert key a entries).lookup key = some a := by
  fun_induction insert key a entries <;> grind

theorem lookup_insert_of_ne {key other : String} (h : other ≠ key) (a : α)
    (entries : List (String × α)) :
    (insert key a entries).lookup other = entries.lookup other := by
  fun_induction insert key a entries <;> grind

end ReactiveMarkup.Keyed
