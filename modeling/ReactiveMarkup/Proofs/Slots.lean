import Mathlib.Data.List.Count
import Mathlib.Data.List.Nodup
import Mathlib.Data.List.Perm.Subperm
import ReactiveMarkup.Slots

/-!
# What a table holds after a change

A key finds what was put under it until that is removed, and nothing else ever gets the same key.

Main results: `Slots.get?_insert`, `Slots.get?_modify`, `Slots.get?_erase`, `Slots.entries_insert`,
`Slots.entries_modify`, `Slots.entries_erase`, `Slots.length_le_size`.
-/
namespace ReactiveMarkup.Slots

variable {α : Type}

/-! ## Finding -/

theorem get?_eq_some_iff {s : Slots α} {k : Key} {a : α} :
    s.get? k = some a ↔ s.slots[k.place]? = some (some (k.serial, a)) := by
  simp only [get?]
  split
  · rename_i n b h
    by_cases hn : n = k.serial
    · simp [hn, h]
    · simp [hn, h]
  · rename_i h
    constructor
    · intro hs
      cases hs
    · intro hs
      exact absurd hs (h _ _)

theorem contains_of_get? {s : Slots α} {k : Key} {a : α} (h : s.get? k = some a) : s.contains k := by
  rw [contains, h]
  rfl

theorem serial_lt {s : Slots α} {k : Key} {a : α} (h : s.get? k = some a) : k.serial < s.next :=
  s.fresh k.place k.serial a (get?_eq_some_iff.1 h)

/-- A place holds one thing only. -/
theorem eq_of_place_eq {s : Slots α} {j k : Key} {a b : α} (hj : s.get? j = some a)
    (hk : s.get? k = some b) (h : j.place = k.place) : j = k := by
  have hj' := get?_eq_some_iff.1 hj
  have hk' := get?_eq_some_iff.1 hk
  rw [h, hk'] at hj'
  cases j
  cases k
  simp_all

/-! ## Changes -/

@[simp] theorem insert_serial (a : α) (s : Slots α) : (s.insert a).1.serial = s.next := by
  unfold insert
  split <;> rfl

@[simp] theorem next_insert (a : α) (s : Slots α) : (s.insert a).2.next = s.next + 1 := by
  unfold insert
  split <;> rfl

@[simp] theorem next_modify (k : Key) (f : α → α) (s : Slots α) : (s.modify k f).next = s.next :=
  rfl

@[simp] theorem next_erase (k : Key) (s : Slots α) : (s.erase k).next = s.next := by
  unfold erase
  split <;> rfl

/-- What is inserted takes a place that held nothing; the others keep what they hold. -/
theorem insert_slots (a : α) (s : Slots α) (q : Nat) (x : Nat × α) :
    (s.insert a).2.slots[q]? = some (some x) ↔
      if q = (s.insert a).1.place then x = (s.next, a) else s.slots[q]? = some (some x) := by
  unfold insert
  split
  · simp only [Array.getElem?_push]
    split <;> simp [eq_comm]
  · rename_i p free hf
    have hp := s.vacant p (by simp [hf])
    obtain ⟨hlt, -⟩ := Array.getElem?_eq_some_iff.1 hp
    simp only [Array.getElem?_setIfInBounds]
    by_cases hq : q = p
    · rw [if_pos hq.symm, if_pos (hq ▸ hlt), if_pos hq]
      simp [eq_comm]
    · rw [if_neg (Ne.symm hq), if_neg hq]

theorem get?_insert (a : α) (s : Slots α) (k : Key) :
    (s.insert a).2.get? k = if k = (s.insert a).1 then some a else s.get? k := by
  by_cases hk : k = (s.insert a).1
  · rw [if_pos hk, hk, get?_insert_self]
  · rw [if_neg hk]
    ext b
    rw [get?_eq_some_iff, get?_eq_some_iff, insert_slots]
    split
    · rename_i hp
      -- the place is taken over from a thing with another serial number, or from nothing
      constructor
      · intro hx
        have hs : k.serial = (s.insert a).1.serial := by
          rw [insert_serial]
          exact (Prod.mk.inj hx).1
        exact absurd (congrArg₂ Key.mk hp hs) hk
      · intro hs
        have hb := get?_insert_of_some (get?_eq_some_iff.2 hs) a
        refine absurd ?_ hk
        exact eq_of_place_eq hb (get?_insert_self a s) hp
    · exact Iff.rfl

/-- What is found after an insertion is what was inserted, or was there before. -/
theorem of_get?_insert {a b : α} {s : Slots α} {k : Key} (h : (s.insert a).2.get? k = some b) :
    k = (s.insert a).1 ∧ b = a ∨ s.get? k = some b := by
  rw [get?_insert] at h
  split at h
  · rename_i hk
    exact .inl ⟨hk, (Option.some.inj h).symm⟩
  · exact .inr h

theorem contains_insert {s : Slots α} {k : Key} (h : s.contains k) (a : α) :
    (s.insert a).2.contains k := by
  obtain ⟨b, hb⟩ := Option.isSome_iff_exists.1 h
  rw [contains, get?_insert_of_some hb]
  rfl

/-- The key that is given next has found nothing so far. -/
theorem get?_insert_key (a : α) (s : Slots α) : s.get? (s.insert a).1 = none := by
  cases h : s.get? (s.insert a).1 with
  | none => rfl
  | some b =>
    have := serial_lt h
    simp at this

theorem get?_modify (s : Slots α) (k : Key) (f : α → α) (j : Key) :
    (s.modify k f).get? j = if j = k then (s.get? k).map f else s.get? j := by
  simp only [get?, modify, Array.getElem?_modify]
  by_cases hp : k.place = j.place
  · rw [if_pos hp, ← hp]
    cases s.slots[k.place]? with
    | none => cases j; cases k; simp_all
    | some x =>
      cases x with
      | none => cases j; cases k; simp_all
      | some x => cases j; cases k; grind
  · have hne : j ≠ k := by
      intro h
      exact hp (by rw [h])
    rw [if_neg hp, if_neg hne]

/-- What a change leaves alone is the same everywhere. -/
theorem map_get?_modify {β : Type} {p : α → β} (s : Slots α) (k : Key) {f : α → α}
    (hf : ∀ a, p (f a) = p a) (j : Key) : ((s.modify k f).get? j).map p = (s.get? j).map p := by
  rw [get?_modify]
  split
  · rename_i hj
    rw [hj, Option.map_map]
    exact Option.map_congr fun a _ => hf a
  · rfl

@[simp] theorem contains_modify (s : Slots α) (k : Key) (f : α → α) (j : Key) :
    (s.modify k f).contains j = s.contains j := by
  rw [contains, contains, get?_modify]
  split
  · rename_i h
    rw [h, Option.isSome_map]
  · rfl

theorem get?_erase (s : Slots α) (k j : Key) :
    (s.erase k).get? j = if j = k then none else s.get? j := by
  by_cases hjk : j = k
  · rw [if_pos hjk, hjk, get?_erase_self]
  · rw [if_neg hjk]
    unfold erase
    split
    · rename_i h
      obtain ⟨a, ha⟩ := Option.isSome_iff_exists.1 h
      simp only [get?, Array.getElem?_setIfInBounds]
      by_cases hp : k.place = j.place
      · cases hs : s.get? j with
        | some b => exact absurd (eq_of_place_eq hs ha hp.symm) hjk
        | none =>
          simp only [get?] at hs
          rw [hs, if_pos hp]
          split
          · rename_i h'
            split at h' <;> cases h'
          · rfl
      · rw [if_neg hp]
    · rfl

/-! ## Entries -/

/-- No key has two entries. -/
theorem nodup_keys (s : Slots α) : (s.entries.map (·.1)).Nodup := by
  have hplaces : s.slots.toList.zipIdx.Pairwise fun x y => x.2 ≠ y.2 := by
    rw [← List.pairwise_map (f := Prod.snd), List.zipIdx_map_snd]
    exact List.nodup_range'
  rw [List.Nodup, List.pairwise_map, entries, List.pairwise_filterMap]
  refine hplaces.imp fun {x y} hne u hu v hv h => hne ?_
  obtain ⟨_, -, rfl⟩ := Option.map_eq_some_iff.1 hu
  obtain ⟨_, -, rfl⟩ := Option.map_eq_some_iff.1 hv
  exact congrArg Key.place h

theorem nodup_entries (s : Slots α) : s.entries.Nodup := s.nodup_keys.of_map

/-- The entries, in some order, are what the table holds. -/
theorem entries_perm {s : Slots α} {es : List (Key × α)} (hnodup : es.Nodup)
    (h : ∀ k a, s.get? k = some a ↔ (k, a) ∈ es) : s.entries.Perm es :=
  (List.perm_ext_iff_of_nodup s.nodup_entries hnodup).2 fun (k, a) => mem_entries_iff.trans (h k a)

theorem entries_insert (a : α) (s : Slots α) :
    (s.insert a).2.entries.Perm (((s.insert a).1, a) :: s.entries) := by
  have hnew := get?_insert_key a s
  refine entries_perm (List.nodup_cons.2 ⟨fun h => ?_, s.nodup_entries⟩) fun k b => ?_
  · rw [mem_entries_iff.1 h] at hnew
    cases hnew
  · rw [get?_insert, List.mem_cons, mem_entries_iff, Prod.mk.injEq]
    split
    · rename_i hk
      rw [hk, hnew]
      simp [eq_comm]
    · rename_i hk
      simp [hk]

/-- What has a key is taken away, and what has it now, if anything, is put in its stead. -/
theorem entries_erase_cons {s t : Slots α} {k : Key} {b : α} (hk : t.get? k = some b)
    (hrest : ∀ j, j ≠ k → t.get? j = s.get? j) : t.entries.Perm ((k, b) :: (s.erase k).entries) := by
  refine entries_perm (List.nodup_cons.2 ⟨fun h => ?_, (s.erase k).nodup_entries⟩) fun j c => ?_
  · have hgone := mem_entries_iff.1 h
    rw [get?_erase_self] at hgone
    cases hgone
  · rw [List.mem_cons, mem_entries_iff, Prod.mk.injEq, get?_erase]
    by_cases hj : j = k
    · rw [hj, hk]
      simp [eq_comm]
    · rw [hrest j hj]
      simp [hj]

theorem entries_erase {s : Slots α} {k : Key} {a : α} (h : s.get? k = some a) :
    s.entries.Perm ((k, a) :: (s.erase k).entries) := entries_erase_cons h fun _ _ => rfl

theorem entries_modify {s : Slots α} {k : Key} {a : α} (h : s.get? k = some a) (f : α → α) :
    (s.modify k f).entries.Perm ((k, f a) :: (s.erase k).entries) := by
  refine entries_erase_cons ?_ fun j hj => ?_
  · rw [get?_modify, if_pos rfl, h]
    rfl
  · rw [get?_modify, if_neg hj]

/-! ## Size -/

theorem size_eq_countP (s : Slots α) : s.size = s.slots.toList.countP Option.isSome := by
  have h (xs : List (Option (Nat × α))) (n : Nat) :
      xs.foldl (fun n x => if x.isSome then n + 1 else n) n = n + xs.countP Option.isSome := by
    induction xs generalizing n with
    | nil => simp
    | cons x xs ih =>
      rw [List.foldl_cons, ih, List.countP_cons]
      cases x
      · simp
      · simp
        omega
  rw [size, ← Array.foldl_toList, h, Nat.zero_add]

theorem size_erase {s : Slots α} {k : Key} {a : α} (h : s.get? k = some a) :
    (s.erase k).size + 1 = s.size := by
  have hs : s.contains k := contains_of_get? h
  have hk := get?_eq_some_iff.1 h
  obtain ⟨hlt, hget⟩ := Array.getElem?_eq_some_iff.1 hk
  have hlt' : k.place < s.slots.toList.length := hlt
  have hget' : s.slots.toList[k.place] = some (k.serial, a) := hget
  have hpos : 0 < s.slots.toList.countP Option.isSome := by
    refine List.countP_pos_iff.2 ⟨_, List.getElem_mem hlt', ?_⟩
    rw [hget']
    rfl
  rw [size_eq_countP, size_eq_countP, erase, dif_pos hs]
  simp only [Array.toList_setIfInBounds, List.countP_set hlt', hget', Option.isSome_some,
    Option.isSome_none, if_true, Bool.false_eq_true, if_false]
  omega

/-- Different keys that find something are no more than there are things. -/
theorem length_le_size {s : Slots α} (ks : List Key) (hnodup : ks.Nodup)
    (h : ∀ k ∈ ks, (s.get? k).isSome) : ks.length ≤ s.size := by
  have hplaces : (ks.map Key.place).Nodup := by
    refine List.Nodup.map_on (fun j hj k hk hp => ?_) hnodup
    obtain ⟨a, ha⟩ := Option.isSome_iff_exists.1 (h j hj)
    obtain ⟨b, hb⟩ := Option.isSome_iff_exists.1 (h k hk)
    exact eq_of_place_eq ha hb hp
  have hsub : ks.map Key.place ⊆
      (List.range s.slots.size).filter fun p => (s.slots[p]?.join).isSome := by
    intro p hp
    obtain ⟨k, hk, rfl⟩ := List.mem_map.1 hp
    obtain ⟨a, ha⟩ := Option.isSome_iff_exists.1 (h k hk)
    have hs := get?_eq_some_iff.1 ha
    obtain ⟨hlt, -⟩ := Array.getElem?_eq_some_iff.1 hs
    rw [List.mem_filter, List.mem_range, hs]
    exact ⟨hlt, rfl⟩
  have hcount (xs : List (Option (Nat × α))) :
      ((List.range xs.length).filter fun p => (xs[p]?.join).isSome).length =
        xs.countP Option.isSome := by
    induction xs with
    | nil => rfl
    | cons x xs ih =>
      rw [List.length_cons, List.range_succ_eq_map, List.countP_cons, ← ih, List.filter_cons,
        List.filter_map]
      cases x <;> simp [Function.comp_def]
  calc ks.length = (ks.map Key.place).length := (List.length_map _).symm
    _ ≤ _ := (hplaces.subperm hsub).length_le
    _ = s.size := by
      rw [size_eq_countP, ← hcount]
      simp

end ReactiveMarkup.Slots
