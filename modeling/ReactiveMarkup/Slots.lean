/-!
# Tables whose places are used again

A table has numbered places. What is removed leaves its place free, and the place freed last is
taken first. A key is a place together with a serial number that is never given twice, so the key of
something removed finds nothing, whoever has its place now.

Main definitions: `Slots`, `Slots.insert`, `Slots.erase`, `Slots.entries` (in the order of places).
-/
namespace ReactiveMarkup

/-- A table of things with the places that are free, the one freed last first. -/
structure Slots (α : Type) where
  /-- by place, the serial number and what has it -/
  slots : Array (Option (Nat × α))
  free : List Nat
  /-- the next serial number -/
  next : Nat
  vacant : ∀ p ∈ free, slots[p]? = some none
  nodup : free.Nodup
  fresh : ∀ (p n : Nat) (a : α), slots[p]? = some (some (n, a)) → n < next

namespace Slots

/-- What finds a thing in a table. -/
structure Key where
  place : Nat
  serial : Nat
  deriving DecidableEq, Repr, Inhabited, Hashable

variable {α : Type}

/-- The empty table. -/
def empty : Slots α := ⟨#[], [], 0, by simp, by simp, by simp⟩

instance : Inhabited (Slots α) := ⟨empty⟩

/-- What has a key. -/
def get? (s : Slots α) (k : Key) : Option α :=
  match s.slots[k.place]? with
  | some (some (n, a)) => if n = k.serial then some a else none
  | _ => none

/-- Whether something has a key. -/
def contains (s : Slots α) (k : Key) : Bool := (s.get? k).isSome

/-- Everything in the table with its key, by place. -/
def entries (s : Slots α) : List (Key × α) :=
  s.slots.toList.zipIdx.filterMap fun (x, p) => x.map fun (n, a) => (⟨p, n⟩, a)

/-- How many things there are. -/
def size (s : Slots α) : Nat := s.slots.foldl (fun n x => if x.isSome then n + 1 else n) 0

/-- Puts something in a place, which gives it a key. -/
def insert (a : α) (s : Slots α) : Key × Slots α :=
  match h : s.free with
  | [] =>
    (⟨s.slots.size, s.next⟩,
      { slots := s.slots.push (some (s.next, a))
        free := []
        next := s.next + 1
        vacant := by simp
        nodup := by simp
        fresh := by
          intro p n b
          have := s.fresh p n b
          grind })
  | p :: free =>
    (⟨p, s.next⟩,
      { slots := s.slots.setIfInBounds p (some (s.next, a))
        free := free
        next := s.next + 1
        vacant := by
          intro q hq
          have := s.vacant q (by simp [h, hq])
          have := s.nodup
          grind
        nodup := by
          have := s.nodup
          grind
        fresh := by
          intro q n b
          have := s.fresh q n b
          grind })

/-- Changes what has a key. -/
def modify (k : Key) (f : α → α) (s : Slots α) : Slots α :=
  { s with
    slots := s.slots.modify k.place fun x => x.map fun (n, a) => (n, if n = k.serial then f a else a)
    vacant := by
      intro p hp
      have := s.vacant p hp
      grind
    fresh := by
      intro p n a h
      rw [Array.getElem?_modify] at h
      split at h
      · obtain ⟨x, hx, h⟩ := Option.map_eq_some_iff.1 h
        obtain _ | ⟨m, b⟩ := x <;> simp only [Option.map_none, reduceCtorEq] at h
        simp only [Option.map_some, Option.some.injEq, Prod.mk.injEq] at h
        exact h.1 ▸ s.fresh p m b hx
      · exact s.fresh p n a h }

/-- Removes what has a key. -/
def erase (k : Key) (s : Slots α) : Slots α :=
  if h : s.contains k then
    { slots := s.slots.setIfInBounds k.place none
      free := k.place :: s.free
      next := s.next
      vacant := by
        intro p hp
        by_cases hk : k.place = p
        · subst hk
          cases hs : s.slots[k.place]? with
          | none => simp [contains, get?, hs] at h
          | some x =>
            rw [Array.getElem?_setIfInBounds_self, if_pos (Array.getElem?_eq_some_iff.1 hs).1]
        · rw [Array.getElem?_setIfInBounds_ne hk]
          exact s.vacant p ((List.mem_cons.1 hp).resolve_left (Ne.symm hk))
      nodup := by
        refine List.nodup_cons.2 ⟨fun hp => ?_, s.nodup⟩
        simp [contains, get?, s.vacant k.place hp] at h
      fresh := by
        intro p n a
        have := s.fresh p n a
        grind }
  else s

@[simp] theorem get?_empty (k : Key) : (empty : Slots α).get? k = none := by
  simp [get?, empty]

@[simp] theorem get?_insert_self (a : α) (s : Slots α) :
    (s.insert a).2.get? (s.insert a).1 = some a := by
  unfold insert
  split
  · simp [get?]
  · rename_i p free h
    have := s.vacant p (by simp [h])
    simp only [get?]
    grind

theorem get?_insert_of_some {k : Key} {s : Slots α} {b : α} (h : s.get? k = some b) (a : α) :
    (s.insert a).2.get? k = some b := by
  unfold insert
  split
  · simp only [get?] at h ⊢
    grind
  · rename_i p free hf
    have := s.vacant p (by simp [hf])
    simp only [get?] at h ⊢
    grind

theorem mem_entries_iff {k : Key} {s : Slots α} {a : α} : (k, a) ∈ s.entries ↔ s.get? k = some a := by
  simp only [entries, get?, List.mem_filterMap, Prod.exists, List.mem_zipIdx_iff_getElem?,
    Array.getElem?_toList]
  constructor
  · rintro ⟨x, p, hp, hx⟩
    obtain ⟨⟨n, b⟩, rfl, h⟩ := Option.map_eq_some_iff.1 hx
    simp only [Prod.mk.injEq] at h
    obtain ⟨rfl, rfl⟩ := h
    simp [hp]
  · intro h
    split at h
    · rename_i n b hp
      split at h
      · rename_i hn
        exact ⟨some (n, b), k.place, hp, by
          obtain ⟨rfl⟩ := Option.some.inj h
          cases k
          simp_all⟩
      · simp at h
    · simp at h

@[simp] theorem get?_erase_self (k : Key) (s : Slots α) : (s.erase k).get? k = none := by
  unfold erase
  split
  · simp only [get?]
    grind
  · simp_all [contains]

end Slots

end ReactiveMarkup
