import ReactiveMarkup.Proofs.Value.Alike

/-!
# Parts of alike values

Reading a part of alike values, putting alike parts into them and combining them by an operator
gives alike values again, or fails alike.

Main definitions: `ResultAlike`, `Value.StampedAlike`.
Main results: `Value.Alike.property`, `Value.Alike.index`, `Value.Alike.updateAt`,
`Value.Alike.applyBinary`.
-/
namespace ReactiveMarkup

/-- Two computations succeed with related results, or fail with the same error. -/
inductive ResultAlike {α β : Type} (Q : α → β → Prop) : Except EvalError α → Except EvalError β → Prop
  | ok {a : α} {b : β} (h : Q a b) : ResultAlike Q (.ok a) (.ok b)
  | error (e : EvalError) : ResultAlike Q (.error e) (.error e)

namespace ResultAlike

variable {α β γ δ : Type} {Q : α → β → Prop} {Q' : γ → δ → Prop}

theorem bind {r : Except EvalError α} {r' : Except EvalError β} {k : α → Except EvalError γ}
    {k' : β → Except EvalError δ} (h : ResultAlike Q r r')
    (hk : ∀ a b, Q a b → ResultAlike Q' (k a) (k' b)) : ResultAlike Q' (r >>= k) (r' >>= k') := by
  cases h with
  | ok h => exact hk _ _ h
  | error e => exact .error e

end ResultAlike

namespace Value

variable {R : Stamp → Stamp → Prop} {T : Twins}

/-! ## Lists and entries -/

theorem getElem?_rel {α β : Type} {Q : α → β → Prop} {as : List α} {bs : List β}
    (h : List.Forall₂ Q as bs) (i : Nat) : Option.Rel Q as[i]? bs[i]? := by
  induction h generalizing i with
  | nil => exact .none
  | cons hab _ ih =>
    cases i with
    | zero => exact .some hab
    | succ i => exact ih i

/-- What is missing on both sides is undefined on both. -/
theorem getD_alike {o o' : Option Value} (h : Option.Rel (Alike R T) o o') :
    Alike R T (o.getD .undefined) (o'.getD .undefined) := by
  cases h with
  | some h => exact h
  | none => exact .undefined

theorem replicate_alike {v w : Value} (h : Alike R T v w) (n : Nat) :
    List.Forall₂ (Alike R T) (List.replicate n v) (List.replicate n w) := by
  induction n with
  | zero => exact .nil
  | succ n ih => exact .cons h ih

theorem set_alike {as bs : List Value} {v w : Value} (h : List.Forall₂ (Alike R T) as bs)
    (hv : Alike R T v w) (i : Nat) : List.Forall₂ (Alike R T) (as.set i v) (bs.set i w) := by
  induction h generalizing i with
  | nil => exact .nil
  | cons hab hs ih =>
    cases i with
    | zero => exact .cons hv hs
    | succ i => exact .cons hab (ih i)

theorem setItem_alike {as bs : List Value} {v w : Value} (h : List.Forall₂ (Alike R T) as bs)
    (hv : Alike R T v w) (i : Nat) :
    List.Forall₂ (Alike R T) (setItem as i v) (setItem bs i w) := by
  rw [setItem_eq, setItem_eq, h.length_eq]
  exact set_alike (List.rel_append h (replicate_alike .undefined _)) hv i

namespace EntriesAlike

theorem nil : EntriesAlike R T [] [] := ⟨rfl, .nil⟩

theorem cons {key : String} {v w : Value} {es fs : List (String × Value)} (h : Alike R T v w)
    (hs : EntriesAlike R T es fs) : EntriesAlike R T ((key, v) :: es) ((key, w) :: fs) :=
  ⟨congrArg (key :: ·) hs.keys, .cons h hs.items⟩

/-- Entries that are alike are both empty, or begin alike and go on so. -/
theorem cases {es fs : List (String × Value)} (h : EntriesAlike R T es fs) :
    (es = [] ∧ fs = []) ∨ ∃ key v w es' fs', es = (key, v) :: es' ∧ fs = (key, w) :: fs' ∧
      Alike R T v w ∧ EntriesAlike R T es' fs' := by
  obtain ⟨keys, items⟩ := h
  rcases es with _ | ⟨⟨j, v⟩, es⟩
  · exact .inl ⟨rfl, List.map_eq_nil_iff.1 keys.symm⟩
  · rcases fs with _ | ⟨⟨k, w⟩, fs⟩
    · cases keys
    · obtain ⟨rfl, hkeys⟩ := List.cons.inj keys
      cases items with
      | cons h hs => exact .inr ⟨j, v, w, es, fs, rfl, rfl, h, hkeys, hs⟩

theorem lookup {es fs : List (String × Value)} (h : EntriesAlike R T es fs) (key : String) :
    Option.Rel (Alike R T) (es.lookup key) (fs.lookup key) := by
  induction es generalizing fs with
  | nil =>
    obtain ⟨_, rfl⟩ | ⟨_, _, _, _, _, h, _⟩ := h.cases
    · exact .none
    · cases h
  | cons e es ih =>
    obtain ⟨h, _⟩ | ⟨k, v, w, es', fs', he, rfl, hv, hs⟩ := h.cases
    · cases h
    · cases he
      by_cases hk : key = k
      · rw [hk, List.lookup_cons_self, List.lookup_cons_self]
        exact .some hv
      · rw [List.lookup_cons, List.lookup_cons, beq_eq_false_iff_ne.2 hk]
        change Option.Rel _ (es.lookup key) (fs'.lookup key)
        exact ih hs

theorem insert {es fs : List (String × Value)} (h : EntriesAlike R T es fs) (key : String)
    {v w : Value} (hv : Alike R T v w) :
    EntriesAlike R T (Keyed.insert key v es) (Keyed.insert key w fs) := by
  induction es generalizing fs with
  | nil =>
    obtain ⟨_, rfl⟩ | ⟨_, _, _, _, _, h, _⟩ := h.cases
    · exact cons hv nil
    · cases h
  | cons e es ih =>
    obtain ⟨h, _⟩ | ⟨k, a, b, es', fs', he, rfl, ha, hs⟩ := h.cases
    · cases h
    · cases he
      rw [Keyed.insert, Keyed.insert]
      by_cases hk : key = k
      · rw [if_pos hk, if_pos hk]
        exact cons hv hs
      · rw [if_neg hk, if_neg hk]
        by_cases hlt : key < k
        · rw [if_pos hlt, if_pos hlt]
          exact cons hv (cons ha hs)
        · rw [if_neg hlt, if_neg hlt]
          exact cons ha (ih hs)

theorem foldl_insert {es fs acc acc' : List (String × Value)} (h : EntriesAlike R T es fs)
    (hacc : EntriesAlike R T acc acc') :
    EntriesAlike R T (es.foldl (fun acc e => Keyed.insert e.1 e.2 acc) acc)
      (fs.foldl (fun acc e => Keyed.insert e.1 e.2 acc) acc') := by
  induction es generalizing fs acc acc' with
  | nil =>
    obtain ⟨_, rfl⟩ | ⟨_, _, _, _, _, h, _⟩ := h.cases
    · exact hacc
    · cases h
  | cons e es ih =>
    obtain ⟨h, _⟩ | ⟨k, v, w, es', fs', he, rfl, hv, hs⟩ := h.cases
    · cases h
    · cases he
      have := ih hs (hacc.insert k hv)
      exact this

theorem ofList {es fs : List (String × Value)} (h : EntriesAlike R T es fs) :
    EntriesAlike R T (Keyed.ofList es) (Keyed.ofList fs) := h.foldl_insert nil

end EntriesAlike

/-- A sum is decided by whether one side is textual, also if both are numbers. -/
theorem add_eq_ite (v w : Value) : v.add w =
    if v.isTextual || w.isTextual then string (v.toText ++ w.toText)
    else number (v.toNumber + w.toNumber) := by
  cases v with
  | number x => cases w <;> rfl
  | _ => rfl

namespace Alike

/-! ## Reading parts -/

theorem property {v w : Value} (h : Alike R T v w) (name : String) :
    ResultAlike (Alike R T) (v.property name) (w.property name) := by
  cases h with
  | undefined => exact .error _
  | null => exact .error _
  | array stamps items =>
    simp only [Value.property]
    by_cases hn : name = "length"
    · rw [if_pos hn, if_pos hn, items.length_eq]
      exact .ok (.number _)
    · rw [if_neg hn, if_neg hn]
      refine .ok (getD_alike ?_)
      cases Number.index? name with
      | none => exact .none
      | some i => exact getElem?_rel items i
  | object stamps keys items =>
    exact .ok (getD_alike (EntriesAlike.lookup ⟨keys, items⟩ name))
  | string s =>
    simp only [Value.property]
    split
    · exact .ok (.number _)
    · split
      · exact .ok (.string _)
      · exact .ok .undefined
  | _ => exact .ok .undefined

theorem index {v w key key' : Value} (h : Alike R T v w) (hk : Alike R T key key') :
    ResultAlike (Alike R T) (v.index key) (w.index key') := by
  have hp := h.property key.toText
  cases h with
  | array stamps items =>
    simp only [Value.index, hk.arrayIndex?_eq, hk.toText_eq]
    cases key.arrayIndex? with
    | none => exact hp
    | some i => exact .ok (getD_alike (getElem?_rel items i))
  | _ =>
    simp only [Value.index, hk.toText_eq]
    exact hp

/-! ## Putting parts in place -/

theorem withKey {s t : Stamp} (hs : R s t) {v w key key' a b : Value} (h : Alike R T v w)
    (hk : Alike R T key key') (ha : Alike R T a b) :
    ResultAlike (Alike R T) (Value.withKey s v key a) (Value.withKey t w key' b) := by
  cases h with
  | undefined =>
    simp only [Value.withKey, hk.toText_eq]
    exact .error _
  | null =>
    simp only [Value.withKey, hk.toText_eq]
    exact .error _
  | array stamps items =>
    simp only [Value.withKey, hk.toText_eq, hk.arrayIndex?_eq]
    split
    · have hset := setItem_alike items ha ‹Nat›
      rw [hset.length_eq]
      split
      · exact .ok (.array hs hset)
      · exact .error _
    · exact .ok (.array stamps items)
  | object stamps keys items =>
    simp only [Value.withKey, hk.toText_eq]
    have := EntriesAlike.insert ⟨keys, items⟩ key.toText ha
    exact .ok (.object hs this.keys this.items)
  | bool b => exact .ok (.bool b)
  | number x => exact .ok (.number x)
  | string s => exact .ok (.string s)
  | function stamps exempt code locals left right shared fixed =>
    exact .ok (.function stamps exempt code locals left right shared fixed)

/-- A change at a place takes one stamp for each key on the way. -/
theorem updateAt {f g : Value → Value} (hf : ∀ v w, Alike R T v w → Alike R T (f v) (g w))
    {v w : Value} {ks ls : List Value} (h : Alike R T v w) (hk : List.Forall₂ (Alike R T) ks ls)
    {n m : Stamp} (hn : ∀ i < ks.length, R (n + i) (m + i)) :
    ResultAlike (fun r r' => Alike R T r.1 r'.1 ∧ Alike R T r.2.1 r'.2.1 ∧
        r.2.2 = n + ks.length ∧ r'.2.2 = m + ks.length)
      (Value.updateAt f n v ks) (Value.updateAt g m w ls) := by
  induction hk generalizing v w with
  | nil => exact .ok ⟨hf v w h, hf v w h, rfl, rfl⟩
  | @cons key key' ks ls hkey _ ih =>
    rw [Value.updateAt, Value.updateAt]
    refine (h.index hkey).bind fun c c' hc => ?_
    have hn' : ∀ i < ks.length, R (n + i) (m + i) := fun i hi => hn i (Nat.lt_succ_of_lt hi)
    refine (ih hc hn').bind fun r r' hr => ?_
    obtain ⟨part, stored, next⟩ := r
    obtain ⟨part', stored', next'⟩ := r'
    obtain ⟨hpart, hstored, rfl, rfl⟩ := hr
    refine (withKey (hn ks.length (Nat.lt_succ_self _)) h hkey hpart).bind fun u u' hu => ?_
    exact .ok ⟨hu, hstored, rfl, rfl⟩

/-! ## Operators -/

theorem isTextual_eq {v w : Value} (h : Alike R T v w) : w.isTextual = v.isTextual := by
  cases h <;> rfl

theorem compare?_eq {v v' w w' : Value} (hv : Alike R T v v') (hw : Alike R T w w') :
    compare? v' w' = compare? v w := by
  have h : Number.compare? v'.toNumber w'.toNumber = Number.compare? v.toNumber w.toNumber := by
    rw [hv.toNumber_eq, hw.toNumber_eq]
  cases hv with
  | string s =>
    cases hw with
    | string t => rfl
    | _ => exact h
  | _ => exact h

theorem ordered_alike {v v' w w' : Value} (hv : Alike R T v v') (hw : Alike R T w w')
    (holds : Ordering → Bool) : Alike R T (ordered v w holds) (ordered v' w' holds) := by
  rw [ordered, ordered, hv.compare?_eq hw]
  exact .bool _

theorem add_eq {v v' w w' : Value} (hv : Alike R T v v') (hw : Alike R T w w') :
    Value.add v' w' = Value.add v w := by
  rw [add_eq_ite, add_eq_ite, hv.isTextual_eq, hw.isTextual_eq, hv.toText_eq, hw.toText_eq,
    hv.toNumber_eq, hw.toNumber_eq]

/-- Every result of an operator is a truth value, a number, a text or undefined. -/
theorem applyBinary (hR : Relator.BiUnique R) (op : BinaryOp) {v v' w w' : Value}
    (hv : Alike R T v v') (hw : Alike R T w w') : Alike R T (op.apply v w) (op.apply v' w') := by
  cases op with
  | add =>
    simp only [BinaryOp.apply, hv.add_eq hw]
    rw [Value.add.eq_def]
    split
    · exact .number _
    · split
      · exact .string _
      · exact .number _
  | eq =>
    simp only [BinaryOp.apply, looseEq_eq hR hv hw]
    exact .bool _
  | ne =>
    simp only [BinaryOp.apply, looseEq_eq hR hv hw]
    exact .bool _
  | strictEq =>
    simp only [BinaryOp.apply, strictEq_eq hR hv hw]
    exact .bool _
  | strictNe =>
    simp only [BinaryOp.apply, strictEq_eq hR hv hw]
    exact .bool _
  | sub | mul | div | mod =>
    simp only [BinaryOp.apply, hv.toNumber_eq, hw.toNumber_eq]
    exact .number _
  | lt | le | gt | ge => exact ordered_alike hv hw _
  | and | or | coalesce => exact .undefined

theorem applyUnary (op : UnaryOp) {v w : Value} (h : Alike R T v w) :
    Alike R T (op.apply v) (op.apply w) := by
  cases op with
  | not =>
    simp only [UnaryOp.apply, h.truthy_eq]
    exact .bool _
  | negate | plus =>
    simp only [UnaryOp.apply, h.toNumber_eq]
    exact .number _
  | typeof =>
    simp only [UnaryOp.apply, h.typeName_eq]
    exact .string _

theorem shortcut? (op : BinaryOp) {v w : Value} (h : Alike R T v w) :
    Option.Rel (Alike R T) (op.shortcut? v) (op.shortcut? w) := by
  cases op with
  | and | or =>
    simp only [BinaryOp.shortcut?, h.truthy_eq]
    split
    · first | exact .none | exact .some h
    · first | exact .none | exact .some h
  | coalesce =>
    simp only [BinaryOp.shortcut?, h.isNullish_eq]
    split
    · exact .none
    · exact .some h
  | _ => exact .none

end Alike

end Value

end ReactiveMarkup
