import ReactiveMarkup.Eval.Store
import ReactiveMarkup.Proofs.Eval.Repeating

/-!
# Methods that call a function on every item

The methods of arrays that take a function make the same calls from the front, and those that search
stop at the first call that decides them. As long as no call writes, the calls left out change nothing,
and all that the methods tell can be read off the array of the items that `filter` keeps.

Main definitions: `Eval.CallsGive`, `Eval.Iteration.kept`, `Eval.Iteration.first?`.
Main results: `Eval.Iteration.run_eq`, `Eval.callMethod_iterations`.
-/
namespace ReactiveMarkup

namespace Eval

open Evaluation Value

variable {σ : Type}

/-- From any frame that satisfies `P`, the call on an item, `i` being the place of the first one, gives
a value that satisfies `Q` for its place, and ends in such a frame. -/
def CallsGive (call : Call σ) (f : Value) (P : Frame σ → Prop) (Q : Nat → Value → Prop) (i : Nat)
    (items : List Value) : Prop :=
  ∀ j item, items[j]? = some item → ∀ F, P F →
    ∃ v G, (call f [item, .ofNat (i + j)]).run F = (.ok v, G) ∧ P G ∧ Q (i + j) v

namespace Iteration

variable {call : Call σ} {f : Value} {P : Frame σ → Prop} {Q : Nat → Value → Prop}
  {t : Nat → Bool} {i : Nat} {items : List Value}

/-- The items whose calls are truthy, with their places. -/
def kept (t : Nat → Bool) (i : Nat) (items : List Value) : List (Value × Nat) :=
  (items.zipIdx i).filter fun p => t p.2

/-- What the first call that decides a method decides. -/
def first? (m : Iteration) (t : Nat → Bool) : Nat → List Value → Option Value
  | _, [] => .none
  | i, item :: items => (m.decided? i item (.bool (t i))).orElse fun _ => first? m t (i + 1) items

/-- What calls that do not decide a method add to the items collected. -/
def gathered (m : Iteration) (items results : List Value) : List Value :=
  (items.zip results).flatMap fun p => m.collected p.1 p.2

/-- Only whether a result is truthy decides. -/
theorem decided?_eq (m : Iteration) (i : Nat) (item : Value) {v : Value} (hv : v.truthy = t i) :
    m.decided? i item v = m.decided? i item (.bool (t i)) := by
  cases m <;> simp only [decided?, hv] <;> rfl

/-- A method ends with the first call that decides it, or with what all calls add. -/
theorem run_eq (m : Iteration) (ht : ∀ i v, Q i v → v.truthy = t i)
    (hcalls : CallsGive call f P Q i items) (done : List Value) {F : Frame σ} (hF : P F) :
    match m.first? t i items with
    | .some v => ((m.run call f done i items).run F).1 = .ok v
    | .none => ∃ results G, results.length = items.length ∧
        (∀ j v, results[j]? = .some v → Q (i + j) v) ∧
        (m.run call f done i items).run F = (m.finish (done ++ m.gathered items results)).run G := by
  induction items generalizing i done F with
  | nil =>
    refine ⟨[], F, rfl, fun j v h => by simp at h, ?_⟩
    rw [Iteration.run, gathered, List.zip_nil_left, List.flatMap_nil, List.append_nil]
  | cons item items ih =>
    obtain ⟨v, G, hcall, hG, hv⟩ := hcalls 0 item rfl F hF
    rw [Nat.add_zero] at hcall hv
    have hrest : CallsGive call f P Q (i + 1) items := by
      intro j item hitem
      rw [Nat.add_right_comm]
      exact hcalls (j + 1) item hitem
    rw [first?, Iteration.run, run_bind, hcall, ← m.decided?_eq i item (ht i v hv)]
    dsimp only
    cases m.decided? i item v with
    | some w => rfl
    | none =>
      have h := ih hrest (done ++ m.collected item v) hG
      rw [Option.orElse_none]
      cases hfirst : m.first? t (i + 1) items with
      | some w =>
        rw [hfirst] at h
        exact h
      | none =>
        rw [hfirst] at h
        obtain ⟨results, G', hlength, hresults, hrun⟩ := h
        refine ⟨v :: results, G', congrArg (· + 1) hlength, fun j w hw => ?_, ?_⟩
        · cases j with
          | zero =>
            cases hw
            exact hv
          | succ j =>
            rw [← Nat.add_assoc, Nat.add_right_comm]
            exact hresults j w hw
        · rw [hrun, List.append_assoc]
          rfl

/-- A method that collects nothing gives what its first call decides, or always the same without one. -/
theorem run_searching (m : Iteration) {v : Value} (hv : ∀ collected, m.finish (σ := σ) collected = pure v)
    (ht : ∀ i v, Q i v → v.truthy = t i) (hcalls : CallsGive call f P Q i items) {F : Frame σ} (hF : P F) :
    ((m.run call f [] i items).run F).1 = .ok ((m.first? t i items).getD v) := by
  have h := m.run_eq ht hcalls [] hF
  cases hfirst : m.first? t i items with
  | some w =>
    rw [hfirst] at h
    exact h
  | none =>
    rw [hfirst] at h
    obtain ⟨results, G, -, -, hrun⟩ := h
    rw [hrun, hv]
    rfl

/-! ## What the methods decide -/

theorem kept_cons (t : Nat → Bool) (i : Nat) (item : Value) (items : List Value) :
    kept t i (item :: items) =
      if t i then (item, i) :: kept t (i + 1) items else kept t (i + 1) items := by
  rw [kept, List.zipIdx_cons, List.filter_cons, ← kept]

theorem length_kept_le (t : Nat → Bool) (i : Nat) (items : List Value) :
    (kept t i items).length ≤ items.length := by
  have h := List.length_filter_le (fun p : Value × Nat => t p.2) (items.zipIdx i)
  rwa [List.length_zipIdx] at h

/-- The place of the first item that is kept. -/
theorem head?_kept (t : Nat → Bool) (items : List Value) :
    (kept t 0 items).head?.map Prod.snd = (List.range items.length).find? t := by
  have hplaces : List.range items.length = items.zipIdx.map Prod.snd := by
    rw [List.zipIdx_map_snd, List.range'_eq_map_range]
    simp
  rw [kept, List.head?_filter, hplaces, List.find?_map]
  rfl

theorem first?_collecting {m : Iteration} (hm : m = map ∨ m = filter) (t : Nat → Bool) (i : Nat)
    (items : List Value) : m.first? t i items = .none := by
  induction items generalizing i with
  | nil => rfl
  | cons item items ih => rcases hm with rfl | rfl <;> exact ih (i + 1)

theorem first?_find (t : Nat → Bool) (i : Nat) (items : List Value) :
    find.first? t i items = (kept t i items).head?.map Prod.fst := by
  induction items generalizing i with
  | nil => rfl
  | cons item items ih =>
    rw [first?, kept_cons, ih]
    cases ht : t i <;> simp [decided?, truthy]

theorem first?_findIndex (t : Nat → Bool) (i : Nat) (items : List Value) :
    findIndex.first? t i items = ((kept t i items).head?.map Prod.snd).map Value.ofNat := by
  induction items generalizing i with
  | nil => rfl
  | cons item items ih =>
    rw [first?, kept_cons, ih]
    cases ht : t i <;> simp [decided?, truthy]

theorem first?_some (t : Nat → Bool) (i : Nat) (items : List Value) :
    some.first? t i items = if kept t i items = [] then .none else .some (.bool true) := by
  induction items generalizing i with
  | nil => rfl
  | cons item items ih =>
    rw [first?, kept_cons, ih]
    cases ht : t i <;> simp [decided?, truthy]

theorem first?_every (t : Nat → Bool) (i : Nat) (items : List Value) :
    every.first? t i items =
      if (kept t i items).length = items.length then .none else .some (.bool false) := by
  induction items generalizing i with
  | nil => rfl
  | cons item items ih =>
    rw [first?, kept_cons, ih]
    cases ht : t i with
    | true => simp [decided?, truthy]
    | false =>
      have hle := length_kept_le t (i + 1) items
      have hne : (kept t (i + 1) items).length ≠ items.length + 1 := by omega
      simp [decided?, truthy, hne]

theorem gathered_map {results : List Value} (h : results.length = items.length) :
    map.gathered items results = results := by
  rw [gathered]
  change ((items.zip results).flatMap fun p => [p.2]) = results
  rw [← List.map_eq_flatMap]
  exact List.map_snd_zip (Nat.le_of_eq h)

theorem gathered_filter {results : List Value} (h : results.length = items.length)
    (ht : ∀ j v, results[j]? = .some v → v.truthy = t (i + j)) :
    filter.gathered items results = (kept t i items).map Prod.fst := by
  induction items generalizing i results with
  | nil => rfl
  | cons item items ih =>
    cases results with
    | nil => cases h
    | cons v results =>
      have hv := ht 0 v rfl
      rw [Nat.add_zero] at hv
      have hrest : filter.gathered items results = (kept t (i + 1) items).map Prod.fst := by
        refine ih (Nat.succ.inj h) fun j w hw => ?_
        rw [Nat.add_right_comm]
        exact ht (j + 1) w hw
      rw [gathered, List.zip_cons_cons, List.flatMap_cons, ← gathered, hrest, kept_cons]
      cases ht : t i <;> simp [collected, hv, ht]

end Iteration

/-! ## The methods side by side -/

theorem callMethod_iteration {call : Call σ} {m : Iteration} {name : String}
    (h : Iteration.ofName? name = some m) (stamp : Stamp) (items args : List Value) :
    callMethod call (.array stamp items) name args = m.run call (Builtin.arg args 0) [] 0 items := by
  rw [callMethod, h]

/-- The methods agree with `filter`. Let the calls of a function on the items of an array, each with
its place and each made on its own, give `result` and write nothing. Then `filter` gives the items whose
results are truthy, in order, and with these, `some` tells whether there are any, `every` whether they
are as many as the items, and `find` is the first of them, or undefined without one. `findIndex` is the
least place whose result is truthy, or minus one, and `map` gives as many items as there are, each the
result for its place once more. -/
theorem callMethod_iterations {acc : Accessor σ} {S : σ → Prop}
    {declared : ValuePath → Except EvalError Value} (hacc : acc.Steady S declared)
    (limit left : Nat) (stamp : Stamp) {items args : List Value} {F : Frame σ}
    {result : Nat → Value} (hworld : S F.world)
    (hdeclared : ∀ p v, declared p = .ok v → v.Older F.stamps)
    (holder : ItemsOlder F.stamps (Builtin.arg args 0 :: items))
    (hcalls : ∀ i item, items[i]? = some item →
      ((call acc.readOnly limit left (Builtin.arg args 0) [item, .ofNat i]).run F).1 = .ok (result i)) :
    let given (name : String) : Except EvalError Value :=
      ((callMethod (call acc limit left) (.array stamp items) name args).run F).1
    let kept := (items.zipIdx.filter fun p => (result p.2).truthy).map Prod.fst
    (∃ s, given "filter" = .ok (.array s kept)) ∧
      given "some" = .ok (.bool (decide (kept ≠ []))) ∧
      given "every" = .ok (.bool (decide (kept.length = items.length))) ∧
      given "find" = .ok (kept.head?.getD .undefined) ∧
      given "findIndex" = .ok (Builtin.placeValue
        ((List.range items.length).find? fun i => (result i).truthy)) ∧
      ∃ s mapped, given "map" = .ok (.array s mapped) ∧ mapped.length = items.length ∧
        ∀ i v, mapped[i]? = some v → Renews F.stamps (result i) v := by
  intro given kept
  let t (i : Nat) : Bool := (result i).truthy
  let f := Builtin.arg args 0
  rw [ItemsOlder] at holder
  have hgive : CallsGive (call acc limit left) f
      (fun G => S G.world ∧ F.stamps ≤ G.stamps) (fun i => Renews F.stamps (result i)) 0 items := by
    intro i item hitem G hG
    have hargs : ItemsOlder F.stamps [item, .ofNat i] :=
      ⟨holder.2.mem (List.mem_of_getElem? hitem), trivial, trivial⟩
    obtain ⟨w, H, hrun, hw, hH, hstamps⟩ := call_renews _ _ hacc hdeclared holder.1 hargs hworld hG.1 hG.2
      (hcalls i item hitem)
    rw [Nat.zero_add]
    exact ⟨w, H, call_of_readOnly acc limit left f _ G w H hrun, ⟨hH, hstamps⟩, hw⟩
  have ht : ∀ i v, Renews F.stamps (result i) v → v.truthy = t i := fun i v h => h.truthy_eq
  have hF : S F.world ∧ F.stamps ≤ F.stamps := ⟨hworld, Nat.le_refl _⟩
  have hgiven {m : Iteration} {name : String} (h : Iteration.ofName? name = some m) :
      given name = ((m.run (call acc limit left) f [] 0 items).run F).1 := by
    simp only [given, callMethod_iteration h stamp items args, f]
  have hkept : kept = (Iteration.kept t 0 items).map Prod.fst := rfl
  refine ⟨?_, ?_, ?_, ?_, ?_, ?_⟩
  · have h := Iteration.filter.run_eq ht hgive [] hF
    rw [Iteration.first?_collecting (.inr rfl)] at h
    obtain ⟨results, G, hlength, hresults, h⟩ := h
    rw [hgiven (m := .filter) rfl, h, List.nil_append,
      Iteration.gathered_filter hlength fun j v hv => ht _ v (hresults j v hv)]
    exact ⟨G.stamps, rfl⟩
  · rw [hgiven (m := .some) rfl, Iteration.some.run_searching (fun _ => rfl) ht hgive hF,
      Iteration.first?_some, hkept]
    by_cases hnone : Iteration.kept t 0 items = [] <;> simp [hnone]
  · rw [hgiven (m := .every) rfl, Iteration.every.run_searching (fun _ => rfl) ht hgive hF,
      Iteration.first?_every, hkept, List.length_map]
    by_cases hall : (Iteration.kept t 0 items).length = items.length <;> simp [hall]
  · rw [hgiven (m := .find) rfl, Iteration.find.run_searching (fun _ => rfl) ht hgive hF,
      Iteration.first?_find, hkept, List.head?_map]
  · rw [hgiven (m := .findIndex) rfl, Iteration.findIndex.run_searching (fun _ => rfl) ht hgive hF,
      Iteration.first?_findIndex, Iteration.head?_kept]
    change _ = Except.ok (Builtin.placeValue ((List.range items.length).find? t))
    cases (List.range items.length).find? t <;> rfl
  · have h := Iteration.map.run_eq ht hgive [] hF
    rw [Iteration.first?_collecting (.inl rfl)] at h
    obtain ⟨results, G, hlength, hresults, h⟩ := h
    rw [hgiven (m := .map) rfl, h, List.nil_append, Iteration.gathered_map hlength]
    refine ⟨G.stamps, results, rfl, hlength, fun i v hv => ?_⟩
    have hv := hresults i v hv
    rwa [Nat.zero_add] at hv

/-- A store reads steadily as long as its values stay. -/
theorem steady_store (values : List (String × Value)) :
    Store.accessor.Steady (fun s => s.values = values) fun p =>
      match values.lookup p.toText with
      | some v => .ok v
      | none => .error (.unresolved p) where
  get p next s hs := by
    subst hs
    refine ⟨{ s with log := s.log ++ [.get p.toText] }, ?_, rfl⟩
    cases h : s.values.lookup p.toText with
    | some v => simp only [Store.accessor, h]
    | none => simp only [Store.accessor, h]

/-- A function that makes an array of a truthy item and a declared value. -/
theorem callMethod_iterations_arrays :
    let r := Range.initial
    let f : Value := .function 0 ["x"] (.binary r .and (.ident r "x")
      (.array r [.ident r "x", .get r ⟨0, [], "k"⟩])) []
    let items : List Value := [.string "a", .null, .string "b"]
    let F : Frame Store := ⟨[], 1, .ofValues [("0.k", .bool true)]⟩
    let result (i : Nat) : Value :=
      if i = 1 then .null else .array 1 [(items[i]?).getD .undefined, .bool true]
    ItemsOlder F.stamps (f :: items) ∧
      (∀ i item, items[i]? = some item →
        ((call Store.accessor.readOnly 3 3 f [item, .ofNat i]).run F).1 = .ok (result i)) ∧
      ((callMethod (call Store.accessor 3 3) (.array 0 items) "find" [f]).run F).1 =
        .ok (.string "a") ∧
      ∃ s mapped, ((callMethod (call Store.accessor 3 3) (.array 0 items) "map" [f]).run F).1 =
        .ok (.array s mapped) ∧ mapped.length = 3 ∧
          ∀ i v, mapped[i]? = some v → Renews F.stamps (result i) v := by
  intro r f items F result
  have holder : ItemsOlder F.stamps (f :: items) := by
    simp [f, items, F, ItemsOlder, Older, EntriesOlder]
  have hcalls : ∀ i item, items[i]? = some item →
      ((call Store.accessor.readOnly 3 3 f [item, .ofNat i]).run F).1 = .ok (result i) := by
    intro i item hitem
    match i with
    | 0 | 1 | 2 =>
      cases hitem
      with_unfolding_all rfl
    | i + 3 => cases hitem
  have hdeclared : ∀ p v, (match F.world.values.lookup p.toText with
      | some v => .ok v
      | none => .error (.unresolved p) : Except EvalError Value) = .ok v → v.Older F.stamps := by
    intro p v h
    rw [show F.world.values = [("0.k", .bool true)] from rfl, List.lookup_cons] at h
    cases hk : p.toText == "0.k" with
    | true =>
      rw [hk] at h
      cases h
      trivial
    | false =>
      rw [hk] at h
      cases h
  have hargs : ItemsOlder F.stamps (Builtin.arg [f] 0 :: items) := holder
  obtain ⟨-, -, -, hfind, -, hmap⟩ := callMethod_iterations (steady_store [("0.k", .bool true)]) 3 3 0 rfl hdeclared hargs hcalls
  exact ⟨holder, hcalls, hfind, hmap⟩

end Eval

end ReactiveMarkup
