import ReactiveMarkup.Eval.Evaluate
import ReactiveMarkup.Proofs.Eval.Builtin

/-!
# Computations side by side

Two computations of the evaluator run side by side if they keep a relation between their frames and
give related results or the same error. The relation is kept even when both fail, so it also tells
what they leave behind.

Main definitions: `Evaluation.CanGive`, `Evaluation.Together`.
Main results: `Evaluation.Together.bind`, `Eval.run_together`, `Eval.callMethod_together`.
-/
namespace ReactiveMarkup

namespace Evaluation

variable {σ τ α β γ δ : Type}

/-- In some frame the computation gives the value. -/
def CanGive (p : Evaluation σ α) (a : α) : Prop := ∃ f, (p.run f).1 = .ok a

theorem canGive_pure {a b : α} (h : (Pure.pure a : Evaluation σ α).CanGive b) : b = a := by
  obtain ⟨f, h⟩ := h
  cases h
  rfl

theorem canGive_of_bind {p : Evaluation σ α} {k : α → Evaluation σ β} {b : β}
    (h : (p >>= k).CanGive b) : ∃ a, p.CanGive a ∧ (k a).CanGive b := by
  obtain ⟨f, h⟩ := h
  rw [run_bind] at h
  cases hp : p.run f with
  | mk r g =>
    rw [hp] at h
    cases r with
    | ok a => exact ⟨a, ⟨f, by rw [hp]⟩, g, h⟩
    | error e => cases h

/-- What holds of the frame that the first computation ends in, and carries over to where the second
one ends, holds of the frame that both end in. -/
theorem snd_run_bind {P : Frame σ → Prop} {p : Evaluation σ α} {k : α → Evaluation σ β}
    {f : Frame σ} (hp : P (p.run f).2)
    (hk : ∀ a, p.CanGive a → ∀ g, P g → P ((k a).run g).2) : P ((p >>= k).run f).2 := by
  rw [run_bind]
  cases hrun : p.run f with
  | mk r g =>
    rw [hrun] at hp
    cases r with
    | error e => exact hp
    | ok a => exact hk a ⟨f, by rw [hrun]⟩ g hp

/-- From frames related by `I`, both computations end in such frames, with related results. -/
def Together (I : Frame σ → Frame τ → Prop) (Q : α → β → Prop) (p : Evaluation σ α)
    (q : Evaluation τ β) : Prop :=
  ∀ f g, I f g → ResultAlike Q (p.run f).1 (q.run g).1 ∧ I (p.run f).2 (q.run g).2

namespace Together

variable {I : Frame σ → Frame τ → Prop} {Q : α → β → Prop} {Q' : γ → δ → Prop}

theorem pure {a : α} {b : β} (h : Q a b) :
    Together I Q (Pure.pure a : Evaluation σ α) (Pure.pure b : Evaluation τ β) :=
  fun _ _ hI => ⟨.ok h, hI⟩

theorem fail (e : EvalError) : Together I Q (fail e : Evaluation σ α) (fail e : Evaluation τ β) :=
  fun _ _ hI => ⟨.error e, hI⟩

theorem ofExcept {r : Except EvalError α} {r' : Except EvalError β} (h : ResultAlike Q r r') :
    Together I Q (ofExcept r : Evaluation σ α) (ofExcept r' : Evaluation τ β) :=
  fun _ _ hI => ⟨h, hI⟩

theorem bindGiven {p : Evaluation σ α} {q : Evaluation τ β} {k : α → Evaluation σ γ}
    {l : β → Evaluation τ δ} (hp : Together I Q p q)
    (hk : ∀ a b, p.CanGive a → Q a b → Together I Q' (k a) (l b)) :
    Together I Q' (p >>= k) (q >>= l) := by
  intro f g hI
  obtain ⟨hr, hI'⟩ := hp f g hI
  have hgive : ∀ a, (p.run f).1 = .ok a → p.CanGive a := fun a h => ⟨f, h⟩
  rw [run_bind, run_bind]
  generalize p.run f = u at hr hI' hgive ⊢
  generalize q.run g = v at hr hI' ⊢
  obtain ⟨r, f'⟩ := u
  obtain ⟨r', g'⟩ := v
  cases hr with
  | ok h => exact hk _ _ (hgive _ rfl) h f' g' hI'
  | error e => exact ⟨.error e, hI'⟩

theorem bind {p : Evaluation σ α} {q : Evaluation τ β} {k : α → Evaluation σ γ}
    {l : β → Evaluation τ δ} (hp : Together I Q p q)
    (hk : ∀ a b, Q a b → Together I Q' (k a) (l b)) : Together I Q' (p >>= k) (q >>= l) :=
  hp.bindGiven fun a b _ => hk a b

end Together

end Evaluation

namespace Eval

open Evaluation Value

variable {σ τ : Type} {T : Twins} {I : Frame σ → Frame τ → Prop} {call : Call σ} {call' : Call τ}

/-- Values in one run are alike values in the other; both take the same stamps. -/
abbrev Like (T : Twins) : Value → Value → Prop := Alike Eq T

theorem biUnique_eq {α : Type} : Relator.BiUnique (Eq : α → α → Prop) :=
  ⟨fun _ _ _ h h' => h.trans h'.symm, fun _ _ _ h h' => h.symm.trans h'⟩

/-- The frames of both runs have the same stamps, and it does not matter to their relation which. -/
structure StampsAgree (I : Frame σ → Frame τ → Prop) : Prop where
  eq : ∀ {f g}, I f g → f.stamps = g.stamps
  set : ∀ {f g}, I f g → ∀ next, I { f with stamps := next } { g with stamps := next }

/-- A result that takes stamps, the same in both runs. -/
theorem stamped_together {α β : Type} (hI : StampsAgree I) {Q : α → β → Prop}
    {r : Stamp → Except EvalError (α × Stamp)} {r' : Stamp → Except EvalError (β × Stamp)}
    (h : ∀ n, StampedAlike Eq Q n n (r n) (r' n)) : Together I Q (.stamped r) (.stamped r') := by
  intro f g hfg
  have hs := h f.stamps
  simp only [Evaluation.stamped, ← hI.eq hfg]
  generalize r f.stamps = u at hs ⊢
  generalize r' f.stamps = v at hs ⊢
  cases hs with
  | @ok p p' h =>
    obtain ⟨a, next⟩ := p
    obtain ⟨b, next'⟩ := p'
    obtain ⟨k, rfl, rfl, hQ⟩ := h
    exact ⟨.ok (hQ fun _ _ => rfl), hI.set hfg _⟩
  | error e => exact ⟨.error e, hfg⟩

/-! ## Calls -/

/-- Calling alike functions with alike arguments runs side by side. -/
def CallsTogether (T : Twins) (I : Frame σ → Frame τ → Prop) (call : Call σ) (call' : Call τ) : Prop :=
  ∀ {f f' args args'}, Like T f f' → List.Forall₂ (Like T) args args' →
    Together I (Like T) (call f args) (call' f' args')

theorem decided?_alike {R : Stamp → Stamp → Prop} (m : Iteration) (i : Nat) {v w r r' : Value}
    (hv : Alike R T v w) (hr : Alike R T r r') :
    Option.Rel (Alike R T) (m.decided? i v r) (m.decided? i w r') := by
  cases m with
  | map | filter => exact .none
  | find | findIndex | some | every =>
    simp only [Iteration.decided?, hr.truthy_eq]
    split
    · first | exact .none | exact .some hv | exact .some (.number _) | exact .some (.bool _)
    · first | exact .none | exact .some (.bool _)

theorem collected_alike {R : Stamp → Stamp → Prop} (m : Iteration) {v w r r' : Value}
    (hv : Alike R T v w) (hr : Alike R T r r') :
    List.Forall₂ (Alike R T) (m.collected v r) (m.collected w r') := by
  cases m with
  | map => exact .cons hr .nil
  | filter =>
    simp only [Iteration.collected, hr.truthy_eq]
    split
    · exact .cons hv .nil
    · exact .nil
  | _ => exact .nil

theorem finish_together (hI : StampsAgree I) (m : Iteration) {as bs : List Value}
    (h : List.Forall₂ (Like T) as bs) :
    Together I (Like T) (m.finish as) (m.finish bs) := by
  cases m with
  | map | filter => exact stamped_together hI fun n => Builtin.fresh_alike h
  | find => exact .pure .undefined
  | findIndex => exact .pure (.number _)
  | some | every => exact .pure (.bool _)

theorem iteration_together (hI : StampsAgree I) (hcall : CallsTogether T I call call')
    (m : Iteration) {f f' : Value} (hf : Like T f f') {as bs done done' : List Value}
    (h : List.Forall₂ (Like T) as bs) (hdone : List.Forall₂ (Like T) done done') (i : Nat) :
    Together I (Like T) (m.run call f done i as) (m.run call' f' done' i bs) := by
  induction h generalizing done done' i with
  | nil => exact finish_together hI m hdone
  | @cons v w as bs hv _ ih =>
    rw [Iteration.run, Iteration.run]
    refine (hcall hf (.cons hv (.cons (.number _) .nil))).bind fun r r' hr => ?_
    have hd := decided?_alike m i hv hr
    generalize m.decided? i v r = o at hd ⊢
    generalize m.decided? i w r' = o' at hd ⊢
    cases hd with
    | some h => exact .pure h
    | none => exact ih (List.rel_append hdone (collected_alike m hv hr)) (i + 1)

/-- Methods run side by side on alike receivers and arguments. -/
theorem callMethod_together (hI : StampsAgree I) (hcall : CallsTogether T I call call')
    (name : String) {v w : Value} (hv : Like T v w) {args args' : List Value}
    (h : List.Forall₂ (Like T) args args') :
    Together I (Like T) (callMethod call v name args) (callMethod call' w name args') := by
  have hb : Together I (Like T) (.stamped fun next => Builtin.callMethod name next v args)
      (.stamped fun next => Builtin.callMethod name next w args') :=
    stamped_together hI fun n => Builtin.callMethod_alike biUnique_eq name hv h
  cases hv with
  | undefined => exact .fail _
  | null => exact .fail _
  | array stamps items =>
    rw [callMethod, callMethod]
    cases Iteration.ofName? name with
    | some m => exact iteration_together hI hcall m (Builtin.arg_alike h 0) items .nil 0
    | none => exact hb
  | @object s t es fs stamps keys items =>
    rw [callMethod, callMethod]
    have hf := EntriesAlike.lookup ⟨keys, items⟩ name
    generalize es.lookup name = o at hf ⊢
    generalize fs.lookup name = o' at hf ⊢
    cases hf with
    | some hf => exact hcall hf h
    | none => exact hb
  | _ => exact hb

end Eval

end ReactiveMarkup
