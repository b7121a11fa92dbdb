import ReactiveMarkup.Proofs.Eval.Renewed
import ReactiveMarkup.Proofs.Eval.Respects

/-!
# Calls that are repeated

A call that writes nothing, made once more while the declared values read as before, gives the same
value. Containers that it makes are made anew: they are alike but for stamps, which are as many
further as were taken in between.

Main definitions: `Accessor.readOnly`, `Accessor.Steady`, `Value.Older`, `Value.Renews`.
Main results: `Eval.call_of_readOnly`, `Eval.call_renews`.
-/
namespace ReactiveMarkup

open Evaluation Value

section

variable {σ : Type}

/-- Reads declared values as before and refuses to write any. What gives a value with this accessor
has written nothing. -/
def Accessor.readOnly (acc : Accessor σ) : Accessor σ where
  get := acc.get
  set path _ s := (.error (.unresolved path), s)

/-- In the worlds of `S` every path reads as `declared` has it, which takes no stamp and leads to such
a world again. -/
structure Accessor.Steady (acc : Accessor σ) (S : σ → Prop)
    (declared : ValuePath → Except EvalError Value) : Prop where
  get : ∀ path next s, S s → ∃ s', acc.get path (next, s) = (declared path, next, s') ∧ S s'

end

/-! ## Stamps taken before -/

namespace Value

mutual

/-- A value whose stamps were all taken before `next`. -/
def Older (next : Stamp) : Value → Prop
  | array stamp items => stamp < next ∧ ItemsOlder next items
  | object stamp entries => stamp < next ∧ EntriesOlder next entries
  | function stamp _ _ env => stamp < next ∧ EntriesOlder next env
  | undefined | null | bool _ | number _ | string _ => True

/-- Items whose stamps were all taken before `next`. -/
def ItemsOlder (next : Stamp) : List Value → Prop
  | [] => True
  | v :: vs => v.Older next ∧ ItemsOlder next vs

/-- Entries whose stamps were all taken before `next`. -/
def EntriesOlder (next : Stamp) : List (String × Value) → Prop
  | [] => True
  | (_, v) :: es => v.Older next ∧ EntriesOlder next es

end

variable {R : Stamp → Stamp → Prop} {next : Stamp}

mutual

/-- A value is alike to itself if its stamps correspond to themselves. -/
theorem alike_of_older (hR : ∀ s < next, R s s) :
    ∀ {v : Value}, v.Older next → Alike R .copies v v
  | undefined, _ => .undefined
  | null, _ => .null
  | bool b, _ => .bool b
  | number x, _ => .number x
  | string s, _ => .string s
  | array _ _, h => by
    rw [Older] at h
    exact .array (hR _ h.1) (alike_of_itemsOlder hR h.2)
  | object _ _, h => by
    rw [Older] at h
    exact .object (hR _ h.1) rfl (alike_of_entriesOlder hR h.2)
  | function _ params body _, h => by
    rw [Older] at h
    exact EnvAlike.arrow (fun x => alike_of_lookup hR x h.2) (hR _ h.1) params body

theorem alike_of_itemsOlder (hR : ∀ s < next, R s s) :
    ∀ {vs : List Value}, ItemsOlder next vs → List.Forall₂ (Alike R .copies) vs vs
  | [], _ => .nil
  | _ :: _, h => by
    rw [ItemsOlder] at h
    exact .cons (alike_of_older hR h.1) (alike_of_itemsOlder hR h.2)

theorem alike_of_entriesOlder (hR : ∀ s < next, R s s) :
    ∀ {es : List (String × Value)}, EntriesOlder next es →
      List.Forall₂ (Alike R .copies) (es.map Prod.snd) (es.map Prod.snd)
  | [], _ => .nil
  | (_, _) :: _, h => by
    rw [EntriesOlder] at h
    exact .cons (alike_of_older hR h.1) (alike_of_entriesOlder hR h.2)

theorem alike_of_lookup (hR : ∀ s < next, R s s) (x : String) :
    ∀ {es : List (String × Value)}, EntriesOlder next es →
      Option.Rel (Alike R .copies) (es.lookup x) (es.lookup x)
  | [], _ => .none
  | (y, v) :: es, h => by
    rw [EntriesOlder] at h
    rw [List.lookup_cons]
    split
    · exact .some (alike_of_older hR h.1)
    · exact alike_of_lookup hR x h.2

end

theorem ItemsOlder.mem : ∀ {vs : List Value}, ItemsOlder next vs → ∀ {v}, v ∈ vs → v.Older next
  | v :: vs, h, w, hw => by
    rw [ItemsOlder] at h
    rcases List.mem_cons.1 hw with rfl | hw
    · exact h.1
    · exact h.2.mem hw

/-- Stamps before `next` stay, and the others are `k` further. -/
def Shifted (next k s t : Nat) : Prop := s < next ∧ t = s ∨ next ≤ s ∧ t = s + k

theorem biUnique_shifted (next k : Nat) : Relator.BiUnique (Shifted next k) := by
  refine ⟨fun s s' t h h' => ?_, fun s t t' h h' => ?_⟩ <;> rw [Shifted] at h h' <;> omega

theorem Shifted.le {next k s t : Nat} (h : Shifted next k s t) (hs : next ≤ s) : next ≤ t := by
  rw [Shifted] at h
  omega

/-- Where all stamps to come are one further, they come after those that stay: an earlier one would
be both the same and one further. -/
theorem le_of_shifted {next s t : Nat} (h : ∀ j, Shifted next 1 (s + j) (t + j)) : next ≤ s := by
  have hnow := h 0
  have hlater := h next
  rw [Shifted] at hnow hlater
  omega

/-- The same value once more: stamps taken before `next` stay, and all containers that were made after
it are made anew. -/
def Renews (next : Stamp) (v w : Value) : Prop := ∃ k, Alike (Shifted next k) .copies v w

theorem Renews.truthy_eq {v w : Value} (h : Renews next v w) : w.truthy = v.truthy :=
  h.choose_spec.truthy_eq

end Value

namespace Eval

variable {σ : Type} {acc : Accessor σ} {S : σ → Prop}
  {declared : ValuePath → Except EvalError Value} {next : Stamp}

/-! ## Nothing is written -/

/-- The second computation gives whatever value the first one gives, and ends as it does. -/
def GivesToo (α : Type) (p q : Evaluation σ α) : Prop :=
  ∀ f a g, p.run f = (.ok a, g) → q.run f = (.ok a, g)

theorem givesToo_respects (acc : Accessor σ) {call call' : Call σ}
    (hcall : ∀ f args, GivesToo Value (call f args) (call' f args)) :
    Respects GivesToo (fun _ => True) acc.readOnly acc call call' where
  pure _ _ _ _ h := h
  fail _ _ _ _ h := h
  bindGiven {α β p q k l} hp hk f b g h := by
    rw [run_bind] at h ⊢
    cases hrun : p.run f with
    | mk r f' =>
      rw [hrun] at h
      cases r with
      | error e => cases h
      | ok a =>
        rw [hp f a f' hrun]
        exact hk a ⟨f, by rw [hrun]⟩ f' b g h
  env _ _ _ h := h
  define _ _ _ _ _ _ h := h
  stamped _ _ _ _ h := h
  read _ _ _ _ h := h
  write _ _ _ _ _ h := by cases h
  call := hcall

theorem run_within {α : Type} (env : Env) (p : Evaluation σ α) (f : Frame σ) :
    (within env p).run f =
      ((p.run { f with env := env }).1, { (p.run { f with env := env }).2 with env := f.env }) := rfl

/-- A call that gives a value without writing gives it with the leave to write, too. -/
theorem call_of_readOnly (acc : Accessor σ) (limit left : Nat) (f : Value) (args : List Value) :
    GivesToo Value (call acc.readOnly limit left f args) (call acc limit left f args) := by
  induction left generalizing f args with
  | zero =>
    intro F v G h
    cases f <;> cases h
  | succ left ih =>
    intro F v G h
    cases f with
    | function stamp params body env =>
      have hbody := expr_respects (givesToo_respects acc ih) body fun _ _ => trivial
      rw [call, run_within] at h ⊢
      cases hrun : (expr acc.readOnly (call acc.readOnly limit left) body).run
          { F with env := bindParams env params args } with
      | mk r F' =>
        rw [hrun] at h
        cases h
        rw [hbody _ _ _ hrun]
    | _ => cases h

/-! ## Once more -/

/-- Steady values are read alike in both of two runs. -/
theorem corresponds_of_steady (hacc : acc.Steady S declared)
    (hdeclared : ∀ p v, declared p = .ok v → v.Older next) (k : Stamp) :
    Accessor.Corresponds (Shifted next k) (fun s t => S s ∧ S t) acc.readOnly acc.readOnly where
  read p f g h := by
    obtain ⟨s, hs, hS⟩ := hacc.get p f.stamps f.world h.world.1
    obtain ⟨t, ht, hT⟩ := hacc.get p g.stamps g.world h.world.2
    simp only [Accessor.read, Accessor.readOnly, hs, ht]
    refine ⟨?_, h.locals, h.stamps, hS, hT⟩
    cases hp : declared p with
    | error e => exact .error e
    | ok v => exact .ok (alike_of_older (fun s hs => .inl ⟨hs, rfl⟩) (hdeclared p v hp))
  write _ _ _ _ _ _ h := ⟨.error _, h⟩

/-- The locals of the caller do not matter to a call. -/
theorem run_call_env (acc : Accessor σ) (limit left : Nat) (f : Value) (args : List Value)
    (F : Frame σ) (E : Env) :
    (call acc limit left f args).run { F with env := E } =
      (((call acc limit left f args).run F).1,
        { ((call acc limit left f args).run F).2 with env := E }) := by
  cases f with
  | function stamp params body env =>
    cases left with
    | zero => rfl
    | succ left =>
      rw [call, run_within, run_within]
  | _ => cases left <;> rfl

section

variable (limit left : Nat) {f : Value} {args : List Value} {F G : Frame σ}

/-- A call that writes nothing, made in two frames whose stamps are apart, ends alike, with its stamps
apart as they were. -/
theorem call_shifted (hacc : acc.Steady S declared)
    (hdeclared : ∀ p v, declared p = .ok v → v.Older F.stamps)
    (hf : f.Older F.stamps) (hargs : ItemsOlder F.stamps args) (hF : S F.world) (hG : S G.world)
    {k : Nat} (hk : G.stamps = F.stamps + k) :
    ResultAlike (Alike (Shifted F.stamps k) .copies)
        ((call acc.readOnly limit left f args).run F).1
        ((call acc.readOnly limit left f args).run G).1 ∧
      (∀ j, Shifted F.stamps k (((call acc.readOnly limit left f args).run F).2.stamps + j)
        (((call acc.readOnly limit left f args).run G).2.stamps + j)) ∧
      S ((call acc.readOnly limit left f args).run G).2.world := by
  have hR : ∀ s < F.stamps, Shifted F.stamps k s s := fun s hs => .inl ⟨hs, rfl⟩
  have hlevel : Level (Shifted F.stamps k) (fun s t => S s ∧ S t) { F with env := [] }
      { G with env := [] } := by
    refine ⟨fun _ => .none, fun j => .inr ⟨Nat.le_add_right _ _, ?_⟩, hF, hG⟩
    rw [hk, Nat.add_right_comm]
  obtain ⟨hresult, hend⟩ := call_alike (biUnique_shifted _ _)
    (corresponds_of_steady hacc hdeclared k) limit left (alike_of_older hR hf)
    (alike_of_itemsOlder hR hargs) _ _ hlevel
  rw [run_call_env _ _ _ _ _ F, run_call_env _ _ _ _ _ G] at hresult hend
  exact ⟨hresult, hend.stamps, hend.world.2⟩

/-- A call takes no stamp back. -/
theorem call_stamps_le (hacc : acc.Steady S declared)
    (hdeclared : ∀ p v, declared p = .ok v → v.Older F.stamps)
    (hf : f.Older F.stamps) (hargs : ItemsOlder F.stamps args) (hF : S F.world) :
    F.stamps ≤ ((call acc.readOnly limit left f args).run F).2.stamps := by
  obtain ⟨-, hstamps, -⟩ := call_shifted limit left (G := { F with stamps := F.stamps + 1 }) hacc hdeclared hf hargs hF hF rfl
  exact le_of_shifted hstamps

/-- A call that writes nothing gives the same value once more, whatever stamps were taken before, and
takes none back. -/
theorem call_renews (hacc : acc.Steady S declared)
    (hdeclared : ∀ p v, declared p = .ok v → v.Older F.stamps)
    (hf : f.Older F.stamps) (hargs : ItemsOlder F.stamps args) (hF : S F.world) (hG : S G.world)
    (hle : F.stamps ≤ G.stamps) {v : Value}
    (h : ((call acc.readOnly limit left f args).run F).1 = .ok v) :
    ∃ w H, (call acc.readOnly limit left f args).run G = (.ok w, H) ∧ Renews F.stamps v w ∧
      S H.world ∧ F.stamps ≤ H.stamps := by
  obtain ⟨k, hk⟩ := Nat.exists_eq_add_of_le hle
  obtain ⟨hresult, hstamps, hworld⟩ :=
    call_shifted limit left hacc hdeclared hf hargs hF hG hk
  have hbefore := call_stamps_le limit left hacc hdeclared hf hargs hF
  have hnow := hstamps 0
  rw [h] at hresult
  generalize (call acc.readOnly limit left f args).run G = r at hresult hnow hworld ⊢
  obtain ⟨r, H⟩ := r
  cases hresult with
  | ok hw =>
    exact ⟨_, H, rfl, ⟨k, hw⟩, hworld, hnow.le hbefore⟩

end

end Eval

end ReactiveMarkup
