import ReactiveMarkup.Proofs.Eval.Nesting

/-!
# What a call leaves behind

A call has a counter to raise and locals of its own, and both are put back when its body ends, by
whatever way. So it does not matter to the rest of an expression which functions it called and which
of them failed: as many calls are under way as before, and only the expression's own nodes, outside
of its functions, have set locals.

Main definitions: `Eval.Balances`.
Main results: `Eval.countedCall_balances`, `Eval.countedRun_restores`.
-/
namespace ReactiveMarkup

namespace Eval

variable {σ : Type} {acc : Accessor σ} {limit depth fuel : Nat} {call deeper : Call (Gauged σ)}

/-- However the computation ends, `depth` calls are under way afterwards if they were before. -/
def Balances (depth : Nat) {α : Type} (p : Evaluation (Gauged σ) α) : Prop :=
  ∀ f, f.world.gauge.depth = depth → (p.run f).2.world.gauge.depth = depth

theorem balances_bind {α β : Type} {p : Evaluation (Gauged σ) α}
    {k : α → Evaluation (Gauged σ) β} (hp : Balances depth p)
    (hk : ∀ a, p.CanGive a → Balances depth (k a)) : Balances depth (p >>= k) :=
  fun f hf => Evaluation.snd_run_bind (hp f hf) hk

/-- Nothing but calls counts. -/
theorem balances_respects (acc : Accessor σ) (hcall : ∀ v args, Balances depth (call v args)) :
    Respects (fun _ p _ => Balances depth p) (fun _ => True) acc.gauged acc.gauged call call where
  pure a f hf := hf
  fail e f hf := hf
  bindGiven := balances_bind
  env f hf := hf
  define y v _ f hf := hf
  stamped r f hf := by
    simp only [Evaluation.stamped]
    cases r f.stamps <;> exact hf
  read p f hf := hf
  write p v f hf := hf
  call := hcall

/-- A call counts down what it counted up, as long as the recursion does not end before the limit
does. -/
theorem countedCall_balances (hfuel : limit - depth < fuel) (v : Value) (args : List Value) :
    Balances depth (countedCall acc limit deeper fuel v args) := by
  induction fuel generalizing depth v args with
  | zero => omega
  | succ fuel ih =>
    intro f hf
    cases v with
    | function stamp params body env =>
      rw [countedCall]
      dsimp only
      split
      · exact hf
      · rename_i hroom
        have hbody :
            Balances (depth + 1) (expr acc.gauged (countedCall acc limit deeper fuel) body) :=
          expr_respects (balances_respects acc fun v args => ih (by omega) v args) body
            fun _ _ => trivial
        have hend := hbody { f.turn Gauge.enter with env := bindParams env params args }
          (congrArg (· + 1) hf)
        exact congrArg (· - 1) hend
    | _ => exact hf

/-- A call leaves all locals alone, whether it is refused, fails or gives a value. -/
theorem countedCall_env (v : Value) (args : List Value) (f : Frame (Gauged σ)) :
    ((countedCall acc limit deeper (fuel + 1) v args).run f).2.env = f.env := by
  cases v with
  | function stamp params body env =>
    rw [countedCall]
    dsimp only
    split <;> rfl
  | _ => rfl

/-- However an evaluation ends and whatever was called in between, as many calls are under way
afterwards as before, and every local that the expression does not set is bound as before or absent
as before. That holds with the calls counted and without. -/
theorem countedRun_restores (acc : Accessor σ) (limit : Nat) (e : Expr) (f : Frame σ) (g : Gauge)
    (extra : Nat) (deeper : Call (Gauged σ)) :
    let counted := ((countedRun acc limit deeper (limit + 1 + extra) e).run (f.gauged g)).2
    counted.world.gauge.depth = g.depth ∧ ∀ x, ¬e.Sets x →
      counted.env.lookup x = f.env.lookup x ∧
        ((run acc limit e).run f).2.env.lookup x = f.env.lookup x := by
  have hbalances : Balances g.depth (countedRun acc limit deeper (limit + 1 + extra) e) :=
    expr_respects (balances_respects acc (countedCall_balances (by omega))) e fun _ _ => trivial
  refine ⟨hbalances _ rfl, fun x hx => ⟨?_, run_keeps acc limit hx f⟩⟩
  have hcall (v : Value) (args : List Value) :
      Keeps x (countedCall acc limit deeper (limit + 1 + extra) v args) := fun f => by
    rw [Nat.add_right_comm, countedCall_env]
  have hkeeps : Keeps x (countedRun acc limit deeper (limit + 1 + extra) e) :=
    expr_respects (keeps_respects acc.gauged x hcall) e fun y hy hyx => hx (hyx ▸ hy)
  exact hkeeps (f.gauged g)

/-- A function whose parameter is named as a local fails. -/
theorem countedRun_restores_failing :
    let r := Range.initial
    let e : Expr :=
      .call r (.arrow r ["y"] (.member r (.ident r "y") "b")) [.literal r .null]
    let f : Frame Unit := ⟨[("y", .bool true)], 1, ()⟩
    let failed := (run .none 3 e).run f
    ¬e.Sets "y" ∧ failed.1 = .error (.propertyOfNullish .null "b") ∧
      failed.2.env.lookup "y" = some (.bool true) := by
  intro r e f failed
  have hsets : ¬e.Sets "y" := by
    rintro (h | ⟨hc, h⟩)
    · cases h
    · simp only [e, Expr.parts, Expr.children, List.mem_cons, List.not_mem_nil, or_false] at hc
      rcases hc with rfl | rfl <;> rcases h with h | ⟨hc, -⟩
      · cases h
      · cases hc
      · cases h
      · cases hc
  have hrestores := countedRun_restores .none 3 e f .start 0 fun _ _ => .fail (.tooManyCalls 3)
  exact ⟨hsets, by with_unfolding_all rfl, (hrestores.2 "y" hsets).2⟩

end Eval

end ReactiveMarkup
