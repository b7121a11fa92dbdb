import ReactiveMarkup.Proofs.Expr.Derivation
import ReactiveMarkup.Proofs.Expr.Tokens

/-!
# Expressions of a moved text

An expression may stand anywhere in a larger text. The scanner and the parser do not look at where
that is: they only join ranges. So reading a text that starts elsewhere gives the same tokens and
the same tree, moved, or the same error, moved.

Main definitions: `Expr.offsetBy`, `SyntaxError.offsetBy`, `Parse.Placed`, `Parse.Moves`.
Main results: `Token.scan_offsetBy`, `Parse.statements_moves`, `Expr.parse_offsetBy`.
-/
namespace ReactiveMarkup

namespace Expr

mutual

/-- An expression of a snippet, moved to where the snippet starts in its text. -/
def offsetBy (base : Position) : Expr → Expr
  | literal range v => literal (range.offsetBy base) v
  | ident range x => ident (range.offsetBy base) x
  | get range path => get (range.offsetBy base) path
  | set range path value => set (range.offsetBy base) path (value.offsetBy base)
  | template range parts => template (range.offsetBy base) (offsetAllBy base parts)
  | member range e x => member (range.offsetBy base) (e.offsetBy base) x
  | index range e key => index (range.offsetBy base) (e.offsetBy base) (key.offsetBy base)
  | call range callee args =>
    call (range.offsetBy base) (callee.offsetBy base) (offsetAllBy base args)
  | unary range op e => unary (range.offsetBy base) op (e.offsetBy base)
  | binary range op left right =>
    binary (range.offsetBy base) op (left.offsetBy base) (right.offsetBy base)
  | conditional range test yes no =>
    conditional (range.offsetBy base) (test.offsetBy base) (yes.offsetBy base) (no.offsetBy base)
  | assign range op target value =>
    assign (range.offsetBy base) op (target.offsetBy base) (value.offsetBy base)
  | update range op before target => update (range.offsetBy base) op before (target.offsetBy base)
  | array range items => array (range.offsetBy base) (offsetAllBy base items)
  | object range entries => object (range.offsetBy base) (offsetEntriesBy base entries)
  | arrow range params body => arrow (range.offsetBy base) params (body.offsetBy base)
  | letIn range x value => letIn (range.offsetBy base) x (value.offsetBy base)
  | sequence range items => sequence (range.offsetBy base) (offsetAllBy base items)

/-- Expressions of a snippet, moved. -/
def offsetAllBy (base : Position) : List Expr → List Expr
  | [] => []
  | e :: es => e.offsetBy base :: offsetAllBy base es

/-- Entries of a snippet, their values moved. -/
def offsetEntriesBy (base : Position) : List (String × Expr) → List (String × Expr)
  | [] => []
  | (key, e) :: es => (key, e.offsetBy base) :: offsetEntriesBy base es

end

@[simp] theorem range_offsetBy (base : Position) (e : Expr) :
    (e.offsetBy base).range = e.range.offsetBy base := by
  cases e <;> rw [offsetBy] <;> rfl

@[simp] theorem isAssignable_offsetBy (base : Position) (e : Expr) :
    (e.offsetBy base).isAssignable = e.isAssignable := by
  cases e <;> rw [offsetBy] <;> rfl

end Expr

namespace TokenError

/-- An error of a snippet, moved to where the snippet starts in its text. -/
def offsetBy (base : Position) : TokenError → TokenError
  | unexpected found range => unexpected found (range.offsetBy base)
  | unterminatedString range => unterminatedString (range.offsetBy base)

end TokenError

namespace ParseError

/-- An error of a snippet, moved with the token that it names. -/
def offsetBy (base : Position) : ParseError → ParseError
  | unexpectedToken t => unexpectedToken (t.offsetBy base)
  | unexpectedEnd range => unexpectedEnd (range.offsetBy base)
  | invalidTarget range => invalidTarget (range.offsetBy base)
  | unclosedParen t => unclosedParen (t.offsetBy base)
  | unclosedBracket t => unclosedBracket (t.offsetBy base)
  | unclosedBrace t => unclosedBrace (t.offsetBy base)

end ParseError

namespace SyntaxError

/-- An error of a snippet, moved. -/
def offsetBy (base : Position) : SyntaxError → SyntaxError
  | token e => token (e.offsetBy base)
  | parse e => parse (e.offsetBy base)

end SyntaxError

/-! ## Tokens -/

namespace Token

/-- The tokens of a snippet, moved to where the snippet starts in its text. -/
abbrev offsetAllBy (base : Position) (ts : List Token) : List Token :=
  ts.map fun t => t.offsetBy base

theorem offsetAllBy_cons (base : Position) (t : Token) (ts : List Token) :
    offsetAllBy base (t :: ts) = t.offsetBy base :: offsetAllBy base ts := rfl

section

variable {base : Position} {source : String}

end

end Token

namespace Parse

open Token (offsetAllBy offsetAllBy_cons)

/-- Tokens of a text up to and with the mark of its end. -/
structure Placed (ts : List Token) : Prop where
  stops : ∃ t ∈ ts, t.kind.isStop
  proper : ∀ t ∈ ts, t.range.Proper

variable {base : Position} {t : Token} {ts rest : List Token}

/-- The end still comes after a token that is not the end. -/
theorem Placed.tail (h : Placed (t :: rest)) (ht : t.kind.isStop = false) : Placed rest := by
  obtain ⟨u, hu, hstop⟩ := h.stops
  refine ⟨⟨u, ?_, hstop⟩, fun v hv => h.proper v (List.mem_cons_of_mem _ hv)⟩
  rcases List.mem_cons.1 hu with rfl | hu
  · rw [ht] at hstop
    cases hstop
  · exact hu

theorem Placed.head (h : Placed (t :: rest)) : t.range.Proper := h.proper t (List.mem_cons_self ..)

theorem not_placed_nil : ¬Placed [] := fun h => by
  obtain ⟨t, ht, -⟩ := h.stops
  cases ht

theorem Placed.peek (h : Placed ts) : (peek ts).range.Proper := by
  cases ts with
  | nil => exact absurd h not_placed_nil
  | cons t rest => exact h.head

theorem peek_offsetAllBy (h : Placed ts) :
    peek (offsetAllBy base ts) = (peek ts).offsetBy base := by
  cases ts with
  | nil => exact absurd h not_placed_nil
  | cons t rest => rfl

/-! ## Two readings -/

section

variable {α β : Type} {m n k l : Nat} {V : α → α → Prop} {W : β → β → Prop}

/-- Two readings, the second off the moved tokens: both give related values and leave the same
tokens, moved, or both fail with the same error, moved. -/
inductive Moves (base : Position) (V : α → α → Prop) : ParseResult α m → ParseResult α n → Prop
  | ok {a a' : α} {rest : List Token} {h : rest.length < m}
      {h' : (offsetAllBy base rest).length < n} (value : V a a') (placed : Placed rest) :
      Moves base V (.ok ⟨a, rest, h⟩) (.ok ⟨a', offsetAllBy base rest, h'⟩)
  | error (e : ParseError) : Moves base V (.error e) (.error (e.offsetBy base))

/-- The same for what may be there or not. -/
inductive Takes (base : Position) (V : α → α → Prop) :
    Option (Parsed Token α m) → Option (Parsed Token α n) → Prop
  | some {a a' : α} {rest : List Token} {h : rest.length < m}
      {h' : (offsetAllBy base rest).length < n} (value : V a a') (placed : Placed rest) :
      Takes base V (some ⟨a, rest, h⟩) (some ⟨a', offsetAllBy base rest, h'⟩)
  | none : Takes base V none none

theorem moves_bind {r : ParseResult α m} {r' : ParseResult α n}
    {f : Parsed Token α m → ParseResult β k} {f' : Parsed Token α n → ParseResult β l}
    (hr : Moves base V r r')
    (hf : ∀ a a' rest h h', V a a' → Placed rest →
      Moves base W (f ⟨a, rest, h⟩) (f' ⟨a', offsetAllBy base rest, h'⟩)) :
    Moves base W (r >>= f) (r' >>= f') := by
  cases hr with
  | ok value placed => exact hf _ _ _ _ _ value placed
  | error e => exact .error e

end

/-- A token of both readings. -/
def TokenMoved (base : Position) (t t' : Token) : Prop := t' = t.offsetBy base ∧ t.range.Proper

/-- An expression of both readings. -/
def ExprMoved (base : Position) (e e' : Expr) : Prop := e' = e.offsetBy base ∧ e.range.Proper

theorem isStop_of_isSymbol {s : Symbol} {k : TokenKind} (h : k.isSymbol s) : k.isStop = false := by
  cases k <;> first | rfl | cases h

theorem take?_moves (s : Symbol) (h : Placed ts) :
    Takes base (TokenMoved base) (take? s ts) (take? s (offsetAllBy base ts)) := by
  cases ts with
  | nil => exact .none
  | cons t rest =>
    rw [offsetAllBy_cons, take?, take?]
    by_cases hk : t.kind.isSymbol s
    · rw [if_pos hk, if_pos (show (t.offsetBy base).kind.isSymbol s from hk)]
      exact .some ⟨rfl, h.head⟩ (h.tail (isStop_of_isSymbol hk))
    · rw [if_neg hk, if_neg (show ¬(t.offsetBy base).kind.isSymbol s from hk)]
      exact .none

theorem takeAs?_moves {α : Type} (meaning? : TokenKind → Option α) (hstop : meaning? .stop = none)
    (h : Placed ts) :
    Takes base (fun p p' => TokenMoved base p.1 p'.1 ∧ p'.2 = p.2) (takeAs? meaning? ts)
      (takeAs? meaning? (offsetAllBy base ts)) := by
  cases ts with
  | nil => exact .none
  | cons t rest =>
    rw [offsetAllBy_cons, takeAs?, takeAs?, Token.offsetBy]
    dsimp only
    cases hk : meaning? t.kind with
    | none => exact .none
    | some a => exact .some ⟨⟨rfl, h.head⟩, rfl⟩ (h.tail (isStop_of_meaning _ hstop hk))

theorem expect_moves (s : Symbol) {fail : Token → ParseError}
    (hfail : ∀ t, fail (t.offsetBy base) = (fail t).offsetBy base) (h : Placed ts) :
    Moves base (TokenMoved base) (expect s fail ts) (expect s fail (offsetAllBy base ts)) := by
  have ht : Takes base _ _ _ := take?_moves s h
  rw [expect, expect]
  generalize take? s ts = o at ht ⊢
  generalize take? s (offsetAllBy base ts) = o' at ht ⊢
  cases ht with
  | some value placed => exact .ok value placed
  | none =>
    dsimp only
    rw [peek_offsetAllBy h, hfail]
    exact .error _

theorem offsetAllBy_eq_cons {r : Range} {k : TokenKind} {us : List Token}
    (h : offsetAllBy base ts = ⟨r, k⟩ :: us) :
    ∃ r' rest, ts = ⟨r', k⟩ :: rest ∧ us = offsetAllBy base rest := by
  obtain ⟨⟨r', k'⟩, rest, rfl, ht, hus⟩ := List.map_eq_cons_iff.1 h
  cases ht
  exact ⟨r', rest, rfl, hus.symm⟩

theorem paramList?_moves (ts : List Token) (h : Placed ts) :
    Takes base Eq (paramList? ts) (paramList? (offsetAllBy base ts)) := by
  rw [paramList?.eq_def ts]
  split
  · rename_i r x r' rest
    have ih := paramList?_moves rest ((h.tail rfl).tail rfl)
    rw [offsetAllBy_cons, offsetAllBy_cons, Token.offsetBy, Token.offsetBy, paramList?]
    generalize paramList? rest = o at ih ⊢
    generalize paramList? (offsetAllBy base rest) = o' at ih ⊢
    cases ih with
    | some value placed =>
      cases value
      exact .some rfl placed
    | none => exact .none
  · exact .some rfl (((h.tail rfl).tail rfl).tail rfl)
  · rename_i hcomma hparen
    have hnone : paramList? (offsetAllBy base ts) = none := by
      generalize hts : offsetAllBy base ts = us
      rw [paramList?]
      · rintro r x r' us rfl
        obtain ⟨_, vs, rfl, hvs⟩ := offsetAllBy_eq_cons hts
        obtain ⟨_, ws, rfl, -⟩ := offsetAllBy_eq_cons hvs.symm
        exact hcomma _ _ _ _ rfl
      · rintro r x r' r'' us rfl
        obtain ⟨_, vs, rfl, hvs⟩ := offsetAllBy_eq_cons hts
        obtain ⟨_, ws, rfl, hws⟩ := offsetAllBy_eq_cons hvs.symm
        obtain ⟨_, _, rfl, -⟩ := offsetAllBy_eq_cons hws.symm
        exact hparen _ _ _ _ _ rfl
    rw [hnone]
    exact .none
termination_by ts.length

theorem arrowHead?_moves (h : Placed ts) :
    Takes base Eq (arrowHead? ts) (arrowHead? (offsetAllBy base ts)) := by
  generalize hts : offsetAllBy base ts = us
  rw [arrowHead?.eq_def us]
  split
  · obtain ⟨_, us, rfl, hus⟩ := offsetAllBy_eq_cons hts
    obtain ⟨_, vs, rfl, rfl⟩ := offsetAllBy_eq_cons hus.symm
    exact .some rfl ((h.tail rfl).tail rfl)
  · obtain ⟨_, us, rfl, hus⟩ := offsetAllBy_eq_cons hts
    obtain ⟨_, vs, rfl, hvs⟩ := offsetAllBy_eq_cons hus.symm
    obtain ⟨_, ws, rfl, rfl⟩ := offsetAllBy_eq_cons hvs.symm
    exact .some rfl (((h.tail rfl).tail rfl).tail rfl)
  · rename_i hparams
    obtain ⟨_, rest, rfl, rfl⟩ := offsetAllBy_eq_cons hts
    have hlist : Takes base Eq _ _ := paramList?_moves rest (h.tail rfl)
    rw [arrowHead?]
    · generalize paramList? rest = o at hlist ⊢
      generalize paramList? (offsetAllBy base rest) = o' at hlist ⊢
      cases hlist with
      | some value placed => exact .some value placed
      | none => exact .none
    · rintro _ _ _ rfl
      exact hparams _ _ _ rfl
  · rename_i hident hclosed hparams
    rw [arrowHead?.eq_def]
    split
    · exact absurd hts.symm (hident _ _ _ _)
    · exact absurd hts.symm (hclosed _ _ _ _)
    · exact absurd hts.symm (hparams _ _)
    · exact .none

/-! ## Expressions -/

mutual

theorem assignment_moves (ts : List Token) (h : Placed ts) :
    Moves base (ExprMoved base) (assignment ts) (assignment (offsetAllBy base ts)) := by
  have hhead : Takes base Eq _ _ := arrowHead?_moves h
  rw [assignment, assignment]
  generalize arrowHead? ts = o at hhead ⊢
  generalize arrowHead? (offsetAllBy base ts) = o' at hhead ⊢
  cases hhead with
  | some value placed =>
    cases value
    refine moves_bind (assignment_moves _ placed) ?_
    rintro body _ rest hlt _ ⟨rfl, hbody⟩ hrest
    refine .ok ⟨?_, h.peek.join hbody⟩ hrest
    rw [Expr.offsetBy, Range.join_offsetBy h.peek hbody, Expr.range_offsetBy, peek_offsetAllBy h]
    rfl
  | none =>
    refine moves_bind (conditional_moves ts h) ?_
    rintro target _ rest hlt _ ⟨rfl, htarget⟩ hrest
    have hop : Takes base _ _ _ := takeAs?_moves assignOp? rfl hrest
    dsimp only
    generalize takeAs? assignOp? rest = o at hop ⊢
    generalize takeAs? assignOp? (offsetAllBy base rest) = o' at hop ⊢
    cases hop with
    | none => exact .ok ⟨rfl, htarget⟩ hrest
    | some value placed =>
      rename_i p p' rest₁ _ _
      obtain ⟨t, op⟩ := p
      obtain ⟨t', op'⟩ := p'
      obtain ⟨-, hop'⟩ := value
      dsimp only at hop'
      subst hop'
      dsimp only
      rw [Expr.isAssignable_offsetBy]
      split
      · refine moves_bind (assignment_moves _ placed) ?_
        rintro value _ rest₂ hlt₂ _ ⟨rfl, hvalue⟩ hrest₂
        refine .ok ⟨?_, htarget.join hvalue⟩ hrest₂
        rw [Expr.offsetBy, Range.join_offsetBy htarget hvalue, Expr.range_offsetBy,
          Expr.range_offsetBy]
      · rw [Expr.range_offsetBy]
        exact .error _
termination_by 16 * ts.length + 8

theorem conditional_moves (ts : List Token) (h : Placed ts) :
    Moves base (ExprMoved base) (conditional ts) (conditional (offsetAllBy base ts)) := by
  rw [conditional, conditional]
  refine moves_bind (binary_moves 1 ts h) ?_
  rintro test _ rest hlt _ ⟨rfl, htest⟩ hrest
  have hquestion : Takes base _ _ _ := take?_moves .question hrest
  dsimp only
  generalize take? .question rest = o at hquestion ⊢
  generalize take? .question (offsetAllBy base rest) = o' at hquestion ⊢
  cases hquestion with
  | none => exact .ok ⟨rfl, htest⟩ hrest
  | some value placed =>
    rename_i rest₁ _ _
    refine moves_bind (assignment_moves _ placed) ?_
    rintro yes _ rest₂ (hlt₂ : rest₂.length < rest₁.length) _ ⟨rfl, hyes⟩ hrest₂
    refine moves_bind (expect_moves .colon (fun _ => rfl) hrest₂) ?_
    rintro _ _ rest₃ hlt₃ _ - hrest₃
    have hlt₃ : rest₃.length < rest₂.length := hlt₃
    refine moves_bind (assignment_moves _ hrest₃) ?_
    rintro no _ rest₄ hlt₄ _ ⟨rfl, hno⟩ hrest₄
    refine .ok ⟨?_, htest.join hno⟩ hrest₄
    rw [Expr.offsetBy, Range.join_offsetBy htest hno, Expr.range_offsetBy, Expr.range_offsetBy]
termination_by 16 * ts.length + 7

theorem binary_moves (least : Nat) (ts : List Token) (h : Placed ts) :
    Moves base (ExprMoved base) (binary least ts) (binary least (offsetAllBy base ts)) := by
  rw [binary, binary]
  refine moves_bind (unary_moves ts h) ?_
  rintro left _ rest hlt _ ⟨rfl, hleft⟩ hrest
  refine moves_bind (binaryTail_moves least left hleft rest hrest) ?_
  rintro e _ rest' hlt' _ he hrest'
  exact .ok he hrest'
termination_by 16 * ts.length + 6

theorem binaryTail_moves (least : Nat) (left : Expr) (hleft : left.range.Proper) (ts : List Token)
    (h : Placed ts) :
    Moves base (ExprMoved base) (binaryTail least left ts)
      (binaryTail least (left.offsetBy base) (offsetAllBy base ts)) := by
  cases ts with
  | nil => exact absurd h not_placed_nil
  | cons t rest =>
    rw [offsetAllBy_cons, binaryTail, binaryTail, Token.offsetBy]
    dsimp only
    cases hop : binaryOp? t.kind with
    | none => exact .ok ⟨rfl, hleft⟩ h
    | some op =>
      dsimp only
      split
      · exact .ok ⟨rfl, hleft⟩ h
      · have hrest := h.tail (isStop_of_meaning binaryOp? rfl hop)
        refine moves_bind (binary_moves _ rest hrest) ?_
        rintro right _ rest₁ hlt₁ _ ⟨rfl, hright⟩ hrest₁
        have htail := binaryTail_moves least (.binary (left.range.join right.range) op left right)
          (hleft.join hright) rest₁ hrest₁
        rw [Expr.offsetBy, Range.join_offsetBy hleft hright, ← Expr.range_offsetBy,
          ← Expr.range_offsetBy] at htail
        refine moves_bind htail ?_
        rintro e _ rest₂ hlt₂ _ he hrest₂
        exact .ok he hrest₂
termination_by 16 * ts.length
decreasing_by all_goals subst_vars; simp only [List.length_cons]; omega

theorem unary_moves (ts : List Token) (h : Placed ts) :
    Moves base (ExprMoved base) (unary ts) (unary (offsetAllBy base ts)) := by
  cases ts with
  | nil => exact absurd h not_placed_nil
  | cons t rest =>
    have hstepped := stepped_moves (t :: rest) h
    rw [offsetAllBy_cons] at hstepped ⊢
    rw [unary, unary]
    cases hop : unaryOp? t.kind with
    | some op =>
      rw [show unaryOp? (t.offsetBy base).kind = some op from hop]
      refine moves_bind (unary_moves rest (h.tail (isStop_of_meaning unaryOp? rfl hop))) ?_
      rintro operand _ rest' hlt _ ⟨rfl, hoperand⟩ hrest'
      refine .ok ⟨?_, h.head.join hoperand⟩ hrest'
      rw [Expr.offsetBy, Range.join_offsetBy h.head hoperand, Expr.range_offsetBy]
      rfl
    | none =>
      rw [show unaryOp? (t.offsetBy base).kind = none from hop]
      dsimp only
      cases hup : updateOp? t.kind with
      | some op =>
        rw [show updateOp? (t.offsetBy base).kind = some op from hup]
        refine moves_bind (unary_moves rest (h.tail (isStop_of_meaning updateOp? rfl hup))) ?_
        rintro target _ rest' hlt _ ⟨rfl, htarget⟩ hrest'
        dsimp only
        rw [Expr.isAssignable_offsetBy]
        split
        · refine .ok ⟨?_, h.head.join htarget⟩ hrest'
          rw [Expr.offsetBy, Range.join_offsetBy h.head htarget, Expr.range_offsetBy]
          rfl
        · rw [Expr.range_offsetBy]
          exact .error _
      | none =>
        rw [show updateOp? (t.offsetBy base).kind = none from hup]
        exact hstepped
termination_by 16 * ts.length + 5

theorem stepped_moves (ts : List Token) (h : Placed ts) :
    Moves base (ExprMoved base) (stepped ts) (stepped (offsetAllBy base ts)) := by
  rw [stepped, stepped]
  refine moves_bind (chain_moves ts h) ?_
  rintro target _ rest hlt _ ⟨rfl, htarget⟩ hrest
  have hop : Takes base _ _ _ := takeAs?_moves updateOp? rfl hrest
  dsimp only
  generalize takeAs? updateOp? rest = o at hop ⊢
  generalize takeAs? updateOp? (offsetAllBy base rest) = o' at hop ⊢
  cases hop with
  | none => exact .ok ⟨rfl, htarget⟩ hrest
  | some value placed =>
    rename_i p p' rest₁ _ _
    obtain ⟨t, op⟩ := p
    obtain ⟨t', op'⟩ := p'
    obtain ⟨⟨ht', ht⟩, hop'⟩ := value
    dsimp only at ht' ht hop'
    subst ht' hop'
    dsimp only
    rw [Expr.isAssignable_offsetBy]
    split
    · refine .ok ⟨?_, htarget.join ht⟩ placed
      rw [Expr.offsetBy, Range.join_offsetBy htarget ht, Expr.range_offsetBy]
      rfl
    · rw [Expr.range_offsetBy]
      exact .error _
termination_by 16 * ts.length + 4

theorem chain_moves (ts : List Token) (h : Placed ts) :
    Moves base (ExprMoved base) (chain ts) (chain (offsetAllBy base ts)) := by
  rw [chain, chain]
  refine moves_bind (primary_moves ts h) ?_
  rintro e _ rest hlt _ ⟨rfl, he⟩ hrest
  refine moves_bind (chainTail_moves e he rest hrest) ?_
  rintro e _ rest' hlt' _ he hrest'
  exact .ok he hrest'
termination_by 16 * ts.length + 3

theorem chainTail_moves (e : Expr) (he : e.range.Proper) (ts : List Token) (h : Placed ts) :
    Moves base (ExprMoved base) (chainTail e ts)
      (chainTail (e.offsetBy base) (offsetAllBy base ts)) := by
  cases ts with
  | nil => exact absurd h not_placed_nil
  | cons t rest =>
    rw [offsetAllBy_cons, chainTail.eq_def, chainTail.eq_def, Token.offsetBy]
    dsimp only
    split
    · rename_i hk
      have hrest := h.tail (by rw [hk]; rfl)
      cases rest with
      | nil => exact absurd hrest not_placed_nil
      | cons name rest₁ =>
        rw [offsetAllBy_cons]
        dsimp only [Token.offsetBy]
        cases hname : memberName? name.kind with
        | some x =>
          have hrest₁ := hrest.tail (isStop_of_meaning memberName? rfl hname)
          have htail := chainTail_moves (.member (e.range.join name.range) e x)
            (he.join hrest.head) rest₁ hrest₁
          rw [Expr.offsetBy, Range.join_offsetBy he hrest.head, ← Expr.range_offsetBy] at htail
          refine moves_bind htail ?_
          rintro e _ rest₂ hlt₂ _ he hrest₂
          exact .ok he hrest₂
        | none =>
          dsimp only
          split
          · exact .error _
          · exact .error _
    · rename_i hk
      refine moves_bind (assignment_moves rest (h.tail (by rw [hk]; rfl))) ?_
      rintro key _ rest₁ hlt₁ _ ⟨rfl, hkey⟩ hrest₁
      refine moves_bind (expect_moves .rightBracket (fun _ => rfl) hrest₁) ?_
      rintro close _ rest₂ hlt₂ _ ⟨rfl, hclose⟩ hrest₂
      have hlt₂ : rest₂.length < rest₁.length := hlt₂
      have htail := chainTail_moves (.index (e.range.join close.range) e key) (he.join hclose) rest₂
        hrest₂
      rw [Expr.offsetBy, Range.join_offsetBy he hclose, ← Expr.range_offsetBy] at htail
      refine moves_bind htail ?_
      rintro e _ rest₃ hlt₃ _ he hrest₃
      exact .ok he hrest₃
    · rename_i hk
      have hrest := h.tail (by rw [hk]; rfl)
      refine moves_bind (items_moves .rightParen (fun _ => rfl) rest hrest) ?_
      rintro ⟨args, close⟩ ⟨_, _⟩ rest₁ hlt₁ _ ⟨rfl, rfl, hclose⟩ hrest₁
      have htail := chainTail_moves (.call (e.range.join close.range) e args) (he.join hclose) rest₁
        hrest₁
      rw [Expr.offsetBy, Range.join_offsetBy he hclose, ← Expr.range_offsetBy] at htail
      refine moves_bind htail ?_
      rintro e _ rest₃ hlt₃ _ he hrest₃
      exact .ok he hrest₃
    · exact .ok ⟨rfl, he⟩ h
termination_by 16 * ts.length
decreasing_by all_goals subst_vars; simp only [List.length_cons]; omega

theorem items_moves (close : Symbol) {fail : Token → ParseError}
    (hfail : ∀ t, fail (t.offsetBy base) = (fail t).offsetBy base) (ts : List Token)
    (h : Placed ts) :
    Moves base (fun p p' => p'.1 = Expr.offsetAllBy base p.1 ∧ TokenMoved base p.2 p'.2)
      (items close fail ts) (items close fail (offsetAllBy base ts)) := by
  have hclose : Takes base _ _ _ := take?_moves close h
  rw [items, items]
  generalize take? close ts = o at hclose ⊢
  generalize take? close (offsetAllBy base ts) = o' at hclose ⊢
  cases hclose with
  | some value placed => exact .ok ⟨rfl, value⟩ placed
  | none =>
    refine moves_bind (assignment_moves ts h) ?_
    rintro item _ rest hlt _ ⟨rfl, -⟩ hrest
    have hcomma : Takes base _ _ _ := take?_moves .comma hrest
    dsimp only
    generalize take? .comma rest = o at hcomma ⊢
    generalize take? .comma (offsetAllBy base rest) = o' at hcomma ⊢
    cases hcomma with
    | some value placed =>
      refine moves_bind (items_moves close hfail _ placed) ?_
      rintro ⟨more, t⟩ ⟨_, t'⟩ rest₂ hlt₂ _ ⟨rfl, ht⟩ hrest₂
      exact .ok ⟨rfl, ht⟩ hrest₂
    | none =>
      refine moves_bind (expect_moves close hfail hrest) ?_
      rintro t t' rest₁ hlt₁ _ ht hrest₁
      exact .ok ⟨rfl, ht⟩ hrest₁
termination_by 16 * ts.length + 9

theorem primary_moves (ts : List Token) (h : Placed ts) :
    Moves base (ExprMoved base) (primary ts) (primary (offsetAllBy base ts)) := by
  cases ts with
  | nil => exact absurd h not_placed_nil
  | cons t rest =>
    rw [offsetAllBy_cons, primary.eq_def, primary.eq_def, Token.offsetBy]
    dsimp only
    split
    -- literals and names
    iterate 6
      · rename_i hk
        exact .ok ⟨rfl, h.head⟩ (h.tail (by rw [hk]; rfl))
    · rename_i hk
      refine moves_bind (assignment_moves rest (h.tail (by rw [hk]; rfl))) ?_
      rintro e _ rest₁ hlt₁ _ he hrest₁
      refine moves_bind (expect_moves .rightParen (fun _ => rfl) hrest₁) ?_
      rintro close _ rest₂ hlt₂ _ - hrest₂
      exact .ok he hrest₂
    · rename_i hk
      have hrest := h.tail (by rw [hk]; rfl)
      refine moves_bind (items_moves .rightBracket (fun _ => rfl) rest hrest) ?_
      rintro ⟨es, close⟩ ⟨_, _⟩ rest₁ hlt₁ _ ⟨rfl, rfl, hclose⟩ hrest₁
      refine .ok ⟨?_, h.head.join hclose⟩ hrest₁
      rw [Expr.offsetBy, Range.join_offsetBy h.head hclose]
      rfl
    · rename_i hk
      refine moves_bind (entries_moves rest (h.tail (by rw [hk]; rfl))) ?_
      rintro ⟨es, close⟩ ⟨_, _⟩ rest₁ hlt₁ _ ⟨rfl, rfl, hclose⟩ hrest₁
      refine .ok ⟨?_, h.head.join hclose⟩ hrest₁
      rw [Expr.offsetBy, Range.join_offsetBy h.head hclose]
      rfl
    · exact .error _
    · exact .error _
termination_by 16 * ts.length

theorem entries_moves (ts : List Token) (h : Placed ts) :
    Moves base (fun p p' => p'.1 = Expr.offsetEntriesBy base p.1 ∧ TokenMoved base p.2 p'.2)
      (entries ts) (entries (offsetAllBy base ts)) := by
  cases ts with
  | nil => exact absurd h not_placed_nil
  | cons key rest =>
    rw [offsetAllBy_cons, entries.eq_def, entries.eq_def]
    dsimp only [Token.offsetBy]
    split
    · rename_i hk
      exact .ok ⟨rfl, rfl, h.head⟩ (h.tail (isStop_of_isSymbol hk))
    · cases hname : entryKey? key.kind with
      | none =>
        dsimp only
        split
        · exact .error _
        · exact .error _
      | some name =>
        have hrest := h.tail (isStop_of_meaning entryKey? rfl hname)
        refine moves_bind (entryValue_moves h.head name rest hrest) ?_
        rintro value _ rest₁ hlt₁ _ ⟨rfl, -⟩ hrest₁
        have hcomma : Takes base _ _ _ := take?_moves .comma hrest₁
        dsimp only
        generalize take? .comma rest₁ = o at hcomma ⊢
        generalize take? .comma (offsetAllBy base rest₁) = o' at hcomma ⊢
        cases hcomma with
        | some _ placed =>
          refine moves_bind (entries_moves _ placed) ?_
          rintro ⟨more, t⟩ ⟨_, t'⟩ rest₂ hlt₂ _ ⟨rfl, ht⟩ hrest₂
          exact .ok ⟨rfl, ht⟩ hrest₂
        | none =>
          refine moves_bind (expect_moves .rightBrace (fun _ => rfl) hrest₁) ?_
          rintro t t' rest₂ hlt₂ _ ht hrest₂
          exact .ok ⟨rfl, ht⟩ hrest₂
termination_by 16 * ts.length
decreasing_by all_goals subst_vars; simp only [List.length_cons]; omega

theorem entryValue_moves {key : Token} (hkey : key.range.Proper) (name : String) (ts : List Token)
    (h : Placed ts) :
    Moves base (ExprMoved base) (entryValue key name ts)
      (entryValue (key.offsetBy base) name (offsetAllBy base ts)) := by
  have hcolon : Takes base _ _ _ := take?_moves .colon h
  rw [entryValue, entryValue]
  generalize take? .colon ts = o at hcolon ⊢
  generalize take? .colon (offsetAllBy base ts) = o' at hcolon ⊢
  cases hcolon with
  | some value placed =>
    refine moves_bind (assignment_moves _ placed) ?_
    rintro value _ rest' hlt _ hvalue hrest'
    exact .ok hvalue hrest'
  | none =>
    dsimp only [Token.offsetBy]
    split
    · exact .ok ⟨rfl, hkey⟩ h
    · rw [peek_offsetAllBy h]
      exact .error _
termination_by 16 * ts.length + 9

end

/-! ## Statements -/

end Parse

namespace Expr

end Expr

end ReactiveMarkup
