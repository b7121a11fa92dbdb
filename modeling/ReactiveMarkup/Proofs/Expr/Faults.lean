import ReactiveMarkup.Expr.Diagnostic
import ReactiveMarkup.Proofs.Expr.Derivation
import ReactiveMarkup.Proofs.Expr.Settled
import ReactiveMarkup.Proofs.Expr.Tokens

/-!
# Where an expression is at fault

The parser and the anchoring of names make no places up. A range is that of a token or the join of two
ranges, so what holds of the ranges of tokens, and of the join of any two ranges for which it holds, holds
of every node of a tree and of every error. In particular each of them starts where some character of
the text stands, or at its end.

Main definitions: `Position.Along`, `Parse.Holds`, `Parse.Tracks`, `Expr.Ranged`, `Anchoring.Blames`.
Main results: `Parse.statements_tracks`, `Expr.parse_along`, `Expr.anchor_blames`.
-/
namespace ReactiveMarkup

/-- What machine words keep of the position of a character of a text that starts at `base`, or of its
end. -/
def Position.KeptAlong (base : Position) (cs : List Char) (p : Position) : Prop :=
  ∃ q, base.Along cs q ∧ p = q.stored

namespace Expr

/-- All nodes have ranges of which `P` holds. -/
def Ranged (P : Range → Prop) (e : Expr) : Prop := ∀ d ∈ e.nodes, P d.range

variable {P : Range → Prop} {e : Expr}

theorem ranged_iff : Ranged P e ↔ P e.range ∧ ∀ c ∈ e.children, Ranged P c := forall_nodes_iff

theorem Ranged.range (h : Ranged P e) : P e.range := h e (self_mem_nodes e)

end Expr

namespace Parse

open ReactiveMarkup.Expr (Ranged ranged_iff)

/-- Tokens up to and with the mark of the end; `P` holds of their ranges, and of the join of two ranges
of which it holds. -/
structure Holds (P : Range → Prop) (ts : List Token) : Prop where
  ends : Ends ts
  ranges : ∀ t ∈ ts, P t.range
  join : ∀ r s, P r → P s → P (r.join s)

variable {P : Range → Prop} {t : Token} {ts rest : List Token}

namespace Holds

theorem head (h : Holds P (t :: rest)) : P t.range := h.ranges t (List.mem_cons_self ..)

theorem tail (h : Holds P (t :: rest)) (ht : t.kind.isStop = false) : Holds P rest :=
  ⟨h.ends.tail ht, fun u hu => h.ranges u (List.mem_cons_of_mem _ hu), h.join⟩

theorem peek (h : Holds P ts) : P (peek ts).range := h.ranges _ h.ends.peek_mem

end Holds

theorem not_holds_nil : ¬Holds P [] := fun h => not_ends_nil h.ends

section

variable {α β : Type} {m n : Nat} {V : α → Prop} {W : β → Prop}

/-- A reading: `V` holds of its value, and `P` of the ranges of the tokens that it leaves, or of the
range of its error. -/
inductive Tracks (P : Range → Prop) (V : α → Prop) : ParseResult α m → Prop
  | ok {a : α} {rest : List Token} {h : rest.length < m} (value : V a) (left : Holds P rest) :
      Tracks P V (.ok ⟨a, rest, h⟩)
  | error {e : ParseError} (range : P e.range) : Tracks P V (.error e)

/-- The same for what may be there or not. -/
inductive TracksOption (P : Range → Prop) (V : α → Prop) : Option (Parsed Token α m) → Prop
  | some {a : α} {rest : List Token} {h : rest.length < m} (value : V a) (left : Holds P rest) :
      TracksOption P V (some ⟨a, rest, h⟩)
  | none : TracksOption P V none

theorem tracks_bind {r : ParseResult α m} {f : Parsed Token α m → ParseResult β n}
    (hr : Tracks P V r) (hf : ∀ a rest h, V a → Holds P rest → Tracks P W (f ⟨a, rest, h⟩)) :
    Tracks P W (r >>= f) := by
  cases hr with
  | ok value left => exact hf _ _ _ value left
  | error range => exact .error range

end

theorem take?_tracks (s : Symbol) (h : Holds P ts) :
    TracksOption P (fun t => P t.range) (take? s ts) := by
  cases ts with
  | nil => exact .none
  | cons t rest =>
    rw [take?]
    split
    · rename_i hk
      exact .some h.head (h.tail (by rw [eq_symbol_of_isSymbol hk]; rfl))
    · exact .none

theorem takeAs?_tracks {α : Type} (meaning? : TokenKind → Option α) (hstop : meaning? .stop = none)
    (h : Holds P ts) : TracksOption P (fun p => P p.1.range) (takeAs? meaning? ts) := by
  cases ts with
  | nil => exact .none
  | cons t rest =>
    rw [takeAs?]
    cases hk : meaning? t.kind with
    | none => exact .none
    | some a => exact .some h.head (h.tail (isStop_of_meaning meaning? hstop hk))

theorem expect_tracks (s : Symbol) {fail : Token → ParseError} (hfail : ∀ t, (fail t).range = t.range)
    (h : Holds P ts) : Tracks P (fun t => P t.range) (expect s fail ts) := by
  have ht := take?_tracks s h
  rw [expect]
  generalize take? s ts = o at ht ⊢
  cases ht with
  | some value left => exact .ok value left
  | none => exact .error (by rw [hfail]; exact h.peek)

theorem paramList?_tracks (ts : List Token) (h : Holds P ts) :
    TracksOption P (fun _ => True) (paramList? ts) := by
  fun_induction paramList? ts with
  | case1 r x r' rest xs rest' hlt hmore ih =>
    have hrest := ih ((h.tail rfl).tail rfl)
    rw [hmore] at hrest
    cases hrest with
    | some _ left => exact .some trivial left
  | case2 => exact .none
  | case3 => exact .some trivial (((h.tail rfl).tail rfl).tail rfl)
  | case4 => exact .none

theorem arrowHead?_tracks (h : Holds P ts) : TracksOption P (fun _ => True) (arrowHead? ts) := by
  rw [arrowHead?.eq_def]
  split
  · exact .some trivial ((h.tail rfl).tail rfl)
  · exact .some trivial (((h.tail rfl).tail rfl).tail rfl)
  · rename_i r rest _
    have hrest := paramList?_tracks rest (h.tail rfl)
    generalize paramList? rest = o at hrest ⊢
    cases hrest with
    | some _ left => exact .some trivial left
    | none => exact .none
  · exact .none

/-! ## Expressions -/

mutual

theorem assignment_tracks (ts : List Token) (h : Holds P ts) :
    Tracks P (Ranged P) (assignment ts) := by
  have hhead := arrowHead?_tracks h
  rw [assignment]
  generalize arrowHead? ts = o at hhead ⊢
  cases hhead with
  | some _ left =>
    refine tracks_bind (assignment_tracks _ left) ?_
    intro body rest hlt hbody hrest
    exact .ok (ranged_iff.2 ⟨h.join _ _ h.peek hbody.range, by simpa [Expr.children] using hbody⟩) hrest
  | none =>
    refine tracks_bind (conditional_tracks ts h) ?_
    intro target rest hlt htarget hrest
    have hop := takeAs?_tracks assignOp? rfl hrest
    dsimp only
    generalize takeAs? assignOp? rest = o at hop ⊢
    cases hop with
    | none => exact .ok htarget hrest
    | some value left =>
      dsimp only
      split
      · refine tracks_bind (assignment_tracks _ left) ?_
        intro value rest₂ hlt₂ hvalue hrest₂
        refine .ok (ranged_iff.2 ⟨h.join _ _ htarget.range hvalue.range, ?_⟩) hrest₂
        simpa [Expr.children] using ⟨htarget, hvalue⟩
      · exact .error htarget.range
termination_by 16 * ts.length + 8

theorem conditional_tracks (ts : List Token) (h : Holds P ts) :
    Tracks P (Ranged P) (conditional ts) := by
  rw [conditional]
  refine tracks_bind (binary_tracks 1 ts h) ?_
  intro test rest hlt htest hrest
  have hquestion := take?_tracks .question hrest
  dsimp only
  generalize take? .question rest = o at hquestion ⊢
  cases hquestion with
  | none => exact .ok htest hrest
  | @some _ rest₁ _ _ left =>
    refine tracks_bind (assignment_tracks _ left) ?_
    intro yes rest₂ (hlt₂ : rest₂.length < rest₁.length) hyes hrest₂
    refine tracks_bind (expect_tracks .colon (fun _ => rfl) hrest₂) ?_
    intro _ rest₃ hlt₃ _ hrest₃
    have hlt₃ : rest₃.length < rest₂.length := hlt₃
    refine tracks_bind (assignment_tracks _ hrest₃) ?_
    intro no rest₄ hlt₄ hno hrest₄
    refine .ok (ranged_iff.2 ⟨h.join _ _ htest.range hno.range, ?_⟩) hrest₄
    simpa [Expr.children] using ⟨htest, hyes, hno⟩
termination_by 16 * ts.length + 7

theorem binary_tracks (least : Nat) (ts : List Token) (h : Holds P ts) :
    Tracks P (Ranged P) (binary least ts) := by
  rw [binary]
  refine tracks_bind (unary_tracks ts h) ?_
  intro left rest hlt hleft hrest
  refine tracks_bind (binaryTail_tracks least hleft rest hrest) ?_
  intro e rest' hlt' he hrest'
  exact .ok he hrest'
termination_by 16 * ts.length + 6

theorem binaryTail_tracks (least : Nat) {left : Expr} (hleft : Ranged P left) (ts : List Token)
    (h : Holds P ts) : Tracks P (Ranged P) (binaryTail least left ts) := by
  cases ts with
  | nil => exact absurd h not_holds_nil
  | cons t rest =>
    rw [binaryTail]
    cases hop : binaryOp? t.kind with
    | none => exact .ok hleft h
    | some op =>
      dsimp only
      split
      · exact .ok hleft h
      · refine tracks_bind
          (binary_tracks _ rest (h.tail (isStop_of_meaning binaryOp? rfl hop))) ?_
        intro right rest₁ hlt₁ hright hrest₁
        have hboth : Ranged P (.binary (left.range.join right.range) op left right) := by
          refine ranged_iff.2 ⟨h.join _ _ hleft.range hright.range, ?_⟩
          simpa [Expr.children] using ⟨hleft, hright⟩
        refine tracks_bind (binaryTail_tracks least hboth rest₁ hrest₁) ?_
        intro e rest₂ hlt₂ he hrest₂
        exact .ok he hrest₂
termination_by 16 * ts.length
decreasing_by all_goals subst_vars; simp only [List.length_cons]; omega

theorem unary_tracks (ts : List Token) (h : Holds P ts) : Tracks P (Ranged P) (unary ts) := by
  cases ts with
  | nil => exact absurd h not_holds_nil
  | cons t rest =>
    have hstepped := stepped_tracks (t :: rest) h
    rw [unary]
    cases hop : unaryOp? t.kind with
    | some op =>
      refine tracks_bind (unary_tracks rest (h.tail (isStop_of_meaning unaryOp? rfl hop))) ?_
      intro operand rest' hlt hoperand hrest'
      refine .ok (ranged_iff.2 ⟨h.join _ _ h.head hoperand.range, ?_⟩) hrest'
      simpa [Expr.children] using hoperand
    | none =>
      dsimp only
      cases hup : updateOp? t.kind with
      | some op =>
        refine tracks_bind (unary_tracks rest (h.tail (isStop_of_meaning updateOp? rfl hup))) ?_
        intro target rest' hlt htarget hrest'
        dsimp only
        split
        · refine .ok (ranged_iff.2 ⟨h.join _ _ h.head htarget.range, ?_⟩) hrest'
          simpa [Expr.children] using htarget
        · exact .error htarget.range
      | none => exact hstepped
termination_by 16 * ts.length + 5

theorem stepped_tracks (ts : List Token) (h : Holds P ts) : Tracks P (Ranged P) (stepped ts) := by
  rw [stepped]
  refine tracks_bind (chain_tracks ts h) ?_
  intro target rest hlt htarget hrest
  have hop := takeAs?_tracks updateOp? rfl hrest
  dsimp only
  generalize takeAs? updateOp? rest = o at hop ⊢
  cases hop with
  | none => exact .ok htarget hrest
  | some value left =>
    dsimp only
    split
    · refine .ok (ranged_iff.2 ⟨h.join _ _ htarget.range value, ?_⟩) left
      simpa [Expr.children] using htarget
    · exact .error htarget.range
termination_by 16 * ts.length + 4

theorem chain_tracks (ts : List Token) (h : Holds P ts) : Tracks P (Ranged P) (chain ts) := by
  rw [chain]
  refine tracks_bind (primary_tracks ts h) ?_
  intro e rest hlt he hrest
  refine tracks_bind (chainTail_tracks he rest hrest) ?_
  intro e rest' hlt' he hrest'
  exact .ok he hrest'
termination_by 16 * ts.length + 3

theorem chainTail_tracks {e : Expr} (he : Ranged P e) (ts : List Token) (h : Holds P ts) :
    Tracks P (Ranged P) (chainTail e ts) := by
  cases ts with
  | nil => exact absurd h not_holds_nil
  | cons t rest =>
    rw [chainTail.eq_def]
    dsimp only
    split
    · rename_i hk
      have hrest := h.tail (by rw [hk]; rfl)
      cases rest with
      | nil => exact absurd hrest not_holds_nil
      | cons name rest₁ =>
        dsimp only
        cases hname : memberName? name.kind with
        | some x =>
          have hmember : Ranged P (.member (e.range.join name.range) e x) := by
            refine ranged_iff.2 ⟨h.join _ _ he.range hrest.head, ?_⟩
            simpa [Expr.children] using he
          refine tracks_bind (chainTail_tracks hmember rest₁
            (hrest.tail (isStop_of_meaning memberName? rfl hname))) ?_
          intro e rest₂ hlt₂ he hrest₂
          exact .ok he hrest₂
        | none =>
          dsimp only
          split
          · exact .error hrest.head
          · exact .error hrest.head
    · rename_i hk
      refine tracks_bind (assignment_tracks rest (h.tail (by rw [hk]; rfl))) ?_
      intro key rest₁ hlt₁ hkey hrest₁
      refine tracks_bind (expect_tracks .rightBracket (fun _ => rfl) hrest₁) ?_
      intro close rest₂ hlt₂ hclose hrest₂
      have hlt₂ : rest₂.length < rest₁.length := hlt₂
      have hindex : Ranged P (.index (e.range.join close.range) e key) := by
        refine ranged_iff.2 ⟨h.join _ _ he.range hclose, ?_⟩
        simpa [Expr.children] using ⟨he, hkey⟩
      refine tracks_bind (chainTail_tracks hindex rest₂ hrest₂) ?_
      intro e rest₃ hlt₃ he hrest₃
      exact .ok he hrest₃
    · rename_i hk
      refine tracks_bind (items_tracks .rightParen (fun _ => rfl) rest (h.tail (by rw [hk]; rfl))) ?_
      rintro ⟨args, close⟩ rest₁ hlt₁ ⟨hargs, hclose⟩ hrest₁
      have hcall : Ranged P (.call (e.range.join close.range) e args) := by
        refine ranged_iff.2 ⟨h.join _ _ he.range hclose, ?_⟩
        simpa [Expr.children] using ⟨he, hargs⟩
      refine tracks_bind (chainTail_tracks hcall rest₁ hrest₁) ?_
      intro e rest₂ hlt₂ he hrest₂
      exact .ok he hrest₂
    · exact .ok he h
termination_by 16 * ts.length
decreasing_by all_goals subst_vars; simp only [List.length_cons]; omega

theorem items_tracks (close : Symbol) {fail : Token → ParseError}
    (hfail : ∀ t, (fail t).range = t.range) (ts : List Token) (h : Holds P ts) :
    Tracks P (fun p => (∀ e ∈ p.1, Ranged P e) ∧ P p.2.range) (items close fail ts) := by
  have hclose := take?_tracks close h
  rw [items]
  generalize take? close ts = o at hclose ⊢
  cases hclose with
  | some value left => exact .ok ⟨by simp, value⟩ left
  | none =>
    refine tracks_bind (assignment_tracks ts h) ?_
    intro item rest hlt hitem hrest
    have hcomma := take?_tracks .comma hrest
    dsimp only
    generalize take? .comma rest = o at hcomma ⊢
    cases hcomma with
    | some _ left =>
      refine tracks_bind (items_tracks close hfail _ left) ?_
      rintro ⟨more, t⟩ rest₂ hlt₂ ⟨hmore, ht⟩ hrest₂
      exact .ok ⟨List.forall_mem_cons.2 ⟨hitem, hmore⟩, ht⟩ hrest₂
    | none =>
      refine tracks_bind (expect_tracks close hfail hrest) ?_
      intro t rest₁ hlt₁ ht hrest₁
      exact .ok ⟨List.forall_mem_singleton.2 hitem, ht⟩ hrest₁
termination_by 16 * ts.length + 9

theorem primary_tracks (ts : List Token) (h : Holds P ts) : Tracks P (Ranged P) (primary ts) := by
  cases ts with
  | nil => exact absurd h not_holds_nil
  | cons t rest =>
    rw [primary.eq_def]
    dsimp only
    split
    -- literals and names
    iterate 6
      · rename_i hk
        exact .ok (ranged_iff.2 ⟨h.head, by simp [Expr.children]⟩) (h.tail (by rw [hk]; rfl))
    · rename_i hk
      refine tracks_bind (assignment_tracks rest (h.tail (by rw [hk]; rfl))) ?_
      intro e rest₁ hlt₁ he hrest₁
      refine tracks_bind (expect_tracks .rightParen (fun _ => rfl) hrest₁) ?_
      intro _ rest₂ hlt₂ _ hrest₂
      exact .ok he hrest₂
    · rename_i hk
      refine tracks_bind (items_tracks .rightBracket (fun _ => rfl) rest (h.tail (by rw [hk]; rfl))) ?_
      rintro ⟨es, close⟩ rest₁ hlt₁ ⟨hes, hclose⟩ hrest₁
      exact .ok (ranged_iff.2 ⟨h.join _ _ h.head hclose, hes⟩) hrest₁
    · rename_i hk
      refine tracks_bind (entries_tracks rest (h.tail (by rw [hk]; rfl))) ?_
      rintro ⟨es, close⟩ rest₁ hlt₁ ⟨hes, hclose⟩ hrest₁
      exact .ok (ranged_iff.2 ⟨h.join _ _ h.head hclose, hes⟩) hrest₁
    · exact .error h.head
    · exact .error h.head
termination_by 16 * ts.length

theorem entries_tracks (ts : List Token) (h : Holds P ts) :
    Tracks P (fun p => (∀ e ∈ p.1.map Prod.snd, Ranged P e) ∧ P p.2.range) (entries ts) := by
  cases ts with
  | nil => exact absurd h not_holds_nil
  | cons key rest =>
    rw [entries.eq_def]
    dsimp only
    split
    · rename_i hk
      exact .ok ⟨by simp, h.head⟩ (h.tail (by rw [eq_symbol_of_isSymbol hk]; rfl))
    · cases hname : entryKey? key.kind with
      | none =>
        dsimp only
        split
        · exact .error h.head
        · exact .error h.head
      | some name =>
        refine tracks_bind (entryValue_tracks h.head name rest
          (h.tail (isStop_of_meaning entryKey? rfl hname))) ?_
        intro value rest₁ hlt₁ hvalue hrest₁
        have hcomma := take?_tracks .comma hrest₁
        dsimp only
        generalize take? .comma rest₁ = o at hcomma ⊢
        cases hcomma with
        | some _ left =>
          refine tracks_bind (entries_tracks _ left) ?_
          rintro ⟨more, t⟩ rest₂ hlt₂ ⟨hmore, ht⟩ hrest₂
          exact .ok ⟨List.forall_mem_cons.2 ⟨hvalue, hmore⟩, ht⟩ hrest₂
        | none =>
          refine tracks_bind (expect_tracks .rightBrace (fun _ => rfl) hrest₁) ?_
          intro t rest₂ hlt₂ ht hrest₂
          exact .ok ⟨List.forall_mem_singleton.2 hvalue, ht⟩ hrest₂
termination_by 16 * ts.length
decreasing_by all_goals subst_vars; simp only [List.length_cons]; omega

theorem entryValue_tracks {key : Token} (hkey : P key.range) (name : String) (ts : List Token)
    (h : Holds P ts) : Tracks P (Ranged P) (entryValue key name ts) := by
  have hcolon := take?_tracks .colon h
  rw [entryValue]
  generalize take? .colon ts = o at hcolon ⊢
  cases hcolon with
  | some _ left =>
    refine tracks_bind (assignment_tracks _ left) ?_
    intro value rest' hlt hvalue hrest'
    exact .ok hvalue hrest'
  | none =>
    dsimp only
    split
    · exact .ok (ranged_iff.2 ⟨hkey, by simp [Expr.children]⟩) h
    · exact .error h.peek
termination_by 16 * ts.length + 9

end

/-! ## Statements -/

theorem statement_tracks (ts : List Token) (h : Holds P ts) :
    Tracks P (Ranged P) (statement ts) := by
  rw [statement.eq_def]
  split
  · have hname := h.tail rfl
    dsimp only
    split
    · rename_i hk
      refine tracks_bind (expect_tracks .equal (fun _ => rfl) (hname.tail (by rw [hk]; rfl))) ?_
      intro _ rest₁ hlt₁ _ hrest₁
      refine tracks_bind (assignment_tracks _ hrest₁) ?_
      intro value rest₂ hlt₂ hvalue hrest₂
      refine .ok (ranged_iff.2 ⟨h.join _ _ h.head hvalue.range, ?_⟩) hrest₂
      simpa [Expr.children] using hvalue
    · exact .error hname.head
    · exact .error hname.head
  · exact assignment_tracks ts h

theorem holds_dropWhile {p : Token → Bool} (hp : ∀ t, t.kind.isStop → p t = false)
    (h : Holds P ts) : Holds P (ts.dropWhile p) := by
  induction ts with
  | nil => exact absurd h not_holds_nil
  | cons t rest ih =>
    rw [List.dropWhile_cons]
    split
    · rename_i ht
      refine ih (h.tail ?_)
      cases hstop : t.kind.isStop with
      | false => rfl
      | true => exact absurd ht (by rw [hp t hstop]; decide)
    · exact h

/-- Statements have the ranges of tokens and joins of these, and so has what ends them and every error. -/
theorem statements_tracks (ts : List Token) (h : Holds P ts) :
    (∀ es last, statements ts = .ok (es, last) → (∀ e ∈ es, Ranged P e) ∧ P last) ∧
      ∀ e, statements ts = .error e → P e.range := by
  have hus : Holds P (ts.dropWhile fun t => t.kind.isSymbol .semicolon) := by
    refine holds_dropWhile (fun t ht => ?_) h
    revert ht
    cases t.kind <;> simp [TokenKind.isStop, TokenKind.isSymbol]
  have hle : (ts.dropWhile fun t => t.kind.isSymbol .semicolon).length ≤ ts.length :=
    (List.dropWhile_sublist _).length_le
  rw [statements]
  generalize ts.dropWhile (fun t => t.kind.isSymbol .semicolon) = us at hus hle ⊢
  have hfirst := statement_tracks us hus
  generalize statement us = r at hfirst ⊢
  by_cases hend : (peek us).kind.isStop
  · rw [if_pos hend]
    refine ⟨fun es last heq => ?_, fun e heq => by cases heq⟩
    cases heq
    exact ⟨by simp, hus.peek⟩
  rw [if_neg hend]
  cases hfirst with
  | error range =>
    refine ⟨fun es last heq => (by cases heq), fun e heq => ?_⟩
    cases heq
    exact range
  | @ok first rest hlt hfirst hrest =>
    obtain ⟨hok, herror⟩ := statements_tracks rest hrest
    simp only [bind, Except.bind]
    split
    · cases hmore : statements rest with
      | error e =>
        refine ⟨fun es last heq => (by cases heq), fun e heq => ?_⟩
        cases heq
        exact herror _ hmore
      | ok more =>
        obtain ⟨hes, hlast⟩ := hok _ _ hmore
        refine ⟨fun es last heq => ?_, fun e heq => by cases heq⟩
        cases heq
        exact ⟨List.forall_mem_cons.2 ⟨hfirst, hes⟩, hlast⟩
    · refine ⟨fun es last heq => (by cases heq), fun e heq => ?_⟩
      cases heq
      exact hrest.peek
termination_by ts.length

end Parse

namespace Expr

open Parse

/-- The tree of a token list has the ranges of tokens and joins of these, and so has its error. -/
theorem ofTokens_tracks {P : Range → Prop} {ts : List Token} (h : Holds P ts) :
    (∀ e, ofTokens ts = .ok e → Ranged P e) ∧ ∀ error, ofTokens ts = .error error → P error.range := by
  obtain ⟨hok, herror⟩ := statements_tracks ts h
  rw [ofTokens]
  cases hstatements : statements ts with
  | error error =>
    refine ⟨fun e heq => (by cases heq), fun _ heq => ?_⟩
    cases heq
    exact herror _ hstatements
  | ok r =>
    obtain ⟨es, last⟩ := r
    obtain ⟨hes, hlast⟩ := hok _ _ hstatements
    cases es with
    | nil =>
      refine ⟨fun e heq => (by cases heq), fun _ heq => ?_⟩
      cases heq
      exact hlast
    | cons e es =>
      refine ⟨fun _ heq => ?_, fun _ heq => (by cases es <;> cases heq)⟩
      cases es with
      | nil =>
        cases heq
        exact hes _ (List.mem_singleton_self _)
      | cons d ds =>
        cases heq
        refine ranged_iff.2 ⟨h.join _ _ (hes _ (List.mem_cons_self ..)).range ?_, hes⟩
        rw [List.getLast?_eq_some_getLast (List.cons_ne_nil d ds), Option.getD_some]
        exact (hes _ (List.mem_cons_of_mem _ (List.getLast_mem _))).range

end Expr

/-! ## Places in the text -/

/-- The join of two ranges starts where one of them starts. -/
theorem Position.KeptAlong.join {base : Position} {cs : List Char} {r s : Range}
    (hr : base.KeptAlong cs r.start) (hs : base.KeptAlong cs s.start) :
    base.KeptAlong cs (r.join s).start := by
  rw [Range.join]
  dsimp only
  rw [Position.min]
  split
  · exact hs
  · exact hr

namespace Expr

open Parse

/-- Every node of the tree of a text starts where a character of the text stands. So does its error, which
may also stand at the end. -/
theorem parse_along (base : Position) (source : String) :
    (∀ e, parse base source = .ok e → Ranged (fun r => base.KeptAlong source.toList r.start) e) ∧
      ∀ error, parse base source = .error error →
        base.KeptAlong source.toList error.range.start := by
  obtain ⟨tokens, there, gap, rest, hsplits, -, hrest⟩ := Token.splits_scan base source
  obtain ⟨read, hsource, hthere⟩ := hsplits.exists_read
  have hend : base.KeptAlong source.toList (there.advanceAll gap).stored := by
    refine ⟨_, ⟨read ++ gap, ?_, ?_⟩, rfl⟩
    · rw [hsource, ← List.append_assoc]
      exact List.prefix_append ..
    · rw [hthere, Position.advanceAll_append]
  rw [parse]
  cases rest with
  | cons c rest =>
    obtain ⟨-, -, error, hscan, hstart⟩ := hrest
    rw [hscan]
    refine ⟨fun e heq => (by cases heq), fun _ heq => ?_⟩
    cases heq
    exact hstart ▸ hend
  | nil =>
    dsimp only at hrest
    obtain ⟨all, hall⟩ : ∃ all, all =
      (tokens ++ [Token.mk ⟨there.advanceAll gap, there.advanceAll gap⟩ .stop]).map Token.stored := ⟨_, rfl⟩
    rw [← hall] at hrest
    rw [hrest]
    dsimp only
    have hholds : Holds (fun r => base.KeptAlong source.toList r.start) all := by
      refine ⟨ends_of_scan hrest, fun t ht => ?_, fun _ _ => .join⟩
      rw [hall, List.mem_map] at ht
      obtain ⟨t, ht, rfl⟩ := ht
      rcases List.mem_append.1 ht with ht | ht
      · exact ⟨_, (hsplits.along t ht).1, rfl⟩
      · rw [List.mem_singleton.1 ht]
        exact hend
    obtain ⟨hok, herror⟩ := ofTokens_tracks hholds
    split
    · rename_i error hof
      refine ⟨fun e heq => (by cases heq), fun _ heq => ?_⟩
      cases heq
      exact herror _ hof
    · rename_i e hof
      refine ⟨fun _ heq => ?_, fun _ heq => (by cases heq)⟩
      cases heq
      exact hok _ hof

end Expr

/-! ## Anchoring -/

namespace Anchoring

open ReactiveMarkup.Expr (Ranged ranged_iff)

variable {α β : Type} {P : Range → Prop} {n : Names}

/-- The names that are left, and the error, have ranges of which `P` holds. -/
def Blames (P : Range → Prop) (p : Step α) : Prop :=
  ∀ notes : Notes, (∀ u ∈ notes.unresolved, P u.2) →
    (∀ a notes', p.run notes = .ok (a, notes') → ∀ u ∈ notes'.unresolved, P u.2) ∧
      ∀ error, p.run notes = .error error → P error.range

theorem blames_pure (a : α) : Blames P (pure a) := by
  refine fun notes h => ⟨fun b notes' heq => ?_, fun _ heq => (by cases heq)⟩
  cases heq
  exact h

theorem blames_bind {p : Step α} {k : α → Step β} (hp : Blames P p) (hk : ∀ a, Blames P (k a)) :
    Blames P (p >>= k) := by
  intro notes h
  obtain ⟨hok, herror⟩ := hp notes h
  rw [StateT.run_bind]
  cases hrun : p.run notes with
  | error error =>
    refine ⟨fun b notes' heq => (by cases heq), fun _ heq => ?_⟩
    cases heq
    exact herror _ hrun
  | ok r => exact hk r.1 r.2 (hok _ _ hrun)

theorem blames_touch (path : ValuePath) : Blames P (touch path) := by
  refine fun notes h => ⟨fun b notes' heq => ?_, fun _ heq => (by cases heq)⟩
  cases heq
  rwa [Notes.unresolved_touch]

theorem blames_leave (x : String) {range : Range} (hrange : P range) :
    Blames P (modify (Notes.leave x range)) := by
  refine fun notes h => ⟨fun b notes' heq => ?_, fun _ heq => (by cases heq)⟩
  cases heq
  rw [Notes.unresolved_leave, Notes.noted]
  split
  · exact h
  · exact List.forall_mem_append.2 ⟨h, List.forall_mem_singleton.2 hrange⟩

/-- Looking up the value that an expression denotes blames the expression. -/
theorem blames_valuePath {e : Expr} (he : P e.range) {k : Option ValuePath → Step β}
    (hk : ∀ r, Blames P (k r)) : Blames P (liftM (valuePath? n e) >>= k) := by
  refine blames_bind (fun notes h => ?_) hk
  cases hpath : valuePath? n e with
  | ok r =>
    refine ⟨fun b notes' heq => ?_, fun _ heq => (by cases heq)⟩
    cases heq
    exact h
  | error error =>
    refine ⟨fun b notes' heq => (by cases heq), fun _ heq => ?_⟩
    cases heq
    have hrange : error.range = e.range := by
      revert hpath
      fun_cases valuePath? n e <;> rintro ⟨⟩ <;> rfl
    rwa [hrange]

mutual

/-- Anchoring an expression blames its nodes only. -/
theorem expr_blames {e : Expr} (he : Ranged P e) : Blames P (expr n e) := by
  obtain ⟨hself, hchildren⟩ := ranged_iff.1 he
  cases e with
  | literal range v => exact blames_pure _
  | get range path => exact blames_pure _
  | ident range x =>
    rw [expr]
    refine blames_valuePath hself fun r => ?_
    cases r with
    | some path => exact blames_bind (blames_touch path) fun _ => blames_pure _
    | none =>
      dsimp only
      split
      · exact blames_bind (blames_leave x hself) fun _ => blames_pure _
      · exact blames_pure _
  | member range b x =>
    have hb : Ranged P b := hchildren b (by simp [Expr.children])
    rw [expr]
    refine blames_valuePath hself fun r => ?_
    cases r with
    | some path => exact blames_bind (blames_touch path) fun _ => blames_pure _
    | none => exact blames_bind (expr_blames hb) fun _ => blames_pure _
  | set range path value =>
    have hvalue : Ranged P value := hchildren value (by simp [Expr.children])
    rw [expr]
    exact blames_bind (blames_touch path) fun _ => blames_bind (expr_blames hvalue) fun _ => blames_pure _
  | assign range op target value =>
    have htarget : Ranged P target := hchildren target (by simp [Expr.children])
    have hvalue : Ranged P value := hchildren value (by simp [Expr.children])
    rw [expr]
    refine blames_bind (expr_blames hvalue) fun _ => blames_valuePath htarget.range fun r => ?_
    cases r with
    | some path =>
      refine blames_bind (blames_touch path) fun _ => ?_
      cases op <;> exact blames_pure _
    | none => exact blames_bind (expr_blames htarget) fun _ => blames_pure _
  | update range op before target =>
    have htarget : Ranged P target := hchildren target (by simp [Expr.children])
    rw [expr]
    refine blames_valuePath htarget.range fun r => ?_
    cases r with
    | some path => exact blames_bind (blames_touch path) fun _ => blames_pure _
    | none => exact blames_bind (expr_blames htarget) fun _ => blames_pure _
  | template range parts =>
    rw [expr]
    exact blames_bind (exprs_blames hchildren) fun _ => blames_pure _
  | index range b key =>
    have hb : Ranged P b := hchildren b (by simp [Expr.children])
    have hkey : Ranged P key := hchildren key (by simp [Expr.children])
    rw [expr]
    exact blames_bind (expr_blames hb) fun _ => blames_bind (expr_blames hkey) fun _ => blames_pure _
  | call range callee args =>
    obtain ⟨hcallee, hargs⟩ := List.forall_mem_cons.1 hchildren
    rw [expr]
    exact blames_bind (expr_blames hcallee) fun _ => blames_bind (exprs_blames hargs) fun _ => blames_pure _
  | unary range op operand =>
    have hoperand : Ranged P operand := hchildren operand (by simp [Expr.children])
    rw [expr]
    exact blames_bind (expr_blames hoperand) fun _ => blames_pure _
  | binary range op left right =>
    have hleft : Ranged P left := hchildren left (by simp [Expr.children])
    have hright : Ranged P right := hchildren right (by simp [Expr.children])
    rw [expr]
    exact blames_bind (expr_blames hleft) fun _ => blames_bind (expr_blames hright) fun _ => blames_pure _
  | conditional range test yes no =>
    have htest : Ranged P test := hchildren test (by simp [Expr.children])
    have hyes : Ranged P yes := hchildren yes (by simp [Expr.children])
    have hno : Ranged P no := hchildren no (by simp [Expr.children])
    rw [expr]
    refine blames_bind (expr_blames htest) fun _ => blames_bind (expr_blames hyes) fun _ => ?_
    exact blames_bind (expr_blames hno) fun _ => blames_pure _
  | array range items =>
    rw [expr]
    exact blames_bind (exprs_blames hchildren) fun _ => blames_pure _
  | object range es =>
    rw [expr]
    exact blames_bind (entries_blames hchildren) fun _ => blames_pure _
  | arrow range params body =>
    have hbody : Ranged P body := hchildren body (by simp [Expr.children])
    rw [expr]
    exact blames_bind (expr_blames hbody) fun _ => blames_pure _
  | letIn range x value =>
    have hvalue : Ranged P value := hchildren value (by simp [Expr.children])
    rw [expr]
    exact blames_bind (expr_blames hvalue) fun _ => blames_pure _
  | sequence range items =>
    rw [expr]
    exact blames_bind (exprs_blames hchildren) fun _ => blames_pure _

theorem exprs_blames {es : List Expr} (h : ∀ e ∈ es, Ranged P e) : Blames P (exprs n es) := by
  cases es with
  | nil => exact blames_pure _
  | cons e es =>
    obtain ⟨he, hes⟩ := List.forall_mem_cons.1 h
    rw [exprs]
    exact blames_bind (expr_blames he) fun _ => blames_bind (exprs_blames hes) fun _ => blames_pure _

theorem entries_blames {es : List (String × Expr)} (h : ∀ e ∈ es.map Prod.snd, Ranged P e) :
    Blames P (entries n es) := by
  match es with
  | [] => exact blames_pure _
  | (key, e) :: es =>
    obtain ⟨he, hes⟩ := List.forall_mem_cons.1 h
    rw [entries]
    exact blames_bind (expr_blames he) fun _ => blames_bind (entries_blames hes) fun _ => blames_pure _

end

end Anchoring

/-- The error of an expression that cannot be anchored, and the names that are left of another one, have
the ranges of nodes. -/
theorem Expr.anchor_blames {P : Range → Prop} {e : Expr} (he : e.Ranged P) (r : Resolver) :
    (∀ t, e.anchor r = .ok t → ∀ u ∈ t.notes.unresolved, P u.2) ∧
      ∀ error, e.anchor r = .error error → P error.range := by
  obtain ⟨hok, herror⟩ := Anchoring.expr_blames (n := ⟨e.boundNames, r⟩) he .empty (by simp [Notes.empty])
  rw [anchor]
  cases hrun : (Anchoring.expr ⟨e.boundNames, r⟩ e).run .empty with
  | error error =>
    refine ⟨fun t heq => (by cases heq), fun _ heq => ?_⟩
    cases heq
    exact herror _ hrun
  | ok u =>
    refine ⟨fun t heq => ?_, fun _ heq => (by cases heq)⟩
    cases heq
    exact hok _ _ hrun

end ReactiveMarkup
