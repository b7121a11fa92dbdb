import Mathlib.Data.List.TakeWhile
import ReactiveMarkup.Proofs.Expr.RoundTrip

/-!
# Operators between operands

Names with operators between them are read by climbing: an operand is followed by as many operators as
bind tightly enough, and each takes for its right operand what binds more tightly than itself. What
comes out does not depend on that order of reading. The tree splits at the last of the operators that
bind least tightly, and so do its parts.

Main definitions: `BinaryOp.level`, `Expr.Grouped`, `Expr.inOrder`, `Parse.Link`.
Main results: `Expr.Grouped.prepend`, `Parse.reads_binaryTail_links`, `Expr.ofTokens_links`.
-/
namespace ReactiveMarkup

namespace BinaryOp

/-- The operators by how tightly they bind, the loosest first. -/
def levels : List (List BinaryOp) :=
  [[coalesce], [or], [and], [eq, ne, strictEq, strictNe], [lt, le, gt, ge], [add, sub],
   [mul, div, mod]]

/-- How tightly an operator binds: its place among the levels. -/
def level (op : BinaryOp) : Nat := levels.findIdx (·.contains op)

theorem precedence_eq (op : BinaryOp) : op.precedence = op.level + 1 := by
  cases op <;> decide

theorem level_lt_iff {op op' : BinaryOp} : op.level < op'.level ↔ op.precedence < op'.precedence := by
  rw [precedence_eq, precedence_eq, Nat.add_lt_add_iff_right]

end BinaryOp

namespace Expr

/-! ## Trees of operands -/

/-- The tree of an operand and of the operators and operands after it. It splits at the last of the
operators that bind least tightly. -/
inductive Grouped : Expr → List (BinaryOp × Expr) → Expr → Prop
  | single (a : Expr) : Grouped a [] a
  | split {a b l r : Expr} {op : BinaryOp} {before after : List (BinaryOp × Expr)}
      (hbefore : ∀ s ∈ before, op.level ≤ s.1.level) (hafter : ∀ s ∈ after, op.level < s.1.level)
      (hl : Grouped a before l) (hr : Grouped b after r) :
      Grouped a (before ++ (op, b) :: after) (binary (l.range.join r.range) op l r)

namespace Grouped

variable {a b left r e e' : Expr} {op : BinaryOp} {xs ys : List (BinaryOp × Expr)}

/-- An operator whose right operand is complete may be taken together with its left operand, if what
follows binds no more tightly. By induction on the tree of what follows: its splits stay where they
are, and further to the left there is one operator more. -/
theorem prepend (hxs : ∀ s ∈ xs, op.level < s.1.level) (hys : ∀ s ∈ ys.head?, s.1.level ≤ op.level)
    (hr : Grouped b xs r) (he : Grouped (binary (left.range.join r.range) op left r) ys e) :
    Grouped left ((op, b) :: xs ++ ys) e := by
  generalize ha : binary (left.range.join r.range) op left r = a at he
  induction he with
  | single a =>
    subst ha
    rw [List.append_nil]
    have hnone : ∀ s ∈ ([] : List (BinaryOp × Expr)), op.level ≤ s.1.level := by simp
    exact split hnone hxs (.single left) hr
  | @split a c l r' op' before after hbefore hafter hl hr' ih _ =>
    have hop : op'.level ≤ op.level := by
      cases before with
      | nil => exact hys (op', c) rfl
      | cons s before =>
        have hs : s.1.level ≤ op.level := hys s rfl
        exact Nat.le_trans (hbefore s (List.mem_cons_self ..)) hs
    have hfirst : Grouped left ((op, b) :: xs ++ before) l := by
      refine ih (fun s hs => hys s ?_) ha
      cases before with
      | nil => cases hs
      | cons s' before => exact hs
    have hall : ∀ s ∈ (op, b) :: xs ++ before, op'.level ≤ s.1.level := by
      intro s hs
      rcases List.mem_append.1 hs with hs | hs
      · rcases List.mem_cons.1 hs with rfl | hs
        · exact hop
        · exact Nat.le_trans hop (Nat.le_of_lt (hxs s hs))
      · exact hbefore s hs
    rw [← List.append_assoc]
    exact split hall hafter hfirst hr'

/-- There is one place to split at. -/
theorem place_unique {before before' after after' : List (BinaryOp × Expr)} {s s' : BinaryOp × Expr}
    (heq : before ++ s :: after = before' ++ s' :: after')
    (hbefore' : ∀ t ∈ before', s'.1.level ≤ t.1.level) (hafter : ∀ t ∈ after, s.1.level < t.1.level)
    (hle : before.length ≤ before'.length) : before = before' := by
  by_contra hne
  obtain ⟨mid, hmid, htail⟩ : ∃ mid, before' = before ++ mid ∧ s :: after = mid ++ s' :: after' := by
    rcases List.append_eq_append_iff.1 heq with ⟨mid, hmid, htail⟩ | ⟨mid, hmid, htail⟩
    · exact ⟨mid, hmid, htail⟩
    · have hnil : mid = [] := by
        have := congrArg List.length hmid
        rw [List.length_append] at this
        exact List.length_eq_zero_iff.1 (by omega)
      exact absurd (by rw [hmid, hnil, List.append_nil]) hne
  cases mid with
  | nil => exact hne (by rw [hmid, List.append_nil])
  | cons t mid =>
    obtain ⟨rfl, rfl⟩ := List.cons.inj htail
    have hlt : s.1.level < s'.1.level := hafter s' (by simp)
    have hge : s'.1.level ≤ s.1.level := hbefore' s (by rw [hmid]; simp)
    omega

/-- Operands with operators between them have one tree. -/
theorem unique (h : Grouped a xs e) (h' : Grouped a xs e') : e = e' := by
  induction h generalizing e' with
  | single a =>
    generalize hxs : ([] : List (BinaryOp × Expr)) = xs at h'
    cases h' with
    | single => rfl
    | split => simp at hxs
  | @split a b l r op before after hbefore hafter hl hr ihl ihr =>
    generalize hxs : before ++ (op, b) :: after = xs at h'
    cases h' with
    | single => simp at hxs
    | @split _ b' l' r' op' before' after' hbefore' hafter' hl' hr' =>
      have hsame : before = before' := by
        rcases Nat.le_total before.length before'.length with hle | hle
        · exact place_unique hxs hbefore' hafter hle
        · exact (place_unique hxs.symm hbefore hafter' hle).symm
      subst hsame
      obtain ⟨hhead, rfl⟩ := List.cons.inj (List.append_cancel_left hxs)
      obtain ⟨rfl, rfl⟩ := Prod.mk.inj hhead
      rw [ihl hl', ihr hr']

end Grouped

/-- The tokens of names with operators between them, read off their tree from left to right. -/
def inOrder : Expr → List TokenKind
  | ident _ x => [.ident x]
  | binary _ op l r => inOrder l ++ .symbol op.symbol :: inOrder r
  | _ => []

/-- However a tree is grouped, its operands and operators stand in it in their order. -/
theorem Grouped.inOrder_eq {a e : Expr} {xs : List (BinaryOp × Expr)} (h : Grouped a xs e) :
    e.inOrder = a.inOrder ++ xs.flatMap fun s => .symbol s.1.symbol :: s.2.inOrder := by
  induction h with
  | single a => simp
  | split hbefore hafter hl hr ihl ihr => simp [inOrder, ihl, ihr]

end Expr

namespace Parse

open ReactiveMarkup.Expr

/-! ## Reading the operators -/

/-- An operator and the name after it, and where each of them stands. -/
structure Link where
  opRange : Range
  op : BinaryOp
  nameRange : Range
  name : String

namespace Link

/-- The tokens of a link. -/
def tokens (l : Link) : List Token := [⟨l.opRange, .symbol l.op.symbol⟩, ⟨l.nameRange, .ident l.name⟩]

/-- The operator and the operand of a link. -/
def step (l : Link) : BinaryOp × Expr := (l.op, .ident l.nameRange l.name)

end Link

theorem binaryOp?_symbol (op : BinaryOp) : binaryOp? (.symbol op.symbol) = some op := by
  cases op <;> rfl

/-- Whether operators of a least precedence, and the operands between them, end before a token. -/
def endsAt (least : Nat) (k : TokenKind) : Bool :=
  endsOperand k && (binaryOp? k).all fun op => op.precedence < least

theorem endsAt_symbol {op : BinaryOp} {least : Nat} (h : op.precedence < least) :
    endsAt least (.symbol op.symbol) := by
  have hend : endsOperand (.symbol op.symbol) := by cases op <;> rfl
  simp [endsAt, binaryOp?_symbol, hend, h]

theorem endsAt_mono {least least' : Nat} (hle : least ≤ least') {k : TokenKind} (h : endsAt least k) :
    endsAt least' k := by
  simp only [endsAt, Bool.and_eq_true, Option.all_eq_true, decide_eq_true_eq] at h ⊢
  exact ⟨h.1, fun op hop => Nat.lt_of_lt_of_le (h.2 op hop) hle⟩

variable {least : Nat} {rest : List Token} {range : Range} {x : String} {left : Expr}

theorem reads_unary_ident (hrest : Follow endsOperand rest) :
    Reads (unary (⟨range, .ident x⟩ :: rest)) (· = .ident range x) rest := by
  have hchain : Follow (fun k => !extendsChain k) rest :=
    hrest.mono (by simp_all [endsOperand, extendsOperand])
  have hupdate : Follow (fun k => (updateOp? k).isNone) rest :=
    hrest.mono (by simp_all [endsOperand, extendsOperand])
  have hprimary : Reads (primary (⟨range, .ident x⟩ :: rest)) (· = .ident range x) rest := by
    rw [primary.eq_def]
    exact reads_ok rfl
  have hread : Reads (chain (⟨range, .ident x⟩ :: rest)) (· = .ident range x) rest := by
    rw [chain]
    refine reads_bind hprimary fun e _ he => ?_
    exact reads_bind (reads_chainTail hchain) fun e' _ he' => reads_ok (he'.trans he)
  change Reads (unary (⟨range, .ident x⟩ :: rest)) _ _
  rw [unary, show unaryOp? (.ident x) = none from rfl, show updateOp? (.ident x) = none from rfl, stepped]
  refine reads_bind hread fun e _ he => ?_
  simp only [takeAs?_eq_none hupdate]
  exact reads_ok he

theorem reads_binaryTail_end (hrest : Follow (endsAt least) rest) :
    Reads (binaryTail least left rest) (· = left) rest := by
  cases rest with
  | nil =>
    rw [binaryTail]
    exact reads_ok rfl
  | cons t rest =>
    have ht := hrest t rfl
    simp only [endsAt, Bool.and_eq_true, Option.all_eq_true, decide_eq_true_eq] at ht
    rw [binaryTail]
    cases hop : binaryOp? t.kind with
    | none => exact reads_ok rfl
    | some op =>
      simp only [if_pos (ht.2 op hop)]
      exact reads_ok rfl

/-- Behind an operand stands the operator of its first link, or what follows if it has none. -/
theorem follow_links {p : TokenKind → Bool} (links : List Link) (hrest : Follow p rest)
    (hop : ∀ op : BinaryOp, p (.symbol op.symbol)) : Follow p (links.flatMap Link.tokens ++ rest) := by
  cases links with
  | nil => exact hrest
  | cons l links => exact follow_cons (hop l.op)

/-- A name and its links are read into their tree if the links are, behind whatever operand. -/
theorem reads_binary_of_tail {links : List Link} (hrest : Follow endsOperand rest)
    (htail : ∀ a, Reads (binaryTail least a (links.flatMap Link.tokens ++ rest))
      (Grouped a (links.map Link.step)) rest) :
    Reads (binary least (⟨range, .ident x⟩ :: (links.flatMap Link.tokens ++ rest)))
      (Grouped (.ident range x) (links.map Link.step)) rest := by
  rw [binary]
  refine reads_bind (reads_unary_ident ?_) fun a _ ha => ?_
  · exact follow_links links hrest fun op => by cases op <;> rfl
  · subst ha
    exact reads_bind (htail _) fun e _ he => reads_ok he

/-- A list divides before the first item that fails a test. -/
theorem exists_span {α : Type} (l : List α) (p : α → Prop) [DecidablePred p] :
    ∃ xs ys, l = xs ++ ys ∧ (∀ a ∈ xs, p a) ∧ ∀ a ∈ ys.head?, ¬p a := by
  refine ⟨l.takeWhile p, l.dropWhile p, List.takeWhile_append_dropWhile.symm, fun a ha => ?_,
    fun a ha => ?_⟩
  · simpa using List.mem_takeWhile_imp ha
  · rw [← List.find?_not_eq_head?_dropWhile] at ha
    simpa using List.find?_some ha

/-- Links whose operators bind tightly enough are read into their tree, by induction on their number.
The right operand of the first operator takes the links that bind more tightly, up to the first that
does not; the others go on from the tree that is read by then. -/
theorem reads_binaryTail_links {links : List Link} (hlinks : ∀ l ∈ links, least ≤ l.op.precedence)
    (hrest : Follow (endsAt least) rest) :
    Reads (binaryTail least left (links.flatMap Link.tokens ++ rest))
      (Grouped left (links.map Link.step)) rest := by
  induction hn : links.length using Nat.strongRecOn generalizing links least left rest with
  | ind n ih =>
    cases links with
    | nil => exact (reads_binaryTail_end hrest).mono fun e he => he ▸ .single e
    | cons l ls =>
      -- the links of the right operand end at the first operator that binds no more tightly
      obtain ⟨xs, ys, rfl, hxs, hys⟩ : ∃ xs ys, ls = xs ++ ys ∧
          (∀ l' ∈ xs, l.op.precedence < l'.op.precedence) ∧
          ∀ l' ∈ ys.head?, ¬l.op.precedence < l'.op.precedence :=
        exists_span ls fun l' => l.op.precedence < l'.op.precedence
      have hleast : least ≤ l.op.precedence := hlinks l (List.mem_cons_self ..)
      have hyslinks : ∀ l' ∈ ys, least ≤ l'.op.precedence := fun l' hl' => hlinks l' (by simp [hl'])
      have hend : Follow (endsAt (l.op.precedence + 1)) (ys.flatMap Link.tokens ++ rest) := by
        cases ys with
        | nil => exact hrest.mono fun k hk => endsAt_mono (by omega) hk
        | cons l' ys => exact follow_cons (endsAt_symbol (Nat.lt_succ_of_le (Nat.not_lt.1 (hys l' rfl))))
      have hlength : xs.length + ys.length + 1 = n := by simpa using hn
      have hxsread (b : Expr) : Reads
          (binaryTail (l.op.precedence + 1) b
            (xs.flatMap Link.tokens ++ (ys.flatMap Link.tokens ++ rest)))
          (Grouped b (xs.map Link.step)) (ys.flatMap Link.tokens ++ rest) :=
        ih xs.length (by omega) (fun l' hl' => hxs l' hl') hend rfl
      have hysread (a : Expr) : Reads (binaryTail least a (ys.flatMap Link.tokens ++ rest))
          (Grouped a (ys.map Link.step)) rest := ih ys.length (by omega) hyslinks hrest rfl
      have htokens : (l :: (xs ++ ys)).flatMap Link.tokens ++ rest =
          ⟨l.opRange, .symbol l.op.symbol⟩ :: ⟨l.nameRange, .ident l.name⟩ ::
            (xs.flatMap Link.tokens ++ (ys.flatMap Link.tokens ++ rest)) := by
        simp [Link.tokens]
      have hright : Reads
          (binary (l.op.precedence + 1) (⟨l.nameRange, .ident l.name⟩ ::
            (xs.flatMap Link.tokens ++ (ys.flatMap Link.tokens ++ rest))))
          (Grouped (.ident l.nameRange l.name) (xs.map Link.step)) (ys.flatMap Link.tokens ++ rest) :=
        reads_binary_of_tail (hend.mono fun k hk => (Bool.and_eq_true_iff.1 hk).1) hxsread
      have hxslevel : ∀ s ∈ xs.map Link.step, l.op.level < s.1.level := by
        simpa [Link.step, BinaryOp.level_lt_iff] using hxs
      have hyslevel : ∀ s ∈ (ys.map Link.step).head?, s.1.level ≤ l.op.level := by
        intro s hs
        rw [List.head?_map] at hs
        obtain ⟨l', hl', rfl⟩ := Option.map_eq_some_iff.1 hs
        exact Nat.not_lt.1 (mt BinaryOp.level_lt_iff.1 (hys l' hl'))
      rw [htokens, binaryTail, binaryOp?_symbol]
      simp only [if_neg (Nat.not_lt.2 hleast)]
      refine reads_bind hright fun r _ hr => ?_
      refine reads_bind (hysread _) fun e _ he => reads_ok ?_
      simpa [Link.step] using Grouped.prepend hxslevel hyslevel hr he

/-- What starts with an operand is no arrow function. -/
theorem reads_statement_links (range : Range) (x : String) (links : List Link) (stop : Range) :
    Reads (statement (⟨range, .ident x⟩ :: (links.flatMap Link.tokens ++ [⟨stop, .stop⟩])))
      (Grouped (.ident range x) (links.map Link.step)) [⟨stop, .stop⟩] := by
  have hstop {p : TokenKind → Bool} (h : p .stop) : Follow p [⟨stop, .stop⟩] := follow_cons h
  have hlinks : ∀ l ∈ links, 1 ≤ l.op.precedence := fun l _ => by cases l.op <;> decide
  rw [statement_of_startsForm rfl]
  refine reads_assignment (arrowHead?_ident rfl ?_) (reads_conditional ?_ (hstop rfl)) (hstop rfl)
  · exact follow_links links (hstop rfl) fun op => by cases op <;> rfl
  · exact reads_binary_of_tail (hstop rfl) fun a => reads_binaryTail_links hlinks (hstop rfl)

end Parse

namespace Expr

open Parse

/-- Names with operators between them are read as their tree, the only one that splits at the last of
the operators that bind least tightly, and so in its parts; read from left to right, the tree gives
back the names and the operators. -/
theorem ofTokens_links (range : Range) (x : String) (links : List Link) (stop : Range) :
    ∃ e, ofTokens (⟨range, .ident x⟩ :: (links.flatMap Link.tokens ++ [⟨stop, .stop⟩])) = .ok e ∧
      Grouped (ident range x) (links.map Link.step) e ∧
      (∀ e', Grouped (ident range x) (links.map Link.step) e' → e' = e) ∧
      e.inOrder = .ident x :: (links.flatMap Link.tokens).map (·.kind) := by
  obtain ⟨⟨e, _, _⟩, hread, he, hrest⟩ := reads_statement_links range x links stop
  dsimp only at he hrest
  subst hrest
  refine ⟨e, ?_, he, fun e' he' => he'.unique he, ?_⟩
  · have hgoes (ts : List Token) : ¬(peek (⟨range, .ident x⟩ :: ts)).kind.isStop := Bool.false_ne_true
    rw [ofTokens, statements_of_dropWhile (List.dropWhile_cons_of_neg (by simp [TokenKind.isSymbol])),
      if_neg (hgoes _), hread]
    simp only [bind, Except.bind, statements_stop]
    rfl
  · rw [he.inOrder_eq]
    simp [inOrder, Link.step, Link.tokens, List.flatMap_map, List.map_flatMap]

end Expr

end ReactiveMarkup
