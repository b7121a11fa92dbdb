import ReactiveMarkup.Expr.Parse
import ReactiveMarkup.Proofs.Expr.Derivation
import ReactiveMarkup.Proofs.Expr.Grammar

/-!
# Brackets of an expression

The rules of the grammar write square brackets in pairs, so after a form as many are open as before it,
wherever it stands. The parser reads what the grammar writes: the brackets of a whole text are balanced.

Main definitions: `Token.openAfter`, `Token.Balanced`, `Token.Level`.
Main results: `Expr.parse_balanced`.
-/
namespace ReactiveMarkup

namespace Token

/-- How many square brackets are open after the tokens up to the mark of the end, if `depth` were
open before; none if one is closed that was never opened. -/
def openAfter : (depth : Nat) → List Token → Option Nat
  | depth, [] => some depth
  | depth, t :: ts =>
    match t.kind with
    | .stop => some depth
    | .symbol .leftBracket => openAfter (depth + 1) ts
    | .symbol .rightBracket => if depth = 0 then none else openAfter (depth - 1) ts
    | _ => openAfter depth ts

/-- Tokens whose square brackets are paired. -/
def Balanced (ts : List Token) : Prop := openAfter 0 ts = some 0

instance (ts : List Token) : Decidable (Balanced ts) :=
  inferInstanceAs (Decidable (openAfter 0 ts = some 0))

/-- Whether a token is neither a square bracket nor the mark of the end. -/
def isPlain (t : Token) : Bool :=
  match t.kind with
  | .stop | .symbol .leftBracket | .symbol .rightBracket => false
  | _ => true

theorem openAfter_plain {t : Token} (h : t.isPlain) (depth : Nat) (ts : List Token) :
    openAfter depth (t :: ts) = openAfter depth ts := by
  rw [openAfter]
  rw [isPlain] at h
  split <;> simp_all

/-- Where the tokens stand does not matter. -/
theorem openAfter_congr {ts us : List Token} (h : ts.map kind = us.map kind) (depth : Nat) :
    openAfter depth ts = openAfter depth us := by
  induction ts generalizing us depth with
  | nil =>
    obtain rfl := List.map_eq_nil_iff.1 h.symm
    rfl
  | cons t ts ih =>
    obtain ⟨u, us, rfl, hk, hks⟩ := List.map_eq_cons_iff.1 h.symm
    simp only [openAfter, hk, fun d => ih hks.symm d]

/-- What stands behind the mark of the end opens and closes nothing. -/
theorem openAfter_append_stop_append (ts us : List Token) (range : Range) (depth : Nat) :
    openAfter depth (ts ++ [⟨range, .stop⟩] ++ us) = openAfter depth ts := by
  induction ts generalizing depth with
  | nil => rfl
  | cons t ts ih => simp only [List.cons_append, openAfter, ih]

/-- The mark of the end opens and closes nothing. -/
theorem openAfter_append_stop (ts : List Token) (range : Range) (depth : Nat) :
    openAfter depth (ts ++ [⟨range, .stop⟩]) = openAfter depth ts := by
  simpa using openAfter_append_stop_append ts [] range depth

/-! ## Paired brackets -/

/-- Whether tokens of these kinds, wherever they stand, leave as many brackets open as were open
before them. -/
def Level (ks : List TokenKind) : Prop :=
  ∀ (depth : Nat) (ts us : List Token), ts.map kind = ks → openAfter depth (ts ++ us) = openAfter depth us

namespace Level

variable {ks ls : List TokenKind} {k : TokenKind}

theorem nil : Level [] := by
  intro depth ts us hts
  obtain rfl := List.map_eq_nil_iff.1 hts
  rfl

theorem append (hks : Level ks) (hls : Level ls) : Level (ks ++ ls) := by
  intro depth ts us hts
  obtain ⟨ts, ts', rfl, hks', hls'⟩ := List.map_eq_append_iff.1 hts
  rw [List.append_assoc, hks depth ts _ hks', hls depth ts' us hls']

theorem cons (hk : ∀ range, isPlain ⟨range, k⟩) (hks : Level ks) : Level (k :: ks) := by
  intro depth ts us hts
  obtain ⟨t, ts, rfl, rfl, hrest⟩ := List.map_eq_cons_iff.1 hts
  rw [List.cons_append, openAfter_plain (hk t.range), hks depth ts us hrest]

/-- The bracket that is opened is the one that is closed. -/
theorem bracketed (hks : Level ks) :
    Level (.symbol .leftBracket :: (ks ++ [.symbol .rightBracket])) := by
  intro depth ts us hts
  obtain ⟨opening, ts, rfl, hopening, hts⟩ := List.map_eq_cons_iff.1 hts
  obtain ⟨ts, ts', rfl, hks', hts'⟩ := List.map_eq_append_iff.1 hts
  obtain ⟨closing, rfl, hclosing⟩ := List.map_eq_singleton_iff.1 hts'
  rw [List.cons_append, List.append_assoc, openAfter, hopening]
  change openAfter (depth + 1) _ = _
  rw [hks (depth + 1) ts _ hks', List.singleton_append, openAfter, hclosing]
  rfl

end Level

end Token

open Token (Level openAfter)
open Parse (memberName? entryKey? unaryOp? binaryOp? updateOp? assignOp?)

/-- What has a meaning that brackets and the mark of the end do not have is neither. -/
theorem Token.isPlain_of_meaning {α : Type} (meaning? : TokenKind → Option α) {k : TokenKind} {a : α}
    (h : meaning? k = some a) (hstop : meaning? .stop = none)
    (hopening : meaning? (.symbol .leftBracket) = none)
    (hclosing : meaning? (.symbol .rightBracket) = none) (range : Range) :
    Token.isPlain ⟨range, k⟩ := by
  cases k with
  | symbol s => cases s <;> first | rfl | simp_all
  | stop => simp_all
  | _ => rfl

namespace Form

variable {ks : List TokenKind}

theorem Head.level {params : List String} (h : Head params ks) : Level ks := by
  cases h with
  | bare x => exact .cons (fun _ => rfl) (.cons (fun _ => rfl) .nil)
  | enclosed =>
    have hnames : Level (Expr.commaKinds (params.map fun x => [.ident x])) := by
      induction params with
      | nil => exact .nil
      | cons x xs ih =>
        cases xs with
        | nil => exact .cons (fun _ => rfl) .nil
        | cons y ys =>
          rw [Expr.commaKinds_idents]
          exact .cons (fun _ => rfl) (.cons (fun _ => rfl) ih)
    exact .cons (fun _ => rfl) (hnames.append (.cons (fun _ => rfl) (.cons (fun _ => rfl) .nil)))

/-- What a form is written by leaves no bracket open, by induction on how it is written. -/
theorem Written.level {f : Form} (h : Written f ks) : Level ks := by
  induction h with
  | literal range v => exact .cons (fun _ => by cases v <;> rfl) .nil
  | ident | shorthand => exact .cons (fun _ => rfl) .nil
  | paren _ ih => exact .cons (fun _ => rfl) (ih.append (.cons (fun _ => rfl) .nil))
  | member range _ hx ih =>
    exact ih.append
      (.cons (fun _ => rfl) (.cons (Token.isPlain_of_meaning memberName? hx rfl rfl rfl) .nil))
  | index range _ _ ih ihkey => exact ih.append ihkey.bracketed
  | call range _ _ ih ihargs =>
    exact ih.append (.cons (fun _ => rfl) (ihargs.append (.cons (fun _ => rfl) .nil)))
  | unary range hop _ ih => exact .cons (Token.isPlain_of_meaning unaryOp? hop rfl rfl rfl) ih
  | binary range hop _ _ ih ihright =>
    exact ih.append (.cons (Token.isPlain_of_meaning binaryOp? hop rfl rfl rfl) ihright)
  | conditional range _ _ _ ih ihyes ihno =>
    exact ih.append (.cons (fun _ => rfl) (ihyes.append (.cons (fun _ => rfl) ihno)))
  | assign range hop _ _ _ ih ihvalue =>
    exact ih.append (.cons (Token.isPlain_of_meaning assignOp? hop rfl rfl rfl) ihvalue)
  | stepBefore range hop _ _ ih => exact .cons (Token.isPlain_of_meaning updateOp? hop rfl rfl rfl) ih
  | stepAfter range hop _ _ ih =>
    exact ih.append (.cons (Token.isPlain_of_meaning updateOp? hop rfl rfl rfl) .nil)
  | array range _ ih => exact ih.bracketed
  | object range _ ih => exact .cons (fun _ => rfl) (ih.append (.cons (fun _ => rfl) .nil))
  | arrow range hhead _ ih => exact hhead.level.append ih
  | plain _ ih | last _ ih => exact ih
  | entry hkey _ ih =>
    exact .cons (Token.isPlain_of_meaning entryKey? hkey rfl rfl rfl) (.cons (fun _ => rfl) ih)
  | nil => exact .nil
  | cons _ _ ih ihitems => exact ih.append (.cons (fun _ => rfl) ihitems)

theorem Stated.level {e : Expr} (h : Stated e ks) : Level ks := by
  cases h with
  | expression he => exact he.level
  | letIn range x hvalue =>
    exact .cons (fun _ => rfl) (.cons (fun _ => rfl) (.cons (fun _ => rfl) hvalue.level))

theorem Listed.level {es : List Expr} (h : Listed es ks) : Level ks := by
  induction h with
  | nil => exact .nil
  | skip _ ih => exact .cons (fun _ => rfl) ih
  | last he => exact he.level
  | cons he _ ih => exact he.level.append (.cons (fun _ => rfl) ih)

end Form

namespace Expr

theorem WrittenBy.level {e : Expr} {ks : List TokenKind} (h : e.WrittenBy ks) : Level ks := by
  cases h with
  | statement h | sequence _ h _ => exact h.level

/-- The brackets of what the parser accepts are balanced. -/
theorem parse_balanced {base : Position} {source : String} {e : Expr}
    (h : parse base source = .ok e) : ∃ ts, Token.scan base source = .ok ts ∧ Token.Balanced ts := by
  rw [parse] at h
  split at h
  · cases h
  · rename_i ts hscan
    refine ⟨ts, hscan, ?_⟩
    obtain ⟨before, stop, us, rfl, hbefore⟩ := (Parse.ends_of_scan hscan).exists_first
    split at h
    · cases h
    · rename_i e' hparse
      have hlevel := (writtenBy_of_ofTokens hbefore hparse).level 0 before [] rfl
      rw [List.append_nil] at hlevel
      rw [Token.Balanced, Token.openAfter_append_stop_append, hlevel]
      rfl

end Expr

end ReactiveMarkup
