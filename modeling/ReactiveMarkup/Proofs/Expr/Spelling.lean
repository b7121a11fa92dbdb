import Mathlib.Data.List.Forall2
import ReactiveMarkup.Proofs.Expr.Lexis
import ReactiveMarkup.Proofs.Expr.Printable

/-!
# How expressions are spelled

The text of a printable expression splits into its tokens. The text is taken apart into pieces, and a
piece splits into its tokens whatever follows it, as long as that does not begin with a character that
would continue its last token.

Main definitions: `Token.Spells`.
Main results: `Expr.Printable.spells`, `Token.scan_of_spells`.
-/
namespace ReactiveMarkup

namespace Symbol

/-- Whether no other symbol begins with this one. -/
def isClosed (s : Symbol) : Bool := all.all fun t => t == s || !s.text.toList.isPrefixOf t.text.toList

end Symbol

namespace Lexeme

theorem read?_symbol_space (s : Symbol) (rest : List Char) :
    read? (s.text.toList ++ ' ' :: rest) = some ⟨.symbol s, s.text.toList, ' ' :: rest⟩ := by
  cases s <;> rfl

theorem read?_symbol_closed {s : Symbol} (hs : s.isClosed) (rest : List Char) :
    read? (s.text.toList ++ rest) = some ⟨.symbol s, s.text.toList, rest⟩ := by
  cases s <;> first | rfl | exact absurd hs (by decide)

theorem read?_bang {c : Char} (hc : c ≠ '=') (rest : List Char) :
    read? ('!' :: c :: rest) = some ⟨.symbol .bang, ['!'], c :: rest⟩ := by
  have hword : word? ('!' :: c :: rest) = none := rfl
  have hsymbol : symbol? ('!' :: c :: rest) = some ⟨.symbol .bang, ['!'], c :: rest⟩ := by
    simp [symbol?, Symbol.all, Symbol.text, Ne.symm hc]
  have hnumber : number? ('!' :: c :: rest) = none := rfl
  have hstring : string? ('!' :: c :: rest) = none := rfl
  simp [read?, hnumber, hstring, hword, hsymbol]

/-- A text that does not begin by continuing a word. -/
def Apart (rest : List Char) : Prop := ∀ c ∈ rest.head?, continuesWord c = false

/-- A word is read as far as it goes. -/
theorem read?_word {c : Char} {cs rest : List Char} (hc : startsWord c)
    (hcs : ∀ d ∈ cs, continuesWord d) (hrest : Apart rest) :
    read? (c :: cs ++ rest) = some ⟨.ofWord (String.ofList (c :: cs)), c :: cs, rest⟩ := by
  obtain ⟨htake, hdrop⟩ := span_append hcs hrest
  rw [List.cons_append, read?_startsWord hc, word?, if_pos hc, htake, hdrop]

/-- How a printable character stands inside quotes. -/
theorem escapeChar_of_printable {c : Char} (h : 32 ≤ c.toNat ∧ c.toNat ≤ 126) :
    Quoted.escapeChar c = if c = '"' ∨ c = '\\' then ['\\', c] else [c] := by
  have hne (d : Char) (hd : d.toNat < 32) : c ≠ d := by
    rintro rfl
    omega
  have hhidden : Quoted.isHidden c = false := by
    rw [Quoted.isHidden, if_pos (by omega)]
    simp only [Bool.or_eq_false_iff, decide_eq_false_iff_not, beq_eq_false_iff_ne]
    omega
  rw [Quoted.escapeChar, if_neg (hne '\n' (by decide)), if_neg (hne '\r' (by decide)),
    if_neg (hne '\t' (by decide)), if_neg (hne '\x00' (by decide)), hhidden]
  split_ifs <;> simp_all

/-- The quoted forms of printable characters stand for them. -/
theorem quotes_escaped {cs : List Char} (h : ∀ c ∈ cs, 32 ≤ c.toNat ∧ c.toNat ≤ 126) :
    Quotes '"' cs (cs.flatMap Quoted.escapeChar) := by
  induction cs with
  | nil => exact .nil
  | cons c cs ih =>
    have ih := ih fun d hd => h d (List.mem_cons_of_mem _ hd)
    rw [List.flatMap_cons, escapeChar_of_printable (h c (List.mem_cons_self ..))]
    split
    · rename_i hc
      refine .escaped ?_ ih
      rcases hc with rfl | rfl <;> rfl
    · rename_i hc
      obtain ⟨hquote, hslash⟩ := not_or.1 hc
      exact .plain hquote hslash ih

theorem read?_string {s : String} (h : ∀ c ∈ s.toList, 32 ≤ c.toNat ∧ c.toNat ≤ 126)
    (rest : List Char) :
    read? ((Quoted.encode s).toList ++ rest) =
      some ⟨.string s, (Quoted.encode s).toList, rest⟩ := by
  have hbody := string?_of_quotes (.inl rfl) (quotes_escaped h) rest
  rw [Quoted.encode, String.toList_ofList, List.cons_append, List.append_assoc, List.singleton_append,
    read?_quote (.inl rfl), hbody, String.ofList_toList]

end Lexeme

namespace Token

/-- A text splits into tokens of the given kinds, whatever follows it that satisfies `P`. -/
def Spells (P : List Char → Prop) (s : String) (ks : List TokenKind) : Prop :=
  ∀ here rest, P rest → ∃ ts there, ts.map kind = ks ∧
    scanFrom here (s.toList ++ rest) =
      (ts ++ (scanFrom there rest).1, (scanFrom there rest).2)

section

variable {P Q : List Char → Prop} {s t : String} {ks ls : List TokenKind}

theorem Spells.empty : Spells P "" [] := fun here _ _ => ⟨[], here, rfl, rfl⟩

theorem Spells.append (h : Spells P s ks) (h' : Spells Q t ls)
    (hnext : ∀ rest, Q rest → P (t.toList ++ rest)) : Spells Q (s ++ t) (ks ++ ls) := by
  intro here rest hrest
  obtain ⟨ts, there, hts, hscan⟩ := h here (t.toList ++ rest) (hnext rest hrest)
  obtain ⟨us, beyond, hus, hscan'⟩ := h' there rest hrest
  refine ⟨ts ++ us, beyond, by rw [List.map_append, hts, hus], ?_⟩
  rw [String.toList_append, List.append_assoc, hscan, hscan', List.append_assoc]

/-- A space stands for no token. -/
theorem scanFrom_space (here : Position) (cs : List Char) :
    scanFrom here (' ' :: cs) = scanFrom (here.advance ' ') cs := by
  rw [scanFrom, scanFrom]
  rfl

theorem scanFrom_lexeme {l : Lexeme} {here : Position} {cs : List Char} (h : Lexeme.read? cs = some l)
    (hgap : ∀ c ∈ cs.head?, Lexeme.isGap c = false) :
    scanFrom here cs = (⟨⟨here, here.advanceAll l.text⟩, l.kind⟩ ::
      (scanFrom (here.advanceAll l.text) l.rest).1, (scanFrom (here.advanceAll l.text) l.rest).2) := by
  have hspan := Lexeme.span_append (p := Lexeme.isGap) (List.forall_mem_nil _) hgap
  rw [List.nil_append] at hspan
  obtain ⟨htake, hdrop⟩ := hspan
  rw [scanFrom]
  dsimp only
  rw [hdrop, htake]
  split
  · rename_i hnone
    cases h.symm.trans hnone
  · rename_i l' hsome
    cases h.symm.trans hsome
    rfl

theorem Spells.space : Spells P " " [] := fun here rest _ =>
  ⟨[], here.advance ' ', rfl, scanFrom_space here rest⟩

/-- Whether a text begins with a character that satisfies `p`. -/
def begins (p : Char → Bool) (s : String) : Bool := s.toList.head?.any p

/-- A text that is read as one lexeme is spelled as it. -/
theorem Spells.lexeme {k : TokenKind} (hs : begins (fun c => !Lexeme.isGap c) s)
    (h : ∀ rest, P rest → Lexeme.read? (s.toList ++ rest) = some ⟨k, s.toList, rest⟩) :
    Spells P s [k] := by
  intro here rest hrest
  refine ⟨[⟨⟨here, here.advanceAll s.toList⟩, k⟩], here.advanceAll s.toList, rfl, ?_⟩
  have hgap : ∀ c ∈ (s.toList ++ rest).head?, Lexeme.isGap c = false := by
    rw [begins, Option.any_eq_true] at hs
    obtain ⟨c, hc, hgap⟩ := hs
    rw [List.head?_append, hc]
    simpa using hgap
  rw [scanFrom_lexeme (h rest hrest) hgap]
  rfl

theorem begins_symbol (s : Symbol) : begins (fun c => !Lexeme.isGap c) s.text := by cases s <;> decide

theorem Spells.symbol (s : Symbol) (hs : s.isClosed) : Spells P s.text [.symbol s] :=
  .lexeme (begins_symbol s) fun rest _ =>
    Lexeme.read?_symbol_closed hs rest

/-- After a piece that needs nothing of what follows. -/
theorem Spells.before (h : Spells (fun _ => True) s ks) (h' : Spells Q t ls) :
    Spells Q (s ++ t) (ks ++ ls) :=
  h.append h' fun _ _ => trivial

theorem begins_append {p : Char → Bool} (h : begins p s) : begins p (s ++ t) := by
  rw [begins] at h ⊢
  rw [String.toList_append]
  cases hs : s.toList with
  | nil =>
    rw [hs] at h
    cases h
  | cons c cs =>
    rw [hs] at h
    exact h

/-- Whether a text begins with a character that continues no word. -/
def startsApart (s : String) : Bool := begins (fun c => !Lexeme.continuesWord c) s

/-- After a piece that may end with a word. -/
theorem Spells.then (h : Spells Lexeme.Apart s ks) (h' : Spells Q t ls) (ht : startsApart t) :
    Spells Q (s ++ t) (ks ++ ls) := by
  refine h.append h' fun rest _ c hc => ?_
  rw [startsApart, begins, Option.any_eq_true] at ht
  obtain ⟨d, hd, hapart⟩ := ht
  rw [List.head?_append, hd] at hc
  cases hc
  simpa using hapart

/-- A symbol between spaces. -/
theorem Spells.spaced (s : Symbol) (ht : t = " " ++ (s.text ++ " ")) : Spells P t [.symbol s] := by
  have hsymbol : Spells (fun rest => rest.head? = some ' ') s.text [.symbol s] :=
    .lexeme (begins_symbol s) fun rest hrest => by
      obtain ⟨rest, rfl⟩ := List.head?_eq_some_iff.1 hrest
      exact Lexeme.read?_symbol_space s rest
  rw [ht]
  exact Spells.space.before (hsymbol.append .space fun _ _ => rfl)

/-- Pieces with a separator between them. -/
theorem Spells.separated {separator : String} {k : TokenKind}
    (hseparator : Spells (fun _ => True) separator [k]) (hapart : startsApart separator)
    {texts : List String} {kss : List (List TokenKind)}
    (h : List.Forall₂ (Spells Lexeme.Apart) texts kss) :
    Spells Lexeme.Apart (separator.intercalate texts) ([k].intercalate kss) := by
  induction h with
  | nil => exact .empty
  | @cons s ks texts kss hs hrest ih =>
    cases hrest with
    | nil => simpa using hs
    | cons hs' hrest =>
      rw [String.intercalate_cons_cons, List.intercalate_cons_cons, String.append_assoc,
        List.append_assoc]
      exact hs.then (hseparator.before ih) (begins_append hapart)

theorem Spells.word {x : String} (hx : Expr.isWord x) : Spells Lexeme.Apart x [.ofWord x] := by
  rw [Expr.isWord] at hx
  split at hx
  · cases hx
  · rename_i c cs hcs
    obtain ⟨hc, hcs'⟩ := Bool.and_eq_true_iff.1 hx
    have hgap : Lexeme.isGap c = false := by
      simp only [Lexeme.isGap, Bool.or_eq_false_iff, beq_eq_false_iff_ne]
      refine ⟨⟨⟨?_, ?_⟩, ?_⟩, ?_⟩ <;> (rintro rfl; exact absurd hc (by decide))
    refine .lexeme (by rw [begins, hcs]; simpa using hgap) fun rest hrest => ?_
    rw [hcs, Lexeme.read?_word hc (List.all_eq_true.1 hcs') hrest, ← hcs, String.ofList_toList]

theorem ofWord_eq_ident {x : String} (hx : Expr.isName x) : TokenKind.ofWord x = .ident x := by
  simp only [Expr.isName, Expr.keywords, Bool.and_eq_true, Bool.not_eq_true', List.contains_eq_mem,
    decide_eq_false_iff_not, List.mem_cons, List.not_mem_nil, or_false, not_or] at hx
  simp [TokenKind.ofWord, hx]

/-- A name is one token. -/
theorem Spells.name {x : String} (hx : Expr.isName x) : Spells Lexeme.Apart x [.ident x] := by
  rw [← ofWord_eq_ident hx]
  exact .word (Bool.and_eq_true_iff.1 hx).1

/-- A printable constant is one token. -/
theorem Spells.literal {v : Literal} (hv : v.isPrintable) : Spells Lexeme.Apart v.toText [v.kind] := by
  cases v with
  | undefined => exact .word (by decide)
  | null => exact .word (by decide)
  | bool b => cases b <;> exact .word (by decide)
  | number n => cases hv
  | string s =>
    have hs : ∀ c ∈ s.toList, 32 ≤ c.toNat ∧ c.toNat ≤ 126 := by
      simpa [Literal.isPrintable] using hv
    refine .lexeme ?_ fun rest _ => Lexeme.read?_string hs rest
    simp [begins, Literal.toText, Quoted.encode, Lexeme.isGap]

/-- Pieces with commas between them and symbols around them. -/
theorem Spells.listed {texts : List String} {kss : List (List TokenKind)}
    (h : List.Forall₂ (Spells Lexeme.Apart) texts kss) (left right : Symbol) (hleft : left.isClosed)
    (hright : right.isClosed) (hapart : startsApart right.text) :
    Spells Q (left.text ++ (Expr.commaSeparated texts ++ right.text))
      (.symbol left :: (Expr.commaKinds kss ++ [.symbol right])) :=
  have hcomma : Spells (fun _ => True) ", " [.symbol .comma] :=
    (Spells.symbol .comma (by decide)).before .space
  (Spells.symbol left hleft).before
    ((Spells.separated hcomma (by decide) h).then (.symbol right hright) hapart)

/-- A negation needs an operand that does not begin with an equals sign. -/
theorem Spells.bang (h : Spells P s ks) (hs : begins (· != '=') s) :
    Spells P ("!" ++ s) (.symbol .bang :: ks) := by
  have hbang : Spells (fun rest => ∃ c cs, rest = c :: cs ∧ c ≠ '=') "!" [.symbol .bang] :=
    .lexeme (by decide) fun rest hrest => by
      obtain ⟨c, cs, rfl, hc⟩ := hrest
      exact Lexeme.read?_bang hc cs
  rw [begins, Option.any_eq_true] at hs
  obtain ⟨c, hs, hc⟩ := hs
  obtain ⟨cs, hs⟩ := List.head?_eq_some_iff.1 hs
  exact hbang.append h fun rest _ => ⟨c, cs ++ rest, by rw [hs]; rfl, by simpa using hc⟩

/-- A text whose spelling is known splits into tokens of these kinds and the mark of the end. -/
theorem scan_of_spells (h : Spells Lexeme.Apart s ks) (base : Position) :
    ∃ ts range, ts.map kind = ks ∧ scan base s = .ok (ts ++ [⟨range, .stop⟩]) := by
  obtain ⟨ts, there, hts, hscan⟩ := h .start [] (by simp [Lexeme.Apart])
  have hend : scanFrom there [] = ([], there, []) := by
    rw [scanFrom]
    rfl
  rw [List.append_nil, hend, List.append_nil] at hscan
  refine ⟨ts.map fun t => (t.offsetBy base).stored, (Range.offsetBy ⟨there, there⟩ base).stored, ?_, ?_⟩
  · rw [← hts, List.map_map]
    rfl
  · rw [scan, hscan]
    dsimp only
    rw [List.map_append]
    rfl

end

end Token

namespace Expr

open Token (Spells begins begins_append)

theorem begins_of_isWord {x : String} (h : isWord x) : begins (· != '=') x := by
  rw [isWord] at h
  rw [begins]
  split at h
  · cases h
  · rename_i c cs hx
    rw [hx]
    have hc : c ≠ '=' := by
      rintro rfl
      exact absurd (Bool.and_eq_true_iff.1 h).1 (by decide)
    simpa using hc

theorem begins_literal {v : Literal} (hv : v.isPrintable) : begins (· != '=') v.toText := by
  cases v with
  | undefined => decide
  | null => decide
  | bool b => cases b <;> decide
  | number n => cases hv
  | string s => simp [Literal.toText, Quoted.encode, begins]

/-- No text of an expression begins with an equals sign. -/
theorem Printable.begins {e : Expr} (h : Printable e) : Token.begins (· != '=') e.toText := by
  induction h with
  | literal range hv => exact begins_literal hv
  | ident range hx => exact begins_of_isWord (Bool.and_eq_true_iff.1 hx).1
  | member range he hbase hx ih =>
    rw [toText, String.append_assoc]
    exact begins_append ih
  | index range he hbase hkey ih | call range he hbase hargs ih =>
    rw [toText, String.append_assoc, String.append_assoc]
    exact begins_append ih
  | @unary range op e hop he ih => cases op <;> exact begins_append (by decide)
  | @update range op before target htarget hplace ih =>
    cases before with
    | true => cases op <;> exact begins_append (by decide)
    | false => exact begins_append ih
  | @assign range op target value hop htarget hplace hvalue =>
    cases op <;> (simp only [toText, String.append_assoc]; exact begins_append (by decide))
  | _ => simp only [toText, String.append_assoc]; exact begins_append (by decide)

theorem text_binaryOp (op : BinaryOp) : op.text = op.symbol.text := by cases op <;> rfl

theorem text_updateOp (op : UpdateOp) : op.text = op.symbol.text := by cases op <;> rfl

/-- The operator of an assignment, with the spaces around it. -/
theorem spells_assignOp {P : List Char → Prop} {op : BinaryOp} (hop : op ∈ assignOps) :
    Spells P (" " ++ (op.text ++ "= ")) [.symbol (BinaryOp.assignSymbol (some op))] := by
  have htext : op.text ++ "= " = (BinaryOp.assignSymbol (some op)).text ++ " " := by
    simp only [assignOps, List.mem_cons, List.not_mem_nil, or_false] at hop
    rcases hop with rfl | rfl | rfl | rfl | rfl <;> decide
  rw [htext]
  exact .spaced _ rfl

/-- The text of a printable expression splits into its tokens. -/
theorem Printable.spells {e : Expr} (h : Printable e) : Spells Lexeme.Apart e.toText e.kinds := by
  induction h with
  | literal range hv => exact .literal hv
  | ident range hx => exact .name hx
  | member range he hbase hx ih =>
    rw [toText, kinds, String.append_assoc]
    exact ih.then ((Spells.symbol .dot (by decide)).before (.name hx)) (begins_append (by decide))
  | index range he hbase hkey ih ihkey =>
    rw [toText, kinds, String.append_assoc, String.append_assoc]
    exact ih.then ((Spells.symbol .leftBracket (by decide)).before
      (ihkey.then (.symbol .rightBracket (by decide)) (by decide))) (begins_append (by decide))
  | call range hcallee hbase hargs ih ihargs =>
    rw [toText, kinds, String.append_assoc, String.append_assoc, toTexts_eq, kindsAll_eq]
    have hcommas := List.forall₂_map_left_iff.2 (List.forall₂_map_right_iff.2
      (List.forall₂_same.2 ihargs))
    exact ih.then (.listed hcommas .leftParen .rightParen (by decide) (by decide) (by decide))
      (begins_append (by decide))
  | @unary range op e hop he ih =>
    rcases hop with rfl | rfl
    · exact ih.bang he.begins
    · have hword : Spells (fun _ => True) "typeof " [.typeofWord] :=
        (Spells.word (x := "typeof") (by decide)).then .space (by decide)
      exact hword.before ih
  | @binary range op left right hleft hright ih ih' =>
    have hop : Spells (fun _ => True) (" " ++ (op.text ++ " ")) [.symbol op.symbol] :=
      .spaced _ (by rw [text_binaryOp])
    have htext : (Expr.binary range op left right).toText =
        "(" ++ (left.toText ++ ((" " ++ (op.text ++ " ")) ++ (right.toText ++ ")"))) := by
      simp only [toText, String.append_assoc]
    rw [htext, kinds]
    exact (Spells.symbol .leftParen (by decide)).before (ih.then
      (hop.before (ih'.then (.symbol .rightParen (by decide)) (by decide)))
      (begins_append (begins_append (by decide))))
  | conditional range htest hyes hno ih ihyes ihno =>
    have hquestion : Spells (fun _ => True) " ? " [.symbol .question] := .spaced _ (by decide)
    have hcolon : Spells (fun _ => True) " : " [.symbol .colon] := .spaced _ (by decide)
    simp only [toText, kinds, String.append_assoc]
    exact (Spells.symbol .leftParen (by decide)).before (ih.then (hquestion.before (ihyes.then
      (hcolon.before (ihno.then (.symbol .rightParen (by decide)) (by decide)))
      (begins_append (by decide)))) (begins_append (by decide)))
  | @assign range op target value hop htarget hplace hvalue ih ihvalue =>
    have hend := ihvalue.then (Spells.symbol (P := Lexeme.Apart) .rightParen (by decide)) (by decide)
    cases op with
    | none =>
      have hequal : Spells (fun _ => True) " = " [.symbol .equal] := .spaced _ (by decide)
      simp only [toText, kinds, String.append_assoc]
      exact (Spells.symbol .leftParen (by decide)).before
        (ih.then (hequal.before hend) (begins_append (by decide)))
    | some op =>
      have htext : (Expr.assign range (some op) target value).toText =
          "(" ++ (target.toText ++ ((" " ++ (op.text ++ "= ")) ++ (value.toText ++ ")"))) := by
        simp only [toText, String.append_assoc]
      rw [htext, kinds]
      exact (Spells.symbol .leftParen (by decide)).before
        (ih.then ((spells_assignOp (hop op rfl)).before hend)
          (begins_append (begins_append (by decide))))
  | @update range op before target htarget hplace ih =>
    have hclosed : op.symbol.isClosed := by cases op <;> decide
    cases before with
    | true =>
      rw [toText, kinds, text_updateOp]
      exact (Spells.symbol op.symbol hclosed).before ih
    | false =>
      rw [toText, kinds, text_updateOp]
      exact ih.then (.symbol op.symbol hclosed) (by cases op <;> decide)
  | array range hitems ih =>
    rw [toText, kinds, String.append_assoc, toTexts_eq, kindsAll_eq]
    have hcommas := List.forall₂_map_left_iff.2 (List.forall₂_map_right_iff.2
      (List.forall₂_same.2 ih))
    exact .listed hcommas .leftBracket .rightBracket (by decide) (by decide) (by decide)
  | object range hkeys hvalues ih =>
    rw [toText, kinds, String.append_assoc, entryTexts_eq, entryKinds_eq]
    refine .listed (List.forall₂_map_left_iff.2 (List.forall₂_map_right_iff.2
      (List.forall₂_same.2 fun p hp => ?_))) .leftBrace .rightBrace (by decide) (by decide) (by decide)
    have hcolon : Spells (fun _ => True) ": " [.symbol .colon] :=
      (Spells.symbol .colon (by decide)).before .space
    rw [String.append_assoc]
    exact (Spells.name (hkeys p hp)).then (hcolon.before (ih p hp)) (begins_append (by decide))
  | @arrow range params body hparams hbody ih =>
    have hcommas : List.Forall₂ (Spells Lexeme.Apart) params (params.map fun x => [.ident x]) :=
      List.forall₂_map_right_iff.2 (List.forall₂_same.2 fun x hx => .name (hparams x hx))
    have harrow : Spells (fun _ => True) " => " [.symbol .arrow] := .spaced _ (by decide)
    have htext : (Expr.arrow range params body).toText =
        "(" ++ (("(" ++ (commaSeparated params ++ ")")) ++ (" => " ++ (body.toText ++ ")"))) := by
      have hopen : "((" = "(" ++ "(" := by decide
      have hclose : ") => " = ")" ++ " => " := by decide
      simp only [toText, hopen, hclose, String.append_assoc]
    rw [htext, kinds]
    exact (Spells.symbol .leftParen (by decide)).before
      ((Spells.listed hcommas .leftParen .rightParen (by decide) (by decide) (by decide)).before
        (harrow.before (ih.then (.symbol .rightParen (by decide)) (by decide))))

/-- The text of a statement splits into its tokens. -/
theorem PrintableStatement.spells {e : Expr} (h : PrintableStatement e) :
    Spells Lexeme.Apart e.toText e.kinds := by
  cases h with
  | expression he => exact he.spells
  | @letIn range x value hx hvalue =>
    have hlet : Spells (fun _ => True) "let " [.letWord] :=
      (Spells.word (x := "let") (by decide)).then .space (by decide)
    have hequal : Spells (fun _ => True) " = " [.symbol .equal] := .spaced _ (by decide)
    rw [toText, kinds, String.append_assoc, String.append_assoc]
    exact hlet.before ((Spells.name hx).then (hequal.before hvalue.spells) (begins_append (by decide)))

/-- The text of statements splits into their tokens. -/
theorem spells_sequence {items : List Expr} (h : ∀ e ∈ items, PrintableStatement e) (range : Range) :
    Spells Lexeme.Apart (sequence range items).toText (sequence range items).kinds := by
  have hsemicolon : Spells (fun _ => True) "; " [.symbol .semicolon] :=
    (Spells.symbol .semicolon (by decide)).before .space
  rw [toText, kinds, toTexts_eq, kindsAll_eq]
  exact .separated hsemicolon (by decide) (List.forall₂_map_left_iff.2
    (List.forall₂_map_right_iff.2 (List.forall₂_same.2 fun e he => (h e he).spells)))

end Expr

end ReactiveMarkup
