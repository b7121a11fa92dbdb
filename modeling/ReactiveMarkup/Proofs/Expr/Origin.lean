import ReactiveMarkup.Proofs.Expr.Grammar

/-!
# What trees are made of

The grammar says by which tokens a tree is written, and leaves the ranges of its nodes open. Here each
rule gives its node the range from the first part to the last one: a part is a token or a tree made of
tokens, and parentheses are no part of what stands in them. The tree of a text is made of its tokens in
this way.

Main definitions: `Form.Made`, `Expr.MadeOf`.
Main results: `Form.Made.written`, `Expr.MadeOf.writtenBy`.
-/
namespace ReactiveMarkup

open Parse (memberName? entryKey? unaryOp? binaryOp? updateOp? assignOp?)

/-- The kinds of tokens. -/
abbrev Parse.kindsOf (ts : List Token) : List TokenKind := ts.map (·.kind)

open Parse (kindsOf)

namespace Form

/-- The forms that are made of token lists. -/
inductive Made : Form → List Token → Prop
  | literal {t : Token} {v : Literal} (ht : t.kind = v.kind) : Made (expr (.literal t.range v)) [t]
  | ident {t : Token} {x : String} (ht : t.kind = .ident x) : Made (expr (.ident t.range x)) [t]
  | paren {e : Expr} {opening closing : Token} {ts : List Token}
      (hopening : opening.kind = .symbol .leftParen) (he : Made (expr e) ts)
      (hclosing : closing.kind = .symbol .rightParen) : Made (expr e) (opening :: (ts ++ [closing]))
  | member {e : Expr} {dot name : Token} {x : String} {ts : List Token} (he : Made (expr e) ts)
      (hdot : dot.kind = .symbol .dot) (hname : memberName? name.kind = some x) :
      Made (expr (.member (e.range.join name.range) e x)) (ts ++ [dot, name])
  | index {e key : Expr} {opening closing : Token} {ts us : List Token} (he : Made (expr e) ts)
      (hopening : opening.kind = .symbol .leftBracket) (hkey : Made (expr key) us)
      (hclosing : closing.kind = .symbol .rightBracket) :
      Made (expr (.index (e.range.join closing.range) e key)) (ts ++ opening :: (us ++ [closing]))
  | call {callee : Expr} {args : List Expr} {opening closing : Token} {ts us : List Token}
      (hcallee : Made (expr callee) ts) (hopening : opening.kind = .symbol .leftParen)
      (hargs : Made (list (args.map fun e => (none, e))) us)
      (hclosing : closing.kind = .symbol .rightParen) :
      Made (expr (.call (callee.range.join closing.range) callee args))
        (ts ++ opening :: (us ++ [closing]))
  | unary {op : UnaryOp} {e : Expr} {t : Token} {ts : List Token} (hop : unaryOp? t.kind = some op)
      (he : Made (expr e) ts) : Made (expr (.unary (t.range.join e.range) op e)) (t :: ts)
  | binary {op : BinaryOp} {left right : Expr} {t : Token} {ts us : List Token}
      (hleft : Made (expr left) ts) (hop : binaryOp? t.kind = some op)
      (hright : Made (expr right) us) :
      Made (expr (.binary (left.range.join right.range) op left right)) (ts ++ t :: us)
  | conditional {test yes no : Expr} {question colon : Token} {ts us vs : List Token}
      (htest : Made (expr test) ts) (hquestion : question.kind = .symbol .question)
      (hyes : Made (expr yes) us) (hcolon : colon.kind = .symbol .colon) (hno : Made (expr no) vs) :
      Made (expr (.conditional (test.range.join no.range) test yes no))
        (ts ++ question :: (us ++ colon :: vs))
  | assign {op : Option BinaryOp} {target value : Expr} {t : Token} {ts us : List Token}
      (htarget : Made (expr target) ts) (hop : assignOp? t.kind = some op)
      (hplace : target.isAssignable) (hvalue : Made (expr value) us) :
      Made (expr (.assign (target.range.join value.range) op target value)) (ts ++ t :: us)
  | stepBefore {op : UpdateOp} {target : Expr} {t : Token} {ts : List Token}
      (hop : updateOp? t.kind = some op) (hplace : target.isAssignable)
      (htarget : Made (expr target) ts) :
      Made (expr (.update (t.range.join target.range) op true target)) (t :: ts)
  | stepAfter {op : UpdateOp} {target : Expr} {t : Token} {ts : List Token}
      (htarget : Made (expr target) ts) (hop : updateOp? t.kind = some op)
      (hplace : target.isAssignable) :
      Made (expr (.update (target.range.join t.range) op false target)) (ts ++ [t])
  | array {items : List Expr} {opening closing : Token} {ts : List Token}
      (hopening : opening.kind = .symbol .leftBracket)
      (hitems : Made (list (items.map fun e => (none, e))) ts)
      (hclosing : closing.kind = .symbol .rightBracket) :
      Made (expr (.array (opening.range.join closing.range) items)) (opening :: (ts ++ [closing]))
  | object {entries : List (String × Expr)} {opening closing : Token} {ts : List Token}
      (hopening : opening.kind = .symbol .leftBrace)
      (hentries : Made (list (entries.map fun p => (some p.1, p.2))) ts)
      (hclosing : closing.kind = .symbol .rightBrace) :
      Made (expr (.object (opening.range.join closing.range) entries)) (opening :: (ts ++ [closing]))
  | arrow {params : List String} {body : Expr} {t : Token} {ts us : List Token}
      (hhead : Head params (kindsOf (t :: ts))) (hbody : Made (expr body) us) :
      Made (expr (.arrow (t.range.join body.range) params body)) (t :: ts ++ us)
  | plain {e : Expr} {ts : List Token} (he : Made (expr e) ts) : Made (item none e) ts
  | entry {name : String} {e : Expr} {key colon : Token} {ts : List Token}
      (hkey : entryKey? key.kind = some name) (hcolon : colon.kind = .symbol .colon)
      (he : Made (expr e) ts) : Made (item (some name) e) (key :: colon :: ts)
  | shorthand {t : Token} {x : String} (ht : t.kind = .ident x) :
      Made (item (some x) (.ident t.range x)) [t]
  | nil : Made (list []) []
  | last {key : Option String} {e : Expr} {ts : List Token} (he : Made (item key e) ts) :
      Made (list [(key, e)]) ts
  | cons {key : Option String} {e : Expr} {items : List (Option String × Expr)} {comma : Token}
      {ts us : List Token} (he : Made (item key e) ts) (hcomma : comma.kind = .symbol .comma)
      (hitems : Made (list items) us) : Made (list ((key, e) :: items)) (ts ++ comma :: us)

/-- The statements that are made of token lists. -/
inductive MadeStatement : Expr → List Token → Prop
  | expression {e : Expr} {ts : List Token} (he : Made (expr e) ts) : MadeStatement e ts
  | letIn {x : String} {value : Expr} {word name equal : Token} {ts : List Token}
      (hword : word.kind = .letWord) (hname : name.kind = .ident x)
      (hequal : equal.kind = .symbol .equal) (hvalue : Made (expr value) ts) :
      MadeStatement (.letIn (word.range.join value.range) x value) (word :: name :: equal :: ts)

/-- The statements, with semicolons between them, that are made of token lists. -/
inductive MadeStatements : List Expr → List Token → Prop
  | nil : MadeStatements [] []
  | skip {es : List Expr} {t : Token} {ts : List Token} (ht : t.kind = .symbol .semicolon)
      (hes : MadeStatements es ts) : MadeStatements es (t :: ts)
  | last {e : Expr} {ts : List Token} (he : MadeStatement e ts) : MadeStatements [e] ts
  | cons {e : Expr} {es : List Expr} {t : Token} {ts us : List Token} (he : MadeStatement e ts)
      (ht : t.kind = .symbol .semicolon) (hes : MadeStatements es us) :
      MadeStatements (e :: es) (ts ++ t :: us)

/-- What is made of tokens is written by their kinds. -/
theorem Made.written {f : Form} {ts : List Token} (h : Made f ts) : Written f (kindsOf ts) := by
  induction h with
  | literal ht =>
    rw [kindsOf, List.map_singleton, ht]
    exact .literal _ _
  | ident ht =>
    rw [kindsOf, List.map_singleton, ht]
    exact .ident _ _
  | paren hopening _ hclosing ih => simpa [hopening, hclosing] using ih.paren
  | member _ hdot hname ih => simpa [hdot] using ih.member _ hname
  | index _ hopening _ hclosing ih ihkey => simpa [hopening, hclosing] using ih.index _ ihkey
  | call _ hopening _ hclosing ih ihargs => simpa [hopening, hclosing] using ih.call _ ihargs
  | unary hop _ ih => exact ih.unary _ hop
  | binary _ hop _ ih ihright => simpa using ih.binary _ hop ihright
  | conditional _ hquestion _ hcolon _ ih ihyes ihno =>
    simpa [hquestion, hcolon] using ih.conditional _ ihyes ihno
  | assign _ hop hplace _ ih ihvalue => simpa using ih.assign _ hop hplace ihvalue
  | stepBefore hop hplace _ ih => exact ih.stepBefore _ hop hplace
  | stepAfter _ hop hplace ih => simpa using ih.stepAfter _ hop hplace
  | array hopening _ hclosing ih => simpa [hopening, hclosing] using ih.array _
  | object hopening _ hclosing ih => simpa [hopening, hclosing] using ih.object _
  | arrow hhead _ ih => simpa using ih.arrow _ hhead
  | plain _ ih => exact ih.plain
  | entry hkey hcolon _ ih => simpa [hcolon] using ih.entry hkey
  | shorthand ht =>
    rw [kindsOf, List.map_singleton, ht]
    exact .shorthand _ _
  | nil => exact .nil
  | last _ ih => exact ih.last
  | cons _ hcomma _ ih ihitems => simpa [hcomma] using ih.cons ihitems

theorem MadeStatement.stated {e : Expr} {ts : List Token} (h : MadeStatement e ts) :
    Stated e (kindsOf ts) := by
  cases h with
  | expression he => exact .expression he.written
  | letIn hword hname hequal hvalue =>
    simpa [hword, hname, hequal] using Stated.letIn _ _ hvalue.written

theorem MadeStatements.listed {es : List Expr} {ts : List Token} (h : MadeStatements es ts) :
    Listed es (kindsOf ts) := by
  induction h with
  | nil => exact .nil
  | skip ht _ ih => simpa [ht] using ih.skip
  | last he => exact .last he.stated
  | cons he ht _ ih => simpa [ht] using Listed.cons he.stated ih

end Form

namespace Expr

open Form

/-- The trees that are made of whole texts: one statement, or the sequence of several. -/
inductive MadeOf : Expr → List Token → Prop
  | statement {e : Expr} {ts : List Token} (h : MadeStatements [e] ts) : MadeOf e ts
  | sequence {first last : Expr} {es : List Expr} {ts : List Token}
      (h : MadeStatements (first :: (es ++ [last])) ts) :
      MadeOf (.sequence (first.range.join last.range) (first :: (es ++ [last]))) ts

theorem MadeOf.writtenBy {e : Expr} {ts : List Token} (h : e.MadeOf ts) : e.WrittenBy (kindsOf ts) := by
  cases h with
  | statement h => exact .statement h.listed
  | sequence h => exact .sequence _ h.listed (by simp)

end Expr

end ReactiveMarkup
