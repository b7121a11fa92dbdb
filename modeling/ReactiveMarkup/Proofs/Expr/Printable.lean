import ReactiveMarkup.Expr.Print
import ReactiveMarkup.Expr.Token.Scan

/-!
# Printable expressions

The expressions whose text is meant to be read back: names that are words, constants other than
numbers, and every form but those for declared values. What stands before a member, an index or a call
is written without parentheses, so it has to be no operator with its operand.

Main definitions: `Expr.Printable`, `Expr.PrintableStatement`, `Expr.unranged`, `Expr.kinds`.
-/
namespace ReactiveMarkup

/-- Whether a constant reads back from its text. -/
def Literal.isPrintable : Literal → Bool
  | undefined | null | bool _ => true
  | number _ => false
  | string s => s.toList.all fun c => 32 ≤ c.toNat && c.toNat ≤ 126

namespace Expr

/-- Words that are no names. -/
def keywords : List String := ["true", "false", "null", "undefined", "let", "typeof"]

/-- Whether a text is a word. -/
def isWord (x : String) : Bool :=
  match x.toList with
  | [] => false
  | c :: cs => Lexeme.startsWord c && cs.all Lexeme.continuesWord

/-- Whether a text is a name: a word that is no keyword. -/
def isName (x : String) : Bool := isWord x && !keywords.contains x

/-- Whether an expression is an operator and its operand. -/
def isPrefixed : Expr → Bool
  | unary .. | update .. => true
  | _ => false

/-- The operators that an assignment may combine the values with. -/
def assignOps : List BinaryOp := [.add, .sub, .mul, .div, .mod]

/-- Expressions that are read back from their texts. -/
inductive Printable : Expr → Prop
  | literal (range : Range) {v : Literal} (hv : v.isPrintable) : Printable (.literal range v)
  | ident (range : Range) {x : String} (hx : isName x) : Printable (.ident range x)
  | member (range : Range) {e : Expr} {x : String} (he : Printable e) (hbase : e.isPrefixed = false)
      (hx : isName x) : Printable (.member range e x)
  | index (range : Range) {e key : Expr} (he : Printable e) (hbase : e.isPrefixed = false)
      (hkey : Printable key) : Printable (.index range e key)
  | call (range : Range) {callee : Expr} {args : List Expr} (hcallee : Printable callee)
      (hbase : callee.isPrefixed = false) (hargs : ∀ e ∈ args, Printable e) :
      Printable (.call range callee args)
  | unary (range : Range) {op : UnaryOp} {e : Expr} (hop : op = .not ∨ op = .typeof)
      (he : Printable e) : Printable (.unary range op e)
  | binary (range : Range) (op : BinaryOp) {left right : Expr} (hleft : Printable left)
      (hright : Printable right) : Printable (.binary range op left right)
  | conditional (range : Range) {test yes no : Expr} (htest : Printable test) (hyes : Printable yes)
      (hno : Printable no) : Printable (.conditional range test yes no)
  | assign (range : Range) {op : Option BinaryOp} {target value : Expr}
      (hop : ∀ o, op = some o → o ∈ assignOps) (htarget : Printable target)
      (hplace : target.isAssignable) (hvalue : Printable value) :
      Printable (.assign range op target value)
  | update (range : Range) (op : UpdateOp) (before : Bool) {target : Expr} (htarget : Printable target)
      (hplace : target.isAssignable) : Printable (.update range op before target)
  | array (range : Range) {items : List Expr} (hitems : ∀ e ∈ items, Printable e) :
      Printable (.array range items)
  | object (range : Range) {entries : List (String × Expr)} (hkeys : ∀ p ∈ entries, isName p.1)
      (hvalues : ∀ p ∈ entries, Printable p.2) : Printable (.object range entries)
  | arrow (range : Range) {params : List String} {body : Expr} (hparams : ∀ x ∈ params, isName x)
      (hbody : Printable body) : Printable (.arrow range params body)

/-- Statements that are read back from their texts. -/
inductive PrintableStatement : Expr → Prop
  | expression {e : Expr} (he : Printable e) : PrintableStatement e
  | letIn (range : Range) {x : String} {value : Expr} (hx : isName x) (hvalue : Printable value) :
      PrintableStatement (.letIn range x value)

/-! ## Without ranges -/

mutual

/-- An expression that does not tell where it was read. -/
def unranged : Expr → Expr
  | literal _ v => literal Range.initial v
  | ident _ x => ident Range.initial x
  | get _ path => get Range.initial path
  | set _ path value => set Range.initial path value.unranged
  | template _ parts => template Range.initial (unrangedAll parts)
  | member _ e x => member Range.initial e.unranged x
  | index _ e key => index Range.initial e.unranged key.unranged
  | call _ callee args => call Range.initial callee.unranged (unrangedAll args)
  | unary _ op e => unary Range.initial op e.unranged
  | binary _ op left right => binary Range.initial op left.unranged right.unranged
  | conditional _ test yes no =>
    conditional Range.initial test.unranged yes.unranged no.unranged
  | assign _ op target value => assign Range.initial op target.unranged value.unranged
  | update _ op before target => update Range.initial op before target.unranged
  | array _ items => array Range.initial (unrangedAll items)
  | object _ entries => object Range.initial (unrangedEntries entries)
  | arrow _ params body => arrow Range.initial params body.unranged
  | letIn _ x value => letIn Range.initial x value.unranged
  | sequence _ items => sequence Range.initial (unrangedAll items)

/-- Expressions that do not tell where they were read. -/
def unrangedAll : List Expr → List Expr
  | [] => []
  | e :: es => e.unranged :: unrangedAll es

/-- Entries whose values do not tell where they were read. -/
def unrangedEntries : List (String × Expr) → List (String × Expr)
  | [] => []
  | (key, e) :: es => (key, e.unranged) :: unrangedEntries es

end

theorem isAssignable_unranged (e : Expr) : e.unranged.isAssignable = e.isAssignable := by
  cases e <;> rfl

theorem isAssignable_of_unranged_eq {e e' : Expr} (h : e'.unranged = e.unranged)
    (he : e.isAssignable) : e'.isAssignable := by
  rw [← isAssignable_unranged, h, isAssignable_unranged]
  exact he

/-! ## Tokens -/

end Expr

/-- The token of a constant. -/
def Literal.kind : Literal → TokenKind
  | undefined => .undefined
  | null => .null
  | bool b => .bool b
  | number n => .number n
  | string s => .string s

/-- The token of an operator in front. -/
def UnaryOp.kind : UnaryOp → TokenKind
  | not => .symbol .bang
  | negate => .symbol .minus
  | plus => .symbol .plus
  | typeof => .typeofWord

/-- The symbol of an operator between operands. -/
def BinaryOp.symbol : BinaryOp → Symbol
  | add => .plus
  | sub => .minus
  | mul => .star
  | div => .slash
  | mod => .percent
  | eq => .doubleEqual
  | ne => .notEqual
  | strictEq => .tripleEqual
  | strictNe => .notTripleEqual
  | lt => .less
  | le => .lessEqual
  | gt => .greater
  | ge => .greaterEqual
  | and => .doubleAnd
  | or => .doubleOr
  | coalesce => .doubleQuestion

/-- The symbol of an assignment. -/
def BinaryOp.assignSymbol : Option BinaryOp → Symbol
  | some .add => .plusEqual
  | some .sub => .minusEqual
  | some .mul => .starEqual
  | some .div => .slashEqual
  | some .mod => .percentEqual
  | _ => .equal

/-- The symbol of a step. -/
def UpdateOp.symbol : UpdateOp → Symbol
  | increment => .plusPlus
  | decrement => .minusMinus

namespace Expr

/-- Token lists with commas between them. -/
def commaKinds (kss : List (List TokenKind)) : List TokenKind :=
  [TokenKind.symbol .comma].intercalate kss

theorem commaKinds_idents (x y : String) (xs : List String) :
    commaKinds ((x :: y :: xs).map fun x => [.ident x]) =
      .ident x :: .symbol .comma :: commaKinds ((y :: xs).map fun x => [.ident x]) := by
  simp [commaKinds]

mutual

/-- The tokens of the text of an expression; those of declared values, which no text stands for, are
left out. -/
def kinds : Expr → List TokenKind
  | literal _ v => [v.kind]
  | ident _ x => [.ident x]
  | get .. | set .. | template .. => []
  | member _ e x => e.kinds ++ [.symbol .dot, .ident x]
  | index _ e key => e.kinds ++ .symbol .leftBracket :: (key.kinds ++ [.symbol .rightBracket])
  | call _ callee args =>
    callee.kinds ++ .symbol .leftParen :: (commaKinds (kindsAll args) ++ [.symbol .rightParen])
  | unary _ op e => op.kind :: e.kinds
  | binary _ op left right =>
    .symbol .leftParen :: (left.kinds ++ .symbol op.symbol :: (right.kinds ++ [.symbol .rightParen]))
  | conditional _ test yes no =>
    .symbol .leftParen :: (test.kinds ++ .symbol .question :: (yes.kinds ++ .symbol .colon ::
      (no.kinds ++ [.symbol .rightParen])))
  | assign _ op target value =>
    .symbol .leftParen :: (target.kinds ++ .symbol (BinaryOp.assignSymbol op) ::
      (value.kinds ++ [.symbol .rightParen]))
  | update _ op true target => .symbol op.symbol :: target.kinds
  | update _ op false target => target.kinds ++ [.symbol op.symbol]
  | array _ items =>
    .symbol .leftBracket :: (commaKinds (kindsAll items) ++ [.symbol .rightBracket])
  | object _ entries =>
    .symbol .leftBrace :: (commaKinds (entryKinds entries) ++ [.symbol .rightBrace])
  | arrow _ params body =>
    .symbol .leftParen :: ((.symbol .leftParen :: (commaKinds (params.map fun x => [.ident x]) ++
      [.symbol .rightParen])) ++ .symbol .arrow :: (body.kinds ++ [.symbol .rightParen]))
  | letIn _ x value => .letWord :: .ident x :: .symbol .equal :: value.kinds
  | sequence _ items => [TokenKind.symbol .semicolon].intercalate (kindsAll items)

/-- The tokens of the texts of expressions. -/
def kindsAll : List Expr → List (List TokenKind)
  | [] => []
  | e :: es => e.kinds :: kindsAll es

/-- The tokens of the texts of entries. -/
def entryKinds : List (String × Expr) → List (List TokenKind)
  | [] => []
  | (key, e) :: es => (.ident key :: .symbol .colon :: e.kinds) :: entryKinds es

end

theorem unrangedAll_eq (es : List Expr) : unrangedAll es = es.map unranged := by
  induction es with
  | nil => rfl
  | cons e es ih => rw [unrangedAll, ih, List.map_cons]

theorem kindsAll_eq (es : List Expr) : kindsAll es = es.map kinds := by
  induction es with
  | nil => rfl
  | cons e es ih => rw [kindsAll, ih, List.map_cons]

theorem entryKinds_eq (es : List (String × Expr)) :
    entryKinds es = es.map fun p => .ident p.1 :: .symbol .colon :: p.2.kinds := by
  induction es with
  | nil => rfl
  | cons e es ih => rw [entryKinds, ih, List.map_cons]

theorem toTexts_eq (es : List Expr) : toTexts es = es.map toText := by
  induction es with
  | nil => rfl
  | cons e es ih => rw [toTexts, ih, List.map_cons]

theorem entryTexts_eq (es : List (String × Expr)) :
    entryTexts es = es.map fun p => p.1 ++ ": " ++ p.2.toText := by
  induction es with
  | nil => rfl
  | cons e es ih => rw [entryTexts, ih, List.map_cons]

end Expr

end ReactiveMarkup
