import ReactiveMarkup.Expr.Parse
import ReactiveMarkup.Proofs.Basic
import ReactiveMarkup.Proofs.Expr.Nodes
import ReactiveMarkup.Proofs.Expr.Printable

/-!
# How expressions are written

The grammar of the language says which token lists an expression is written by. Parentheses stand
anywhere, a list may end in a comma, and an entry whose value is the variable of its name may be that
name alone. The grammar leaves open which of several trees a token list stands for. A token list by
which a tree is written has the names and the constants of the tree, in their order and no others.

Main definitions: `Form`, `Form.Written`, `Expr.WrittenBy`, `Expr.words`, `TokenKind.words`, `Spelled`,
`Expr.IsText`.
Main results: `Expr.WrittenBy.spelled`, `Expr.WrittenBy.isText`.
-/
namespace ReactiveMarkup

open Parse (memberName? entryKey? unaryOp? binaryOp? updateOp? assignOp?)
open ReactiveMarkup.Expr (commaKinds commaKinds_idents)

/-! ## The grammar -/

/-- What the grammar has rules for: an expression, an item of a list, which has a key in an object, and
items with commas between them. -/
inductive Form where
  | expr (e : Expr)
  | item (key : Option String) (e : Expr)
  | list (items : List (Option String × Expr))

namespace Form

/-- The parameters of an arrow function, with the arrow. -/
inductive Head : List String → List TokenKind → Prop
  | bare (x : String) : Head [x] [.ident x, .symbol .arrow]
  | enclosed (xs : List String) :
      Head xs (.symbol .leftParen :: (commaKinds (xs.map fun x => [.ident x]) ++
        [.symbol .rightParen, .symbol .arrow]))

/-- The token lists that forms are written by. -/
inductive Written : Form → List TokenKind → Prop
  | literal (range : Range) (v : Literal) : Written (expr (.literal range v)) [v.kind]
  | ident (range : Range) (x : String) : Written (expr (.ident range x)) [.ident x]
  | paren {e : Expr} {ks : List TokenKind} (he : Written (expr e) ks) :
      Written (expr e) (.symbol .leftParen :: (ks ++ [.symbol .rightParen]))
  | member (range : Range) {e : Expr} {ks : List TokenKind} {k : TokenKind} {x : String}
      (he : Written (expr e) ks) (hx : memberName? k = some x) :
      Written (expr (.member range e x)) (ks ++ [.symbol .dot, k])
  | index (range : Range) {e key : Expr} {ks ls : List TokenKind} (he : Written (expr e) ks)
      (hkey : Written (expr key) ls) :
      Written (expr (.index range e key)) (ks ++ .symbol .leftBracket :: (ls ++ [.symbol .rightBracket]))
  | call (range : Range) {callee : Expr} {args : List Expr} {ks ls : List TokenKind}
      (hcallee : Written (expr callee) ks) (hargs : Written (list (args.map fun e => (none, e))) ls) :
      Written (expr (.call range callee args))
        (ks ++ .symbol .leftParen :: (ls ++ [.symbol .rightParen]))
  | unary (range : Range) {op : UnaryOp} {e : Expr} {k : TokenKind} {ks : List TokenKind}
      (hop : unaryOp? k = some op) (he : Written (expr e) ks) :
      Written (expr (.unary range op e)) (k :: ks)
  | binary (range : Range) {op : BinaryOp} {left right : Expr} {k : TokenKind}
      {ks ls : List TokenKind} (hop : binaryOp? k = some op) (hleft : Written (expr left) ks)
      (hright : Written (expr right) ls) :
      Written (expr (.binary range op left right)) (ks ++ k :: ls)
  | conditional (range : Range) {test yes no : Expr} {ks ls ms : List TokenKind}
      (htest : Written (expr test) ks) (hyes : Written (expr yes) ls) (hno : Written (expr no) ms) :
      Written (expr (.conditional range test yes no))
        (ks ++ .symbol .question :: (ls ++ .symbol .colon :: ms))
  | assign (range : Range) {op : Option BinaryOp} {target value : Expr} {k : TokenKind}
      {ks ls : List TokenKind} (hop : assignOp? k = some op) (hplace : target.isAssignable)
      (htarget : Written (expr target) ks) (hvalue : Written (expr value) ls) :
      Written (expr (.assign range op target value)) (ks ++ k :: ls)
  | stepBefore (range : Range) {op : UpdateOp} {target : Expr} {k : TokenKind} {ks : List TokenKind}
      (hop : updateOp? k = some op) (hplace : target.isAssignable) (htarget : Written (expr target) ks) :
      Written (expr (.update range op true target)) (k :: ks)
  | stepAfter (range : Range) {op : UpdateOp} {target : Expr} {k : TokenKind} {ks : List TokenKind}
      (hop : updateOp? k = some op) (hplace : target.isAssignable) (htarget : Written (expr target) ks) :
      Written (expr (.update range op false target)) (ks ++ [k])
  | array (range : Range) {items : List Expr} {ks : List TokenKind}
      (hitems : Written (list (items.map fun e => (none, e))) ks) :
      Written (expr (.array range items)) (.symbol .leftBracket :: (ks ++ [.symbol .rightBracket]))
  | object (range : Range) {entries : List (String × Expr)} {ks : List TokenKind}
      (hentries : Written (list (entries.map fun p => (some p.1, p.2))) ks) :
      Written (expr (.object range entries)) (.symbol .leftBrace :: (ks ++ [.symbol .rightBrace]))
  | arrow (range : Range) {params : List String} {body : Expr} {ks ls : List TokenKind}
      (hhead : Head params ks) (hbody : Written (expr body) ls) :
      Written (expr (.arrow range params body)) (ks ++ ls)
  | plain {e : Expr} {ks : List TokenKind} (he : Written (expr e) ks) : Written (item none e) ks
  | entry {key : String} {e : Expr} {k : TokenKind} {ks : List TokenKind}
      (hkey : entryKey? k = some key) (he : Written (expr e) ks) :
      Written (item (some key) e) (k :: .symbol .colon :: ks)
  | shorthand (range : Range) (x : String) : Written (item (some x) (.ident range x)) [.ident x]
  | nil : Written (list []) []
  | last {key : Option String} {e : Expr} {ks : List TokenKind} (he : Written (item key e) ks) :
      Written (list [(key, e)]) ks
  | cons {key : Option String} {e : Expr} {items : List (Option String × Expr)}
      {ks ls : List TokenKind} (he : Written (item key e) ks) (hitems : Written (list items) ls) :
      Written (list ((key, e) :: items)) (ks ++ .symbol .comma :: ls)

/-- The token lists that statements are written by. -/
inductive Stated : Expr → List TokenKind → Prop
  | expression {e : Expr} {ks : List TokenKind} (he : Written (expr e) ks) : Stated e ks
  | letIn (range : Range) (x : String) {value : Expr} {ks : List TokenKind}
      (hvalue : Written (expr value) ks) :
      Stated (.letIn range x value) (.letWord :: .ident x :: .symbol .equal :: ks)

/-- The token lists that statements with semicolons between them are written by; further semicolons
may stand anywhere between the statements and around them. -/
inductive Listed : List Expr → List TokenKind → Prop
  | nil : Listed [] []
  | skip {es : List Expr} {ks : List TokenKind} (hes : Listed es ks) :
      Listed es (.symbol .semicolon :: ks)
  | last {e : Expr} {ks : List TokenKind} (he : Stated e ks) : Listed [e] ks
  | cons {e : Expr} {es : List Expr} {ks ls : List TokenKind} (he : Stated e ks) (hes : Listed es ls) :
      Listed (e :: es) (ks ++ .symbol .semicolon :: ls)

end Form

namespace Expr

open Form

/-- The token lists that a whole text is written by: one statement, or the sequence of several. -/
inductive WrittenBy : Expr → List TokenKind → Prop
  | statement {e : Expr} {ks : List TokenKind} (h : Listed [e] ks) : WrittenBy e ks
  | sequence (range : Range) {es : List Expr} {ks : List TokenKind} (h : Listed es ks)
      (hlength : 2 ≤ es.length) : WrittenBy (.sequence range es) ks

/-! ## What comes out of a text -/

/-- Whether a node is one of an expression: no declared value, no joined text, no statement, and an
assignment or a step only of what can be assigned to. -/
def isSpelled : Expr → Bool
  | get .. | set .. | template .. | letIn .. | sequence .. => false
  | assign _ _ target _ | update _ _ _ target => target.isAssignable
  | _ => true

/-- Expressions all of whose nodes are nodes of expressions. -/
def IsPlain (e : Expr) : Prop := ∀ d ∈ e.nodes, d.isSpelled

/-- Statements: expressions, and declarations of locals by expressions. -/
inductive IsStatement : Expr → Prop
  | expression {e : Expr} (he : e.IsPlain) : IsStatement e
  | letIn (range : Range) (x : String) {value : Expr} (hvalue : value.IsPlain) :
      IsStatement (.letIn range x value)

/-- What a text can stand for: a statement, or the sequence of two or more. -/
inductive IsText : Expr → Prop
  | statement {e : Expr} (he : e.IsStatement) : IsText e
  | sequence (range : Range) {es : List Expr} (hes : ∀ e ∈ es, e.IsStatement)
      (hlength : 2 ≤ es.length) : IsText (.sequence range es)

theorem IsPlain.isSource {e : Expr} (h : e.IsPlain) : e.IsSource := by
  intro d hd
  have hspelled := h d hd
  cases d <;> first | rfl | cases hspelled

theorem IsStatement.isSource {e : Expr} (h : e.IsStatement) : e.IsSource := by
  cases h with
  | expression he => exact he.isSource
  | letIn range x hvalue => exact isSource_iff.2 ⟨rfl, by simpa [children] using hvalue.isSource⟩

/-- In a text nothing stands for a declared value. -/
theorem IsText.isSource {e : Expr} (h : e.IsText) : e.IsSource := by
  cases h with
  | statement he => exact he.isSource
  | sequence range hes hlength => exact isSource_iff.2 ⟨rfl, fun d hd => (hes d hd).isSource⟩

theorem isPlain_of {e : Expr} (he : e.isSpelled) (h : ∀ c ∈ e.children, c.IsPlain) : e.IsPlain :=
  forall_nodes_iff.2 ⟨he, h⟩

end Expr

namespace Form

/-- The expressions of a form. -/
def exprs : Form → List Expr
  | expr e | item _ e => [e]
  | list items => items.map Prod.snd

/-- What is written is plain, by induction on how it is written. -/
theorem Written.isPlain {f : Form} {ks : List TokenKind} (h : Written f ks) :
    ∀ e ∈ f.exprs, e.IsPlain := by
  induction h with
  | paren _ ih => exact ih
  | plain _ ih | entry _ _ ih => exact ih
  | nil => simp [exprs]
  | last _ ih => simpa [exprs] using ih
  | cons _ _ ih ihitems => exact List.forall_mem_cons.2 ⟨ih _ (List.mem_singleton_self _), ihitems⟩
  | object range _ ih =>
    simp only [exprs, List.mem_singleton, forall_eq, List.map_map] at *
    exact Expr.isPlain_of rfl ih
  | _ =>
    -- a node over what is plain
    simp only [exprs, List.mem_singleton, forall_eq, List.map_map] at *
    refine Expr.isPlain_of ?_ ?_ <;> simp_all [Expr.isSpelled, Expr.children]

theorem Stated.isStatement {e : Expr} {ks : List TokenKind} (h : Stated e ks) : e.IsStatement := by
  cases h with
  | expression he => exact .expression (he.isPlain e (List.mem_singleton_self e))
  | letIn range x hvalue => exact .letIn range x (hvalue.isPlain _ (List.mem_singleton_self _))

theorem Listed.isStatement {es : List Expr} {ks : List TokenKind} (h : Listed es ks) :
    ∀ e ∈ es, e.IsStatement := by
  induction h with
  | nil => simp
  | skip _ ih => exact ih
  | last he => simpa using he.isStatement
  | cons he _ ih => simpa using ⟨he.isStatement, ih⟩

end Form

/-- The tree that a text is written by is a text's. -/
theorem Expr.WrittenBy.isText {e : Expr} {ks : List TokenKind} (h : e.WrittenBy ks) : e.IsText := by
  cases h with
  | statement h => exact .statement (h.isStatement e (List.mem_singleton_self e))
  | sequence range h hlength => exact .sequence range h.isStatement hlength

/-! ## Words -/

/-- Something in a tree that is written by a token. -/
inductive Word where
  /-- a constant, a variable, a parameter or a local -/
  | own (kind : TokenKind)
  | member (name : String)
  | key (name : String)
  /-- a key and the variable of its name, for which one token may stand -/
  | field (name : String)

namespace Expr

mutual

/-- The words of an expression from left to right. -/
def words : Expr → List Word
  | literal _ v => [.own v.kind]
  | ident _ x => [.own (.ident x)]
  | get .. => []
  | set _ _ value => value.words
  | template _ parts => wordsAll parts
  | member _ e x => e.words ++ [.member x]
  | index _ e key => e.words ++ key.words
  | call _ callee args => callee.words ++ wordsAll args
  | unary _ _ e => e.words
  | binary _ _ left right => left.words ++ right.words
  | conditional _ test yes no => test.words ++ yes.words ++ no.words
  | assign _ _ target value => target.words ++ value.words
  | update _ _ _ target => target.words
  | array _ items => wordsAll items
  | object _ entries => entryWords entries
  | arrow _ params body => params.map (fun x => .own (.ident x)) ++ body.words
  | letIn _ x value => .own (.ident x) :: value.words
  | sequence _ items => wordsAll items

/-- The words of expressions. -/
def wordsAll : List Expr → List Word
  | [] => []
  | e :: es => e.words ++ wordsAll es

/-- The words of entries. -/
def entryWords : List (String × Expr) → List Word
  | [] => []
  | (key, e) :: es =>
    (if e.identName? = some key then [.field key] else .key key :: e.words) ++ entryWords es

end

theorem wordsAll_eq (es : List Expr) : wordsAll es = es.flatMap words := by
  induction es with
  | nil => rfl
  | cons e es ih => rw [wordsAll, ih, List.flatMap_cons]

end Expr

namespace Form

/-- The words of an item. -/
def itemWords : Option String × Expr → List Word
  | (none, e) => e.words
  | (some key, e) => if e.identName? = some key then [.field key] else .key key :: e.words

/-- The words of a form. -/
def words : Form → List Word
  | expr e => e.words
  | item key e => itemWords (key, e)
  | list items => items.flatMap itemWords

theorem flatMap_itemWords_none (es : List Expr) :
    (es.map fun e => (none, e)).flatMap itemWords = Expr.wordsAll es := by
  rw [List.flatMap_map, Expr.wordsAll_eq]
  rfl

theorem flatMap_itemWords_some (es : List (String × Expr)) :
    (es.map fun p => (some p.1, p.2)).flatMap itemWords = Expr.entryWords es := by
  induction es with
  | nil => rfl
  | cons e es ih => rw [List.map_cons, List.flatMap_cons, ih, Expr.entryWords, itemWords]

end Form

namespace TokenKind

/-- Whether a token is a name or a constant. -/
def isWord : TokenKind → Bool
  | ident _ | number _ | string _ | bool _ | null | undefined => true
  | _ => false

/-- The names and constants of a token list, which may stand behind a dot. Behind a dot keywords are
names as well. -/
def wordsFrom (dot : Bool) : List TokenKind → List TokenKind
  | [] => []
  | k :: ks =>
    if dot || k.isWord then k :: wordsFrom (k.isSymbol .dot) ks else wordsFrom (k.isSymbol .dot) ks

/-- The names and constants of a token list. -/
def words (ks : List TokenKind) : List TokenKind := wordsFrom false ks

/-- Whether a token stands for no word and names none. -/
def isMark (k : TokenKind) : Bool := !k.isWord && !k.isSymbol .dot

variable {k : TokenKind} {ks : List TokenKind}

theorem words_mark (hk : k.isMark) (ks : List TokenKind) : words (k :: ks) = words ks := by
  rw [isMark, Bool.and_eq_true, Bool.not_eq_true', Bool.not_eq_true'] at hk
  simp [words, wordsFrom, hk]

theorem words_word (hk : k.isWord) (ks : List TokenKind) : words (k :: ks) = k :: words ks := by
  have hdot : k.isSymbol .dot = false := by cases k <;> first | rfl | cases hk
  simp [words, wordsFrom, hk, hdot]

theorem words_member {x : String} (hk : memberName? k = some x) (ks : List TokenKind) :
    words (.symbol .dot :: k :: ks) = k :: words ks := by
  have hdot : k.isSymbol .dot = false := by cases k <;> first | rfl | cases hk
  simp only [words, wordsFrom, hdot]
  rfl

theorem isWord_of_entryKey? {key : String} (hk : entryKey? k = some key) : k.isWord := by
  cases k <;> first | rfl | cases hk

theorem isMark_of_unaryOp? {op : UnaryOp} (hk : unaryOp? k = some op) : k.isMark := by
  cases k with
  | symbol s => cases s <;> first | rfl | cases hk
  | _ => first | rfl | cases hk

theorem isMark_of_binaryOp? {op : BinaryOp} (hk : binaryOp? k = some op) : k.isMark := by
  cases k with
  | symbol s => cases s <;> first | rfl | cases hk
  | _ => cases hk

theorem isMark_of_updateOp? {op : UpdateOp} (hk : updateOp? k = some op) : k.isMark := by
  cases k with
  | symbol s => cases s <;> first | rfl | cases hk
  | _ => cases hk

theorem isMark_of_assignOp? {op : Option BinaryOp} (hk : assignOp? k = some op) : k.isMark := by
  cases k with
  | symbol s => cases s <;> first | rfl | cases hk
  | _ => cases hk

end TokenKind

open TokenKind

/-- How words are written: each by one token, but for a key with the variable of its name, which is
written by one token or two. -/
inductive Spelled : List Word → List TokenKind → Prop
  | nil : Spelled [] []
  | own (k : TokenKind) {ws : List Word} {ks : List TokenKind} (h : Spelled ws ks) :
      Spelled (.own k :: ws) (k :: ks)
  | member {k : TokenKind} {x : String} {ws : List Word} {ks : List TokenKind}
      (hk : memberName? k = some x) (h : Spelled ws ks) : Spelled (.member x :: ws) (k :: ks)
  | key {k : TokenKind} {x : String} {ws : List Word} {ks : List TokenKind}
      (hk : entryKey? k = some x) (h : Spelled ws ks) : Spelled (.key x :: ws) (k :: ks)
  | shorthand (x : String) {ws : List Word} {ks : List TokenKind} (h : Spelled ws ks) :
      Spelled (.field x :: ws) (.ident x :: ks)
  | field {k : TokenKind} {x : String} {ws : List Word} {ks : List TokenKind}
      (hk : entryKey? k = some x) (h : Spelled ws ks) : Spelled (.field x :: ws) (k :: .ident x :: ks)

namespace Form

variable {ws : List Word} {ks ls : List TokenKind}

theorem Head.spelled {params : List String} (h : Head params ks)
    (hrest : Spelled ws (TokenKind.words ls)) :
    Spelled (params.map (fun x => .own (.ident x)) ++ ws) (TokenKind.words (ks ++ ls)) := by
  cases h with
  | bare x =>
    rw [List.cons_append, words_word rfl, List.singleton_append, words_mark rfl]
    exact .own _ hrest
  | enclosed =>
    have hnames (ms : List TokenKind) (hms : Spelled ws (TokenKind.words ms)) :
        Spelled (params.map (fun x => .own (.ident x)) ++ ws)
          (TokenKind.words (commaKinds (params.map fun x => [.ident x]) ++ ms)) := by
      induction params with
      | nil => exact hms
      | cons x xs ih =>
        cases xs with
        | nil => exact words_word (k := .ident x) rfl ms ▸ .own _ hms
        | cons y ys =>
          rw [commaKinds_idents, List.cons_append, List.cons_append, words_word rfl, words_mark rfl]
          exact .own _ ih
    rw [List.cons_append, words_mark rfl, List.append_assoc]
    refine hnames _ ?_
    rw [List.cons_append, words_mark rfl, List.singleton_append, words_mark rfl]
    exact hrest

/-- What is written before a token list adds its words, by induction on how it is written. The
induction hypotheses are used from the last part to the first, each with the parts behind it. -/
theorem Written.spelled {f : Form} (h : Written f ks) (hrest : Spelled ws (TokenKind.words ls)) :
    Spelled (f.words ++ ws) (TokenKind.words (ks ++ ls)) := by
  induction h generalizing ws ls with
  | literal range v =>
    rw [List.singleton_append, words_word (by cases v <;> rfl)]
    exact .own _ hrest
  | ident range x =>
    rw [List.singleton_append, words_word rfl]
    exact .own _ hrest
  | paren _ ih =>
    rw [List.cons_append, words_mark rfl, List.append_assoc]
    exact ih (by rwa [List.singleton_append, words_mark rfl])
  | member range _ hx ih =>
    rw [words, Expr.words, List.append_assoc, List.append_assoc]
    refine ih ?_
    simp only [List.cons_append, List.nil_append]
    rw [words_member hx]
    exact .member hx hrest
  | index range _ _ ih ihkey =>
    simp only [words, Expr.words, List.append_assoc, List.cons_append, List.nil_append] at *
    refine ih ?_
    rw [words_mark rfl]
    exact ihkey (by rwa [words_mark rfl])
  | call range _ _ ih ihargs =>
    simp only [words, Expr.words, ← flatMap_itemWords_none, List.append_assoc, List.cons_append,
      List.nil_append] at *
    refine ih ?_
    rw [words_mark rfl]
    exact ihargs (by rwa [words_mark rfl])
  | unary range hop _ ih =>
    rw [List.cons_append, words_mark (isMark_of_unaryOp? hop)]
    exact ih hrest
  | binary range hop _ _ ih ihright =>
    simp only [words, Expr.words, List.append_assoc, List.cons_append] at *
    refine ih ?_
    rw [words_mark (isMark_of_binaryOp? hop)]
    exact ihright hrest
  | conditional range _ _ _ ih ihyes ihno =>
    simp only [words, Expr.words, List.append_assoc, List.cons_append] at *
    refine ih ?_
    rw [words_mark rfl]
    refine ihyes ?_
    rw [words_mark rfl]
    exact ihno hrest
  | assign range hop _ _ _ ih ihvalue =>
    simp only [words, Expr.words, List.append_assoc, List.cons_append] at *
    refine ih ?_
    rw [words_mark (isMark_of_assignOp? hop)]
    exact ihvalue hrest
  | stepBefore range hop _ _ ih =>
    rw [List.cons_append, words_mark (isMark_of_updateOp? hop)]
    exact ih hrest
  | stepAfter range hop _ _ ih =>
    rw [List.append_assoc]
    refine ih ?_
    rwa [List.singleton_append, words_mark (isMark_of_updateOp? hop)]
  | array range _ ih =>
    rw [words, Expr.words, ← flatMap_itemWords_none, List.cons_append, words_mark rfl, List.append_assoc]
    exact ih (by rwa [List.singleton_append, words_mark rfl])
  | object range _ ih =>
    rw [words, Expr.words, ← flatMap_itemWords_some, List.cons_append, words_mark rfl, List.append_assoc]
    exact ih (by rwa [List.singleton_append, words_mark rfl])
  | arrow range hhead _ ih =>
    rw [words, Expr.words, List.append_assoc, List.append_assoc]
    exact hhead.spelled (ih hrest)
  | plain _ ih => exact ih hrest
  | @entry key e k ks hkey he ih =>
    have he := ih hrest
    rw [List.cons_append, words_word (isWord_of_entryKey? hkey), List.cons_append, words_mark rfl]
    rw [words, itemWords]
    split
    · rename_i hname
      obtain ⟨range, rfl⟩ : ∃ range, e = .ident range key := by
        cases e <;> simp_all [Expr.identName?]
      change Spelled (.own (.ident key) :: ws) _ at he
      generalize TokenKind.words (ks ++ ls) = ms at he ⊢
      cases he with
      | own _ h => exact .field hkey h
    · exact .key hkey he
  | shorthand range x =>
    simp only [words, itemWords, Expr.identName?, if_true, List.cons_append, List.nil_append]
    rw [words_word rfl]
    exact .shorthand x hrest
  | nil => exact hrest
  | last _ ih => simpa [words] using ih hrest
  | cons _ _ ih ihitems =>
    simp only [words, List.flatMap_cons, List.append_assoc, List.cons_append] at *
    refine ih ?_
    rw [words_mark rfl]
    exact ihitems hrest

theorem Stated.spelled {e : Expr} (h : Stated e ks) (hrest : Spelled ws (TokenKind.words ls)) :
    Spelled (e.words ++ ws) (TokenKind.words (ks ++ ls)) := by
  cases h with
  | expression he => exact he.spelled hrest
  | letIn range x hvalue =>
    simp only [List.cons_append]
    rw [words_mark rfl, words_word rfl, words_mark rfl]
    exact .own _ (hvalue.spelled hrest)

theorem Listed.spelled {es : List Expr} (h : Listed es ks) :
    Spelled (es.flatMap Expr.words) (TokenKind.words ks) := by
  induction h with
  | nil => exact .nil
  | skip _ ih =>
    rw [words_mark rfl]
    exact ih
  | @last e ks he =>
    have hlast : Spelled (e.words ++ []) (TokenKind.words (ks ++ [])) := he.spelled .nil
    simpa using hlast
  | cons he _ ih =>
    rw [List.flatMap_cons]
    refine he.spelled ?_
    rw [words_mark rfl]
    exact ih

end Form

/-- A token list by which a text's tree is written has the words of the tree. -/
theorem Expr.WrittenBy.spelled {e : Expr} {ks : List TokenKind} (h : e.WrittenBy ks) :
    Spelled e.words (TokenKind.words ks) := by
  cases h with
  | statement h => simpa using h.spelled
  | sequence range h hlength =>
    rw [Expr.words, Expr.wordsAll_eq]
    exact h.spelled

end ReactiveMarkup
