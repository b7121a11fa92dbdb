import ReactiveMarkup.Expr.Parse
import ReactiveMarkup.Proofs.Basic
import ReactiveMarkup.Proofs.Expr.Spelling

/-!
# Reading back what was printed

The parser reads the tokens of a printable expression as that expression, but for the ranges. Operands
are read whatever follows them that does not extend them, so the forms that are put together from them
can be followed through the parser one function at a time. Where a form begins with a parenthesis, the
tokens after it are not those of parameters, so it is not taken for an arrow function.

Main definitions: `Parse.Reads`, `Parse.Opens`, `Parse.ChainReads`, `Parse.UnaryReads`.
Main results: `Expr.parse_toText`.
-/
namespace ReactiveMarkup.Parse

open ReactiveMarkup.Expr

/-! ## Readings -/

/-- A reading that gives a value with a property and leaves `rest`. -/
def Reads {α : Type} {bound : Nat} (r : ParseResult α bound) (P : α → Prop) (rest : List Token) : Prop :=
  ∃ p, r = .ok p ∧ P p.value ∧ p.rest = rest

/-- A reading that gives an expression, but for the ranges, and leaves `rest`. -/
abbrev ReadsAs {bound : Nat} (r : ParseResult Expr bound) (e : Expr) (rest : List Token) : Prop :=
  Reads r (fun e' => e'.unranged = e.unranged) rest

section

variable {α β : Type} {m n : Nat} {P : α → Prop} {Q : β → Prop} {rest out : List Token}

theorem reads_ok {a : α} {h : rest.length < n} (ha : P a) :
    Reads (.ok ⟨a, rest, h⟩ : ParseResult α n) P rest := ⟨_, rfl, ha, rfl⟩

theorem reads_bind {r : ParseResult α m} {k : Parsed Token α m → ParseResult β n} (hr : Reads r P rest)
    (hk : ∀ a (h : rest.length < m), P a → Reads (k ⟨a, rest, h⟩) Q out) : Reads (r >>= k) Q out := by
  obtain ⟨⟨a, rest, h⟩, rfl, ha, rfl⟩ := hr
  exact hk a h ha

theorem Reads.mono {r : ParseResult α m} {P' : α → Prop} (hr : Reads r P rest) (h : ∀ a, P a → P' a) :
    Reads r P' rest := by
  obtain ⟨p, hp, ha, hrest⟩ := hr
  exact ⟨p, hp, h _ ha, hrest⟩

end

/-! ## What follows a form -/

/-- The next token, if there is one, satisfies `p`. -/
def Follow (p : TokenKind → Bool) (rest : List Token) : Prop := ∀ t ∈ rest.head?, p t.kind

theorem follow_cons {p : TokenKind → Bool} {t : Token} {rest : List Token} (h : p t.kind) :
    Follow p (t :: rest) := by
  intro u hu
  cases hu
  exact h

theorem Follow.mono {p q : TokenKind → Bool} {rest : List Token} (h : Follow p rest)
    (hpq : ∀ k, p k → q k) : Follow q rest := fun t ht => hpq _ (h t ht)

/-- Whether a token begins a member, an index or a call of what stands before it. -/
def extendsChain : TokenKind → Bool
  | .symbol .dot | .symbol .leftBracket | .symbol .leftParen => true
  | _ => false

/-- Whether a token would go on with an operand. -/
def extendsOperand (k : TokenKind) : Bool := extendsChain k || (updateOp? k).isSome

/-- Whether an operand ends before a token. -/
def endsOperand (k : TokenKind) : Bool := !extendsOperand k

/-- Whether operands and the operators between them end before a token. -/
def endsBinary (k : TokenKind) : Bool := endsOperand k && (binaryOp? k).isNone

/-- Whether a conditional ends before a token. -/
def endsConditional (k : TokenKind) : Bool := endsBinary k && !k.isSymbol .question

/-- Whether an expression ends before a token. -/
def endsForm (k : TokenKind) : Bool :=
  endsConditional k && (assignOp? k).isNone && !k.isSymbol .arrow

theorem endsForm_iff {k : TokenKind} : endsForm k ↔
    endsConditional k ∧ (assignOp? k).isNone ∧ (!k.isSymbol .arrow) := by
  rw [endsForm, Bool.and_eq_true, Bool.and_eq_true, and_assoc]

/-! ## How forms begin -/

/-- Whether a form may begin with a token. -/
def startsForm : TokenKind → Bool
  | .ident _ | .number _ | .string _ | .bool _ | .null | .undefined | .typeofWord => true
  | .symbol s => [Symbol.leftParen, .leftBracket, .leftBrace, .bang, .plusPlus, .minusMinus].contains s
  | _ => false

theorem not_closing_of_startsForm {k : TokenKind} (h : startsForm k) :
    k.isSymbol .rightParen = false ∧ k.isSymbol .rightBracket = false ∧
      k.isSymbol .semicolon = false ∧ k.isStop = false := by
  cases k with
  | symbol s => cases s <;> first | exact ⟨rfl, rfl, rfl, rfl⟩ | cases h
  | _ => first | exact ⟨rfl, rfl, rfl, rfl⟩ | cases h

theorem not_separator_of_extendsOperand {k : TokenKind} (h : extendsOperand k) :
    k.isSymbol .comma = false ∧ k.isSymbol .rightParen = false ∧ k.isSymbol .arrow = false := by
  cases k with
  | symbol s => cases s <;> first | exact ⟨rfl, rfl, rfl⟩ | cases h
  | _ => exact ⟨rfl, rfl, rfl⟩

/-- Tokens behind an opening parenthesis that are not those of parameters. -/
def Guarded (ks : List TokenKind) : Prop :=
  ∃ k ls, ks = k :: ls ∧ k.isSymbol .rightParen = false ∧ ∀ x, k = .ident x →
    ∃ k' ls', ls = k' :: ls' ∧ k'.isSymbol .comma = false ∧ k'.isSymbol .rightParen = false

theorem Guarded.append {ks : List TokenKind} (h : Guarded ks) (ls : List TokenKind) :
    Guarded (ks ++ ls) := by
  obtain ⟨k, ms, rfl, hk, hident⟩ := h
  refine ⟨k, ms ++ ls, rfl, hk, fun x hx => ?_⟩
  obtain ⟨k', ms', rfl, hk'⟩ := hident x hx
  exact ⟨k', ms' ++ ls, rfl, hk'⟩

/-- How the tokens of an expression begin: after a name comes what extends it, if anything, and after
a parenthesis come no parameters. -/
structure Opens (ks : List TokenKind) : Prop where
  start : ∃ k ls, ks = k :: ls ∧ startsForm k
  ident : ∀ x ls, ks = .ident x :: ls → ls = [] ∨ ∃ k ls', ls = k :: ls' ∧ extendsOperand k
  paren : ∀ ls, ks = .symbol .leftParen :: ls → Guarded ls

/-- What extends an operand leaves its beginning as it is. -/
theorem Opens.extend {ks : List TokenKind} (h : Opens ks) {k : TokenKind} (hk : extendsOperand k)
    (ls : List TokenKind) : Opens (ks ++ k :: ls) := by
  obtain ⟨k₀, ks, rfl, hstart⟩ := h.start
  refine ⟨⟨k₀, ks ++ k :: ls, rfl, hstart⟩, fun x ms heq => .inr ?_, fun ms heq => ?_⟩
  · obtain ⟨rfl, rfl⟩ := List.cons.inj heq
    rcases h.ident x ks rfl with rfl | ⟨k', ks', rfl, hk'⟩
    · exact ⟨k, ls, rfl, hk⟩
    · exact ⟨k', ks' ++ k :: ls, rfl, hk'⟩
  · obtain ⟨rfl, rfl⟩ := List.cons.inj heq
    exact (h.paren ks rfl).append _

/-- A form in parentheses is guarded by the operator after its first operand. -/
theorem Opens.guarded {ks : List TokenKind} (h : Opens ks) {k : TokenKind}
    (hcomma : k.isSymbol .comma = false) (hparen : k.isSymbol .rightParen = false)
    (ls : List TokenKind) : Guarded (ks ++ k :: ls) := by
  obtain ⟨k₀, ks, rfl, hstart⟩ := h.start
  refine ⟨k₀, ks ++ k :: ls, rfl, (not_closing_of_startsForm hstart).1, fun x hx => ?_⟩
  subst hx
  rcases h.ident x ks rfl with rfl | ⟨k', ks', rfl, hk'⟩
  · exact ⟨k, ls, rfl, hcomma, hparen⟩
  · obtain ⟨hcomma', hparen', -⟩ := not_separator_of_extendsOperand hk'
    exact ⟨k', ks' ++ k :: ls, rfl, hcomma', hparen'⟩

/-- No expression begins with the symbol that closes a list of them. -/
theorem Opens.not_closing {ks : List TokenKind} (h : Opens ks) {ts : List Token}
    (hts : ts.map (·.kind) = ks) {close : Symbol} (hclose : close = .rightParen ∨ close = .rightBracket)
    (rest : List Token) : Follow (fun k => !k.isSymbol close) (ts ++ rest) := by
  obtain ⟨k, ls, hks, hstart⟩ := h.start
  obtain ⟨t, us, rfl, rfl, -⟩ := List.map_eq_cons_iff.1 (hts.trans hks)
  obtain ⟨hparen, hbracket, -⟩ := not_closing_of_startsForm hstart
  refine follow_cons ?_
  rcases hclose with rfl | rfl
  · rw [hparen]
    rfl
  · rw [hbracket]
    rfl

theorem opens_of_start {k : TokenKind} {ls : List TokenKind} (hk : startsForm k)
    (hident : ∀ x, k ≠ .ident x) (hparen : k ≠ .symbol .leftParen) : Opens (k :: ls) :=
  ⟨⟨k, ls, rfl, hk⟩, fun x _ heq => absurd (List.cons.inj heq).1 (hident x),
    fun _ heq => absurd (List.cons.inj heq).1 hparen⟩

theorem opens_of_paren {ls : List TokenKind} (h : Guarded ls) : Opens (.symbol .leftParen :: ls) where
  start := ⟨_, ls, rfl, rfl⟩
  ident _ _ heq := by cases heq
  paren _ heq := by
    cases heq
    exact h

/-- How the tokens of a printable expression begin. -/
theorem opens {e : Expr} (h : Printable e) : Opens e.kinds := by
  induction h with
  | @literal range v hv =>
    rw [kinds]
    cases v <;> exact opens_of_start rfl (fun _ => TokenKind.noConfusion) TokenKind.noConfusion
  | ident range hx =>
    exact ⟨⟨_, [], rfl, rfl⟩, fun x ls heq => .inl (List.cons.inj heq).2.symm,
      fun ls heq => by cases heq⟩
  | member range he hbase hx ih => exact ih.extend rfl _
  | index range he hbase hkey ih => exact ih.extend rfl _
  | call range he hbase hargs ih => exact ih.extend rfl _
  | unary range hop he ih =>
    rw [kinds]
    rcases hop with rfl | rfl <;>
      exact opens_of_start rfl (fun _ => TokenKind.noConfusion) (by simp [UnaryOp.kind])
  | binary range op hleft hright ih =>
    exact opens_of_paren (ih.guarded (by cases op <;> rfl) (by cases op <;> rfl) _)
  | conditional range htest hyes hno ih => exact opens_of_paren (ih.guarded rfl rfl _)
  | @assign range op target value hop htarget hplace hvalue ih =>
    refine opens_of_paren (ih.guarded ?_ ?_ _) <;>
      (rw [BinaryOp.assignSymbol.eq_def]; split <;> rfl)
  | @update range op before target htarget hplace ih =>
    cases before with
    | true =>
      cases op <;> exact opens_of_start rfl (fun _ => TokenKind.noConfusion) (by simp [UpdateOp.symbol])
    | false => cases op <;> exact ih.extend rfl []
  | array range hitems =>
    exact opens_of_start rfl (fun _ => TokenKind.noConfusion) (by simp)
  | object range hkeys hvalues =>
    exact opens_of_start rfl (fun _ => TokenKind.noConfusion) (by simp)
  | arrow range hparams hbody =>
    exact opens_of_paren ⟨_, _, rfl, rfl, fun x hx => by cases hx⟩

/-- Parameters are not found where there are none. -/
theorem paramList?_eq_none {ts : List Token} (h : Guarded (ts.map (·.kind))) : paramList? ts = none := by
  obtain ⟨k, ls, hts, -, hident⟩ := h
  unfold paramList?
  split
  · obtain ⟨rfl, rfl⟩ := List.cons.inj hts
    obtain ⟨k', ls', hls, hcomma, -⟩ := hident _ rfl
    obtain ⟨rfl, -⟩ := List.cons.inj hls
    cases hcomma
  · obtain ⟨rfl, rfl⟩ := List.cons.inj hts
    obtain ⟨k', ls', hls, -, hparen⟩ := hident _ rfl
    obtain ⟨rfl, -⟩ := List.cons.inj hls
    cases hparen
  · rfl

theorem arrowHead?_ident {range : Range} {x : String} {ts us : List Token}
    (hts : ts = ⟨range, .ident x⟩ :: us) (hus : Follow (fun k => !k.isSymbol .arrow) us) :
    arrowHead? ts = none := by
  unfold arrowHead?
  split
  · obtain ⟨-, rfl⟩ := List.cons.inj hts
    cases hus _ rfl
  · cases congrArg Token.kind (List.cons.inj hts).1
  · cases congrArg Token.kind (List.cons.inj hts).1
  · rfl

theorem arrowHead?_paren {range : Range} {ts us : List Token}
    (hts : ts = ⟨range, .symbol .leftParen⟩ :: us) (h : Guarded (us.map (·.kind))) :
    arrowHead? ts = none := by
  unfold arrowHead?
  split
  · cases congrArg Token.kind (List.cons.inj hts).1
  · obtain ⟨-, rfl⟩ := List.cons.inj hts
    obtain ⟨k, ls, hks, hparen, -⟩ := h
    obtain ⟨rfl, -⟩ := List.cons.inj hks
    cases hparen
  · obtain ⟨-, rfl⟩ := List.cons.inj hts
    rw [paramList?_eq_none h]
  · rfl

/-- No arrow function is found where the tokens of an expression are followed by no arrow. -/
theorem arrowHead?_eq_none {ts rest : List Token} (h : Opens (ts.map (·.kind)))
    (hrest : Follow (fun k => !k.isSymbol .arrow) rest) : arrowHead? (ts ++ rest) = none := by
  obtain ⟨k, ls, hts, hstart⟩ := h.start
  obtain ⟨⟨range, k⟩, ts, rfl, rfl, rfl⟩ := List.map_eq_cons_iff.1 hts
  cases k with
  | ident x =>
    refine arrowHead?_ident rfl ?_
    rcases h.ident x _ hts with hnil | ⟨k', ls', hls, hk'⟩
    · rw [List.map_eq_nil_iff.1 hnil]
      exact hrest
    · obtain ⟨⟨range', k'⟩, ts, rfl, rfl, -⟩ := List.map_eq_cons_iff.1 hls
      exact follow_cons (by rw [(not_separator_of_extendsOperand hk').2.2]; rfl)
  | symbol s =>
    cases s with
    | leftParen =>
      refine arrowHead?_paren rfl ?_
      have hmap : (ts ++ rest).map (·.kind) = ts.map (·.kind) ++ rest.map (·.kind) := List.map_append
      exact hmap ▸ (h.paren _ hts).append _
    | _ => rfl
  | _ => rfl

/-- Tokens that do not begin with an operator. -/
def Unprefixed (ks : List TokenKind) : Prop :=
  ∃ k ls, ks = k :: ls ∧ unaryOp? k = none ∧ updateOp? k = none

theorem Unprefixed.append {ks : List TokenKind} (h : Unprefixed ks) (ls : List TokenKind) :
    Unprefixed (ks ++ ls) := by
  obtain ⟨k, ms, rfl, hk⟩ := h
  exact ⟨k, ms ++ ls, rfl, hk⟩

/-- The forms that are operands do not begin with an operator, unless they are one with its operand. -/
theorem unprefixed {e : Expr} (h : Printable e) (hbase : e.isPrefixed = false) :
    Unprefixed e.kinds := by
  induction h with
  | @literal range v hv => cases v <;> exact ⟨_, _, rfl, rfl, rfl⟩
  | member range he hbase' hx ih => exact (ih hbase').append _
  | index range he hbase' hkey ih => exact (ih hbase').append _
  | call range he hbase' hargs ih => exact (ih hbase').append _
  | unary => cases hbase
  | update => cases hbase
  | _ => exact ⟨_, _, rfl, rfl, rfl⟩

/-! ## Steps of the parser -/

section

variable {ts rest : List Token} {t : Token} {e : Expr}

theorem take?_of_kind {s : Symbol} (ht : t.kind = .symbol s) :
    take? s (t :: rest) = some ⟨t, rest, Nat.lt_succ_self _⟩ := by
  rw [take?, if_pos]
  rw [ht]
  exact beq_self_eq_true s

theorem take?_eq_none {s : Symbol} (h : Follow (fun k => !k.isSymbol s) rest) : take? s rest = none := by
  cases rest with
  | nil => rfl
  | cons t rest =>
    rw [take?, if_neg]
    simpa using h t rfl

theorem takeAs?_of_kind {α : Type} {meaning? : TokenKind → Option α} {a : α}
    (ht : meaning? t.kind = some a) :
    takeAs? meaning? (t :: rest) = some ⟨(t, a), rest, Nat.lt_succ_self _⟩ := by
  rw [takeAs?, ht]
  rfl

theorem takeAs?_eq_none {α : Type} {meaning? : TokenKind → Option α}
    (h : Follow (fun k => (meaning? k).isNone) rest) : takeAs? meaning? rest = none := by
  cases rest with
  | nil => rfl
  | cons t rest =>
    rw [takeAs?, Option.map_eq_none_iff]
    simpa using h t rfl

theorem reads_expect {s : Symbol} (ht : t.kind = .symbol s) (fail : Token → ParseError) :
    Reads (expect s fail (t :: rest)) (· = t) rest := by
  rw [expect, take?_of_kind ht]
  exact reads_ok rfl

/-- Members, indexes and calls end before what is none. -/
theorem reads_chainTail (h : Follow (fun k => !extendsChain k) rest) :
    Reads (chainTail e rest) (· = e) rest := by
  cases rest with
  | nil =>
    rw [chainTail]
    exact reads_ok rfl
  | cons t rest =>
    have ht := h t rfl
    rw [chainTail.eq_def]
    dsimp only
    split
    · rename_i hk
      rw [hk] at ht
      cases ht
    · rename_i hk
      rw [hk] at ht
      cases ht
    · rename_i hk
      rw [hk] at ht
      cases ht
    · exact reads_ok rfl

end

/-! ## Operands -/

/-- The tokens of `e` are read as an operand that goes on with what follows them. -/
def ChainReads (e : Expr) : Prop :=
  ∀ ts rest, ts.map (·.kind) = e.kinds → ∀ (Q : Expr → Prop) (out : List Token),
    (∀ e', e'.unranged = e.unranged → Reads (chainTail e' rest) Q out) →
      Reads (chain (ts ++ rest)) Q out

/-- The tokens of `e` are read as an operand with its operators where nothing extends it. -/
def UnaryReads (e : Expr) : Prop :=
  ∀ ts rest, ts.map (·.kind) = e.kinds → Follow endsOperand rest →
    ReadsAs (unary (ts ++ rest)) e rest

/-- The tokens of `e` are read as an expression where it ends. -/
def FormReads (e : Expr) : Prop :=
  ∀ ts rest, ts.map (·.kind) = e.kinds → Follow endsForm rest →
    ReadsAs (assignment (ts ++ rest)) e rest

section

variable {e : Expr}

theorem chainReads_of_primary
    (h : ∀ ts rest, ts.map (·.kind) = e.kinds → ReadsAs (primary (ts ++ rest)) e rest) :
    ChainReads e := by
  intro ts rest hts Q out hQ
  rw [chain]
  exact reads_bind (h ts rest hts) fun e' _ he' => reads_bind (hQ e' he') fun _ _ hq => reads_ok hq

/-- Where no member, index or call follows, the operand is the whole chain. -/
theorem ChainReads.chain (h : ChainReads e) {ts rest : List Token} (hts : ts.map (·.kind) = e.kinds)
    (hrest : Follow (fun k => !extendsChain k) rest) : ReadsAs (Parse.chain (ts ++ rest)) e rest :=
  h ts rest hts _ rest fun _ he' => (reads_chainTail hrest).mono fun _ heq => heq ▸ he'

/-- What does not begin with an operator is read as an operand. -/
theorem unary_of_unprefixed {ts : List Token} (h : Unprefixed (ts.map (·.kind))) (rest : List Token) :
    Parse.unary (ts ++ rest) = Parse.stepped (ts ++ rest) := by
  obtain ⟨k, ls, hts, hunary, hupdate⟩ := h
  obtain ⟨t, us, rfl, rfl, -⟩ := List.map_eq_cons_iff.1 hts
  rw [List.cons_append, Parse.unary, hunary, hupdate]

/-- What begins as an operand is read as one. -/
theorem ChainReads.unary (h : ChainReads e) (hstart : Unprefixed e.kinds) : UnaryReads e := by
  intro ts rest hts hrest
  have hchain : Follow (fun k => !extendsChain k) rest ∧
      Follow (fun k => (updateOp? k).isNone) rest := by
    refine ⟨hrest.mono fun k hk => ?_, hrest.mono fun k hk => ?_⟩ <;>
      simp_all [endsOperand, extendsOperand]
  rw [unary_of_unprefixed (hts ▸ hstart), Parse.stepped]
  refine reads_bind (h.chain hts hchain.1) fun e' _ he' => ?_
  dsimp only
  rw [takeAs?_eq_none hchain.2]
  exact reads_ok he'

/-- The operator that steps an operand is read after it. -/
theorem ChainReads.update (h : ChainReads e) (hstart : Unprefixed e.kinds) (hplace : e.isAssignable)
    (op : UpdateOp) (range : Range) : UnaryReads (.update range op false e) := by
  intro ts rest hts _
  obtain ⟨us, vs, rfl, hus, hvs⟩ := List.map_eq_append_iff.1 hts
  obtain ⟨t, vs, rfl, ht, hnil⟩ := List.map_eq_cons_iff.1 hvs
  obtain rfl := List.map_eq_nil_iff.1 hnil
  have hkind : updateOp? t.kind = some op ∧ extendsChain t.kind = false := by
    rw [ht]
    cases op <;> exact ⟨rfl, rfl⟩
  rw [List.append_assoc, List.cons_append, List.nil_append, unary_of_unprefixed (hus ▸ hstart),
    Parse.stepped]
  refine reads_bind (h.chain hus (follow_cons (by rw [hkind.2]; rfl))) fun e' _ he' => ?_
  dsimp only
  rw [takeAs?_of_kind hkind.1]
  dsimp only
  rw [if_pos (isAssignable_of_unranged_eq he' hplace)]
  refine reads_ok ?_
  rw [unranged, unranged, he']

theorem reads_binaryTail {least : Nat} {rest : List Token} (h : Follow endsBinary rest) :
    Reads (binaryTail least e rest) (· = e) rest := by
  cases rest with
  | nil =>
    rw [binaryTail]
    exact reads_ok rfl
  | cons t rest =>
    have ht := h t rfl
    rw [endsBinary, Bool.and_eq_true, Option.isNone_iff_eq_none] at ht
    rw [binaryTail, ht.2]
    exact reads_ok rfl

/-- An operand is read as one where no operator follows it. -/
theorem UnaryReads.binary (h : UnaryReads e) {ts rest : List Token} (hts : ts.map (·.kind) = e.kinds)
    (hrest : Follow endsBinary rest) (least : Nat) :
    ReadsAs (Parse.binary least (ts ++ rest)) e rest := by
  rw [Parse.binary]
  refine reads_bind (h ts rest hts (hrest.mono fun k hk => (Bool.and_eq_true_iff.1 hk).1))
    fun e' _ he' => reads_bind (reads_binaryTail hrest) fun e'' _ heq => reads_ok (heq ▸ he')

theorem reads_conditional {P : Expr → Prop} {ts rest : List Token} (h : Reads (Parse.binary 1 ts) P rest)
    (hrest : Follow (fun k => !k.isSymbol .question) rest) : Reads (conditional ts) P rest := by
  rw [conditional]
  refine reads_bind h fun e' _ he' => ?_
  dsimp only
  rw [take?_eq_none hrest]
  exact reads_ok he'

theorem reads_assignment {P : Expr → Prop} {ts rest : List Token} (harrow : arrowHead? ts = none)
    (h : Reads (conditional ts) P rest) (hrest : Follow (fun k => (assignOp? k).isNone) rest) :
    Reads (assignment ts) P rest := by
  rw [assignment, harrow]
  refine reads_bind h fun e' _ he' => ?_
  dsimp only
  rw [takeAs?_eq_none hrest]
  exact reads_ok he'

/-- Where neither an operator nor a question mark follows, an operand is read as a conditional. -/
theorem UnaryReads.conditional (h : UnaryReads e) {ts rest : List Token}
    (hts : ts.map (·.kind) = e.kinds) (hrest : Follow endsConditional rest) :
    ReadsAs (Parse.conditional (ts ++ rest)) e rest :=
  reads_conditional (h.binary hts (hrest.mono fun _ hk => (Bool.and_eq_true_iff.1 hk).1) 1)
    (hrest.mono fun _ hk => (Bool.and_eq_true_iff.1 hk).2)

/-- Where an expression ends, an operand is read as one. -/
theorem UnaryReads.form (h : UnaryReads e) (hopens : Opens e.kinds) : FormReads e := by
  intro ts rest hts hrest
  refine reads_assignment ?_ (h.conditional hts ?_) ?_
  · exact arrowHead?_eq_none (hts ▸ hopens) (hrest.mono fun k hk => (endsForm_iff.1 hk).2.2)
  · exact hrest.mono fun k hk => (endsForm_iff.1 hk).1
  · exact hrest.mono fun k hk => (endsForm_iff.1 hk).2.1

end

/-! ## Parentheses -/

section

variable {e left right test yes no target value : Expr}

/-- What stands in parentheses is read without them. -/
theorem reads_paren {t u : Token} {ts rest : List Token} (ht : t.kind = .symbol .leftParen)
    (hu : u.kind = .symbol .rightParen) (h : ReadsAs (assignment (ts ++ u :: rest)) e (u :: rest)) :
    ReadsAs (primary (t :: (ts ++ u :: rest))) e rest := by
  rw [primary.eq_def]
  simp only [ht]
  exact reads_bind h fun e' _ he' => reads_bind (reads_expect hu _) fun _ _ _ => reads_ok he'

/-- Tokens between an opening and a closing one. -/
theorem exists_enclosed {k k' : TokenKind} {ks : List TokenKind} {ts : List Token}
    (h : ts.map (·.kind) = k :: (ks ++ [k'])) (rest : List Token) :
    ∃ t us u, ts ++ rest = t :: (us ++ u :: rest) ∧ t.kind = k ∧ us.map (·.kind) = ks ∧
      u.kind = k' := by
  obtain ⟨t, ts, rfl, ht, h⟩ := List.map_eq_cons_iff.1 h
  obtain ⟨us, ts, rfl, hus, h⟩ := List.map_eq_append_iff.1 h
  obtain ⟨u, ts, rfl, hu, h⟩ := List.map_eq_cons_iff.1 h
  obtain rfl := List.map_eq_nil_iff.1 h
  exact ⟨t, us, u, by simp, ht, hus, hu⟩

/-- The tokens of two operands in parentheses. -/
theorem exists_infix {k : TokenKind} {ks ls : List TokenKind} {ts : List Token}
    (h : ts.map (·.kind) =
      .symbol .leftParen :: (ks ++ k :: (ls ++ [.symbol .rightParen]))) (rest : List Token) :
    ∃ t us o vs u, ts ++ rest = t :: ((us ++ o :: vs) ++ u :: rest) ∧ t.kind = .symbol .leftParen ∧
      us.map (·.kind) = ks ∧ o.kind = k ∧ vs.map (·.kind) = ls ∧ u.kind = .symbol .rightParen := by
  have h : ts.map (·.kind) = .symbol .leftParen :: ((ks ++ k :: ls) ++ [.symbol .rightParen]) := by
    rw [h, List.append_assoc, List.cons_append]
  obtain ⟨t, ts, u, heq, ht, h, hu⟩ := exists_enclosed h rest
  obtain ⟨us, ts, rfl, hus, h⟩ := List.map_eq_append_iff.1 h
  obtain ⟨o, vs, rfl, ho, hvs⟩ := List.map_eq_cons_iff.1 h
  exact ⟨t, us, o, vs, u, heq, ht, hus, ho, hvs, hu⟩

theorem primary_binary (hleft : UnaryReads left) (hopens : Opens left.kinds) (hright : UnaryReads right)
    (op : BinaryOp) (range : Range) {ts : List Token} (rest : List Token)
    (hts : ts.map (·.kind) = (Expr.binary range op left right).kinds) :
    ReadsAs (primary (ts ++ rest)) (Expr.binary range op left right) rest := by
  obtain ⟨t, us, o, vs, u, heq, ht, hus, ho, hvs, hu⟩ := exists_infix hts rest
  have hend {p : TokenKind → Bool} (hp : p (.symbol .rightParen)) : Follow p (u :: rest) :=
    follow_cons (hu ▸ hp)
  have hop : binaryOp? o.kind = some op := by
    rw [ho]
    cases op <;> rfl
  have hoperand {p : TokenKind → Bool} (hp : p (.symbol op.symbol)) :
      Follow p (o :: (vs ++ u :: rest)) := follow_cons (ho ▸ hp)
  rw [heq]
  refine reads_paren ht hu ?_
  rw [List.append_assoc, List.cons_append]
  refine reads_assignment ?_ (reads_conditional ?_ (hend rfl)) (hend rfl)
  · exact arrowHead?_eq_none (hus ▸ hopens) (hoperand (by cases op <;> rfl))
  · rw [Parse.binary]
    refine reads_bind (hleft us _ hus (hoperand (by cases op <;> rfl))) fun l _ hl =>
      reads_bind ?_ fun e' _ he' => reads_ok he'
    have hprecedence : ¬op.precedence < 1 := by cases op <;> decide
    rw [binaryTail, hop]
    dsimp only
    rw [if_neg hprecedence]
    refine reads_bind (hright.binary hvs (hend rfl) _) fun r _ hr =>
      reads_bind (reads_binaryTail (hend rfl)) fun e' _ he' => reads_ok ?_
    rw [he', unranged, unranged, hl, hr]

theorem primary_assign (htarget : UnaryReads target) (hopens : Opens target.kinds)
    (hplace : target.isAssignable) (hvalue : FormReads value) {op : Option BinaryOp}
    (hop : ∀ o, op = some o → o ∈ assignOps) (range : Range) {ts : List Token} (rest : List Token)
    (hts : ts.map (·.kind) = (Expr.assign range op target value).kinds) :
    ReadsAs (primary (ts ++ rest)) (Expr.assign range op target value) rest := by
  obtain ⟨t, us, o, vs, u, heq, ht, hus, ho, hvs, hu⟩ := exists_infix hts rest
  have hend {p : TokenKind → Bool} (hp : p (.symbol .rightParen)) : Follow p (u :: rest) :=
    follow_cons (hu ▸ hp)
  have hassign : assignOp? o.kind = some op ∧ endsConditional o.kind ∧
      (!o.kind.isSymbol .arrow) := by
    rw [ho]
    cases op with
    | none => exact ⟨rfl, rfl, rfl⟩
    | some op =>
      have hmem := hop op rfl
      simp only [assignOps, List.mem_cons, List.not_mem_nil, or_false] at hmem
      rcases hmem with rfl | rfl | rfl | rfl | rfl <;> exact ⟨rfl, rfl, rfl⟩
  rw [heq]
  refine reads_paren ht hu ?_
  rw [List.append_assoc, List.cons_append, assignment,
    arrowHead?_eq_none (hus ▸ hopens) (follow_cons hassign.2.2)]
  refine reads_bind (htarget.conditional hus (follow_cons hassign.2.1)) fun t' _ ht' => ?_
  dsimp only
  rw [takeAs?_of_kind hassign.1]
  dsimp only
  rw [if_pos (isAssignable_of_unranged_eq ht' hplace)]
  refine reads_bind (hvalue vs _ hvs (hend rfl)) fun v _ hv => reads_ok ?_
  rw [unranged, unranged, ht', hv]

theorem primary_conditional (htest : UnaryReads test) (hopens : Opens test.kinds)
    (hyes : FormReads yes) (hno : FormReads no) (range : Range) {ts : List Token} (rest : List Token)
    (hts : ts.map (·.kind) = (Expr.conditional range test yes no).kinds) :
    ReadsAs (primary (ts ++ rest)) (Expr.conditional range test yes no) rest := by
  have hts : ts.map (·.kind) = .symbol .leftParen :: (test.kinds ++ .symbol .question ::
      ((yes.kinds ++ .symbol .colon :: no.kinds) ++ [.symbol .rightParen])) := by
    simpa [kinds] using hts
  obtain ⟨t, us, q, vs, u, heq, ht, hus, hq, hvs, hu⟩ := exists_infix hts rest
  obtain ⟨ys, vs, rfl, hys, hvs⟩ := List.map_eq_append_iff.1 hvs
  obtain ⟨c, ns, rfl, hc, hns⟩ := List.map_eq_cons_iff.1 hvs
  have hend {p : TokenKind → Bool} (hp : p (.symbol .rightParen)) : Follow p (u :: rest) :=
    follow_cons (hu ▸ hp)
  have hquestion {p : TokenKind → Bool} {next : List Token} (hp : p (.symbol .question)) :
      Follow p (q :: next) := follow_cons (hq ▸ hp)
  rw [heq]
  refine reads_paren ht hu ?_
  rw [List.append_assoc, List.cons_append, List.append_assoc, List.cons_append]
  refine reads_assignment (arrowHead?_eq_none (hus ▸ hopens) (hquestion rfl)) ?_ (hend rfl)
  rw [conditional]
  refine reads_bind (htest.binary hus (hquestion rfl) 1) fun t' _ ht' => ?_
  dsimp only
  rw [take?_of_kind hq]
  refine reads_bind (hyes ys _ hys (follow_cons (hc ▸ rfl))) fun y _ hy => ?_
  refine reads_bind (reads_expect hc _) fun _ _ _ => ?_
  refine reads_bind (hno ns _ hns (hend rfl)) fun n _ hn => reads_ok ?_
  rw [unranged, unranged, ht', hy, hn]

end

/-! ## Lists -/

section

variable {close : Symbol} {t : Token} {rest : List Token}

/-- Expressions with commas between them are read up to the symbol that closes them. -/
theorem reads_items {es : List Expr} (hes : ∀ e ∈ es, FormReads e ∧ Opens e.kinds)
    (hclose : close = .rightParen ∨ close = .rightBracket) (fail : Token → ParseError)
    {ts : List Token} (hts : ts.map (·.kind) = commaKinds (es.map kinds))
    (ht : t.kind = .symbol close) (rest : List Token) :
    Reads (items close fail (ts ++ t :: rest)) (fun p => p.1.map unranged = es.map unranged) rest := by
  induction es generalizing ts with
  | nil =>
    obtain rfl := List.map_eq_nil_iff.1 hts
    rw [List.nil_append, items, take?_of_kind ht]
    exact reads_ok rfl
  | cons e es ih =>
    obtain ⟨he, hopens⟩ := hes e (List.mem_cons_self ..)
    have hes' : ∀ e ∈ es, FormReads e ∧ Opens e.kinds := fun e he => hes e (List.mem_cons_of_mem _ he)
    rw [items]
    cases es with
    | nil =>
      have hts : ts.map (·.kind) = e.kinds := by simpa [commaKinds] using hts
      have hend : Follow endsForm (t :: rest) :=
        follow_cons (by rw [ht]; rcases hclose with rfl | rfl <;> rfl)
      have hcomma : Follow (fun k => !k.isSymbol .comma) (t :: rest) :=
        follow_cons (by rw [ht]; rcases hclose with rfl | rfl <;> rfl)
      rw [take?_eq_none (hopens.not_closing hts hclose _)]
      refine reads_bind (he ts _ hts hend) fun e' _ he' => ?_
      dsimp only
      rw [take?_eq_none hcomma]
      exact reads_bind (reads_expect ht fail) fun _ _ _ => reads_ok (by simp [he'])
    | cons e₂ es =>
      have hts : ts.map (·.kind) =
          e.kinds ++ .symbol .comma :: commaKinds ((e₂ :: es).map kinds) := by
        simpa [commaKinds] using hts
      obtain ⟨us, ts, rfl, hus, hts⟩ := List.map_eq_append_iff.1 hts
      obtain ⟨c, vs, rfl, hc, hvs⟩ := List.map_eq_cons_iff.1 hts
      rw [List.append_assoc, List.cons_append, take?_eq_none (hopens.not_closing hus hclose _)]
      refine reads_bind (he us _ hus (follow_cons (hc ▸ rfl))) fun e' _ he' => ?_
      dsimp only
      rw [take?_of_kind hc]
      exact reads_bind (ih hes' hvs) fun p _ hp => reads_ok (by simpa [he'] using hp)

/-- The value of an entry is read after the colon. -/
theorem reads_entryValue {e : Expr} (he : FormReads e) (key : Token) (name : String) {c : Token}
    (hc : c.kind = .symbol .colon) {ts next : List Token} (hts : ts.map (·.kind) = e.kinds)
    (hnext : Follow endsForm next) : ReadsAs (entryValue key name (c :: (ts ++ next))) e next := by
  rw [entryValue, take?_of_kind hc]
  exact reads_bind (he ts next hts hnext) fun e' _ he' => reads_ok he'

/-- Entries with commas between them are read up to the closing brace. -/
theorem reads_entries {es : List (String × Expr)} (hes : ∀ p ∈ es, FormReads p.2)
    {ts : List Token} (hts : ts.map (·.kind) = commaKinds (entryKinds es))
    (ht : t.kind = .symbol .rightBrace) (rest : List Token) :
    Reads (entries (ts ++ t :: rest))
      (fun p => unrangedEntries p.1 = unrangedEntries es ∧ p.2 = t) rest := by
  induction es generalizing ts with
  | nil =>
    obtain rfl := List.map_eq_nil_iff.1 hts
    have hclose : t.kind.isSymbol .rightBrace := by
      rw [ht]
      rfl
    rw [List.nil_append, entries, if_pos hclose]
    exact reads_ok ⟨rfl, rfl⟩
  | cons p es ih =>
    obtain ⟨name, e⟩ := p
    have he : FormReads e := hes (name, e) (List.mem_cons_self ..)
    have hes' : ∀ p ∈ es, FormReads p.2 := fun p hp => hes p (List.mem_cons_of_mem _ hp)
    -- the tokens of the first entry
    have hentry (us : List Token) (ls : List TokenKind)
        (hus : us.map (·.kind) = .ident name :: .symbol .colon :: (e.kinds ++ ls)) :
        ∃ key c vs ws, us = key :: c :: (vs ++ ws) ∧ key.kind = .ident name ∧
          c.kind = .symbol .colon ∧ vs.map (·.kind) = e.kinds ∧ ws.map (·.kind) = ls := by
      obtain ⟨key, us, rfl, hkey, hus⟩ := List.map_eq_cons_iff.1 hus
      obtain ⟨c, us, rfl, hc, hus⟩ := List.map_eq_cons_iff.1 hus
      obtain ⟨vs, ws, rfl, hvs, hws⟩ := List.map_eq_append_iff.1 hus
      exact ⟨key, c, vs, ws, rfl, hkey, hc, hvs, hws⟩
    cases es with
    | nil =>
      obtain ⟨key, c, vs, ws, rfl, hkey, hc, hvs, hws⟩ := hentry ts []
        (by simpa [commaKinds, entryKinds] using hts)
      obtain rfl := List.map_eq_nil_iff.1 hws
      rw [List.append_nil, List.cons_append, List.cons_append, entries.eq_def]
      simp only [hkey]
      refine reads_bind (reads_entryValue he key name hc hvs (follow_cons (ht ▸ rfl)))
        fun v _ hv => ?_
      dsimp only
      rw [take?_eq_none (follow_cons (ht ▸ rfl))]
      refine reads_bind (reads_expect ht _) fun u _ hu => reads_ok ⟨?_, hu⟩
      rw [unrangedEntries, unrangedEntries, hv]
      rfl
    | cons p₂ es =>
      obtain ⟨key, c, vs, ws, rfl, hkey, hc, hvs, hws⟩ := hentry ts
        (.symbol .comma :: commaKinds (entryKinds (p₂ :: es)))
        (by obtain ⟨name₂, e₂⟩ := p₂; simpa [commaKinds, entryKinds] using hts)
      obtain ⟨d, ws, rfl, hd, hws⟩ := List.map_eq_cons_iff.1 hws
      rw [List.cons_append, List.cons_append, List.append_assoc, List.cons_append, entries.eq_def]
      simp only [hkey]
      refine reads_bind (reads_entryValue he key name hc hvs (follow_cons (hd ▸ rfl)))
        fun v _ hv => ?_
      dsimp only
      rw [take?_of_kind hd]
      refine reads_bind (ih hes' hws) fun q _ hq => reads_ok ⟨?_, hq.2⟩
      rw [unrangedEntries, unrangedEntries, hv, hq.1]

/-- Names with commas between them are read as parameters, with the arrow. -/
theorem paramList?_names {xs : List String} (hxs : xs ≠ []) {ts : List Token}
    (hts : ts.map (·.kind) = commaKinds (xs.map fun x => [.ident x])) {u a : Token}
    (hu : u.kind = .symbol .rightParen) (ha : a.kind = .symbol .arrow) (rest : List Token) :
    ∃ h, paramList? (ts ++ u :: a :: rest) = some ⟨xs, rest, h⟩ := by
  obtain ⟨_, _⟩ := u
  obtain ⟨_, _⟩ := a
  subst hu ha
  induction xs generalizing ts with
  | nil => exact absurd rfl hxs
  | cons x xs ih =>
    cases xs with
    | nil =>
      have hts : ts.map (·.kind) = [.ident x] := by simpa [commaKinds] using hts
      obtain ⟨⟨_, _⟩, _, rfl, rfl, hnil⟩ := List.map_eq_cons_iff.1 hts
      obtain rfl := List.map_eq_nil_iff.1 hnil
      exact ⟨by simp only [List.cons_append, List.nil_append, List.length_cons]; omega, rfl⟩
    | cons y xs =>
      have hts : ts.map (·.kind) =
          .ident x :: .symbol .comma :: commaKinds ((y :: xs).map fun x => [.ident x]) :=
        hts.trans (commaKinds_idents x y xs)
      obtain ⟨⟨_, _⟩, us, rfl, rfl, hus⟩ := List.map_eq_cons_iff.1 hts
      obtain ⟨⟨_, _⟩, vs, rfl, rfl, hvs⟩ := List.map_eq_cons_iff.1 hus
      obtain ⟨h, hread⟩ := ih (List.cons_ne_nil y xs) hvs
      refine ⟨by simp only [List.cons_append, List.length_cons] at h ⊢; omega, ?_⟩
      simp only [List.cons_append, paramList?, hread]

/-- Parameters in parentheses before an arrow are the head of an arrow function. -/
theorem arrowHead?_names {xs : List String} {ts : List Token}
    (hts : ts.map (·.kind) = commaKinds (xs.map fun x => [.ident x])) {t u a : Token}
    (ht : t.kind = .symbol .leftParen) (hu : u.kind = .symbol .rightParen)
    (ha : a.kind = .symbol .arrow) (rest : List Token) :
    ∃ h, arrowHead? (t :: (ts ++ u :: a :: rest)) = some ⟨xs, rest, h⟩ := by
  have hlength : rest.length < (t :: (ts ++ u :: a :: rest)).length := by
    simp only [List.length_cons, List.length_append]
    omega
  refine ⟨hlength, ?_⟩
  obtain ⟨_, _⟩ := t
  subst ht
  cases xs with
  | nil =>
    obtain rfl := List.map_eq_nil_iff.1 hts
    obtain ⟨_, _⟩ := u
    obtain ⟨_, _⟩ := a
    subst hu ha
    rfl
  | cons x xs =>
    obtain ⟨h, hread⟩ := paramList?_names (List.cons_ne_nil x xs) hts hu ha rest
    -- the first name is no closing parenthesis, so the parameters are looked for
    obtain ⟨ks, hks⟩ : ∃ ks, commaKinds ((x :: xs).map fun x => [.ident x]) = .ident x :: ks := by
      cases xs with
      | nil => exact ⟨[], rfl⟩
      | cons y xs => exact ⟨_, rfl⟩
    obtain ⟨⟨_, _⟩, us, rfl, rfl, -⟩ := List.map_eq_cons_iff.1 (hts.trans hks)
    simp only [List.cons_append] at hread
    simp only [List.cons_append, arrowHead?, hread]

theorem primary_arrow {body : Expr} (hbody : FormReads body) (range : Range) (params : List String)
    {ts : List Token} (rest : List Token)
    (hts : ts.map (·.kind) = (Expr.arrow range params body).kinds) :
    ReadsAs (primary (ts ++ rest)) (Expr.arrow range params body) rest := by
  obtain ⟨t, head, a, vs, u, heq, ht, hhead, ha, hvs, hu⟩ := exists_infix hts rest
  obtain ⟨l, us, r, hparams, hl, hus, hr⟩ := exists_enclosed hhead (a :: (vs ++ u :: rest))
  obtain ⟨h, harrow⟩ := arrowHead?_names hus hl hr ha (vs ++ u :: rest)
  rw [heq]
  refine reads_paren ht hu ?_
  rw [List.append_assoc, List.cons_append, hparams, assignment, harrow]
  refine reads_bind (hbody vs _ hvs (follow_cons (hu ▸ rfl))) fun e' _ he' => reads_ok ?_
  rw [unranged, unranged, he']

end

/-! ## Every form -/

/-- A printable expression is read with its operators, and as an operand unless it is an operator with
its operand. -/
structure IsRead (e : Expr) : Prop where
  chain : e.isPrefixed = false → ChainReads e
  unary : UnaryReads e

theorem IsRead.of_chain {e : Expr} (he : Printable e) (hbase : e.isPrefixed = false)
    (h : ChainReads e) : IsRead e := ⟨fun _ => h, h.unary (unprefixed he hbase)⟩

theorem IsRead.form {e : Expr} (h : IsRead e) (he : Printable e) : FormReads e :=
  h.unary.form (opens he)

section

variable {e : Expr}

theorem ChainReads.member (h : ChainReads e) (range : Range) (x : String) :
    ChainReads (.member range e x) := by
  intro ts rest hts Q out hQ
  obtain ⟨us, vs, rfl, hus, hvs⟩ := List.map_eq_append_iff.1 hts
  obtain ⟨dot, vs, rfl, hdot, hvs⟩ := List.map_eq_cons_iff.1 hvs
  obtain ⟨name, vs, rfl, hname, hnil⟩ := List.map_eq_cons_iff.1 hvs
  obtain rfl := List.map_eq_nil_iff.1 hnil
  rw [List.append_assoc, List.cons_append, List.cons_append, List.nil_append]
  refine h us _ hus Q out fun e' he' => ?_
  rw [chainTail.eq_def]
  simp only [hdot, hname, memberName?]
  exact reads_bind (hQ _ (by rw [unranged, unranged, he'])) fun _ _ hq => reads_ok hq

theorem ChainReads.index (h : ChainReads e) {key : Expr} (hkey : FormReads key) (range : Range) :
    ChainReads (.index range e key) := by
  intro ts rest hts Q out hQ
  obtain ⟨us, vs, rfl, hus, hvs⟩ := List.map_eq_append_iff.1 hts
  obtain ⟨left, ks, right, heq, hleft, hks, hright⟩ := exists_enclosed hvs rest
  rw [List.append_assoc, heq]
  refine h us _ hus Q out fun e' he' => ?_
  rw [chainTail.eq_def]
  simp only [hleft]
  refine reads_bind (hkey ks _ hks (follow_cons (hright ▸ rfl))) fun k _ hk => ?_
  refine reads_bind (reads_expect hright _) fun _ _ _ => ?_
  exact reads_bind (hQ _ (by rw [unranged, unranged, he', hk])) fun _ _ hq => reads_ok hq

theorem ChainReads.call (h : ChainReads e) {args : List Expr}
    (hargs : ∀ a ∈ args, FormReads a ∧ Opens a.kinds) (range : Range) :
    ChainReads (.call range e args) := by
  intro ts rest hts Q out hQ
  obtain ⟨us, vs, rfl, hus, hvs⟩ := List.map_eq_append_iff.1 hts
  obtain ⟨left, as, right, heq, hleft, has, hright⟩ := exists_enclosed hvs rest
  rw [kindsAll_eq] at has
  rw [List.append_assoc, heq]
  refine h us _ hus Q out fun e' he' => ?_
  rw [chainTail.eq_def]
  simp only [hleft]
  refine reads_bind (reads_items hargs (.inl rfl) _ has hright rest) fun p _ hp => ?_
  refine reads_bind (hQ _ ?_) fun _ _ hq => reads_ok hq
  rw [unranged, unranged, he', unrangedAll_eq, unrangedAll_eq, hp]

theorem primary_array {items : List Expr} (hitems : ∀ a ∈ items, FormReads a ∧ Opens a.kinds)
    (range : Range) {ts : List Token} (rest : List Token)
    (hts : ts.map (·.kind) = (Expr.array range items).kinds) :
    ReadsAs (primary (ts ++ rest)) (Expr.array range items) rest := by
  obtain ⟨left, as, right, heq, hleft, has, hright⟩ := exists_enclosed hts rest
  rw [kindsAll_eq] at has
  rw [heq, primary.eq_def]
  simp only [hleft]
  refine reads_bind (reads_items hitems (.inr rfl) _ has hright rest) fun p _ hp => reads_ok ?_
  rw [unranged, unranged, unrangedAll_eq, unrangedAll_eq, hp]

theorem primary_object {es : List (String × Expr)} (hes : ∀ p ∈ es, FormReads p.2)
    (range : Range) {ts : List Token} (rest : List Token)
    (hts : ts.map (·.kind) = (Expr.object range es).kinds) :
    ReadsAs (primary (ts ++ rest)) (Expr.object range es) rest := by
  obtain ⟨left, as, right, heq, hleft, has, hright⟩ := exists_enclosed hts rest
  rw [heq, primary.eq_def]
  simp only [hleft]
  refine reads_bind (reads_entries hes has hright rest) fun p _ hp => reads_ok ?_
  rw [unranged, unranged, hp.1]

theorem UnaryReads.unary (h : UnaryReads e) {op : UnaryOp} (hop : unaryOp? op.kind = some op)
    (range : Range) : UnaryReads (.unary range op e) := by
  intro ts rest hts hrest
  obtain ⟨t, ts, rfl, ht, hts⟩ := List.map_eq_cons_iff.1 hts
  rw [List.cons_append, Parse.unary, ht, hop]
  refine reads_bind (h ts rest hts hrest) fun e' _ he' => reads_ok ?_
  rw [unranged, unranged, he']

theorem UnaryReads.update (h : UnaryReads e) (hplace : e.isAssignable) (op : UpdateOp) (range : Range) :
    UnaryReads (.update range op true e) := by
  intro ts rest hts hrest
  obtain ⟨t, ts, rfl, ht, hts⟩ := List.map_eq_cons_iff.1 hts
  have hkind : unaryOp? t.kind = none ∧ updateOp? t.kind = some op := by
    rw [ht]
    cases op <;> exact ⟨rfl, rfl⟩
  rw [List.cons_append, Parse.unary, hkind.1, hkind.2]
  refine reads_bind (h ts rest hts hrest) fun e' _ he' => ?_
  dsimp only
  rw [if_pos (isAssignable_of_unranged_eq he' hplace)]
  refine reads_ok ?_
  rw [unranged, unranged, he']

theorem primary_literal {v : Literal} (hv : v.isPrintable) (range : Range) {ts : List Token}
    (rest : List Token) (hts : ts.map (·.kind) = (Expr.literal range v).kinds) :
    ReadsAs (primary (ts ++ rest)) (Expr.literal range v) rest := by
  obtain ⟨t, _, rfl, ht, hnil⟩ := List.map_eq_cons_iff.1 hts
  obtain rfl := List.map_eq_nil_iff.1 hnil
  rw [List.singleton_append, primary.eq_def]
  cases v <;> (simp only [ht, Literal.kind]; exact reads_ok rfl)

theorem primary_ident (range : Range) (x : String) {ts : List Token} (rest : List Token)
    (hts : ts.map (·.kind) = (Expr.ident range x).kinds) :
    ReadsAs (primary (ts ++ rest)) (Expr.ident range x) rest := by
  obtain ⟨t, _, rfl, ht, hnil⟩ := List.map_eq_cons_iff.1 hts
  obtain rfl := List.map_eq_nil_iff.1 hnil
  rw [List.singleton_append, primary.eq_def]
  simp only [ht]
  exact reads_ok rfl

theorem isRead {e : Expr} (h : Printable e) : IsRead e := by
  induction h with
  | literal range hv =>
    exact .of_chain (.literal range hv) rfl
      (chainReads_of_primary fun _ rest hts => primary_literal hv range rest hts)
  | @ident range x hx =>
    exact .of_chain (.ident range hx) rfl
      (chainReads_of_primary fun _ rest hts => primary_ident range x rest hts)
  | member range he hbase hx ih =>
    exact .of_chain (.member range he hbase hx) rfl ((ih.chain hbase).member range _)
  | index range he hbase hkey ih ihkey =>
    exact .of_chain (.index range he hbase hkey) rfl ((ih.chain hbase).index (ihkey.form hkey) range)
  | call range he hbase hargs ih ihargs =>
    exact .of_chain (.call range he hbase hargs) rfl ((ih.chain hbase).call
      (fun a ha => ⟨(ihargs a ha).form (hargs a ha), opens (hargs a ha)⟩) range)
  | unary range hop he ih =>
    refine ⟨fun hbase => Bool.noConfusion hbase, ih.unary.unary ?_ range⟩
    rcases hop with rfl | rfl <;> rfl
  | binary range op hleft hright ih ih' =>
    exact .of_chain (.binary range op hleft hright) rfl (chainReads_of_primary fun _ rest hts =>
      primary_binary ih.unary (opens hleft) ih'.unary op range rest hts)
  | conditional range htest hyes hno ih ihyes ihno =>
    exact .of_chain (.conditional range htest hyes hno) rfl (chainReads_of_primary fun _ rest hts =>
      primary_conditional ih.unary (opens htest) (ihyes.form hyes) (ihno.form hno) range rest hts)
  | assign range hop htarget hplace hvalue ih ihvalue =>
    exact .of_chain (.assign range hop htarget hplace hvalue) rfl (chainReads_of_primary
      fun _ rest hts =>
        primary_assign ih.unary (opens htarget) hplace (ihvalue.form hvalue) hop range rest hts)
  | @update range op before target htarget hplace ih =>
    refine ⟨fun hbase => Bool.noConfusion hbase, ?_⟩
    cases before with
    | true => exact ih.unary.update hplace op range
    | false =>
      have hbase : target.isPrefixed = false := by cases target <;> first | rfl | cases hplace
      exact (ih.chain hbase).update (unprefixed htarget hbase) hplace op range
  | array range hitems ih =>
    exact .of_chain (.array range hitems) rfl (chainReads_of_primary fun _ rest hts =>
      primary_array (fun a ha => ⟨(ih a ha).form (hitems a ha), opens (hitems a ha)⟩) range rest hts)
  | object range hkeys hvalues ih =>
    exact .of_chain (.object range hkeys hvalues) rfl (chainReads_of_primary fun _ rest hts =>
      primary_object (fun p hp => (ih p hp).form (hvalues p hp)) range rest hts)
  | @arrow range params body hparams hbody ih =>
    exact .of_chain (.arrow range hparams hbody) rfl (chainReads_of_primary fun _ rest hts =>
      primary_arrow (ih.form hbody) range params rest hts)

end

/-! ## Statements -/

theorem statement_of_startsForm {t : Token} (ht : startsForm t.kind) (rest : List Token) :
    statement (t :: rest) = assignment (t :: rest) := by
  obtain ⟨_, k⟩ := t
  cases k with
  | letWord => cases ht
  | _ => rfl

theorem reads_statement {e : Expr} (h : PrintableStatement e) {ts rest : List Token}
    (hts : ts.map (·.kind) = e.kinds) (hrest : Follow endsForm rest) :
    ReadsAs (statement (ts ++ rest)) e rest := by
  cases h with
  | expression he =>
    have hform := (isRead he).form he ts rest hts hrest
    obtain ⟨k, ls, hkinds, hstart⟩ := (opens he).start
    obtain ⟨t, us, rfl, rfl, -⟩ := List.map_eq_cons_iff.1 (hts.trans hkinds)
    rw [List.cons_append, statement_of_startsForm hstart]
    exact hform
  | @letIn range x value hx hvalue =>
    obtain ⟨⟨_, _⟩, us, rfl, rfl, hus⟩ := List.map_eq_cons_iff.1 hts
    obtain ⟨name, us, rfl, hname, hus⟩ := List.map_eq_cons_iff.1 hus
    obtain ⟨equal, vs, rfl, hequal, hvs⟩ := List.map_eq_cons_iff.1 hus
    rw [List.cons_append, List.cons_append, List.cons_append, statement]
    simp only [hname]
    refine reads_bind (reads_expect hequal _) fun _ _ _ => ?_
    refine reads_bind ((isRead hvalue).form hvalue vs rest hvs hrest) fun v _ hv => reads_ok ?_
    rw [unranged, unranged, hv]

/-- No statement begins with a semicolon or the end. -/
theorem statement_start {e : Expr} (h : PrintableStatement e) :
    ∃ k ls, e.kinds = k :: ls ∧ k.isSymbol .semicolon = false ∧ k.isStop = false := by
  cases h with
  | expression he =>
    obtain ⟨k, ls, hkinds, hstart⟩ := (opens he).start
    exact ⟨k, ls, hkinds, (not_closing_of_startsForm hstart).2.2⟩
  | letIn => exact ⟨_, _, rfl, rfl, rfl⟩

theorem statements_stop (range : Range) (us : List Token) :
    statements (⟨range, .stop⟩ :: us) = .ok ([], range) := by
  rw [statements]
  rfl

/-- Where semicolons have been skipped, the next statement is read and then those that follow. -/
theorem statements_of_dropWhile {ts us : List Token}
    (h : ts.dropWhile (fun t => t.kind.isSymbol .semicolon) = us) :
    statements ts =
      if (peek us).kind.isStop then .ok ([], (peek us).range)
      else (do
        let p ← statement us
        if (peek p.rest).kind.isStop || (peek p.rest).kind.isSymbol .semicolon then
          let q ← statements p.rest
          return (p.value :: q.1, q.2)
        else throw (.unexpectedToken (peek p.rest))) := by
  subst h
  rw [statements]

/-- A semicolon in front is skipped. -/
theorem statements_semicolon {t : Token} (ht : t.kind = .symbol .semicolon) (rest : List Token) :
    statements (t :: rest) = statements rest := by
  have hdrop : (t :: rest).dropWhile (fun t => t.kind.isSymbol .semicolon) =
      rest.dropWhile fun t => t.kind.isSymbol .semicolon :=
    List.dropWhile_cons_of_pos (by rw [ht]; rfl)
  rw [statements_of_dropWhile hdrop, statements_of_dropWhile rfl]

/-- A statement before a semicolon or the end is read, and then those that follow. -/
theorem statements_append {e : Expr} (h : PrintableStatement e) {us rest : List Token} {t : Token}
    (hus : us.map (·.kind) = e.kinds) (ht : t.kind = .stop ∨ t.kind = .symbol .semicolon)
    {es : List Expr} {last : Range} (hrest : statements (t :: rest) = .ok (es, last)) :
    ∃ e', statements (us ++ t :: rest) = .ok (e' :: es, last) ∧ e'.unranged = e.unranged := by
  obtain ⟨k, ls, hkinds, hsemicolon, hstop⟩ := statement_start h
  have hend : Follow endsForm (t :: rest) := by
    rcases ht with ht | ht <;> exact follow_cons (ht ▸ rfl)
  have hpeek : ((peek (t :: rest)).kind.isStop || (peek (t :: rest)).kind.isSymbol .semicolon) := by
    rcases ht with ht | ht <;> (rw [peek, ht]; rfl)
  obtain ⟨⟨e', _, hlt⟩, hread, he', rfl⟩ := reads_statement h hus hend
  obtain ⟨u, us, rfl, rfl, -⟩ := List.map_eq_cons_iff.1 (hus.trans hkinds)
  refine ⟨e', ?_, he'⟩
  have hdrop : (u :: us ++ t :: rest).dropWhile (fun t => t.kind.isSymbol .semicolon) =
      u :: us ++ t :: rest :=
    List.dropWhile_cons_of_neg (by rw [hsemicolon]; exact Bool.false_ne_true)
  have hgoes : ¬(peek (u :: us ++ t :: rest)).kind.isStop := by
    rw [List.cons_append, peek, hstop]
    exact Bool.false_ne_true
  rw [statements_of_dropWhile hdrop, if_neg hgoes, hread]
  change (if _ then _ else _) = _
  rw [if_pos hpeek, hrest]
  rfl

/-- Statements with semicolons between them are read up to the end. -/
theorem statements_eq {es : List Expr} (hes : ∀ e ∈ es, PrintableStatement e) {ts : List Token}
    (hts : ts.map (·.kind) = [TokenKind.symbol .semicolon].intercalate (es.map kinds))
    (range : Range) :
    ∃ es', statements (ts ++ [⟨range, .stop⟩]) = .ok (es', range) ∧
      es'.map unranged = es.map unranged := by
  induction es generalizing ts with
  | nil =>
    obtain rfl := List.map_eq_nil_iff.1 hts
    exact ⟨[], statements_stop range [], rfl⟩
  | cons e es ih =>
    have he : PrintableStatement e := hes e (List.mem_cons_self ..)
    cases es with
    | nil =>
      have hts : ts.map (·.kind) = e.kinds := by simpa using hts
      obtain ⟨e', hread, he'⟩ := statements_append he hts (.inl rfl) (statements_stop range [])
      exact ⟨[e'], hread, by rw [List.map_singleton, List.map_singleton, he']⟩
    | cons e₂ es =>
      have hts : ts.map (·.kind) = e.kinds ++ .symbol .semicolon ::
          [TokenKind.symbol .semicolon].intercalate ((e₂ :: es).map kinds) := by
        simpa using hts
      obtain ⟨us, vs, rfl, hus, hvs⟩ := List.map_eq_append_iff.1 hts
      obtain ⟨s, vs, rfl, hs, hvs⟩ := List.map_eq_cons_iff.1 hvs
      obtain ⟨es', hrest, hes'⟩ := ih (fun e he => hes e (List.mem_cons_of_mem _ he)) hvs
      rw [← statements_semicolon hs] at hrest
      obtain ⟨e', hread, he'⟩ := statements_append he hus (.inr hs) hrest
      refine ⟨e' :: es', ?_, ?_⟩
      · rw [List.append_assoc, List.cons_append, hread]
      · rw [List.map_cons, List.map_cons, he', hes']

end ReactiveMarkup.Parse

namespace ReactiveMarkup.Expr

open Parse

/-- The text of a statement is read as that statement, but for the ranges. -/
theorem parse_statement {e : Expr} (h : PrintableStatement e) (base : Position) :
    ∃ e', parse base e.toText = .ok e' ∧ e'.unranged = e.unranged := by
  obtain ⟨ts, range, hts, hscan⟩ := Token.scan_of_spells h.spells base
  obtain ⟨e', hread, he'⟩ := statements_append h hts (.inl rfl) (statements_stop range [])
  refine ⟨e', ?_, he'⟩
  rw [parse, hscan]
  dsimp only
  rw [ofTokens, hread]
  rfl

/-- The text of several statements is read as their sequence, but for the ranges. -/
theorem parse_sequence {items : List Expr} (hitems : 2 ≤ items.length)
    (h : ∀ e ∈ items, PrintableStatement e) (base : Position) (range : Range) :
    ∃ e', parse base (sequence range items).toText = .ok e' ∧
      e'.unranged = (sequence range items).unranged := by
  obtain ⟨ts, last, hts, hscan⟩ := Token.scan_of_spells (spells_sequence h range) base
  rw [kinds, kindsAll_eq] at hts
  obtain ⟨es, hread, hes⟩ := statements_eq h hts last
  have hlength : es.length = items.length := by simpa using congrArg List.length hes
  obtain ⟨e₁, e₂, es, rfl⟩ : ∃ e₁ e₂ es', es = e₁ :: e₂ :: es' := by
    obtain ⟨e₁, es', rfl⟩ := List.exists_cons_of_length_pos (l := es) (by omega)
    obtain ⟨e₂, es, rfl⟩ := List.exists_cons_of_length_pos (l := es')
      (by rw [List.length_cons] at hlength; omega)
    exact ⟨e₁, e₂, es, rfl⟩
  refine ⟨sequence (e₁.range.join ((e₂ :: es).getLast?.getD e₁).range) (e₁ :: e₂ :: es), ?_, ?_⟩
  · rw [parse, hscan]
    dsimp only
    rw [ofTokens, hread]
    rfl
  · rw [unranged, unranged, unrangedAll_eq, unrangedAll_eq, hes]

/-- Printing and parsing agree: the text of a printable expression is read as that expression, and the
text of two or more statements as their sequence, but for the ranges. -/
theorem parse_toText (base : Position) :
    (∀ e, Printable e → ∃ e', parse base e.toText = .ok e' ∧ e'.unranged = e.unranged) ∧
    ∀ range items, 2 ≤ items.length → (∀ e ∈ items, PrintableStatement e) →
      ∃ e', parse base (sequence range items).toText = .ok e' ∧
        e'.unranged = (sequence range items).unranged :=
  ⟨fun _ he => parse_statement (.expression he) base,
    fun range _ hlength hitems => parse_sequence hlength hitems base range⟩

theorem parse_toText_let :
    ∃ e', parse .start "let f = ((a, b) => (a + !b[\"]]\"])); f.n++" = .ok e' ∧
      e'.unranged = .sequence .initial
        [.letIn .initial "f" (.arrow .initial ["a", "b"] (.binary .initial .add (.ident .initial "a")
          (.unary .initial .not (.index .initial (.ident .initial "b")
            (.literal .initial (.string "]]")))))),
          .update .initial .increment false (.member .initial (.ident .initial "f") "n")] := by
  have hbody : Printable (.binary .initial .add (.ident .initial "a") (.unary .initial .not
      (.index .initial (.ident .initial "b") (.literal .initial (.string "]]"))))) :=
    .binary _ _ (.ident _ (by decide))
      (.unary _ (.inl rfl) (.index _ (.ident _ (by decide)) rfl (.literal _ (by decide))))
  have hparams : ∀ x ∈ ["a", "b"], isName x := by decide
  have hlet := PrintableStatement.letIn .initial (x := "f") (by decide) (.arrow .initial hparams hbody)
  have hstep : Printable (.update .initial .increment false
      (.member .initial (.ident .initial "f") "n")) :=
    .update _ _ _ (.member _ (.ident _ (by decide)) rfl (by decide)) rfl
  have hread := (parse_toText .start).2 .initial [_, _] (Nat.le_refl 2)
    (List.forall_mem_cons.2 ⟨hlet, List.forall_mem_singleton.2 (.expression hstep)⟩)
  exact hread

end ReactiveMarkup.Expr
