import ReactiveMarkup.Proofs.Expr.Origin
import ReactiveMarkup.Proofs.Expr.RoundTrip

/-!
# What the parser reads

The parser goes through a token list once, up to the mark of its end. Every form that it gives is made
of the tokens that it has read for it, so no token is left out and none is read twice. It never looks
behind the mark: what stands there changes nothing, and the tokens that an error names stand before it.

Main definitions: `ParseError.Within`, `Parse.Ends`, `Parse.Stays`, `Parse.Agree`.
Main results: `Parse.statements_agree`, `Expr.ofTokens_derives`, `Expr.parse_isSource`.
-/
namespace ReactiveMarkup

/-- The token that an error names, or the mark of the end that it reports, is in a list. -/
def ParseError.Within (ts : List Token) : ParseError → Prop
  | unexpectedToken t | unclosedParen t | unclosedBracket t | unclosedBrace t => t ∈ ts
  | unexpectedEnd range => ∃ t ∈ ts, t.kind.isStop ∧ t.range = range
  | invalidTarget _ => True

theorem ParseError.Within.mono {e : ParseError} {ts us : List Token} (h : e.Within ts)
    (hsub : ts ⊆ us) : e.Within us := by
  cases e with
  | unexpectedEnd range =>
    obtain ⟨t, ht, hstop⟩ := h
    exact ⟨t, hsub ht, hstop⟩
  | invalidTarget range => trivial
  | _ => exact hsub h

namespace Parse

open Form

variable {us ts rest : List Token} {t : Token}

/-- The mark of the end is still to come. -/
def Ends (ts : List Token) : Prop := ∃ t ∈ ts, t.kind.isStop

theorem not_ends_nil : ¬Ends [] := by simp [Ends]

theorem Ends.tail (h : Ends (t :: rest)) (ht : t.kind.isStop = false) : Ends rest := by
  simpa [Ends, ht] using h

theorem Ends.exists_cons (h : Ends ts) : ∃ t rest, ts = t :: rest := by
  cases ts with
  | nil => exact absurd h not_ends_nil
  | cons t rest => exact ⟨t, rest, rfl⟩

/-- There may be more than one mark; the first one counts. -/
theorem Ends.exists_first (h : Ends ts) : ∃ (before : List Token) (stop : Range) (us : List Token),
    ts = before ++ [⟨stop, .stop⟩] ++ us ∧ ∀ t ∈ before, t.kind.isStop = false := by
  induction ts with
  | nil => exact absurd h not_ends_nil
  | cons t rest ih =>
    obtain ⟨range, kind⟩ := t
    by_cases hkind : kind = .stop
    · exact ⟨[], range, rest, by rw [hkind]; rfl, by simp⟩
    · have ht : kind.isStop = false := by cases kind <;> first | rfl | exact absurd rfl hkind
      obtain ⟨before, stop, us, rfl, hbefore⟩ := ih (h.tail ht)
      exact ⟨⟨range, kind⟩ :: before, stop, us, rfl, List.forall_mem_cons.2 ⟨ht, hbefore⟩⟩

theorem ends_of_scan {base : Position} {source : String} (h : Token.scan base source = .ok ts) :
    Ends ts := by
  rw [Token.scan] at h
  dsimp only at h
  split at h
  · cases h
    exact ⟨_, List.mem_map_of_mem (List.mem_append_right _ (List.mem_singleton_self _)), rfl⟩
  · cases h

theorem peek_cons (t : Token) (ts : List Token) : peek (t :: ts) = t := rfl

theorem Ends.peek_mem (h : Ends ts) : peek ts ∈ ts := by
  obtain ⟨t, rest, rfl⟩ := h.exists_cons
  exact List.mem_cons_self ..

theorem Ends.peek_append (h : Ends ts) (us : List Token) : peek (ts ++ us) = peek ts := by
  obtain ⟨t, rest, rfl⟩ := h.exists_cons
  rfl

/-! ## Two readings -/

section

variable {α β : Type} {m n k l : Nat} {P : α → List Token → Prop} {Q : β → List Token → Prop}

/-- Two readings, the second off tokens behind which more stand: both give the same value, of which `P`
holds with what was read for it, and stop before the mark of the end, or both fail with the same
error. -/
inductive Stays (us ts : List Token) (P : α → List Token → Prop) :
    ParseResult α m → ParseResult α n → Prop
  | ok {a : α} (read : List Token) {rest : List Token} {h : rest.length < m}
      {h' : (rest ++ us).length < n} (hts : ts = read ++ rest) (ends : Ends rest)
      (value : P a read) :
      Stays us ts P (.ok ⟨a, rest, h⟩) (.ok ⟨a, rest ++ us, h'⟩)
  | error {e : ParseError} (within : e.Within ts) : Stays us ts P (.error e) (.error e)

/-- The same for what may be there or not. -/
inductive StaysOption (us ts : List Token) (P : α → List Token → Prop) :
    Option (Parsed Token α m) → Option (Parsed Token α n) → Prop
  | some {a : α} (read : List Token) {rest : List Token} {h : rest.length < m}
      {h' : (rest ++ us).length < n} (hts : ts = read ++ rest) (ends : Ends rest)
      (value : P a read) :
      StaysOption us ts P (some ⟨a, rest, h⟩) (some ⟨a, rest ++ us, h'⟩)
  | none : StaysOption us ts P none none

/-- Nothing more is read. -/
theorem stays_ok {a : α} {h : ts.length < m} {h' : (ts ++ us).length < n} (ends : Ends ts)
    (value : P a []) : Stays us ts P (.ok ⟨a, ts, h⟩) (.ok ⟨a, ts ++ us, h'⟩) :=
  .ok [] rfl ends value

/-- Some tokens have been read already. -/
theorem Stays.behind (read : List Token) {r : ParseResult α m} {r' : ParseResult α n}
    (hts : ts = read ++ rest) (hr : Stays us rest (fun a ts => P a (read ++ ts)) r r') :
    Stays us ts P r r' := by
  subst hts
  cases hr with
  | ok read' hrest ends value => exact .ok _ (by rw [hrest, List.append_assoc]) ends value
  | error within => exact .error (within.mono (List.subset_append_right ..))

theorem Stays.cons {r : ParseResult α m} {r' : ParseResult α n}
    (hr : Stays us rest (fun a ts => P a (t :: ts)) r r') : Stays us (t :: rest) P r r' :=
  .behind [t] rfl hr

theorem Stays.mono {P' : α → List Token → Prop} {r : ParseResult α m} {r' : ParseResult α n}
    (hr : Stays us ts P r r') (h : ∀ a read, P a read → P' a read) : Stays us ts P' r r' := by
  cases hr with
  | ok read hts ends value => exact .ok _ hts ends (h _ _ value)
  | error within => exact .error within

theorem stays_bind {r : ParseResult α m} {r' : ParseResult α n}
    {f : Parsed Token α m → ParseResult β k} {f' : Parsed Token α n → ParseResult β l}
    (hr : Stays us ts P r r')
    (hf : ∀ a read rest h h', Ends rest → P a read →
      Stays us rest (fun b read' => Q b (read ++ read')) (f ⟨a, rest, h⟩) (f' ⟨a, rest ++ us, h'⟩)) :
    Stays us ts Q (r >>= f) (r' >>= f') := by
  cases hr with
  | ok read hts ends value => exact .behind _ hts (hf _ _ _ _ _ ends value)
  | error within => exact .error within

end

theorem eq_symbol_of_isSymbol {s : Symbol} {k : TokenKind} (h : k.isSymbol s) : k = .symbol s := by
  cases k <;> simp_all [TokenKind.isSymbol]

/-- What has no meaning at the end is read before it. -/
theorem isStop_of_meaning {α : Type} (meaning? : TokenKind → Option α)
    (hstop : meaning? .stop = none) {k : TokenKind} {a : α} (h : meaning? k = some a) :
    k.isStop = false := by
  cases k <;> first | rfl | simp [hstop] at h

theorem take?_stays (s : Symbol) (h : Ends ts) :
    StaysOption us ts (fun t read => read = [t] ∧ t.kind = .symbol s) (take? s ts)
      (take? s (ts ++ us)) := by
  obtain ⟨t, rest, rfl⟩ := h.exists_cons
  rw [List.cons_append, take?, take?]
  by_cases hk : t.kind.isSymbol s
  · have hkind := eq_symbol_of_isSymbol hk
    simp only [if_pos hk]
    exact .some [t] rfl (h.tail (by rw [hkind]; rfl)) ⟨rfl, hkind⟩
  · simp only [if_neg hk]
    exact .none

theorem takeAs?_stays {α : Type} (meaning? : TokenKind → Option α) (hstop : meaning? .stop = none)
    (h : Ends ts) :
    StaysOption us ts (fun p read => read = [p.1] ∧ meaning? p.1.kind = some p.2) (takeAs? meaning? ts)
      (takeAs? meaning? (ts ++ us)) := by
  obtain ⟨t, rest, rfl⟩ := h.exists_cons
  rw [List.cons_append, takeAs?, takeAs?]
  cases hk : meaning? t.kind with
  | none => exact .none
  | some a => exact .some [t] rfl (h.tail (isStop_of_meaning meaning? hstop hk)) ⟨rfl, hk⟩

theorem expect_stays (s : Symbol) (fail : Token → ParseError)
    (hfail : ∀ {ts t}, t ∈ ts → (fail t).Within ts) (h : Ends ts) :
    Stays us ts (fun t read => read = [t] ∧ t.kind = .symbol s) (expect s fail ts)
      (expect s fail (ts ++ us)) := by
  have ht : StaysOption us ts _ _ _ := take?_stays s h
  rw [expect, expect, h.peek_append]
  generalize take? s ts = o at ht ⊢
  generalize take? s (ts ++ us) = o' at ht ⊢
  cases ht with
  | some read hts ends value => exact .ok _ hts ends value
  | none => exact .error (hfail h.peek_mem)

/-- A token before the mark of the end, whatever stands behind the mark. -/
theorem Ends.exists_of_append {vs : List Token} (h : Ends ts) (hts : ts ++ us = t :: vs)
    (ht : t.kind.isStop = false) : ∃ rest, ts = t :: rest ∧ Ends rest ∧ rest ++ us = vs := by
  obtain ⟨u, rest, rfl⟩ := h.exists_cons
  obtain ⟨rfl, hrest⟩ := List.cons.inj hts
  exact ⟨rest, rfl, h.tail ht, hrest⟩

/-- The tokens behind the opening parenthesis of parameters. -/
def paramKinds (xs : List String) : List TokenKind :=
  Expr.commaKinds (xs.map fun x => [.ident x]) ++ [.symbol .rightParen, .symbol .arrow]

theorem paramKinds_cons {xs : List String} (hxs : xs ≠ []) (x : String) :
    paramKinds (x :: xs) = .ident x :: .symbol .comma :: paramKinds xs := by
  cases xs with
  | nil => exact absurd rfl hxs
  | cons y ys => rw [paramKinds, Expr.commaKinds_idents, List.cons_append, List.cons_append, paramKinds]

theorem paramList?_stays (ts : List Token) (h : Ends ts) :
    StaysOption us ts (fun xs read => xs ≠ [] ∧ kindsOf read = paramKinds xs) (paramList? ts)
      (paramList? (ts ++ us)) := by
  rw [paramList?.eq_def ts]
  split
  · rename_i r x r' rest
    have ih := paramList?_stays rest ((h.tail rfl).tail rfl)
    rw [List.cons_append, List.cons_append, paramList?]
    generalize paramList? rest = o at ih ⊢
    generalize paramList? (rest ++ us) = o' at ih ⊢
    cases ih with
    | some read hts ends value =>
      rename_i xs _ _ _
      refine .some (⟨r, .ident x⟩ :: ⟨r', .symbol .comma⟩ :: read) (by rw [hts]; rfl) ends ?_
      exact ⟨by simp, by rw [paramKinds_cons value.1, ← value.2]; rfl⟩
    | none => exact .none
  · rename_i r x r' r'' rest
    exact .some [⟨r, .ident x⟩, ⟨r', .symbol .rightParen⟩, ⟨r'', .symbol .arrow⟩] rfl
      (((h.tail rfl).tail rfl).tail rfl) ⟨by simp, rfl⟩
  · rename_i hcomma hparen
    have hnone : paramList? (ts ++ us) = none := by
      generalize hts : ts ++ us = vs
      rw [paramList?]
      · rintro r x r' vs rfl
        obtain ⟨rest, rfl, hrest, hvs⟩ := h.exists_of_append hts rfl
        obtain ⟨rest, rfl, -, -⟩ := hrest.exists_of_append hvs rfl
        exact hcomma _ _ _ _ rfl
      · rintro r x r' r'' vs rfl
        obtain ⟨rest, rfl, hrest, hvs⟩ := h.exists_of_append hts rfl
        obtain ⟨rest, rfl, hrest, hvs⟩ := hrest.exists_of_append hvs rfl
        obtain ⟨rest, rfl, -, -⟩ := hrest.exists_of_append hvs rfl
        exact hparen _ _ _ _ _ rfl
    rw [hnone]
    exact .none
termination_by ts.length

theorem arrowHead?_stays (h : Ends ts) :
    StaysOption us ts (fun xs read => ∃ read', read = peek ts :: read' ∧ Head xs (kindsOf read))
      (arrowHead? ts) (arrowHead? (ts ++ us)) := by
  generalize hts : ts ++ us = vs
  rw [arrowHead?.eq_def vs]
  split
  · rename_i r x r' vs
    obtain ⟨rest, rfl, hrest, hvs⟩ := h.exists_of_append hts rfl
    obtain ⟨rest, rfl, hrest, rfl⟩ := hrest.exists_of_append hvs rfl
    exact .some [⟨r, .ident x⟩, ⟨r', .symbol .arrow⟩] rfl hrest ⟨_, rfl, .bare x⟩
  · rename_i r r' r'' vs
    obtain ⟨rest, rfl, hrest, hvs⟩ := h.exists_of_append hts rfl
    obtain ⟨rest, rfl, hrest, hvs⟩ := hrest.exists_of_append hvs rfl
    obtain ⟨rest, rfl, hrest, rfl⟩ := hrest.exists_of_append hvs rfl
    exact .some [⟨r, .symbol .leftParen⟩, ⟨r', .symbol .rightParen⟩, ⟨r'', .symbol .arrow⟩]
      rfl hrest ⟨_, rfl, .enclosed []⟩
  · rename_i r vs hparams
    obtain ⟨rest, rfl, hrest, rfl⟩ := h.exists_of_append hts rfl
    have hlist : StaysOption us rest _ _ _ := paramList?_stays rest hrest
    rw [arrowHead?]
    · generalize paramList? rest = o at hlist ⊢
      generalize paramList? (rest ++ us) = o' at hlist ⊢
      cases hlist with
      | some read hread ends value =>
        rename_i xs _ _ _
        refine .some (⟨r, .symbol .leftParen⟩ :: read) (by rw [hread]; rfl) ends ⟨read, rfl, ?_⟩
        rw [kindsOf, List.map_cons, ← kindsOf, value.2]
        exact .enclosed xs
      | none => exact .none
    · rintro _ _ _ rfl
      exact hparams _ _ _ rfl
  · rename_i hident hclosed hparams
    rw [arrowHead?.eq_def]
    split
    · exact absurd hts.symm (hident _ _ _ _)
    · exact absurd hts.symm (hclosed _ _ _ _)
    · exact absurd hts.symm (hparams _ _)
    · exact .none

/-! ## Expressions -/

mutual

theorem assignment_stays (ts : List Token) (h : Ends ts) :
    Stays us ts (fun e read => Made (.expr e) read) (assignment ts) (assignment (ts ++ us)) := by
  have hhead : StaysOption us ts _ _ _ := arrowHead?_stays h
  rw [assignment, assignment]
  generalize arrowHead? ts = o at hhead ⊢
  generalize arrowHead? (ts ++ us) = o' at hhead ⊢
  cases hhead with
  | some read hts ends hparams =>
    obtain ⟨read, rfl, hparams⟩ := hparams
    dsimp only
    rw [h.peek_append]
    refine .behind _ hts (stays_bind (assignment_stays _ ends) ?_)
    intro body read' rest hlt _ hrest hbody
    exact stays_ok hrest (by simpa using hbody.arrow hparams)
  | none =>
    refine stays_bind (conditional_stays ts h) ?_
    intro target read rest hlt _ hrest htarget
    have hop : StaysOption us rest _ _ _ := takeAs?_stays assignOp? rfl hrest
    dsimp only
    generalize takeAs? assignOp? rest = o at hop ⊢
    generalize takeAs? assignOp? (rest ++ us) = o' at hop ⊢
    cases hop with
    | none => exact stays_ok hrest (by simpa using htarget)
    | some read' hts ends value =>
      rename_i p rest₁ hlt₁ _
      obtain ⟨rfl, hop⟩ := value
      dsimp only
      split
      · rename_i hplace
        refine .behind _ hts (stays_bind (assignment_stays rest₁ ends) ?_)
        intro value read₂ rest₂ hlt₂ _ hrest₂ hvalue
        exact stays_ok hrest₂ (by simpa using htarget.assign hop hplace hvalue)
      · exact .error trivial
termination_by 16 * ts.length + 8

theorem conditional_stays (ts : List Token) (h : Ends ts) :
    Stays us ts (fun e read => Made (.expr e) read) (conditional ts) (conditional (ts ++ us)) := by
  rw [conditional, conditional]
  refine stays_bind (binary_stays 1 ts h) ?_
  intro test read rest hlt _ hrest htest
  have hquestion : StaysOption us rest _ _ _ := take?_stays .question hrest
  dsimp only
  generalize take? .question rest = o at hquestion ⊢
  generalize take? .question (rest ++ us) = o' at hquestion ⊢
  cases hquestion with
  | none => exact stays_ok hrest (by simpa using htest)
  | some read' hts ends value =>
    rename_i question rest₁ hlt₁ _
    obtain ⟨rfl, hquestion⟩ := value
    refine .behind _ hts (stays_bind (assignment_stays rest₁ ends) ?_)
    intro yes read₂ rest₂ hlt₂ _ hrest₂ hyes
    have hlt₂ : rest₂.length < rest₁.length := hlt₂
    refine stays_bind (expect_stays .colon .unexpectedToken (fun ht => ht) hrest₂) ?_
    rintro colon _ rest₃ hlt₃ _ hrest₃ ⟨rfl, hcolon⟩
    have hlt₃ : rest₃.length < rest₂.length := hlt₃
    refine stays_bind (assignment_stays rest₃ hrest₃) ?_
    intro no read₄ rest₄ hlt₄ _ hrest₄ hno
    exact stays_ok hrest₄ (by simpa using htest.conditional hquestion hyes hcolon hno)
termination_by 16 * ts.length + 7

theorem binary_stays (least : Nat) (ts : List Token) (h : Ends ts) :
    Stays us ts (fun e read => Made (.expr e) read) (binary least ts) (binary least (ts ++ us)) := by
  rw [binary, binary]
  refine stays_bind (unary_stays ts h) ?_
  intro left read rest hlt _ hrest hleft
  refine stays_bind (binaryTail_stays least hleft rest hrest) ?_
  intro e read' rest' hlt' _ hrest' he
  exact stays_ok hrest' (by simpa using he)
termination_by 16 * ts.length + 6

theorem binaryTail_stays (least : Nat) {left : Expr} {read : List Token}
    (hleft : Made (.expr left) read) (ts : List Token) (h : Ends ts) :
    Stays us ts (fun e read' => Made (.expr e) (read ++ read')) (binaryTail least left ts)
      (binaryTail least left (ts ++ us)) := by
  cases ts with
  | nil => exact absurd h not_ends_nil
  | cons t rest =>
    rw [List.cons_append, binaryTail, binaryTail]
    cases hop : binaryOp? t.kind with
    | none => exact stays_ok h (by simpa using hleft)
    | some op =>
      dsimp only
      split
      · exact stays_ok h (by simpa using hleft)
      · have hrest := h.tail (isStop_of_meaning binaryOp? rfl hop)
        refine .cons (stays_bind (binary_stays _ rest hrest) ?_)
        intro right read₁ rest₁ hlt₁ _ hrest₁ hright
        refine stays_bind (binaryTail_stays least (hleft.binary hop hright) rest₁ hrest₁) ?_
        intro e read₂ rest₂ hlt₂ _ hrest₂ he
        exact stays_ok hrest₂ (by simpa using he)
termination_by 16 * ts.length
decreasing_by all_goals subst_vars; simp only [List.length_cons]; omega

theorem unary_stays (ts : List Token) (h : Ends ts) :
    Stays us ts (fun e read => Made (.expr e) read) (unary ts) (unary (ts ++ us)) := by
  cases ts with
  | nil => exact absurd h not_ends_nil
  | cons t rest =>
    have hstepped := stepped_stays (t :: rest) h
    rw [List.cons_append] at hstepped ⊢
    rw [unary, unary]
    cases hop : unaryOp? t.kind with
    | some op =>
      refine .cons (stays_bind (unary_stays rest (h.tail (isStop_of_meaning unaryOp? rfl hop))) ?_)
      intro operand read rest' hlt _ hrest' hoperand
      exact stays_ok hrest' (by simpa using hoperand.unary hop)
    | none =>
      dsimp only
      cases hup : updateOp? t.kind with
      | some op =>
        refine .cons (stays_bind (unary_stays rest (h.tail (isStop_of_meaning updateOp? rfl hup))) ?_)
        intro target read rest' hlt _ hrest' htarget
        dsimp only
        split
        · rename_i hplace
          exact stays_ok hrest' (by simpa using htarget.stepBefore hup hplace)
        · exact .error trivial
      | none => exact hstepped
termination_by 16 * ts.length + 5

theorem stepped_stays (ts : List Token) (h : Ends ts) :
    Stays us ts (fun e read => Made (.expr e) read) (stepped ts) (stepped (ts ++ us)) := by
  rw [stepped, stepped]
  refine stays_bind (chain_stays ts h) ?_
  intro target read rest hlt _ hrest htarget
  have hop : StaysOption us rest _ _ _ := takeAs?_stays updateOp? rfl hrest
  dsimp only
  generalize takeAs? updateOp? rest = o at hop ⊢
  generalize takeAs? updateOp? (rest ++ us) = o' at hop ⊢
  cases hop with
  | none => exact stays_ok hrest (by simpa using htarget)
  | some read' hts ends value =>
    obtain ⟨rfl, hop⟩ := value
    dsimp only
    split
    · rename_i hplace
      exact .behind _ hts (stays_ok ends (htarget.stepAfter hop hplace))
    · exact .error trivial
termination_by 16 * ts.length + 4

theorem chain_stays (ts : List Token) (h : Ends ts) :
    Stays us ts (fun e read => Made (.expr e) read) (chain ts) (chain (ts ++ us)) := by
  rw [chain, chain]
  refine stays_bind (primary_stays ts h) ?_
  intro e read rest hlt _ hrest he
  refine stays_bind (chainTail_stays he rest hrest) ?_
  intro e read' rest' hlt' _ hrest' he
  exact stays_ok hrest' (by simpa using he)
termination_by 16 * ts.length + 3

theorem chainTail_stays {e : Expr} {read : List Token} (he : Made (.expr e) read) (ts : List Token)
    (h : Ends ts) :
    Stays us ts (fun e read' => Made (.expr e) (read ++ read')) (chainTail e ts)
      (chainTail e (ts ++ us)) := by
  cases ts with
  | nil => exact absurd h not_ends_nil
  | cons t rest =>
    rw [List.cons_append, chainTail.eq_def, chainTail.eq_def]
    dsimp only
    split
    · rename_i hk
      have hrest := h.tail (by rw [hk]; rfl)
      cases rest with
      | nil => exact absurd hrest not_ends_nil
      | cons name rest₁ =>
        rw [List.cons_append]
        dsimp only
        cases hname : memberName? name.kind with
        | some x =>
          have hrest₁ := hrest.tail (isStop_of_meaning memberName? rfl hname)
          refine .cons (.cons (stays_bind (chainTail_stays (he.member hk hname) rest₁ hrest₁) ?_))
          intro e read₂ rest₂ hlt₂ _ hrest₂ he
          exact stays_ok hrest₂ (by simpa using he)
        | none =>
          dsimp only
          split
          · rename_i hstop
            exact .error ⟨name, by simp, hstop, rfl⟩
          · exact .error (by simp [ParseError.Within])
    · rename_i hk
      refine .cons (stays_bind (assignment_stays rest (h.tail (by rw [hk]; rfl))) ?_)
      intro key read₁ rest₁ hlt₁ _ hrest₁ hkey
      have hlt₁ : rest₁.length < rest.length := hlt₁
      refine stays_bind (expect_stays .rightBracket .unclosedBracket (fun ht => ht) hrest₁) ?_
      rintro close _ rest₂ hlt₂ _ hrest₂ ⟨rfl, hclose⟩
      have hlt₂ : rest₂.length < rest₁.length := hlt₂
      refine stays_bind (chainTail_stays (he.index hk hkey hclose) rest₂ hrest₂) ?_
      intro e read₃ rest₃ hlt₃ _ hrest₃ he
      exact stays_ok hrest₃ (by simpa using he)
    · rename_i hk
      refine .cons (stays_bind
        (items_stays .rightParen .unclosedParen (fun ht => ht) rest (h.tail (by rw [hk]; rfl))) ?_)
      rintro ⟨args, close⟩ _ rest₁ hlt₁ _ hrest₁ ⟨read₁, rfl, hargs, hclose⟩
      refine stays_bind (chainTail_stays (he.call hk hargs hclose) rest₁ hrest₁) ?_
      intro e read₂ rest₂ hlt₂ _ hrest₂ he
      exact stays_ok hrest₂ (by simpa using he)
    · exact stays_ok h (by simpa using he)
termination_by 16 * ts.length
decreasing_by all_goals subst_vars; simp only [List.length_cons]; omega

theorem items_stays (close : Symbol) (fail : Token → ParseError)
    (hfail : ∀ {ts t}, t ∈ ts → (fail t).Within ts) (ts : List Token) (h : Ends ts) :
    Stays us ts (fun p read => ∃ read', read = read' ++ [p.2] ∧
        Made (.list (p.1.map fun e => (none, e))) read' ∧ p.2.kind = .symbol close)
      (items close fail ts) (items close fail (ts ++ us)) := by
  have hclose : StaysOption us ts _ _ _ := take?_stays close h
  rw [items, items]
  generalize take? close ts = o at hclose ⊢
  generalize take? close (ts ++ us) = o' at hclose ⊢
  cases hclose with
  | some read hts ends value => exact .ok _ hts ends ⟨[], value.1, .nil, value.2⟩
  | none =>
    refine stays_bind (assignment_stays ts h) ?_
    intro item read rest hlt _ hrest hitem
    have hcomma : StaysOption us rest _ _ _ := take?_stays .comma hrest
    dsimp only
    generalize take? .comma rest = o at hcomma ⊢
    generalize take? .comma (rest ++ us) = o' at hcomma ⊢
    cases hcomma with
    | some read' hts ends value =>
      rename_i comma rest₁ hlt₁ _
      obtain ⟨rfl, hcomma⟩ := value
      refine .behind _ hts (stays_bind (items_stays close fail hfail rest₁ ends) ?_)
      rintro ⟨more, t⟩ _ rest₂ hlt₂ _ hrest₂ ⟨read₂, rfl, hmore, ht⟩
      exact stays_ok hrest₂
        ⟨read ++ comma :: read₂, by simp, .cons (.plain hitem) hcomma hmore, ht⟩
    | none =>
      refine stays_bind (expect_stays close fail hfail hrest) ?_
      rintro t _ rest₁ hlt₁ _ hrest₁ ⟨rfl, ht⟩
      exact stays_ok hrest₁ ⟨read, by simp, .last (.plain hitem), ht⟩
termination_by 16 * ts.length + 9

theorem primary_stays (ts : List Token) (h : Ends ts) :
    Stays us ts (fun e read => Made (.expr e) read) (primary ts) (primary (ts ++ us)) := by
  cases ts with
  | nil => exact absurd h not_ends_nil
  | cons t rest =>
    rw [List.cons_append, primary.eq_def, primary.eq_def]
    dsimp only
    split
    -- literals
    iterate 5
      · rename_i hk
        exact .cons (stays_ok (h.tail (by rw [hk]; rfl)) (.literal hk))
    · rename_i hk
      exact .cons (stays_ok (h.tail (by rw [hk]; rfl)) (.ident hk))
    · rename_i hk
      refine .cons (stays_bind (assignment_stays rest (h.tail (by rw [hk]; rfl))) ?_)
      intro e read rest₁ hlt₁ _ hrest₁ he
      refine stays_bind (expect_stays .rightParen .unclosedParen (fun ht => ht) hrest₁) ?_
      rintro close _ rest₂ hlt₂ _ hrest₂ ⟨rfl, hclose⟩
      exact stays_ok hrest₂ (by simpa using he.paren hk hclose)
    · rename_i hk
      refine .cons (stays_bind
        (items_stays .rightBracket .unclosedBracket (fun ht => ht) rest (h.tail (by rw [hk]; rfl))) ?_)
      rintro ⟨es, close⟩ _ rest₁ hlt₁ _ hrest₁ ⟨read, rfl, hes, hclose⟩
      exact stays_ok hrest₁ (by simpa using hes.array hk hclose)
    · rename_i hk
      refine .cons (stays_bind (entries_stays rest (h.tail (by rw [hk]; rfl))) ?_)
      rintro ⟨es, close⟩ _ rest₁ hlt₁ _ hrest₁ ⟨read, rfl, hes, hclose⟩
      exact stays_ok hrest₁ (by simpa using hes.object hk hclose)
    · rename_i hk
      exact .error ⟨t, List.mem_cons_self .., by rw [hk]; rfl, rfl⟩
    · exact .error (List.mem_cons_self ..)
termination_by 16 * ts.length

theorem entries_stays (ts : List Token) (h : Ends ts) :
    Stays us ts (fun p read => ∃ read', read = read' ++ [p.2] ∧
        Made (.list (p.1.map fun q => (some q.1, q.2))) read' ∧ p.2.kind = .symbol .rightBrace)
      (entries ts) (entries (ts ++ us)) := by
  cases ts with
  | nil => exact absurd h not_ends_nil
  | cons key rest =>
    rw [List.cons_append, entries.eq_def, entries.eq_def]
    dsimp only
    split
    · rename_i hk
      have hkind : key.kind = .symbol .rightBrace := eq_symbol_of_isSymbol hk
      exact .cons (stays_ok (h.tail (by rw [hkind]; rfl)) ⟨[], rfl, .nil, hkind⟩)
    · cases hname : entryKey? key.kind with
      | none =>
        dsimp only
        split
        · exact .error (List.mem_cons_self ..)
        · exact .error (List.mem_cons_self ..)
      | some name =>
        have hrest := h.tail (isStop_of_meaning entryKey? rfl hname)
        refine .cons (stays_bind (entryValue_stays hname rest hrest) ?_)
        intro value read rest₁ hlt₁ _ hrest₁ hvalue
        have hcomma : StaysOption us rest₁ _ _ _ := take?_stays .comma hrest₁
        dsimp only
        generalize take? .comma rest₁ = o at hcomma ⊢
        generalize take? .comma (rest₁ ++ us) = o' at hcomma ⊢
        cases hcomma with
        | some read' hts ends comma =>
          rename_i comma' rest₂ hlt₂ _
          obtain ⟨rfl, hcomma⟩ := comma
          refine .behind _ hts (stays_bind (entries_stays rest₂ ends) ?_)
          rintro ⟨more, t⟩ _ rest₃ hlt₃ _ hrest₃ ⟨read₃, rfl, hmore, ht⟩
          exact stays_ok hrest₃
            ⟨key :: read ++ comma' :: read₃, by simp, .cons hvalue hcomma hmore, ht⟩
        | none =>
          refine stays_bind (expect_stays .rightBrace .unclosedBrace (fun ht => ht) hrest₁) ?_
          rintro t _ rest₂ hlt₂ _ hrest₂ ⟨rfl, ht⟩
          exact stays_ok hrest₂ ⟨key :: read, by simp, .last hvalue, ht⟩
termination_by 16 * ts.length
decreasing_by all_goals subst_vars; simp only [List.length_cons]; omega

theorem entryValue_stays {key : Token} {name : String} (hname : entryKey? key.kind = some name)
    (ts : List Token) (h : Ends ts) :
    Stays us ts (fun e read => Made (.item (some name) e) (key :: read)) (entryValue key name ts)
      (entryValue key name (ts ++ us)) := by
  have hcolon : StaysOption us ts _ _ _ := take?_stays .colon h
  rw [entryValue, entryValue, h.peek_append]
  generalize take? .colon ts = o at hcolon ⊢
  generalize take? .colon (ts ++ us) = o' at hcolon ⊢
  cases hcolon with
  | some read hts ends value =>
    obtain ⟨rfl, hcolon⟩ := value
    refine .behind _ hts (stays_bind (assignment_stays _ ends) ?_)
    intro e read' rest hlt _ hrest he
    exact stays_ok hrest (by simpa using he.entry hname hcolon)
  | none =>
    dsimp only
    split
    · rename_i x hk
      have hx := hname
      rw [hk] at hx
      cases hx
      exact stays_ok h (.shorthand hk)
    · exact .error h.peek_mem
termination_by 16 * ts.length + 9

end

/-! ## Statements -/

theorem statement_stays (ts : List Token) (h : Ends ts) :
    Stays us ts MadeStatement (statement ts) (statement (ts ++ us)) := by
  generalize hvs : ts ++ us = vs
  rw [statement.eq_def ts, statement.eq_def vs]
  split
  · rename_i range name rest
    rw [List.cons_append, List.cons_append] at hvs
    subst hvs
    have hrest := h.tail rfl
    dsimp only
    split
    · rename_i x hname
      have hrest₁ := hrest.tail (by rw [hname]; rfl)
      refine .cons (.cons (stays_bind (expect_stays .equal .unexpectedToken (fun ht => ht) hrest₁) ?_))
      rintro equal _ rest₂ hlt₂ _ hrest₂ ⟨rfl, hequal⟩
      refine stays_bind (assignment_stays rest₂ hrest₂) ?_
      intro value read rest₃ hlt₃ _ hrest₃ hvalue
      have hword : (⟨range, .letWord⟩ : Token).kind = .letWord := rfl
      exact stays_ok hrest₃ (by simpa using MadeStatement.letIn hword hname hequal hvalue)
    · rename_i hname
      exact .error ⟨name, by simp, by rw [hname]; rfl, rfl⟩
    · exact .error (List.mem_cons_of_mem _ (List.mem_cons_self ..))
  · rename_i hlet
    split
    · rename_i range name vs
      obtain ⟨rest, rfl, hrest, hvs⟩ := h.exists_of_append hvs rfl
      obtain ⟨name', rest, rfl⟩ := hrest.exists_cons
      exact absurd rfl (hlet range name' rest)
    · subst hvs
      exact (assignment_stays ts h).mono fun _ _ => .expression

/-- Two runs to the mark of the end: both give the same value, of which `P` holds, or fail with the same
error. -/
inductive Agree {α : Type} (ts : List Token) (P : α → Prop) :
    Except ParseError α → Except ParseError α → Prop
  | ok {a : α} (value : P a) : Agree ts P (.ok a) (.ok a)
  | error {e : ParseError} (within : e.Within ts) : Agree ts P (.error e) (.error e)

theorem Agree.mono {α : Type} {P : α → Prop} {r r' : Except ParseError α} (hr : Agree rest P r r')
    (hsub : rest ⊆ ts) : Agree ts P r r' := by
  cases hr with
  | ok value => exact .ok value
  | error within => exact .error (within.mono hsub)

theorem Agree.bind {α β : Type} {P : α → Prop} {Q : β → Prop} {r r' : Except ParseError α}
    {f : α → Except ParseError β} (hr : Agree ts P r r') (hf : ∀ a, P a → Agree ts Q (f a) (f a)) :
    Agree ts Q (r >>= f) (r' >>= f) := by
  cases hr with
  | ok value => exact hf _ value
  | error within => exact .error within

theorem Stays.agree {α β : Type} {m n : Nat} {P : α → List Token → Prop} {Q : β → Prop}
    {r : ParseResult α m} {r' : ParseResult α n} {f : Parsed Token α m → Except ParseError β}
    {f' : Parsed Token α n → Except ParseError β} (hr : Stays us ts P r r')
    (hf : ∀ a read rest h h', ts = read ++ rest → Ends rest → P a read →
      Agree ts Q (f ⟨a, rest, h⟩) (f' ⟨a, rest ++ us, h'⟩)) :
    Agree ts Q (r >>= f) (r' >>= f') := by
  cases hr with
  | ok read hts ends value => exact hf _ read _ _ _ hts ends value
  | error within => exact .error within

theorem madeStatements_dropWhile {es : List Expr} (ts : List Token)
    (h : MadeStatements es (ts.dropWhile fun t => t.kind.isSymbol .semicolon)) :
    MadeStatements es ts := by
  induction ts with
  | nil => exact h
  | cons t ts ih =>
    rw [List.dropWhile_cons] at h
    split at h
    · rename_i ht
      exact .skip (eq_symbol_of_isSymbol ht) (ih h)
    · exact h

variable {stop : Range}

theorem ends_concat (ts : List Token) (stop : Range) : Ends (ts ++ [⟨stop, .stop⟩]) :=
  ⟨⟨stop, .stop⟩, by simp, rfl⟩

/-- The mark of the end is left at the end of what is still to be read. -/
theorem Ends.exists_concat {stop : Token} {read : List Token} (h : Ends rest)
    (hts : ts ++ [stop] = read ++ rest) : ∃ rest', rest = rest' ++ [stop] ∧ ts = read ++ rest' := by
  obtain rfl | ⟨rest', t, rfl⟩ := rest.eq_nil_or_concat
  · exact absurd h not_ends_nil
  · rw [List.concat_eq_append, ← List.append_assoc] at hts
    obtain ⟨rfl, hlast⟩ := List.append_inj' hts rfl
    cases hlast
    exact ⟨rest', List.concat_eq_append, rfl⟩

theorem dropWhile_semicolon_stop (ts us : List Token) (stop : Range) :
    (ts ++ ⟨stop, .stop⟩ :: us).dropWhile (fun t => t.kind.isSymbol .semicolon) =
      ts.dropWhile (fun t => t.kind.isSymbol .semicolon) ++ ⟨stop, .stop⟩ :: us := by
  induction ts with
  | nil => rfl
  | cons t ts ih =>
    rw [List.cons_append, List.dropWhile_cons, List.dropWhile_cons]
    split
    · exact ih
    · rfl

/-- The statements of a text, by induction on the tokens before its end. The semicolons before the
first statement are left out. -/
theorem statements_agree (ts : List Token) (hts : ∀ t ∈ ts, t.kind.isStop = false) :
    Agree (ts ++ [⟨stop, .stop⟩])
      (fun p => MadeStatements p.1 (ts.dropWhile fun t => t.kind.isSymbol .semicolon) ∧ p.2 = stop)
      (statements (ts ++ [⟨stop, .stop⟩])) (statements (ts ++ [⟨stop, .stop⟩] ++ us)) := by
  have hsub := List.dropWhile_sublist (l := ts) fun t => t.kind.isSymbol .semicolon
  rw [List.append_assoc, List.singleton_append, statements_of_dropWhile (dropWhile_semicolon_stop ..),
    statements_of_dropWhile (dropWhile_semicolon_stop ..)]
  generalize (ts.dropWhile fun t => t.kind.isSymbol .semicolon) = ds at hsub ⊢
  refine .mono ?_ (hsub.append_right [⟨stop, .stop⟩]).subset
  cases ds with
  | nil =>
    change Agree _ _ (.ok ([], stop)) (.ok ([], stop))
    exact .ok ⟨.nil, rfl⟩
  | cons t ds =>
    have hfront : Stays us _ MadeStatement _ _ := statement_stays _ (ends_concat (t :: ds) stop)
    have hstart : ¬t.kind.isStop := by simp [hts t (hsub.mem (List.mem_cons_self ..))]
    rw [List.append_assoc, List.singleton_append] at hfront
    rw [List.cons_append, List.cons_append, peek_cons, peek_cons, if_neg hstart, if_neg hstart]
    refine hfront.agree fun first read rest hlt _ hread hrest hfirst => ?_
    obtain ⟨rest, rfl, hds⟩ := hrest.exists_concat hread
    have hsubset : rest ++ [(⟨stop, .stop⟩ : Token)] ⊆ t :: ds ++ [(⟨stop, .stop⟩ : Token)] := by
      rw [hread]
      exact List.subset_append_right ..
    dsimp only
    rw [hrest.peek_append]
    split
    · rename_i hnext
      cases rest with
      | nil =>
        rw [List.nil_append, List.singleton_append, statements_stop, statements_stop]
        refine .ok ⟨?_, rfl⟩
        rw [hds]
        simpa using MadeStatements.last hfirst
      | cons u rest =>
        have hmem : ∀ t ∈ u :: rest, t ∈ ts := fun t ht => hsub.mem (hds ▸ by simp [ht])
        have hu : u.kind.isSymbol .semicolon := by
          simpa [peek_cons, hts u (hmem u (List.mem_cons_self ..))] using hnext
        have hshorter : (u :: rest).length < ts.length := by
          have hlength := hsub.length_le
          simp only [List.length_append, List.length_cons] at hlt hlength ⊢
          omega
        have hmore : Agree _ _ _ _ := statements_agree (u :: rest) fun t ht => hts t (hmem t ht)
        refine (hmore.mono hsubset).bind ?_
        rintro ⟨es, last⟩ ⟨hes, hlast⟩
        rw [List.dropWhile_cons, if_pos hu] at hes
        refine .ok ⟨?_, hlast⟩
        rw [hds]
        exact .cons hfirst (eq_symbol_of_isSymbol hu) (madeStatements_dropWhile rest hes)
    · exact .error (hsubset hrest.peek_mem)
termination_by ts.length

end Parse

namespace Expr

open Parse Form

variable {ts : List Token}

theorem ofTokens_agree (us : List Token) (stop : Range) (hts : ∀ t ∈ ts, t.kind.isStop = false) :
    Agree (ts ++ [⟨stop, .stop⟩]) (fun e => e.MadeOf ts)
      (ofTokens (ts ++ [⟨stop, .stop⟩])) (ofTokens (ts ++ [⟨stop, .stop⟩] ++ us)) := by
  rw [ofTokens, ofTokens]
  refine (statements_agree ts hts).bind ?_
  rintro ⟨es, last⟩ ⟨hes, rfl⟩
  have hes := madeStatements_dropWhile ts hes
  cases es with
  | nil => exact .error ⟨_, List.mem_append_right _ (List.mem_singleton_self _), rfl, rfl⟩
  | cons e es =>
    cases es with
    | nil => exact .ok (.statement hes)
    | cons e' es =>
      obtain ⟨es, last, hlast⟩ := (e' :: es).eq_nil_or_concat.resolve_left (List.cons_ne_nil e' es)
      rw [List.concat_eq_append] at hlast
      dsimp only
      rw [hlast] at hes ⊢
      rw [List.getLast?_concat]
      exact .ok (.sequence hes)

/-- The tree of a token list is made of the tokens before its first mark of the end. -/
theorem madeOf_of_ofTokens {us : List Token} {stop : Range} {e : Expr}
    (hts : ∀ t ∈ ts, t.kind.isStop = false) (h : ofTokens (ts ++ [⟨stop, .stop⟩] ++ us) = .ok e) :
    e.MadeOf ts := by
  have hagree := ofTokens_agree us stop hts
  rw [h] at hagree
  generalize ofTokens (ts ++ [⟨stop, .stop⟩]) = r at hagree
  cases hagree with
  | ok hmade => exact hmade

theorem writtenBy_of_ofTokens {us : List Token} {stop : Range} {e : Expr}
    (hts : ∀ t ∈ ts, t.kind.isStop = false) (h : ofTokens (ts ++ [⟨stop, .stop⟩] ++ us) = .ok e) :
    e.WrittenBy (kindsOf ts) := (madeOf_of_ofTokens hts h).writtenBy

/-- The parser goes through a token list up to the mark of its end. What stands behind the mark changes
nothing, and the token of an error stands in the list. A tree is written by all tokens before the mark:
its names and constants are theirs, in their order. It has the shape of a text. -/
theorem ofTokens_derives (stop : Range) (hts : ∀ t ∈ ts, t.kind.isStop = false) :
    (∀ us, ofTokens (ts ++ [⟨stop, .stop⟩] ++ us) = ofTokens (ts ++ [⟨stop, .stop⟩])) ∧
    (∀ error, ofTokens (ts ++ [⟨stop, .stop⟩]) = .error error →
      error.Within (ts ++ [⟨stop, .stop⟩])) ∧
    ∀ e, ofTokens (ts ++ [⟨stop, .stop⟩]) = .ok e →
      e.WrittenBy (ts.map (·.kind)) ∧ Spelled e.words (TokenKind.words (ts.map (·.kind))) ∧
        e.IsText := by
  refine ⟨fun us => ?_, fun error h => ?_, fun e h => ?_⟩
  · have hagree := ofTokens_agree us stop hts
    generalize ofTokens (ts ++ [⟨stop, .stop⟩]) = r at hagree ⊢
    generalize ofTokens (ts ++ [⟨stop, .stop⟩] ++ us) = r' at hagree ⊢
    cases hagree <;> rfl
  · have hagree := ofTokens_agree [] stop hts
    rw [List.append_nil, h] at hagree
    cases hagree with
    | error within => exact within
  · rw [← List.append_nil (ts ++ _)] at h
    have hwritten := writtenBy_of_ofTokens hts h
    exact ⟨hwritten, hwritten.spelled, hwritten.isText⟩

/-- In the object of `{ a }` one token stands for a key and for the variable that is its value. -/
theorem ofTokens_derives_shorthand :
    ofTokens ([⟨.initial, .symbol .leftBrace⟩, ⟨.initial, .ident "a"⟩,
        ⟨.initial, .symbol .rightBrace⟩] ++ [⟨.initial, .stop⟩]) =
      .ok (.object .initial [("a", .ident .initial "a")]) ∧
    (object .initial [("a", .ident .initial "a")]).WrittenBy
      [.symbol .leftBrace, .ident "a", .symbol .rightBrace] ∧
    Spelled [.field "a"] [.ident "a"] := by
  have hts : ∀ t ∈ [(⟨.initial, .symbol .leftBrace⟩ : Token), ⟨.initial, .ident "a"⟩,
      ⟨.initial, .symbol .rightBrace⟩], t.kind.isStop = false := by decide
  have hparse : ofTokens ([⟨.initial, .symbol .leftBrace⟩, ⟨.initial, .ident "a"⟩,
      ⟨.initial, .symbol .rightBrace⟩] ++ [⟨.initial, .stop⟩]) =
        .ok (.object .initial [("a", .ident .initial "a")]) := by cbv
  obtain ⟨-, -, htree⟩ := ofTokens_derives .initial hts
  obtain ⟨hwritten, hspelled, -⟩ := htree _ hparse
  exact ⟨hparse, hwritten, hspelled⟩

theorem ofTokens_isText {e : Expr} (hts : Ends ts) (h : ofTokens ts = .ok e) : e.IsText := by
  obtain ⟨before, stop, us, rfl, hbefore⟩ := hts.exists_first
  exact (writtenBy_of_ofTokens hbefore h).isText

/-- What the parser makes stands for no declared value anywhere. -/
theorem parse_isSource {base : Position} {source : String} {e : Expr}
    (h : parse base source = .ok e) : IsSource e := by
  rw [parse] at h
  split at h
  · cases h
  · rename_i ts hscan
    split at h
    · cases h
    · cases h
      exact (ofTokens_isText (ends_of_scan hscan) ‹_›).isSource

end Expr

end ReactiveMarkup
