import ReactiveMarkup.Proofs.Expr.Lexis
import ReactiveMarkup.Proofs.Text.Position

/-!
# How a text splits into tokens

A text is blanks and lexemes in turn. Each token is the longest lexeme that stands at its place, and
its range is the place of its characters, line breaks in a string included; so the ranges stand one
behind the other. The scanner reads all of a text, or up to where no lexeme stands.

Main definitions: `Token.Splits`.
Main results: `Token.Splits.inLine`, `Token.scan_splits`.
-/
namespace ReactiveMarkup.Token

/-- A text from a position on splits into tokens, with a text left from a further position on. Before
each token stand blanks. The token is the longest lexeme there, and its range goes from the position of
its first character to the position behind its last one. -/
inductive Splits : Position → List Char → List Token → Position → List Char → Prop
  | done (here : Position) (rest : List Char) : Splits here rest [] here rest
  | token {here there : Position} {gap text cs rest : List Char} {kind : TokenKind} {ts : List Token}
      (hgap : ∀ c ∈ gap, Lexeme.isGap c) (htext : Lexeme.Longest text kind (text ++ cs))
      (hts : Splits ((here.advanceAll gap).advanceAll text) cs ts there rest) :
      Splits here (gap ++ (text ++ cs))
        (⟨⟨here.advanceAll gap, (here.advanceAll gap).advanceAll text⟩, kind⟩ :: ts) there rest

namespace Splits

variable {here there : Position} {cs rest : List Char} {ts : List Token}

/-- What is left stands behind what was read. -/
theorem exists_read (h : Splits here cs ts there rest) :
    ∃ read, cs = read ++ rest ∧ there = here.advanceAll read := by
  induction h with
  | done here rest => exact ⟨[], rfl, rfl⟩
  | @token here there gap text cs rest kind ts hgap htext hts ih =>
    obtain ⟨read, rfl, rfl⟩ := ih
    refine ⟨gap ++ (text ++ read), ?_, ?_⟩
    · simp only [List.append_assoc]
    · rw [Position.advanceAll_append, Position.advanceAll_append]

/-- Tokens stand along the text. -/
theorem along (h : Splits here cs ts there rest) :
    ∀ t ∈ ts, here.Along cs t.range.start ∧ here.Along cs t.range.stop := by
  induction h with
  | done => simp
  | @token here there gap text cs rest kind ts hgap htext hts ih =>
    have hbehind {p : Position} (hp : ((here.advanceAll gap).advanceAll text).Along cs p) :
        here.Along (gap ++ (text ++ cs)) p := by
      obtain ⟨front, hfront, rfl⟩ := hp
      refine ⟨gap ++ (text ++ front), ?_, by rw [Position.advanceAll_append, Position.advanceAll_append]⟩
      exact (List.prefix_append_right_inj _).2 ((List.prefix_append_right_inj _).2 hfront)
    refine List.forall_mem_cons.2 ⟨⟨⟨gap, List.prefix_append .., rfl⟩, ?_⟩, fun t ht => ?_⟩
    · exact hbehind ⟨[], List.nil_prefix, rfl⟩
    · exact ⟨hbehind (ih t ht).1, hbehind (ih t ht).2⟩

theorem proper (h : Splits .start cs ts there rest) : there.Proper := by
  obtain ⟨read, -, rfl⟩ := h.exists_read
  exact Position.proper_start.advanceAll read

/-- The same text in another place. -/
theorem offsetBy (h : Splits here cs ts there rest) (hhere : here.Proper) (base : Position) :
    Splits (here.offsetBy base) cs (ts.map fun t => t.offsetBy base) (there.offsetBy base) rest := by
  induction h with
  | done here rest => exact .done _ rest
  | @token here there gap text cs rest kind ts hgap htext hts ih =>
    have hstart := hhere.advanceAll gap
    have ih := ih (hstart.advanceAll text)
    rw [Position.advanceAll_offsetBy hstart, Position.advanceAll_offsetBy hhere] at ih
    rw [List.map_cons, Token.offsetBy, Range.offsetBy, Position.advanceAll_offsetBy hstart,
      Position.advanceAll_offsetBy hhere]
    exact .token hgap htext ih

end Splits

/-- The scanner splits a text up to blanks behind which no lexeme stands. -/
theorem splits_scanFrom (here : Position) (cs : List Char) :
    ∃ there gap, Splits here cs (scanFrom here cs).1 there (gap ++ (scanFrom here cs).2.2) ∧
      (∀ c ∈ gap, Lexeme.isGap c) ∧ (scanFrom here cs).2.1 = there.advanceAll gap ∧
      (∀ c ∈ (scanFrom here cs).2.2.head?, Lexeme.isGap c = false) ∧
      ∀ text kind, Lexeme.Written text kind → ¬text <+: (scanFrom here cs).2.2 := by
  fun_induction scanFrom here cs with
  | case1 here cs gap start cs' hread =>
    have hcs : gap ++ cs' = cs := List.takeWhile_append_dropWhile
    refine ⟨here, gap, ?_, fun c hc => Lexeme.of_mem_takeWhile hc, rfl, fun c hc => ?_,
      fun text kind => Lexeme.not_written_of_read? hread⟩
    · dsimp only
      rw [hcs]
      exact .done here cs
    · have hhead := List.head?_dropWhile_not Lexeme.isGap cs
      rw [show (cs.dropWhile Lexeme.isGap).head? = some c from hc] at hhead
      exact hhead
  | case2 here cs gap start cs' l hread hlt stop tokens last rest hmore ih =>
    have hcs : gap ++ (l.text ++ l.rest) = cs := by
      rw [← Lexeme.read?_text hread]
      exact List.takeWhile_append_dropWhile
    rw [hmore] at ih
    obtain ⟨there, after, hsplits, hafter, hlast, hhead, hnone⟩ := ih
    refine ⟨there, after, ?_, hafter, hlast, hhead, hnone⟩
    have htext := Lexeme.longest_of_read? hread
    rw [Lexeme.read?_text hread] at htext
    rw [← hcs]
    exact .token (fun c hc => Lexeme.of_mem_takeWhile hc) htext hsplits

/-- The scanner reads a text in its place up to its end, or up to where no lexeme stands, and tells what
machine words keep of the places. -/
theorem splits_scan (base : Position) (source : String) :
    ∃ tokens there gap rest, Splits base source.toList tokens there (gap ++ rest) ∧
      (∀ c ∈ gap, Lexeme.isGap c) ∧
      match rest with
      | [] => scan base source =
          .ok ((tokens ++ [Token.mk ⟨there.advanceAll gap, there.advanceAll gap⟩ .stop]).map stored)
      | c :: rest => Lexeme.isGap c = false ∧
          (∀ text kind, Lexeme.Written text kind → ¬text <+: c :: rest) ∧
          ∃ error, scan base source = .error error ∧
            error.range.start = (there.advanceAll gap).stored := by
  obtain ⟨there, gap, hsplits, hgap, hlast, hhead, hnone⟩ := splits_scanFrom .start source.toList
  have hmoved := hsplits.offsetBy Position.proper_start base
  rw [Position.start_offsetBy] at hmoved
  refine ⟨_, _, gap, _, hmoved, hgap, ?_⟩
  simp only [scan]
  rw [← Position.advanceAll_offsetBy hsplits.proper, ← hlast]
  generalize scanFrom .start source.toList = scanned at *
  obtain ⟨tokens, last, rest⟩ := scanned
  cases rest with
  | nil =>
    dsimp only
    rw [← Function.comp_def stored, ← List.map_map, List.map_append]
    rfl
  | cons c rest =>
    refine ⟨hhead c rfl, hnone, _, rfl, ?_⟩
    split <;> rfl

end ReactiveMarkup.Token
