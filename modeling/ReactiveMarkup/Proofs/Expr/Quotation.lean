import ReactiveMarkup.Eval.Evaluate
import ReactiveMarkup.Expr.Parse
import ReactiveMarkup.Proofs.Expr.Spelling

/-!
# Strings in quotes

Every string can be written between quotes of either kind, and however it is written there, it is read
as that string and nothing else, and evaluates to it.

Main definitions: `Lexeme.escape`.
Main results: `Lexeme.quotes_escape`, `Expr.parse_quoted`.
-/
namespace ReactiveMarkup

namespace Lexeme

variable {quote : Char}

/-- The usual way to write a character between quotes of a kind, with line breaks and tabs as they are or
by their letters. -/
def escape (quote : Char) (letters : Bool) (c : Char) : List Char :=
  if c = quote ∨ c = '\\' then ['\\', c]
  else if letters then
    if c = '\n' then ['\\', 'n'] else if c = '\r' then ['\\', 'r'] else if c = '\t' then ['\\', 't']
    else [c]
  else [c]

/-- A character may be written in the usual way. -/
theorem quotes_escape_cons (hquote : quote = '"' ∨ quote = '\'') (letters : Bool) (c : Char)
    {content text : List Char} (h : Quotes quote content text) :
    Quotes quote (c :: content) (escape quote letters c ++ text) := by
  rw [escape]
  split
  · rename_i hc
    refine .escaped ?_ h
    rcases hc with rfl | rfl
    · rcases hquote with rfl | rfl <;> rfl
    · rfl
  · rename_i hc
    have hplain : Quotes quote (c :: content) ([c] ++ text) :=
      .plain (not_or.1 hc).1 (not_or.1 hc).2 h
    split_ifs with _ hn hr ht
    · exact .escaped (by rw [hn]; rfl) h
    · exact .escaped (by rw [hr]; rfl) h
    · exact .escaped (by rw [ht]; rfl) h
    · exact hplain
    · exact hplain

theorem quotes_escape (hquote : quote = '"' ∨ quote = '\'') (letters : Bool) (cs : List Char) :
    Quotes quote cs (cs.flatMap (escape quote letters)) := by
  induction cs with
  | nil => exact .nil
  | cons c cs ih => exact quotes_escape_cons hquote letters c ih

/-- A string between quotes is one lexeme, whatever follows. -/
theorem read?_quoted (hquote : quote = '"' ∨ quote = '\'') {content text : List Char}
    (h : Quotes quote content text) (rest : List Char) :
    read? (quote :: (text ++ [quote]) ++ rest) =
      some ⟨.string (String.ofList content), quote :: (text ++ [quote]), rest⟩ := by
  rw [List.cons_append, List.append_assoc, List.singleton_append, read?_quote hquote,
    string?_of_quotes hquote h]

end Lexeme

namespace Expr

open Lexeme (Quotes escape)

/-- Strings in quotes read back. A string may be written between quotes of either kind with a backslash
before each such quote and each backslash, and with line breaks and tabs as they are or by their letters.
However it is written, the text is one token, the tree is a constant, and its value is the string. -/
theorem parse_quoted {quote : Char} (hquote : quote = '"' ∨ quote = '\'') (s : String) :
    (∀ letters, Quotes quote s.toList (s.toList.flatMap (escape quote letters))) ∧
    ∀ text, Quotes quote s.toList text → ∀ base, ∃ range stop,
      Token.scan base (String.ofList (quote :: (text ++ [quote]))) =
        .ok [⟨range, .string s⟩, ⟨stop, .stop⟩] ∧
      parse base (String.ofList (quote :: (text ++ [quote]))) = .ok (.literal range (.string s)) ∧
      ∀ {σ : Type} (acc : Accessor σ) (limit : Nat) (f : Frame σ),
        (Eval.run acc limit (.literal range (.string s))).run f = (.ok (.string s), f) := by
  refine ⟨fun letters => Lexeme.quotes_escape hquote letters _, fun text htext base => ?_⟩
  have hspells : Token.Spells Lexeme.Apart (String.ofList (quote :: (text ++ [quote]))) [.string s] := by
    refine .lexeme ?_ fun rest _ => ?_
    · rcases hquote with rfl | rfl <;> simp [Token.begins, Lexeme.isGap]
    · rw [String.toList_ofList, Lexeme.read?_quoted hquote htext, String.ofList_toList]
  obtain ⟨ts, stop, hts, hscan⟩ := Token.scan_of_spells hspells base
  obtain ⟨⟨range, kind⟩, _, rfl, rfl, hnil⟩ := List.map_eq_cons_iff.1 hts
  obtain rfl := List.map_eq_nil_iff.1 hnil
  have htree : ofTokens [⟨range, .string s⟩, ⟨stop, .stop⟩] = .ok (.literal range (.string s)) := by cbv
  refine ⟨range, stop, hscan, ?_, fun acc limit f => rfl⟩
  rw [parse, hscan]
  dsimp only
  rw [List.singleton_append, htree]

/-- A string with the quote, the other quote, a backslash and a line break, which is written by its
letter. -/
theorem parse_quoted_mixed :
    ('\'' = '"' ∨ '\'' = '\'') ∧ Quotes '\'' "'\"\\\n".toList "\\'\"\\\\\\n".toList ∧
    ∃ range stop, Token.scan .start "'\\'\"\\\\\\n'" = .ok [⟨range, .string "'\"\\\n"⟩, ⟨stop, .stop⟩] ∧
      parse .start "'\\'\"\\\\\\n'" = .ok (.literal range (.string "'\"\\\n")) := by
  have hquote : '\'' = '"' ∨ '\'' = '\'' := .inr rfl
  have htext : Quotes '\'' "'\"\\\n".toList "\\'\"\\\\\\n".toList :=
    .escaped rfl (.plain (by decide) (by decide) (.escaped rfl (.escaped rfl .nil)))
  obtain ⟨range, stop, hscan, htree, -⟩ := (parse_quoted hquote "'\"\\\n").2 _ htext .start
  exact ⟨hquote, htext, range, stop, hscan, htree⟩

end Expr

end ReactiveMarkup
