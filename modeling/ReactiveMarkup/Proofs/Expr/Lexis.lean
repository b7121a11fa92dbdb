import Mathlib.Tactic.SplitIfs
import ReactiveMarkup.Proofs.Expr.Lexeme

/-!
# The lexical grammar

The grammar says which texts are lexemes, without regard to what stands around them. What is read off
the front of a text is the longest lexeme that the text begins with; where nothing is read, it begins
with none.

Main definitions: `Lexeme.Quotes`, `Lexeme.Written`, `Lexeme.Longest`.
Main results: `Lexeme.longest_of_read?`, `Lexeme.not_written_of_read?`.
-/
namespace ReactiveMarkup

/-- Longer symbols come first. -/
theorem Symbol.all_sorted :
    all.Pairwise fun s t => t.text.toList.length ≤ s.text.toList.length := by decide

namespace Lexeme

/-! ## The grammar -/

/-- How a content is written between quotes of a kind: a character stands for itself, unless it is that
quote or a backslash, or a backslash and a character stand for it. -/
inductive Quotes (quote : Char) : List Char → List Char → Prop
  | nil : Quotes quote [] []
  | plain {c : Char} {content text : List Char} (hquote : c ≠ quote) (hslash : c ≠ '\\')
      (h : Quotes quote content text) : Quotes quote (c :: content) (c :: text)
  | escaped {c d : Char} {content text : List Char} (hd : unescape? c = some d)
      (h : Quotes quote content text) : Quotes quote (d :: content) ('\\' :: c :: text)

/-- The texts of lexemes, with what they are. -/
inductive Written : List Char → TokenKind → Prop
  | whole {ds : List Char} (hds : ∀ d ∈ ds, d.isDigit) (hne : ds ≠ []) :
      Written ds (.number (.ofDecimal (Number.digitsValue 0 ds) 0))
  | fraction {ds places : List Char} (hds : ∀ d ∈ ds, d.isDigit) (hne : ds ≠ [])
      (hplaces : ∀ d ∈ places, d.isDigit) (hne' : places ≠ []) :
      Written (ds ++ '.' :: places) (.number
        (.ofDecimal (Number.digitsValue (Number.digitsValue 0 ds) places) (-(places.length : Int))))
  | string {quote : Char} {content text : List Char} (hquote : quote = '"' ∨ quote = '\'')
      (h : Quotes quote content text) :
      Written (quote :: (text ++ [quote])) (.string (String.ofList content))
  | word {c : Char} {cs : List Char} (hc : startsWord c) (hcs : ∀ d ∈ cs, continuesWord d) :
      Written (c :: cs) (.ofWord (String.ofList (c :: cs)))
  | symbol (s : Symbol) : Written s.text.toList (.symbol s)

/-- The longest lexeme that a text begins with. -/
structure Longest (text : List Char) (kind : TokenKind) (cs : List Char) : Prop where
  begins : text <+: cs
  written : Written text kind
  longest : ∀ text' kind', Written text' kind' → text' <+: cs → text'.length ≤ text.length

variable {quote c : Char} {cs ds rest content text : List Char} {kind : TokenKind} {l : Lexeme}

theorem isDigit_of_isQuote (h : quote = '"' ∨ quote = '\'') : quote.isDigit = false := by
  rcases h with rfl | rfl <;> rfl

theorem number?_eq_none (hc : c.isDigit = false) (cs : List Char) : number? (c :: cs) = none := by
  simp [number?, hc]

theorem read?_digit (hc : c.isDigit) (cs : List Char) : read? (c :: cs) = number? (c :: cs) := by
  have hnumber : (number? (c :: cs)).isSome := by simp [number?, hc]
  obtain ⟨l, hl⟩ := Option.isSome_iff_exists.1 hnumber
  rw [read?, hl]
  rfl

theorem read?_quote (hquote : quote = '"' ∨ quote = '\'') (cs : List Char) :
    read? (quote :: cs) = string? (quote :: cs) := by
  have hword : word? (quote :: cs) = none := by rcases hquote with rfl | rfl <;> rfl
  have hsymbol : symbol? (quote :: cs) = none := by rcases hquote with rfl | rfl <;> rfl
  rw [read?, number?_eq_none (isDigit_of_isQuote hquote), hword, hsymbol]
  cases string? (quote :: cs) <;> rfl

theorem read?_startsWord (hc : startsWord c) (cs : List Char) :
    read? (c :: cs) = word? (c :: cs) := by
  have hquote : ¬((c = '"' || c = '\'') = true) := by
    simp only [Bool.or_eq_true, decide_eq_true_eq]
    rintro (rfl | rfl) <;> exact absurd hc (by decide)
  have hword : (word? (c :: cs)).isSome := by simp [word?, hc]
  obtain ⟨l, hl⟩ := Option.isSome_iff_exists.1 hword
  rw [read?, number?_eq_none (isDigit_of_startsWord hc), string?, if_neg hquote, hl]
  rfl

theorem read?_symbol (s : Symbol) (rest : List Char) :
    read? (s.text.toList ++ rest) = symbol? (s.text.toList ++ rest) := by
  cases s <;> rfl

/-! ## What is read is a lexeme -/

theorem quotes_of_stringBody? {cs : List Char} (h : stringBody? quote cs = some (content, text, rest)) :
    ∃ body, text = body ++ [quote] ∧ Quotes quote content body := by
  fun_induction stringBody? quote cs generalizing content text rest with
  | case1 => cases h
  | case2 cs =>
    cases h
    exact ⟨[], rfl, .nil⟩
  | case3 => cases h
  | case4 e cs d content' text' rest' hbody hd hquote ih =>
    cases h
    obtain ⟨body, rfl, hquotes⟩ := ih hbody
    exact ⟨'\\' :: e :: body, rfl, .escaped hd hquotes⟩
  | case5 => cases h
  | case6 c cs hquote hslash content' text' rest' hbody ih =>
    cases h
    obtain ⟨body, rfl, hquotes⟩ := ih hbody
    exact ⟨c :: body, rfl, .plain hquote hslash hquotes⟩
  | case7 => cases h

theorem string?_written (h : string? cs = some l) : Written l.text l.kind := by
  obtain ⟨-, quote, content, body, hquote, hkind, htext, hbody⟩ := string?_text h
  obtain ⟨body, rfl, hquotes⟩ := quotes_of_stringBody? hbody
  rw [hkind, htext]
  exact .string hquote hquotes

theorem number?_written (h : number? cs = some l) : Written l.text l.kind := by
  rw [number?] at h
  dsimp only at h
  split at h
  · cases h
  · rename_i hwhole
    have hne : cs.takeWhile Char.isDigit ≠ [] := by simpa using hwhole
    have hds : ∀ d ∈ cs.takeWhile Char.isDigit, d.isDigit := fun d hd => of_mem_takeWhile hd
    cases h
    dsimp only
    split
    · split
      · rw [List.append_nil]
        exact .whole hds hne
      · rename_i hplaces
        exact .fraction hds hne (fun d hd => of_mem_takeWhile hd) (by simpa using hplaces)
    · rw [List.append_nil]
      exact .whole hds hne

theorem word?_written (h : word? cs = some l) : Written l.text l.kind := by
  cases cs with
  | nil => cases h
  | cons c cs =>
    rw [word?] at h
    split at h
    · rename_i hc
      cases h
      exact .word hc fun d hd => of_mem_takeWhile hd
    · cases h

theorem symbol?_written (h : symbol? cs = some l) : Written l.text l.kind := by
  obtain ⟨-, s, hkind, htext⟩ := symbol?_text h
  rw [hkind, htext]
  exact .symbol s

theorem read?_written (h : read? cs = some l) : Written l.text l.kind := by
  rcases read?_cases h with h | h | h | h
  · exact number?_written h
  · exact string?_written h
  · exact word?_written h
  · exact symbol?_written h

/-! ## Where a lexeme stands, one as long is read -/

/-- What satisfies a condition throughout is read off the front as far as it goes, and maybe further. -/
theorem length_le_takeWhile {p : Char → Bool} (hds : ∀ d ∈ ds, p d) (rest : List Char) :
    ds.length ≤ ((ds ++ rest).takeWhile p).length := by
  rw [List.takeWhile_append_of_pos hds, List.length_append]
  exact Nat.le_add_right ..

/-- Digits are read, and no fewer than there are. -/
theorem exists_number?_whole (hds : ∀ d ∈ ds, d.isDigit) (hne : ds ≠ []) (rest : List Char) :
    ∃ l, number? (ds ++ rest) = some l ∧ ds.length ≤ l.text.length := by
  have hlength := length_le_takeWhile hds rest
  have hempty : ((ds ++ rest).takeWhile Char.isDigit).isEmpty = false := by
    have hpos := List.length_pos_iff.2 hne
    rw [List.isEmpty_eq_false_iff, ← List.length_pos_iff]
    omega
  simp only [number?, hempty, Bool.false_eq_true, if_false, Option.some.injEq, exists_eq_left',
    List.length_append]
  omega

theorem exists_number?_fraction (hds : ∀ d ∈ ds, d.isDigit) (hne : ds ≠ []) {places : List Char}
    (hplaces : ∀ d ∈ places, d.isDigit) (hne' : places ≠ []) (rest : List Char) :
    ∃ l, number? (ds ++ '.' :: places ++ rest) = some l ∧
      (ds ++ '.' :: places).length ≤ l.text.length := by
  have hdot : ∀ c ∈ ('.' :: (places ++ rest)).head?, c.isDigit = false := by simp
  obtain ⟨htake, hdrop⟩ := span_append hds hdot
  have hlength := length_le_takeWhile hplaces rest
  have hempty : ((places ++ rest).takeWhile Char.isDigit).isEmpty = false := by
    have hpos := List.length_pos_iff.2 hne'
    rw [List.isEmpty_eq_false_iff, ← List.length_pos_iff]
    omega
  rw [List.append_assoc, List.cons_append]
  simp only [number?, htake, hdrop, List.isEmpty_eq_false_iff.2 hne, hempty, Bool.false_eq_true,
    if_false, Option.some.injEq, exists_eq_left', List.length_append, List.length_cons]
  omega

theorem exists_word? (hc : startsWord c) (hcs : ∀ d ∈ cs, continuesWord d) (rest : List Char) :
    ∃ l, word? (c :: (cs ++ rest)) = some l ∧ (c :: cs).length ≤ l.text.length := by
  have hlength := length_le_takeWhile hcs rest
  simp only [word?, if_pos hc, Option.some.injEq, exists_eq_left', List.length_cons]
  omega

/-- A string is read up to its closing quote. -/
theorem stringBody?_of_quotes (h : Quotes quote content text) (hquote : quote ≠ '\\')
    (rest : List Char) :
    stringBody? quote (text ++ quote :: rest) = some (content, text ++ [quote], rest) := by
  induction h with
  | nil =>
    rw [List.nil_append, stringBody?.eq_def]
    simp
  | plain hne hslash _ ih =>
    rw [List.cons_append, stringBody?.eq_def]
    simp [hne, hslash, ih]
  | escaped hd _ ih =>
    rw [List.cons_append, List.cons_append, stringBody?.eq_def]
    simp [Ne.symm hquote, hd, ih]

theorem string?_of_quotes (hquote : quote = '"' ∨ quote = '\'') (h : Quotes quote content text)
    (rest : List Char) :
    string? (quote :: (text ++ quote :: rest)) =
      some ⟨.string (String.ofList content), quote :: (text ++ [quote]), rest⟩ := by
  have hslash : quote ≠ '\\' := by rcases hquote with rfl | rfl <;> decide
  rw [string?, if_pos (by simpa using hquote), stringBody?_of_quotes h hslash]
  rfl

/-- The first symbol that fits is a longest one. -/
theorem exists_symbol? (s : Symbol) (rest : List Char) :
    ∃ l, symbol? (s.text.toList ++ rest) = some l ∧ s.text.toList.length ≤ l.text.length := by
  have hfits : s.text.toList.isPrefixOf (s.text.toList ++ rest) :=
    List.isPrefixOf_iff_prefix.2 (List.prefix_append ..)
  obtain ⟨t, ht⟩ : ∃ t, Symbol.all.find? (fun t => t.text.toList.isPrefixOf (s.text.toList ++ rest)) =
      some t :=
    Option.isSome_iff_exists.1 (List.find?_isSome.2 ⟨s, Symbol.mem_all s, hfits⟩)
  refine ⟨_, by rw [symbol?, ht]; rfl, ?_⟩
  obtain ⟨-, before, after, hall, hbefore⟩ := List.find?_eq_some_iff_append.1 ht
  have hs : s ∈ t :: after := by
    have hmem : s ∈ before ++ t :: after := hall ▸ Symbol.mem_all s
    refine (List.mem_append.1 hmem).resolve_left fun hs => ?_
    have hnot := hbefore s hs
    rw [hfits] at hnot
    cases hnot
  have hsorted := Symbol.all_sorted
  rw [hall] at hsorted
  rcases List.mem_cons.1 hs with rfl | hs
  · exact Nat.le_refl _
  · exact List.rel_of_pairwise_cons (List.pairwise_append.1 hsorted).2.1 hs

theorem exists_read?_of_written (h : Written text kind) (rest : List Char) :
    ∃ l, read? (text ++ rest) = some l ∧ text.length ≤ l.text.length := by
  cases h with
  | @whole ds hds hne =>
    obtain ⟨d, ds, rfl⟩ := List.exists_cons_of_ne_nil hne
    rw [List.cons_append, read?_digit (hds d (List.mem_cons_self ..))]
    exact exists_number?_whole hds hne rest
  | @fraction ds places hds hne hplaces hne' =>
    obtain ⟨d, ds, rfl⟩ := List.exists_cons_of_ne_nil hne
    rw [List.append_assoc, List.cons_append, read?_digit (hds d (List.mem_cons_self ..)),
      ← List.cons_append, ← List.append_assoc]
    exact exists_number?_fraction hds hne hplaces hne' rest
  | @string quote content body hquote hbody =>
    rw [List.cons_append, List.append_assoc, List.singleton_append, read?_quote hquote]
    exact ⟨_, string?_of_quotes hquote hbody rest, Nat.le_refl _⟩
  | word hc hcs =>
    rw [List.cons_append, read?_startsWord hc]
    exact exists_word? hc hcs rest
  | symbol s =>
    rw [read?_symbol]
    exact exists_symbol? s rest

/-- What is read is the longest lexeme that the text begins with. -/
theorem longest_of_read? (h : read? cs = some l) : Longest l.text l.kind cs where
  begins := ⟨l.rest, (read?_text h).symm⟩
  written := read?_written h
  longest text kind hwritten := by
    rintro ⟨rest, rfl⟩
    obtain ⟨l', hl', hlength⟩ := exists_read?_of_written hwritten rest
    cases h.symm.trans hl'
    exact hlength

/-- Where nothing is read, the text begins with no lexeme. -/
theorem not_written_of_read? (h : read? cs = none) (hwritten : Written text kind) :
    ¬text <+: cs := by
  rintro ⟨rest, rfl⟩
  obtain ⟨l, hl, -⟩ := exists_read?_of_written hwritten rest
  cases h.symm.trans hl

end Lexeme

end ReactiveMarkup
