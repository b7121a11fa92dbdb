import ReactiveMarkup.Expr.Token

/-!
# From text to tokens

`Token.scan` splits a text into tokens. Between tokens stand spaces, tabs, carriage returns and line
feeds; words, numbers and symbols are read as far as they go. The scan stops at the first character
where no token starts: that is the end of the text, or an error.

Main definitions: `Lexeme.read?`, which reads one token off the front, and `Token.scan`.
-/
namespace ReactiveMarkup

/-- A token read off the front of a text: its kind, its characters and what follows them. -/
structure Lexeme where
  kind : TokenKind
  text : List Char
  rest : List Char

namespace Lexeme

/-- What separates tokens. -/
def isGap (c : Char) : Bool := c == ' ' || c == '\t' || c == '\r' || c == '\n'

/-- What starts a word. -/
def startsWord (c : Char) : Bool := c.isAlpha || c == '_' || c == '$'

/-- What continues a word. -/
def continuesWord (c : Char) : Bool := c.isAlphanum || c == '_' || c == '$'

/-- Digits, and a fraction if a digit follows the point. -/
def number? (cs : List Char) : Option Lexeme :=
  let whole := cs.takeWhile Char.isDigit
  if whole.isEmpty then none
  else
    let rest := cs.dropWhile Char.isDigit
    let fraction :=
      match rest with
      | '.' :: after =>
        let places := after.takeWhile Char.isDigit
        if places.isEmpty then [] else '.' :: places
      | _ => []
    let places := fraction.drop 1
    let value := Number.ofDecimal (Number.digitsValue (Number.digitsValue 0 whole) places)
      (-(places.length : Int))
    some ⟨.number value, whole ++ fraction, rest.drop fraction.length⟩

/-- The character that a backslash and a character stand for. -/
def unescape? (c : Char) : Option Char :=
  if c = '\\' || c = '"' || c = '\'' then some c
  else if c = 'r' then some '\r'
  else if c = 'n' then some '\n'
  else if c = 't' then some '\t'
  else none

/-- The content of a string, its text up to and with the closing quote, and what follows. -/
def stringBody? (quote : Char) : List Char → Option (List Char × List Char × List Char)
  | [] => none
  | c :: cs =>
    if c = quote then some ([], [c], cs)
    else if c = '\\' then
      match cs with
      | [] => none
      | e :: cs =>
        match unescape? e, stringBody? quote cs with
        | some d, some (content, text, rest) => some (d :: content, c :: e :: text, rest)
        | _, _ => none
    else
      match stringBody? quote cs with
      | some (content, text, rest) => some (c :: content, c :: text, rest)
      | none => none

/-- A string in either quote. -/
def string? : List Char → Option Lexeme
  | [] => none
  | c :: cs =>
    if c = '"' || c = '\'' then
      (stringBody? c cs).map fun (content, text, rest) =>
        ⟨.string (String.ofList content), c :: text, rest⟩
    else none

/-- A word. -/
def word? : List Char → Option Lexeme
  | [] => none
  | c :: cs =>
    if startsWord c then
      let word := c :: cs.takeWhile continuesWord
      some ⟨.ofWord (String.ofList word), word, cs.dropWhile continuesWord⟩
    else none

/-- The longest symbol. -/
def symbol? (cs : List Char) : Option Lexeme :=
  (Symbol.all.find? fun s => s.text.toList.isPrefixOf cs).map fun s =>
    ⟨.symbol s, s.text.toList, cs.drop s.text.toList.length⟩

/-- The token at the very front of a text. -/
def read? (cs : List Char) : Option Lexeme :=
  number? cs <|> string? cs <|> word? cs <|> symbol? cs

/-! ## What a lexeme takes off the text -/

theorem stringBody?_length {quote : Char} {cs content text rest : List Char}
    (h : stringBody? quote cs = some (content, text, rest)) : rest.length < cs.length := by
  fun_induction stringBody? quote cs generalizing content text rest <;> grind

theorem length_dropWhile_le (p : Char → Bool) (cs : List Char) :
    (cs.dropWhile p).length ≤ cs.length := (List.dropWhile_sublist p).length_le

theorem number?_length {cs : List Char} {l : Lexeme} (h : number? cs = some l) :
    l.rest.length < cs.length := by
  cases cs with
  | nil => simp [number?] at h
  | cons c cs =>
    by_cases hc : c.isDigit
    · simp only [number?, List.takeWhile_cons, hc, if_true, List.isEmpty_cons, Bool.false_eq_true,
        if_false, Option.some.injEq] at h
      subst h
      have := length_dropWhile_le Char.isDigit cs
      simp only [List.length_drop, List.dropWhile_cons, hc, if_true, List.length_cons]
      omega
    · simp [number?, hc] at h

theorem string?_length {cs : List Char} {l : Lexeme} (h : string? cs = some l) :
    l.rest.length < cs.length := by
  cases cs with
  | nil => simp [string?] at h
  | cons c cs =>
    simp only [string?] at h
    split at h
    · obtain ⟨⟨content, text, rest⟩, hb, rfl⟩ := Option.map_eq_some_iff.1 h
      have := stringBody?_length hb
      simp only [List.length_cons]
      omega
    · simp at h

theorem word?_length {cs : List Char} {l : Lexeme} (h : word? cs = some l) :
    l.rest.length < cs.length := by
  cases cs with
  | nil => simp [word?] at h
  | cons c cs =>
    simp only [word?] at h
    split at h
    · simp only [Option.some.injEq] at h
      subst h
      have := length_dropWhile_le continuesWord cs
      simp only [List.length_cons]
      omega
    · simp at h

theorem symbol_text_ne_nil (s : Symbol) : s.text.toList ≠ [] := by cases s <;> decide

theorem symbol?_length {cs : List Char} {l : Lexeme} (h : symbol? cs = some l) :
    l.rest.length < cs.length := by
  obtain ⟨s, hs, rfl⟩ := Option.map_eq_some_iff.1 h
  have hp : s.text.toList <+: cs :=
    List.isPrefixOf_iff_prefix.1 (by simpa using List.find?_some hs)
  have hl := hp.length_le
  have hn := List.length_pos_iff.2 (symbol_text_ne_nil s)
  simp only [List.length_drop]
  omega

theorem read?_length {cs : List Char} {l : Lexeme} (h : read? cs = some l) :
    l.rest.length < cs.length := by
  simp only [read?, Option.orElse_eq_orElse, Option.orElse_eq_or, Option.or_eq_some_iff] at h
  rcases h with h | ⟨_, h | ⟨_, h | ⟨_, h⟩⟩⟩
  · exact number?_length h
  · exact string?_length h
  · exact word?_length h
  · exact symbol?_length h

end Lexeme

/-- Why a text is not a list of tokens. -/
inductive TokenError where
  | unexpected (found : Char) (range : Range)
  | unterminatedString (range : Range)
  deriving DecidableEq, Repr, Inhabited

namespace TokenError

/-- Where the error lies. -/
def range : TokenError → Range
  | unexpected _ range => range
  | unterminatedString range => range

/-- What the error says. -/
def message : TokenError → String
  | unexpected found _ => s!"Unexpected character \x60{found}\x60"
  | unterminatedString _ => "Unterminated string literal"

end TokenError

namespace Token

/-- The tokens from `here` on, and the position and the text where no further token starts. -/
def scanFrom (here : Position) (cs : List Char) : List Token × Position × List Char :=
  let gap := cs.takeWhile Lexeme.isGap
  let start := here.advanceAll gap
  let cs' := cs.dropWhile Lexeme.isGap
  match h : Lexeme.read? cs' with
  | none => ([], start, cs')
  | some l =>
    have : l.rest.length < cs.length :=
      Nat.lt_of_lt_of_le (Lexeme.read?_length h) (Lexeme.length_dropWhile_le _ cs)
    let stop := start.advanceAll l.text
    let (tokens, last, rest) := scanFrom stop l.rest
    (⟨⟨start, stop⟩, l.kind⟩ :: tokens, last, rest)
termination_by cs.length

/-- The tokens of a text that starts at `base`. The base may be any position, so of their ranges only
what machine words keep is told. -/
def scan (base : Position) (source : String) : Except TokenError (List Token) :=
  let (tokens, last, rest) := scanFrom .start source.toList
  match rest with
  | [] => .ok ((tokens ++ [Token.mk ⟨last, last⟩ .stop]).map fun t => (t.offsetBy base).stored)
  | c :: _ =>
    let range := (Range.offsetBy ⟨last, ⟨last.line, last.column + 1⟩⟩ base).stored
    .error (if c = '"' || c = '\'' then .unterminatedString range else .unexpected c range)

end Token

end ReactiveMarkup
