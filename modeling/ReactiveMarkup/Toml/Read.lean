import ReactiveMarkup.Toml.Scalar

/-!
# Reading TOML

A document is read line by line; values may span lines. What is wrong with a text that is no document
is not told. Arrays and inline tables nest at most `nesting` deep.

Main definition: `Toml.read?`.
-/
namespace ReactiveMarkup.Toml

/-! ## Blanks -/

/-- Space and tab. -/
def isGap (c : Char) : Bool := c = ' ' || c = '\t'

/-- What follows spaces and tabs. -/
def skipGap (cs : List Char) : List Char := cs.dropWhile isGap

/-- Whether a character may stand in a comment or a quoted text. -/
def isPlain (c : Char) : Bool := c = '\t' || (' ' ≤ c && c ≠ '\x7f')

/-- What follows a comment, if there is one; the line does not end with it. -/
def skipComment? : List Char → Option (List Char)
  | '#' :: cs =>
    match cs.dropWhile isPlain with
    | [] => some []
    | '\n' :: rest => some ('\n' :: rest)
    | '\r' :: '\n' :: rest => some ('\r' :: '\n' :: rest)
    | _ => none
  | cs => some cs

/-- What follows blanks, comments and ends of lines; each round takes one line of the text. -/
def skipLines? : (rounds : Nat) → List Char → Option (List Char)
  | 0, cs => some cs
  | rounds + 1, cs => do
    match ← skipComment? (skipGap cs) with
    | '\n' :: rest => skipLines? rounds rest
    | '\r' :: '\n' :: rest => skipLines? rounds rest
    | rest => some rest

/-- What follows blanks, comments and ends of lines. -/
def skipAll? (cs : List Char) : Option (List Char) := skipLines? (cs.length + 1) cs

/-! ## Strings -/

/-- The character of a code. -/
def charOf? (code : Nat) : Option Char := if code.isValidChar then some (Char.ofNat code) else none

/-- A character written by its code in hexadecimal digits. -/
def byCode? (ds : List Char) : Option Char :=
  if ds.all isHexDigit then charOf? (ofDigits 16 ds) else none

/-- What a letter after a backslash stands for. -/
def escaped? : Char → Option Char
  | 'b' => some '\x08'
  | 't' => some '\t'
  | 'n' => some '\n'
  | 'f' => some '\x0c'
  | 'r' => some '\r'
  | 'e' => some '\x1b'
  | '"' => some '"'
  | '\\' => some '\\'
  | _ => none

/-- Puts a character in front of a text that was read. -/
def push (c : Char) (r : Option (List Char × List Char)) : Option (List Char × List Char) :=
  r.map fun (text, rest) => (c :: text, rest)

/-- A text in double quotes, after the first. -/
def basic? : List Char → Option (List Char × List Char)
  | '"' :: rest => some ([], rest)
  | '\\' :: 'x' :: a :: b :: rest => do push (← byCode? [a, b]) (basic? rest)
  | '\\' :: 'u' :: a :: b :: c :: d :: rest => do push (← byCode? [a, b, c, d]) (basic? rest)
  | '\\' :: 'U' :: a :: b :: c :: d :: e :: f :: g :: h :: rest => do
    push (← byCode? [a, b, c, d, e, f, g, h]) (basic? rest)
  | '\\' :: c :: rest => do push (← escaped? c) (basic? rest)
  | c :: rest => if isPlain c && c != '\\' then push c (basic? rest) else none
  | [] => none

/-- A text in single quotes, after the first. -/
def literal? : List Char → Option (List Char × List Char)
  | '\'' :: rest => some ([], rest)
  | c :: rest => if isPlain c then push c (literal? rest) else none
  | [] => none

/-- Up to two quotes more before those that end a text, and what follows. -/
def closing (quote : Char) : List Char → List Char × List Char
  | a :: b :: rest =>
    if a = quote ∧ b = quote then ([a, b], rest)
    else if a = quote then ([a], b :: rest)
    else ([], a :: b :: rest)
  | [a] => if a = quote then ([a], []) else ([], [a])
  | [] => ([], [])

/-- Whether a line ends after blanks. -/
def endsLine (cs : List Char) : Bool :=
  match skipGap cs with
  | '\n' :: _ | '\r' :: '\n' :: _ => true
  | _ => false

/-- A text in three double quotes, after the first three. After a backslash at the end of a line,
blanks and ends of lines are left out; `skipping` tells whether that is going on. -/
def multiBasic? : (skipping : Bool) → List Char → Option (List Char × List Char)
  | _, '"' :: '"' :: '"' :: rest => some (closing '"' rest)
  | _, '\\' :: 'x' :: a :: b :: rest => do push (← byCode? [a, b]) (multiBasic? false rest)
  | _, '\\' :: 'u' :: a :: b :: c :: d :: rest => do
    push (← byCode? [a, b, c, d]) (multiBasic? false rest)
  | _, '\\' :: 'U' :: a :: b :: c :: d :: e :: f :: g :: h :: rest => do
    push (← byCode? [a, b, c, d, e, f, g, h]) (multiBasic? false rest)
  | _, '\\' :: c :: rest =>
    if endsLine (c :: rest) then multiBasic? true rest
    else do push (← escaped? c) (multiBasic? false rest)
  | skipping, '\r' :: '\n' :: rest =>
    if skipping then multiBasic? true rest else push '\n' (multiBasic? false rest)
  | skipping, c :: rest =>
    if skipping && (isGap c || c == '\n') then multiBasic? true rest
    else if (isPlain c && c != '\\') || c == '\n' then push c (multiBasic? false rest)
    else none
  | _, [] => none

/-- A text in three single quotes, after the first three. -/
def multiLiteral? : List Char → Option (List Char × List Char)
  | '\'' :: '\'' :: '\'' :: rest => some (closing '\'' rest)
  | '\r' :: '\n' :: rest => push '\n' (multiLiteral? rest)
  | c :: rest => if isPlain c || c == '\n' then push c (multiLiteral? rest) else none
  | [] => none

/-- What follows the end of a line right behind the quotes that open a text. -/
def skipFirstLine : List Char → List Char
  | '\n' :: rest => rest
  | '\r' :: '\n' :: rest => rest
  | cs => cs

/-! ## Keys -/

/-- Whether a character may stand in a key without quotes. -/
def isBare (c : Char) : Bool := c.isAlphanum || c = '_' || c = '-'

/-- One key. -/
def simpleKey? : List Char → Option (String × List Char)
  | '"' :: rest => (basic? rest).map fun (s, rest) => (String.ofList s, rest)
  | '\'' :: rest => (literal? rest).map fun (s, rest) => (String.ofList s, rest)
  | cs =>
    let bare := cs.takeWhile isBare
    if bare.isEmpty then none else some (String.ofList bare, cs.drop bare.length)

/-- Keys with dots between them; each round takes one. -/
def keyPath? : (rounds : Nat) → List Char → Option (List String × List Char)
  | 0, _ => none
  | rounds + 1, cs => do
    let (key, rest) ← simpleKey? (skipGap cs)
    match skipGap rest with
    | '.' :: rest =>
      let (keys, rest) ← keyPath? rounds rest
      return (key :: keys, rest)
    | rest => return ([key], rest)

/-- Keys with dots between them. -/
def keys? (cs : List Char) : Option (List String × List Char) := keyPath? (cs.length + 1) cs

/-! ## Values -/

/-- Whether a character may stand in a number, a date or a truth value. -/
def isScalarChar (c : Char) : Bool := c.isAlphanum || c ∈ ['_', '-', '+', '.', ':']

/-- A number, a date or a truth value. A date may have a space before its time. -/
def readScalar? (cs : List Char) : Option (Toml × List Char) := do
  let first := cs.takeWhile isScalarChar
  let rest := cs.drop first.length
  let text := match afterDate? first, rest with
    | some [], ' ' :: d :: _ =>
      if d.isDigit then first ++ ' ' :: (rest.drop 1).takeWhile isScalarChar else first
    | _, _ => first
  return (← scalar? text, cs.drop text.length)

/-- The items of an array, after its bracket; each round takes one. -/
def items? (value? : List Char → Option (Toml × List Char)) : (rounds : Nat) → List Char →
    Option (List Toml × List Char)
  | 0, _ => none
  | rounds + 1, cs => do
    match ← skipAll? cs with
    | ']' :: rest => return ([], rest)
    | cs =>
      let (v, rest) ← value? cs
      match ← skipAll? rest with
      | ',' :: rest =>
        let (vs, rest) ← items? value? rounds rest
        return (v :: vs, rest)
      | ']' :: rest => return ([v], rest)
      | _ => none

/-- A key with its value. -/
def pair? (value? : List Char → Option (Toml × List Char)) (cs : List Char) :
    Option (List String × Toml × List Char) := do
  let (path, rest) ← keys? cs
  let '=' :: rest := rest | none
  let (v, rest) ← value? (skipGap rest)
  return (path, v, rest)

/-- The entries of an inline table, after its brace; each round takes one. -/
def inline? (value? : List Char → Option (Toml × List Char)) : (rounds : Nat) → Entries →
    List Char → Option (Entries × List Char)
  | 0, _, _ => none
  | rounds + 1, es, cs => do
    match ← skipAll? cs with
    | '\x7d' :: rest => return (es, rest)
    | cs =>
      let (path, v, rest) ← pair? value? cs
      let es ← define path v es
      match ← skipAll? rest with
      | ',' :: rest => inline? value? rounds es rest
      | '\x7d' :: rest => return (es, rest)
      | _ => none

/-- How deep arrays and inline tables may nest. -/
def nesting : Nat := 80

/-- A value; arrays and inline tables may nest `depth` deep. -/
def value? : (depth : Nat) → List Char → Option (Toml × List Char)
  | _, '"' :: '"' :: '"' :: rest =>
    (multiBasic? false (skipFirstLine rest)).map fun (s, rest) => (.string (String.ofList s), rest)
  | _, '\'' :: '\'' :: '\'' :: rest =>
    (multiLiteral? (skipFirstLine rest)).map fun (s, rest) => (.string (String.ofList s), rest)
  | _, '"' :: rest => (basic? rest).map fun (s, rest) => (.string (String.ofList s), rest)
  | _, '\'' :: rest => (literal? rest).map fun (s, rest) => (.string (String.ofList s), rest)
  | depth + 1, '[' :: rest => do
    let (items, rest) ← items? (value? depth) (rest.length + 1) rest
    return (.array items, rest)
  | depth + 1, '\x7b' :: rest => do
    let (entries, rest) ← inline? (value? depth) (rest.length + 1) [] rest
    return (.table .inline entries, rest)
  | _, cs => readScalar? cs

/-! ## Lines -/

/-- A document being read, and the path of the table that the last header named. -/
structure Draft where
  entries : Entries
  table : List String
  deriving Inhabited

/-- What follows a line that holds nothing more. -/
def endLine? (cs : List Char) : Option (List Char) := do
  match ← skipComment? (skipGap cs) with
  | [] => some []
  | '\n' :: rest => some rest
  | '\r' :: '\n' :: rest => some rest
  | _ => none

/-- Reads one line that is not empty. -/
def line? (d : Draft) (cs : List Char) : Option (Draft × List Char) :=
  match cs with
  | '[' :: '[' :: rest => do
    let (path, rest) ← keys? rest
    let ']' :: ']' :: rest := rest | none
    return (⟨← openItem path d.entries, path⟩, ← endLine? rest)
  | '[' :: rest => do
    let (path, rest) ← keys? rest
    let ']' :: rest := rest | none
    return (⟨← openTable path d.entries, path⟩, ← endLine? rest)
  | cs => do
    let (path, v, rest) ← pair? (value? nesting) cs
    return ({ d with entries := ← defineIn d.table path v d.entries }, ← endLine? rest)

/-- Reads lines to the end of a text; each round takes one. -/
def lines? : (rounds : Nat) → Draft → List Char → Option Entries
  | 0, _, _ => none
  | rounds + 1, d, cs => do
    match ← skipAll? cs with
    | [] => return d.entries
    | cs =>
      let (d, rest) ← line? d cs
      lines? rounds d rest

/-- The entries of a document. A byte order mark in front does not count. -/
def read? (s : String) : Option Entries :=
  let cs := match s.toList with
    | '\ufeff' :: cs => cs
    | cs => cs
  lines? (cs.length + 1) ⟨[], []⟩ cs

end ReactiveMarkup.Toml
