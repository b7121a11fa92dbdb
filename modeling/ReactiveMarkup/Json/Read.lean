import ReactiveMarkup.Json.Basic

/-!
# Reading JSON text

A text is read as UTF-8 bytes, because an error names a line and a column counted in bytes. Arrays
and objects nest at most 127 deep. A number keeps the digits that fit into 64 bits and scales them
by a power of ten in double arithmetic, so the last digit of a long number may be off.

Main definitions: `Json.Fault`, `Json.ReadError` and `Json.read`.
-/
namespace ReactiveMarkup.Json

/-- What is wrong with a JSON text. -/
inductive Fault where
  | endInList | endInObject | endInString | endInValue
  | expectedColon | expectedCommaOrBracket | expectedCommaOrBrace
  | expectedIdent | expectedValue
  | invalidEscape | invalidNumber | numberOutOfRange
  | controlCharacter | keyNotString | loneSurrogate | endOfHexEscape
  | trailingComma | trailingCharacters | tooDeep
  deriving DecidableEq, Repr, Inhabited

namespace Fault

/-- What a fault says. -/
def message : Fault → String
  | endInList => "EOF while parsing a list"
  | endInObject => "EOF while parsing an object"
  | endInString => "EOF while parsing a string"
  | endInValue => "EOF while parsing a value"
  | expectedColon => "expected \x60:\x60"
  | expectedCommaOrBracket => "expected \x60,\x60 or \x60]\x60"
  | expectedCommaOrBrace => "expected \x60,\x60 or \x60\x7d\x60"
  | expectedIdent => "expected ident"
  | expectedValue => "expected value"
  | invalidEscape => "invalid escape"
  | invalidNumber => "invalid number"
  | numberOutOfRange => "number out of range"
  | controlCharacter => "control character (\\u0000-\\u001F) found while parsing a string"
  | keyNotString => "key must be a string"
  | loneSurrogate => "lone leading surrogate in hex escape"
  | endOfHexEscape => "unexpected end of hex escape"
  | trailingComma => "trailing comma"
  | trailingCharacters => "trailing characters"
  | tooDeep => "recursion limit exceeded"

end Fault

/-- A fault, and how many bytes of the text lie behind it. -/
structure Stop where
  fault : Fault
  behind : Nat

/-- A fault noticed after the bytes before `bs`. -/
def Fault.before (f : Fault) (bs : List UInt8) : Stop := ⟨f, bs.length⟩

/-- A fault noticed by looking at the first byte of `bs`. -/
def Fault.at (f : Fault) (bs : List UInt8) : Stop := ⟨f, bs.length - 1⟩

/-- The code of an ASCII character. -/
def code (c : Char) : UInt8 := UInt8.ofNat c.toNat

/-- White space between the parts of a text. -/
def isGap (b : UInt8) : Bool :=
  b == code ' ' || b == code '\n' || b == code '\t' || b == code '\r'

/-- A decimal digit. -/
def isDigit (b : UInt8) : Bool := code '0' ≤ b && b ≤ code '9'

/-- What follows white space. -/
def skipGap (bs : List UInt8) : List UInt8 := bs.dropWhile isGap

/-! ## Numbers -/

/-- Appends digits as long as the number fits into 64 bits; with the digits left over. -/
def absorb (n : Nat) : List UInt8 → Nat × List UInt8
  | [] => (n, [])
  | d :: ds =>
    let next := 10 * n + (d.toNat - (code '0').toNat)
    if next < Nat.pow 2 64 then absorb next ds else (n, d :: ds)

/-- The double `x · 10 ^ e`, in steps of at most `10 ^ 308`; `none` if it overflows. -/
def scale (x : Number) (e : Int) : Option Number :=
  if e > 308 then if x == 0.0 then some x else none
  else if 0 ≤ e then
    let y := x * Float.ofScientific 1 false e.toNat
    if y.isInf then none else some y
  else if -308 ≤ e then some (x / Float.ofScientific 1 false (-e).toNat)
  else if x == 0.0 then some x
  else scale (x / Float.ofScientific 1 false 308) (e + 308)
termination_by (-e).toNat

/-- A double from its digits, its power of ten and its sign. -/
def double (negative : Bool) (n : Nat) (e : Int) (rest : List UInt8) : Except Stop Json :=
  match scale (Number.ofNat n) e with
  | some x => .ok (.float (if negative then -x else x))
  | none => .error (Fault.numberOutOfRange.before rest)

/-- An optional sign in front of the digits of an exponent. -/
def splitSign : List UInt8 → Bool × List UInt8
  | b :: bs =>
    if b == code '-' then (true, bs) else if b == code '+' then (false, bs) else (false, b :: bs)
  | [] => (false, [])

/-- The digits of an exponent up to the one that exceeds 32 bits, if there is one. -/
def absorbExponent (n : Nat) : List UInt8 → Nat ⊕ List UInt8
  | [] => .inl n
  | d :: ds =>
    let next := 10 * n + (d.toNat - (code '0').toNat)
    if next < Nat.pow 2 31 then absorbExponent next ds else .inr ds

/-- A number whose exponent starts after its letter: `n · 10 ^ e` so far. -/
def withExponent (negative : Bool) (n : Nat) (e : Int) (bs : List UInt8) :
    Except Stop (Json × List UInt8) := do
  let (down, bs) := splitSign bs
  match bs with
  | [] => throw (Fault.endInValue.before [])
  | b :: after =>
    if !isDigit b then throw (Fault.invalidNumber.before after)
    else
      let rest := bs.dropWhile isDigit
      match absorbExponent 0 (bs.takeWhile isDigit) with
      | .inl x =>
        let j ← double negative n (if down then e - x else e + x) rest
        return (j, rest)
      | .inr left =>
        if n != 0 && !down then throw (Fault.numberOutOfRange.before (left ++ rest))
        else return (.float (if negative then -0.0 else 0.0), rest)

/-- The fraction and the exponent after the integer digits, which gave `n · 10 ^ e`. -/
def withFraction (negative : Bool) (n : Nat) (e : Nat) (bs : List UInt8) :
    Except Stop (Json × List UInt8) := do
  match bs with
  | [] => finish n e []
  | b :: after =>
    if b == code '.' then
      let digits := after.takeWhile isDigit
      let rest := after.dropWhile isDigit
      if digits.isEmpty then
        throw (if rest.isEmpty then Fault.endInValue.at rest else Fault.invalidNumber.at rest)
      else
        let (n, left) := absorb n digits
        let e : Int := e - (digits.length - left.length : Nat)
        match rest with
        | c :: after =>
          if c == code 'e' || c == code 'E' then withExponent negative n e after
          else do return (← double negative n e rest, rest)
        | [] => do return (← double negative n e [], [])
    else if b == code 'e' || b == code 'E' then withExponent negative n e after
    else finish n e bs
where
  /-- A number without a fraction or an exponent. -/
  finish (n e : Nat) (rest : List UInt8) : Except Stop (Json × List UInt8) := do
    if e = 0 then
      if !negative then return (.int n, rest)
      else if n = 0 || Nat.pow 2 63 < n then return (.float (-(Number.ofNat n)), rest)
      else return (.int (-n), rest)
    else return (← double negative n e rest, rest)

/-- A number after its sign. -/
def number (negative : Bool) (bs : List UInt8) : Except Stop (Json × List UInt8) :=
  match bs with
  | [] => .error (Fault.endInValue.before [])
  | b :: after =>
    if !isDigit b then .error (Fault.invalidNumber.before after)
    else
      let digits := bs.takeWhile isDigit
      if b == code '0' && 1 < digits.length then .error (Fault.invalidNumber.at after)
      else
        let (n, left) := absorb 0 digits
        withFraction negative n left.length (bs.dropWhile isDigit)

/-! ## Strings -/

/-- The value of a hexadecimal digit. -/
def hexValue? (b : UInt8) : Option Nat :=
  if isDigit b then some (b.toNat - (code '0').toNat)
  else if code 'a' ≤ b && b ≤ code 'f' then some (b.toNat - (code 'a').toNat + 10)
  else if code 'A' ≤ b && b ≤ code 'F' then some (b.toNat - (code 'A').toNat + 10)
  else none

/-- Four hexadecimal digits. -/
def hexEscape : List UInt8 → Except Stop (Nat × List UInt8)
  | a :: b :: c :: d :: rest =>
    match hexValue? a, hexValue? b, hexValue? c, hexValue? d with
    | some a, some b, some c, some d => .ok (((a * 16 + b) * 16 + c) * 16 + d, rest)
    | _, _, _, _ => .error (Fault.invalidEscape.before rest)
  | _ => .error (Fault.endInString.before [])

/-- Takes one byte inside of an escaped pair of surrogates. -/
def expectEscape (b : UInt8) : List UInt8 → Except Stop (List UInt8)
  | [] => .error (Fault.endInString.before [])
  | c :: rest => if b == c then .ok rest else .error (Fault.endOfHexEscape.before rest)

/-- The character after `\u`; one beyond 16 bits is written as two surrogates. -/
def unicodeEscape (bs : List UInt8) : Except Stop (Char × List UInt8) := do
  let (n, rest) ← hexEscape bs
  if 0xDC00 ≤ n && n ≤ 0xDFFF then throw (Fault.loneSurrogate.before rest)
  else if n < 0xD800 || 0xDBFF < n then return (Char.ofNat n, rest)
  else
    let rest ← expectEscape (code '\\') rest
    let rest ← expectEscape (code 'u') rest
    let (m, rest) ← hexEscape rest
    if m < 0xDC00 || 0xDFFF < m then throw (Fault.loneSurrogate.before rest)
    else return (Char.ofNat ((n - 0xD800) * 0x400 + (m - 0xDC00) + 0x10000), rest)

/-- The character after a backslash. -/
def escape : List UInt8 → Except Stop (Char × List UInt8)
  | [] => .error (Fault.endInString.before [])
  | b :: rest =>
    if b == code '"' then .ok ('"', rest)
    else if b == code '\\' then .ok ('\\', rest)
    else if b == code '/' then .ok ('/', rest)
    else if b == code 'b' then .ok ('\x08', rest)
    else if b == code 'f' then .ok ('\x0c', rest)
    else if b == code 'n' then .ok ('\n', rest)
    else if b == code 'r' then .ok ('\r', rest)
    else if b == code 't' then .ok ('\t', rest)
    else if b == code 'u' then unicodeEscape rest
    else .error (Fault.invalidEscape.before rest)

/-- The bytes of a string after its opening quote. Every step takes at least one byte, so a count of
the bytes is enough `steps`. -/
def stringBytes : (steps : Nat) → List UInt8 → Except Stop (List UInt8 × List UInt8)
  | _, [] => .error (Fault.endInString.before [])
  | 0, bs => .error (Fault.endInString.before bs)
  | steps + 1, b :: rest =>
    if b == code '"' then .ok ([], rest)
    else if b == code '\\' then do
      let (c, rest) ← escape rest
      let (content, rest) ← stringBytes steps rest
      return ((String.singleton c).toUTF8.toList ++ content, rest)
    else if b.toNat < 32 then .error (Fault.controlCharacter.before rest)
    else do
      let (content, rest) ← stringBytes steps rest
      return (b :: content, rest)

/-- A string after its opening quote. -/
def text (bs : List UInt8) : Except Stop (String × List UInt8) := do
  let (content, rest) ← stringBytes bs.length bs
  return ((String.fromUTF8? ⟨content.toArray⟩).getD "", rest)

/-! ## Documents -/

/-- The remaining letters of a word, which stands for a document. -/
def word (j : Json) : List Char → List UInt8 → Except Stop (Json × List UInt8)
  | [], rest => .ok (j, rest)
  | _ :: _, [] => .error (Fault.endInValue.before [])
  | c :: cs, b :: rest =>
    if b == code c then word j cs rest else .error (Fault.expectedIdent.before rest)

/-- A colon between a key and its value. -/
def colon (bs : List UInt8) : Except Stop (List UInt8) :=
  match skipGap bs with
  | [] => .error (Fault.endInObject.at [])
  | b :: rest => if b == code ':' then .ok rest else .error (Fault.expectedColon.at (b :: rest))

/-- What follows the comma after an item, or the first item itself: where the next item starts, or
`none` at the closing bracket. -/
def nextItem (first : Bool) (bs : List UInt8) : Except Stop (List UInt8 × Bool) :=
  match skipGap bs with
  | [] => .error (Fault.endInList.at [])
  | b :: rest =>
    if b == code ']' then .ok (rest, false)
    else if first then .ok (b :: rest, true)
    else if b == code ',' then
      match skipGap rest with
      | [] => .error (Fault.endInValue.at [])
      | c :: rest =>
        if c == code ']' then .error (Fault.trailingComma.at (c :: rest))
        else .ok (c :: rest, true)
    else .error (Fault.expectedCommaOrBracket.at (b :: rest))

/-- What follows the opening quote of the next key, or what follows the closing brace. -/
def nextKey (first : Bool) (bs : List UInt8) : Except Stop (List UInt8 × Bool) :=
  match skipGap bs with
  | [] => .error (Fault.endInObject.at [])
  | b :: rest =>
    if b == code '\x7d' then .ok (rest, false)
    else if first then
      if b == code '"' then .ok (rest, true) else .error (Fault.keyNotString.at (b :: rest))
    else if b == code ',' then
      match skipGap rest with
      | [] => .error (Fault.endInValue.at [])
      | c :: rest =>
        if c == code '"' then .ok (rest, true)
        else if c == code '\x7d' then .error (Fault.trailingComma.at (c :: rest))
        else .error (Fault.keyNotString.at (c :: rest))
    else .error (Fault.expectedCommaOrBrace.at (b :: rest))

mutual

/-- A document that may hold `depth` more levels of arrays and objects. Every document, item and
member takes at least one byte, so twice the count of the bytes is enough `steps`. -/
def document : (steps depth : Nat) → List UInt8 → Except Stop (Json × List UInt8)
  | 0, _, bs => .error (Fault.endInValue.at bs)
  | steps + 1, depth, bs =>
    match skipGap bs with
    | [] => .error (Fault.endInValue.at [])
    | b :: rest =>
      if b == code 'n' then word .null "ull".toList rest
      else if b == code 't' then word (.bool true) "rue".toList rest
      else if b == code 'f' then word (.bool false) "alse".toList rest
      else if b == code '-' then number true rest
      else if isDigit b then number false (b :: rest)
      else if b == code '"' then do
        let (s, rest) ← text rest
        return (.string s, rest)
      else if b == code '[' then
        match depth with
        | 0 => .error (Fault.tooDeep.at (b :: rest))
        | depth + 1 => do
          let (js, rest) ← items steps depth true rest
          return (.array js, rest)
      else if b == code '\x7b' then
        match depth with
        | 0 => .error (Fault.tooDeep.at (b :: rest))
        | depth + 1 => do
          let (ms, rest) ← members steps depth true rest
          return (.object (Keyed.ofList ms), rest)
      else .error (Fault.expectedValue.at (b :: rest))

/-- The items of an array, from the `first` or after an item. -/
def items : (steps depth : Nat) → Bool → List UInt8 → Except Stop (List Json × List UInt8)
  | 0, _, _, bs => .error (Fault.endInList.at bs)
  | steps + 1, depth, first, bs => do
    let (rest, isMore) ← nextItem first bs
    if isMore then
      let (j, rest) ← document steps depth rest
      let (js, rest) ← items steps depth false rest
      return (j :: js, rest)
    else return ([], rest)

/-- The members of an object, from the `first` or after a member. -/
def members : (steps depth : Nat) → Bool → List UInt8 →
    Except Stop (List (String × Json) × List UInt8)
  | 0, _, _, bs => .error (Fault.endInObject.at bs)
  | steps + 1, depth, first, bs => do
    let (rest, isMore) ← nextKey first bs
    if isMore then
      let (key, rest) ← text rest
      let rest ← colon rest
      let (j, rest) ← document steps depth rest
      let (ms, rest) ← members steps depth false rest
      return ((key, j) :: ms, rest)
    else return ([], rest)

end

/-- A fault and its place: a line from one, and the bytes before it on that line. -/
structure ReadError where
  fault : Fault
  line : Nat
  column : Nat
  deriving DecidableEq, Repr, Inhabited

namespace ReadError

/-- What an error says. -/
def message (e : ReadError) : String :=
  e.fault.message ++ " at line " ++ toString e.line ++ " column " ++ toString e.column

/-- The place of a stop in the bytes of its text. -/
def ofStop (bs : List UInt8) (s : Stop) : ReadError :=
  let before := bs.take (bs.length - s.behind)
  let isBreak (b : UInt8) : Bool := b == code '\n'
  ⟨s.fault, 1 + before.countP isBreak, (before.reverse.takeWhile fun b => !isBreak b).length⟩

end ReadError

/-- How deep arrays and objects nest. -/
def maxDepth : Nat := 127

/-- Reads a whole text as one document. -/
def read (source : String) : Except ReadError Json :=
  let bs := source.toUTF8.toList
  let result : Except Stop Json := do
    let (j, rest) ← document (2 * bs.length + 2) maxDepth bs
    match skipGap rest with
    | [] => return j
    | rest => throw (Fault.trailingCharacters.at rest)
  match result with
  | .ok j => .ok j
  | .error stop => .error (.ofStop bs stop)

end ReactiveMarkup.Json
