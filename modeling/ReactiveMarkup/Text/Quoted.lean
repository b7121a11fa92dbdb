import ReactiveMarkup.Text.Quoted.Table

/-!
# Quoted text

A text in double quotes, as string tokens and string literals are shown: the quote, the backslash
and the usual control characters are escaped, and a character that cannot be seen, or that would
join the one before it, is shown by its number.
-/
namespace ReactiveMarkup.Quoted

/-- A character by its number, in hexadecimal digits without leading zeros. -/
def byNumber (c : Char) : List Char :=
  "\\u\x7b".toList ++ Nat.toDigits 16 c.toNat ++ ['\x7d']

/-- Whether a character is shown by its number. ASCII is decided without a look at the tables. -/
def isHidden (c : Char) : Bool :=
  if c.toNat < 128 then c.toNat < 32 || c.toNat == 127
  else CharSet.graphemeExtend.contains c || CharSet.defaultIgnorable.contains c
    || CharSet.unprintable.contains c

/-- How one character stands inside the quotes. -/
def escapeChar (c : Char) : List Char :=
  if c = '"' then ['\\', '"']
  else if c = '\\' then ['\\', '\\']
  else if c = '\n' then ['\\', 'n']
  else if c = '\r' then ['\\', 'r']
  else if c = '\t' then ['\\', 't']
  else if c = '\x00' then ['\\', '0']
  else if isHidden c then byNumber c
  else [c]

/-- The quoted form of a text. -/
def encode (s : String) : String :=
  String.ofList ('"' :: (s.toList.flatMap escapeChar ++ ['"']))

end ReactiveMarkup.Quoted
