import ReactiveMarkup.Text.Casing.Table

/-!
# Upper and lower case

Full Unicode case mapping of a text: a character may become several, and a capital sigma becomes a
final sigma at the end of a word. ASCII letters are mapped without a look at the tables.
-/
namespace ReactiveMarkup.Casing

/-- The mapped form of one character by its expansions first and its runs second. -/
def mapChar (expansions : List (Nat × List Nat)) (runs : List CaseRun) (c : Char) : List Char :=
  match expansions.lookup c.toNat with
  | some ns => ns.map Char.ofNat
  | none =>
    match runs.findSome? fun r => r.partner? c.toNat with
    | some n => [Char.ofNat n]
    | none => [c]

/-- The upper case of a character. -/
def upperChar (c : Char) : List Char :=
  if c.toNat < 128 then [c.toUpper] else mapChar upperExpansions CaseRun.upper c

/-- The lower case of a character that stands alone. -/
def lowerChar (c : Char) : List Char :=
  if c.toNat < 128 then [c.toLower] else mapChar lowerExpansions CaseRun.lower c

/-- Whether the first character that case rules do not skip has a case. -/
def startsCased (cs : List Char) : Bool :=
  match cs.dropWhile CharSet.caseIgnorable.contains with
  | c :: _ => CharSet.cased.contains c
  | [] => false

/-- The capital sigma, whose lower case depends on its neighbours. -/
def capitalSigma : Char := 'Σ'

/-- Lower case of the characters after `before`, which is in reverse order. -/
def lowerAfter : List Char → List Char → List Char
  | _, [] => []
  | before, c :: cs =>
    let mapped :=
      if c = capitalSigma then
        if startsCased before && !startsCased cs then ['ς'] else ['σ']
      else lowerChar c
    mapped ++ lowerAfter (c :: before) cs

/-- A text in upper case. -/
def upper (s : String) : String := String.ofList (s.toList.flatMap upperChar)

/-- A text in lower case. -/
def lower (s : String) : String := String.ofList (lowerAfter [] s.toList)

end ReactiveMarkup.Casing
