import ReactiveMarkup.Document.Markup
import ReactiveMarkup.Document.Print
import ReactiveMarkup.Number.Reading
import ReactiveMarkup.Text.Keyed

/-!
# Reading HTML

`HtmlToken.scan` splits a text into tags, texts, comments and the document type; `Document.ofPage`
and `Document.ofFragment` build a document from them. Elements that HTML leaves implied are added: a
page always has `html`, `head` and `body`, and a table its `tbody`. Attributes are in name order.
-/
namespace ReactiveMarkup

/-- A piece of an HTML text. -/
inductive HtmlToken where
  | opening (tag : String) (attributes : List (String × String))
  | closing (tag : String)
  | text (text : List Char)
  | comment (text : List Char)
  | doctype (name : String)
  deriving Inhabited

namespace HtmlToken

/-- White space in HTML. -/
def isGap (c : Char) : Bool := Blank.isAsciiBlank c

/-- A text with ASCII letters in lower case. -/
def lower (cs : List Char) : String := String.ofList (cs.map Char.toLower)

/-! ## Character references -/

/-- The characters that have a name. -/
def named : List (String × Char) :=
  [("amp", '&'), ("lt", '<'), ("gt", '>'), ("quot", '"'), ("apos", '\''), ("nbsp", '\u00a0')]

/-- The value of hexadecimal digits. -/
def hexDigits? (cs : List Char) : Option Nat :=
  cs.foldlM (fun n c =>
    if c.isDigit then some (16 * n + (c.toNat - '0'.toNat))
    else if 'a' ≤ c.toLower && c.toLower ≤ 'f' then some (16 * n + (c.toLower.toNat - 'a'.toNat + 10))
    else none) 0

/-- The character with a number; a number that no character has, and zero, mean the replacement
character. -/
def numbered (n : Nat) : Char := if n = 0 || !Nat.isValidChar n then '\ufffd' else Char.ofNat n

/-- The character that a reference between ampersand and semicolon means. -/
def reference? (cs : List Char) : Option Char :=
  match cs with
  | '#' :: x :: ds =>
    if x = 'x' || x = 'X' then
      if ds.isEmpty then none else (hexDigits? ds).map numbered
    else if (x :: ds).all Char.isDigit then some (numbered (Number.digitsValue 0 (x :: ds)))
    else none
  | _ => named.lookup (String.ofList cs)

/-- Replaces character references; `skip` characters belong to the last one. -/
def decodeFrom : (skip : Nat) → List Char → List Char
  | _, [] => []
  | skip + 1, _ :: cs => decodeFrom skip cs
  | 0, c :: cs =>
    let body := cs.takeWhile (· != ';')
    if c = '&' && body.length < cs.length then
      match reference? body with
      | some d => d :: decodeFrom (body.length + 1) cs
      | none => c :: decodeFrom 0 cs
    else c :: decodeFrom 0 cs

/-- A text with character references replaced. -/
def decode (cs : List Char) : List Char := decodeFrom 0 cs

/-! ## Tags -/

/-- The value of an attribute after its equals sign, and what follows. -/
def attributeValue (cs : List Char) : List Char × List Char :=
  match cs.dropWhile isGap with
  | '"' :: rest => (rest.takeWhile (· != '"'), (rest.dropWhile (· != '"')).drop 1)
  | '\'' :: rest => (rest.takeWhile (· != '\''), (rest.dropWhile (· != '\'')).drop 1)
  | rest =>
    let isEnd (c : Char) : Bool := isGap c || c == '>'
    (rest.takeWhile fun c => !isEnd c, rest.dropWhile fun c => !isEnd c)

/-- The attributes up to the end of a tag, and what follows the tag. Of two attributes with one name
the first counts. Every attribute takes a character, so a count of them is enough `steps`. -/
def attributesFrom : (steps : Nat) → List (String × String) → List Char →
    List (String × String) × List Char
  | 0, found, cs => (found, cs)
  | steps + 1, found, cs =>
    match cs.dropWhile fun c => isGap c || c == '/' with
    | [] => (found, [])
    | '>' :: rest => (found, rest)
    | c :: cs =>
      let isEnd (c : Char) : Bool := isGap c || c == '/' || c == '>' || c == '='
      let name := lower (c :: cs.takeWhile fun c => !isEnd c)
      let rest := cs.dropWhile fun c => !isEnd c
      let (value, rest) := match rest.dropWhile isGap with
        | '=' :: rest => attributeValue rest
        | _ => ([], rest)
      let found :=
        if found.any fun a => a.1 == name then found
        else found ++ [(name, String.ofList (decode value))]
      attributesFrom steps found rest

/-- The name at the front of a tag, and what follows it. -/
def tagName (cs : List Char) : String × List Char :=
  let isEnd (c : Char) : Bool := isGap c || c == '/' || c == '>'
  (lower (cs.takeWhile fun c => !isEnd c), cs.dropWhile fun c => !isEnd c)

/-- Elements whose content is text up to their closing tag, without references. -/
def isRaw (tag : String) : Bool :=
  ["script", "style", "xmp", "iframe", "noembed", "noframes", "noscript"].contains tag

/-- Elements whose content is text up to their closing tag, with references. -/
def isPlain (tag : String) : Bool := ["title", "textarea"].contains tag

/-- What follows the opening tag of an element: a line feed right behind it does not count where
text is shown as it is written. -/
def afterOpening (tag : String) : List Char → List Char
  | '\n' :: cs => if ["pre", "listing", "textarea"].contains tag then cs else '\n' :: cs
  | cs => cs

/-- Text up to the closing tag of an element, and the text from that tag on. -/
def untilClosing (tag : String) : List Char → List Char × List Char
  | [] => ([], [])
  | c :: cs =>
    let after := cs.drop (tag.length + 1)
    let isTag := c == '<' && cs.head? == some '/' && lower ((cs.drop 1).take tag.length) == tag
      && (match after with
        | [] => true
        | e :: _ => isGap e || e == '/' || e == '>')
    if isTag then ([], c :: cs)
    else
      let (before, rest) := untilClosing tag cs
      (c :: before, rest)

/-- Splits at the first occurrence of `mark`, or takes everything. -/
def splitAt (mark : String) (cs : List Char) : List Char × List Char :=
  (Search.cut? mark.toList cs).getD (cs, [])

/-- What starts after a less-than sign, if it starts a tag or a comment: its pieces, and what
follows. -/
def markup? : List Char → Option (List HtmlToken × List Char)
  | '!' :: '-' :: '-' :: rest =>
    let (body, rest) := splitAt "-->" rest
    some ([comment body], rest)
  | '!' :: rest =>
    let (body, rest) := splitAt ">" rest
    if lower (body.take 7) == "doctype" then
      let name := (body.drop 7).dropWhile isGap
      some ([doctype (lower (name.takeWhile fun c => !isGap c))], rest)
    else some ([comment body], rest)
  | '?' :: rest =>
    let (body, rest) := splitAt ">" rest
    some ([comment ('?' :: body)], rest)
  | '/' :: c :: rest =>
    if c.isAlpha then
      let (tag, rest) := tagName (c :: rest)
      some ([closing tag], (attributesFrom rest.length [] rest).2)
    else if c = '>' then some ([], rest)
    else
      let (body, rest) := splitAt ">" (c :: rest)
      some ([comment body], rest)
  | c :: rest =>
    if c.isAlpha then
      let (tag, rest) := tagName (c :: rest)
      let (attributes, rest) := attributesFrom (rest.length + 1) [] rest
      let attributes := Keyed.ofList attributes
      let rest := afterOpening tag rest
      if isRaw tag || isPlain tag then
        let (body, rest) := untilClosing tag rest
        let body := if isPlain tag then decode body else body
        some ([opening tag attributes, text body], rest)
      else some ([opening tag attributes], rest)
    else none
  | [] => none

/-- The pieces of a text; `run` are the characters of text read so far, last first. Every piece takes
a character, so a count of them is enough `steps`. -/
def scanFrom : (steps : Nat) → (run : List Char) → List Char → List HtmlToken
  | _, run, [] => [text (decode run.reverse)]
  | 0, run, _ => [text (decode run.reverse)]
  | steps + 1, run, c :: cs =>
    match if c = '<' then markup? cs else none with
    | some (tokens, rest) => text (decode run.reverse) :: (tokens ++ scanFrom steps [] rest)
    | none => scanFrom steps (c :: run) cs

/-- Line ends as line feeds. -/
def normalize : List Char → List Char
  | '\r' :: '\n' :: cs => '\n' :: normalize cs
  | '\r' :: cs => '\n' :: normalize cs
  | c :: cs => c :: normalize cs
  | [] => []

/-- The pieces of an HTML text. -/
def scan (s : String) : List HtmlToken :=
  let cs := normalize s.toList
  scanFrom (cs.length + 1) [] cs

end HtmlToken

/-! ## Building the tree -/

/-- How far the reading of a page has come. -/
inductive PagePart where
  | start | html | head | afterHead | body | afterBody | afterHtml
  deriving DecidableEq, Repr, Inhabited

/-- A document being built: the open elements, innermost first, and the part of the page. -/
structure HtmlBuilder where
  doc : Document
  stack : List NodeId
  part : PagePart

namespace HtmlBuilder

/-- The node that new nodes are put under. -/
def current (b : HtmlBuilder) : NodeId := b.stack.head?.getD Document.root

/-- The tag of a node; the root has none. -/
def tagOf (b : HtmlBuilder) (id : NodeId) : String := (b.doc.tag? id).getD ""

/-- Whether an element of a tag is open. -/
def isOpen (b : HtmlBuilder) (tag : String) : Bool := b.stack.any fun id => b.tagOf id == tag

/-- Puts a node at the end under a parent. -/
def addUnder (b : HtmlBuilder) (parent : NodeId) (kind : NodeKind) : NodeId × HtmlBuilder :=
  let (id, d) := b.doc.create kind
  (id, { b with doc := d.link parent id (d.children parent).length })

/-- Puts text under the current node, joined to a text that ends there. -/
def addText (b : HtmlBuilder) (cs : List Char) : HtmlBuilder :=
  if cs.isEmpty then b
  else
    let s := String.ofList cs
    match (b.doc.children b.current).getLast? with
    | some last =>
      match b.doc.kind? last with
      | some (.text before) =>
        { b with doc := b.doc.modify last fun n => { n with kind := .text (before ++ s) } }
      | _ => (b.addUnder b.current (.text s)).2
    | none => (b.addUnder b.current (.text s)).2

/-- Puts a comment under a node. -/
def addComment (b : HtmlBuilder) (parent : NodeId) (cs : List Char) : HtmlBuilder :=
  (b.addUnder parent (.comment (String.ofList cs))).2

/-- Puts an element under the current node. -/
def addElement (b : HtmlBuilder) (tag : String) (attributes : List (String × String)) :
    NodeId × HtmlBuilder :=
  b.addUnder b.current (.element ⟨tag, attributes⟩)

/-- Puts an element under the current node and opens it. -/
def openElement (b : HtmlBuilder) (tag : String) (attributes : List (String × String)) :
    HtmlBuilder :=
  let (id, b) := b.addElement tag attributes
  { b with stack := id :: b.stack }

/-- Closes the innermost open element of a tag and everything in it. -/
def closeElement (b : HtmlBuilder) (tag : String) : HtmlBuilder :=
  if b.isOpen tag then
    { b with stack := (b.stack.dropWhile fun id => b.tagOf id != tag).drop 1 }
  else b

/-- Whether an element of one of the tags is open inside of every open `border`. -/
def isOpenWithin (b : HtmlBuilder) (tags borders : List String) : Bool :=
  (b.stack.takeWhile fun id => !borders.contains (b.tagOf id)).any fun id =>
    tags.contains (b.tagOf id)

/-- Closes the innermost open element of the tags if it is open inside of every border. -/
def closeWithin (b : HtmlBuilder) (tags borders : List String) : HtmlBuilder :=
  if b.isOpenWithin tags borders then
    { b with stack := (b.stack.dropWhile fun id => !tags.contains (b.tagOf id)).drop 1 }
  else b

/-- Elements that a paragraph does not reach out of. -/
def paragraphBorders : List String :=
  ["applet", "caption", "html", "table", "td", "th", "marquee", "object", "template", "button"]

/-- Elements that a list item does not reach out of. -/
def itemBorders : List String :=
  ["ol", "ul", "dl", "table", "td", "th", "section", "article", "body", "html", "template", "button",
   "blockquote", "form", "fieldset", "nav", "main", "aside", "header", "footer", "details"]

/-- Elements that end a paragraph. -/
def blockTags : List String :=
  ["address", "article", "aside", "blockquote", "center", "details", "dialog", "dir", "div", "dl",
   "fieldset", "figcaption", "figure", "footer", "header", "hgroup", "main", "menu", "nav", "ol",
   "p", "search", "section", "summary", "ul", "pre", "listing", "form", "table", "hr", "h1", "h2",
   "h3", "h4", "h5", "h6", "li", "dd", "dt"]

/-- Elements that stand only in tables. -/
def tableTags : List String :=
  ["caption", "col", "colgroup", "tbody", "td", "tfoot", "th", "thead", "tr"]

/-- The groups of rows in a table. -/
def rowGroupTags : List String := ["tbody", "thead", "tfoot"]

/-- Opens the parts of a table that an element in it implies. -/
def openTableParts (b : HtmlBuilder) (tag : String) : HtmlBuilder :=
  let b :=
    if tag == "td" || tag == "th" then b.closeWithin ["td", "th"] ["table"]
    else if tag == "tr" then b.closeWithin ["tr"] ["table"]
    else b.closeWithin (["caption", "colgroup"] ++ rowGroupTags) ["table"]
  let needsGroup := tag == "tr" || tag == "td" || tag == "th"
  let b := if needsGroup && b.tagOf b.current == "table" then b.openElement "tbody" [] else b
  if (tag == "td" || tag == "th") && rowGroupTags.contains (b.tagOf b.current) then
    b.openElement "tr" []
  else b

/-- An opening tag in the body. -/
def bodyOpening (b : HtmlBuilder) (tag : String) (attributes : List (String × String)) :
    HtmlBuilder :=
  if ["html", "head", "body", "frame", "frameset"].contains tag then b
  else if tableTags.contains tag && !b.isOpen "table" then b
  else
    let b := if tableTags.contains tag then b.openTableParts tag else b
    let b := if tag == "li" then b.closeWithin ["li"] itemBorders else b
    let b := if tag == "dd" || tag == "dt" then b.closeWithin ["dd", "dt"] itemBorders else b
    let b := if tag == "option" then b.closeWithin ["option"] ["select"] else b
    let b := if blockTags.contains tag then b.closeWithin ["p"] paragraphBorders else b
    if Element.isVoid tag then (b.addElement tag attributes).2 else b.openElement tag attributes

/-- A closing tag in the body. -/
def bodyClosing (b : HtmlBuilder) (tag : String) : HtmlBuilder :=
  if tag == "p" && !b.isOpenWithin ["p"] paragraphBorders then
    (b.addElement "p" []).2
  else if tag == "br" then (b.addElement "br" []).2
  else b.closeElement tag

/-- Elements that belong into the head of a page. -/
def headTags : List String :=
  ["base", "basefont", "bgsound", "link", "meta", "title", "noscript", "noframes", "style",
   "script", "template"]

/-- Goes on to the next part of a page without a tag for it. -/
def enterImplied (b : HtmlBuilder) : HtmlBuilder :=
  match b.part with
  | .start => { b.openElement "html" [] with part := .html }
  | .html => { b.openElement "head" [] with part := .head }
  | .head => { b with stack := b.stack.drop 1, part := .afterHead }
  | .afterHead => { b.openElement "body" [] with part := .body }
  | .body | .afterBody | .afterHtml => { b with part := .body }

/-- One piece of a page. A piece that does not belong into the present part implies the next one;
there are seven parts, so as many `steps` are enough. -/
def pageToken : (steps : Nat) → HtmlBuilder → HtmlToken → HtmlBuilder
  | 0, b, _ => b
  | steps + 1, b, token =>
    let next : HtmlBuilder := pageToken steps b.enterImplied token
    let skipGap (cs : List Char) (kept : HtmlBuilder) : HtmlBuilder :=
      match cs.dropWhile HtmlToken.isGap with
      | [] => kept
      | rest => pageToken steps kept.enterImplied (.text rest)
    match b.part, token with
    | .start, .doctype name => (b.addUnder Document.root (.doctype name)).2
    | _, .doctype _ => b
    | .start, .comment cs => b.addComment Document.root cs
    | .start, .text cs => skipGap cs b
    | .start, .opening tag attributes =>
      if tag == "html" then { b.openElement "html" attributes with part := .html } else next
    | .start, .closing tag =>
      if ["head", "body", "html", "br"].contains tag then next else b
    | .html, .comment cs => b.addComment b.current cs
    | .html, .text cs => skipGap cs b
    | .html, .opening tag attributes =>
      if tag == "head" then { b.openElement "head" attributes with part := .head } else next
    | .html, .closing tag =>
      if ["head", "body", "html", "br"].contains tag then next else b
    | .head, .comment cs => b.addComment b.current cs
    | .head, .text cs =>
      if (b.doc.tag? b.current).getD "" != "head" then b.addText cs
      else skipGap cs (b.addText (cs.takeWhile HtmlToken.isGap))
    | .head, .opening tag attributes =>
      if tag == "head" then b
      else if headTags.contains tag then
        if Element.isVoid tag then (b.addElement tag attributes).2 else b.openElement tag attributes
      else next
    | .head, .closing tag =>
      if tag == "head" then b.enterImplied
      else if headTags.contains tag then b.closeElement tag
      else if ["body", "html", "br"].contains tag then next
      else b
    | .afterHead, .comment cs => b.addComment b.current cs
    | .afterHead, .text cs => skipGap cs (b.addText (cs.takeWhile HtmlToken.isGap))
    | .afterHead, .opening tag attributes =>
      if tag == "body" then { b.openElement "body" attributes with part := .body }
      else if tag == "head" then b
      else next
    | .afterHead, .closing tag => if ["body", "html", "br"].contains tag then next else b
    | .body, .comment cs => b.addComment b.current cs
    | .body, .text cs => b.addText cs
    | .body, .opening tag attributes => b.bodyOpening tag attributes
    | .body, .closing tag =>
      if tag == "body" then { b with part := .afterBody }
      else if tag == "html" then { b with part := .afterHtml }
      else b.bodyClosing tag
    | .afterBody, .comment cs => b.addComment (b.stack.getLast?.getD Document.root) cs
    | .afterBody, .closing tag => if tag == "html" then { b with part := .afterHtml } else next
    | .afterHtml, .comment cs => b.addComment Document.root cs
    | part, .text cs =>
      if cs.all HtmlToken.isGap then { b.addText cs with part } else next
    | _, _ => next

/-- One piece of a fragment. -/
def fragmentToken (b : HtmlBuilder) : HtmlToken → HtmlBuilder
  | .doctype _ => b
  | .comment cs => b.addComment b.current cs
  | .text cs => b.addText cs
  | .opening tag attributes => b.bodyOpening tag attributes
  | .closing tag => b.bodyClosing tag

/-- Goes through the parts of a page that nothing has opened. -/
def finishPage : (steps : Nat) → HtmlBuilder → HtmlBuilder
  | 0, b => b
  | steps + 1, b =>
    match b.part with
    | .start | .html | .head | .afterHead => finishPage steps b.enterImplied
    | _ => b

end HtmlBuilder

namespace Document

/-- Frees what stands under `template` elements: a template is inert, and its content is a fragment
beside the document. -/
def dropTemplateContent (d : Document) : Document :=
  let templates := (d.descendants root).filter fun id => d.tag? id == some "template"
  templates.foldl (fun d id =>
    (d.free ((d.descendants id).drop 1)).modify id fun n => { n with children := [] }) d

/-- The document of a whole page. -/
def ofPage (s : String) : Document :=
  let b := (HtmlToken.scan s).foldl (HtmlBuilder.pageToken 8) ⟨empty, [], .start⟩
  (HtmlBuilder.finishPage 8 b).doc.dropTemplateContent

/-- The document whose root holds the nodes of a fragment. -/
def ofFragment (s : String) : Document :=
  ((HtmlToken.scan s).foldl HtmlBuilder.fragmentToken ⟨empty, [], .body⟩).doc.dropTemplateContent

end Document

end ReactiveMarkup
