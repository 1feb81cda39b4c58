import TreeOps.Text.Utf8

/-!
# Tokens of markup

Markup is read from left to right into tags, character data, references, and parts that carry no
data: comments, instructions and a document type. The first place that fits none of these yields
`malformed` and ends the list, so what stands before it can still be read.
-/

namespace TreeOps.Markup

/-- The blanks of markup: space, tab, carriage return and line feed. -/
def isBlank (c : Char) : Bool := c = ' ' || c = '\t' || c = '\r' || c = '\n'

/-- A part of a document. -/
inductive Token where
  /-- Character data without references. -/
  | text (s : List Char)
  /-- The data of a marked section. -/
  | marked (s : List Char)
  /-- What stands between an ampersand and a semicolon. -/
  | reference (name : List Char)
  /-- What stands between the angle brackets of an opening tag. -/
  | opening (tag : List Char)
  /-- A tag that opens and closes an element at once. -/
  | empty (tag : List Char)
  | closing (name : List Char)
  | comment
  | documentType
  | malformed
deriving DecidableEq, Repr

/-- The parts before and behind the first occurrence of a non-empty mark. -/
def splitAt? (mark : List Char) : List Char → Option (List Char × List Char)
  | [] => none
  | c :: rest =>
    if mark.isPrefixOf (c :: rest) then some ([], (c :: rest).drop mark.length)
    else (splitAt? mark rest).map fun (before, after) => (c :: before, after)

/-- The parts before and behind the bracket that closes an opening tag. A bracket inside quotes does
not; `quote` is the quote that is open. -/
def splitTag? : (quote : Option Char) → List Char → Option (List Char × List Char)
  | _, [] => none
  | quote, c :: rest =>
    if quote = none ∧ c = '>' then some ([], rest)
    else
      let next :=
        if quote = some c then none
        else if quote = none ∧ (c = '"' ∨ c = '\'') then some c
        else quote
      (splitTag? next rest).map fun (before, after) => (c :: before, after)

/-- The parts before and behind the bracket that closes a document type; `depth` brackets are open
inside it. -/
def splitBalanced? : (depth : Nat) → List Char → Option (List Char × List Char)
  | _, [] => none
  | depth, c :: rest =>
    let below (depth : Nat) :=
      (splitBalanced? depth rest).map fun (before, after) => (c :: before, after)
    if c = '>' then
      match depth with
      | 0 => some ([], rest)
      | depth + 1 => below depth
    else below (if c = '<' then depth + 1 else depth)

/-- The rest of a text behind a beginning that is compared without regard to the case of letters. -/
def dropKeyword? (keyword : String) (s : List Char) : Option (List Char) :=
  let n := keyword.length
  if (s.take n).map Char.toUpper = keyword.toList then some (s.drop n) else none

/-- A comment; `s` stands behind the exclamation mark. -/
def comment? (s : List Char) : Option (Token × List Char) := do
  let body ← dropKeyword? "--" s
  let (_, rest) ← splitAt? ['-', '-', '>'] body
  return (.comment, rest)

/-- A marked section of character data; `s` stands behind the exclamation mark. -/
def markedSection? (s : List Char) : Option (Token × List Char) := do
  let body ← dropKeyword? "[CDATA[" s
  let (data, rest) ← splitAt? [']', ']', '>'] body
  return (.marked data, rest)

/-- A document type; `s` stands behind the exclamation mark. It has to name something. -/
def documentType? (s : List Char) : Option (Token × List Char) := do
  let (declaration, rest) ← splitBalanced? 0 s
  let name ← dropKeyword? "DOCTYPE" declaration
  if name.all isBlank then none else return (.documentType, rest)

/-- An instruction; `s` stands behind the question mark. -/
def instruction? (s : List Char) : Option (Token × List Char) :=
  if s.head? = some '>' then none
  else (splitAt? ['?', '>'] s).map fun (_, rest) => (.comment, rest)

/-- A closing tag; `s` stands behind the slash. Blanks behind the name do not belong to it. -/
def closing? (s : List Char) : Option (Token × List Char) :=
  (splitAt? ['>'] s).map fun (name, rest) =>
    (.closing (name.reverse.dropWhile isBlank).reverse, rest)

/-- An opening tag, perhaps of an empty element. -/
def opening? (s : List Char) : Option (Token × List Char) :=
  (splitTag? none s).map fun (tag, rest) =>
    (if tag.getLast? = some '/' then .empty tag.dropLast else .opening tag, rest)

/-- The markup that begins behind an opening bracket. -/
def markup? (s : List Char) : Option (Token × List Char) :=
  match s with
  | '!' :: '-' :: rest => comment? ('-' :: rest)
  | '!' :: '[' :: rest => markedSection? ('[' :: rest)
  | '!' :: rest => documentType? rest
  | '?' :: rest => instruction? rest
  | '/' :: rest => closing? rest
  | _ => opening? s

/-- A reference; `s` stands behind the ampersand. -/
def reference? (s : List Char) : Option (Token × List Char) :=
  let isEnd (c : Char) : Bool := c = ';' || c = '&' || c = '<'
  match s.dropWhile fun c => !isEnd c with
  | ';' :: rest => some (.reference (s.takeWhile fun c => !isEnd c), rest)
  | _ => none

/-- The first token of a text that is not empty. -/
def first? (s : List Char) : Option (Token × List Char) :=
  match s with
  | '<' :: rest => markup? rest
  | '&' :: rest => reference? rest
  | _ =>
    let isText (c : Char) : Bool := c != '<' && c != '&'
    some (.text (s.takeWhile isText), s.dropWhile isText)

/-- The tokens of a text, `count` of them at most. -/
def firstTokens : (count : Nat) → List Char → List Token
  | 0, _ => []
  | _, [] => []
  | count + 1, s =>
    match first? s with
    | some (token, rest) => token :: firstTokens count rest
    | none => [.malformed]

/-- The tokens of a text. A byte order mark in front of it is left out. -/
def tokens (s : String) : List Token :=
  let chars := match s.toList with
    | c :: rest => if c.toNat = 0xFEFF then rest else c :: rest
    | [] => []
  firstTokens chars.length chars

end TreeOps.Markup
