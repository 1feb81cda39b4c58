import TreeOps.Markup.Token

/-!
# Elements and data

The tokens of a document are read as a sequence of events: an element begins or ends, or there is
data. Data is everything between two tags, joined, with line ends made uniform and references
replaced.
-/

namespace TreeOps.Markup

/-- The value of a digit in some base. -/
def digitValue? (base : Nat) (c : Char) : Option Nat :=
  let value :=
    if c.isDigit then c.toNat - '0'.toNat
    else if 'a' ≤ c ∧ c ≤ 'z' then c.toNat - 'a'.toNat + 10
    else if 'A' ≤ c ∧ c ≤ 'Z' then c.toNat - 'A'.toNat + 10
    else base
  if value < base then some value else none

/-- The value of a sequence of digits. -/
def numberValue? (base : Nat) (digits : List Char) : Option Nat :=
  if digits.isEmpty then none
  else digits.foldlM (fun n c => (digitValue? base c).map fun d => n * base + d) 0

/-- The character with a number other than zero. -/
def numbered? (n : Nat) : Option Char :=
  if h : n.isValidChar then if n = 0 then none else some (Char.ofNatAux n h) else none

/-- The characters with names. -/
def namedCharacters : List (String × Char) :=
  [("lt", '<'), ("gt", '>'), ("amp", '&'), ("apos", '\''), ("quot", '"')]

/-- The character that a reference stands for. -/
def referenced? (name : List Char) : Option Char :=
  match name with
  | '#' :: 'x' :: digits => (numberValue? 16 digits).bind numbered?
  | '#' :: digits => (numberValue? 10 digits).bind numbered?
  | _ => namedCharacters.lookup (String.ofList name)

/-- The characters that end a line behind a carriage return, and on their own. -/
def isLineEnd (c : Char) : Bool := c.toNat = 0x85 || c.toNat = 0x2028

/-- Data with every line end written as a line feed. A carriage return takes a line feed or a
next-line character behind it along. -/
def uniformLines : List Char → List Char
  | [] => []
  | '\r' :: rest =>
    '\n' :: match rest with
      | [] => []
      | c :: more =>
        if c = '\n' ∨ c.toNat = 0x85 then uniformLines more else uniformLines (c :: more)
  | c :: rest => (if isLineEnd c then '\n' else c) :: uniformLines rest

/-- What is read of a document. -/
inductive Event where
  /-- An element begins; the tag is its name with its attributes. -/
  | start (tag : List Char)
  | finish
  | data (s : List Char)
  | malformed
deriving DecidableEq, Repr

/-- The name of a tag. -/
def tagName (tag : List Char) : List Char := tag.takeWhile fun c => !isBlank c

/-- The attributes of a tag as they are written. -/
def tagAttributes (tag : List Char) : List Char := tag.dropWhile fun c => !isBlank c

/-- Data that is complete, if there was any. -/
def flush : Option (List Char) → List Event
  | some s => [.data s]
  | none => []

/-- The events of a list of tokens. `names` are the open elements, innermost first, and `data` is
what was read since the last tag. -/
def eventsAfter : (names : List (List Char)) → (data : Option (List Char)) → List Token → List Event
  | _, data, [] => flush data
  | names, data, .text s :: rest => eventsAfter names (some (data.getD [] ++ uniformLines s)) rest
  | names, data, .marked s :: rest =>
    eventsAfter names (some (data.getD [] ++ uniformLines s)) rest
  | names, data, .reference name :: rest =>
    match referenced? name with
    | some c => eventsAfter names (some (data.getD [] ++ [c])) rest
    | none => [.malformed]
  | names, data, .comment :: rest => eventsAfter names data rest
  | names, data, .documentType :: rest => flush data ++ eventsAfter names none rest
  | names, data, .opening tag :: rest =>
    flush data ++ .start tag :: eventsAfter (tagName tag :: names) none rest
  | names, data, .empty tag :: rest =>
    flush data ++ .start tag :: .finish :: eventsAfter names none rest
  | name :: names, data, .closing closed :: rest =>
    flush data ++ if closed = name then .finish :: eventsAfter names none rest else [.malformed]
  | [], data, .closing _ :: _ => flush data ++ [.malformed]
  | _, data, .malformed :: _ => flush data ++ [.malformed]

/-- The events of a document. -/
def events (s : String) : List Event := eventsAfter [] none (tokens s)

/-- A name without its namespace. -/
def localName (name : List Char) : List Char :=
  match name.dropWhile (· != ':') with
  | _ :: rest => rest
  | [] => name

/-- Whether the names of a namespace are kept whole: those of namespaces themselves and of the
markup. -/
def isReservedName (name : List Char) : Bool :=
  "xmlns:".toList.isPrefixOf name || "xml:".toList.isPrefixOf name

/-- The quoted value of an attribute with its end. -/
def hasQuotedValue (s : List Char) : Bool :=
  match s.dropWhile isBlank with
  | '"' :: rest => rest.contains '"'
  | '\'' :: rest => rest.contains '\''
  | _ => false

/-- The first of the attributes of a tag. -/
inductive FirstAttribute where
  | absent
  | malformed
  | named (name : List Char)
deriving DecidableEq, Repr

/-- The first attribute in what a tag holds behind its name. -/
def firstAttribute (attributes : List Char) : FirstAttribute :=
  match attributes.dropWhile isBlank with
  | [] => .absent
  | c :: rest =>
    let isEnd (c : Char) : Bool := c = '=' || isBlank c
    let name := c :: rest.takeWhile fun c => !isEnd c
    match (rest.dropWhile fun c => !isEnd c).dropWhile isBlank with
    | '=' :: value =>
      if !hasQuotedValue value then .malformed
      else if isReservedName name then .named name
      else .named (localName name)
    | _ => .malformed

end TreeOps.Markup
