import TreeOps.Path.Basic

/-!
# Search patterns

A search pattern is read as a list of tokens over bytes. `?` stands for one byte and `*` for any run
of bytes, neither of them a separator; every other byte stands for itself up to the case of ASCII
letters. Two stars next to a separator or an end of the pattern form a token of their own that
crosses separators, and take that separator along; elsewhere they are two stars. An empty pattern is
read as `*`.

A pattern is read in two steps. In `escape` the brackets and braces of the pattern are put into
classes of their own, so that they lose the meaning they have in a glob, and `readGlob` reads the
glob that results.

Specification: §3 and §4.1, `search_pattern`.
-/

namespace TreeOps.Pattern

/-- The byte `*`. -/
def star : UInt8 := 0x2a

/-- The byte `?`. -/
def questionMark : UInt8 := 0x3f

/-- A part of a pattern. -/
inductive Token where
  /-- One byte, up to the case of ASCII letters. -/
  | byte (b : UInt8)
  /-- One byte that is no separator. -/
  | any
  /-- Any run of bytes without a separator. -/
  | run
  /-- Nothing, a separator, or anything that ends in a separator. -/
  | treeAbove
  /-- A separator with anything behind it. -/
  | treeBelow
  /-- A separator, or anything that begins and ends in a separator of its own. -/
  | treeBetween
deriving DecidableEq, Repr

/-- The token for two stars behind a separator. A token for two stars at an end stays as it is, any
other token is the separator itself and is replaced. -/
def Token.widen (last replacement : Token) : Token :=
  match last with
  | .treeAbove => .treeAbove
  | .treeBelow => .treeBelow
  | _ => replacement

/-- The token of a byte other than a star. -/
def Token.ofByte (b : UInt8) : Token :=
  if b = questionMark then .any else .byte b

/-! ### Brackets and braces -/

/-- A character as it is written in a glob. A bracket or a brace would open or close a group there,
so it becomes a class that has this one character. -/
def escapeChar (c : Char) : List Char :=
  if c = '[' ∨ c = ']' ∨ c = '\x7b' ∨ c = '\x7d' then ['[', c, ']'] else [c]

/-- The glob of a pattern. -/
def escape (pattern : String) : String :=
  String.ofList (pattern.toList.flatMap escapeChar)

/-! ### Reading -/

/-- Read the rest of a glob, given the tokens before it in reverse order and the byte before it. The
only groups in the glob of a pattern are classes of one byte. -/
def readGlob : List Token → Option UInt8 → Bytes → List Token
  | done, _, [] => done.reverse
  | done, _, [b] => ((if b = star then .run else .ofByte b) :: done).reverse
  | done, _, 0x5b :: c :: 0x5d :: rest => readGlob (.byte c :: done) (some 0x5d) rest
  | done, previous, b :: c :: rest =>
    if b ≠ star then readGlob (.ofByte b :: done) (some b) (c :: rest)
    else if c ≠ star then readGlob (.run :: done) (some b) (c :: rest)
    else
      match done, rest with
      | [], [] => [.treeAbove]
      | [], d :: rest =>
        if d = separator then readGlob [.treeAbove] (some d) rest
        else readGlob [.run, .run] (some c) (d :: rest)
      | last :: done, [] =>
        if previous = some separator then (last.widen .treeBelow :: done).reverse
        else (.run :: .run :: last :: done).reverse
      | last :: done, d :: rest =>
        if previous = some separator ∧ d = separator then
          readGlob (last.widen .treeBetween :: done) (some d) rest
        else readGlob (.run :: .run :: last :: done) (some c) (d :: rest)

/-- The tokens of a pattern. -/
def tokens (pattern : String) : List Token :=
  readGlob [] none (Utf8.encode (escape (if pattern = "" then "*" else pattern)))

end TreeOps.Pattern
