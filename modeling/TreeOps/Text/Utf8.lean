/-!
# UTF-8

Names and paths are byte strings that need not be text. `decode` cuts a byte string into characters
and broken pieces, where a broken piece is as long as a truncated character can be: the longest run
of bytes that begins some character and is not continued. `lossy` shows each broken piece as U+FFFD,
and `text?` accepts a byte string without broken pieces only.
-/

namespace TreeOps

/-- A string of bytes: a name, a path, or the contents of a file. -/
abbrev Bytes := List UInt8

namespace Utf8

/-- What a byte string is made of. -/
inductive Piece where
  | char (c : Char)
  | broken (bytes : Bytes)
deriving DecidableEq, Repr

/-- A character of several bytes of which the first ones have been read. The next byte has to lie
between `low` and `high`, and `missing` bytes are still to come. -/
structure Pending where
  read : Bytes
  value : Nat
  missing : Nat
  low : UInt8
  high : UInt8
deriving DecidableEq, Repr

/-- The character that a byte above 127 begins, if it begins one. The bounds on the second byte
exclude overlong forms, surrogates and numbers above U+10FFFF. -/
def Pending.ofFirst? (b : UInt8) : Option Pending :=
  if b < 0xC2 then none
  else if b < 0xE0 then some ⟨[b], b.toNat - 0xC0, 1, 0x80, 0xBF⟩
  else if b = 0xE0 then some ⟨[b], 0, 2, 0xA0, 0xBF⟩
  else if b = 0xED then some ⟨[b], 13, 2, 0x80, 0x9F⟩
  else if b < 0xF0 then some ⟨[b], b.toNat - 0xE0, 2, 0x80, 0xBF⟩
  else if b = 0xF0 then some ⟨[b], 0, 3, 0x90, 0xBF⟩
  else if b < 0xF4 then some ⟨[b], b.toNat - 0xF0, 3, 0x80, 0xBF⟩
  else if b = 0xF4 then some ⟨[b], 4, 3, 0x80, 0x8F⟩
  else none

/-- Read a byte that does not continue a character. -/
def first (b : UInt8) : List Piece × Option Pending :=
  if b < 0x80 then ([.char (Char.ofNat b.toNat)], none)
  else
    match Pending.ofFirst? b with
    | some p => ([], some p)
    | none => ([.broken [b]], none)

/-- Read one byte after what is pending. A byte that does not continue the pending character ends it
as a broken piece and is read afresh. -/
def advance : Option Pending → UInt8 → List Piece × Option Pending
  | none, b => first b
  | some p, b =>
    if p.low ≤ b ∧ b ≤ p.high then
      let value := p.value * 64 + (b.toNat - 0x80)
      if p.missing ≤ 1 then ([.char (Char.ofNat value)], none)
      else ([], some ⟨p.read ++ [b], value, p.missing - 1, 0x80, 0xBF⟩)
    else
      let (pieces, pending) := first b
      (.broken p.read :: pieces, pending)

/-- The pieces of a byte string that follows what is pending. -/
def decodeAfter : Option Pending → Bytes → List Piece
  | none, [] => []
  | some p, [] => [.broken p.read]
  | pending, b :: rest =>
    let (pieces, next) := advance pending b
    pieces ++ decodeAfter next rest

/-- The pieces of a byte string, in order. -/
def decode (bytes : Bytes) : List Piece :=
  decodeAfter none bytes

/-- A broken piece is shown as U+FFFD. -/
def Piece.shown : Piece → Char
  | .char c => c
  | .broken _ => Char.ofNat 0xFFFD

/-- The character of a piece that is not broken. -/
def Piece.char? : Piece → Option Char
  | .char c => some c
  | .broken _ => none

/-- The text of a byte string, with U+FFFD for each broken piece. -/
def lossy (bytes : Bytes) : String :=
  String.ofList ((decode bytes).map Piece.shown)

/-- The text of a byte string that has no broken piece. -/
def text? (bytes : Bytes) : Option String :=
  ((decode bytes).mapM Piece.char?).map String.ofList

/-- The bytes of a text. -/
def encode (text : String) : Bytes :=
  text.toList.flatMap String.utf8EncodeChar

end Utf8

end TreeOps
