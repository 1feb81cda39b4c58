import TreeOps.Text.Printable
import TreeOps.Text.Utf8

/-!
# Quoted text

A quoted text stands between double quotes on one line. NUL, tab, line feed, carriage return,
backslash and the quotes have short escapes; a character without a visible form of its own is
written by number, `\u{...}`; a byte that is no part of a character is written `\xHH`. Names escape
the single quote too.
-/

namespace TreeOps.Text

/-- A number in lower-case hexadecimal. -/
def hex (n : Nat) : String :=
  String.ofList (Nat.toDigits 16 n)

/-- A number in hexadecimal, with zeros in front up to a width. -/
def hexPadded (width : Nat) (n : Nat) : String :=
  let digits := Nat.toDigits 16 n
  String.ofList (List.replicate (width - digits.length) '0' ++ digits)

/-- One character of a quoted text, where `quotes` are the quotes to escape. -/
def quotedChar (quotes : List Char) (c : Char) : String :=
  if c = '\x00' then "\\0"
  else if c = '\t' then "\\t"
  else if c = '\r' then "\\r"
  else if c = '\n' then "\\n"
  else if c = '\\' ∨ c ∈ quotes then String.ofList ['\\', c]
  else if extending.contains c.toNat || unprintable.contains c.toNat then
    "\\u\x7b" ++ hex c.toNat ++ "\x7d"
  else String.ofList [c]

/-- A text between double quotes. -/
def quoted (s : String) : String :=
  "\"" ++ String.join (s.toList.map (quotedChar ['"'])) ++ "\""

/-- A byte that is no part of a character. -/
def quotedByte (b : UInt8) : String :=
  "\\x" ++ String.ofList ((hexPadded 2 b.toNat).toList.map Char.toUpper)

/-- A piece of a quoted name. -/
def quotedPiece : Utf8.Piece → String
  | .char c => quotedChar ['"', '\''] c
  | .broken bytes => String.join (bytes.map quotedByte)

/-- A name or path between double quotes. -/
def quotedBytes (bytes : Bytes) : String :=
  "\"" ++ String.join ((Utf8.decode bytes).map quotedPiece) ++ "\""

end TreeOps.Text
