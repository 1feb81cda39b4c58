import TreeOps.Text.LowercaseTable
import TreeOps.Text.Cased

/-!
# Lower case

`lowercase` maps every character by its own rule, with two exceptions. U+0130 becomes two
characters, and a capital sigma at the end of a word becomes U+03C2: a cased character stands before
it and none after it, where ignorable characters are passed over.
-/

namespace TreeOps.Text

/-- The code point of the simple lower-case form. -/
def lowercasePoint (point : Nat) : Nat :=
  match lowercaseRuns.find? fun (first, last, step, _) =>
      first ≤ point && point ≤ last && (point - first) % step == 0 with
  | some (first, _, _, lower) => point - first + lower
  | none => point

/-- The lower-case form of one character outside of any context. -/
def lowercaseChar (c : Char) : List Char :=
  if c.toNat = 0x130 then ['i', Char.ofNat 0x307] else [Char.ofNat (lowercasePoint c.toNat)]

/-- Whether the first character that is not ignorable is cased. -/
def beginsCased (cs : List Char) : Bool :=
  match cs.dropWhile fun c => caseIgnorable.contains c.toNat with
  | [] => false
  | c :: _ => cased.contains c.toNat

/-- Lower-case form of characters, given those before them in reverse order. -/
def lowercaseAfter : List Char → List Char → List Char
  | _, [] => []
  | before, c :: rest =>
    let lower :=
      if c.toNat = 0x3a3 then
        if beginsCased before && !beginsCased rest then [Char.ofNat 0x3c2] else [Char.ofNat 0x3c3]
      else lowercaseChar c
    lower ++ lowercaseAfter (c :: before) rest

/-- The lower-case form of a text. -/
def lowercase (s : String) : String :=
  String.ofList (lowercaseAfter [] s.toList)

/-- The lower-case form of an ASCII letter; any other character is left alone. -/
def asciiLower (c : Char) : Char :=
  c.toLower

/-- A text with its ASCII letters in lower case. -/
def asciiLowercase (s : String) : String :=
  String.ofList (s.toList.map asciiLower)

end TreeOps.Text
