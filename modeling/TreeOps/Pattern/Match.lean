import TreeOps.Pattern.Token

/-!
# Matching names

For each end piece of a name, a row says whether the tokens match it: the first element speaks of
the whole name, the last one of the empty piece. The row of `t :: ts` is computed from the row of
`ts`, so matching takes one pass over the name per token.
-/

namespace TreeOps.Pattern

/-- A byte with ASCII letters in lower case. -/
def foldByte (b : UInt8) : UInt8 :=
  if 0x41 ≤ b ∧ b ≤ 0x5A then b + 0x20 else b

/-- The row of the empty list of tokens: only the empty piece matches. -/
def emptyRow : Bytes → List Bool
  | [] => [true]
  | _ :: rest => false :: emptyRow rest

/-- Whether the whole piece of a row matches. -/
def atStart (row : List Bool) : Bool := row.headD false

/-- For each piece, whether the row holds of it or of a piece behind it. -/
def somewhere : List Bool → List Bool
  | [] => []
  | b :: rest => (b || atStart (somewhere rest)) :: somewhere rest

/-- For each piece, whether the row holds directly behind one of its separators. -/
def behindSeparator : Bytes → List Bool → List Bool
  | c :: cs, _ :: row =>
    let below := behindSeparator cs row
    (c == separator && atStart row || atStart below) :: below
  | _, _ => [false]

/-- For each piece, whether the row holds behind a leading run without separators. -/
def behindRun : Bytes → List Bool → List Bool
  | c :: cs, b :: row =>
    let below := behindRun cs row
    (b || c != separator && atStart below) :: below
  | _, row => row

/-- For each piece, whether it begins with a byte that satisfies `accepts` and a row holds behind
it. -/
def behindByte (accepts : UInt8 → Bool) : Bytes → List Bool → List Bool
  | c :: cs, _ :: row => (accepts c && atStart row) :: behindByte accepts cs row
  | _, _ => [false]

/-- For each piece, whether one of two rows holds. -/
def either (a b : List Bool) : List Bool := a.zipWith (· || ·) b

/-- The row with one more token in front. -/
def Token.row (t : Token) (name : Bytes) (row : List Bool) : List Bool :=
  match t with
  | .byte b => behindByte (fun c => foldByte c == foldByte b) name row
  | .any => behindByte (· != separator) name row
  | .run => behindRun name row
  | .treeAbove => either row (behindSeparator name row)
  | .treeBelow => behindByte (· == separator) name (somewhere row)
  | .treeBetween =>
    behindByte (· == separator) name (either row (behindSeparator name row))

/-- Whether tokens match a whole name. Two stars on their own match every name. -/
def matchTokens (tokens : List Token) (name : Bytes) : Bool :=
  tokens == [.treeAbove] || atStart (tokens.foldr (fun t row => t.row name row) (emptyRow name))

/-- Whether a pattern lets a name through. -/
def accepts (pattern name : String) : Bool :=
  matchTokens (tokens pattern) (Utf8.encode name)

end TreeOps.Pattern
