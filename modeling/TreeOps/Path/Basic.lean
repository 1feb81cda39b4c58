import TreeOps.Text.Utf8

/-!
# Paths

A path is a byte string. What it denotes is its list of components: a repeated or trailing separator
and a `.` that does not lead a relative path are no components, `..` is one. Paths with the same
components are the same path, and paths are ordered by their components; the bytes are kept as they
were given and are what messages show.
-/

namespace TreeOps

/-- The separator of names in a path. -/
def separator : UInt8 := 0x2f

/-- The name of the directory itself. -/
def dot : Bytes := [0x2e]

/-- The name of the directory above. -/
def dotDot : Bytes := [0x2e, 0x2e]

/-- One step of a path. The order of the constructors is the order of the components. -/
inductive Component where
  | root
  | here
  | above
  | name (bytes : Bytes)
deriving DecidableEq, Repr

namespace Component

/-- The bytes of a component. -/
def bytes : Component → Bytes
  | root => [separator]
  | here => dot
  | above => dotDot
  | name bytes => bytes

/-- A byte string by which components are ordered: the kind first, then the name. -/
def orderKey : Component → Bytes
  | root => [0]
  | here => [1]
  | above => [2]
  | name bytes => 3 :: bytes

instance : Ord Component := ⟨compareOn orderKey⟩

end Component

/-- A path as it was written. -/
structure Path where
  bytes : Bytes
deriving DecidableEq, Repr, Inhabited

namespace Path

/-- The path that a text spells. -/
def ofString (s : String) : Path := ⟨Utf8.encode s⟩

instance : Coe String Path := ⟨ofString⟩

/-- The path as messages show it. -/
def text (p : Path) : String := Utf8.lossy p.bytes

/-- The empty path, which has no component. -/
def empty : Path := ⟨[]⟩

/-- The root directory. -/
def root : Path := ⟨[separator]⟩

/-- A path that begins with a separator is absolute. -/
def isAbsolute (p : Path) : Bool := p.bytes.head? == some separator

/-- The part in front of the body that is a component of its own: the root, or a leading `.`. -/
def lead (p : Path) : Option Component :=
  if p.isAbsolute then some .root
  else if (p.bytes.splitOn separator).head? == some dot then some .here
  else none

/-- The bytes of the leading component. -/
def leadBytes (p : Path) : Bytes :=
  if p.lead.isSome then p.bytes.take 1 else []

/-- The pieces between separators behind the leading component. -/
def segments (p : Path) : List Bytes :=
  (p.bytes.drop p.leadBytes.length).splitOn separator

/-- A segment that counts: neither empty nor a dot. -/
def isSignificant (segment : Bytes) : Bool :=
  segment != [] && segment != dot

/-- The component of a segment that counts. -/
def componentOf (segment : Bytes) : Component :=
  if segment = dotDot then .above else .name segment

/-- The components of a path. -/
def components (p : Path) : List Component :=
  p.lead.toList ++ (p.segments.filter isSignificant).map componentOf

/-- Whether two paths have the same components. -/
def same (p q : Path) : Bool := p.components == q.components

instance : Ord Path := ⟨compareOn components⟩

/-- Segments with a separator between each two. -/
def joinSegments (segments : List Bytes) : Bytes :=
  segments.intersperse [separator] |>.flatten

/-- The segments up to the last one that counts. -/
def trimRight (segments : List Bytes) : List Bytes :=
  (segments.reverse.dropWhile fun s => !isSignificant s).reverse

/-- The path without its last component; none when there is no component or only the root. -/
def parent (p : Path) : Option Path :=
  match trimRight p.segments with
  | [] => if p.lead = some .here then some empty else none
  | segments => some ⟨p.leadBytes ++ joinSegments (trimRight segments.dropLast)⟩

/-- The name of the last component, if that is a name. -/
def fileName (p : Path) : Option Bytes :=
  match p.components.getLast? with
  | some (.name bytes) => some bytes
  | _ => none

/-- A path taken from the directory `p`: an absolute one stands for itself. -/
def join (p q : Path) : Path :=
  if q.isAbsolute then q
  else if p.bytes.isEmpty || p.bytes.getLast? == some separator then ⟨p.bytes ++ q.bytes⟩
  else ⟨p.bytes ++ separator :: q.bytes⟩

/-- The entry of the directory `p` with a given name. -/
def child (p : Path) (name : Bytes) : Path := p.join ⟨name⟩

/-- The first paths of the sequence `p`, parent of `p`, parent of that, and so on. -/
def firstAncestors : Nat → Path → List Path
  | 0, _ => []
  | count + 1, p =>
    p :: match p.parent with
      | some q => firstAncestors count q
      | none => []

/-- The path itself and every path above it, nearest first. -/
def ancestors (p : Path) : List Path :=
  firstAncestors (p.bytes.length + 1) p

/-- The ancestors that are not the empty path. -/
def namedAncestors (p : Path) : List Path :=
  p.ancestors.filter fun q => !q.bytes.isEmpty

/-- Whether `p` is `above` or lies below it. -/
def startsWith (p above : Path) : Bool :=
  above.components.isPrefixOf p.components

/-- The segments behind the first `count` ones that count. -/
def dropSignificant : Nat → List Bytes → List Bytes
  | 0, segments => segments
  | _ + 1, [] => []
  | count + 1, s :: rest => dropSignificant (if isSignificant s then count else count + 1) rest

/-- The rest of a path below its ancestor `above`. -/
def relativeTo (p above : Path) : Path :=
  let count := above.components.length
  if count = 0 then ⟨p.leadBytes ++ joinSegments (trimRight p.segments)⟩
  else
    let rest := dropSignificant (count - p.lead.toList.length) p.segments
    ⟨joinSegments (trimRight (rest.dropWhile fun s => !isSignificant s))⟩

end Path

end TreeOps
