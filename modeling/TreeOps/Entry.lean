import TreeOps.Attributes
import TreeOps.Path.Basic

/-!
# Directory entries

A listing reports children by name; an entry is a child seen from its parent, with its full path.
The name of an entry is text, while its path keeps the bytes that the listing reported.

Specification: §3, `DirectoryEntryInfo` and `TransactionContext`.
-/

namespace TreeOps

/-- A handle that the caller of an operation passes through to every primitive call. -/
structure Transaction where
  raw : UInt64
deriving DecidableEq, Repr

/-- One child as a listing reports it. -/
structure Child where
  name : Bytes
  attributes : Attributes
  size : UInt64
  isReparsePoint : Bool
  isMountPoint : Bool
deriving DecidableEq, Repr

/-- One entry of a tree. -/
structure Entry where
  path : Path
  name : String
  isDirectory : Bool
  isReparsePoint : Bool
  isMountPoint : Bool
  attributes : Attributes
  size : UInt64
deriving DecidableEq, Repr

namespace Child

/-- A child is a directory when its attributes say so. -/
def isDirectory (c : Child) : Bool := c.attributes.contains .directory

/-- Whether the name stands for the listed directory itself or the one above it. -/
def isDots (c : Child) : Bool := c.name == dot || c.name == dotDot

/-- The entry for a child of `dir`. Directories have no size of their own. -/
def entryIn (c : Child) (dir : Path) : Entry where
  path := dir.child c.name
  name := Utf8.lossy c.name
  isDirectory := c.isDirectory
  isReparsePoint := c.isReparsePoint
  isMountPoint := c.isMountPoint
  attributes := c.attributes
  size := if c.isDirectory then 0 else c.size

/-- The entry for a child that was asked for by its own path. -/
def entryAt (c : Child) (path : Path) : Entry :=
  { c.entryIn (path.parent.getD path) with path := path }

end Child

/-- Whether the read-only attribute is set. -/
def Entry.isReadOnly (e : Entry) : Bool := e.attributes.isReadOnly

end TreeOps
