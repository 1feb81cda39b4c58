import TreeOps.Entry
import TreeOps.Native.Code

/-!
# Primitive calls

Every operation on trees is made of primitive calls on single entries. None of them recurses, and
each either succeeds with a result of its own type or fails with a native error.

Specification: §6, `FileSystem`.
-/

namespace TreeOps

/-- How one file is copied. -/
structure CopyFlags where
  /-- Replace what is at the destination. -/
  overwrite : Bool := false
  /-- Make a link at the destination instead of copying what the link points to. -/
  copySymlink : Bool := false
  /-- Keep the times of the source. -/
  preserveTimestamps : Bool := false
deriving DecidableEq, Repr

/-- A primitive call. -/
inductive Call where
  /-- The children of a directory. -/
  | list (dir : Path)
  /-- The entry at a path; a link is described itself. -/
  | query (path : Path)
  /-- Make one directory in an existing one. -/
  | createDirectory (path : Path)
  /-- Remove one empty directory, or a link to a directory. -/
  | removeDirectory (path : Path)
  | deleteFile (path : Path)
  /-- Rename an entry with everything below it. -/
  | move (source destination : Path) (replace : Bool)
  /-- Copy one file or link; the result is the number of bytes. -/
  | copy (source destination : Path) (flags : CopyFlags)
  | setAttributes (path : Path) (attributes : Attributes)
  /-- Detach the volume that is mounted at a path. -/
  | unmount (path : Path)
  /-- Whether two existing paths are on one volume. -/
  | sameVolume (a b : Path)
deriving DecidableEq, Repr

/-- The kinds of primitive calls. -/
inductive Primitive where
  | list
  | query
  | createDirectory
  | removeDirectory
  | deleteFile
  | move
  | copy
  | setAttributes
  | unmount
  | sameVolume
deriving DecidableEq, Repr

namespace Call

/-- What a call gives when it succeeds. -/
@[reducible] def Result : Call → Type
  | list _ => List Child
  | query _ => Entry
  | copy .. => UInt64
  | sameVolume .. => Bool
  | _ => Unit

/-- The kind of a call. -/
def primitive : Call → Primitive
  | list _ => .list
  | query _ => .query
  | createDirectory _ => .createDirectory
  | removeDirectory _ => .removeDirectory
  | deleteFile _ => .deleteFile
  | move .. => .move
  | copy .. => .copy
  | setAttributes .. => .setAttributes
  | unmount _ => .unmount
  | sameVolume .. => .sameVolume

/-- The path that a call is about; the source where there are two. -/
def path : Call → Path
  | list p | query p | createDirectory p | removeDirectory p | deleteFile p => p
  | move p _ _ | copy p _ _ | setAttributes p _ | unmount p | sameVolume p _ => p

end Call

end TreeOps
