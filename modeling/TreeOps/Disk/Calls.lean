import TreeOps.Disk.Resolve
import TreeOps.Disk.Work
import TreeOps.Program.Handler

/-!
# Primitive calls on a disk

The primitive calls are made of calls of the host, whose errors become native errors. A file is
copied to a place beside its destination first and then renamed, so a copy that fails leaves nothing
behind. Nothing is mounted and everything is on one volume.

Specification: §6, `OsFileSystem`.
-/

namespace TreeOps.Disk

open DiskWork

/-- The attributes of an entry. Read-only means that no one may write; hidden that the name begins
with a dot. -/
def attributesOf (name : Bytes) (i : Inode) (isDirectory : Bool) : Attributes :=
  let kind : Attributes := if isDirectory then .directory else .empty
  let kind :=
    if i.isLink then kind.union .reparsePoint
    else if i.mode &&& 0o222 = 0 then kind.union .readOnly
    else kind
  let kind := if name.head? = some 0x2e then kind.union .hidden else kind
  if kind.isEmpty then .normal else kind

/-- A child as a listing reports it; a link is a directory when it leads to one. -/
def describe (d : Disk) (path : Path) (name : Bytes) (i : Inode) : Child :=
  let isDirectory := if i.isLink then d.isDirectory path else i.isDirectory
  { name
    attributes := attributesOf name i isDirectory
    size := if isDirectory then 0 else i.size
    isReparsePoint := i.isLink
    isMountPoint := false }

/-- The children of a directory. -/
def listing (d : Disk) (dir : Path) : Except HostError (List Child) := do
  let names ← d.readDirectory dir
  let children ← names.mapM fun name => do
    let path := dir.child name
    match d.lstat path with
    | .ok i => return some (d.describe path name i)
    | .error e => if e.isNotFound then return none else throw e
  return children.filterMap id

/-- The name of the entry at a path; that of the root is empty. -/
def entryName (path : Path) : Bytes :=
  path.fileName.getD (if path.same .root then [] else path.bytes)

/-- The entry at a path. -/
def entry (d : Disk) (path : Path) : Except HostError Entry := do
  let i ← d.lstat path
  return (d.describe path (entryName path) i).entryAt path

/-- Remove what is at a path, be it a directory or not. -/
def removeAny (d : Disk) (path : Path) (i : Inode) : Except HostError Disk :=
  if i.isDirectory then d.removeDirectory path else d.removeFile path

/-- Make a link at the destination that points where the link at the source does, in the place of
what is there. -/
def copyLink (source destination : Path) (existing : Option Inode) : DiskWork HostError Unit := do
  let target ← ask fun d => d.readLink source
  if let some old := existing then perform fun d => d.removeAny destination old
  perform fun d => d.makeLink target destination

/-- The place beside a destination where a copy is made first. -/
def besideDestination (destination : Path) : Path :=
  (destination.parent.getD ⟨dot⟩).join ".dirtree.copy.tmp"

/-- A disk with a copy of a file at a place beside the destination, and then at the destination. -/
def withCopy (d : Disk) (source destination : Path) (preserveTimestamps : Bool) :
    Except HostError Disk := do
  let data ← d.contents source
  let info ← d.stat source
  let beside := besideDestination destination
  let d ← d.createFile beside 0o666 data
  let d ← d.setMode beside info.mode
  let d ← d.setModified beside (if preserveTimestamps then info.modified else {})
  d.rename beside destination

/-- Copy one file or link. The result is the number of bytes. -/
def copy (source destination : Path) (flags : CopyFlags) : DiskWork NativeError UInt64 := do
  let i ← native (ask fun d => d.lstat source)
  let existing ← look fun d => (d.lstat destination).toOption
  if existing.isSome && !flags.overwrite then throw (NativeCode.fileExists : NativeError)
  if flags.copySymlink && i.isLink then
    native (copyLink source destination existing)
    return 0
  let i ← native (ask fun d => d.stat source)
  if i.isDirectory then throw (NativeCode.accessDenied : NativeError)
  native (perform fun d => d.withCopy source destination flags.preserveTimestamps)
  return i.size

/-- Remove an empty directory, or a link. -/
def removeDirectoryOrLink (path : Path) : DiskWork NativeError Unit := do
  let i ← native (ask fun d => d.lstat path)
  if i.isLink then native (perform fun d => d.removeFile path)
  else if !i.isDirectory then throw (NativeCode.notADirectory : NativeError)
  else
    (native (perform fun d => d.removeDirectory path)).mapError fun (e : NativeError) =>
      if e.code = .alreadyExists then { e with code := .directoryNotEmpty } else e

/-- Rename an entry. -/
def move (source destination : Path) (replace : Bool) : DiskWork NativeError Unit := do
  if !replace && (← look fun d => (d.lstat destination).isOk) then
    throw (NativeCode.alreadyExists : NativeError)
  native (perform fun d => d.rename source destination)

/-- Set or clear the read-only attribute of what a path leads to. -/
def setReadOnly (d : Disk) (path : Path) (readOnly : Bool) : Except HostError Disk := do
  let i ← d.stat path
  d.setMode path (if readOnly then i.mode &&& 0o7555 else i.mode ||| 0o200)

/-- The error of detaching what is mounted at a path, which is nothing. -/
def unmountError (d : Disk) (path : Path) : NativeError :=
  if path.bytes.contains 0 then
    (HostError.message .invalidInput "path contains null byte").native
  else
    match d.stat path with
    | .ok _ => ⟨.mountPointNotFound, HostError.invalidArgument.osCode⟩
    | .error e => e.native

/-- Whether two paths lead to the one volume. -/
def sameVolume (d : Disk) (a b : Path) : Except HostError Bool := do
  let _ ← d.stat a
  let _ ← d.stat b
  return true

/-- Carry out a primitive call. -/
def call : (c : Call) → DiskWork NativeError c.Result
  | .list dir => native (ask fun d => d.listing dir)
  | .query path => native (ask fun d => d.entry path)
  | .createDirectory path => native (perform fun d => d.makeDirectory path)
  | .removeDirectory path => removeDirectoryOrLink path
  | .deleteFile path => native (perform fun d => d.removeFile path)
  | .move source destination replace => move source destination replace
  | .copy source destination flags => copy source destination flags
  | .setAttributes path attributes =>
    native (perform fun d => d.setReadOnly path attributes.isReadOnly)
  | .unmount path => do throw (← look fun d => d.unmountError path)
  | .sameVolume a b => native (ask fun d => d.sameVolume a b)

/-- The file system of a disk. It pays no heed to transactions. -/
def fileSystem : FileSystem Disk where
  call _ c d := (call c).run.run d
  resolve p d := d.resolve p

end TreeOps.Disk
