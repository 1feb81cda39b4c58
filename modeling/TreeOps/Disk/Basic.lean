import TreeOps.Native.HostError
import TreeOps.Path.Map

/-!
# A file tree of the host

A disk holds directories, files and symbolic links under absolute paths without `.` and `..`. The
root is the working directory, and the user owns everything. `lookup` follows a path as the host
does: links on the way are followed, forty at most, and whether a link at the end is followed is up
to the call.
-/

namespace TreeOps

/-- A time: seconds since the epoch, and nanoseconds. -/
structure Time where
  seconds : Int := 0
  nanoseconds : Nat := 0
deriving DecidableEq, Repr

/-- What is at a place of the disk. -/
inductive Inode where
  | directory (mode : Nat) (modified : Time)
  | file (mode : Nat) (data : Bytes) (modified : Time)
  | link (target : Bytes)
deriving DecidableEq, Repr

namespace Inode

/-- Whether this is a directory. -/
def isDirectory : Inode → Bool
  | directory .. => true
  | _ => false

/-- Whether this is a file. -/
def isFile : Inode → Bool
  | file .. => true
  | _ => false

/-- Whether this is a symbolic link. -/
def isLink : Inode → Bool
  | link _ => true
  | _ => false

/-- The permission bits; a link has all of them. -/
def mode : Inode → Nat
  | directory mode _ => mode
  | file mode _ _ => mode
  | link _ => 0o777

/-- The size that the host reports for what is no directory. -/
def size : Inode → UInt64
  | directory .. => 0
  | file _ data _ => UInt64.ofNat data.length
  | link target => UInt64.ofNat target.length

/-- The same inode with other permission bits. -/
def withMode (i : Inode) (mode : Nat) : Inode :=
  match i with
  | directory _ modified => directory mode modified
  | file _ data modified => file mode data modified
  | link target => link target

/-- The time of the last change. That of a link is not kept. -/
def modified : Inode → Time
  | directory _ modified => modified
  | file _ _ modified => modified
  | link _ => {}

/-- The same inode with another time of the last change. -/
def withModified (i : Inode) (modified : Time) : Inode :=
  match i with
  | directory mode _ => directory mode modified
  | file mode data _ => file mode data modified
  | link target => link target

end Inode

/-- A file tree. -/
structure Disk where
  nodes : PathMap Inode

namespace Disk

/-- A disk that holds the root directory alone. -/
def new : Disk := ⟨PathMap.empty.insert .root (.directory 0o755 {})⟩

/-- The bound on the length of a name. -/
def nameLimit : Nat := 255

/-- The bound on the length of a path. -/
def pathLimit : Nat := 4096

/-- The bound on the number of links that one look-up follows. -/
def linkLimit : Nat := 40

/-- A number of levels that no nesting of directories exceeds. -/
def levels (d : Disk) : Nat :=
  (d.nodes.keys.map fun p => p.components.length).foldl max 0 + 2

/-- The error for a byte zero in a path. -/
def unexpectedZero : HostError :=
  .message .invalidInput "file name contained an unexpected NUL byte"

/-- Refuse a path that no call of the host takes. -/
def check (p : Path) : Except HostError Unit :=
  if p.bytes.contains 0 then .error unexpectedZero
  else if p.bytes.isEmpty then .error .noSuchEntry
  else if pathLimit ≤ p.bytes.length then .error .nameTooLong
  else .ok ()

/-- The names in a path, where `.` and `..` are names. -/
def names (bytes : Bytes) : List Bytes :=
  (bytes.splitOn separator).filter fun s => !s.isEmpty

/-- Whether a path ends in a separator, so that it can only mean a directory. -/
def wantsDirectory (bytes : Bytes) : Bool := bytes.getLast? == some separator

/-- The names to follow. A separator at the end counts as `.`. -/
def steps (bytes : Bytes) : List Bytes :=
  names bytes ++ if wantsDirectory bytes then [dot] else []

/-- Where a look-up ends: at something, or at a name that its directory lacks. -/
structure Place where
  path : Path
  inode : Option Inode
deriving DecidableEq, Repr

/-- Follow names from a place. A link is left to `onLink` together with the names behind it, except
a link at the end if it is not to be followed. -/
def walk (d : Disk) (followLast : Bool)
    (onLink : Path → Bytes → List Bytes → Except HostError Place) :
    Path → List Bytes → Except HostError Place
  | here, [] => .ok ⟨here, d.nodes.find? here⟩
  | here, name :: rest =>
    match d.nodes.find? here with
    | none => .error .noSuchEntry
    | some i =>
      if !i.isDirectory then .error .notADirectory
      else if name = dot then d.walk followLast onLink here rest
      else if name = dotDot then d.walk followLast onLink (here.parent.getD .root) rest
      else if nameLimit < name.length then .error .nameTooLong
      else
        let next := here.child name
        match d.nodes.find? next with
        | none => if rest.isEmpty then .ok ⟨next, none⟩ else .error .noSuchEntry
        | some (.link target) =>
          if rest.isEmpty && !followLast then .ok ⟨next, some (.link target)⟩
          else onLink here target rest
        | some _ => d.walk followLast onLink next rest

/-- Follow names from a place and at most `links` links. -/
def follow (d : Disk) (followLast : Bool) :
    (links : Nat) → Path → List Bytes → Except HostError Place
  | 0 => d.walk followLast fun _ _ _ => .error .tooManyLinks
  | links + 1 =>
    d.walk followLast fun here target rest =>
      let start := if target.head? = some separator then .root else here
      d.follow followLast links start (steps target ++ rest)

/-- Follow a path. -/
def reach (d : Disk) (followLast : Bool) (p : Path) : Except HostError Place := do
  check p
  d.follow followLast linkLimit .root (steps p.bytes)

/-- What a path leads to. -/
def lookup (d : Disk) (followLast : Bool) (p : Path) : Except HostError (Path × Inode) := do
  let place ← d.reach followLast p
  match place.inode with
  | some i => return (place.path, i)
  | none => throw .noSuchEntry

/-- What a path leads to, following a link at its end. -/
def stat (d : Disk) (p : Path) : Except HostError Inode := Prod.snd <$> d.lookup true p

/-- What a path leads to, without following a link at its end. -/
def lstat (d : Disk) (p : Path) : Except HostError Inode := Prod.snd <$> d.lookup false p

/-- The absolute path without links that leads to the same place. -/
def canonical (d : Disk) (p : Path) : Except HostError Path := Prod.fst <$> d.lookup true p

/-- Whether a path leads to something. -/
def pathExists (d : Disk) (p : Path) : Bool := (d.stat p).isOk

/-- Whether a path leads to a directory. -/
def isDirectory (d : Disk) (p : Path) : Bool :=
  match d.stat p with
  | .ok i => i.isDirectory
  | .error _ => false

/-- Whether a path leads to a file. -/
def isFile (d : Disk) (p : Path) : Bool :=
  match d.stat p with
  | .ok i => i.isFile
  | .error _ => false

/-- The last part of a path that makes or removes an entry. -/
inductive LastPart where
  | root
  | here
  | above
  | name (bytes : Bytes)
deriving DecidableEq, Repr

/-- The directory of an entry, and the last part of its path. -/
def locate (d : Disk) (p : Path) : Except HostError (Path × LastPart) := do
  check p
  match names p.bytes with
  | [] => return (.root, .root)
  | first :: rest =>
    let all := first :: rest
    let last := all.getLast?.getD first
    let place ← d.follow true linkLimit .root all.dropLast
    match place.inode with
    | none => throw .noSuchEntry
    | some i =>
      if !i.isDirectory then throw .notADirectory
      let part : LastPart :=
        if last = dot then .here else if last = dotDot then .above else .name last
      return (place.path, part)

/-- What is at the end of a path that makes or removes an entry. There is no place for a path that
ends in `.` or `..`. -/
def slot (d : Disk) (dir : Path) (last : LastPart) : Except HostError (Option Place) :=
  match last with
  | .root => .ok (some ⟨.root, d.nodes.find? .root⟩)
  | .here | .above => .ok none
  | .name name =>
    if nameLimit < name.length then .error .nameTooLong
    else .ok (some ⟨dir.child name, d.nodes.find? (dir.child name)⟩)

/-- Whether something lies directly in a directory. -/
def hasEntries (d : Disk) (dir : Path) : Bool := !(d.nodes.children dir).isEmpty

/-- The disk with something new or changed at a place. -/
def put (d : Disk) (path : Path) (i : Inode) : Disk := ⟨d.nodes.insert path i⟩

/-- The disk without what is at a place. -/
def drop (d : Disk) (path : Path) : Disk := ⟨d.nodes.erase path⟩

end Disk

end TreeOps
