import TreeOps.Memory.Basic
import TreeOps.Program.Handler

/-!
# Primitive calls in memory

A call is recorded first. A failure scripted for it then strikes, if there is one left; otherwise
the call looks at the nodes, and changes them only when it succeeds.
-/

namespace TreeOps

namespace Memory

/-- Use up the first failure that is scripted for a call and has a strike left. -/
def strike (primitive : Primitive) (path : Path) :
    List Failure → Option NativeCode × List Failure
  | [] => (none, [])
  | f :: rest =>
    if f.primitive = primitive ∧ f.path.same path = true then
      match f.remaining with
      | none => (some f.code, f :: rest)
      | some (n + 1) => (some f.code, { f with remaining := some n } :: rest)
      | some 0 =>
        let (code, rest) := strike primitive path rest
        (code, f :: rest)
    else
      let (code, rest) := strike primitive path rest
      (code, f :: rest)

/-- Record a call and let a scripted failure strike. -/
def enter (m : Memory) (c : Call) : Option NativeCode × Memory :=
  let (code, failures) := strike c.primitive c.path m.failures
  (code, { m with calls := (c.primitive, c.path) :: m.calls, failures })

end Memory

namespace Tree

/-- The node at a path, or the code of a failure to find it. -/
def node (t : Tree) (path : Path) (missing : NativeCode) : Except NativeError Node :=
  match t.find? path with
  | some n => .ok n
  | none => .error missing

/-- The directory that a new node at a path would lie in. -/
def parentDirectory (t : Tree) (path : Path) : Except NativeError Node :=
  match path.parent.bind t.find? with
  | some n => if n.kind = .directory then .ok n else .error (NativeCode.pathNotFound : NativeError)
  | none => .error (NativeCode.pathNotFound : NativeError)

/-- The children of a directory or of a link. -/
def listing (t : Tree) (dir : Path) : Except NativeError (List Child) := do
  let n ← t.node dir .pathNotFound
  if n.kind = .file then throw (NativeCode.notADirectory : NativeError)
  return (t.children dir).map fun (p, n) => n.child p

/-- The entry at a path. -/
def entry (t : Tree) (path : Path) : Except NativeError Entry := do
  let n ← t.node path .pathNotFound
  return (n.child path).entryAt path

/-- The nodes with a new directory. -/
def withDirectory (t : Tree) (path : Path) : Except NativeError Tree := do
  if t.contains path then throw (NativeCode.alreadyExists : NativeError)
  let _ ← t.parentDirectory path
  return t.place path .directory

/-- The nodes without an empty directory that is not mounted, or without a link to a directory. -/
def withoutDirectory (t : Tree) (path : Path) : Except NativeError Tree := do
  let n ← t.node path .pathNotFound
  match n.kind with
  | .file | .link false => throw (NativeCode.notADirectory : NativeError)
  | .link true => return t.erase path
  | .directory =>
    if t.hasChildren path then throw (NativeCode.directoryNotEmpty : NativeError)
    if n.mounted then throw (NativeCode.sharingViolation : NativeError)
    return t.erase path

/-- The nodes without a file or link that is not read-only. -/
def withoutFile (t : Tree) (path : Path) : Except NativeError Tree := do
  let n ← t.node path .fileNotFound
  if n.kind = .directory ∨ n.attributes.isReadOnly = true then
    throw (NativeCode.accessDenied : NativeError)
  return t.erase path

/-- The nodes from which what is at the destination of a rename is gone. A file takes the place of a
file and a directory that of an empty directory. -/
def vacated (t : Tree) (n : Node) (destination : Path) (replace : Bool) :
    Except NativeError Tree :=
  match t.find? destination with
  | none => .ok t
  | some target =>
    if !replace then .error (NativeCode.alreadyExists : NativeError)
    else if n.kind = .directory ∧ target.kind ≠ .directory then
      .error (NativeCode.notADirectory : NativeError)
    else if n.kind ≠ .directory ∧ target.kind = .directory then
      .error (NativeCode.accessDenied : NativeError)
    else if n.kind = .directory ∧ t.hasChildren destination = true then
      .error (NativeCode.directoryNotEmpty : NativeError)
    else .ok (t.erase destination)

/-- Where a node at or below `source` goes when `source` is renamed to `destination`. -/
def movedPath (source destination p : Path) : Path :=
  let rest := p.relativeTo source
  if rest.bytes.isEmpty then destination else destination.join rest

/-- Rename a node with everything below it. -/
def relocate (t : Tree) (source destination : Path) : Tree :=
  let moved := t.entries.filter fun e => e.1.startsWith source
  (t.filter fun p _ => !p.startsWith source).insertAll
    (moved.map fun e => (movedPath source destination e.1, e.2))

/-- The nodes with a subtree renamed on its volume. -/
def withMoved (t : Tree) (source destination : Path) (replace : Bool) :
    Except NativeError Tree := do
  let n ← t.node source .fileNotFound
  let parent ← t.parentDirectory destination
  if parent.volume ≠ n.volume then throw (NativeCode.notSameDevice : NativeError)
  let t ← t.vacated n destination replace
  return t.relocate source destination

/-- The nodes with a copy of a file or link, and its size. -/
def withCopy (t : Tree) (source destination : Path) (flags : CopyFlags) :
    Except NativeError (UInt64 × Tree) := do
  let n ← t.node source .fileNotFound
  if n.kind = .directory then throw (NativeCode.accessDenied : NativeError)
  if t.contains destination && !flags.overwrite then throw (NativeCode.fileExists : NativeError)
  let parent ← t.parentDirectory destination
  return (n.size, t.insert destination { n with volume := parent.volume, mounted := false })

/-- The nodes with new attributes for one of them. -/
def withAttributes (t : Tree) (path : Path) (attributes : Attributes) :
    Except NativeError Tree := do
  let _ ← t.node path .pathNotFound
  return t.modify path (Node.withAttributes · attributes)

/-- The nodes with one of them unmounted. -/
def withUnmounted (t : Tree) (path : Path) : Except NativeError Tree :=
  if t.isMounted path then .ok (t.modify path fun n => { n with mounted := false })
  else .error (NativeCode.mountPointNotFound : NativeError)

/-- Whether two nodes are on one volume. -/
def onOneVolume (t : Tree) (a b : Path) : Except NativeError Bool := do
  let x ← t.node a .pathNotFound
  let y ← t.node b .pathNotFound
  return x.volume == y.volume

/-- Answer without a change. -/
def observe {α : Type} (t : Tree) (result : Except NativeError α) :
    Except NativeError α × Tree :=
  (result, t)

/-- Go over to new nodes if there are any. -/
def update (t : Tree) (result : Except NativeError Tree) : Except NativeError Unit × Tree :=
  match result with
  | .ok t => (.ok (), t)
  | .error e => (.error e, t)

/-- Carry out a call on which no failure strikes. -/
def perform (t : Tree) : (c : Call) → Except NativeError c.Result × Tree
  | .list dir => t.observe (t.listing dir)
  | .query path => t.observe (t.entry path)
  | .createDirectory path => t.update (t.withDirectory path)
  | .removeDirectory path => t.update (t.withoutDirectory path)
  | .deleteFile path => t.update (t.withoutFile path)
  | .move source destination replace => t.update (t.withMoved source destination replace)
  | .copy source destination flags =>
    match t.withCopy source destination flags with
    | .ok (bytes, t) => (.ok bytes, t)
    | .error e => (.error e, t)
  | .setAttributes path attributes => t.update (t.withAttributes path attributes)
  | .unmount path => t.update (t.withUnmounted path)
  | .sameVolume a b => t.observe (t.onOneVolume a b)

end Tree

namespace Memory

/-- Carry out a primitive call. -/
def call (m : Memory) (c : Call) : Except NativeError c.Result × Memory :=
  match m.enter c with
  | (some code, m) => (.error code, m)
  | (none, m) =>
    let (result, nodes) := m.nodes.perform c
    (result, { m with nodes })

/-- The file system in memory. It takes every path as it is and pays no heed to transactions. -/
def fileSystem : FileSystem Memory where
  call _ c m := m.call c
  resolve p _ := p

end Memory

end TreeOps
