import TreeOps.Memory.Calls

/-!
# Additions to a file system in memory

An overlay makes a file system in memory report what its nodes cannot: further children at the end
of a listing, and canonical forms of paths other than the paths themselves.
-/

namespace TreeOps

/-- A file system in memory with additions to what it reports. -/
structure Overlay where
  memory : Memory
  /-- Children reported after those of a directory. -/
  extraChildren : List (Path × List Child) := []
  /-- Canonical forms of paths. -/
  redirections : List (Path × Path) := []

namespace Overlay

/-- What a list of additions holds for a path; the addition made last counts. -/
def lookup {α : Type} (path : Path) (additions : List (Path × α)) : Option α :=
  (additions.reverse.find? fun e => e.1.same path).map Prod.snd

/-- The children that a successful listing reports in the end. -/
def extended (o : Overlay) (dir : Path) (children : List Child) : List Child :=
  children ++ (lookup dir o.extraChildren).getD []

/-- Carry out a primitive call. -/
def call (o : Overlay) (c : Call) : Except NativeError c.Result × Overlay :=
  let (result, memory) := o.memory.call c
  let result : Except NativeError c.Result :=
    match c, result with
    | .list dir, .ok children => .ok (o.extended dir children)
    | _, result => result
  (result, { o with memory })

/-- The file system with its additions. -/
def fileSystem : FileSystem Overlay where
  call _ c o := o.call c
  resolve p o := (lookup p o.redirections).getD p

end Overlay

end TreeOps
