import TreeOps.Disk.Basic

/-!
# Canonical paths

A path is made absolute, the directory that holds its last component is followed as far as it
exists, and the last component is kept as it is, so that a link is resolved to itself and not to
what it points to. The rule only needs to know what following a path gives, where it leads anywhere.

Specification: §6, `resolve`.
-/

namespace TreeOps.Resolve

/-- An absolute path with the components of `p`, taken from the directory `base` if `p` is relative.
A separator at the end stays. The empty path cannot be made absolute. -/
def absolute? (base p : Path) : Option Path :=
  if p.bytes.isEmpty then none
  else
    let start := if p.isAbsolute then .root else base
    let full := (p.components.filter fun c => c != .root && c != .here).foldl
      (fun q c => q.child c.bytes) start
    some (if p.bytes.getLast? = some separator then full.join .empty else full)

/-- Follow the longest part of a path that leads somewhere, and keep the names behind it. -/
def existingPart (canonical? : Path → Option Path) : (count : Nat) → Path → Path
  | 0, p => p
  | count + 1, p =>
    match canonical? p with
    | some q => q
    | none =>
      match p.parent, p.fileName with
      | some parent, some name => (existingPart canonical? count parent).child name
      | _, _ => p

/-- The canonical form of a path, given what following a path gives. -/
def resolve (canonical? : Path → Option Path) (base p : Path) : Path :=
  let full := (absolute? base p).getD p
  match full.parent, full.fileName with
  | some parent, some name =>
    (existingPart canonical? (parent.bytes.length + 1) parent).child name
  | _, _ => (canonical? full).getD full

end TreeOps.Resolve

namespace TreeOps.Disk

/-- The canonical form of a path. -/
def resolve (d : Disk) (p : Path) : Path :=
  Resolve.resolve (fun q => (d.canonical q).toOption) .root p

end TreeOps.Disk
