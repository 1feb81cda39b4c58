import TreeOps.Disk.Files

/-!
# Outlines

An outline describes a tree in lines, one for each entry. A path that ends in a separator names a
directory, `path -> target` a link, and any other path an empty file. Directories on the way are
made where they are missing, and a line that cannot be carried out is passed over.
-/

namespace TreeOps.Disk

open DiskWork

/-- The mark between the path of a link and its target. -/
def arrow : Bytes := Utf8.encode " -> "

/-- The parts of a line before and behind its first arrow. -/
def splitArrow : Bytes → Option (Bytes × Bytes)
  | [] => none
  | b :: rest =>
    if arrow.isPrefixOf (b :: rest) then some ([], (b :: rest).drop arrow.length)
    else (splitArrow rest).map fun (before, after) => (b :: before, after)

/-- Make the entry that a line names. -/
def makeEntry (line : Bytes) : DiskWork HostError Unit := do
  let link := splitArrow line
  let path : Path := ⟨(link.map Prod.fst).getD line⟩
  if let some parent := path.parent then makeDirectories parent
  match link with
  | some (_, target) => perform fun d => d.makeLink target path
  | none =>
    if wantsDirectory line then makeDirectories path
    else perform fun d => d.createFile path 0o666 []

/-- The disk that the lines of an outline describe. -/
def ofOutline (lines : List Bytes) : Disk :=
  lines.foldl (fun d line => ((makeEntry line).run.run d).2) new

end TreeOps.Disk
