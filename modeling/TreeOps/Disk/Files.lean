import TreeOps.Disk.Work

/-!
# Work with files

Directories are made together with what is missing above them, a log is written at its end, and a
file for the user alone is written as a whole or not at all.
-/

namespace TreeOps

namespace Disk

open DiskWork

/-- Make a directory, or find one there. -/
def ensureDirectory (p : Path) : DiskWork HostError Unit := do
  match (← get).makeDirectory p with
  | .ok d => set d
  | .error e => if (← get).isDirectory p then return else throw e

/-- Make a directory with its missing ancestors, `levels` of them at most. -/
def makeDirectoriesWithin : (levels : Nat) → Path → DiskWork HostError Unit
  | 0, _ => throw (.message .other "failed to create whole tree")
  | levels + 1, p => do
    if p.components.isEmpty then return
    match (← get).makeDirectory p with
    | .ok d => set d
    | .error e =>
      if e.isNotFound then
        match p.parent with
        | some parent =>
          makeDirectoriesWithin levels parent
          ensureDirectory p
        | none => throw (.message .other "failed to create whole tree")
      else if (← get).isDirectory p then return
      else throw e

/-- Make a directory with its missing ancestors. -/
def makeDirectories (p : Path) : DiskWork HostError Unit :=
  makeDirectoriesWithin (p.bytes.length + 1) p

/-- Whether a path above `p` is a symbolic link. Paths that lead nowhere are passed over. -/
def linkAbove (d : Disk) (p : Path) : Except HostError Bool :=
  let rec search : List Path → Except HostError Bool
    | [] => .ok false
    | above :: rest =>
      match d.lstat above with
      | .ok i => if i.isLink then .ok true else search rest
      | .error e => if e.isNotFound then search rest else .error e
  search ((p.ancestors.drop 1).takeWhile fun q => !q.bytes.isEmpty)

/-- Open a log for writing at its end, and write there. A log that is new is for the user alone. -/
def appendLog (p : Path) (data : Bytes) : DiskWork HostError Unit := do
  if let some parent := p.parent then
    let (_, d) := ((makeDirectories parent).run).run (← get)
    set d
  let existed := (← get).pathExists p
  perform fun d => d.writeWith p 0o600 (· ++ data)
  if !existed then tryPerform fun d => d.setMode p 0o600

/-- The place beside a file where its new contents are written first. -/
def draftBeside (p : Path) : Path := (p.parent.getD ⟨dot⟩).join ".dirtree.config.tmp"

/-- Write a file for the user alone, all of it or nothing. -/
def writePrivate (p : Path) (data : Bytes) : DiskWork Complaint Unit := do
  match p.parent with
  | none => throw ⟨"config path has no parent", []⟩
  | some parent =>
    because ("create parent '" ++ parent.text ++ "'") (makeDirectories parent)
    let draft := draftBeside p
    because ("create temp '" ++ draft.text ++ "'") (perform fun d => d.createFile draft 0o600 data)
    let renamed : DiskWork HostError Unit := do
      match (← get).rename draft p with
      | .ok d => set d
      | .error e =>
        tryPerform fun d => d.removeFile draft
        throw e
    because ("rename '" ++ draft.text ++ "' -> '" ++ p.text ++ "'") renamed
    because ("open dir '" ++ parent.text ++ "'") (ask fun d => do let _ ← d.stat parent)

end Disk

end TreeOps
