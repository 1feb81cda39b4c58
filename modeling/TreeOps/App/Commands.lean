import TreeOps.App.Session
import TreeOps.Removal.Prune
import TreeOps.Transfer

/-!
# The commands

Each command carries out an operation on trees and tells the user what came of it. A command with
several targets goes on after a failure, reports the further failures, and fails with the first one.

Specification: §10.4.
-/

namespace TreeOps.App

open Run

/-- A bound on the steps of a walk. -/
def walkBudget : Nat := 1000000000

/-- Tell the entries that a walk has yielded, up to an error. The result is their number. -/
def tellEntries : Nat → List (Except TreeError Entry) → Run Nat
  | count, [] => pure count
  | _, .error e :: _ => throw (.tree e)
  | count, .ok e :: rest => do
    tell (.result e.path.text)
    tellEntries (count + 1) rest

/-- List the entries below a directory. -/
def list (c : Config) (a : ListArguments) : Run Unit := do
  let traversal : Traversal :=
    { root := a.root
      pattern := a.pattern
      recursive := a.recursive
      includeFiles := !a.dirsOnly
      includeFolders := !a.filesOnly
      skipReparsePoints := c.skipReparsePoints
      continueOnError := c.continueOnError }
  let collected ← program do
    let w ← openWalk traversal
    w.collect walkBudget none walkBudget
  let count ← tellEntries 0 collected.items
  log .info "listing finished" [("root", .text a.root.text), ("count", .number count)]

/-- Tell of further failures and fail with the first one. -/
def failWithFirst (verb : String) : List Failure → Run Unit
  | [] => pure ()
  | first :: rest => do
    rest.forM fun f => do
      tell (.log f.record)
      error f.line
    if !rest.isEmpty then
      log .warn (verb ++ " failed for several targets") [("failed", .number (rest.length + 1))]
    throw first

/-- The failures among some outcomes. -/
def failures {α : Type} (outcomes : List (Except Failure α)) : List Failure :=
  outcomes.filterMap fun
    | .ok _ => none
    | .error f => some f

/-- Whether a target is deleted as a file: a file, or a link to anything but a directory. -/
def isFileTarget (d : Disk) (p : Path) : Except Failure Bool :=
  match d.lstat p with
  | .ok i => .ok (i.isFile || i.isLink && !d.isDirectory p)
  | .error e =>
    if e.isNotFound then .ok false else .error (.complaint ⟨e.helpText "inspect" p, []⟩)

/-- Delete one target. -/
def deleteTarget (opts : DeleteOptions) (p : Path) : Run Unit := do
  let d ← disk
  match isFileTarget d p with
  | .error f => throw f
  | .ok isFile =>
    if isFile then operation (deleteFile none p opts.ignoreReadOnly)
    else operation (deleteDirectory d.levels opts p)
    log .debug "deleted" [("path", .text p.text)]

/-- Delete directories and files. -/
def delete (c : Config) (a : DeleteArguments) : Run Unit := do
  let opts : DeleteOptions :=
    { recursive := a.recursive
      ignoreReadOnly := c.ignoreReadOnly
      continueIfMissing := a.missingOk
      retry := c.retryPolicy }
  let outcomes ← a.paths.mapM fun p => outcome (deleteTarget opts p)
  failWithFirst "delete" (failures outcomes)
  success ("deleted " ++ toString a.paths.length ++ " target(s)")

/-- Remove empty directories. -/
def prune (c : Config) (a : PruneArguments) : Run Unit := do
  let opts : PruneOptions :=
    { recursive := a.recursive, ignoreReadOnly := c.ignoreReadOnly, retry := c.retryPolicy }
  let outcomes ← a.roots.mapM fun root => do
    let d ← disk
    outcome (operation (pruneEmpty d.levels opts root))
  (a.roots.zip outcomes).forM fun (root, result) =>
    match result with
    | .ok removed =>
      let noun := if removed.length = 1 then "directory" else "directories"
      success ("pruned " ++ toString removed.length ++ " empty " ++ noun ++ " under " ++ root.text)
    | .error _ => pure ()
  failWithFirst "prune" (failures outcomes)

/-- Tell what came of a copy or move. -/
def finishTransfer (verb : String) (o : Outcome) : Run Unit := do
  if o.canceled then
    warn ("canceled after " ++ toString o.entries ++ " entries; '" ++ o.destination.text
      ++ "' is incomplete")
    throw (.complaint ⟨verb ++ " of '" ++ o.source.text ++ "' was canceled", []⟩)
  else
    success (verb ++ " '" ++ o.source.text ++ "' -> '" ++ o.destination.text ++ "' ("
      ++ toString o.entries ++ " entries, " ++ toString o.bytes ++ " bytes)")

/-- Copy a tree. -/
def copy (c : Config) (a : CopyArguments) : Run Unit := do
  let opts : TransferOptions :=
    { copy := some ⟨a.overwrite, a.preserveTimestamps⟩, retry := c.retryPolicy }
  finishTransfer "copied" (← operation (copyOrMove (← disk).levels opts a.source a.destination))

/-- Move a tree. -/
def move (c : Config) (a : MoveArguments) : Run Unit := do
  let opts : TransferOptions :=
    { move := some ⟨a.replace, a.allowCopy⟩, retry := c.retryPolicy }
  finishTransfer "moved" (← operation (copyOrMove (← disk).levels opts a.source a.destination))

/-- Carry out a command. -/
def command (c : Config) : Command → Run Unit
  | .list a => list c a
  | .delete a => delete c a
  | .copy a => copy c a
  | .move a => move c a
  | .prune a => prune c a

end TreeOps.App
