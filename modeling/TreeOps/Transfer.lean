import TreeOps.Create
import TreeOps.Path.Topology
import TreeOps.Removal.Delete

/-!
# Copying and moving trees

A copy makes each directory at the destination before anything below it, copies files, and makes the
links below the source again without entering them. A move on one volume is a single rename; across
volumes it is a copy followed by a delete of the source, and only where copying is allowed. A
listener hears of each completed entry and can stop the copy there; a move that is stopped leaves
the source as it was.

Specification: §4.3, `copy_or_move`.
-/

namespace TreeOps

/-- What a copy may do. -/
structure CopyOptions where
  /-- Replace files that are at the destination already. -/
  overwriteExisting : Bool := false
  preserveTimestamps : Bool := false
deriving DecidableEq, Repr

/-- What a move may do. -/
structure MoveOptions where
  /-- Delete what is at the destination already. -/
  replaceExisting : Bool := false
  /-- Copy and delete when a rename cannot cross volumes. -/
  copyAllowed : Bool := false
deriving DecidableEq, Repr

/-- Either copy or move. -/
inductive TransferMode where
  | copy (opts : CopyOptions)
  | move (opts : MoveOptions)
deriving DecidableEq, Repr

/-- How to transfer a tree. Exactly one of `copy` and `move` has to be given. -/
structure TransferOptions where
  copy : Option CopyOptions := none
  move : Option MoveOptions := none
  transaction : Option Transaction := none
  /-- For the deletes that a move performs. -/
  retry : RetryPolicy := {}
deriving DecidableEq, Repr

namespace TransferOptions

/-- The one mode that is asked for. -/
def mode (opts : TransferOptions) : Except TreeError TransferMode :=
  match opts.copy, opts.move with
  | some c, none => .ok (.copy c)
  | none, some m => .ok (.move m)
  | some _, some _ => .error (.configuration "copy and move options are mutually exclusive")
  | none, none => .error (.configuration "either copy or move options are required")

/-- How a move deletes. -/
def deletion (opts : TransferOptions) : DeleteOptions where
  recursive := true
  ignoreReadOnly := true
  transaction := opts.transaction
  retry := opts.retry

end TransferOptions

/-- What a copy or move came to. -/
structure Outcome where
  source : Path
  destination : Path
  isMove : Bool
  canceled : Bool
  entries : UInt64
  bytes : UInt64
deriving DecidableEq, Repr

namespace Outcome

/-- A transfer that was not stopped has succeeded. -/
def succeeded (o : Outcome) : Bool := !o.canceled

/-- The number that stands for the outcome: zero, or the code of a request that was aborted. -/
def nativeCode (o : Outcome) : UInt32 :=
  if o.canceled then NativeCode.requestAborted.raw else 0

end Outcome

namespace Transfer

/-- How far a transfer has come. Both counters wrap around. -/
structure Tally where
  entries : UInt64 := 0
  bytes : UInt64 := 0
  canceled : Bool := false
deriving DecidableEq, Repr

/-- Count a completed entry and tell the listener. -/
def record (t : Tally) (kind : ProgressKind) (source destination : Path) (entryBytes : UInt64) :
    Operation (Tally × ProgressAction) := do
  let t := { t with entries := t.entries + 1, bytes := t.bytes + entryBytes }
  let action ← ExceptT.lift (Program.request
    (.report ⟨kind, source, destination, entryBytes, t.entries, t.bytes⟩))
  return (t, action)

/-- Count a completed entry; the listener may stop the transfer here. -/
def report (t : Tally) (kind : ProgressKind) (source destination : Path) (entryBytes : UInt64) :
    Operation Tally := do
  let (t, action) ← record t kind source destination entryBytes
  match action with
  | .proceed => return t
  | .cancel =>
    Operation.note (.canceled t.entries)
    return { t with canceled := true }

/-- The error for a file that could not be copied. -/
def copyError (source destination : Path) (e : NativeError) : TreeError :=
  if e.code.isAlreadyExists then .alreadyExists destination else .ofNative source "copy file" e

/-- Copy one file, or make one link again. -/
def copyLeaf (tx : Option Transaction) (flags : CopyFlags) (e : Entry) (target : Path)
    (asLink : Bool) (t : Tally) : Operation Tally := do
  let bytes ← Operation.perform tx (.copy e.path target { flags with copySymlink := asLink })
    (copyError e.path target)
  Operation.note (.copied e.path target bytes)
  report t (if asLink then .linkCopied else .fileCopied) e.path target bytes

/-- Copy one entry of a directory to its place in `destination`; a directory is left to `copyBelow`.
-/
def copyEntry (tx : Option Transaction) (flags : CopyFlags)
    (copyBelow : Path → Path → Tally → Operation Tally) (destination : Path) (t : Tally)
    (e : Entry) : Operation Tally :=
  let target := destination.child (Utf8.encode e.name)
  if t.canceled then pure t
  else if e.isReparsePoint then copyLeaf tx flags e target true t
  else if e.isDirectory then copyBelow e.path target t
  else copyLeaf tx flags e target false t

/-- Copy the directory `source` to `destination` with everything below it. The root of a copy may
lack ancestors; any other directory is made in one that was made before. -/
def copyTree (tx : Option Transaction) (flags : CopyFlags) :
    (levels : Nat) → (isRoot : Bool) → Path → Path → Tally → Operation Tally
  | 0, _, _, _, _ => throw .tooDeep
  | levels + 1, isRoot, source, destination, t => do
    if isRoot then createResolved tx destination else createOne tx destination
    let t ← report t .directoryCreated source destination 0
    if t.canceled then return t
    let entries ← childEntries tx source
    entries.foldlM (copyEntry tx flags (copyTree tx flags levels false) destination) t

/-- The first of some paths that can be queried. -/
def firstExisting (tx : Option Transaction) : List Path → Operation (Option Path)
  | [] => pure none
  | p :: rest => do
    match ← Operation.attempt tx (.query p) with
    | .ok _ => return some p
    | .error _ => firstExisting tx rest

/-- Delete what is at the destination of a move. -/
def replaceDestination (levels : Nat) (opts : TransferOptions) (destination : Path)
    (isDirectory : Bool) : Operation Unit := do
  Operation.note (.removingDestination destination)
  if isDirectory then Removal.deleteResolved levels opts.deletion destination
  else deleteFile opts.transaction destination true

/-- Whether a rename failed because something is at the destination. -/
def isOccupied (code : NativeCode) : Bool :=
  code.isAlreadyExists
    || code == .directoryNotEmpty || code == .notADirectory || code == .accessDenied

/-- What one rename came to. -/
inductive Rename where
  | renamed (t : Tally)
  | crossedVolumes
  | occupied
deriving DecidableEq, Repr

/-- Try to rename the source onto the destination. A destination that may be removed and is in the
way is no failure yet. -/
def tryRename (m : MoveOptions) (opts : TransferOptions) (source destination : Path)
    (mayRemove : Bool) (t : Tally) : Operation Rename := do
  match ← Operation.attempt opts.transaction (.move source destination m.replaceExisting) with
  | .ok () =>
    let (t, _) ← record t .treeMoved source destination 0
    Operation.note (.renamedTree source destination)
    return .renamed t
  | .error e =>
    if e.code = .notSameDevice then
      if m.copyAllowed then
        Operation.note (.renameCrossedVolumes source destination)
        return .crossedVolumes
      else Operation.fail (.notSameDevice source destination)
    else if mayRemove && isOccupied e.code then return .occupied
    else if e.code.isAlreadyExists || e.code == .directoryNotEmpty then
      Operation.fail (.alreadyExists destination)
    else Operation.fail (.ofNative source "move" e)

/-- How a rename ended: done, or left to copying with what still has to be removed at the
destination. -/
inductive Renaming where
  | done (t : Tally)
  | toCopy (existing : Option Entry)
deriving DecidableEq, Repr

/-- Rename the source onto the destination. What is there is removed only after a first attempt has
shown that it is in the way. -/
def renameTree (levels : Nat) (m : MoveOptions) (opts : TransferOptions) (source destination : Path)
    (existing : Option Entry) (t : Tally) : Operation Renaming := do
  match ← tryRename m opts source destination existing.isSome t with
  | .renamed t => return .done t
  | .crossedVolumes => return .toCopy existing
  | .occupied =>
    if let some old := existing then
      replaceDestination levels opts destination old.isDirectory
    match ← tryRename m opts source destination false t with
    | .renamed t => return .done t
    | _ => return .toCopy none

/-- Move a tree by copying it and deleting the source. -/
def moveByCopy (levels : Nat) (m : MoveOptions) (opts : TransferOptions) (source destination : Path)
    (existing : Option Entry) (t : Tally) : Operation Tally := do
  if let some old := existing then
    replaceDestination levels opts destination old.isDirectory
  let flags : CopyFlags :=
    { overwrite := m.replaceExisting, copySymlink := false, preserveTimestamps := true }
  let t ← copyTree opts.transaction flags levels true source destination t
  if t.canceled then
    Operation.note (.moveCanceled source)
    return t
  else
    Removal.deleteResolved levels opts.deletion source
    Operation.note (.movedByCopy source destination)
    return t

/-- Whether something is at the destination of a move; its metadata if so. -/
def queryDestination (tx : Option Transaction) (destination : Path) : Operation (Option Entry) := do
  match ← Operation.attempt tx (.query destination) with
  | .ok info => return some info
  | .error e =>
    if e.code.isNotFound then return none else Operation.fail (.ofNative destination "query" e)

/-- Move a tree between canonical paths. -/
def moveTree (levels : Nat) (m : MoveOptions) (opts : TransferOptions) (source destination : Path)
    (t : Tally) : Operation Tally := do
  let tx := opts.transaction
  match ← firstExisting tx destination.namedAncestors with
  | none => Operation.fail (.notFound destination)
  | some anchor =>
    let onOneVolume ← Operation.perform tx (.sameVolume source anchor)
      (.ofNative source "volume query")
    let existing ← queryDestination tx destination
    if existing.isSome && !m.replaceExisting then Operation.fail (.alreadyExists destination)
    else if onOneVolume then
      match ← renameTree levels m opts source destination existing t with
      | .done t => return t
      | .toCopy existing => moveByCopy levels m opts source destination existing t
    else if m.copyAllowed then moveByCopy levels m opts source destination existing t
    else Operation.fail (.notSameDevice source destination)

/-- Why a tree may not be transferred between two canonical paths, if so. -/
def overlap? (source destination : Path) : Option TreeError :=
  if source.samePlace destination then some (.sameSourceAndDestination source)
  else if destination.isWithin source then some (.destinationInsideSource source destination)
  else if source.isWithin destination then some (.sourceInsideDestination source destination)
  else none

/-- Copy or move a tree between canonical paths that do not overlap. -/
def transferTree (levels : Nat) (mode : TransferMode) (opts : TransferOptions)
    (source destination : Path) : Operation Outcome := do
  match mode with
  | .copy c =>
    Operation.note (.copyingTree source destination)
    let flags : CopyFlags :=
      { overwrite := c.overwriteExisting, copySymlink := false
        preserveTimestamps := c.preserveTimestamps }
    let t ← copyTree opts.transaction flags levels true source destination {}
    return ⟨source, destination, false, t.canceled, t.entries, t.bytes⟩
  | .move m =>
    Operation.note (.movingTree source destination)
    let t ← moveTree levels m opts source destination {}
    return ⟨source, destination, true, t.canceled, t.entries, t.bytes⟩

end Transfer

/-- Copy or move the tree at `source` to `destination`. -/
def copyOrMove (levels : Nat) (opts : TransferOptions) (source destination : Path) :
    Operation Outcome := do
  match opts.mode with
  | .error e => Operation.fail e
  | .ok mode =>
    let source ← Operation.resolve source
    let destination ← Operation.resolve destination
    match Transfer.overlap? source destination with
    | some e => Operation.fail e
    | none =>
      let info ← Operation.perform opts.transaction (.query source) (.ofNative source "query")
      if !info.isDirectory then Operation.fail (.notADirectory source)
      else Transfer.transferTree levels mode opts source destination

end TreeOps
