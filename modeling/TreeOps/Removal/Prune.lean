import TreeOps.Removal.Delete

/-!
# Pruning empty directories

Pruning removes the directories below a root that are empty, or become empty when the directories
below them are pruned first. Links and mount points are left alone, and the root is never removed.

Specification: §4.4, `prune_empty`.
-/

namespace TreeOps

/-- What pruning may do. -/
structure PruneOptions where
  /-- Go on below the children of the root. -/
  recursive : Bool := true
  ignoreReadOnly : Bool := false
  transaction : Option Transaction := none
  retry : RetryPolicy := {}
deriving DecidableEq, Repr

namespace PruneOptions

/-- How an empty directory is removed: one that has got entries meanwhile is refused. -/
def deletion (opts : PruneOptions) : DeleteOptions where
  recursive := false
  requireEmptyIfNotRecursive := true
  continueIfMissing := true
  ignoreReadOnly := opts.ignoreReadOnly
  transaction := opts.transaction
  retry := opts.retry

end PruneOptions

namespace Removal

/-- Whether pruning looks at an entry: a directory that is neither a link nor a mount point. -/
def isPrunable (e : Entry) : Bool :=
  e.isDirectory && !e.isReparsePoint && !e.isMountPoint

/-- Remove a directory that was found empty. The result is the list of removed paths. -/
def removeEmpty (opts : PruneOptions) (dir : Path) : Operation (List Path) := do
  let attempt := do
    deleteNode opts.deletion 1 true dir
    return true
  let removed ← attempt.tryCatch fun
    | .failed (.directoryNotEmpty _) => pure false
    | halt => throw halt
  if removed then
    Operation.note (.pruned dir)
    return [dir]
  else
    Operation.note (.filledUp dir)
    return []

/-- Prune one directory after the directories below it. -/
def pruneDirectory (opts : PruneOptions) (pruneBelow : Path → Operation (List Path)) (dir : Path) :
    Operation (List Path) := do
  let below ← if opts.recursive then pruneBelow dir else pure []
  if ← isEmptyDirectory opts.transaction dir then
    return below ++ (← removeEmpty opts dir)
  else return below

/-- Prune one directory after another. -/
def pruneEach (pruneOne : Path → Operation (List Path)) : List Entry → Operation (List Path)
  | [] => pure []
  | e :: rest => do
    let removed ← pruneOne e.path
    return removed ++ (← pruneEach pruneOne rest)

/-- Prune the directories in `dir`. The result lists the removed paths in the order of removal. -/
def pruneChildren (opts : PruneOptions) : (levels : Nat) → Path → Operation (List Path)
  | 0, _ => throw .tooDeep
  | levels + 1, dir => do
    let entries ← childEntries opts.transaction dir
    pruneEach (pruneDirectory opts (pruneChildren opts levels)) (entries.filter isPrunable)

end Removal

/-- Remove the empty directories below `root`; the result lists them, deepest first in each branch.
-/
def pruneEmpty (levels : Nat) (opts : PruneOptions) (root : Path) : Operation (List Path) := do
  let root ← Operation.resolve root
  let info ← Operation.perform opts.transaction (.query root) (.ofNative root "query")
  if !info.isDirectory then Operation.fail (.notADirectory root)
  else
    Operation.note (.pruning root opts.recursive)
    let removed ← Removal.pruneChildren opts levels root
    Operation.note (.pruneFinished root removed.length)
    return removed

end TreeOps
