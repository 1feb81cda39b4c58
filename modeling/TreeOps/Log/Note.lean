import TreeOps.Log.Record
import TreeOps.Native.Code
import TreeOps.Path.Basic

/-!
# Notes

While an operation on a tree runs it notes what it does. A note has a constructor for each event;
`Note.record` is the record that a log shows for it.

Specification: §10.1.
-/

namespace TreeOps

/-- Something an operation did or found. -/
inductive Note where
  | startingWalk (root : Path) (pattern : String) (recursive : Bool)
  | skippingSubtree (path : Path) (code : NativeCode)
  | endingWalk (path : Path) (code : NativeCode)
  | createdDirectory (path : Path)
  | deletingDirectory (path : Path) (recursive : Bool)
  | alreadyGone (path : Path)
  | removedDirectory (path : Path) (attempts : Nat)
  | removalFailed (path : Path) (attempt : Nat) (code : NativeCode)
  | unmounted (path : Path)
  | nothingMounted (path : Path)
  | clearingReadOnly (path : Path)
  | fileAlreadyGone (path : Path)
  | deletedFile (path : Path)
  | pruning (path : Path) (recursive : Bool)
  | pruned (path : Path)
  | filledUp (path : Path)
  | pruneFinished (path : Path) (removed : Nat)
  | copyingTree (source destination : Path)
  | movingTree (source destination : Path)
  | copied (source destination : Path) (bytes : UInt64)
  | canceled (entries : UInt64)
  | moveCanceled (source : Path)
  | renamedTree (source destination : Path)
  | renameCrossedVolumes (source destination : Path)
  | removingDestination (destination : Path)
  | movedByCopy (source destination : Path)
deriving DecidableEq, Repr

namespace Note

private def path (p : Path) : String × FieldValue := ("path", .text p.text)

private def code (c : NativeCode) : String × FieldValue := ("code", .text c.text)

private def ends (source destination : Path) : List (String × FieldValue) :=
  [("src", .text source.text), ("dest", .text destination.text)]

private def walker (severity : Severity) (message : String) (fields : List (String × FieldValue)) :
    LogRecord := ⟨severity, "dirtree::fs_ops::walker", message, fields⟩

private def delete (severity : Severity) (message : String) (fields : List (String × FieldValue)) :
    LogRecord := ⟨severity, "dirtree::fs_ops::delete", message, fields⟩

private def prune (severity : Severity) (message : String) (fields : List (String × FieldValue)) :
    LogRecord := ⟨severity, "dirtree::fs_ops::prune", message, fields⟩

private def transfer (severity : Severity) (message : String)
    (fields : List (String × FieldValue)) : LogRecord :=
  ⟨severity, "dirtree::fs_ops::transfer", message, fields⟩

/-- The record of a note. -/
def record : Note → LogRecord
  | startingWalk root pattern recursive =>
    walker .debug "starting walk"
      [("root", .text root.text), ("pattern", .text pattern), ("recursive", .flag recursive)]
  | skippingSubtree p c => walker .warn "skipping subtree that could not be listed" [path p, code c]
  | endingWalk p c => walker .debug "listing failed; ending walk" [path p, code c]
  | createdDirectory p => ⟨.debug, "dirtree::fs_ops::create", "created directory", [path p]⟩
  | deletingDirectory p recursive =>
    delete .info "deleting directory" [path p, ("recursive", .flag recursive)]
  | alreadyGone p => delete .debug "already gone" [path p]
  | removedDirectory p attempts =>
    delete .debug "removed directory" [path p, ("attempts", .number attempts)]
  | removalFailed p attempt c =>
    delete .warn "directory removal failed; retrying" [path p, ("attempt", .number attempt), code c]
  | unmounted p => delete .info "unmounted volume before removal" [path p]
  | nothingMounted p => delete .debug "nothing mounted" [path p]
  | clearingReadOnly p => delete .debug "clearing read-only attribute" [path p]
  | fileAlreadyGone p => delete .debug "file already gone" [path p]
  | deletedFile p => delete .debug "deleted file" [path p]
  | pruning p recursive =>
    prune .info "pruning empty directories" [path p, ("recursive", .flag recursive)]
  | pruned p => prune .debug "pruned empty directory" [path p]
  | filledUp p => prune .debug "directory filled up before removal" [path p]
  | pruneFinished p removed => prune .info "prune finished" [path p, ("removed", .number removed)]
  | copyingTree s d => transfer .info "copying directory tree" (ends s d)
  | movingTree s d => transfer .info "moving directory tree" (ends s d)
  | copied s d bytes => transfer .debug "copied" (ends s d ++ [("bytes", .number bytes.toNat)])
  | canceled entries =>
    transfer .info "transfer canceled by progress callback" [("entries", .number entries.toNat)]
  | moveCanceled s => transfer .warn "move canceled; source left in place" [("src", .text s.text)]
  | renamedTree s d => transfer .info "renamed directory tree" (ends s d)
  | renameCrossedVolumes s d =>
    transfer .warn "rename crossed volumes; falling back to copy and delete" (ends s d)
  | removingDestination d =>
    transfer .debug "removing existing destination" [("dest", .text d.text)]
  | movedByCopy s d => transfer .info "moved directory tree by copy and delete" (ends s d)

end Note

end TreeOps
