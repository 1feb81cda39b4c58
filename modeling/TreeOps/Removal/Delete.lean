import TreeOps.Removal.Classify
import TreeOps.Walk

/-!
# Deleting trees

Each directory of a tree is queried afresh, unmounted if a volume is mounted on it, freed of its
read-only attribute if that is allowed, emptied and removed. A link is removed as it is, and entered
only where a volume is mounted on it. A removal that fails is classified, and attempted again within
the bound of the retry policy. The first failure for good ends the whole delete; what was removed
before stays removed.

The argument `levels` of a recursive operation is the number of nested directories that it may
follow.

Specification: §4.2, `delete_directory` and `delete_file`.
-/

namespace TreeOps

/-- How often the removal of one directory is attempted. -/
structure RetryPolicy where
  attempts : Nat := 10
  /-- The pause between two attempts, in milliseconds. -/
  delay : Nat := 10
deriving DecidableEq, Repr, Inhabited

/-- A policy with one attempt at least. -/
def RetryPolicy.bounded (attempts delay : Nat) : RetryPolicy := ⟨max attempts 1, delay⟩

/-- What a delete may do. -/
structure DeleteOptions where
  recursive : Bool
  /-- Clear the read-only attribute where it is in the way. -/
  ignoreReadOnly : Bool := false
  /-- A delete that is not recursive refuses a directory with entries at once. -/
  requireEmptyIfNotRecursive : Bool := !recursive
  /-- A root that is gone already is no failure. -/
  continueIfMissing : Bool := false
  transaction : Option Transaction := none
  retry : RetryPolicy := {}
deriving DecidableEq, Repr

namespace Removal

/-- Clear the read-only attribute of an entry with the given attributes. -/
def clearReadOnly (tx : Option Transaction) (path : Path) (attributes : Attributes) :
    Operation Unit := do
  Operation.note (.clearingReadOnly path)
  Operation.perform tx (.setAttributes path (attributes.without .readOnly))
    (.ofNative path "set attributes")

/-- Detach the volume mounted at a path. Nothing mounted there is no failure. -/
def unmount (tx : Option Transaction) (path : Path) : Operation Unit := do
  match ← Operation.attempt tx (.unmount path) with
  | .ok () => Operation.note (.unmounted path)
  | .error e =>
    if e.code = .mountPointNotFound then Operation.note (.nothingMounted path)
    else Operation.fail (.native path "unmount" e)

/-- Delete a file again after its read-only attribute was cleared. -/
def deleteCleared (tx : Option Transaction) (path : Path) (attributes : Attributes) :
    Operation Unit := do
  clearReadOnly tx path attributes
  match ← Operation.attempt tx (.deleteFile path) with
  | .ok () => Operation.note (.deletedFile path)
  | .error e =>
    if e.code.isNotFound then Operation.note (.deletedFile path)
    else Operation.fail (.ofNative path "delete file" e)

/-- Delete one entry that is no directory and has the given attributes. -/
def removeFile (tx : Option Transaction) (path : Path) (attributes : Attributes)
    (ignoreReadOnly : Bool) : Operation Unit := do
  if attributes.isReadOnly && !ignoreReadOnly then Operation.fail (.readOnly path)
  else
    match ← Operation.attempt tx (.deleteFile path) with
    | .ok () => Operation.note (.deletedFile path)
    | .error e =>
      if e.code.isNotFound then Operation.note (.fileAlreadyGone path)
      else if e.code = .accessDenied && attributes.isReadOnly then
        deleteCleared tx path attributes
      else Operation.fail (.ofNative path "delete file" e)

/-- Remove every child of `dir`, its directories by `deleteChild`. A directory that has vanished is
left to the removal of the directory itself. -/
def emptyDirectory (opts : DeleteOptions) (deleteChild : Path → Operation Unit) (dir : Path) :
    Operation Unit := do
  match ← listEntries opts.transaction dir with
  | .ok entries =>
    entries.forM fun e =>
      if e.isDirectory then deleteChild e.path
      else removeFile opts.transaction e.path e.attributes opts.ignoreReadOnly
  | .error code =>
    if code.isNotFound then pure () else Operation.fail (.listingFailed dir code)

/-- Empty and remove a directory, with `retries` further attempts after the current one. -/
def removeRepeatedly (opts : DeleteOptions) (context : Context) (path : Path)
    (attributes : Attributes) (emptyIt : Operation Unit) (retries attempt : Nat) :
    Operation Unit := do
  emptyIt
  match ← Operation.attempt opts.transaction (.removeDirectory path) with
  | .ok () => Operation.note (.removedDirectory path attempt)
  | .error e =>
    match classify e.code context with
    | .success => pure ()
    | .fatal kind => Operation.fail (kind.error path e)
    | .retry action =>
      match retries with
      | 0 => Operation.fail (.retryExhausted path attempt e.code)
      | retries + 1 =>
        Operation.note (.removalFailed path attempt e.code)
        match action with
        | .pause =>
          if opts.retry.delay ≠ 0 then
            ExceptT.lift (Program.request (.pause opts.retry.delay))
          removeRepeatedly opts context path attributes emptyIt retries (attempt + 1)
        | .clearReadOnly =>
          clearReadOnly opts.transaction path attributes
          removeRepeatedly opts { context with readOnly := false } path attributes emptyIt retries
            (attempt + 1)

/-- Make the read-only attribute of a directory no hindrance, or fail. -/
def releaseReadOnly (opts : DeleteOptions) (path : Path) (info : Entry) : Operation Unit := do
  if info.isReadOnly then
    if opts.ignoreReadOnly then clearReadOnly opts.transaction path info.attributes
    else Operation.fail (.readOnly path)

/-- Delete the directory at `path`. -/
def deleteNode (opts : DeleteOptions) :
    (levels : Nat) → (continueIfMissing : Bool) → Path → Operation Unit
  | 0, _, _ => throw .tooDeep
  | levels + 1, continueIfMissing, path => do
    match ← Operation.attempt opts.transaction (.query path) with
    | .error e =>
      if e.code.isNotFound && continueIfMissing then Operation.note (.alreadyGone path)
      else Operation.fail (.ofNative path "query" e)
    | .ok info =>
      if !info.isDirectory then Operation.fail (.notADirectory path)
      else
        if info.isMountPoint then unmount opts.transaction path
        releaseReadOnly opts path info
        let descends := opts.recursive && (!info.isReparsePoint || info.isMountPoint)
        let context : Context :=
          { requireEmpty := !opts.recursive && opts.requireEmptyIfNotRecursive
            continueIfMissing
            ignoreReadOnly := opts.ignoreReadOnly }
        let emptyIt :=
          if descends then emptyDirectory opts (deleteNode opts levels true) path else pure ()
        removeRepeatedly opts context path info.attributes emptyIt (opts.retry.attempts - 1) 1

/-- Delete the directory at a canonical path. -/
def deleteResolved (levels : Nat) (opts : DeleteOptions) (root : Path) : Operation Unit :=
  deleteNode opts levels opts.continueIfMissing root

end Removal

/-- Delete the directory at `root`. -/
def deleteDirectory (levels : Nat) (opts : DeleteOptions) (root : Path) : Operation Unit := do
  let root ← Operation.resolve root
  Operation.note (.deletingDirectory root opts.recursive)
  Removal.deleteResolved levels opts root

/-- Delete the directory at `root` with everything below it. -/
def deleteTree (levels : Nat) (root : Path) : Operation Unit :=
  deleteDirectory levels { recursive := true } root

/-- Delete one file. A file that is missing is no failure. -/
def deleteFile (tx : Option Transaction) (path : Path) (ignoreReadOnly : Bool) :
    Operation Unit := do
  let path ← Operation.resolve path
  match ← Operation.attempt tx (.query path) with
  | .ok info => Removal.removeFile tx path info.attributes ignoreReadOnly
  | .error e =>
    if e.code.isNotFound then pure () else Operation.fail (.ofNative path "query" e)

end TreeOps
