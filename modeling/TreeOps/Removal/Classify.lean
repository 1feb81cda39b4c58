import TreeOps.TreeError

/-!
# What a failed removal means

When a directory cannot be removed, the code of the failure and what is known of the directory
decide whether the removal is done anyway, worth another attempt, or has failed for good.

Specification: §4.2, step 4, and §9, `classify_remove_error`.
-/

namespace TreeOps.Removal

/-- What is known of a directory whose removal failed. -/
structure Context where
  /-- A directory with entries must not be touched. -/
  requireEmpty : Bool := false
  continueIfMissing : Bool := false
  ignoreReadOnly : Bool := false
  /-- The directory is read-only at the moment. -/
  readOnly : Bool := false
deriving DecidableEq, Repr

/-- What to do before another attempt. -/
inductive RetryAction where
  | pause
  | clearReadOnly
deriving DecidableEq, Repr

/-- A failure that no further attempt mends. -/
inductive Fatal where
  | directoryNotEmpty
  | notADirectory
  | notFound
  | sharingViolation
  | readOnly
  | accessDenied
  | native
deriving DecidableEq, Repr

/-- What a failed removal amounts to. -/
inductive Disposition where
  | success
  | retry (action : RetryAction)
  | fatal (kind : Fatal)
deriving DecidableEq, Repr

/-- The name of an action before another attempt. -/
def RetryAction.name : RetryAction → String
  | pause => "Immediately"
  | clearReadOnly => "ClearReadOnly"

/-- The name of a fatal failure. -/
def Fatal.name : Fatal → String
  | directoryNotEmpty => "DirectoryNotEmpty"
  | notADirectory => "NotADirectory"
  | notFound => "NotFound"
  | sharingViolation => "SharingViolation"
  | readOnly => "ReadOnly"
  | accessDenied => "AccessDenied"
  | native => "Native"

/-- The error for a fatal failure to remove the directory at `path`. -/
def Fatal.error (kind : Fatal) (path : Path) (cause : NativeError) : TreeError :=
  match kind with
  | directoryNotEmpty => .directoryNotEmpty path
  | notADirectory => .notADirectory path
  | notFound => .notFound path
  | sharingViolation => .sharingViolation path
  | readOnly => .readOnly path
  | accessDenied => .accessDenied path
  | native => .native path "remove directory" cause

/-- What the failure of a removal amounts to. -/
def classify (code : NativeCode) (context : Context) : Disposition :=
  match code with
  | .directoryNotEmpty =>
    if context.requireEmpty then .fatal .directoryNotEmpty else .retry .pause
  | .notADirectory => .fatal .notADirectory
  | .fileNotFound | .pathNotFound =>
    if context.continueIfMissing then .success else .fatal .notFound
  | .sharingViolation => .fatal .sharingViolation
  | .accessDenied =>
    if !context.readOnly then .fatal .accessDenied
    else if context.ignoreReadOnly then .retry .clearReadOnly
    else .fatal .readOnly
  | _ => .fatal .native

end TreeOps.Removal
