import TreeOps.Native.Code
import TreeOps.Path.Basic

/-!
# Errors of tree operations

Each kind of failure that an operation on trees distinguishes is one constructor, with the path that
the failure is about. `message` is the wording, `code` and `kind` identify the failure in structured
logs.

Specification: §7, `DirTreeError`.
-/

namespace TreeOps

/-- Why an operation on a tree failed. -/
inductive TreeError where
  | configuration (text : String)
  | sameSourceAndDestination (path : Path)
  | destinationInsideSource (source destination : Path)
  | sourceInsideDestination (source destination : Path)
  | notSameDevice (source destination : Path)
  | notADirectory (path : Path)
  | notFound (path : Path)
  | alreadyExists (path : Path)
  | directoryNotEmpty (path : Path)
  | retryExhausted (path : Path) (attempts : Nat) (code : NativeCode)
  | readOnly (path : Path)
  | accessDenied (path : Path)
  | sharingViolation (path : Path)
  | listingFailed (path : Path) (code : NativeCode)
  | native (path : Path) (operation : String) (error : NativeError)
  | invalidPattern (pattern reason : String)
deriving DecidableEq, Repr

namespace TreeError

/-- The wording of an error. -/
def message : TreeError → String
  | configuration text => "Invalid configuration: " ++ text
  | sameSourceAndDestination path =>
    "Source and destination resolve to the same path: " ++ path.text
  | destinationInsideSource source destination =>
    "Destination " ++ destination.text ++ " lies inside source " ++ source.text
  | sourceInsideDestination source destination =>
    "Source " ++ source.text ++ " lies inside destination " ++ destination.text
  | notSameDevice source destination =>
    source.text ++ " and " ++ destination.text
      ++ " are on different volumes and copying is not allowed"
  | notADirectory path => "Not a directory: " ++ path.text
  | notFound path => "Path not found: " ++ path.text
  | alreadyExists path => "Already exists: " ++ path.text
  | directoryNotEmpty path => "Directory not empty: " ++ path.text
  | retryExhausted path attempts code =>
    "Directory " ++ path.text ++ " still not removable after " ++ toString attempts
      ++ " attempts: " ++ code.text
  | readOnly path => "Read-only entry: " ++ path.text
  | accessDenied path => "Access denied: " ++ path.text
  | sharingViolation path => "Sharing violation (in use by another process): " ++ path.text
  | listingFailed path code => "Failed to list " ++ path.text ++ ": " ++ code.text
  | native path operation error =>
    operation ++ " '" ++ path.text ++ "' failed: " ++ error.text ++ error.code.hintSuffix
  | invalidPattern pattern reason =>
    "Invalid search pattern '" ++ pattern ++ "': " ++ reason

/-- The number of a kind of error. -/
def code : TreeError → Nat
  | configuration _ => 10
  | sameSourceAndDestination _ => 20
  | destinationInsideSource .. => 21
  | notSameDevice .. => 22
  | notADirectory _ => 23
  | sourceInsideDestination .. => 24
  | notFound _ => 30
  | alreadyExists _ => 31
  | directoryNotEmpty _ => 40
  | retryExhausted .. => 41
  | readOnly _ => 50
  | accessDenied _ => 51
  | sharingViolation _ => 60
  | listingFailed .. => 70
  | native .. => 80
  | invalidPattern .. => 90

/-- The name of a kind of error. -/
def kind : TreeError → String
  | configuration _ => "configuration"
  | sameSourceAndDestination _ => "same_source_and_destination"
  | destinationInsideSource .. => "destination_inside_source"
  | sourceInsideDestination .. => "source_inside_destination"
  | notSameDevice .. => "not_same_device"
  | notADirectory _ => "not_a_directory"
  | notFound _ => "not_found"
  | alreadyExists _ => "already_exists"
  | directoryNotEmpty _ => "directory_not_empty"
  | retryExhausted .. => "retry_exhausted"
  | readOnly _ => "read_only"
  | accessDenied _ => "access_denied"
  | sharingViolation _ => "sharing_violation"
  | listingFailed .. => "listing_failed"
  | native .. => "native"
  | invalidPattern .. => "invalid_pattern"

/-- The error for a primitive call on `path` that failed during `operation`. A code without a kind
of its own keeps the operation and the native error. -/
def ofNative (path : Path) (operation : String) (error : NativeError) : TreeError :=
  match error.code with
  | .fileNotFound | .pathNotFound => notFound path
  | .fileExists | .alreadyExists => alreadyExists path
  | .directoryNotEmpty => directoryNotEmpty path
  | .notADirectory => notADirectory path
  | .accessDenied => accessDenied path
  | .sharingViolation => sharingViolation path
  | _ => native path operation error

end TreeError

end TreeOps
