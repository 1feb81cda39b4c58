/-!
# Native codes

Every primitive call on a file system that fails reports a native code. The named codes have fixed
numbers; any other number is kept as it is.

Specification: §6, `NativeCode` and `NativeError`.
-/

namespace TreeOps

/-- Why a primitive call failed. -/
inductive NativeCode where
  | fileNotFound
  | pathNotFound
  | accessDenied
  | notSameDevice
  | sharingViolation
  | fileExists
  | directoryNotEmpty
  | alreadyExists
  | notADirectory
  | requestAborted
  | mountPointNotFound
  | other (number : Int32)
deriving DecidableEq, Repr

namespace NativeCode

/-- The number under which a code is reported. -/
def raw : NativeCode → UInt32
  | fileNotFound => 2
  | pathNotFound => 3
  | accessDenied => 5
  | notSameDevice => 17
  | sharingViolation => 32
  | fileExists => 80
  | directoryNotEmpty => 145
  | alreadyExists => 183
  | notADirectory => 267
  | requestAborted => 1235
  | mountPointNotFound => 4390
  | other number => number.toUInt32

/-- The codes that have a name of their own. -/
def named : List NativeCode :=
  [fileNotFound, pathNotFound, accessDenied, notSameDevice, sharingViolation, fileExists,
    directoryNotEmpty, alreadyExists, notADirectory, requestAborted, mountPointNotFound]

/-- The code with a given number. -/
def ofRaw (raw : UInt32) : NativeCode :=
  (named.find? fun code => code.raw == raw).getD (other raw.toInt32)

/-- Whether the code says that nothing is at the path. -/
def isNotFound : NativeCode → Bool
  | fileNotFound | pathNotFound => true
  | _ => false

/-- Whether the code says that something is at the path already. -/
def isAlreadyExists : NativeCode → Bool
  | fileExists | alreadyExists => true
  | _ => false

/-- What the code means, in words. -/
def meaning : NativeCode → String
  | fileNotFound => "file not found"
  | pathNotFound => "path not found"
  | accessDenied => "access denied"
  | notSameDevice => "not same device"
  | sharingViolation => "sharing violation"
  | fileExists | alreadyExists => "already exists"
  | directoryNotEmpty => "directory not empty"
  | notADirectory => "not a directory"
  | requestAborted => "request aborted"
  | mountPointNotFound => "mount point not found"
  | other _ => "native error"

/-- The meaning with the number. -/
def text (code : NativeCode) : String :=
  code.meaning ++ " (code " ++ toString code.raw.toNat ++ ")"

/-- The identifier of a code in structured answers. -/
def name : NativeCode → String
  | fileNotFound => "FileNotFound"
  | pathNotFound => "PathNotFound"
  | accessDenied => "AccessDenied"
  | notSameDevice => "NotSameDevice"
  | sharingViolation => "SharingViolation"
  | fileExists => "FileExists"
  | directoryNotEmpty => "DirNotEmpty"
  | alreadyExists => "AlreadyExists"
  | notADirectory => "NotADirectory"
  | requestAborted => "RequestAborted"
  | mountPointNotFound => "MountPointNotFound"
  | other number => "Other(" ++ toString number.toInt ++ ")"

/-- Advice on what to do about a code. -/
def hint : NativeCode → Option String
  | fileNotFound | pathNotFound => some "path not found; verify it exists"
  | accessDenied => some "permission denied; check ownership and write permissions"
  | notSameDevice => some "cross-filesystem; atomic rename not possible"
  | sharingViolation => some "resource busy; another process holds it open"
  | fileExists | alreadyExists => some "already exists; remove the target or allow replacing it"
  | directoryNotEmpty => some "directory still has entries"
  | notADirectory => some "expected a directory but found a file"
  | requestAborted => some "operation was canceled"
  | mountPointNotFound => some "nothing is mounted there"
  | other _ => none

/-- The advice as it is appended to a message. -/
def hintSuffix (code : NativeCode) : String :=
  match code.hint with
  | some hint => "; " ++ hint
  | none => ""

end NativeCode

/-- A failed primitive call: its code, and the error number of the host where there was one. -/
structure NativeError where
  code : NativeCode
  osCode : Option Int32 := none
deriving DecidableEq, Repr

instance : Coe NativeCode NativeError := ⟨fun code => ⟨code, none⟩⟩

/-- The host's error number as it is appended to a message. -/
def osCodeSuffix : Option Int32 → String
  | some number => " [os code: " ++ toString number.toInt ++ "]"
  | none => ""

/-- The code with the host's error number. -/
def NativeError.text (e : NativeError) : String :=
  e.code.text ++ osCodeSuffix e.osCode

end TreeOps
