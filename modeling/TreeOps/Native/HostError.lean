import TreeOps.Native.Code
import TreeOps.Native.HostErrorTexts
import TreeOps.Path.Basic

/-!
# Errors of the host

An error of the host either carries the number that the system call left behind, or only a kind and
perhaps a text. `HostError.native` is the native error that it amounts to.

Specification: §6, how the numbers of the host become native codes.
-/

namespace TreeOps

/-- The kinds of host errors. -/
inductive HostErrorKind where
  | notFound
  | permissionDenied
  | alreadyExists
  | directoryNotEmpty
  | notADirectory
  | crossesDevices
  | resourceBusy
  | interrupted
  | invalidInput
  | timedOut
  | unexpectedEof
  | wouldBlock
  | invalidData
  | other
deriving DecidableEq, Repr

/-- The text of a kind on its own. -/
def HostErrorKind.text : HostErrorKind → String
  | notFound => "entity not found"
  | permissionDenied => "permission denied"
  | alreadyExists => "entity already exists"
  | directoryNotEmpty => "directory not empty"
  | notADirectory => "not a directory"
  | crossesDevices => "cross-device link or rename"
  | resourceBusy => "resource busy"
  | interrupted => "operation interrupted"
  | invalidInput => "invalid input parameter"
  | timedOut => "timed out"
  | unexpectedEof => "unexpected end of file"
  | wouldBlock => "operation would block"
  | invalidData => "invalid data"
  | other => "other error"

/-- A failure that the host reports. -/
inductive HostError where
  | system (number : Int32)
  | kind (kind : HostErrorKind)
  | message (kind : HostErrorKind) (text : String)
deriving DecidableEq, Repr

namespace HostError

/-- Nothing is at the path. -/
def noSuchEntry : HostError := system 2

/-- Something is in use. -/
def busy : HostError := system 16

/-- Something is where a new entry should be made. -/
def exists_ : HostError := system 17

/-- A file is where a directory is needed. -/
def notADirectory : HostError := system 20

/-- A directory is where a file is needed. -/
def isADirectory : HostError := system 21

/-- What is asked for makes no sense. -/
def invalidArgument : HostError := system 22

/-- A path, or a name in it, is too long. -/
def nameTooLong : HostError := system 36

/-- A directory that should be removed holds something. -/
def notEmpty : HostError := system 39

/-- A path leads through too many links. -/
def tooManyLinks : HostError := system 40

/-- Whether the error says that nothing is at the path. -/
def isNotFound : HostError → Bool
  | system number => number == 2
  | kind k => k == .notFound
  | message k _ => k == .notFound

/-- The text of an error number. -/
def numberText (number : Int32) : String :=
  match hostErrorTexts.lookup number with
  | some text => text
  | none => "Unknown error " ++ toString number.toInt

/-- What the host says about the error. -/
def text : HostError → String
  | system number => numberText number ++ " (os error " ++ toString number.toInt ++ ")"
  | kind k => k.text
  | message _ text => text

/-- The number of the error, where there is one. -/
def osCode : HostError → Option Int32
  | system number => some number
  | _ => none

end HostError

namespace NativeCode

/-- The native code for an error number of the host. -/
def ofErrorNumber (number : Int32) : NativeCode :=
  if number = 2 then pathNotFound
  else if number = 13 ∨ number = 1 ∨ number = 21 ∨ number = 30 then accessDenied
  else if number = 18 then notSameDevice
  else if number = 16 ∨ number = 26 then sharingViolation
  else if number = 17 then alreadyExists
  else if number = 39 then directoryNotEmpty
  else if number = 20 then notADirectory
  else if number = 125 then requestAborted
  else other number

/-- The native code for an error of the host without a number. -/
def ofKind : HostErrorKind → NativeCode
  | .notFound => pathNotFound
  | .permissionDenied => accessDenied
  | .alreadyExists => alreadyExists
  | .directoryNotEmpty => directoryNotEmpty
  | .notADirectory => notADirectory
  | .crossesDevices => notSameDevice
  | .resourceBusy => sharingViolation
  | .interrupted => requestAborted
  | _ => other (-1)

end NativeCode

namespace HostError

/-- The native error for an error of the host. -/
def native : HostError → NativeError
  | system number => ⟨.ofErrorNumber number, some number⟩
  | kind k => ⟨.ofKind k, none⟩
  | message k _ => ⟨.ofKind k, none⟩

/-- A message about an error: the action, the path, the host's text, advice and the number. -/
def helpText (e : HostError) (action : String) (path : Path) : String :=
  action ++ " '" ++ path.text ++ "': " ++ e.text ++ e.native.code.hintSuffix
    ++ osCodeSuffix e.osCode

end HostError

end TreeOps
