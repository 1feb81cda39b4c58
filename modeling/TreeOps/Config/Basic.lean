import TreeOps.Removal.Delete
import TreeOps.Text.Blank
import TreeOps.Text.Lowercase

/-!
# Settings

The settings of the program, with their defaults and the limits that no markup expresses.

Specification: §10.3, `Config`.
-/

namespace TreeOps

/-- How much the program tells. -/
inductive LogLevel where
  | quiet
  | normal
  | info
  | debug
deriving DecidableEq, Repr, Inhabited

namespace LogLevel

/-- The name under which a level is shown. -/
def name : LogLevel → String
  | quiet => "quiet"
  | normal => "normal"
  | info => "info"
  | debug => "debug"

/-- Every name of a level. -/
def names : List (String × LogLevel) :=
  [("quiet", quiet), ("error", quiet), ("none", quiet), ("normal", normal), ("info", info),
    ("verbose", info), ("detailed", info), ("debug", debug), ("trace", debug)]

/-- Read a level by name, without regard to blanks around it and the case of ASCII letters. -/
def ofText? (s : String) : Option LogLevel :=
  names.lookup (Text.asciiLowercase (Text.trim s))

/-- The complaint about a text that is no level. -/
def complaint (s : String) : String := "invalid log level: '" ++ s ++ "'"

/-- The least severity that a log of this level shows. -/
def least : LogLevel → Severity
  | quiet => .error
  | normal => .info
  | info => .debug
  | debug => .trace

end LogLevel

/-- The settings of the program. -/
structure Config where
  logLevel : LogLevel := .normal
  logFile : Option Path := none
  /-- How often the removal of a directory is attempted. -/
  retryAttempts : Nat := 10
  /-- The pause between two attempts, in milliseconds. -/
  retryDelay : Nat := 10
  /-- Go on past directories that cannot be listed. -/
  continueOnError : Bool := false
  /-- Do not enter links to directories. -/
  skipReparsePoints : Bool := true
  /-- Clear the read-only attribute where it is in the way. -/
  ignoreReadOnly : Bool := false
deriving DecidableEq, Repr, Inhabited

namespace Config

/-- The retry policy of the settings. -/
def retryPolicy (c : Config) : RetryPolicy := .bounded c.retryAttempts c.retryDelay

/-- Why the program cannot run with the settings, if so. -/
def problem? (c : Config) (isDirectory : Path → Bool) : Option TreeError :=
  if c.retryAttempts = 0 then some (.configuration "retry_attempts must be at least 1")
  else
    match c.logFile with
    | none => none
    | some log =>
      if log.bytes.isEmpty then some (.configuration "log_file must not be empty")
      else if isDirectory log then
        some (.configuration ("log_file '" ++ log.text ++ "' is a directory"))
      else none

end Config

end TreeOps
