import TreeOps.CommandLine.Arguments

/-!
# Options of the command line

Each command knows options and takes positional arguments of its own; some options are known
everywhere.

Specification: §6, the command line.
-/

namespace TreeOps.CommandLine

/-- The names of the commands. -/
inductive CommandName where
  | list
  | delete
  | copy
  | move
  | prune
deriving DecidableEq, Repr

/-- The commands by name. -/
def commandNames : List (String × CommandName) :=
  [("list", .list), ("delete", .delete), ("copy", .copy), ("move", .move), ("prune", .prune)]

/-- The word that asks for help on a command. -/
def helpWord : String := "help"

/-- The options. -/
inductive OptionName where
  | debug
  | logLevel
  | json
  | logFile
  | help
  | version
  | printConfig
  | pattern
  | recursive
  | filesOnly
  | dirsOnly
  | followReparse
  | continueOnError
  | ignoreReadOnly
  | missingOk
  | overwrite
  | preserveTimestamps
  | replace
  | allowCopy
deriving DecidableEq, Repr

namespace OptionName

/-- The word of an option behind two dashes. -/
def long : OptionName → String
  | debug => "debug"
  | logLevel => "log-level"
  | json => "json"
  | logFile => "log-file"
  | help => "help"
  | version => "version"
  | printConfig => "print-config"
  | pattern => "pattern"
  | recursive => "recursive"
  | filesOnly => "files-only"
  | dirsOnly => "dirs-only"
  | followReparse => "follow-reparse"
  | continueOnError => "continue-on-error"
  | ignoreReadOnly => "ignore-read-only"
  | missingOk => "missing-ok"
  | overwrite => "overwrite"
  | preserveTimestamps => "preserve-timestamps"
  | replace => "replace"
  | allowCopy => "allow-copy"

/-- The letter of an option behind one dash. -/
def short? : OptionName → Option Char
  | debug => some 'd'
  | help => some 'h'
  | version => some 'V'
  | recursive => some 'r'
  | _ => none

/-- Whether a value follows the option. -/
def takesValue : OptionName → Bool
  | logLevel | logFile | pattern => true
  | _ => false

end OptionName

/-- Where options are read: in front of the command, or behind it. -/
inductive Scope where
  | program
  | command (name : CommandName)
deriving DecidableEq, Repr

/-- How many positional arguments there are. -/
inductive Arity where
  | exactly (count : Nat)
  | some
deriving DecidableEq, Repr

namespace Scope

/-- The options that are known in a scope. -/
def options (scope : Scope) : List OptionName :=
  let everywhere : List OptionName := [.debug, .logLevel, .json, .logFile, .help]
  everywhere ++ match scope with
    | program => [.version, .printConfig]
    | command .list =>
      [.pattern, .recursive, .filesOnly, .dirsOnly, .followReparse, .continueOnError]
    | command .delete => [.recursive, .ignoreReadOnly, .missingOk]
    | command .copy => [.overwrite, .preserveTimestamps]
    | command .move => [.replace, .allowCopy]
    | command .prune => [.recursive, .ignoreReadOnly]

/-- The positional arguments of a scope. -/
def arity : Scope → Arity
  | program => .exactly 0
  | command .list => .exactly 1
  | command .copy | command .move => .exactly 2
  | command .delete | command .prune => .some

/-- Options that exclude each other. -/
def conflicts : Scope → List (OptionName × OptionName)
  | command .list => [(.filesOnly, .dirsOnly)]
  | _ => []

end Scope

/-- Why a command line is refused, or answered at once. -/
inductive UsageError where
  | argumentConflict
  | missingRequiredArgument
  | unknownArgument
  | invalidSubcommand
  | invalidValue
  | valueValidation
  | tooManyValues
  | invalidUtf8
  | displayHelp
  | displayVersion
deriving DecidableEq, Repr

namespace UsageError

/-- The name of a kind of usage error. -/
def name : UsageError → String
  | argumentConflict => "ArgumentConflict"
  | missingRequiredArgument => "MissingRequiredArgument"
  | unknownArgument => "UnknownArgument"
  | invalidSubcommand => "InvalidSubcommand"
  | invalidValue => "InvalidValue"
  | valueValidation => "ValueValidation"
  | tooManyValues => "TooManyValues"
  | invalidUtf8 => "InvalidUtf8"
  | displayHelp => "DisplayHelp"
  | displayVersion => "DisplayVersion"

/-- The wording of a usage error. -/
def message : UsageError → String
  | argumentConflict => "an argument cannot be used again, or together with another one"
  | missingRequiredArgument => "a required argument is missing"
  | unknownArgument => "unexpected argument"
  | invalidSubcommand => "unrecognized command"
  | invalidValue => "an option needs a value"
  | valueValidation => "the value of an option is not valid"
  | tooManyValues => "a flag takes no value"
  | invalidUtf8 => "an argument is not valid text"
  | displayHelp | displayVersion => ""

/-- The exit code: only help and version are what the user wanted. -/
def exitCode : UsageError → Nat
  | displayHelp | displayVersion => 0
  | _ => 2

end UsageError

end TreeOps.CommandLine
