import TreeOps.Config.Basic
import TreeOps.Text.Quoted

/-!
# What a command line asks for

A command line names a command with its arguments and adjusts some settings. Options that are given
win over the settings that were read.

Specification: §6, the command line.
-/

namespace TreeOps

/-- List the entries below a directory. -/
structure ListArguments where
  root : Path
  pattern : String
  recursive : Bool
  filesOnly : Bool
  dirsOnly : Bool
  followReparse : Bool
  continueOnError : Bool
deriving DecidableEq, Repr

/-- Delete directories or files. -/
structure DeleteArguments where
  paths : List Path
  recursive : Bool
  ignoreReadOnly : Bool
  /-- A target that is missing counts as deleted. -/
  missingOk : Bool
deriving DecidableEq, Repr

/-- Copy a tree. -/
structure CopyArguments where
  source : Path
  destination : Path
  overwrite : Bool
  preserveTimestamps : Bool
deriving DecidableEq, Repr

/-- Move a tree. -/
structure MoveArguments where
  source : Path
  destination : Path
  replace : Bool
  allowCopy : Bool
deriving DecidableEq, Repr

/-- Remove empty directories. -/
structure PruneArguments where
  roots : List Path
  recursive : Bool
  ignoreReadOnly : Bool
deriving DecidableEq, Repr

/-- A command with its arguments. -/
inductive Command where
  | list (a : ListArguments)
  | delete (a : DeleteArguments)
  | copy (a : CopyArguments)
  | move (a : MoveArguments)
  | prune (a : PruneArguments)
deriving DecidableEq, Repr

namespace Command

/-- Named fields of a record on one line. -/
private def fields (name : String) (fs : List (String × String)) : String :=
  name ++ " \x7b " ++ ", ".intercalate (fs.map fun (f, v) => f ++ ": " ++ v) ++ " \x7d"

private def path (p : Path) : String := Text.quotedBytes p.bytes

private def paths (ps : List Path) : String := "[" ++ ", ".intercalate (ps.map path) ++ "]"

/-- The command and its arguments on one line. -/
def describe : Command → String
  | list a =>
    "List(" ++ fields "ListArgs"
      [("root", path a.root), ("pattern", Text.quoted a.pattern),
        ("recursive", toString a.recursive), ("files_only", toString a.filesOnly),
        ("dirs_only", toString a.dirsOnly), ("follow_reparse", toString a.followReparse),
        ("continue_on_error", toString a.continueOnError)] ++ ")"
  | delete a =>
    "Delete(" ++ fields "DeleteArgs"
      [("paths", paths a.paths), ("recursive", toString a.recursive),
        ("ignore_read_only", toString a.ignoreReadOnly),
        ("missing_ok", toString a.missingOk)] ++ ")"
  | copy a =>
    "Copy(" ++ fields "CopyArgs"
      [("source", path a.source), ("destination", path a.destination),
        ("overwrite", toString a.overwrite),
        ("preserve_timestamps", toString a.preserveTimestamps)] ++ ")"
  | move a =>
    "Move(" ++ fields "MoveArgs"
      [("source", path a.source), ("destination", path a.destination),
        ("replace", toString a.replace), ("allow_copy", toString a.allowCopy)] ++ ")"
  | prune a =>
    "Prune(" ++ fields "PruneArgs"
      [("roots", paths a.roots), ("recursive", toString a.recursive),
        ("ignore_read_only", toString a.ignoreReadOnly)] ++ ")"

end Command

/-- What a command line asks for. -/
structure Arguments where
  debug : Bool
  logLevel : Option LogLevel
  json : Bool
  logFile : Option Path
  printConfig : Bool
  command : Option Command
deriving DecidableEq, Repr

namespace Arguments

/-- The log level that is asked for; the debug option wins. -/
def effectiveLogLevel (a : Arguments) : Option LogLevel :=
  if a.debug then some .debug else a.logLevel

/-- The settings with the adjustments of a command. -/
def overrideCommand (command : Option Command) (c : Config) : Config :=
  match command with
  | some (.list a) =>
    { c with
      skipReparsePoints := c.skipReparsePoints && !a.followReparse
      continueOnError := c.continueOnError || a.continueOnError }
  | some (.delete a) => { c with ignoreReadOnly := c.ignoreReadOnly || a.ignoreReadOnly }
  | some (.prune a) => { c with ignoreReadOnly := c.ignoreReadOnly || a.ignoreReadOnly }
  | _ => c

/-- The settings with the adjustments of a command line. -/
def override (a : Arguments) (c : Config) : Config :=
  overrideCommand a.command
    { c with
      logLevel := a.effectiveLogLevel.getD c.logLevel
      logFile := a.logFile.or c.logFile }

end Arguments

end TreeOps
