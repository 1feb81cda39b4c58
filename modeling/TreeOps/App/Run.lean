import TreeOps.App.Commands

/-!
# The program

A run reads the settings, applies the adjustments of the command line, opens the log and carries out
the command. What is told before the log is open goes to the user alone.

Specification: §10.4.
-/

namespace TreeOps.App

open Run

/-- The version of the program. -/
def version : String := "dirtree 0.1.0"

/-- A short help, which lists the commands with their options. -/
def help : List String :=
  let options (scope : CommandLine.Scope) : String :=
    String.join (scope.options.map fun o => " [--" ++ o.long ++ "]")
  ("usage: dirtree" ++ options .program ++ " <command>")
    :: CommandLine.commandNames.map fun (word, name) => "  " ++ word ++ options (.command name)

/-- Tell where the settings are looked for. -/
def tellSettingsPlace (e : Environment) : Run Unit := do
  let d ← disk
  match e.namedSettings d with
  | some p =>
    info ("Using " ++ Environment.settingsVariable ++ " (explicit):\n  " ++ p.text)
    info ("To override, unset " ++ Environment.settingsVariable ++ " or set it to another file.")
  | none =>
    match e.defaultSettings with
    | some p =>
      info ("Default dirtree config path:\n  " ++ p.text)
      if d.pathExists p then info "A config file already exists at that location."
      else info "No config file exists there yet; one is written on the next run."
    | none =>
      error ("Could not determine a default config path: " ++ Environment.noSettingsPlace)

/-- Open the log file; none of its ancestors may be a link. Whether it was opened. -/
def openLog (p : Path) : Run Bool := do
  match (← disk).linkAbove p with
  | .ok true =>
    warn ("refusing file logging: an ancestor of " ++ p.text ++ " is a symlink")
    return false
  | .error e =>
    warn ("cannot check log path " ++ p.text ++ " for symlinks: " ++ e.text)
    return false
  | .ok false =>
    match ← onDisk (Disk.appendLog p []) with
    | .ok () => return true
    | .error e =>
      warn ("failed to open log file " ++ p.text ++ ": " ++ e.text)
      return false

/-- Open the log that the settings ask for. Logging goes on without the file if that fails. -/
def startLogging (e : Environment) (c : Config) : Run Unit := do
  if let some p := c.logFile then
    if !(← openLog p) then
      warn ("file logging to '" ++ p.text ++ "' is disabled; logs continue on stderr")
      if let some standard := e.defaultLog then
        info ("the default log path is " ++ standard.text)

/-- Tell where the settings came from. -/
def tellLoaded : Loaded → Run Unit
  | .template p => success ("A template dirtree config was written to: " ++ p.text)
  | .file _ p => log .debug "loaded config" [("path", .text p.text)]
  | .defaults => log .debug "no config file; using defaults" []

/-- Carry out a command with its settings, and log a failure. -/
def carryOut (c : Config) (cmd : Command) : Run Unit := do
  log .debug "starting dirtree" [("command", .text cmd.describe)]
  match ← outcome (command c cmd) with
  | .ok () => return
  | .error f =>
    tell (.log f.record)
    throw f

/-- Read the settings, with the adjustments of the command line. -/
def settings (e : Environment) (a : Arguments) : Run (Loaded × Config) := do
  match ← onDisk (Config.load e) with
  | .error err => throw (.complaint err.toComplaint)
  | .ok loaded =>
    let c := a.override loaded.config
    if let some problem := c.problem? (← disk).isDirectory then throw (.tree problem)
    return (loaded, c)

/-- Run the program with the arguments of its command line. -/
def run (e : Environment) (a : Arguments) : Run LogLevel := do
  if a.printConfig then
    tellSettingsPlace e
    return .quiet
  match a.command with
  | none => throw (.complaint ⟨"no command given; run with --help for usage", []⟩)
  | some cmd =>
    let (loaded, c) ← settings e a
    let work : Run Unit := do
      startLogging e c
      tellLoaded loaded
      carryOut c cmd
    -- What is below the level that the log shows is dropped.
    let shown : Output → Bool
      | .log r => r.severity.shownAt c.logLevel.least
      | _ => true
    let result ← outcome work
    modify fun s => { s with told := s.told.filter shown }
    match result with
    | .ok () => return c.logLevel
    | .error f => throw f

/-- What a run leaves behind. -/
structure Finished where
  exitCode : Nat
  outputs : List Output
  disk : Disk

/-- Run the program with the words of its command line. -/
def main (e : Environment) (words : List Bytes) (d : Disk) : Finished :=
  match CommandLine.parse words with
  | .error .displayVersion => ⟨0, [.result version], d⟩
  | .error .displayHelp => ⟨0, help.map .result, d⟩
  | .error usage => ⟨usage.exitCode, [.message ("error: " ++ usage.message)], d⟩
  | .ok a =>
    let (result, s) := (run e a).run.run { disk := d }
    match result with
    | .ok _ => ⟨0, s.told.reverse, s.disk⟩
    | .error f => ⟨1, (.message ("Error: " ++ f.report) :: s.told).reverse, s.disk⟩

end TreeOps.App
