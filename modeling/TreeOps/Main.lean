import TreeOps.App.Run
import TreeOps.Disk.Outline

/-!
# The command line

The program as it is run: the words of the command line, the variables that say where files are, and
the outline of the tree to work on, which is read from the standard input. Results go to the
standard output, messages and log records to the standard error.
-/

open TreeOps

/-- Read the lines that are left of a stream. -/
partial def readLines (input : IO.FS.Stream) (before : List Bytes) : IO (List Bytes) := do
  let line ← input.getLine
  if line.isEmpty then return before.reverse
  let text := Utf8.encode line
  readLines input ((if text.getLast? = some 0x0a then text.dropLast else text) :: before)

/-- The value of a variable of the environment. -/
def readVariable (name : String) : IO (Option Bytes) := do
  return (← IO.getEnv name).map Utf8.encode

/-- Run the program. -/
def main (words : List String) : IO UInt32 := do
  let environment : Environment :=
    { settings := ← readVariable Environment.settingsVariable
      home := ← readVariable "HOME"
      configHome := ← readVariable "XDG_CONFIG_HOME"
      dataHome := ← readVariable "XDG_DATA_HOME" }
  let disk := Disk.ofOutline (← readLines (← IO.getStdin) [])
  let finished := App.main environment (words.map Utf8.encode) disk
  for output in finished.outputs do
    match output with
    | .result line => IO.println line
    | .message text => IO.eprintln text
    | .log record => IO.eprintln record.line
  return UInt32.ofNat finished.exitCode
