import TreeOps.CommandLine.Parse
import TreeOps.Config.Load
import TreeOps.Disk.Calls
import TreeOps.Log.Record

/-!
# A run of the program

A run works on a disk and tells the user things: lines of output, messages, and records for the log.
It ends well or with a failure, which may come from an operation on a tree.
-/

namespace TreeOps.App

/-- Something that a run tells. -/
inductive Output where
  /-- A line of the result proper. -/
  | result (line : String)
  /-- A message to the user. -/
  | message (text : String)
  /-- A record for the log. -/
  | log (record : LogRecord)
deriving DecidableEq, Repr

/-- Why a run failed. -/
inductive Failure where
  | tree (e : TreeError)
  | complaint (c : Complaint)
deriving DecidableEq, Repr

namespace Failure

/-- The failure with its causes. -/
def toComplaint : Failure → Complaint
  | tree e => ⟨e.message, []⟩
  | complaint c => c

/-- The failure on one line. -/
def line (f : Failure) : String := f.toComplaint.line

/-- Lines, of which the first is marked and the others are set in below it. -/
private def indented (mark indent text : String) : String :=
  match text.splitOn "\n" with
  | [] => mark
  | first :: rest => mark ++ first ++ String.join (rest.map fun l => "\n" ++ indent ++ l)

/-- The causes of a failure, numbered if there are several. -/
private def causeLines : List String → List String
  | [] => []
  | [cause] => [indented "    " "    " cause]
  | causes =>
    (causes.zip (List.range causes.length)).map fun (cause, n) =>
      let number := toString n
      let mark := String.ofList (List.replicate (5 - number.length) ' ') ++ number ++ ": "
      indented mark "       " cause

/-- The failure with its causes below it. -/
def report (f : Failure) : String :=
  let c := f.toComplaint
  match c.causes with
  | [] => c.message
  | causes =>
    c.message ++ "\n\nCaused by:" ++ String.join ((causeLines causes).map fun l => "\n" ++ l)

/-- The record of a failure. -/
def record : Failure → LogRecord
  | tree e =>
    ⟨.error, "dirtree::app", "operation failed",
      [("code", .number e.code), ("kind", .text e.kind), ("error", .text e.message)]⟩
  | complaint c => ⟨.error, "dirtree::app", "operation failed", [("error", .text c.line)]⟩

end Failure

/-- The state of a run: the disk, what was told so far, latest first, and whether the user has asked
to stop. -/
structure Session where
  disk : Disk
  told : List Output := []
  stop : StopFlag := {}

/-- A part of a run. -/
abbrev Run := ExceptT Failure (StateM Session)

namespace Run

variable {α : Type}

/-- Tell something. -/
def tell (o : Output) : Run Unit := modify fun s => { s with told := o :: s.told }

/-- Tell the user something that went well. -/
def success (text : String) : Run Unit := tell (.message ("ok: " ++ text))

/-- Tell the user something to know. -/
def info (text : String) : Run Unit := tell (.message ("info: " ++ text))

/-- Warn the user. -/
def warn (text : String) : Run Unit := tell (.message ("warn: " ++ text))

/-- Tell the user of an error. -/
def error (text : String) : Run Unit := tell (.message ("error: " ++ text))

/-- Write a record of the program itself. -/
def log (severity : Severity) (message : String) (fields : List (String × FieldValue)) : Run Unit :=
  tell (.log ⟨severity, "dirtree::app", message, fields⟩)

/-- The disk as it is. -/
def disk : Run Disk := do return (← get).disk

/-- Work on the disk. -/
def onDisk {ε : Type} (work : DiskWork ε α) : Run (Except ε α) := do
  let s ← get
  let (result, d) := work.run.run s.disk
  set { s with disk := d }
  return result

/-- The outcome of a part of a run, without ending the run if it fails. -/
def outcome (part : Run α) : Run (Except Failure α) :=
  ExceptT.mk (do return .ok (← part.run))

/-- The record of a completed entry. -/
def progressRecord (p : Progress) : LogRecord :=
  ⟨.debug, "dirtree::app", "progress",
    [("kind", .text p.kind.name), ("source", .text p.source.text),
      ("entries", .number p.entries.toNat)]⟩

/-- What an event of an operation adds to the log. -/
def eventRecord? (e : Event) : Option LogRecord :=
  match e.note? with
  | some n => some n.record
  | none => e.progress?.map progressRecord

/-- Run a program on the disk and log what it notes. A copy stops when the user has asked for it. -/
def program (p : Program α) : Run α := do
  let s ← get
  let listener : Listener := { progress := fun _ => s.stop.action }
  let (value, d, events) := Program.runRecorded (Disk.fileSystem.handler listener) p s.disk
  let records := (events.filterMap eventRecord?).map Output.log
  set { s with disk := d, told := records.reverse ++ s.told }
  return value

/-- Run an operation on the disk and log what it notes. -/
def operation (p : Operation α) : Run α := do
  match ← program p.run with
  | .ok a => return a
  | .error (.failed e) => throw (.tree e)
  | .error .tooDeep => throw (.complaint ⟨"the tree is nested too deeply", []⟩)

end Run

end TreeOps.App
