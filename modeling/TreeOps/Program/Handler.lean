import TreeOps.Program.Basic

/-!
# File systems and listeners

A file system answers primitive calls and resolves paths; a listener answers the questions that are
put to the caller of an operation. Together they handle every request. `Handler.recorded` also keeps
a journal of the requests with their answers, in order.
-/

namespace TreeOps

/-- What carries out primitive calls. -/
structure FileSystem (σ : Type) where
  call : Option Transaction → (c : Call) → σ → Except NativeError c.Result × σ
  resolve : Path → σ → Path

/-- What the caller of an operation decides while it runs. -/
structure Listener where
  /-- Whether a directory that could not be listed is skipped. -/
  accepts : Path → NativeError → Bool := fun _ _ => false
  /-- Whether a copy goes on after an entry. -/
  progress : Progress → ProgressAction := fun _ => .proceed

/-- A file system and a listener answer every request. -/
def FileSystem.handler {σ : Type} (fs : FileSystem σ) (listener : Listener) : Handler σ
  | .call tx c, s => fs.call tx c s
  | .resolve p, s => (fs.resolve p s, s)
  | .consult dir e, s => (listener.accepts dir e, s)
  | .report progress, s => (listener.progress progress, s)
  | .pause _, s => ((), s)
  | .note _, s => ((), s)

/-- A request with its answer. -/
structure Event where
  request : Request
  answer : request.Answer

/-- The handler that also writes a journal, latest event first. -/
def Handler.recorded {σ : Type} (h : Handler σ) : Handler (σ × List Event) :=
  fun request (s, journal) =>
    let (answer, s') := h request s
    (answer, (s', ⟨request, answer⟩ :: journal))

/-- Run a program and give its journal in order. -/
def Program.runRecorded {σ α : Type} (h : Handler σ) (p : Program α) (s : σ) :
    α × σ × List Event :=
  let (value, s', journal) := p.run h.recorded (s, [])
  (value, s', journal.reverse)

/-- Run an operation and give its journal in order. -/
def Operation.runRecorded {σ α : Type} (h : Handler σ) (p : Operation α) (s : σ) :
    Except Halt α × σ × List Event :=
  Program.runRecorded h (ExceptT.run p) s

namespace Event

/-- The note that an event leaves. -/
def note? : Event → Option Note
  | ⟨.note n, _⟩ => some n
  | _ => none

/-- The progress that an event reports. -/
def progress? : Event → Option Progress
  | ⟨.report p, _⟩ => some p
  | _ => none

/-- The question to the error filter in an event, with its answer. -/
def consultation? : Event → Option (Path × NativeError × Bool)
  | ⟨.consult dir e, accepted⟩ => some (dir, e, accepted)
  | _ => none

private def transactionSuffix : Option Transaction → String
  | some tx => " tx=" ++ toString tx.raw.toNat
  | none => ""

private def callText : Call → String
  | .list p => "list " ++ p.text
  | .query p => "query " ++ p.text
  | .createDirectory p => "create_dir " ++ p.text
  | .removeDirectory p => "remove_dir " ++ p.text
  | .deleteFile p => "delete_file " ++ p.text
  | .move s d replace => "move " ++ s.text ++ " -> " ++ d.text ++ " replace=" ++ toString replace
  | .copy s d f =>
    "copy " ++ s.text ++ " -> " ++ d.text ++ " overwrite=" ++ toString f.overwrite
      ++ " symlink=" ++ toString f.copySymlink ++ " timestamps=" ++ toString f.preserveTimestamps
  | .setAttributes p a => "set_attributes " ++ p.text ++ " " ++ toString a.bits.toNat
  | .unmount p => "unmount " ++ p.text
  | .sameVolume a b => "same_volume " ++ a.text ++ " " ++ b.text

/-- The line of an event in a trace of the calls on the file system. -/
def traceLine? : Event → Option String
  | ⟨.call tx c, _⟩ => some (callText c ++ transactionSuffix tx)
  | ⟨.resolve p, _⟩ => some ("resolve " ++ p.text)
  | _ => none

end Event

end TreeOps
