import TreeOps.Disk.SystemCall

/-!
# Work on a disk

Work that takes several calls of the host keeps what was done before a call fails. A failure that is
told to the user has a message, and the causes below it.
-/

namespace TreeOps

/-- A failure with its causes, the outermost message first. -/
structure Complaint where
  message : String
  causes : List String := []
deriving DecidableEq, Repr

namespace Complaint

/-- The message and its causes on one line. -/
def line (c : Complaint) : String := ": ".intercalate (c.message :: c.causes)

end Complaint

/-- Work on a disk that fails with an error of type `ε`. -/
abbrev DiskWork (ε : Type) := ExceptT ε (StateM Disk)

namespace DiskWork

variable {ε α : Type}

/-- Look at the disk. -/
def look (f : Disk → α) : DiskWork ε α := do return f (← get)

/-- Make a call of the host that gives a value. -/
def ask (f : Disk → Except ε α) : DiskWork ε α := do
  match f (← get) with
  | .ok a => return a
  | .error e => throw e

/-- Make a call of the host that changes the disk. -/
def perform (f : Disk → Except ε Disk) : DiskWork ε Unit := do
  match f (← get) with
  | .ok d => set d
  | .error e => throw e

/-- Make a call of the host whose failure does not matter. -/
def tryPerform (f : Disk → Except HostError Disk) : DiskWork ε Unit := do
  match f (← get) with
  | .ok d => set d
  | .error _ => return

/-- Carry out work whose errors are of another type. -/
def mapError {δ : Type} (f : δ → ε) (work : DiskWork δ α) : DiskWork ε α :=
  ExceptT.mk (do
    match ← work.run with
    | .ok a => return .ok a
    | .error e => return .error (f e))

/-- Carry out work on files for a caller who knows native errors. -/
def native (work : DiskWork HostError α) : DiskWork NativeError α := work.mapError HostError.native

/-- Carry out work of which a failure is the cause of a complaint. -/
def because (message : String) (work : DiskWork HostError α) : DiskWork Complaint α :=
  work.mapError fun e => ⟨message, [e.text]⟩

end DiskWork

end TreeOps
