import TreeOps.Path.Basic

/-!
# Progress of a copy or move

Every completed entry of a copy or move is reported, with the totals so far. The totals have 64 bits
and wrap around. The listener answers whether to go on.

Specification: §4.3, `CopyProgress` and `ProgressAction`.
-/

namespace TreeOps

/-- What was completed. -/
inductive ProgressKind where
  | directoryCreated
  | fileCopied
  | linkCopied
  | treeMoved
deriving DecidableEq, Repr

/-- The name of a kind of progress. -/
def ProgressKind.name : ProgressKind → String
  | directoryCreated => "DirectoryCreated"
  | fileCopied => "FileCopied"
  | linkCopied => "LinkCopied"
  | treeMoved => "TreeMoved"

/-- One completed entry with the totals up to and including it. -/
structure Progress where
  kind : ProgressKind
  source : Path
  destination : Path
  entryBytes : UInt64
  entries : UInt64
  bytes : UInt64
deriving DecidableEq, Repr

/-- The answer of a listener. -/
inductive ProgressAction where
  | proceed
  | cancel
deriving DecidableEq, Repr, Inhabited

/-- A flag by which the user asks what is running to stop after the current entry. -/
structure StopFlag where
  isRequested : Bool := false
deriving DecidableEq, Repr

namespace StopFlag

/-- Ask to stop. -/
def request (_ : StopFlag) : StopFlag := ⟨true⟩

/-- Take the request back. -/
def reset (_ : StopFlag) : StopFlag := ⟨false⟩

/-- What a listener answers that only heeds the flag. -/
def action (f : StopFlag) : ProgressAction := if f.isRequested then .cancel else .proceed

end StopFlag

end TreeOps
