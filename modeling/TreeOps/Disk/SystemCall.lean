import TreeOps.Disk.Basic

/-!
# Calls of the host

Each call either changes the disk or fails with the host's error and changes nothing.
-/

namespace TreeOps.Disk

/-- The permission bits that a new file gets when `mode` is asked for: the owner alone may write. -/
def maskedMode (mode : Nat) : Nat := mode &&& 0o7755

/-- The bit by which a directory hands its group down. -/
def groupBit : Nat := 0o2000

/-- A place where something new can be made, and the directory it is in. -/
def freePlace (d : Disk) (p : Path) : Except HostError (Path × Path) := do
  let (dir, last) ← d.locate p
  match ← d.slot dir last with
  | some ⟨path, none⟩ => return (dir, path)
  | _ => throw .exists_

/-- Make a directory. It gets the group bit of the directory it is in. -/
def makeDirectory (d : Disk) (p : Path) : Except HostError Disk := do
  let (dir, path) ← d.freePlace p
  let inherited := ((d.nodes.find? dir).map Inode.mode).getD 0 &&& groupBit
  return d.put path (.directory (0o755 ||| inherited) {})

/-- Remove an empty directory. The root always stays. -/
def removeDirectory (d : Disk) (p : Path) : Except HostError Disk := do
  let (dir, last) ← d.locate p
  match ← d.slot dir last with
  | none => throw (if last = .here then .invalidArgument else .notEmpty)
  | some ⟨_, none⟩ => throw .noSuchEntry
  | some ⟨path, some i⟩ =>
    if !i.isDirectory then throw .notADirectory
    if d.hasEntries path then throw .notEmpty
    if last = .root then throw .busy
    return d.drop path

/-- Remove an entry that is no directory. -/
def removeFile (d : Disk) (p : Path) : Except HostError Disk := do
  let (dir, last) ← d.locate p
  match ← d.slot dir last with
  | none => throw .isADirectory
  | some ⟨_, none⟩ => throw .noSuchEntry
  | some ⟨path, some i⟩ =>
    if i.isDirectory then throw .isADirectory
    if wantsDirectory p.bytes then throw .notADirectory
    return d.drop path

/-- The disk with everything at and below one place at another. -/
def relocated (d : Disk) (source destination : Path) : Disk :=
  let moved := d.nodes.entries.filter fun e => e.1.startsWith source
  let place (p : Path) : Path :=
    let rest := p.relativeTo source
    if rest.bytes.isEmpty then destination else destination.join rest
  ⟨(d.nodes.filter fun p _ => !p.startsWith source).insertAll (moved.map fun e => (place e.1, e.2))⟩

/-- Refuse to put `i` in the place of `old`. -/
def checkReplaced (d : Disk) (i old : Inode) (path : Path) : Except HostError Unit :=
  if i.isDirectory then
    if !old.isDirectory then .error .notADirectory
    else if d.hasEntries path then .error .notEmpty
    else .ok ()
  else if old.isDirectory then .error .isADirectory
  else .ok ()

/-- Rename an entry. A file takes the place of a file, a directory that of an empty directory.
Nothing is moved below itself or put in the place of a directory that holds it. -/
def rename (d : Disk) (source destination : Path) : Except HostError Disk := do
  let (dir, last) ← d.locate source
  let (dir', last') ← d.locate destination
  if last = .here || last = .above || last' = .here || last' = .above then throw .busy
  match ← d.slot dir last with
  | some ⟨old, some i⟩ =>
    match ← d.slot dir' last' with
    | none => throw .busy
    | some ⟨new, target⟩ =>
      if !i.isDirectory && (wantsDirectory source.bytes || wantsDirectory destination.bytes) then
        throw .notADirectory
      if new.same old then return d
      if new.startsWith old then throw .invalidArgument
      if old.startsWith new then throw .notEmpty
      if let some other := target then d.checkReplaced i other new
      return (d.drop new).relocated old new
  | _ => throw .noSuchEntry

/-- Make a symbolic link. -/
def makeLink (d : Disk) (target : Bytes) (p : Path) : Except HostError Disk := do
  if target.contains 0 then throw unexpectedZero
  if target.isEmpty then throw .noSuchEntry
  let (_, path) ← d.freePlace p
  if wantsDirectory p.bytes then throw .noSuchEntry
  return d.put path (.link target)

/-- The target of a symbolic link. -/
def readLink (d : Disk) (p : Path) : Except HostError Bytes := do
  match ← d.lstat p with
  | .link target => return target
  | _ => throw .invalidArgument

/-- Set the permission bits of what a path leads to. -/
def setMode (d : Disk) (p : Path) (mode : Nat) : Except HostError Disk := do
  let (path, i) ← d.lookup true p
  return d.put path (i.withMode (mode &&& 0o7777))

/-- Set the time of change of what a path leads to. -/
def setModified (d : Disk) (p : Path) (time : Time) : Except HostError Disk := do
  let (path, i) ← d.lookup true p
  return d.put path (i.withModified time)

/-- The time of change of what a path leads to. -/
def modified (d : Disk) (p : Path) : Except HostError Time := do
  return (← d.stat p).modified

/-- The contents of a file. -/
def contents (d : Disk) (p : Path) : Except HostError Bytes := do
  match ← d.stat p with
  | .file _ data _ => return data
  | _ => throw .isADirectory

/-- The contents of a file that has to be text. -/
def readText (d : Disk) (p : Path) : Except HostError String := do
  match Utf8.text? (← d.contents p) with
  | some s => return s
  | none => throw (.message .invalidData "stream did not contain valid UTF-8")

/-- Make a file where nothing is. -/
def createFile (d : Disk) (p : Path) (mode : Nat) (data : Bytes) : Except HostError Disk := do
  let (_, path) ← d.freePlace p
  if wantsDirectory p.bytes then throw .isADirectory
  return d.put path (.file (maskedMode mode) data {})

/-- Change the contents of a file by `change`; a file that is missing is made with `mode`. -/
def writeWith (d : Disk) (p : Path) (mode : Nat) (change : Bytes → Bytes) :
    Except HostError Disk := do
  let place ← if wantsDirectory p.bytes then
      let _ ← d.locate p
      throw .isADirectory
    else d.reach true p
  match place.inode with
  | none => return d.put place.path (.file (maskedMode mode) (change []) {})
  | some (.file mode data _) => return d.put place.path (.file mode (change data) {})
  | some _ => throw .isADirectory

/-- The names in a directory, in order. -/
def readDirectory (d : Disk) (p : Path) : Except HostError (List Bytes) := do
  let (path, i) ← d.lookup true p
  if !i.isDirectory then throw .notADirectory
  return (d.nodes.children path).filterMap fun e => e.1.fileName

end TreeOps.Disk
