import TreeOps.Config.Location
import TreeOps.Config.Template

/-!
# Loading settings

Settings that are named explicitly have to be there. Otherwise the standard place is looked at, and
a template is left there when there is nothing yet.

Specification: §10.3, where the file is and the template.
-/

namespace TreeOps

/-- Why settings could not be loaded. -/
inductive LoadError where
  | complaint (c : Complaint)
  | document (file : Path) (e : Config.ReadError)
deriving DecidableEq, Repr

namespace LoadError

/-- The wording for a file whose contents are no settings. -/
def documentMessage (file : Path) : String := "parse config xml '" ++ file.text ++ "'"

/-- The failure with its causes. -/
def toComplaint : LoadError → Complaint
  | complaint c => c
  | document file e =>
    ⟨documentMessage file, [if e = .malformed then "malformed document" else e.message]⟩

end LoadError

/-- Where the settings come from. -/
inductive Loaded where
  | file (config : Config) (path : Path)
  | defaults
  | template (path : Path)
deriving DecidableEq, Repr

/-- The settings. -/
def Loaded.config : Loaded → Config
  | file config _ => config
  | defaults => {}
  | template _ => {}

namespace Config

open DiskWork

/-- Load the settings in a file. -/
def ofFile (p : Path) : DiskWork LoadError Config := do
  let text ← ((ask fun d => d.readText p).because ("read config xml '" ++ p.text ++ "'")).mapError
    LoadError.complaint
  match Config.ofDocument text with
  | .ok c => return c
  | .error e => throw (.document p e)

/-- Write the template to a file in a directory for the user alone. A path that goes through a link
is refused. -/
def createTemplate (p : Path) : DiskWork Complaint Unit := do
  if ← mapError (fun e => ⟨e.text, []⟩) (ask fun d => d.linkAbove p) then
    throw ⟨"Refusing to create config: ancestor of " ++ p.text ++ " is a symlink", []⟩
  if let some parent := p.parent then
    because ("create config directory '" ++ parent.text ++ "'") (Disk.makeDirectories parent)
    tryPerform fun d => d.setMode parent 0o700
  Disk.writePrivate p (Utf8.encode template)
  tryPerform fun d => d.setMode p 0o600

/-- Load the settings of the standard place, or leave a template there. -/
def loadDefault (e : Environment) : DiskWork LoadError Loaded := do
  match e.defaultSettings with
  | none => return .defaults
  | some p =>
    if (← get).pathExists p then return .file (← ofFile p) p
    let (result, d) := ((createTemplate p).run).run (← get)
    set d
    return match result with
      | .ok () => .template p
      | .error _ => .defaults

/-- Find and load the settings. -/
def load (e : Environment) : DiskWork LoadError Loaded := do
  match e.namedSettings (← get) with
  | none => loadDefault e
  | some p =>
    if !(← get).isFile p then
      throw (.complaint ⟨Environment.settingsVariable ++ " points at '" ++ p.text
        ++ "', which is not a readable file", []⟩)
    return .file (← ofFile p) p

end Config

end TreeOps
