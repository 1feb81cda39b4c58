import TreeOps.Disk.Files

/-!
# Where settings and logs are

The settings are in the file that an environment variable names, or else in a standard place below
the user's home, and so is the log. A variable that is set but empty counts as not set.
-/

namespace TreeOps

/-- The variables that say where files are. -/
structure Environment where
  /-- The file with the settings, or its directory. -/
  settings : Option Bytes := none
  home : Option Bytes := none
  configHome : Option Bytes := none
  dataHome : Option Bytes := none
  /-- The home directory of the account, for when the variable does not tell. -/
  accountHome : Option Path := some "/root"
deriving DecidableEq, Repr

namespace Environment

/-- The name of the variable for the settings. -/
def settingsVariable : String := "DIRTREE_CONFIG"

/-- The home directory of the user. -/
def homeDirectory (e : Environment) : Option Path :=
  match e.home with
  | some (b :: rest) => some ⟨b :: rest⟩
  | _ => e.accountHome

/-- A directory given by a variable, which has to be absolute, or else a place below the home. -/
def baseDirectory (e : Environment) (given : Option Bytes) (below : List String) : Option Path :=
  let absolute := (given.map fun b => (⟨b⟩ : Path)).filter (·.isAbsolute)
  absolute.or (e.homeDirectory.map fun h => below.foldl (fun p s => p.join (Path.ofString s)) h)

/-- The standard place of the settings. -/
def defaultSettings (e : Environment) : Option Path :=
  (e.baseDirectory e.configHome [".config"]).map fun p => (p.join "dirtree").join "config.xml"

/-- The standard place of the log. -/
def defaultLog (e : Environment) : Option Path :=
  (e.baseDirectory e.dataHome [".local", "share"]).map fun p =>
    (p.join "dirtree").join "dirtree.log"

/-- The complaint when there is no standard place for the settings. -/
def noSettingsPlace : String := "cannot determine a config directory (no config dir and HOME unset)"

/-- The file that the variable for the settings names. -/
def namedSettings (e : Environment) (d : Disk) : Option Path :=
  match e.settings with
  | some (b :: rest) =>
    let p := Path.root.join ⟨b :: rest⟩
    some (if d.isDirectory p then p.join "config.xml" else p)
  | _ => none

end Environment

end TreeOps
