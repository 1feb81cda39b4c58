import TreeOps.CommandLine.Options

/-!
# Reading a command line

Words are read from left to right. An option that takes a value holds on to the next word, and so
does a positional argument that may be repeated; what is held is checked when the next option or
positional argument turns up, or at the end. A word behind `--` is never an option. What stands in
front of the command is checked after the command with its own words, and an option that is given in
both places counts as it was given behind the command.
-/

namespace TreeOps.CommandLine

/-- A value that was given for an option. -/
inductive Value where
  | flag
  | level (l : LogLevel)
  | path (p : Path)
  | text (s : String)
deriving DecidableEq, Repr

/-- Words that are held until it is clear that they are complete. -/
inductive Held where
  | option (name : OptionName) (value : Option Bytes)
  | positionals (values : List Bytes)
deriving DecidableEq, Repr

/-- What has been read in one scope. -/
structure Reading where
  given : List (OptionName × Value) := []
  positionals : List Path := []
  held : Option Held := none
  /-- The held option takes the next word as its value. -/
  awaitsValue : Bool := false
  /-- All further words are positional. -/
  onlyPositionals : Bool := false
deriving DecidableEq, Repr

/-- Read a path, which must not be empty. -/
def readPath (word : Bytes) : Except UsageError Path :=
  if word.isEmpty then .error .invalidValue else .ok ⟨word⟩

/-- Read a text. -/
def readText (word : Bytes) : Except UsageError String :=
  match Utf8.text? word with
  | some s => .ok s
  | none => .error .invalidUtf8

/-- Read the value of an option. -/
def readValue (name : OptionName) (word : Bytes) : Except UsageError Value :=
  match name with
  | .logLevel => do
    match LogLevel.ofText? (← readText word) with
    | some level => return .level level
    | none => throw .valueValidation
  | .logFile => .path <$> readPath word
  | _ => .text <$> readText word

namespace Reading

/-- Whether an option was given. -/
def has (r : Reading) (name : OptionName) : Bool := r.given.any fun (n, _) => n == name

/-- Take an option with its value. -/
def take (r : Reading) (name : OptionName) (word : Option Bytes) : Except UsageError Reading := do
  if name.takesValue && word.isNone then throw .invalidValue
  if r.has name then throw .argumentConflict
  let value ← match word with
    | some word => readValue name word
    | none => pure .flag
  return { r with given := (name, value) :: r.given }

/-- Check what is held. -/
def settle (r : Reading) : Except UsageError Reading :=
  let free := { r with held := none, awaitsValue := false }
  match r.held with
  | none => .ok free
  | some (.option name word) => free.take name word
  | some (.positionals words) => do
    let paths ← words.mapM readPath
    return { free with positionals := r.positionals ++ paths }

/-- React to an option that is complete. -/
def react (r : Reading) (name : OptionName) (word : Option Bytes) : Except UsageError Reading := do
  let r ← r.settle
  match name with
  | .help => throw .displayHelp
  | .version => throw .displayVersion
  | _ => r.take name word

/-- The number of positional arguments so far. -/
def positionalCount (r : Reading) : Nat :=
  r.positionals.length + match r.held with
    | some (.positionals words) => words.length
    | _ => 0

end Reading

/-- Read an option behind two dashes, perhaps with a value behind an equals sign. -/
def readLong (scope : Scope) (r : Reading) (word : Bytes) : Except UsageError Reading := do
  let equals : UInt8 := 0x3d
  let name := word.takeWhile (· != equals)
  let attached := (word.dropWhile (· != equals)).tail?
  match scope.options.find? fun o => Utf8.encode o.long == name with
  | none => throw .unknownArgument
  | some o =>
    if o.takesValue then
      if attached.isSome then r.react o attached
      else
        let r ← r.settle
        return { r with held := some (.option o none), awaitsValue := true }
    else if attached.isSome then throw .tooManyValues
    else r.react o none

/-- Read the letters behind one dash. -/
def readShort (scope : Scope) (r : Reading) (word : Bytes) : Except UsageError Reading :=
  (Utf8.decode word).foldlM (fun r piece =>
    match scope.options.find? fun o => o.short?.isSome && o.short? == piece.char? with
    | some o => r.react o none
    | none => .error .unknownArgument) r

/-- Read a positional argument. -/
def readPositional (scope : Scope) (r : Reading) (word : Bytes) : Except UsageError Reading := do
  match scope.arity with
  | .some =>
    match r.held with
    | some (.positionals words) => return { r with held := some (.positionals (words ++ [word])) }
    | _ => return { ← r.settle with held := some (.positionals [word]) }
  | .exactly count =>
    if r.positionalCount < count then
      return { ← r.settle with held := some (.positionals [word]) }
    else if scope ≠ .program then throw .unknownArgument
    else
      let isCommand := commandNames.any (fun (n, _) => Utf8.encode n == word)
        || Utf8.encode helpWord == word
      throw (if r.onlyPositionals && isCommand then .unknownArgument else .invalidSubcommand)

/-- Read one word that is not the name of a command. -/
def readWord (scope : Scope) (r : Reading) (word : Bytes) : Except UsageError Reading :=
  let dash : UInt8 := 0x2d
  if r.onlyPositionals then readPositional scope r word
  else
    let plain :=
      match r.awaitsValue, r.held with
      | true, some (.option o _) =>
        .ok { r with held := some (.option o (some word)), awaitsValue := false }
      | _, _ => readPositional scope r word
    match word with
    | [] => plain
    | first :: rest =>
      if first ≠ dash then plain
      else
        match rest with
        | [] => plain
        | second :: more =>
          if second ≠ dash then readShort scope r rest
          else if more.isEmpty then .ok { r with onlyPositionals := true }
          else readLong scope r more

/-- Check a scope that has been read to its end. -/
def finish (scope : Scope) (r : Reading) : Except UsageError Reading := do
  let r ← r.settle
  if scope.conflicts.any fun (a, b) => r.has a && r.has b then throw .argumentConflict
  let required := match scope.arity with
    | .exactly count => count
    | .some => 1
  if r.positionals.length < required then throw .missingRequiredArgument
  return r

/-- What the words in front of a command amount to, and the words behind it. -/
inductive Front where
  | alone (r : Reading)
  | command (r : Reading) (name : CommandName) (rest : List Bytes)
  | help (rest : List Bytes)
deriving DecidableEq, Repr

/-- Read up to the name of a command. -/
def readFront : Reading → List Bytes → Except UsageError Front
  | r, [] => .ok (.alone r)
  | r, word :: rest => do
    let named := commandNames.find? fun (n, _) => Utf8.encode n == word
    if r.onlyPositionals || r.awaitsValue then readFront (← readWord .program r word) rest
    else if word == Utf8.encode helpWord then return .help rest
    else
      match named with
      | some (_, name) => return .command r name rest
      | none => readFront (← readWord .program r word) rest

/-- Answer a request for help: it may name one command, or help itself. -/
def helpAnswer : List Bytes → UsageError
  | [] => .displayHelp
  | [word] =>
    if word == Utf8.encode helpWord || commandNames.any (fun (n, _) => Utf8.encode n == word) then
      .displayHelp
    else .invalidSubcommand
  | _ => .invalidSubcommand

/-- The value of an option, where one behind the command counts first. -/
def valueOf (front behind : Reading) (name : OptionName) : Option Value :=
  (behind.given.lookup name).or (front.given.lookup name)

/-- The command that a scope has read. -/
def commandOf (name : CommandName) (r : Reading) : Option Command :=
  match name, r.positionals with
  | .list, root :: _ =>
    some (.list
      { root
        pattern := match r.given.lookup .pattern with
          | some (.text s) => s
          | _ => "*"
        recursive := r.has .recursive
        filesOnly := r.has .filesOnly
        dirsOnly := r.has .dirsOnly
        followReparse := r.has .followReparse
        continueOnError := r.has .continueOnError })
  | .delete, paths =>
    some (.delete ⟨paths, r.has .recursive, r.has .ignoreReadOnly, r.has .missingOk⟩)
  | .copy, source :: destination :: _ =>
    some (.copy ⟨source, destination, r.has .overwrite, r.has .preserveTimestamps⟩)
  | .move, source :: destination :: _ =>
    some (.move ⟨source, destination, r.has .replace, r.has .allowCopy⟩)
  | .prune, roots => some (.prune ⟨roots, r.has .recursive, r.has .ignoreReadOnly⟩)
  | _, _ => none

/-- What the words in front of a command and behind it ask for. -/
def argumentsOf (front behind : Reading) (command : Option Command) : Arguments where
  debug := front.has .debug || behind.has .debug
  logLevel := match valueOf front behind .logLevel with
    | some (.level l) => some l
    | _ => none
  json := front.has .json || behind.has .json
  logFile := match valueOf front behind .logFile with
    | some (.path p) => some p
    | _ => none
  printConfig := front.has .printConfig
  command := command

/-- Read a command line. -/
def parse (words : List Bytes) : Except UsageError Arguments := do
  match ← readFront {} words with
  | .help rest => throw (helpAnswer rest)
  | .alone r => return argumentsOf (← finish .program r) {} none
  | .command front name rest =>
    let behind ← finish (.command name) (← rest.foldlM (readWord (.command name)) {})
    let front ← finish .program front
    return argumentsOf front behind (commandOf name behind)

end TreeOps.CommandLine
