import TreeOps.Config.Basic
import TreeOps.Markup.Event
import TreeOps.Text.Decimal
import TreeOps.Text.Quoted

/-!
# Settings as a document

A settings document has one element that holds an element for each field that is set. The name of
the outer element is free. A field may be missing or blank, which leaves its default; it must not be
repeated, and no other field is known. Errors come in the order of the document, and only the name
of a log level is looked at when the whole document has been read.

Specification: §10.3, the fields of the file.
-/

namespace TreeOps.Config

/-- The fields of a settings document, in the order of the template. -/
inductive Field where
  | logLevel
  | logFile
  | retryAttempts
  | retryDelay
  | continueOnError
  | skipReparsePoints
  | ignoreReadOnly
deriving DecidableEq, Repr

namespace Field

/-- Every field, in the order of the template. -/
def all : List Field :=
  [logLevel, logFile, retryAttempts, retryDelay, continueOnError, skipReparsePoints, ignoreReadOnly]

/-- The name of the element of a field. -/
def name : Field → String
  | logLevel => "log_level"
  | logFile => "log_file"
  | retryAttempts => "retry_attempts"
  | retryDelay => "retry_delay_ms"
  | continueOnError => "continue_on_error"
  | skipReparsePoints => "skip_reparse_points"
  | ignoreReadOnly => "ignore_read_only"

/-- The field with a name. -/
def ofName? (name : String) : Option Field := all.find? fun f => f.name == name

end Field

/-- Why a document holds no settings. -/
inductive ReadError where
  /-- The markup is broken, or nested where a value is expected. -/
  | malformed
  /-- There is text where the outer element is expected. -/
  | noElement (text : String)
  | unknownField (name : String)
  | duplicateField (field : Field)
  | invalidValue (text reason : String)
  | invalidLogLevel (text : String)
deriving DecidableEq, Repr

/-- The wording of an error. Broken markup has none here. -/
def ReadError.message : ReadError → String
  | malformed => ""
  | noElement text => "invalid type: string " ++ Text.quoted text ++ ", expected struct XmlConfig"
  | unknownField name =>
    "unknown field `" ++ name ++ "`, expected one of "
      ++ ", ".intercalate (Field.all.map fun f => "`" ++ f.name ++ "`")
  | duplicateField field => "duplicate field `" ++ field.name ++ "`"
  | invalidValue text reason => "invalid value '" ++ text ++ "': " ++ reason
  | invalidLogLevel text => "invalid log_level '" ++ text ++ "'"

/-- What has been read of a document. -/
structure Draft where
  config : Config := {}
  /-- The name of the log level, which is looked at last. -/
  levelName : Option String := none
  /-- The fields read so far. -/
  seen : List Field := []
deriving DecidableEq, Repr

/-- Read a number up to `limit`. -/
def readNumber (limit : Nat) (s : String) : Except ReadError Nat :=
  (Text.readDecimal limit s).mapError fun e => .invalidValue s e.message

/-- Read a truth value. -/
def readFlag (s : String) : Except ReadError Bool :=
  if s = "true" then .ok true
  else if s = "false" then .ok false
  else .error (.invalidValue s "provided string was not `true` or `false`")

/-- Read the value of a field, which is not blank and has no blanks around it. -/
def Draft.set (d : Draft) (field : Field) (s : String) : Except ReadError Draft :=
  let c := d.config
  let put (c : Config) : Draft := { d with config := c }
  match field with
  | .logLevel => .ok { d with levelName := some s }
  | .logFile => .ok (put { c with logFile := some (Path.ofString s) })
  | .retryAttempts =>
    (readNumber (UInt32.size - 1) s).map fun n => put { c with retryAttempts := n }
  | .retryDelay => (readNumber (UInt64.size - 1) s).map fun n => put { c with retryDelay := n }
  | .continueOnError => (readFlag s).map fun b => put { c with continueOnError := b }
  | .skipReparsePoints => (readFlag s).map fun b => put { c with skipReparsePoints := b }
  | .ignoreReadOnly => (readFlag s).map fun b => put { c with ignoreReadOnly := b }

/-- Read the element of a field. -/
def Draft.add (d : Draft) (field : Field) (text : List Char) : Except ReadError Draft :=
  let d := { d with seen := field :: d.seen }
  let value := Text.trimChars text
  if value.isEmpty then .ok d else d.set field (String.ofList value)

/-- The field that a tag begins. -/
def Draft.fieldOfTag (d : Draft) (tag : List Char) : Except ReadError Field :=
  let name := String.ofList (Markup.localName (Markup.tagName tag))
  match Field.ofName? name with
  | none => .error (.unknownField name)
  | some field => if field ∈ d.seen then .error (.duplicateField field) else .ok field

/-- Read what stands in the outer element. -/
def readFields : Draft → List Markup.Event → Except ReadError Draft
  | d, .finish :: _ => .ok d
  | d, .data s :: rest =>
    if s.all Markup.isBlank then readFields d rest else .error (.unknownField "$text")
  | d, .start tag :: rest => do
    let field ← d.fieldOfTag tag
    match rest with
    | .finish :: rest => readFields (← d.add field []) rest
    | .data s :: .finish :: rest => readFields (← d.add field s) rest
    | _ => .error .malformed
  | _, _ => .error .malformed

/-- Read the outer element. -/
def readDocument : List Markup.Event → Except ReadError Draft
  | .data s :: rest =>
    if s.all Markup.isBlank then readDocument rest else .error (.noElement (String.ofList s))
  | .start tag :: rest =>
    match Markup.firstAttribute (Markup.tagAttributes tag) with
    | .absent => readFields {} rest
    | .malformed => .error .malformed
    | .named name => .error (.unknownField ("@" ++ String.ofList name))
  | _ => .error .malformed

/-- The settings of a draft. -/
def Draft.finish (d : Draft) : Except ReadError Config :=
  match d.levelName with
  | none => .ok d.config
  | some s =>
    match LogLevel.ofText? s with
    | some level => .ok { d.config with logLevel := level }
    | none => .error (.invalidLogLevel s)

/-- The settings in a document. A blank document leaves all defaults. -/
def ofDocument (s : String) : Except ReadError Config := do
  if (Text.trimChars s.toList).isEmpty then return {}
  let draft ← readDocument (Markup.events s)
  draft.finish

end TreeOps.Config
