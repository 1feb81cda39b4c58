import TreeOps.Config.Document

/-!
# The written form of settings

Settings are written as one element per field, in the order of the fields. The template, which is
left for the user to edit, explains the fields in a comment in front of the default settings.
-/

namespace TreeOps.Config

/-- A character as it is written in data. -/
def escapedChar (c : Char) : String :=
  match c with
  | '&' => "&amp;"
  | '<' => "&lt;"
  | '>' => "&gt;"
  | '"' => "&quot;"
  | '\'' => "&apos;"
  | c => String.ofList [c]

/-- A text as it is written in data. -/
def escaped (s : String) : String := String.join (s.toList.map escapedChar)

/-- The value of a field as text. -/
def fieldText (c : Config) : Field → String
  | .logLevel => c.logLevel.name
  | .logFile => (c.logFile.map Path.text).getD ""
  | .retryAttempts => toString c.retryAttempts
  | .retryDelay => toString c.retryDelay
  | .continueOnError => toString c.continueOnError
  | .skipReparsePoints => toString c.skipReparsePoints
  | .ignoreReadOnly => toString c.ignoreReadOnly

/-- The element of a field. -/
def element (c : Config) (field : Field) : String :=
  "<" ++ field.name ++ ">" ++ escaped (c.fieldText field) ++ "</" ++ field.name ++ ">"

/-- The written form of settings. -/
def render (c : Config) : String :=
  "<config>\n" ++ String.join (Field.all.map fun f => "  " ++ c.element f ++ "\n") ++ "</config>\n"

/-- What the template says about the fields. -/
def explanation : List String :=
  ["<!--",
    "  dirtree configuration (XML)",
    "",
    "  log_level            -> quiet | normal | info | debug",
    "  log_file             -> optional path of a log file (console output is kept)",
    "  retry_attempts       -> removal attempts for a directory that keeps refilling (>= 1)",
    "  retry_delay_ms       -> pause between those attempts",
    "  continue_on_error    -> keep listing past unreadable directories",
    "  skip_reparse_points  -> do not descend into symlinks and junctions",
    "  ignore_read_only     -> clear read-only attributes instead of failing",
    "",
    "  CLI flags override these values.",
    "-->"]

/-- The document that is written when there are no settings yet. -/
def template : String :=
  String.join (explanation.map fun line => line ++ "\n") ++ render {}

end TreeOps.Config
