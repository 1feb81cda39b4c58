/-!
# Log records

A log record has a severity, the area of the program it comes from, a message and named fields.

Specification: §10.1.
-/

namespace TreeOps

/-- How much a log record matters, most severe first. -/
inductive Severity where
  | error
  | warn
  | info
  | debug
  | trace
deriving DecidableEq, Repr

namespace Severity

/-- The place of a severity, the most severe being the lowest. -/
def rank : Severity → Nat
  | error => 0
  | warn => 1
  | info => 2
  | debug => 3
  | trace => 4

/-- The name of a severity in a log. -/
def name : Severity → String
  | error => "ERROR"
  | warn => "WARN"
  | info => "INFO"
  | debug => "DEBUG"
  | trace => "TRACE"

/-- Whether a log that shows records down to `least` shows this severity. -/
def shownAt (s least : Severity) : Bool := s.rank ≤ least.rank

end Severity

/-- The value of a field. -/
inductive FieldValue where
  | text (s : String)
  | number (n : Nat)
  | flag (b : Bool)
deriving DecidableEq, Repr

/-- A value as it is shown in a line of a log. -/
def FieldValue.shown : FieldValue → String
  | text s => s
  | number n => toString n
  | flag b => toString b

/-- One record of a log. -/
structure LogRecord where
  severity : Severity
  area : String
  message : String
  fields : List (String × FieldValue)
deriving DecidableEq, Repr

/-- A record as a line of a log. -/
def LogRecord.line (r : LogRecord) : String :=
  r.severity.name ++ " " ++ r.area ++ ": " ++ r.message
    ++ String.join (r.fields.map fun (name, value) => " " ++ name ++ "=" ++ value.shown)

end TreeOps
