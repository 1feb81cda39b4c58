/-!
# Decimal numbers

A number is read digit by digit with an optional plus sign. The first thing that is wrong decides
the error: a character that is no digit, or a value that passes the limit.
-/

namespace TreeOps.Text

/-- Why a text is no number. -/
inductive DecimalError where
  | noDigits
  | notADigit
  | tooLarge
deriving DecidableEq, Repr

/-- The wording of an error. -/
def DecimalError.message : DecimalError → String
  | noDigits => "cannot parse integer from empty string"
  | notADigit => "invalid digit found in string"
  | tooLarge => "number too large to fit in target type"

/-- Read digits behind those that make up `value`. -/
def readDigits (limit : Nat) : Nat → List Char → Except DecimalError Nat
  | value, [] => .ok value
  | value, c :: rest =>
    if !c.isDigit then .error .notADigit
    else
      let next := value * 10 + (c.toNat - '0'.toNat)
      if limit < next then .error .tooLarge else readDigits limit next rest

/-- Read a number from 0 to `limit`. -/
def readDecimal (limit : Nat) (s : String) : Except DecimalError Nat :=
  match s.toList with
  | [] => .error .noDigits
  | ['+'] => .error .notADigit
  | '+' :: digits => readDigits limit 0 digits
  | digits => readDigits limit 0 digits

end TreeOps.Text
