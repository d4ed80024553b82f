import ScriptHost.Json.Printer
import ScriptHost.Text.Characters

/-!
# What can be wrong with a JSON text

`Fault` lists the reasons for which a text is refused, first those of the grammar and then those of the
shape that a reader asks for. `Fault.message` is their wording.
-/

namespace ScriptHost.Json

/-- A value that is no container. -/
inductive Scalar where
  | null
  | bool (b : Bool)
  | number (n : Number)
  | string (s : String)

/-- What a reader meets in place of what it asks for. -/
inductive Found where
  | scalar (s : Scalar)
  | sequence
  | map

inductive Fault where
  | endInValue
  | endInString
  | endInObject
  | endInList
  | valueExpected
  | keyExpected
  | colonExpected
  | objectCommaExpected
  | listCommaExpected
  | trailingComma
  | trailingText
  | misspelledWord
  | badNumber
  | numberTooLarge
  | controlInString
  | badEscape
  | strayLowSurrogate
  | highSurrogateAlone
  | notUtf8
  | wrongType (found : Found) (expected : String)
  | wrongRange (n : Int) (expected : String)
  | tooShort (length : Nat) (expected : String)
  | unknownMember (key : String) (allowed : List String)
  | repeatedMember (key : String)
  | missingMember (key : String)
  | unknownVariant (name : String) (allowed : List String)
  | refused (reason : String)

def accented (name : String) : String := "`" ++ name ++ "`"

def Found.describe : Found → String
  | .scalar .null => "null"
  | .scalar (.bool b) => "boolean " ++ accented (if b then "true" else "false")
  | .scalar (.number (.int n)) => "integer " ++ accented (String.ofList (Decimal.ofInt n))
  | .scalar (.number (.float x)) => "floating point " ++ accented (String.ofList (float x))
  | .scalar (.string s) => "string " ++ Quoted.quote s
  | .sequence => "sequence"
  | .map => "map"

def alternatives : List String → String
  | [] => "there are no fields"
  | [a] => accented a
  | [a, b] => accented a ++ " or " ++ accented b
  | names => "one of " ++ ", ".intercalate (names.map accented)

def Fault.message : Fault → String
  | .endInValue => "EOF while parsing a value"
  | .endInString => "EOF while parsing a string"
  | .endInObject => "EOF while parsing an object"
  | .endInList => "EOF while parsing a list"
  | .valueExpected => "expected value"
  | .keyExpected => "key must be a string"
  | .colonExpected => "expected `:`"
  | .objectCommaExpected => "expected `,` or `\x7d`"
  | .listCommaExpected => "expected `,` or `]`"
  | .trailingComma => "trailing comma"
  | .trailingText => "trailing characters"
  | .misspelledWord => "expected ident"
  | .badNumber => "invalid number"
  | .numberTooLarge => "number out of range"
  | .controlInString => "control character (\\u0000-\\u001F) found while parsing a string"
  | .badEscape => "invalid escape"
  | .strayLowSurrogate => "lone leading surrogate in hex escape"
  | .highSurrogateAlone => "unexpected end of hex escape"
  | .notUtf8 => "invalid unicode code point"
  | .wrongType found expected => "invalid type: " ++ found.describe ++ ", expected " ++ expected
  | .wrongRange n expected =>
    "invalid value: integer " ++ accented (String.ofList (Decimal.ofInt n)) ++ ", expected " ++ expected
  | .tooShort length expected => s!"invalid length {length}, expected " ++ expected
  | .unknownMember key allowed =>
    "unknown field " ++ accented key ++ ", expected " ++ alternatives allowed
  | .repeatedMember key => "duplicate field " ++ accented key
  | .missingMember key => "missing field " ++ accented key
  | .unknownVariant name allowed =>
    "unknown variant " ++ accented name ++ ", expected " ++ alternatives allowed
  | .refused reason => reason

end ScriptHost.Json
