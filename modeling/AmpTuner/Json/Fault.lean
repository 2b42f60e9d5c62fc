import AmpTuner.Json.Value
import AmpTuner.Text.Decimal
import AmpTuner.Text.Quoted
import AmpTuner.Text.Affix

/-!
Faults of JSON texts. A syntax fault is located where it is met. A fault of content (a value of the
wrong type, an unknown field) may be found while the reader is past the value; it floats until the
enclosing value is done and then takes the reader's place.
-/

namespace AmpTuner.Json

/-- A value as messages name it. -/
inductive Found where
  | null
  | bool (b : Bool)
  | number (n : Number)
  | string (s : String)
  | sequence
  | map

inductive Cause where
  | valueEnds
  | listEnds
  | objectEnds
  | stringEnds
  | valueExpected
  | wordExpected
  | colonExpected
  | commaOrListEndExpected
  | commaOrObjectEndExpected
  | keyExpected
  | trailingComma
  | trailingCharacters
  | invalidEscape
  | invalidNumber
  | numberOutOfRange
  | loneSurrogate
  | escapeEnds
  | controlCharacter
  | tooDeep
  | wrongType (found : Found) (wanted : String)
  | wrongValue (found : Found) (wanted : String)
  | wrongLength (length : Nat) (wanted : String)
  | unknownField (name : String) (known : List String)
  | unknownVariant (name : String) (known : List String)
  | missingField (name : String)
  | duplicateField (name : String)

def bytes (s : List Char) : Nat := s.foldl (fun n c => n + c.utf8Size) 0

/-- A cause with its place: for a located fault the number of bytes behind it, for a floating one the
input that the reader has not consumed. -/
inductive Fault where
  | located (cause : Cause) (unread : Nat)
  | floating (cause : Cause) (rest : List Char)

namespace Found

def describe : Found → String
  | null => "null"
  | bool b => "boolean `" ++ toString b ++ "`"
  | number (.natural n) => "integer `" ++ toString n ++ "`"
  | number (.negative n) => "integer `-" ++ toString n ++ "`"
  | number (.real x) => "floating point `" ++ Text.pointedNumber x ++ "`"
  | string s => "string " ++ Text.quoted s
  | sequence => "sequence"
  | map => "map"

def ofValue : Value → Found
  | .null => null
  | .bool b => bool b
  | .number n => number n
  | .string s => string s
  | .array _ => sequence
  | .object _ => map

end Found

/-- The names that were expected: one, a choice of two, or one of several. -/
def oneOf (names : List String) : String :=
  let ticked := names.map fun name => "`" ++ name ++ "`"
  match ticked with
  | [a] => a
  | [a, b] => a ++ " or " ++ b
  | _ => "one of " ++ ", ".intercalate ticked

namespace Cause

def message : Cause → String
  | valueEnds => "EOF while parsing a value"
  | listEnds => "EOF while parsing a list"
  | objectEnds => "EOF while parsing an object"
  | stringEnds => "EOF while parsing a string"
  | valueExpected => "expected value"
  | wordExpected => "expected ident"
  | colonExpected => "expected `:`"
  | commaOrListEndExpected => "expected `,` or `]`"
  | commaOrObjectEndExpected => "expected `,` or `\x7d`"
  | keyExpected => "key must be a string"
  | trailingComma => "trailing comma"
  | trailingCharacters => "trailing characters"
  | invalidEscape => "invalid escape"
  | invalidNumber => "invalid number"
  | numberOutOfRange => "number out of range"
  | loneSurrogate => "lone leading surrogate in hex escape"
  | escapeEnds => "unexpected end of hex escape"
  | controlCharacter => "control character (\\u0000-\\u001F) found while parsing a string"
  | tooDeep => "recursion limit exceeded"
  | wrongType found wanted => "invalid type: " ++ found.describe ++ ", expected " ++ wanted
  | wrongValue found wanted => "invalid value: " ++ found.describe ++ ", expected " ++ wanted
  | wrongLength length wanted => "invalid length " ++ toString length ++ ", expected " ++ wanted
  | unknownField name known => "unknown field `" ++ name ++ "`, expected " ++ oneOf known
  | unknownVariant name known => "unknown variant `" ++ name ++ "`, expected " ++ oneOf known
  | missingField name => "missing field `" ++ name ++ "`"
  | duplicateField name => "duplicate field `" ++ name ++ "`"

end Cause

namespace Fault

def cause : Fault → Cause
  | located cause _ => cause
  | floating cause _ => cause

/-- A fault right in front of `rest`. -/
def here (cause : Cause) (rest : List Char) : Fault := located cause (bytes rest)

/-- A fault of the first byte of `rest`, which counts as consumed. -/
def past (cause : Cause) (rest : List Char) (count : Nat := 1) : Fault :=
  located cause (bytes rest - count)

/-- Gives a floating fault the place of the reader. -/
def locate : Fault → Fault
  | floating cause rest => here cause rest
  | fault => fault

end Fault

/-- A cause and the place of the last byte that was consumed: its line, and the number of bytes
consumed in that line. A fault of content that nothing encloses has no place. -/
structure Error where
  cause : Cause
  place : Option Text.Position

/-- Line and column behind the first `count` bytes. -/
def placeAfter (count line column : Nat) : List Char → Text.Position
  | [] => ⟨line, column⟩
  | c :: rest =>
    if count = 0 then ⟨line, column⟩
    else if c = '\n' then placeAfter (count - 1) (line + 1) 0 rest
    else placeAfter (count - c.utf8Size) line (column + min count c.utf8Size) rest

namespace Error

def ofFault (source : List Char) : Fault → Error
  | .located cause unread => ⟨cause, some (placeAfter (bytes source - unread) 1 0 source)⟩
  | .floating cause _ => ⟨cause, none⟩

def line (e : Error) : Nat := (e.place.map (·.line)).getD 0

def column (e : Error) : Nat := (e.place.map (·.column)).getD 0

def message (e : Error) : String :=
  match e.place with
  | none => e.cause.message
  | some p => e.cause.message ++ " at line " ++ toString p.line ++ " column " ++ toString p.column

end Error

end AmpTuner.Json
