import AmpTuner.Json.Value
import AmpTuner.Text.Decimal

/-!
Writing JSON values over several lines, two blanks of indentation for each level.
-/

namespace AmpTuner.Json

def hexDigit (n : Nat) : Char := Nat.digitChar n

/-- Quotes, backslashes and control characters are escaped, the latter by a letter if they have one. -/
def escapeChar (c : Char) : List Char :=
  if c = '"' then ['\\', '"']
  else if c = '\\' then ['\\', '\\']
  else if c = '\x08' then ['\\', 'b']
  else if c = '\x0c' then ['\\', 'f']
  else if c = '\n' then ['\\', 'n']
  else if c = '\r' then ['\\', 'r']
  else if c = '\t' then ['\\', 't']
  else if c < ' ' then ['\\', 'u', '0', '0', hexDigit (c.toNat / 16), hexDigit (c.toNat % 16)]
  else [c]

def writeString (s : String) : String :=
  "\"" ++ String.ofList (s.toList.flatMap escapeChar) ++ "\""

def writeNumber : Number → String
  | .natural n => toString n
  | .negative n => "-" ++ toString n
  | .real x => Text.pointedNumber x

/-- A new line at a level. -/
def newline (level : Nat) : String := String.ofList ('\n' :: List.replicate (2 * level) ' ')

mutual

def Value.write (level : Nat) : Value → String
  | .null => "null"
  | .bool b => if b then "true" else "false"
  | .number n => writeNumber n
  | .string s => writeString s
  | .array [] => "[]"
  | .array (first :: more) =>
    "[" ++ newline (level + 1) ++ first.write (level + 1) ++ Value.writeItems (level + 1) more
      ++ newline level ++ "]"
  | .object [] => "\x7b\x7d"
  | .object ((key, v) :: more) =>
    "\x7b" ++ newline (level + 1) ++ writeString key ++ ": " ++ v.write (level + 1)
      ++ Value.writeEntries (level + 1) more ++ newline level ++ "\x7d"

/-- The items behind the first. -/
def Value.writeItems (level : Nat) : List Value → String
  | [] => ""
  | item :: more =>
    "," ++ newline level ++ item.write level ++ Value.writeItems level more

/-- The entries behind the first. -/
def Value.writeEntries (level : Nat) : List (String × Value) → String
  | [] => ""
  | (key, v) :: more =>
    "," ++ newline level ++ writeString key ++ ": " ++ v.write level
      ++ Value.writeEntries level more

end

def Value.pretty (v : Value) : String := v.write 0

end AmpTuner.Json
