import AmpTuner.Css.Rule

/-!
Attributes that become rules: the source-size lists `sizes` and `heights`, and the media query list
`media`. The rules of a list of sizes begin with the default and go on from its last condition to the
first, so that the first condition that holds decides.
-/

namespace AmpTuner.Css

/-- Why an attribute cannot become rules. -/
inductive Unconvertible where
  | emptyMedia
  | missingDefault
  | conditionalDefault
  | emptyEntry
  | missingCondition (entry : String)
deriving Repr, DecidableEq

namespace Unconvertible

def message : Unconvertible → String
  | emptyMedia => "empty media query"
  | missingDefault => "missing default value"
  | conditionalDefault => "default value must not have a media condition"
  | emptyEntry => "empty entry"
  | missingCondition entry => "'" ++ entry ++ "' has no media condition"

end Unconvertible

/-! ## Source sizes -/

/-- The parts between the commas outside parentheses, of which `depth` are open. A parenthesis too
many on the right closes nothing. -/
def splitCommas (depth : Nat) : List Char → List (List Char)
  | [] => [[]]
  | c :: rest =>
    if c = ',' && depth = 0 then [] :: splitCommas 0 rest
    else
      let depth := if c = '(' then depth + 1 else if c = ')' then depth - 1 else depth
      (splitCommas depth rest).modifyHead (c :: ·)

/-- Takes, from the end of a text read backwards, what lies between a closing parenthesis and the
opening one that matches it; `depth` parentheses are closed so far. -/
def takeCall (depth : Nat) : List Char → Option (List Char × List Char)
  | [] => none
  | c :: rest =>
    if c = '(' && depth ≤ 1 then some ([c], rest)
    else
      let depth := if c = '(' then depth - 1 else if c = ')' then depth + 1 else depth
      (takeCall depth rest).map fun (call, rest) => (c :: call, rest)

def isNameChar (c : Char) : Bool := c.isAlphanum || c == '-'

/-- An entry as its condition and its size. The size is a call such as `calc(1px + 2px)` at the end,
or else the last word. -/
def splitCondition (entry : List Char) : List Char × List Char :=
  let backwards := entry.reverse
  let (size, condition) :=
    if backwards.head? = some ')' then
      match takeCall 0 backwards with
      | some (call, rest) => (call ++ rest.takeWhile isNameChar, rest.dropWhile isNameChar)
      | none => (backwards, [])
    else (backwards.takeWhile (!Text.isBlank ·), backwards.dropWhile (!Text.isBlank ·))
  (Text.trimChars condition.reverse, Text.trimChars size.reverse)

/-- The rules of the entries with a condition. -/
def conditionalRules (make : String → Rule) :
    List (List Char) → Except Unconvertible (List Rule)
  | [] => .ok []
  | entry :: rest =>
    let entry := Text.trimChars entry
    if entry.isEmpty then .error .emptyEntry
    else
      let (condition, size) := splitCondition entry
      if condition.isEmpty then .error (.missingCondition (String.ofList entry))
      else
        (conditionalRules make rest).map
          ((make (String.ofList size)).withMedia (String.ofList condition) :: ·)

def sourceSizes (selector property value : String) : Except Unconvertible Rules :=
  let make (size : String) : Rule := ⟨selector, property ++ ":" ++ size, none⟩
  match (splitCommas 0 value.toList).reverse with
  | [] => .error .missingDefault
  | last :: conditional =>
    let (condition, size) := splitCondition (Text.trimChars last)
    if size.isEmpty then .error .missingDefault
    else if !condition.isEmpty then .error .conditionalDefault
    else
      (conditionalRules make conditional).map fun rules =>
        .ofList (make (String.ofList size) :: rules)

/-- Widths of the element. -/
def sizesRules (value : String) : Except Unconvertible Rules := sourceSizes idSelector "width" value

def heightsSelector : String := "#__ID__>i-amphtml-sizer"

/-- Paddings that give the sizer of the element its height. -/
def heightsRules (value : String) : Except Unconvertible Rules :=
  sourceSizes heightsSelector "padding-top" value

/-! ## Media queries -/

/-- A query that matches when the given one does not. -/
def negation (query : List Char) : List Char :=
  if (query.take 4).map Char.toLower = "not ".toList then Text.trimChars (query.drop 4)
  else "not ".toList ++ query

/-- Hides the element when the query does not match. -/
def mediaRules (value : String) : Except Unconvertible Rules :=
  let query := Text.trimChars value.toList
  if query.isEmpty then .error .emptyMedia
  else
    .ok (.ofList [({ selector := idSelector, declaration := "display:none" } : Rule).withMedia
      (String.ofList (negation query))])

end AmpTuner.Css
