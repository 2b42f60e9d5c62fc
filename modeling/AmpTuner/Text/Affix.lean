import AmpTuner.Text.Blank

/-!
Beginnings, ends and occurrences of one text in another, splitting at a separator, and the position behind
a beginning, as a line and a column.
-/

namespace AmpTuner.Text

def startsWith (start s : String) : Bool := start.toList.isPrefixOf s.toList

def endsWith (ending s : String) : Bool := ending.toList.isSuffixOf s.toList

/-- What follows `start`, when `s` begins with it. -/
def afterStart? (start s : String) : Option String :=
  if startsWith start s then some (String.ofList (s.toList.drop start.toList.length)) else none

/-- What precedes `ending`, when `s` ends with it. -/
def beforeEnd? (ending s : String) : Option String :=
  if endsWith ending s then
    some (String.ofList (s.toList.take (s.toList.length - ending.toList.length)))
  else none

def dropTrailing (c : Char) (s : String) : String :=
  String.ofList (s.toList.reverse.dropWhile (· == c)).reverse

def occursIn (part : List Char) : List Char → Bool
  | [] => part.isEmpty
  | c :: rest => part.isPrefixOf (c :: rest) || occursIn part rest

/-- Whether `part` is a contiguous part of `s`. -/
def contains (part s : String) : Bool := occursIn part.toList s.toList

/-- Replaces every occurrence of `part`, leftmost first and without overlap. An empty `part` occurs
nowhere. -/
def replaceChars (part new : List Char) : List Char → List Char
  | [] => []
  | c :: rest =>
    if !part.isEmpty && part.isPrefixOf (c :: rest) then
      new ++ replaceChars part new (rest.drop (part.length - 1))
    else c :: replaceChars part new rest
termination_by s => s.length
decreasing_by all_goals simp only [List.length_cons, List.length_drop]; omega

def replace (part new s : String) : String :=
  String.ofList (replaceChars part.toList new.toList s.toList)

/-- The parts between the characters that satisfy `sep`, empty ones included. -/
def splitChars (sep : Char → Bool) : List Char → List (List Char)
  | [] => [[]]
  | c :: rest =>
    if sep c then [] :: splitChars sep rest else (splitChars sep rest).modifyHead (c :: ·)

def split (sep : Char → Bool) (s : String) : List String :=
  (splitChars sep s.toList).map String.ofList

/-- The tokens of a space-separated attribute value. -/
def words (s : String) : List String :=
  ((splitChars isAsciiBlank s.toList).filter (!·.isEmpty)).map String.ofList

/-- The text before the first `sep`, and the text after it, if there is one. -/
def splitOnce (sep : Char) (s : String) : String × Option String :=
  let before := s.toList.takeWhile (· != sep)
  match s.toList.drop before.length with
  | [] => (s, none)
  | _ :: after => (String.ofList before, some (String.ofList after))

/-! ## Positions -/

structure Position where
  line : Nat
  column : Nat
deriving Repr, DecidableEq

namespace Position

/-- The position right behind `c`, when `c` stands at `p`. -/
def after (p : Position) (c : Char) : Position :=
  if c = '\n' then ⟨p.line + 1, 1⟩ else ⟨p.line, p.column + 1⟩

/-- The position behind `before`, counted in characters from line 1, column 1. -/
def behind (before : List Char) : Position := before.foldl after ⟨1, 1⟩

end Position

end AmpTuner.Text
