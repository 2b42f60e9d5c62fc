import AmpTuner.Text.Decimal

/-!
Numbers as style sheets show them, and lengths, as the attributes `width` and `height` give them.
-/

namespace AmpTuner.Css

/-! ## Numbers -/

/-- Whole numbers are written as integers of 64 bits, and those outside the range as its nearest end. -/
def number (x : Float) : String :=
  if x.isFinite && x.floor == x then toString x.toInt64.toInt else Text.plainNumber x

/-- A percentage with at most four places. Halves are rounded away from zero. -/
def percentage (x : Float) : String := number ((x * 10000).round / 10000)

/-! ## Lengths -/

inductive LengthUnit where
  | px
  | em
  | rem
  | vh
  | vw
  | vmin
  | vmax
deriving Repr, DecidableEq

namespace LengthUnit

def name : LengthUnit → String
  | px => "px"
  | em => "em"
  | rem => "rem"
  | vh => "vh"
  | vw => "vw"
  | vmin => "vmin"
  | vmax => "vmax"

def all : List LengthUnit := [px, em, rem, vh, vw, vmin, vmax]

/-- The unit behind a number; none means pixels. -/
def ofSuffix? (s : List Char) : Option LengthUnit :=
  if s.isEmpty then some px else all.find? (·.name.toList == s)

end LengthUnit

/-- A keyword is valid only where it is allowed. -/
inductive Length where
  | absent
  | auto (allowed : Bool)
  | fluid (allowed : Bool)
  | number (numeral : Float) (unit : LengthUnit)
  | malformed
deriving Repr, BEq

namespace Length

def isAsciiDigit (c : Char) : Bool := '0' ≤ c && c ≤ '9'

/-- One or more digits at the start, and the rest. -/
def digits? (s : List Char) : Option (List Char × List Char) :=
  let digits := s.takeWhile isAsciiDigit
  if digits.isEmpty then none else some (digits, s.dropWhile isAsciiDigit)

/-- Digits, a point with more digits behind it if there are any, and a unit. -/
def numeric? (s : List Char) : Option (Float × LengthUnit) := do
  let (whole, rest) ← digits? s
  match rest with
  | '.' :: rest =>
    let (fraction, rest) ← digits? rest
    let unit ← LengthUnit.ofSuffix? rest
    return (Float.ofScientific (Text.ofDigits 10 (whole ++ fraction)) true fraction.length, unit)
  | _ =>
    let unit ← LengthUnit.ofSuffix? rest
    return (Float.ofScientific (Text.ofDigits 10 whole) false 0, unit)

def parse (value : Option String) (autoAllowed fluidAllowed : Bool) : Length :=
  match value with
  | none => absent
  | some "auto" => auto autoAllowed
  | some "fluid" => fluid fluidAllowed
  | some s =>
    match numeric? s.toList with
    | some (numeral, unit) => number numeral unit
    | none => malformed

def isDefined : Length → Bool
  | absent => false
  | _ => true

def isAuto : Length → Bool
  | auto _ => true
  | _ => false

def isFluid : Length → Bool
  | fluid _ => true
  | _ => false

def isNumeric : Length → Bool
  | number _ _ => true
  | _ => false

def isValid : Length → Bool
  | absent => true
  | auto allowed => allowed
  | fluid allowed => allowed
  | number _ _ => true
  | malformed => false

/-- Zero, unless the length is a number. -/
def numeral : Length → Float
  | number n _ => n
  | _ => 0

/-- Pixels, unless the length is a number with another unit. -/
def unit : Length → LengthUnit
  | number _ u => u
  | _ => .px

def toCss (l : Length) : String := Css.number l.numeral ++ l.unit.name

end Length

end AmpTuner.Css
