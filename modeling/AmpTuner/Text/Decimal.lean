/-!
Numbers in texts. Unsigned numbers of 32 bits are read from digits in a base, behind an optional plus
sign. Binary floating-point numbers are written with the fewest digits that read back as the number,
and of those the nearest; everything but the split of a `Float` into its fields is exact arithmetic on
naturals.
-/

namespace AmpTuner.Text

/-! ## Reading digits -/

def digitValue (c : Char) : Nat :=
  if '0' ≤ c && c ≤ '9' then c.toNat - '0'.toNat
  else if 'a' ≤ c && c ≤ 'z' then c.toNat - 'a'.toNat + 10
  else if 'A' ≤ c && c ≤ 'Z' then c.toNat - 'A'.toNat + 10
  else 36

def isDigitOf (base : Nat) (c : Char) : Bool := digitValue c < base

def ofDigits (base : Nat) (digits : List Char) : Nat :=
  digits.foldl (fun n c => base * n + digitValue c) 0

/-- Refuses an empty text, any other character and a value of `2 ^ 32` or more. -/
def word? (base : Nat) (s : List Char) : Option Nat :=
  let digits := match s with
    | '+' :: rest => rest
    | _ => s
  if digits.isEmpty || !digits.all (isDigitOf base) then none
  else
    let n := ofDigits base digits
    if n < Nat.pow 2 32 then some n else none

/-! ## Decimal text -/

/-- A positive binary number `significand * 2 ^ exponent` with its distance to the neighbour below:
`lowerHalved` when that neighbour lies half as far as the one above. -/
structure Binary where
  significand : Nat
  exponent : Int
  lowerHalved : Bool
deriving Repr, DecidableEq

/-- `digits * 10 ^ exponent`. -/
structure Decimal where
  digits : Nat
  exponent : Int
deriving Repr, DecidableEq

/-- Which of two equally near decimals is taken: the greater one, or the one with the even last digit. -/
inductive Tie where
  | upper
  | even
deriving Repr, DecidableEq

/-- Whether a tie goes to the lower of two neighbours, which has the given digits. -/
def Tie.takesLower (tie : Tie) (lower : Nat) : Bool :=
  match tie with
  | upper => false
  | even => lower % 2 = 0

namespace Binary

/-- The fields of a finite double, given as the bits below the sign. -/
def ofBits (bits : Nat) : Binary :=
  let biased : Nat := bits / Nat.pow 2 52 % Nat.pow 2 11
  let fraction : Nat := bits % Nat.pow 2 52
  if biased = 0 then ⟨fraction, -1074, false⟩
  else ⟨fraction + Nat.pow 2 52, (biased : Int) - 1075, fraction == 0 && 1 < biased⟩

/-- The two points next to the number on the grid of multiples of `10 ^ place`, below and above, each
kept if it rounds back to the number; the nearer is taken. Numbers are measured in quarters of the
last binary place. -/
def onGrid? (tie : Tie) (b : Binary) (place : Int) : Option Decimal :=
  let binary := b.exponent - 2
  let scale := Nat.pow 2 binary.toNat * Nat.pow 10 (-place).toNat
  let unit := Nat.pow 2 (-binary).toNat * Nat.pow 10 place.toNat
  let value := 4 * b.significand * scale
  let low := (4 * b.significand - if b.lowerHalved then 1 else 2) * scale
  let high := (4 * b.significand + 2) * scale
  let closed := b.significand % 2 = 0
  let reads (n : Nat) : Bool :=
    if closed then low ≤ n * unit && n * unit ≤ high else low < n * unit && n * unit < high
  let below := value / unit
  let above := below + 1
  match reads below, reads above with
  | true, true =>
    let gapBelow := value - below * unit
    let gapAbove := above * unit - value
    let lower := gapBelow < gapAbove || (gapBelow = gapAbove && tie.takesLower below)
    some ⟨if lower then below else above, place⟩
  | true, false => some ⟨below, place⟩
  | false, true => some ⟨above, place⟩
  | false, false => none

/-- Tries ever finer grids, starting with the place `place` and at most `tries` of them. -/
def onGridFrom (tie : Tie) (b : Binary) (place : Int) : Nat → Decimal
  | 0 => ⟨0, 0⟩
  | tries + 1 => (b.onGrid? tie place).getD (b.onGridFrom tie (place - 1) tries)

/-- The coarsest grid that has a point reading back as the number, so the fewest digits. The places of
doubles lie between 309 and -324. -/
def shortest (tie : Tie) (b : Binary) : Decimal :=
  if b.significand = 0 then ⟨0, 0⟩ else b.onGridFrom tie 309 640

end Binary

namespace Decimal

def digitChars (d : Decimal) : List Char := (toString d.digits).toList

/-- Position of the decimal point, counted from before the first digit. -/
def pointPlace (d : Decimal) : Int := d.digitChars.length + d.exponent

/-- Positional notation without an exponent mark. Whole numbers end with `whole`. -/
def positional (d : Decimal) (whole : String) : String :=
  let digits := d.digitChars
  let point := d.pointPlace
  if 0 ≤ d.exponent then
    String.ofList (digits ++ List.replicate d.exponent.toNat '0') ++ whole
  else if 0 < point then
    String.ofList (digits.take point.toNat ++ '.' :: digits.drop point.toNat)
  else
    String.ofList ('0' :: '.' :: List.replicate (-point).toNat '0' ++ digits)

/-- One digit before the point, and the power of ten with its sign behind `e`. -/
def scientific (d : Decimal) : String :=
  let mantissa := match d.digitChars with
    | [] => ""
    | [c] => String.ofList [c]
    | c :: rest => String.ofList (c :: '.' :: rest)
  let power := d.pointPlace - 1
  mantissa ++ (if 0 ≤ power then "e+" else "e") ++ toString power

/-- Positional while the leading digit stands for at least `1e-5` and less than `1e16`. -/
def compact (d : Decimal) : String :=
  if -5 < d.pointPlace && d.pointPlace ≤ 16 then d.positional ".0" else d.scientific

end Decimal

/-- Shortest decimal of the magnitude of a finite number. -/
def magnitude (tie : Tie) (x : Float) : Decimal :=
  (Binary.ofBits (x.toBits.toNat % Nat.pow 2 63)).shortest tie

def isNegative (x : Float) : Bool := Nat.pow 2 63 ≤ x.toBits.toNat

def signed (x : Float) (text : String) : String := if isNegative x then "-" ++ text else text

/-- Plain decimal text: never an exponent, no point after a whole number; ties go up. -/
def plainNumber (x : Float) : String :=
  if x.isNaN then "NaN"
  else if x.isInf then signed x "inf"
  else signed x ((magnitude .upper x).positional "")

/-- Decimal text of a finite number with a point or an exponent in it; ties go to the even digit. -/
def pointedNumber (x : Float) : String := signed x (magnitude .even x).compact

end AmpTuner.Text
