import AmpTuner.Json.Fault
import AmpTuner.Text.Decimal

/-!
Reading the values without structure: words, strings and numbers. Every reader takes the unread
input and returns what it leaves.
-/

namespace AmpTuner.Json

abbrev Scan (α : Type) := Except Fault (α × List Char)

def isBlank (c : Char) : Bool := c == ' ' || c == '\n' || c == '\t' || c == '\r'

def skipBlank (input : List Char) : List Char := input.dropWhile isBlank

/-- Expects the letters of a word that has begun. -/
def word : List Char → List Char → Except Fault (List Char)
  | [], rest => .ok rest
  | _ :: _, [] => .error (.here .valueEnds [])
  | expected :: more, c :: rest =>
    if c = expected then word more rest else .error (.past .wordExpected (c :: rest))

/-! ## Strings -/

/-- Four hexadecimal digits. -/
def hexCode (input : List Char) : Scan Nat :=
  let digits := input.take 4
  if digits.length = 4 && digits.all (Text.isDigitOf 16) then
    .ok (Text.ofDigits 16 digits, input.drop 4)
  else if bytes input < 4 then .error (.here .stringEnds [])
  else .error (.past .invalidEscape input 4)

def isHighSurrogate (n : Nat) : Bool := 0xD800 ≤ n && n ≤ 0xDBFF

def isLowSurrogate (n : Nat) : Bool := 0xDC00 ≤ n && n ≤ 0xDFFF

/-- The second half of a character outside the basic plane, whose first half is read. -/
def lowEscape (high : Nat) (input : List Char) : Scan Char :=
  match input with
  | '\\' :: 'u' :: rest =>
    match hexCode rest with
    | .error fault => .error fault
    | .ok (low, rest) =>
      if isLowSurrogate low then
        .ok (Char.ofNat (0x10000 + (high - 0xD800) * 0x400 + (low - 0xDC00)), rest)
      else .error (.here .loneSurrogate rest)
  | [] => .error (.here .stringEnds [])
  | ['\\'] => .error (.here .stringEnds [])
  | '\\' :: rest => .error (.past .escapeEnds rest)
  | rest => .error (.past .escapeEnds rest)

/-- The character of a hexadecimal escape, which takes two of them outside the basic plane. -/
def hexEscape (input : List Char) : Scan Char :=
  match hexCode input with
  | .error fault => .error fault
  | .ok (high, rest) =>
    if isLowSurrogate high then .error (.here .loneSurrogate rest)
    else if isHighSurrogate high then lowEscape high rest
    else .ok (Char.ofNat high, rest)

def plainEscape? : Char → Option Char
  | '"' => some '"'
  | '\\' => some '\\'
  | '/' => some '/'
  | 'b' => some '\x08'
  | 'f' => some '\x0c'
  | 'n' => some '\n'
  | 'r' => some '\r'
  | 't' => some '\t'
  | _ => none

/-- The character that stands behind a backslash. -/
def escape : List Char → Scan Char
  | [] => .error (.here .stringEnds [])
  | 'u' :: rest => hexEscape rest
  | c :: rest =>
    match plainEscape? c with
    | some meant => .ok (meant, rest)
    | none => .error (.past .invalidEscape (c :: rest))

theorem length_of_hexCode {input rest : List Char} {n : Nat} (h : hexCode input = .ok (n, rest)) :
    rest.length ≤ input.length := by
  simp only [hexCode] at h
  split at h
  · obtain ⟨_, rfl⟩ := Prod.mk.inj (Except.ok.inj h); simp
  · split at h <;> cases h

theorem length_of_lowEscape {high : Nat} {input rest : List Char} {c : Char}
    (h : lowEscape high input = .ok (c, rest)) : rest.length ≤ input.length := by
  unfold lowEscape at h
  split at h
  case h_1 rest' =>
    split at h
    · cases h
    · next hlow =>
      have := length_of_hexCode hlow
      split at h
      · obtain ⟨_, rfl⟩ := Prod.mk.inj (Except.ok.inj h)
        simp only [List.length_cons]; omega
      · cases h
  all_goals cases h

theorem length_of_hexEscape {input rest : List Char} {c : Char}
    (h : hexEscape input = .ok (c, rest)) : rest.length ≤ input.length := by
  unfold hexEscape at h
  split at h
  · cases h
  · next hhigh =>
    have := length_of_hexCode hhigh
    split at h
    · cases h
    · split at h
      · have := length_of_lowEscape h; omega
      · obtain ⟨_, rfl⟩ := Prod.mk.inj (Except.ok.inj h); assumption

theorem length_of_escape {input rest : List Char} {c : Char} (h : escape input = .ok (c, rest)) :
    rest.length < input.length := by
  unfold escape at h
  split at h
  · cases h
  · have := length_of_hexEscape h; simp only [List.length_cons]; omega
  · split at h
    · obtain ⟨_, rfl⟩ := Prod.mk.inj (Except.ok.inj h); simp
    · cases h

/-- The characters of a string up to its closing quote. -/
def stringChars (input : List Char) : Scan (List Char) :=
  match input with
  | [] => .error (.here .stringEnds [])
  | '"' :: rest => .ok ([], rest)
  | '\\' :: rest =>
    match _hescape : escape rest with
    | .error fault => .error fault
    | .ok (c, rest) => (stringChars rest).map fun (more, rest) => (c :: more, rest)
  | c :: rest =>
    if c < ' ' then .error (.past .controlCharacter (c :: rest))
    else (stringChars rest).map fun (more, rest) => (c :: more, rest)
termination_by input.length
decreasing_by
  · have := length_of_escape _hescape; simp only [List.length_cons]; omega
  · simp

def stringBody (input : List Char) : Scan String :=
  (stringChars input).map fun (s, rest) => (String.ofList s, rest)

/-! ## Numbers

Digits are taken into a significand below `2 ^ 64`; those that do not fit count for the exponent
alone, or not at all behind the point. The significand is then scaled by one multiplication or
division with a power of ten. -/

def isDigit (c : Char) : Bool := '0' ≤ c && c ≤ '9'

def significandLimit : Nat := Nat.pow 2 64

/-- Takes digits into the significand while it stays below the limit, and counts them. -/
def takeDigits (significand count : Nat) : List Char → Nat × Nat × List Char
  | [] => (significand, count, [])
  | c :: rest =>
    let next := 10 * significand + Text.digitValue c
    if isDigit c && next < significandLimit then takeDigits next (count + 1) rest
    else (significand, count, c :: rest)

def startsWithDigit : List Char → Bool
  | c :: _ => isDigit c
  | [] => false

def powerOfTen (n : Nat) : Float := Float.ofScientific 1 false n

/-- Divides by `10 ^ n`, in steps of at most `10 ^ 308`. -/
def scaleDown (x : Float) (n : Nat) : Float :=
  if n ≤ 308 then x / powerOfTen n
  else if x == 0 then x
  else scaleDown (x / powerOfTen 308) (n - 308)
termination_by n

/-- `significand * 10 ^ exponent` with its sign, unless that is too large. -/
def scaled (negative : Bool) (significand : Nat) (exponent : Int) (rest : List Char) : Scan Number :=
  let x := (UInt64.ofNat significand).toFloat
  let signed (x : Float) : Scan Number := .ok (.real (if negative then -x else x), rest)
  if exponent < 0 then signed (scaleDown x exponent.natAbs)
  else if exponent ≤ 308 then
    let y := x * powerOfTen exponent.natAbs
    if y.isInf then .error (.here .numberOutOfRange rest) else signed y
  else if x == 0 then signed x
  else .error (.here .numberOutOfRange rest)

def exponentLimit : Nat := Nat.pow 2 31

/-- Takes the digits of an exponent; when it reaches the limit, gives the input behind the digit that
does so. -/
def takeExponent (exponent : Nat) : List Char → Except (List Char) (Nat × List Char)
  | [] => .ok (exponent, [])
  | c :: rest =>
    if isDigit c then
      let next := 10 * exponent + Text.digitValue c
      if next < exponentLimit then takeExponent next rest else .error rest
    else .ok (exponent, c :: rest)

/-- The exponent behind its mark, added to the one that the digits give. -/
def exponentPart (negative : Bool) (significand : Nat) (start : Int) (input : List Char) :
    Scan Number :=
  let (down, digits) := match input with
    | '+' :: rest => (false, rest)
    | '-' :: rest => (true, rest)
    | _ => (false, input)
  match digits with
  | [] => .error (.here .valueEnds [])
  | c :: _ =>
    if !isDigit c then .error (.past .invalidNumber digits)
    else
      match takeExponent 0 digits with
      | .ok (exponent, rest) =>
        scaled negative significand (if down then start - exponent else start + exponent) rest
      | .error rest =>
        if significand ≠ 0 && !down then .error (.here .numberOutOfRange rest)
        else .ok (.real (if negative then -0.0 else 0.0), rest.dropWhile isDigit)

/-- What may follow the digits of a fraction, or an integer that is too long to be exact. -/
def afterDigits (negative : Bool) (significand : Nat) (exponent : Int) (input : List Char) :
    Scan Number :=
  match input with
  | 'e' :: rest => exponentPart negative significand exponent rest
  | 'E' :: rest => exponentPart negative significand exponent rest
  | _ => scaled negative significand exponent input

/-- The fraction behind its point. -/
def fractionPart (negative : Bool) (significand : Nat) (start : Int) (input : List Char) :
    Scan Number :=
  let (significand, count, rest) := takeDigits significand 0 input
  if startsWithDigit rest then
    afterDigits negative significand (start - count) (rest.dropWhile isDigit)
  else if count = 0 then
    .error (match rest with
      | [] => .here .valueEnds []
      | _ => .past .invalidNumber rest)
  else afterDigits negative significand (start - count) rest

/-- What follows an integer that fits: a fraction, an exponent, or neither. Minus zero, and what lies
below `- 2 ^ 63`, is no integer but a real number. -/
def afterInteger (negative : Bool) (significand : Nat) (input : List Char) : Scan Number :=
  match input with
  | '.' :: rest => fractionPart negative significand 0 rest
  | 'e' :: rest => exponentPart negative significand 0 rest
  | 'E' :: rest => exponentPart negative significand 0 rest
  | _ =>
    .ok (if !negative then .natural significand
      else if significand = 0 || Nat.pow 2 63 < significand then
        .real (-(UInt64.ofNat significand).toFloat)
      else .negative significand, input)

/-- A number behind its sign. -/
def numberBody (negative : Bool) (input : List Char) : Scan Number :=
  match input with
  | [] => .error (.here .valueEnds [])
  | '0' :: rest =>
    if startsWithDigit rest then .error (.past .invalidNumber rest)
    else afterInteger negative 0 rest
  | c :: _ =>
    if !isDigit c then .error (.past .invalidNumber input)
    else
      let (significand, _, rest) := takeDigits 0 0 input
      if startsWithDigit rest then
        let surplus := (rest.takeWhile isDigit).length
        match rest.dropWhile isDigit with
        | '.' :: rest => fractionPart negative significand surplus rest
        | rest => afterDigits negative significand surplus rest
      else afterInteger negative significand rest

/-- A number at the start of the input, when a sign or a digit begins it. -/
def number? : List Char → Option (Scan Number)
  | '-' :: rest => some (numberBody true rest)
  | c :: rest => if isDigit c then some (numberBody false (c :: rest)) else none
  | [] => none

end AmpTuner.Json
