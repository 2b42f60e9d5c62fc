import AmpTuner.Text.Decimal

/-!
Character references such as `&amp;` and `&#65;`: the two escapes of the writer and the decoding of
the reader.
-/

namespace AmpTuner.Markup

/-- In text, the ampersand and both angle brackets are written as references. -/
def escapeTextChar : Char → List Char
  | '&' => "&amp;".toList
  | '<' => "&lt;".toList
  | '>' => "&gt;".toList
  | c => [c]

/-- Between double quotes, the ampersand and the quote are written as references. -/
def escapeAttributeChar : Char → List Char
  | '&' => "&amp;".toList
  | '"' => "&quot;".toList
  | c => [c]

def escapeText (s : String) : String := String.ofList (s.toList.flatMap escapeTextChar)

def escapeAttribute (s : String) : String := String.ofList (s.toList.flatMap escapeAttributeChar)

namespace Reference

/-- The character with a code point, unless that is a surrogate or too large. -/
def codePoint? (n : Nat) : Option Char := if h : n.isValidChar then some (Char.ofNatAux n h) else none

/-- The code of a numeric reference, given what follows the number sign: hexadecimal behind an `x`,
else decimal. -/
def code? : List Char → Option Nat
  | 'x' :: digits => Text.word? 16 digits
  | 'X' :: digits => Text.word? 16 digits
  | digits => Text.word? 10 digits

/-- The character that a reference names, given the text between ampersand and semicolon. -/
def meaning? (name : List Char) : Option Char :=
  match String.ofList name with
  | "amp" => some '&'
  | "lt" => some '<'
  | "gt" => some '>'
  | "quot" => some '"'
  | "apos" => some '\''
  | "nbsp" => some '\u00a0'
  | _ =>
    match name with
    | '#' :: code => (code? code).bind codePoint?
    | _ => none

def maxNameBytes : Nat := 9

/-- Reads a reference behind its ampersand. Its name ends at the first semicolon, which stands at
most ten bytes after the ampersand. -/
def read? (input : List Char) : Option (Char × List Char) :=
  let name := (input.take maxNameBytes).takeWhile (· != ';')
  match input.drop name.length with
  | ';' :: rest =>
    if (String.ofList name).utf8ByteSize ≤ maxNameBytes then (meaning? name).map (·, rest) else none
  | _ => none

theorem length_of_read? {input rest : List Char} {c : Char} (h : read? input = some (c, rest)) :
    rest.length < input.length := by
  simp only [read?] at h
  split at h
  · next rest' heq =>
    split at h
    · obtain ⟨_, _, hpair⟩ := Option.map_eq_some_iff.mp h
      obtain ⟨rfl, rfl⟩ := Prod.mk.inj hpair
      have := congrArg List.length heq
      simp only [List.length_drop, List.length_cons] at this
      omega
    · cases h
  · cases h

/-- Replaces every reference by its character. An ampersand that begins none stands for itself. -/
def decodeChars (input : List Char) : List Char :=
  match input with
  | [] => []
  | c :: rest =>
    if c = '&' then
      match _hread : read? rest with
      | some (named, rest') => named :: decodeChars rest'
      | none => '&' :: decodeChars rest
    else c :: decodeChars rest
termination_by input.length
decreasing_by
  · have := length_of_read? _hread
    simp only [List.length_cons]; omega
  all_goals simp only [List.length_cons]; omega

def decode (input : List Char) : String := String.ofList (decodeChars input)

end Reference

end AmpTuner.Markup
