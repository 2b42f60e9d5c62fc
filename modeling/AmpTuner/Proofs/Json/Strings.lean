import AmpTuner.Json.Reader
import AmpTuner.Json.Writer

/-!
# Strings are read back

* **`stringChars_escapeChar`**: what the writer makes of one character, the reader makes that character of again. Only
  control characters without a letter of their own take the way over hexadecimal digits (**`hexEscape_controlDigits`**).
* **`stringBody_escaped`** is the whole string, for every string there is.
-/

namespace AmpTuner.Json

variable {c : Char} {rest : List Char}

/-! ## Hexadecimal escapes -/

/-- Four hexadecimal digits are read as their number. -/
theorem hexCode_append {digits : List Char} (hlength : digits.length = 4)
    (hdigits : digits.all (Text.isDigitOf 16) = true) :
    hexCode (digits ++ rest) = .ok (Text.ofDigits 16 digits, rest) := by
  have htake : (digits ++ rest).take 4 = digits := by rw [← hlength, List.take_left]
  have hdrop : (digits ++ rest).drop 4 = rest := by rw [← hlength, List.drop_left]
  rw [hexCode, htake, hdrop]
  exact if_pos (by rw [hlength, hdigits]; rfl)

/-- The digits of a control character. -/
def controlDigits (n : Nat) : List Char := ['0', '0', hexDigit (n / 16), hexDigit (n % 16)]

theorem controlDigits_spec : ∀ n < 32, (controlDigits n).all (Text.isDigitOf 16) = true
    ∧ Text.ofDigits 16 (controlDigits n) = n := by
  decide

/-- An escaped control character is read back. -/
theorem hexEscape_controlDigits {n : Nat} (hn : n < 32) :
    hexEscape (controlDigits n ++ rest) = .ok (Char.ofNat n, rest) := by
  obtain ⟨hdigits, hvalue⟩ := controlDigits_spec n hn
  have hlow : isLowSurrogate n = false := by
    rw [isLowSurrogate, Bool.and_eq_false_iff]
    exact .inl (decide_eq_false (by omega))
  have hhigh : isHighSurrogate n = false := by
    rw [isHighSurrogate, Bool.and_eq_false_iff]
    exact .inl (decide_eq_false (by omega))
  rw [hexEscape, hexCode_append rfl hdigits, hvalue]
  simp only [hlow, hhigh]
  rfl

/-! ## Characters -/

/-- An escape is read as one character. -/
theorem stringChars_escape (escaped : List Char) (h : escape (escaped ++ rest) = .ok (c, rest)) :
    stringChars ('\\' :: (escaped ++ rest)) = (stringChars rest).map fun (more, rest) => (c :: more, rest) := by
  rw [stringChars]
  split
  · next heq => rw [h] at heq; cases heq
  · next heq =>
    rw [h] at heq
    obtain ⟨rfl, rfl⟩ := Prod.mk.inj (Except.ok.inj heq)
    rfl

/-- A character without an escape is read as it is. -/
theorem stringChars_plain (hquote : c ≠ '"') (hslash : c ≠ '\\') (hcontrol : ¬ c < ' ') :
    stringChars (c :: rest) = (stringChars rest).map fun (more, rest) => (c :: more, rest) := by
  rw [stringChars, if_neg hcontrol]
  · exact fun heq => hquote heq
  · exact fun heq => hslash heq

/-- The reader takes back what the writer makes of a character. -/
theorem stringChars_escapeChar (c : Char) (rest : List Char) : stringChars (escapeChar c ++ rest)
    = (stringChars rest).map fun (more, rest) => (c :: more, rest) := by
  rw [escapeChar]
  split
  · next heq => exact heq ▸ stringChars_escape ['"'] rfl
  split
  · next heq => exact heq ▸ stringChars_escape ['\\'] rfl
  split
  · next heq => exact heq ▸ stringChars_escape ['b'] rfl
  split
  · next heq => exact heq ▸ stringChars_escape ['f'] rfl
  split
  · next heq => exact heq ▸ stringChars_escape ['n'] rfl
  split
  · next heq => exact heq ▸ stringChars_escape ['r'] rfl
  split
  · next heq => exact heq ▸ stringChars_escape ['t'] rfl
  next hquote hslash _ _ _ _ _ =>
  split
  · next hcontrol =>
    have hsmall : c.toNat < 32 := hcontrol
    refine stringChars_escape ('u' :: controlDigits c.toNat) ?_
    show hexEscape (controlDigits c.toNat ++ rest) = _
    rw [hexEscape_controlDigits hsmall, Char.ofNat_toNat]
  · next hcontrol => exact stringChars_plain hquote hslash hcontrol

/-- A whole escaped string is read back, up to its quote. -/
theorem stringBody_escaped (s : String) (rest : List Char) :
    stringBody (s.toList.flatMap escapeChar ++ '"' :: rest) = .ok (s, rest) := by
  have hchars (chars : List Char) : stringChars (chars.flatMap escapeChar ++ '"' :: rest) = .ok (chars, rest) := by
    induction chars with
    | nil => rw [List.flatMap_nil, List.nil_append, stringChars]
    | cons c chars ih => rw [List.flatMap_cons, List.append_assoc, stringChars_escapeChar, ih]; rfl
  rw [stringBody, hchars]
  exact congrArg (fun s => Except.ok (s, rest)) String.ofList_toList

end AmpTuner.Json
