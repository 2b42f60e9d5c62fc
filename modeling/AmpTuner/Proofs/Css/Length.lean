import AmpTuner.Css.Length
import Mathlib.Data.List.TakeWhile

/-!
# Which texts are lengths

A length is a number with a unit behind it or one of two keywords. The grammar of the numbers stands here
apart from the reader, which goes through the text once and takes as many digits as there are.

* **`Spells`** is the pattern of a number with its unit, over any class of digits. **`Measures`** is that over
  the ten ASCII digits.
* **`Length.digits?_append`**, **`Length.of_digits?`** and **`LengthUnit.ofSuffix?_eq_some_iff`** tell what each part
  of the reader takes, and **`Length.exists_numeric?_iff`** puts them together.
* **`reads_parse`**: the reader takes the texts of the grammar and the allowed keywords and nothing else. A
  pattern that also takes other digits, with a reading of the number behind it that does not, takes the same
  texts.
-/

namespace AmpTuner.Css

open Length (isAsciiDigit)

/-! ## The grammar -/

/-- The ten digits that a number is made of. -/
def IsAsciiDigit (c : Char) : Prop := '0' ≤ c ∧ c ≤ '9'

theorem isAsciiDigit_iff {c : Char} : isAsciiDigit c = true ↔ IsAsciiDigit c := by
  rw [isAsciiDigit, Bool.and_eq_true, decide_eq_true_eq, decide_eq_true_eq]
  rfl

theorem not_isAsciiDigit_point : ¬ IsAsciiDigit '.' := by
  rw [← isAsciiDigit_iff]
  decide

/-- One or more digits. -/
def Digits (digit : Char → Prop) (s : List Char) : Prop := s ≠ [] ∧ ∀ c ∈ s, digit c

/-- Digits, and behind a point more of them. -/
inductive Numeral (digit : Char → Prop) : List Char → Prop
  | whole {digits : List Char} (hdigits : Digits digit digits) : Numeral digit digits
  | decimal {whole fraction : List Char} (hwhole : Digits digit whole) (hfraction : Digits digit fraction) :
      Numeral digit (whole ++ '.' :: fraction)

/-- The units by their names; without one, pixels are meant. -/
inductive Suffix : List Char → LengthUnit → Prop
  | none : Suffix [] .px
  | unit (unit : LengthUnit) : Suffix unit.name.toList unit

/-- The text is a numeral, with a unit behind it or without. -/
inductive Spells (digit : Char → Prop) : List Char → List Char → LengthUnit → Prop
  | mk {numeral suffix : List Char} {unit : LengthUnit} (hnumeral : Numeral digit numeral)
      (hsuffix : Suffix suffix unit) : Spells digit numeral (numeral ++ suffix) unit

/-- The text is a number of that unit. -/
def Measures (s : List Char) (unit : LengthUnit) : Prop := ∃ numeral, Spells IsAsciiDigit numeral s unit

/-! ## A pattern over more digits -/

section Classes

variable {digit : Char → Prop} {s numeral : List Char} {unit : LengthUnit}

theorem Digits.mono {wider : Char → Prop} (h : Digits digit s) (hwider : ∀ c ∈ s, digit c → wider c) :
    Digits wider s :=
  ⟨h.1, fun c hc => hwider c hc (h.2 c hc)⟩

/-- A numeral is one over any wider class of digits. -/
theorem Numeral.mono {wider : Char → Prop} (h : Numeral digit numeral)
    (hwider : ∀ c ∈ numeral, digit c → wider c) : Numeral wider numeral := by
  cases h with
  | whole hdigits => exact .whole (hdigits.mono hwider)
  | decimal hwhole hfraction =>
    refine .decimal (hwhole.mono fun c hc => hwider c ?_) (hfraction.mono fun c hc => hwider c ?_)
    · exact List.mem_append_left _ hc
    · exact List.mem_append_right _ (List.mem_cons_of_mem _ hc)

/-- A numeral consists of digits and points. -/
theorem Numeral.point_or_digit (h : Numeral digit numeral) : ∀ c ∈ numeral, c = '.' ∨ digit c := by
  cases h with
  | whole hdigits => exact fun c hc => .inr (hdigits.2 c hc)
  | decimal hwhole hfraction =>
    intro c hc
    rcases List.mem_append.mp hc with hc | hc
    · exact .inr (hwhole.2 c hc)
    · exact (List.mem_cons.mp hc).imp_right (hfraction.2 c)

/-- A pattern may take more digits than there are in ASCII. Whoever then reads the number from ASCII digits alone
takes what the grammar takes. -/
theorem measures_iff_exists_spells (hascii : ∀ c, IsAsciiDigit c → digit c) (hpoint : ¬ digit '.') :
    Measures s unit ↔ ∃ numeral, Spells digit numeral s unit ∧ ∀ c ∈ numeral, c = '.' ∨ IsAsciiDigit c := by
  constructor
  · rintro ⟨_, hnumeral, hsuffix⟩
    exact ⟨_, .mk (hnumeral.mono fun c _ => hascii c) hsuffix, hnumeral.point_or_digit⟩
  · rintro ⟨_, ⟨hnumeral, hsuffix⟩, hread⟩
    refine ⟨_, .mk (hnumeral.mono fun c hc hdigit => (hread c hc).resolve_left ?_) hsuffix⟩
    rintro rfl
    exact hpoint hdigit

end Classes

/-! ## What the reader takes -/

/-- A unit is read exactly from its suffix. -/
theorem LengthUnit.ofSuffix?_eq_some_iff {s : List Char} {unit : LengthUnit} :
    LengthUnit.ofSuffix? s = some unit ↔ Suffix s unit := by
  constructor
  · intro h
    rw [ofSuffix?] at h
    split at h
    · next hempty =>
      rw [List.isEmpty_iff.mp hempty, ← Option.some.inj h]
      exact .none
    · have hname := List.find?_some h
      rw [← beq_iff_eq.mp hname]
      exact .unit unit
  · rintro (_ | _)
    · rfl
    · cases unit <;> rfl

/-- Digits are read up to where there are no more. -/
theorem Length.digits?_append {digits rest : List Char} (hdigits : Digits IsAsciiDigit digits)
    (hstop : ∀ c ∈ rest.head?, ¬ IsAsciiDigit c) : digits? (digits ++ rest) = some (digits, rest) := by
  have hall : ∀ c ∈ digits, isAsciiDigit c = true := fun c hc => isAsciiDigit_iff.mpr (hdigits.2 c hc)
  have htake : (digits ++ rest).takeWhile isAsciiDigit = digits := by
    rw [List.takeWhile_append_of_pos hall]
    cases rest with
    | nil => simp
    | cons c rest => rw [List.takeWhile_cons_of_neg (mt isAsciiDigit_iff.mp (hstop c rfl)), List.append_nil]
  have hdrop : (digits ++ rest).dropWhile isAsciiDigit = rest := by
    rw [List.dropWhile_append_of_pos hall]
    cases rest with
    | nil => rfl
    | cons c rest => rw [List.dropWhile_cons_of_neg (mt isAsciiDigit_iff.mp (hstop c rfl))]
  simp only [digits?, htake, hdrop]
  exact if_neg (by simpa using hdigits.1)

/-- What is taken as digits are digits, and stand in front of the rest. -/
theorem Length.of_digits? {s digits rest : List Char} (h : digits? s = some (digits, rest)) :
    s = digits ++ rest ∧ Digits IsAsciiDigit digits := by
  simp only [digits?] at h
  split at h
  · cases h
  · next hne =>
    obtain ⟨rfl, rfl⟩ := Prod.mk.inj (Option.some.inj h)
    refine ⟨List.takeWhile_append_dropWhile.symm, by simpa using hne, fun c hc => ?_⟩
    exact isAsciiDigit_iff.mp (List.mem_takeWhile_imp hc)

/-- A unit begins with a letter. -/
theorem Suffix.head?_ne {suffix : List Char} {unit : LengthUnit} (h : Suffix suffix unit) :
    ∀ c ∈ suffix.head?, ¬ IsAsciiDigit c ∧ c ≠ '.' := by
  simp only [← isAsciiDigit_iff]
  rcases h with _ | _
  · simp
  · intro c hc
    cases unit <;> (cases hc; decide)

/-- The reader finds a number of some unit exactly in what the grammar calls one. -/
theorem Length.exists_numeric?_iff {s : List Char} {unit : LengthUnit} :
    (∃ value, numeric? s = some (value, unit)) ↔ Measures s unit := by
  constructor
  · rintro ⟨value, h⟩
    simp only [numeric?, Option.bind_eq_bind, Option.bind_eq_some_iff, Prod.exists] at h
    obtain ⟨whole, rest, hread, h⟩ := h
    obtain ⟨rfl, hwhole⟩ := of_digits? hread
    split at h
    · obtain ⟨⟨fraction, suffix⟩, hdigits, hrest⟩ := Option.bind_eq_some_iff.mp h
      obtain ⟨_, hunit, hvalue⟩ := Option.bind_eq_some_iff.mp hrest
      obtain ⟨-, rfl⟩ := Prod.mk.inj (Option.some.inj hvalue)
      obtain ⟨rfl, hfraction⟩ := of_digits? hdigits
      refine ⟨whole ++ '.' :: fraction, ?_⟩
      rw [← List.cons_append, ← List.append_assoc]
      exact .mk (.decimal hwhole hfraction) (LengthUnit.ofSuffix?_eq_some_iff.mp hunit)
    · obtain ⟨_, hunit, hvalue⟩ := Option.bind_eq_some_iff.mp h
      obtain ⟨-, rfl⟩ := Prod.mk.inj (Option.some.inj hvalue)
      exact ⟨whole, .mk (.whole hwhole) (LengthUnit.ofSuffix?_eq_some_iff.mp hunit)⟩
  · rintro ⟨_, ⟨hnumeral, hsuffix⟩⟩
    have hunit := LengthUnit.ofSuffix?_eq_some_iff.mpr hsuffix
    have hstop := hsuffix.head?_ne
    cases hnumeral with
    | whole hdigits =>
      rw [numeric?, digits?_append hdigits fun c hc => (hstop c hc).1]
      simp only [Option.bind_eq_bind, Option.bind_some]
      split
      · exact absurd rfl (hstop '.' rfl).2
      · exact ⟨_, by rw [hunit]; rfl⟩
    | @decimal _ fraction hwhole hfraction =>
      have hpoint (rest : List Char) : ∀ c ∈ ('.' :: rest).head?, ¬ IsAsciiDigit c := by
        simpa using not_isAsciiDigit_point
      rw [List.append_assoc, List.cons_append, numeric?, digits?_append hwhole (hpoint _)]
      simp only [Option.bind_eq_bind, Option.bind_some]
      rw [digits?_append hfraction fun c hc => (hstop c hc).1, Option.bind_some, hunit]
      exact ⟨_, rfl⟩

example : Measures "1.5rem".toList .rem := Length.exists_numeric?_iff.mp ⟨_, rfl⟩

/-! ## What is a length -/

/-- A keyword is no number. -/
theorem Length.numeric?_keywords : numeric? "auto".toList = none ∧ numeric? "fluid".toList = none := ⟨rfl, rfl⟩

/-- A numeral with a unit is read as a number of that unit. -/
theorem Length.parse_of_measures {s : String} {unit : LengthUnit} (h : Measures s.toList unit)
    (autoAllowed fluidAllowed : Bool) : ∃ value, parse (some s) autoAllowed fluidAllowed = .number value unit := by
  obtain ⟨value, hvalue⟩ := exists_numeric?_iff.mpr h
  refine ⟨value, ?_⟩
  unfold parse
  split
  · next heq => cases heq
  · next heq =>
    rw [Option.some.inj heq, numeric?_keywords.1] at hvalue
    cases hvalue
  · next heq =>
    rw [Option.some.inj heq, numeric?_keywords.2] at hvalue
    cases hvalue
  · next heq =>
    rw [← Option.some.inj heq, hvalue]

/-- Any other text is one of the two keywords or malformed. -/
theorem Length.parse_of_not_measures {s : String} (h : ∀ unit, ¬ Measures s.toList unit)
    (autoAllowed fluidAllowed : Bool) : parse (some s) autoAllowed fluidAllowed = if s = "auto" then .auto autoAllowed
      else if s = "fluid" then .fluid fluidAllowed else .malformed := by
  have hnone : numeric? s.toList = none := by
    rw [Option.eq_none_iff_forall_ne_some]
    exact fun found hfound => h found.2 (exists_numeric?_iff.mp ⟨found.1, hfound⟩)
  unfold parse
  split
  · next heq => cases heq
  · next heq => rw [Option.some.inj heq, if_pos rfl]
  · next heq =>
    rw [Option.some.inj heq, if_neg (by decide), if_pos rfl]
  · next hauto hfluid heq =>
    obtain rfl := Option.some.inj heq
    rw [hnone, if_neg hauto, if_neg hfluid]

/-- A length is of one kind at most. -/
theorem Length.kinds_le_one (length : Length) :
    length.isNumeric.toNat + length.isAuto.toNat + length.isFluid.toNat ≤ 1 := by
  cases length <;> simp [isNumeric, isAuto, isFluid]

/-- What the reader makes of a text: a number with its unit where the grammar has one, and otherwise a keyword where
it is allowed or nothing valid. -/
structure Length.Reads (s : String) (autoAllowed fluidAllowed : Bool) (length : Length) : Prop where
  numeric_iff : length.isValid = true ∧ length.isNumeric = true ↔ ∃ unit, Measures s.toList unit
  unit : ∀ unit, Measures s.toList unit → length.unit = unit
  valid_iff : (∀ unit, ¬ Measures s.toList unit) →
    (length.isValid = true ↔ s = "auto" ∧ autoAllowed = true ∨ s = "fluid" ∧ fluidAllowed = true)
  auto_iff : length.isAuto = true ↔ s = "auto"
  fluid_iff : length.isFluid = true ↔ s = "fluid"

/-- The grammar agrees with the reader on numbers. -/
theorem Length.reads_of_measures {s : String} {unit : LengthUnit} (h : Measures s.toList unit)
    (autoAllowed fluidAllowed : Bool) :
    Reads s autoAllowed fluidAllowed (parse (some s) autoAllowed fluidAllowed) := by
  obtain ⟨value, hparse⟩ := parse_of_measures h autoAllowed fluidAllowed
  have hkeyword {keyword : String} (hnone : numeric? keyword.toList = none) : s ≠ keyword := by
    rintro rfl
    obtain ⟨value, hvalue⟩ := exists_numeric?_iff.mpr h
    rw [hnone] at hvalue
    cases hvalue
  rw [hparse]
  exact {
    numeric_iff := iff_of_true ⟨rfl, rfl⟩ ⟨unit, h⟩
    unit := fun unit' h' => by
      obtain ⟨value', hparse'⟩ := parse_of_measures h' autoAllowed fluidAllowed
      exact (Length.number.inj (hparse.symm.trans hparse')).2
    valid_iff := fun hnone => absurd h (hnone unit)
    auto_iff := iff_of_false Bool.false_ne_true (hkeyword numeric?_keywords.1)
    fluid_iff := iff_of_false Bool.false_ne_true (hkeyword numeric?_keywords.2) }

/-- It agrees on keywords and on what is no length. -/
theorem Length.reads_of_not_measures {s : String} (h : ∀ unit, ¬ Measures s.toList unit)
    (autoAllowed fluidAllowed : Bool) :
    Reads s autoAllowed fluidAllowed (parse (some s) autoAllowed fluidAllowed) := by
  have hnumeric : (parse (some s) autoAllowed fluidAllowed).isNumeric = false := by
    rw [parse_of_not_measures h]
    split_ifs <;> rfl
  refine ⟨iff_of_false (fun hvalid => ?_) (not_exists.mpr h), fun unit hunit => absurd hunit (h unit),
    fun _ => ?_, ?_, ?_⟩
  · rw [hnumeric] at hvalid
    exact Bool.false_ne_true hvalid.2
  all_goals
    rw [parse_of_not_measures h]
    split_ifs with hauto hfluid
  -- what the text is tells each of the three apart
  all_goals simp_all [isValid, isAuto, isFluid]

/-- The grammar agrees with the reader on every text. -/
theorem Length.reads_some (s : String) (autoAllowed fluidAllowed : Bool) :
    Reads s autoAllowed fluidAllowed (parse (some s) autoAllowed fluidAllowed) := by
  by_cases h : ∃ unit, Measures s.toList unit
  · obtain ⟨unit, hunit⟩ := h
    exact reads_of_measures hunit autoAllowed fluidAllowed
  · exact reads_of_not_measures (not_exists.mp h) autoAllowed fluidAllowed

/-! ## What is told of a length -/

section Kinds

variable {value : Option String} {autoAllowed fluidAllowed : Bool}

/-- Only a value that is not there makes no length at all. -/
theorem Length.isDefined_parse : (parse value autoAllowed fluidAllowed).isDefined = value.isSome := by
  cases value with
  | none => rfl
  | some s =>
    by_cases h : ∃ unit, Measures s.toList unit
    · obtain ⟨unit, hunit⟩ := h
      obtain ⟨numeral, hparse⟩ := parse_of_measures hunit autoAllowed fluidAllowed
      rw [hparse]
      rfl
    · rw [parse_of_not_measures (not_exists.mp h)]
      split_ifs <;> rfl

theorem Length.isAuto_parse : (parse value autoAllowed fluidAllowed).isAuto = true ↔ value = some "auto" := by
  cases value with
  | none => exact iff_of_false Bool.false_ne_true nofun
  | some s => rw [(reads_some s autoAllowed fluidAllowed).auto_iff, Option.some_inj]

theorem Length.isFluid_parse : (parse value autoAllowed fluidAllowed).isFluid = true ↔ value = some "fluid" := by
  cases value with
  | none => exact iff_of_false Bool.false_ne_true nofun
  | some s => rw [(reads_some s autoAllowed fluidAllowed).fluid_iff, Option.some_inj]

/-- Exactly a numeral with a unit is numeric. -/
theorem Length.isNumeric_parse : (parse value autoAllowed fluidAllowed).isNumeric = true
    ↔ ∃ s unit, value = some s ∧ Measures s.toList unit := by
  cases value with
  | none => exact iff_of_false Bool.false_ne_true nofun
  | some s =>
    have hvalid (h : (parse (some s) autoAllowed fluidAllowed).isNumeric = true) :
        (parse (some s) autoAllowed fluidAllowed).isValid = true := by
      cases hparse : parse (some s) autoAllowed fluidAllowed <;> simp_all [isNumeric, isValid]
    rw [← and_iff_right_of_imp hvalid, (reads_some s autoAllowed fluidAllowed).numeric_iff]
    simp

/-- A value is refused when it is neither a number nor a keyword that is allowed. -/
theorem Length.isValid_parse {s : String} : (parse (some s) autoAllowed fluidAllowed).isValid = true
    ↔ (∃ unit, Measures s.toList unit) ∨ s = "auto" ∧ autoAllowed = true ∨ s = "fluid" ∧ fluidAllowed = true := by
  have hreads := reads_some s autoAllowed fluidAllowed
  by_cases h : ∃ unit, Measures s.toList unit
  · exact iff_of_true (hreads.numeric_iff.mpr h).1 (.inl h)
  · rw [hreads.valid_iff (not_exists.mp h), or_iff_right h]

end Kinds

/-- The reader accepts what the grammar and the permissions say, a length is of one kind at most, and it makes no
difference when a pattern takes digits that are not in ASCII as long as the number behind it is refused then. -/
theorem Length.reads_parse (s : String) (autoAllowed fluidAllowed : Bool) :
    Reads s autoAllowed fluidAllowed (parse (some s) autoAllowed fluidAllowed)
      ∧ (∀ value, (parse value autoAllowed fluidAllowed).isNumeric.toNat
        + (parse value autoAllowed fluidAllowed).isAuto.toNat
        + (parse value autoAllowed fluidAllowed).isFluid.toNat ≤ 1)
      ∧ ∀ digit : Char → Prop, (∀ c, IsAsciiDigit c → digit c) → ¬ digit '.' → ∀ unit,
        (Measures s.toList unit ↔ ∃ numeral, Spells digit numeral s.toList unit
          ∧ ∀ c ∈ numeral, c = '.' ∨ IsAsciiDigit c) := by
  exact ⟨reads_some s autoAllowed fluidAllowed, fun value => kinds_le_one _,
    fun digit hascii hpoint unit => measures_iff_exists_spells hascii hpoint⟩

end AmpTuner.Css
