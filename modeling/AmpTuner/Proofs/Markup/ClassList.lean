import AmpTuner.Proofs.Text.Parts

/-!
# Appending to a class list

The classes of an element are the words of its class attribute, and these stand between ASCII blanks. A new
class goes behind the list after white space of any kind was cut off at its ends, so that a class that begins or
ends with a blank from outside ASCII is cut too.

* **`wordsOf_append_cons`**, **`wordsOf_append_front`** and **`wordsOf_append_back`** tell the words of a text
  from those of its parts.
* **`wordsOf_trimChars_iff`**: a text keeps its words when it is trimmed exactly when nothing but separators is
  cut off.
* **`addsClass_addClass`**: what appending a class does to an element, and the exact condition under which the
  classes that were there stay.
-/

namespace AmpTuner.Text

variable {s t m front back : List Char} {c : Char}

/-! ## The words of a text -/

/-- The words between separators, on characters. -/
def wordsOf (s : List Char) : List (List Char) := (splitChars isAsciiBlank s).filter (!·.isEmpty)

theorem words_eq (content : String) : words content = (wordsOf content.toList).map String.ofList := rfl

theorem wordsOf_append_cons (s : List Char) (hc : isAsciiBlank c = true) :
    wordsOf (s ++ c :: t) = wordsOf s ++ wordsOf t := by
  rw [wordsOf, splitChars_append_cons s hc, List.filter_append]
  rfl

theorem wordsOf_of_free (hne : m ≠ []) (hfree : ∀ c ∈ m, isAsciiBlank c = false) : wordsOf m = [m] := by
  rw [wordsOf, splitChars_of_free hfree, List.filter_eq_self]
  simpa using hne

/-- Separators in front make no word. -/
theorem wordsOf_append_front (hfront : ∀ c ∈ front, isAsciiBlank c = true) : wordsOf (front ++ s) = wordsOf s := by
  induction front with
  | nil => rfl
  | cons c front ih =>
    obtain ⟨hc, hfront⟩ := List.forall_mem_cons.mp hfront
    have hsplit := wordsOf_append_cons (t := front ++ s) [] hc
    rw [List.cons_append, ← List.nil_append (c :: (front ++ s)), hsplit, ih hfront]
    rfl

/-- Separators behind make no word. -/
theorem wordsOf_append_back (hback : ∀ c ∈ back, isAsciiBlank c = true) : wordsOf (s ++ back) = wordsOf s := by
  cases back with
  | nil => rw [List.append_nil]
  | cons c back =>
    obtain ⟨hc, hback⟩ := List.forall_mem_cons.mp hback
    have hnone : wordsOf back = [] := by
      rw [← List.append_nil back, wordsOf_append_front hback]
      rfl
    rw [wordsOf_append_cons s hc, hnone, List.append_nil]

/-- The words hold all that is no separator. -/
theorem flatten_wordsOf (s : List Char) : (wordsOf s).flatten = s.filter (!isAsciiBlank ·) := by
  induction hn : s.length using Nat.strong_induction_on generalizing s with
  | _ n ih =>
    rcases free_or_exists_sep isAsciiBlank s with hfree | ⟨word, c, rest, rfl, hc, hword⟩
    · have hself : s.filter (!isAsciiBlank ·) = s := List.filter_eq_self.mpr (by simpa using hfree)
      rw [hself]
      rcases eq_or_ne s [] with rfl | hne
      · rfl
      · rw [wordsOf_of_free hne hfree, List.flatten_singleton]
    -- the first word, and the words of what is behind the first separator
    · have hself : word.filter (!isAsciiBlank ·) = word := List.filter_eq_self.mpr (by simpa using hword)
      have hrest := ih rest.length (by rw [← hn, List.length_append, List.length_cons]; omega) rest rfl
      rw [wordsOf_append_cons word hc, List.flatten_append, hrest, List.filter_append, hself,
        List.filter_cons_of_neg (by simp [hc])]
      rcases eq_or_ne word [] with rfl | hne
      · rfl
      · rw [wordsOf_of_free hne hword, List.flatten_singleton]

/-! ## Words and trimming -/

/-- Trimming cuts nothing off but separators. -/
def TrimsSeparators (s : List Char) : Prop :=
  ∃ front back, s = front ++ trimChars s ++ back ∧ ∀ c ∈ front ++ back, isAsciiBlank c = true

theorem exists_append_trimChars (s : List Char) : ∃ front back, s = front ++ trimChars s ++ back := by
  refine ⟨s.takeWhile isBlank, (s.dropWhile isBlank).rtakeWhile isBlank, ?_⟩
  rw [Markup.trimChars_eq, List.append_assoc, List.rdropWhile_append_rtakeWhile, List.takeWhile_append_dropWhile]

/-- Trimming leaves the words alone exactly if all it cuts off are separators. -/
theorem wordsOf_trimChars_iff : wordsOf (trimChars s) = wordsOf s ↔ TrimsSeparators s := by
  constructor
  · intro h
    obtain ⟨front, back, hsplit⟩ := exists_append_trimChars s
    refine ⟨front, back, hsplit, ?_⟩
    -- the same words hold the same characters, so that none of them were cut off
    have hkept : (trimChars s).filter (!isAsciiBlank ·) = s.filter (!isAsciiBlank ·) := by
      rw [← flatten_wordsOf, h, flatten_wordsOf]
    have hlength := congrArg List.length hkept
    rw [congrArg (List.filter (!isAsciiBlank ·)) hsplit] at hlength
    simp only [List.filter_append, List.length_append] at hlength
    have hnone : (front ++ back).filter (!isAsciiBlank ·) = [] := by
      rw [← List.length_eq_zero_iff, List.filter_append, List.length_append]
      omega
    simpa using List.filter_eq_nil_iff.mp hnone
  · rintro ⟨front, back, hsplit, hblank⟩
    obtain ⟨hfront, hback⟩ := List.forall_mem_append.mp hblank
    calc wordsOf (trimChars s) = wordsOf (front ++ (trimChars s ++ back)) := by
          rw [wordsOf_append_front hfront, wordsOf_append_back hback]
      _ = wordsOf s := by rw [← List.append_assoc, ← hsplit]

theorem words_trim_iff {content : String} : words (trim content) = words content ↔ TrimsSeparators content.toList := by
  rw [words_eq, words_eq, toList_trim, ← wordsOf_trimChars_iff]
  exact (List.map_injective_iff.mpr fun _ _ h => String.ofList_injective h).eq_iff

section Word

variable {name : String} (hne : name.toList ≠ []) (hfree : ∀ c ∈ name.toList, isAsciiBlank c = false)

include hne hfree

theorem words_of_free : words name = [name] := by
  rw [words_eq, wordsOf_of_free hne hfree, List.map_singleton, String.ofList_toList]

/-- A word behind a space is one more word. -/
theorem words_append_word (content : String) : words (content ++ " " ++ name) = words content ++ [name] := by
  have hlist : (content ++ " " ++ name).toList = content.toList ++ ' ' :: name.toList := by simp
  rw [words_eq, hlist, wordsOf_append_cons _ (by decide), List.map_append, ← words_eq, ← words_eq,
    words_of_free hne hfree]

end Word

end AmpTuner.Text

namespace AmpTuner.Markup

/-! ## The class list of an element -/

/-- Writing one attribute leaves the list of the others as it is. -/
theorem Attribute.filter_put (name value : String) (L : List Attribute) :
    (Attribute.put name value L).filter (·.name != name) = L.filter (·.name != name) := by
  induction L with
  | nil => simp [put]
  | cons a rest ih =>
    rw [put]
    split
    · next ha =>
      rw [List.filter_cons_of_neg (by simp [ha]), List.filter_cons_of_neg (by simp [ha])]
    · next ha =>
      rw [List.filter_cons_of_pos (by simpa using ha), List.filter_cons_of_pos (by simpa using ha), ih]

namespace Element

open Text (isAsciiBlank words trim TrimsSeparators words_trim_iff words_of_free words_append_word)

variable {el : Element} {name other : String}

/-- The value of the class attribute, empty when there is none. -/
def classText (el : Element) : String := (el.attribute? "class").getD ""

/-- The tokens of the class attribute. -/
def classList (el : Element) : List String := words el.classText

/-- An element has the classes of its list. -/
theorem hasClass_iff_mem : el.hasClass name = true ↔ name ∈ el.classList := by
  rw [hasClass, classList, classText]
  cases el.attribute? "class" with
  | none => simp [show words "" = [] from rfl]
  | some list => simp

/-- What appending a class makes of an element. -/
structure AddsClass (el : Element) (name : String) (el' : Element) : Prop where
  tag : el'.tag = el.tag
  others : el'.attributes.filter (·.name != "class") = el.attributes.filter (·.name != "class")
  hasClass : el'.hasClass name = true
  again : el'.addClass name = el'
  present : name ∈ el.classList → el' = el
  absent : name ∉ el.classList → el'.classList = words (trim el.classText) ++ [name]
  classList_iff : el'.classList = (if name ∈ el.classList then el.classList else el.classList ++ [name])
    ↔ name ∈ el.classList ∨ TrimsSeparators el.classText.toList
  hasClass_other : name ∈ el.classList ∨ TrimsSeparators el.classText.toList →
    ∀ other, other ≠ name → el'.hasClass other = el.hasClass other

theorem addClass_of_mem (h : name ∈ el.classList) : el.addClass name = el := by
  rw [addClass, if_pos (hasClass_iff_mem.mpr h)]

section Absent

variable (hne : name.toList ≠ []) (hfree : ∀ c ∈ name.toList, isAsciiBlank c = false) (h : name ∉ el.classList)

include h

theorem addClass_of_not_mem : el.addClass name
    = el.set "class" (if (trim el.classText).isEmpty then name else trim el.classText ++ " " ++ name) := by
  rw [addClass, if_neg (mt hasClass_iff_mem.mp h)]
  rfl

include hne hfree

/-- The new class list is that of the trimmed text with the class behind it. -/
theorem classList_addClass : (el.addClass name).classList = words (trim el.classText) ++ [name] := by
  rw [addClass_of_not_mem h, classList, classText, attribute?_set, if_pos rfl, Option.getD_some]
  split
  · next hempty =>
    rw [String.isEmpty_iff.mp hempty, words_of_free hne hfree]
    rfl
  · exact words_append_word hne hfree _

theorem classList_addClass_iff : (el.addClass name).classList = el.classList ++ [name]
    ↔ TrimsSeparators el.classText.toList := by
  rw [classList_addClass hne hfree h, List.append_left_inj, classList, words_trim_iff]

end Absent

/-- The class is in the list afterwards, once, and the other attributes are as they were. The classes that were there
stay exactly when nothing but separators is cut off the ends of the list, or when there was nothing to append. -/
theorem addsClass_addClass (el : Element) (hne : name.toList ≠ []) (hfree : ∀ c ∈ name.toList, isAsciiBlank c = false) :
    AddsClass el name (el.addClass name) := by
  by_cases h : name ∈ el.classList
  · rw [addClass_of_mem h]
    exact {
      tag := rfl
      others := rfl
      hasClass := hasClass_iff_mem.mpr h
      again := addClass_of_mem h
      present := fun _ => rfl
      absent := fun hnot => absurd h hnot
      classList_iff := iff_of_true (if_pos h).symm (.inl h)
      hasClass_other := fun _ _ _ => rfl }
  · have hlist := classList_addClass hne hfree h
    have hhas : (el.addClass name).hasClass name = true := by
      rw [hasClass_iff_mem, hlist]
      exact List.mem_append_right _ (List.mem_singleton_self name)
    have hiff := classList_addClass_iff hne hfree h
    exact {
      tag := by rw [addClass_of_not_mem h]; rfl
      others := by rw [addClass_of_not_mem h]; exact Attribute.filter_put ..
      hasClass := hhas
      again := addClass_of_mem (hasClass_iff_mem.mp hhas)
      present := fun hmem => absurd hmem h
      absent := fun _ => hlist
      classList_iff := by rw [if_neg h, hiff, or_iff_right h]
      hasClass_other := fun hkept other hother => by
        have hkept := hiff.mpr (hkept.resolve_left h)
        rw [Bool.eq_iff_iff, hasClass_iff_mem, hasClass_iff_mem, hkept, List.mem_append, List.mem_singleton,
          or_iff_left hother] }

/-- A list with blanks of both kinds inside it and at its ends. -/
theorem addsClass_padded :
    let el : Element := ⟨"div", [⟨"id", "x"⟩, ⟨"class", "\t b\u00a0 c\n"⟩, ⟨"hidden", ""⟩]⟩
    "a".toList ≠ [] ∧ (∀ c ∈ "a".toList, isAsciiBlank c = false) ∧ AddsClass el "a" (el.addClass "a")
      ∧ (el.addClass "a").classList = ["b\u00a0", "c", "a"] := by
  intro el
  have hne : "a".toList ≠ [] := by decide
  have hfree : ∀ c ∈ "a".toList, isAsciiBlank c = false := List.forall_mem_singleton.mpr rfl
  exact ⟨hne, hfree, addsClass_addClass el hne hfree, by decide +kernel⟩

/-- The class that begins with a blank from outside ASCII loses it, and is another class then. -/
theorem classList_addClass_noBreakSpace :
    let el : Element := ⟨"div", [⟨"class", "\u00a0x"⟩]⟩
    "a" ∉ el.classList ∧ (el.addClass "a").classList ≠ el.classList ++ ["a"]
      ∧ el.hasClass "\u00a0x" = true ∧ (el.addClass "a").hasClass "\u00a0x" = false := by
  decide +kernel

end Element

end AmpTuner.Markup
