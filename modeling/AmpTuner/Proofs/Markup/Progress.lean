import AmpTuner.Proofs.Markup.Scanning

/-!
# How far the scanners get

A scanner gives back what it has not read, and that is always the end of what it was given: no scanner
reads past the end of its input, and none goes back.

* **`suffix_of_scan`** is the result for a token and **`suffix_of_tagItem`** for an item of a start tag.
* **`entry_error_cases`** and **`tagItem_error_cases`** tell the two places at which a scanner gives up: the end of the
  input (`Halt.IsAtEnd`), and an equals sign in the place of an attribute name.
-/

namespace AmpTuner.Markup

/-- Something was not there when the input came to its end. -/
structure Halt.IsAtEnd (halt : Halt) : Prop where
  unread : halt.unread = []
  defect : ∀ tag, halt.defect ≠ .nameExpected tag

namespace Token

variable {tag ending : String} {first : Char} {input rest : List Char} {halt : Halt}

/-! ## What is left is an end of the input -/

theorem suffix_of_upTo {stop : List Char → Bool} {taken : List Char} (h : upTo stop input = (taken, rest)) :
    rest <:+ input :=
  ⟨taken, (clear_of_upTo h).1.symm⟩

theorem suffix_of_through {before : List Char} (h : through ending input = .ok (before, rest)) :
    rest <:+ input :=
  ⟨before ++ ending.toList, by rw [(clear_of_through h).1, List.append_assoc]⟩

/-- What is left behind a value is an end of the input. -/
theorem suffix_of_attributeValue {value : String} (h : attributeValue input = .ok (value, rest)) :
    rest <:+ input := by
  obtain ⟨raw, -, ⟨more, rfl, hthrough⟩ | ⟨more, rfl, hthrough⟩ | ⟨-, -, hbare⟩⟩ := attributeValue_cases h
  · exact (suffix_of_through hthrough).trans (List.suffix_cons _ _)
  · exact (suffix_of_through hthrough).trans (List.suffix_cons _ _)
  · exact suffix_of_upTo hbare

/-- What is left behind an attribute is an end of the input. -/
theorem suffix_of_entry {item : TagItem} (h : entry tag input = .ok (item, rest)) : rest <:+ input := by
  obtain ⟨name, afterName, value, hname, -, -, hread⟩ := entry_cases h
  have hblanks := (List.dropWhile_suffix Text.isBlank (l := afterName)).trans (suffix_of_upTo hname)
  rcases hread with ⟨afterSign, hsign, hvalue⟩ | ⟨rfl, -⟩
  · rw [hsign] at hblanks
    exact (((suffix_of_attributeValue hvalue).trans (List.dropWhile_suffix _)).trans
      (List.suffix_cons _ _)).trans hblanks
  · exact hblanks

/-- What is left behind an item of a tag is an end of the input. -/
theorem suffix_of_tagItem {item : TagItem} (h : tagItem tag input = .ok (item, rest)) : rest <:+ input := by
  have hblanks := List.dropWhile_suffix Text.isBlank (l := input)
  rcases tagItem_cases h with ⟨-, hitem⟩ | ⟨-, hitem⟩ | ⟨-, hitem, -⟩ | hentry
  · exact (List.suffix_cons _ _).trans (hitem ▸ hblanks)
  · exact ((List.suffix_cons _ _).trans (List.suffix_cons _ _)).trans (hitem ▸ hblanks)
  · exact (List.suffix_cons _ _).trans (hitem ▸ hblanks)
  · exact (suffix_of_entry hentry).trans hblanks

/-- What is left behind all attributes is an end of the input. By induction on the reading. -/
theorem suffix_of_attributes {found all : List Attribute} {closes : Bool}
    (h : attributes tag found input = .ok (all, closes, rest)) : rest <:+ input := by
  -- each item leaves an end of what the one before it left
  fun_induction attributes tag found input with
  | case1 => cases h
  | case2 found input _ _ hitem =>
    obtain ⟨-, -, rfl⟩ := by simpa using h
    exact suffix_of_tagItem hitem
  | case3 found input _ hitem ih => exact (ih h).trans (suffix_of_tagItem hitem)
  | case4 found input _ _ _ hitem ih => exact (ih h).trans (suffix_of_tagItem hitem)

theorem suffix_of_literal {content : String} (h : literal tag input = .ok (content, rest)) : rest <:+ input := by
  obtain ⟨chars, after, hchars, -, ⟨-, rfl⟩ | ⟨-, skipped, hthrough⟩⟩ := literal_cases h
  · exact List.nil_suffix
  · exact (suffix_of_through hthrough).trans (suffix_of_upTo hchars)

theorem suffix_of_startTag {token : Token} (h : startTag input = .ok (token, rest)) : rest <:+ input := by
  obtain ⟨name, afterName, attrs, closes, after, hname, hattributes, hcases⟩ := startTag_cases h
  have hafter := (suffix_of_attributes hattributes).trans (suffix_of_upTo hname)
  rcases hcases with ⟨-, -, rfl⟩ | ⟨-, -, ⟨-, content, hliteral, -⟩ | ⟨-, -, rfl⟩⟩
  · exact hafter
  · exact (suffix_of_literal hliteral).trans hafter
  · exact hafter

theorem suffix_of_endTag {token : Token} (h : endTag input = .ok (token, rest)) : rest <:+ input := by
  obtain ⟨name, after, skipped, hname, hthrough, -⟩ := exists_of_endTag h
  exact (suffix_of_through hthrough).trans (suffix_of_upTo hname)

/-- The first character is always read. -/
theorem suffix_of_scan {token : Token} (h : scan first input = .ok (token, rest)) : rest <:+ input := by
  cases scanned_of_scan h with
  | comment _ hthrough => exact (suffix_of_through hthrough).trans (List.drop_suffix 3 input)
  | doctype _ hthrough => exact (suffix_of_through hthrough).trans (List.drop_suffix 8 input)
  | closing _ hend => exact (suffix_of_endTag hend).trans (List.drop_suffix 1 input)
  | start _ _ hstart => exact suffix_of_startTag hstart
  | text _ _ _ _ hmore => exact suffix_of_upTo hmore

/-! ## Where a scanner gives up -/

/-- An ending that is missing is noticed at the end of the input. -/
theorem isAtEnd_of_through (h : through ending input = .error halt) : halt.IsAtEnd := by
  rw [through] at h
  split at h
  · obtain rfl := Except.error.inj h
    exact ⟨rfl, fun _ heq => by cases heq⟩
  · cases h

/-- Building something of the result does not change where a scan gives up. -/
theorem isAtEnd_of_map_through {α β : Type} {build : α → β} {scanned : Except Halt α}
    (hscanned : ∀ halt, scanned = .error halt → halt.IsAtEnd) (h : scanned.map build = .error halt) :
    halt.IsAtEnd := by
  cases hresult : scanned with
  | error found =>
    rw [hresult] at h
    obtain rfl := Except.error.inj h
    exact hscanned found hresult
  | ok found =>
    rw [hresult] at h
    cases h

/-- A quote that is missing is noticed at the end of the input. -/
theorem isAtEnd_of_attributeValue (h : attributeValue input = .error halt) : halt.IsAtEnd := by
  rw [attributeValue.eq_def] at h
  split at h
  · exact isAtEnd_of_map_through (fun _ => isAtEnd_of_through) h
  · exact isAtEnd_of_map_through (fun _ => isAtEnd_of_through) h
  · cases h

/-- An entry is refused where its value does not end, or where it has no name. -/
theorem entry_error_cases (h : entry tag input = .error halt) :
    halt.IsAtEnd ∨ halt = ⟨.nameExpected tag, input⟩ ∧ (upTo (atHead endsName) input).1 = [] := by
  rw [entry] at h
  split at h
  · next hname =>
    obtain rfl := Except.error.inj h
    exact .inr ⟨rfl, by rw [hname]⟩
  · split at h
    · exact .inl (isAtEnd_of_map_through (fun _ => isAtEnd_of_attributeValue) h)
    · cases h

/-- The only character that may stand in front of an item and begins none is the equals sign. -/
theorem tagItem_error_cases (h : tagItem tag input = .error halt) :
    halt.IsAtEnd ∨ ∃ more, input.dropWhile Text.isBlank = '=' :: more ∧ halt = ⟨.nameExpected tag, '=' :: more⟩ := by
  rw [tagItem] at h
  split at h
  case h_1 =>
    obtain rfl := Except.error.inj h
    exact .inl ⟨rfl, fun _ heq => by cases heq⟩
  case h_5 hnil hclose hslashClose hslash =>
    refine (entry_error_cases h).imp_right fun hrefused => ?_
    obtain ⟨hhalt, hempty⟩ := hrefused
    have hnonblank := List.head?_dropWhile_not Text.isBlank input
    generalize input.dropWhile Text.isBlank = items at h hnil hclose hslashClose hslash hhalt hempty hnonblank ⊢
    cases items with
    | nil => exact absurd rfl hnil
    | cons c more =>
      have hends : endsName c = true := by
        by_contra hplain
        rw [upTo, show atHead endsName (c :: more) = endsName c from rfl, if_neg hplain] at hempty
        cases hempty
      have hblank : Text.isBlank c = false := by simpa using hnonblank
      simp only [endsName, hblank, Bool.false_or, Bool.or_eq_true, beq_iff_eq] at hends
      rcases hends with (rfl | rfl) | rfl
      · exact absurd rfl (hclose more)
      · exact ⟨more, rfl, hhalt⟩
      · exact absurd rfl (hslash more)
  all_goals cases h

end Token

end AmpTuner.Markup
