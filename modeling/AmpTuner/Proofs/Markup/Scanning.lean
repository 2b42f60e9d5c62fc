import AmpTuner.Markup.Token
import Mathlib.Data.List.Basic

/-!
# What the scanners stop at

Every scanner is `upTo` a test of what follows. `Clear` is the one fact about a text that decides
what `upTo` does in front of it, and each test has a lemma that says in plain words when a text is
clear of it: `clear_atHead_iff` for tests of one character, `clear_isPrefixOf_singleton_iff` for a
quote or an angle bracket, `clear_atMarkup` for text without markup.

Every scanner has one lemma that tells apart the ways in which it can succeed, from `attributeValue_cases` to
`scanned_of_scan`; what is proved of a token later goes by these cases, and opens no scanner again.

The last part is about letters: lower case leaves a name a name.
-/

namespace AmpTuner.Markup.Token

/-! ## Where a scan stops -/

/-- The test holds nowhere in the text, when `rest` follows it. -/
def Clear (stop : List Char → Bool) (rest : List Char) : List Char → Prop
  | [] => True
  | c :: s => stop (c :: s ++ rest) = false ∧ Clear stop rest s

/-- A scan passes over what is clear and stops where it has to. -/
theorem upTo_of_clear {stop : List Char → Bool} {s rest : List Char} (hs : Clear stop rest s)
    (hrest : rest = [] ∨ stop rest = true) : upTo stop (s ++ rest) = (s, rest) := by
  -- along the text, which `upTo` goes through without stopping
  induction s with
  | nil =>
    cases rest with
    | nil => rfl
    | cons c rest => simp [upTo, hrest.resolve_left (by simp)]
  | cons c s ih =>
    obtain ⟨hc, hs⟩ := hs
    rw [List.cons_append] at hc ⊢
    rw [upTo, hc, ih hs]
    rfl

/-- What a scan has passed over is clear, and it stopped where it had to. -/
theorem clear_of_upTo {stop : List Char → Bool} {input s rest : List Char}
    (h : upTo stop input = (s, rest)) :
    input = s ++ rest ∧ Clear stop rest s ∧ (rest = [] ∨ stop rest = true) := by
  induction input generalizing s with
  | nil =>
    obtain ⟨rfl, rfl⟩ := Prod.mk.inj h
    exact ⟨rfl, trivial, .inl rfl⟩
  | cons c input ih =>
    rw [upTo] at h
    split at h
    · next hstop =>
      obtain ⟨rfl, rfl⟩ := Prod.mk.inj h
      exact ⟨rfl, trivial, .inr hstop⟩
    · next hstop =>
      obtain ⟨rfl, rfl⟩ := Prod.mk.inj h
      obtain ⟨hinput, hclear, hrest⟩ := ih rfl
      rw [List.cons_append, ← hinput]
      refine ⟨rfl, ⟨?_, hclear⟩, hrest⟩
      rw [List.cons_append, ← hinput]
      exact Bool.eq_false_iff.mpr hstop

/-- Wherever in the text one begins to read, the test fails. -/
theorem clear_iff {stop : List Char → Bool} {s rest : List Char} :
    Clear stop rest s ↔ ∀ tail, tail <:+ s → tail ≠ [] → stop (tail ++ rest) = false := by
  induction s with
  | nil =>
    refine iff_of_true trivial fun tail htail hne => absurd (List.suffix_nil.mp htail) hne
  | cons c s ih =>
    rw [Clear, ih]
    constructor
    · rintro ⟨hc, hs⟩ tail htail hne
      rcases List.suffix_cons_iff.mp htail with rfl | htail
      · exact hc
      · exact hs tail htail hne
    · exact fun h => ⟨h _ (List.suffix_refl _) (List.cons_ne_nil _ _),
        fun tail htail hne => h tail (htail.trans (List.suffix_cons _ _)) hne⟩

/-- A scan that stops at a kind of character passes over all others. -/
theorem clear_atHead_iff {p : Char → Bool} {s rest : List Char} :
    Clear (atHead p) rest s ↔ ∀ c ∈ s, p c = false := by
  induction s with
  | nil => simp [Clear]
  | cons c s ih => simp [Clear, atHead, ih]

/-- A scan for one character passes over a text without it. -/
theorem clear_isPrefixOf_singleton_iff {q : Char} {s rest : List Char} :
    Clear [q].isPrefixOf rest s ↔ q ∉ s := by
  induction s with
  | nil => simp [Clear]
  | cons c s ih =>
    simp only [Clear, ih, List.cons_append, List.isPrefixOf_cons_cons, List.isPrefixOf_nil_left,
      Bool.and_true, beq_eq_false_iff_ne, List.mem_cons, not_or, ne_eq]

/-- Without a bracket there is no markup. -/
theorem clear_atMarkup {s rest : List Char} (h : '<' ∉ s) : Clear atMarkup rest s := by
  induction s with
  | nil => trivial
  | cons c s ih =>
    obtain ⟨hc, hs⟩ : '<' ≠ c ∧ '<' ∉ s := by simpa using h
    refine ⟨?_, ih hs⟩
    rw [List.cons_append, atMarkup]
    rintro d tail heq
    exact hc (List.cons.inj heq).1.symm

/-- Whether a text begins with a pattern depends on no more of it than the pattern is long. -/
theorem isPrefixOf_append {pattern s : List Char} (hlen : pattern.length ≤ s.length)
    (rest : List Char) : pattern.isPrefixOf (s ++ rest) = pattern.isPrefixOf s := by
  induction pattern generalizing s with
  | nil => simp
  | cons p pattern ih =>
    cases s with
    | nil => simp at hlen
    | cons c s =>
      rw [List.cons_append, List.isPrefixOf_cons_cons, List.isPrefixOf_cons_cons,
        ih (Nat.le_of_succ_le_succ hlen)]

/-- The ending itself is all that has to be known of what follows a text that it closes. -/
theorem clear_isPrefixOf_append_iff {ending s : List Char} (rest : List Char) :
    Clear ending.isPrefixOf (ending ++ rest) s ↔ Clear ending.isPrefixOf ending s := by
  induction s with
  | nil => rfl
  | cons c s ih =>
    rw [Clear, Clear, ih, ← List.append_assoc, isPrefixOf_append (by simp; omega)]

/-- A scan through an ending takes what is clear in front of it. -/
theorem through_of_clear {ending : String} {s rest : List Char} (hne : ending.toList ≠ [])
    (h : Clear ending.toList.isPrefixOf (ending.toList ++ rest) s) :
    through ending (s ++ (ending.toList ++ rest)) = .ok (s, rest) := by
  have hstop : ending.toList.isPrefixOf (ending.toList ++ rest) = true :=
    List.isPrefixOf_iff_prefix.mpr ⟨rest, rfl⟩
  rw [through, upTo_of_clear h (.inr hstop)]
  split
  · next heq =>
    have := (Prod.mk.inj heq).2
    simp [hne] at this
  · next heq =>
    obtain ⟨rfl, rfl⟩ := Prod.mk.inj heq
    simp

/-- What was taken by such a scan is clear, and the ending stands behind it. -/
theorem clear_of_through {ending : String} {input s rest : List Char}
    (h : through ending input = .ok (s, rest)) :
    input = s ++ (ending.toList ++ rest)
      ∧ Clear ending.toList.isPrefixOf (ending.toList ++ rest) s := by
  rw [through] at h
  split at h
  · cases h
  · next before after hne heq =>
    obtain ⟨rfl, rfl⟩ := Prod.mk.inj (Except.ok.inj h)
    obtain ⟨hinput, hclear, hafter⟩ := clear_of_upTo heq
    have hbegin := List.isPrefixOf_iff_prefix.mp (hafter.resolve_left fun hnil => hne hnil)
    have hsplit : ending.toList ++ after.drop ending.toList.length = after :=
      List.prefix_iff_eq_append.mp hbegin
    rw [hsplit]
    exact ⟨hinput, hclear⟩

/-! ## The ways to read -/

section Outcomes

variable {tag : String} {first : Char} {input rest : List Char}

/-- What is built from a text is built from the one in front of the ending. -/
theorem exists_of_map_through {α : Type} {ending : String} (build : List Char → α) {made : α}
    (h : (through ending input).map (fun found => (build found.1, found.2)) = .ok (made, rest)) :
    ∃ content, through ending input = .ok (content, rest) ∧ made = build content := by
  cases hthrough : through ending input with
  | error halt =>
    rw [hthrough] at h
    cases h
  | ok found =>
    rw [hthrough] at h
    obtain ⟨rfl, rfl⟩ := Prod.mk.inj (Except.ok.inj h)
    exact ⟨found.1, rfl, rfl⟩

/-- A value stands between two quotes of one kind, or goes on to where a bare one ends. -/
theorem attributeValue_cases {value : String} (h : attributeValue input = .ok (value, rest)) :
    ∃ raw, value = Reference.decode raw ∧ ((∃ more, input = '"' :: more ∧ through "\"" more = .ok (raw, rest))
      ∨ (∃ more, input = '\'' :: more ∧ through "'" more = .ok (raw, rest))
      ∨ input.head? ≠ some '"' ∧ input.head? ≠ some '\'' ∧ upTo (atHead endsBareValue) input = (raw, rest)) := by
  rw [attributeValue.eq_def] at h
  split at h
  · obtain ⟨raw, hthrough, rfl⟩ := exists_of_map_through Reference.decode h
    exact ⟨raw, rfl, .inl ⟨_, rfl, hthrough⟩⟩
  · obtain ⟨raw, hthrough, rfl⟩ := exists_of_map_through Reference.decode h
    exact ⟨raw, rfl, .inr (.inl ⟨_, rfl, hthrough⟩)⟩
  · next hdouble hsingle =>
    obtain ⟨rfl, rfl⟩ := Prod.mk.inj (Except.ok.inj h)
    refine ⟨_, rfl, .inr (.inr ⟨fun hquote => ?_, fun hquote => ?_, rfl⟩)⟩
    · obtain ⟨more, hmore⟩ := List.head?_eq_some_iff.mp hquote
      exact hdouble more hmore
    · obtain ⟨more, hmore⟩ := List.head?_eq_some_iff.mp hquote
      exact hsingle more hmore

/-- An attribute is a name, with a value behind an equals sign or without one. -/
theorem entry_cases {item : TagItem} (h : entry tag input = .ok (item, rest)) :
    ∃ name afterName value, upTo (atHead endsName) input = (name, afterName) ∧ name ≠ []
      ∧ item = .entry (lowerName name) value
      ∧ ((∃ afterSign, afterName.dropWhile Text.isBlank = '=' :: afterSign
          ∧ attributeValue (afterSign.dropWhile Text.isBlank) = .ok (value, rest))
        ∨ afterName.dropWhile Text.isBlank = rest ∧ value = "") := by
  rw [entry] at h
  split at h
  · cases h
  · next name afterName hempty hname =>
    have hne : name ≠ [] := fun hnil => hempty hnil
    split at h
    · next afterSign hsign =>
      cases hvalue : attributeValue (afterSign.dropWhile Text.isBlank) with
      | error halt =>
        rw [hvalue] at h
        cases h
      | ok found =>
        rw [hvalue] at h
        obtain ⟨rfl, rfl⟩ := Prod.mk.inj (Except.ok.inj h)
        exact ⟨name, afterName, found.1, hname, hne, rfl, .inl ⟨afterSign, hsign, hvalue⟩⟩
    · obtain ⟨rfl, rfl⟩ := Prod.mk.inj (Except.ok.inj h)
      exact ⟨name, afterName, "", hname, hne, rfl, .inr ⟨rfl, rfl⟩⟩

/-- Behind blanks, an item is one of the two ends of a tag, a slash that means nothing, or an attribute. -/
theorem tagItem_cases {item : TagItem} (h : tagItem tag input = .ok (item, rest)) :
    (item = .finish false ∧ input.dropWhile Text.isBlank = '>' :: rest)
      ∨ (item = .finish true ∧ input.dropWhile Text.isBlank = '/' :: '>' :: rest)
      ∨ (item = .slash ∧ input.dropWhile Text.isBlank = '/' :: rest ∧ rest.head? ≠ some '>')
      ∨ entry tag (input.dropWhile Text.isBlank) = .ok (item, rest) := by
  rw [tagItem] at h
  split at h
  case h_1 => cases h
  case h_2 hitem =>
    obtain ⟨rfl, rfl⟩ := Prod.mk.inj (Except.ok.inj h)
    exact .inl ⟨rfl, hitem⟩
  case h_3 hitem =>
    obtain ⟨rfl, rfl⟩ := Prod.mk.inj (Except.ok.inj h)
    exact .inr (.inl ⟨rfl, hitem⟩)
  case h_4 hclose hitem =>
    obtain ⟨rfl, rfl⟩ := Prod.mk.inj (Except.ok.inj h)
    refine .inr (.inr (.inl ⟨rfl, hitem, fun hnext => ?_⟩))
    obtain ⟨more, hmore⟩ := List.head?_eq_some_iff.mp hnext
    exact hclose more hmore
  case h_5 => exact .inr (.inr (.inr h))

/-- Literal content goes up to its end tag, which is skipped, or to the end of the input. -/
theorem literal_cases {content : String} (h : literal tag input = .ok (content, rest)) :
    ∃ chars after, upTo (startsIgnoringCase ('<' :: '/' :: tag.toList)) input = (chars, after)
      ∧ content = String.ofList chars
      ∧ (after = [] ∧ rest = [] ∨ after ≠ [] ∧ ∃ skipped, through ">" after = .ok (skipped, rest)) := by
  rw [literal] at h
  dsimp only at h
  generalize upTo (startsIgnoringCase ('<' :: '/' :: tag.toList)) input = scanned at h ⊢
  obtain ⟨chars, after⟩ := scanned
  split at h
  · next hnil =>
    obtain ⟨rfl, rfl⟩ := Prod.mk.inj (Except.ok.inj h)
    exact ⟨chars, after, rfl, rfl, .inl ⟨hnil, rfl⟩⟩
  · next hne =>
    obtain ⟨skipped, hthrough, rfl⟩ := exists_of_map_through (fun _ => String.ofList chars) h
    exact ⟨chars, after, rfl, rfl, .inr ⟨hne, skipped, hthrough⟩⟩

/-- A start tag is a name and attributes. It is complete if it is void or closes itself, it takes literal content along,
or it opens its element. -/
theorem startTag_cases {token : Token} (h : startTag input = .ok (token, rest)) :
    ∃ name afterName attrs closes after, upTo (atHead endsName) input = (name, afterName)
      ∧ attributes (lowerName name) [] afterName = .ok (attrs, closes, after)
      ∧ ((isVoid (lowerName name) = true ∨ closes = true) ∧ token = complete ⟨lowerName name, attrs⟩ "" ∧ rest = after
        ∨ isVoid (lowerName name) = false ∧ closes = false
          ∧ (isRawText (lowerName name) = true
              ∧ (∃ content, literal (lowerName name) after = .ok (content, rest)
                ∧ token = complete ⟨lowerName name, attrs⟩ content)
            ∨ isRawText (lowerName name) = false ∧ token = opening ⟨lowerName name, attrs⟩ ∧ rest = after)) := by
  simp only [startTag, bind, Except.bind, pure, Except.pure] at h
  split at h
  · cases h
  · next found hattributes =>
    refine ⟨_, _, found.1, found.2.1, found.2.2, rfl, hattributes, ?_⟩
    split at h
    · next hcloses =>
      obtain ⟨rfl, rfl⟩ := Prod.mk.inj (Except.ok.inj h)
      exact .inl ⟨by simpa using hcloses, rfl, rfl⟩
    · next hopen =>
      rw [Bool.or_eq_true, not_or, Bool.not_eq_true, Bool.not_eq_true] at hopen
      refine .inr ⟨hopen.1, hopen.2, ?_⟩
      split at h
      · next hraw =>
        split at h
        · cases h
        · next read hliteral =>
          obtain ⟨rfl, rfl⟩ := Prod.mk.inj (Except.ok.inj h)
          exact .inl ⟨hraw, _, hliteral, rfl⟩
      · next hraw =>
        obtain ⟨rfl, rfl⟩ := Prod.mk.inj (Except.ok.inj h)
        exact .inr ⟨Bool.eq_false_iff.mpr hraw, rfl, rfl⟩

/-- An end tag is a name and what is skipped behind it. -/
theorem exists_of_endTag {token : Token} (h : endTag input = .ok (token, rest)) :
    ∃ name after skipped, upTo (atHead endsName) input = (name, after) ∧ through ">" after = .ok (skipped, rest)
      ∧ token = closing (lowerName name) := by
  simp only [endTag, bind, Except.bind, pure, Except.pure] at h
  split at h
  · cases h
  · next found hthrough =>
    obtain ⟨rfl, rfl⟩ := Prod.mk.inj (Except.ok.inj h)
    exact ⟨_, _, found.1, rfl, hthrough, rfl⟩

/-- What the scanner takes a token for, which is the first construct in this order that begins like the input. -/
inductive Scanned (first : Char) (input rest : List Char) : Token → Prop
  | comment {content : List Char} (hbegins : "<!--".toList.isPrefixOf (first :: input) = true)
      (h : through "-->" ((first :: input).drop 4) = .ok (content, rest)) :
      Scanned first input rest (.comment (String.ofList content))
  | doctype {name : List Char} (hbegins : startsIgnoringCase "<!doctype".toList (first :: input) = true)
      (h : through ">" ((first :: input).drop 9) = .ok (name, rest)) :
      Scanned first input rest (.doctype (Text.trim (String.ofList name)))
  | closing {token : Token} (hbegins : "</".toList.isPrefixOf (first :: input) = true)
      (h : endTag ((first :: input).drop 2) = .ok (token, rest)) : Scanned first input rest token
  | start {token : Token} (hfirst : first = '<') (hletter : atHead isAsciiLetter input = true)
      (h : startTag input = .ok (token, rest)) : Scanned first input rest token
  | text {more : List Char} (hcomment : "<!--".toList.isPrefixOf (first :: input) = false)
      (hdoctype : startsIgnoringCase "<!doctype".toList (first :: input) = false)
      (hclosing : "</".toList.isPrefixOf (first :: input) = false)
      (hstart : ¬ (first = '<' ∧ atHead isAsciiLetter input = true)) (h : upTo atMarkup input = (more, rest)) :
      Scanned first input rest (.text (Reference.decode (first :: more)))

theorem scanned_of_scan {token : Token} (h : scan first input = .ok (token, rest)) :
    Scanned first input rest token := by
  simp only [scan] at h
  split at h
  · next hbegins =>
    obtain ⟨content, hthrough, rfl⟩ :=
      exists_of_map_through (fun content => comment (String.ofList content)) h
    exact .comment hbegins hthrough
  · next hcomment =>
    split at h
    · next hbegins =>
      obtain ⟨name, hthrough, rfl⟩ :=
        exists_of_map_through (fun name => doctype (Text.trim (String.ofList name))) h
      exact .doctype hbegins hthrough
    · next hdoctype =>
      split at h
      · next hbegins => exact .closing hbegins h
      · next hclosing =>
        split at h
        · next hstart =>
          rw [Bool.and_eq_true, beq_iff_eq] at hstart
          exact .start hstart.1 hstart.2 h
        · next hstart =>
          rw [Bool.and_eq_true, beq_iff_eq] at hstart
          obtain ⟨rfl, rfl⟩ := Prod.mk.inj (Except.ok.inj h)
          exact .text (Bool.eq_false_iff.mpr hcomment) (Bool.eq_false_iff.mpr hdoctype)
            (Bool.eq_false_iff.mpr hclosing) hstart rfl

end Outcomes

/-! ## Letters -/

theorem toLower_toLower (c : Char) : c.toLower.toLower = c.toLower := by
  unfold Char.toLower
  grind

/-- A character is its own lower case, or a capital whose lower case is a small letter. -/
theorem toLower_cases (c : Char) :
    c.toLower = c ∨ (65 ≤ c.toNat ∧ c.toNat ≤ 90 ∧ c.toLower.toNat = c.toNat + 32) := by
  unfold Char.toLower
  split
  · next h =>
    have hlow : 65 ≤ c.val.toNat := UInt32.le_iff_toNat_le.mp h.1
    have hhigh : c.val.toNat ≤ 90 := UInt32.le_iff_toNat_le.mp h.2
    refine .inr ⟨hlow, hhigh, ?_⟩
    -- the sum does not wrap around, as both numbers are small
    show (c.val + 32).toNat = c.val.toNat + 32
    rw [UInt32.toNat_add]
    simp only [UInt32.reduceToNat]
    omega
  · exact .inl rfl

/-- No letter ends a name. -/
theorem endsName_eq_false_of_toNat {c : Char} (hlow : 65 ≤ c.toNat) (hhigh : c.toNat ≤ 122) :
    endsName c = false := by
  -- all characters that end a name come before the letters
  have hne {d : Char} (hd : d.toNat < 65) : c ≠ d := by
    rintro rfl
    omega
  have hblank : Text.isBlank c = false := by
    simp only [Text.isBlank, Bool.or_eq_false_iff, Bool.and_eq_false_iff, decide_eq_false_iff_not,
      beq_eq_false_iff_ne]
    omega
  simp [endsName, hblank, hne (d := '>') (by decide), hne (d := '=') (by decide),
    hne (d := '/') (by decide)]

/-- What does not end a name does not do so in lower case. -/
theorem endsName_toLower {c : Char} (h : endsName c = false) : endsName c.toLower = false := by
  rcases toLower_cases c with hc | ⟨hlow, hhigh, hc⟩
  · rw [hc]
    exact h
  · exact endsName_eq_false_of_toNat (by omega) (by omega)

/-- The letters, by their numbers. -/
theorem isAsciiLetter_iff {c : Char} :
    isAsciiLetter c = true ↔ (97 ≤ c.toNat ∧ c.toNat ≤ 122) ∨ (65 ≤ c.toNat ∧ c.toNat ≤ 90) := by
  simp only [isAsciiLetter, Bool.or_eq_true, Bool.and_eq_true, decide_eq_true_eq, Char.le_def,
    UInt32.le_iff_toNat_le]
  rfl

/-- A letter stays a letter in lower case. -/
theorem isAsciiLetter_toLower {c : Char} (h : isAsciiLetter c = true) :
    isAsciiLetter c.toLower = true := by
  rcases toLower_cases c with hc | ⟨hlow, hhigh, hc⟩
  · rw [hc]
    exact h
  · exact isAsciiLetter_iff.mpr (.inl (by omega))

/-- A letter is not a character that is none. -/
theorem ne_of_isAsciiLetter {c d : Char} (h : isAsciiLetter c = true)
    (hd : isAsciiLetter d = false) : c ≠ d := by
  rintro rfl
  rw [h] at hd
  cases hd

theorem endsName_of_isAsciiLetter {c : Char} (h : isAsciiLetter c = true) : endsName c = false := by
  have := isAsciiLetter_iff.mp h
  exact endsName_eq_false_of_toNat (by omega) (by omega)

end AmpTuner.Markup.Token
