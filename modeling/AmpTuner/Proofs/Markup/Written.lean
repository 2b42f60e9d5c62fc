import AmpTuner.Proofs.Markup.Joined
import AmpTuner.Proofs.Markup.References
import Mathlib.Data.List.DropRight

/-!
# Scanning what was written

The scanners are run over the writer's output, construct by construct, with whatever is written behind
it as the unread rest.

## The architecture

* **tags**: `attributes_written` takes an attribute list back from a start tag, by induction on the list;
  `tagItem` skips blanks first, so the blank in front of an attribute may be gone already.
* **`all_tokensAll`**: the tokens of a written forest are `Tree.tokensAll`. A text ends where the next
  markup begins, which is why no two texts may stand side by side.
-/

namespace AmpTuner.Markup

open Token (upTo atHead endsName isAsciiLetter Clear)

/-! ## Escaped texts -/

theorem escapeTextChar_ne_nil (c : Char) : escapeTextChar c ≠ [] := by
  unfold escapeTextChar
  split <;> simp

/-- A text that is not empty is not written as nothing. -/
theorem toList_escapeText_ne_nil {s : String} (h : s ≠ "") : (escapeText s).toList ≠ [] := by
  rw [escapeText, String.toList_ofList, ne_eq, List.flatMap_eq_nil_iff]
  intro hall
  apply h
  apply String.toList_injective
  rw [List.eq_nil_iff_forall_not_mem.mpr fun c hc => escapeTextChar_ne_nil c (hall c hc)]
  rfl

/-! ## Attributes -/

/-- The attributes of a start tag as they are written. -/
def Attribute.writeAll (attributes : List Attribute) : List Char :=
  attributes.flatMap fun a => ' ' :: a.toHtml.toList

theorem Attribute.toList_toHtml_of_value {a : Attribute} (h : a.value ≠ "") :
    a.toHtml.toList = a.name.toList ++ '=' :: '"' :: ((escapeAttribute a.value).toList ++ ['"']) := by
  rw [Attribute.toHtml, if_neg (by simpa using h)]
  simp [String.toList_append]

theorem Attribute.toHtml_of_value_eq {a : Attribute} (h : a.value = "") : a.toHtml = a.name := by
  rw [Attribute.toHtml, h]
  rfl

theorem Attribute.exists_toList_toHtml (a : Attribute) : ∃ tail, a.toHtml.toList = a.name.toList ++ tail := by
  by_cases h : a.value = ""
  · exact ⟨[], by rw [Attribute.toHtml_of_value_eq h, List.append_nil]⟩
  · exact ⟨_, Attribute.toList_toHtml_of_value h⟩

/-- A start tag in characters. -/
theorem Element.toList_startTag (el : Element) :
    el.startTag.toList = '<' :: (el.tag.toList ++ (Attribute.writeAll el.attributes ++ ['>'])) := by
  have hjoin : (String.join (el.attributes.map fun a => " " ++ a.toHtml)).toList
      = Attribute.writeAll el.attributes := by
    rw [String.toList_join, List.flatMap_map, Attribute.writeAll]
    refine List.flatMap_congr fun a _ => ?_
    simp [String.toList_append]
  simp [Element.startTag, String.toList_append, hjoin]

theorem Element.toList_endTag (el : Element) :
    el.endTag.toList = '<' :: '/' :: (el.tag.toList ++ ['>']) := by
  simp [Element.endTag, String.toList_append]

namespace Token

theorem isBlank_of_endsName_eq_false {c : Char} (h : endsName c = false) : Text.isBlank c = false := by
  simp only [endsName, Bool.or_eq_false_iff] at h
  exact h.1.1.1

/-- What follows an attribute in a start tag, less blanks: the end of the tag, or a name. -/
theorem dropWhile_writeAll (as : List Attribute) (hnames : ∀ a ∈ as, IsName a.name) (rest : List Char) :
    ∃ c more, (Attribute.writeAll as ++ '>' :: rest).dropWhile Text.isBlank = c :: more ∧ c ≠ '=' := by
  cases as with
  | nil => exact ⟨'>', rest, rfl, by decide⟩
  | cons a as =>
    obtain ⟨hne, hplain, _⟩ := hnames a List.mem_cons_self
    obtain ⟨tail, htail⟩ := a.exists_toList_toHtml
    obtain ⟨c, name, hname⟩ := List.exists_cons_of_ne_nil hne
    -- a name does not begin with a blank or an equals sign, as these end one
    have hc : endsName c = false := hplain c (by rw [hname]; exact List.mem_cons_self)
    refine ⟨c, name ++ tail ++ Attribute.writeAll as ++ '>' :: rest, ?_, ?_⟩
    · rw [Attribute.writeAll, List.flatMap_cons, htail, hname, ← Attribute.writeAll]
      have hblank := isBlank_of_endsName_eq_false hc
      simp [hblank, show Text.isBlank ' ' = true by decide]
    · rintro rfl
      simp [endsName] at hc

/-- Behind the tag stands what ends it: a blank or the bracket. -/
theorem atHead_endsName_writeAll (as : List Attribute) (rest : List Char) :
    atHead endsName (Attribute.writeAll as ++ '>' :: rest) = true := by
  cases as with
  | nil => rfl
  | cons a as => rfl

/-- A value between quotes is read back. -/
theorem attributeValue_quoted (value : String) (rest : List Char) :
    attributeValue ('"' :: ((escapeAttribute value).toList ++ '"' :: rest)) = .ok (value, rest) := by
  have hclear : Clear "\"".toList.isPrefixOf ("\"".toList ++ rest) (escapeAttribute value).toList :=
    clear_isPrefixOf_singleton_iff.mpr (quote_notMem_escapeAttribute value)
  have hthrough := through_of_clear (by decide) hclear
  rw [attributeValue]
  rw [show '"' :: rest = "\"".toList ++ rest from rfl, hthrough]
  show Except.ok (Reference.decode _, rest) = _
  rw [Reference.decode_escapeAttribute]

/-- One attribute is taken back. A name without a value takes the blanks behind it along. -/
theorem entry_written (tag : String) {a : Attribute} (ha : IsName a.name) {more : List Char}
    (hends : atHead endsName more = true)
    (hsign : ∃ c rest, more.dropWhile Text.isBlank = c :: rest ∧ c ≠ '=') :
    ∃ rest, entry tag (a.toHtml.toList ++ more) = .ok (.entry a.name a.value, rest)
      ∧ rest.dropWhile Text.isBlank = more.dropWhile Text.isBlank := by
  have hclear {after : List Char} : Clear (atHead endsName) after a.name.toList :=
    clear_atHead_iff.mpr ha.plain
  obtain ⟨c, name, hname⟩ := List.exists_cons_of_ne_nil ha.ne_nil
  -- no value is written for an empty one, so the reader looks for a sign and finds none
  by_cases hvalue : a.value = ""
  · obtain ⟨d, rest, hrest, hd⟩ := hsign
    refine ⟨more.dropWhile Text.isBlank, ?_, List.dropWhile_idempotent _ _⟩
    rw [entry, Attribute.toHtml_of_value_eq hvalue, upTo_of_clear hclear (.inr hends), hname]
    dsimp only
    rw [← hname, ha.lowerName_toList, hrest, hvalue]
    split
    · next heq => exact absurd (List.cons.inj heq).1 hd
    · rfl
  · refine ⟨more, ?_, rfl⟩
    rw [entry, Attribute.toList_toHtml_of_value hvalue, List.append_assoc,
      upTo_of_clear hclear (.inr (by rfl)), hname]
    dsimp only
    rw [← hname, ha.lowerName_toList]
    have hquoted := attributeValue_quoted a.value more
    simp only [List.cons_append, List.append_assoc, List.nil_append]
    rw [List.dropWhile_cons_of_neg (by decide)]
    show (attributeValue (('"' :: _).dropWhile Text.isBlank)).map _ = _
    rw [List.dropWhile_cons_of_neg (by decide), hquoted]
    rfl

theorem tagItem_congr {tag : String} {input input' : List Char}
    (h : input.dropWhile Text.isBlank = input'.dropWhile Text.isBlank) :
    tagItem tag input = tagItem tag input' := by
  rw [tagItem, tagItem, h]

/-- Blanks in front of the attributes make no difference. -/
theorem attributes_congr {tag : String} {found : List Attribute} {input input' : List Char}
    (h : input.dropWhile Text.isBlank = input'.dropWhile Text.isBlank) :
    attributes tag found input = attributes tag found input' := by
  have hitem : tagItem tag input = tagItem tag input' := tagItem_congr h
  rw [attributes, attributes]
  grind

/-- One more turn of the loop over attributes. -/
theorem attributes_of_entry {tag name value : String} {found : List Attribute} {input rest : List Char}
    (h : tagItem tag input = .ok (.entry name value, rest)) :
    attributes tag found input = attributes tag (addAttribute found name value) rest := by
  rw [attributes]
  grind

/-- The end of the loop over attributes. -/
theorem attributes_of_finish {tag : String} {found : List Attribute} {input rest : List Char}
    {closes : Bool} (h : tagItem tag input = .ok (.finish closes, rest)) :
    attributes tag found input = .ok (found, closes, rest) := by
  rw [attributes]
  grind

/-- A written attribute is the next item. -/
theorem tagItem_written {tag : String} {a : Attribute} (ha : IsName a.name) (more : List Char) :
    tagItem tag (' ' :: (a.toHtml.toList ++ more)) = entry tag (a.toHtml.toList ++ more) := by
  obtain ⟨c, name, hname⟩ := List.exists_cons_of_ne_nil ha.ne_nil
  obtain ⟨tail, htail⟩ := a.exists_toList_toHtml
  have hc : endsName c = false := ha.plain c (by rw [hname]; exact List.mem_cons_self)
  rw [tagItem, htail, hname]
  rw [List.dropWhile_cons_of_pos (by decide), List.cons_append, List.cons_append,
    List.dropWhile_cons_of_neg (by rw [isBlank_of_endsName_eq_false hc]; decide)]
  split
  case h_1 heq => cases heq
  case h_5 => rfl
  all_goals
    next heq =>
      obtain ⟨rfl, _⟩ := List.cons.inj heq
      simp [endsName] at hc

/-- The attributes of a start tag are taken back behind those that were found before. -/
theorem attributes_written (tag : String) (as found : List Attribute) (rest : List Char)
    (hnames : ∀ a ∈ as, IsName a.name) (hdistinct : (Attribute.names (found ++ as)).Nodup) :
    attributes tag found (Attribute.writeAll as ++ '>' :: rest) = .ok (found ++ as, false, rest) := by
  -- `found` grows by what is taken back, in front of what is still to come
  induction as generalizing found with
  | nil =>
    rw [List.append_nil]
    exact attributes_of_finish rfl
  | cons a as ih =>
    obtain ⟨ha, hrest⟩ := List.forall_mem_cons.mp hnames
    have hsplit : Attribute.writeAll (a :: as) ++ '>' :: rest
        = ' ' :: (a.toHtml.toList ++ (Attribute.writeAll as ++ '>' :: rest)) := by
      simp [Attribute.writeAll]
    obtain ⟨left, hentry, hleft⟩ := entry_written tag ha (atHead_endsName_writeAll as rest)
      (dropWhile_writeAll as hrest rest)
    -- the name was not met before, so the attribute is added and not ignored
    have hnew : addAttribute found a.name a.value = found ++ [a] := by
      rw [addAttribute, if_neg]
      rw [List.any_eq_true]
      rintro ⟨b, hb, hname⟩
      rw [Attribute.names, List.map_append, List.nodup_append] at hdistinct
      exact hdistinct.2.2 b.name (List.mem_map_of_mem hb) a.name (by simp) (by simpa using hname)
    rw [hsplit, attributes_of_entry ((tagItem_written ha _).trans hentry), attributes_congr hleft, hnew,
      ih (found ++ [a]) hrest (by rwa [List.append_assoc]), List.append_assoc]
    rfl

end Token

/-! ## Tokens -/

namespace Token

/-- The tokens of a text: the one in front, and those of the rest. -/
theorem all_of_scan {first : Char} {rest after : List Char} {token : Token}
    (h : scan first rest = .ok (token, after)) :
    all (first :: rest) = (all after).map (token :: ·) := by
  rw [all]
  grind

/-- What begins with a bracket does not begin with anything else. -/
theorem startsIgnoringCase_eq_false {p c : Char} {lower input : List Char} (hp : p = '<')
    (hc : c ≠ '<') : startsIgnoringCase (p :: lower) (c :: input) = false := by
  have hlower : c.toLower ≠ '<' := by
    rcases toLower_cases c with h | ⟨_, _, h⟩
    · rwa [h]
    · intro heq
      rw [heq] at h
      have : '<'.toNat = 60 := rfl
      omega
  rw [startsIgnoringCase_eq, List.map_cons, List.isPrefixOf_cons_cons, hp]
  simp [hlower.symm]

/-- What does not begin with a bracket is a text. -/
theorem scan_of_ne {c : Char} (hc : c ≠ '<') (rest : List Char) :
    scan c rest = .ok (text (Reference.decode (c :: (upTo atMarkup rest).1)), (upTo atMarkup rest).2) := by
  -- no construct but text begins with another character
  have hcomment : "<!--".toList.isPrefixOf (c :: rest) = false := by
    simp [List.isPrefixOf_cons_cons, hc.symm]
  have hclosing : "</".toList.isPrefixOf (c :: rest) = false := by
    simp [List.isPrefixOf_cons_cons, hc.symm]
  have hdoctype : startsIgnoringCase "<!doctype".toList (c :: rest) = false :=
    startsIgnoringCase_eq_false rfl hc
  have hopening : (c == '<') = false := by simpa using hc
  simp only [scan, hcomment, hdoctype, hclosing, hopening, Bool.false_and, Bool.false_eq_true, if_false]

/-- Where a text can end. -/
def Ends (rest : List Char) : Prop := rest = [] ∨ atMarkup rest = true

/-- A written text is scanned as that text, if something ends it. -/
theorem all_text {content : String} (hne : content ≠ "") {rest : List Char} (hrest : Ends rest) :
    all ((escapeText content).toList ++ rest) = (all rest).map (text content :: ·) := by
  have hplain := (brackets_notMem_escapeText content).1
  have hdecode := Reference.decode_escapeText content
  obtain ⟨c, s, hs⟩ := List.exists_cons_of_ne_nil (toList_escapeText_ne_nil hne)
  rw [hs] at hplain hdecode ⊢
  obtain ⟨hc, hplain⟩ : '<' ≠ c ∧ '<' ∉ s := by simpa using hplain
  -- the first character is taken anyway, and the others hold no angle bracket
  apply all_of_scan
  rw [scan_of_ne hc.symm, List.append_eq, upTo_of_clear (clear_atMarkup hplain) hrest, hdecode]

/-- A written comment is scanned as that comment. -/
theorem all_comment {content : String} (h : IsComment content) (rest : List Char) :
    all (("<!--" ++ content ++ "-->").toList ++ rest) = (all rest).map (comment content :: ·) := by
  have hthrough := through_of_clear (by decide) ((clear_isPrefixOf_append_iff rest).mpr h)
  have hinput : ("<!--" ++ content ++ "-->").toList ++ rest
      = '<' :: '!' :: '-' :: '-' :: (content.toList ++ ("-->".toList ++ rest)) := by
    simp [String.toList_append]
  rw [hinput]
  apply all_of_scan
  rw [scan, if_pos (by rfl)]
  show (through "-->" (content.toList ++ ("-->".toList ++ rest))).map _ = _
  rw [hthrough]
  show Except.ok (comment (String.ofList content.toList), rest) = _
  rw [String.ofList_toList]

/-- The blank in front of the name is trimmed, and the name has none. -/
theorem trim_cons_blank (name : String) (h : Text.trim name = name) :
    Text.trim (String.ofList (' ' :: name.toList)) = name := by
  rw [Text.trim, String.toList_ofList, Text.trimChars, List.dropWhile_cons_of_pos (by decide)]
  exact h

/-- A written doctype is scanned as that doctype. -/
theorem all_doctype {name : String} (h : IsDoctype name) (rest : List Char) :
    all ((doctypeHtml (some name)).toList ++ rest) = (all rest).map (doctype name :: ·) := by
  have hclear : Clear ">".toList.isPrefixOf (">".toList ++ rest) (' ' :: name.toList) := by
    refine clear_isPrefixOf_singleton_iff.mpr ?_
    rw [List.mem_cons, not_or]
    exact ⟨by decide, h.closed⟩
  have hinput : (doctypeHtml (some name)).toList ++ rest
      = '<' :: '!' :: 'd' :: 'o' :: 'c' :: 't' :: 'y' :: 'p' :: 'e'
        :: (' ' :: name.toList ++ (">".toList ++ rest)) := by
    simp [doctypeHtml, String.toList_append]
  rw [hinput]
  apply all_of_scan
  rw [scan, if_neg (by rw [List.isPrefixOf_iff_prefix]; rintro ⟨_, h⟩; cases h)]
  rw [if_pos (by rw [startsIgnoringCase_eq]; rfl)]
  show (through ">" (' ' :: name.toList ++ (">".toList ++ rest))).map _ = _
  rw [through_of_clear (by decide) hclear]
  show Except.ok (doctype (Text.trim (String.ofList (' ' :: name.toList))), rest) = _
  rw [trim_cons_blank name h.trimmed]

theorem upTo_tag {tag : String} (htag : IsTag tag) {rest : List Char}
    (hrest : atHead endsName rest = true) : upTo (atHead endsName) (tag.toList ++ rest) = (tag.toList, rest) :=
  upTo_of_clear (clear_atHead_iff.mpr htag.plain) (.inr hrest)

/-- A written end tag is scanned as one. -/
theorem all_endTag {el : Element} (htag : IsTag el.tag) (rest : List Char) :
    all (el.endTag.toList ++ rest) = (all rest).map (closing el.tag :: ·) := by
  have hinput : el.endTag.toList ++ rest = '<' :: '/' :: (el.tag.toList ++ '>' :: rest) := by
    simp [Element.toList_endTag]
  have hthrough : through ">" ('>' :: rest) = .ok ([], rest) :=
    through_of_clear (s := []) (by decide) trivial
  rw [hinput]
  apply all_of_scan
  rw [scan, if_neg (by rw [List.isPrefixOf_iff_prefix]; rintro ⟨_, h⟩; cases h)]
  rw [if_neg (by rw [startsIgnoringCase_eq, List.isPrefixOf_iff_prefix]; rintro ⟨_, h⟩; cases h)]
  rw [if_pos (by rfl)]
  have hname : upTo (atHead endsName) (el.tag.toList ++ '>' :: rest) = (el.tag.toList, '>' :: rest) :=
    upTo_tag htag rfl
  show endTag (el.tag.toList ++ '>' :: rest) = _
  simp only [endTag, hname, hthrough, htag.lowerName_toList]
  rfl

theorem atHead_isAsciiLetter_append {tag : String} (htag : IsTag tag) (rest : List Char) :
    atHead isAsciiLetter (tag.toList ++ rest) = true := by
  have hletter := htag.letter
  obtain ⟨c, name, hname⟩ := List.exists_cons_of_ne_nil htag.ne_nil
  rw [hname] at hletter ⊢
  exact hletter

/-- Before a letter, a bracket begins a start tag. -/
theorem scan_startTag {input : List Char} (hletter : atHead isAsciiLetter input = true) :
    scan '<' input = startTag input := by
  cases input with
  | nil => cases hletter
  | cons c rest =>
    have hslash : c ≠ '/' := ne_of_isAsciiLetter hletter (by decide)
    have hbang : c ≠ '!' := ne_of_isAsciiLetter hletter (by decide)
    have hlower : c.toLower ≠ '!' := ne_of_isAsciiLetter (isAsciiLetter_toLower hletter) (by decide)
    rw [scan, if_neg (by simp [List.isPrefixOf_cons_cons, hbang.symm])]
    rw [if_neg (by simp [startsIgnoringCase_eq, List.isPrefixOf_cons_cons, hlower.symm])]
    rw [if_neg (by simp [List.isPrefixOf_cons_cons, hslash.symm]), if_pos (by simpa using hletter)]

/-- A written start tag gives its element back; the literal content of a script or style sheet is read
on from there. -/
theorem startTag_written {el : Element} (hel : el.Readable) (rest : List Char) :
    startTag (el.tag.toList ++ (Attribute.writeAll el.attributes ++ '>' :: rest)) =
      if isVoid el.tag then .ok (complete el "", rest)
      else if isRawText el.tag then
        (literal el.tag rest).map fun (content, rest) => (complete el content, rest)
      else .ok (opening el, rest) := by
  have hname := upTo_tag hel.tag (atHead_endsName_writeAll el.attributes rest)
  have hattributes := attributes_written el.tag el.attributes [] rest hel.names
    hel.distinct
  simp only [startTag, hname, hel.tag.lowerName_toList, hattributes, bind, Except.bind, pure,
    Except.pure, Bool.or_false, List.nil_append]
  split
  · rfl
  · split
    · cases literal el.tag rest <;> rfl
    · rfl

/-- A written start tag is scanned, with what belongs to it. -/
theorem all_startTag {el : Element} (hel : el.Readable) (rest : List Char) {token : Token}
    {after : List Char}
    (h : startTag (el.tag.toList ++ (Attribute.writeAll el.attributes ++ '>' :: rest))
      = .ok (token, after)) :
    all (el.startTag.toList ++ rest) = (all after).map (token :: ·) := by
  have hinput : el.startTag.toList ++ rest
      = '<' :: (el.tag.toList ++ (Attribute.writeAll el.attributes ++ '>' :: rest)) := by
    simp [Element.toList_startTag]
  rw [hinput]
  exact all_of_scan ((scan_startTag (atHead_isAsciiLetter_append hel.tag _)).trans h)

/-- Content without an end tag is clear of it also in front of one, because an end tag has its only
angle bracket at its head. -/
theorem clear_of_holdsEndTag {tag : String} (hplain : '<' ∉ tag.toList) {s : List Char}
    (h : holdsEndTag tag (String.ofList s) = false) (rest : List Char) :
    Clear (startsIgnoringCase ('<' :: '/' :: tag.toList)) ('<' :: rest) s := by
  have hchars (s : List Char) : (String.ofList s).toLower.toList = s.map Char.toLower := toList_lowerName s
  have hpattern : ("</" ++ tag).toList = '<' :: '/' :: tag.toList := by simp
  rw [holdsEndTag, Text.contains, hchars, hpattern] at h
  induction s with
  | nil => trivial
  | cons c s ih =>
    rw [List.map_cons, Text.occursIn, Bool.or_eq_false_iff] at h
    refine ⟨?_, ih h.2⟩
    have htail : '<' ∉ '/' :: tag.toList := by simp [hplain]
    rw [startsIgnoringCase_eq, List.cons_append, List.map_cons, List.map_append, List.map_cons,
      show '<'.toLower = '<' from rfl, List.isPrefixOf_cons_cons, isPrefixOf_append_bracket htail,
      ← List.isPrefixOf_cons_cons]
    exact h.1

/-- Literal content is read up to its end tag, since it holds none itself. -/
theorem literal_written {el : Element} (htag : IsTag el.tag) (hraw : isRawText el.tag = true) {content : String}
    (h : holdsEndTag el.tag content = false) (rest : List Char) :
    literal el.tag (content.toList ++ (el.endTag.toList ++ rest)) = .ok (content, rest) := by
  -- neither raw tag holds an angle bracket, so the end tag is found whole
  have hplain : '<' ∉ el.tag.toList ∧ '>' ∉ el.tag.toList := by
    simp only [isRawText, Bool.or_eq_true, beq_iff_eq] at hraw
    rcases hraw with hraw | hraw <;> rw [hraw] <;> decide
  have hend : el.endTag.toList ++ rest = '<' :: ('/' :: (el.tag.toList ++ (">".toList ++ rest))) := by
    simp [Element.toList_endTag]
  have hclear := clear_of_holdsEndTag hplain.1 (s := content.toList) (by rwa [String.ofList_toList])
    ('/' :: (el.tag.toList ++ (">".toList ++ rest)))
  have hstop : startsIgnoringCase ('<' :: '/' :: el.tag.toList)
      ('<' :: ('/' :: (el.tag.toList ++ (">".toList ++ rest)))) = true := by
    rw [startsIgnoringCase_eq, List.isPrefixOf_iff_prefix, List.map_cons, List.map_cons,
      List.map_append, List.map_congr_left htag.lower, List.map_id']
    exact ⟨_, rfl⟩
  -- the reader stops in front of the end tag and then skips it
  have hthrough : through ">" ('<' :: '/' :: el.tag.toList ++ (">".toList ++ rest))
      = .ok ('<' :: '/' :: el.tag.toList, rest) := by
    have hclosed : '>' ∉ '<' :: '/' :: el.tag.toList := by simp [hplain.2]
    exact through_of_clear (by decide) (clear_isPrefixOf_singleton_iff.mpr hclosed)
  rw [literal, hend, upTo_of_clear hclear (.inr hstop)]
  show (through ">" ('<' :: '/' :: el.tag.toList ++ (">".toList ++ rest))).map _ = _
  rw [hthrough]
  show Except.ok (String.ofList content.toList, rest) = _
  rw [String.ofList_toList]

theorem all_void {el : Element} (hel : el.Readable) (hvoid : isVoid el.tag = true) (rest : List Char) :
    all (el.startTag.toList ++ rest) = (all rest).map (complete el "" :: ·) :=
  all_startTag hel rest ((startTag_written hel rest).trans (if_pos hvoid))

/-- The start tag of any other element is scanned as one. -/
theorem all_opening {el : Element} (hel : el.Readable) (hvoid : ¬ isVoid el.tag = true)
    (hraw : ¬ isRawText el.tag = true) (rest : List Char) :
    all (el.startTag.toList ++ rest) = (all rest).map (opening el :: ·) := by
  refine all_startTag hel rest ((startTag_written hel rest).trans ?_)
  rw [if_neg hvoid, if_neg hraw]

/-- An element with literal content is scanned as a whole. -/
theorem all_literal {el : Element} (hel : el.Readable) (hraw : isRawText el.tag = true) {content : String}
    (h : holdsEndTag el.tag content = false) (rest : List Char) :
    all (el.startTag.toList ++ (content.toList ++ (el.endTag.toList ++ rest)))
      = (all rest).map (complete el content :: ·) := by
  have hvoid : ¬ isVoid el.tag = true := Bool.eq_false_iff.mp (isVoid_eq_false_of_isRawText hraw)
  refine all_startTag hel _ ((startTag_written hel _).trans ?_)
  rw [if_neg hvoid, if_pos hraw, literal_written hel.tag hraw h]
  rfl

end Token

/-! ## Forests -/

namespace Tree

mutual

/-- The tokens of a tree. An element with literal content is one token. -/
def tokens : Tree → List Token
  | .text content => [.text content]
  | .comment content => [.comment content]
  | .element el children =>
    if isVoid el.tag then [.complete el ""]
    else if isRawText el.tag then [.complete el (writeAll true children)]
    else .opening el :: (tokensAll children ++ [.closing el.tag])

/-- The tokens of a forest, one tree behind the other. -/
def tokensAll : List Tree → List Token
  | [] => []
  | tree :: rest => tree.tokens ++ tokensAll rest

end

theorem toList_startTag_append (el : Element) (rest : List Char) :
    el.startTag.toList ++ rest
      = '<' :: (el.tag.toList ++ (Attribute.writeAll el.attributes ++ '>' :: rest)) := by
  simp [Element.toList_startTag]

/-- All but texts begin with markup. -/
theorem atMarkup_write {tree : Tree} (h : tree.Readable) (hnot : tree.isText = false) (rest : List Char) :
    Token.atMarkup ((tree.write false).toList ++ rest) = true := by
  have starts {el : Element} (hel : el.Readable) (more : List Char) :
      Token.atMarkup (el.startTag.toList ++ more) = true := by
    have hletter := hel.tag.letter
    obtain ⟨c, name, hname⟩ := List.exists_cons_of_ne_nil hel.tag.ne_nil
    rw [hname] at hletter
    rw [toList_startTag_append, hname]
    show (c == '/' || c == '!' || isAsciiLetter c) = true
    rw [show isAsciiLetter c = true from hletter, Bool.or_true]
  cases tree with
  | text content => cases hnot
  | comment content =>
    rw [write, String.toList_append, String.toList_append]
    rfl
  | element el children =>
    have hel := h.element_children.1
    rw [write]
    split
    · exact starts hel rest
    · rw [String.toList_append, String.toList_append, List.append_assoc, List.append_assoc]
      exact starts hel _

/-- Literal content, empty or not, does not hold its end tag. -/
theorem holdsEndTag_writeAll {el : Element} {children : List Tree} (h : (element el children).Readable)
    (hraw : isRawText el.tag = true) : holdsEndTag el.tag (writeAll true children) = false := by
  rcases h.children_of_isRawText hraw with rfl | ⟨content, rfl, _, hend⟩
  · have hlower : "".toLower.toList = [] := toList_lowerName []
    rw [writeAll, holdsEndTag, Text.contains, hlower, String.toList_append]
    rfl
  · simpa [writeAll, write] using hend

mutual

/-- A written tree is scanned into its tokens. By induction on the tree. -/
theorem all_tokens (tree : Tree) (h : tree.Readable) (hparted : tree.Parted) (rest : List Char)
    (hrest : tree.isText = true → Token.Ends rest) :
    Token.all ((tree.write false).toList ++ rest) = (Token.all rest).map (tree.tokens ++ ·) :=
  match tree with
  | .text content => by
    cases h with
    | text hne => exact Token.all_text hne (hrest rfl)
  | .comment content => by
    cases h with
    | comment hcomment => exact Token.all_comment hcomment rest
  | .element el children => by
    obtain ⟨hel, hchildren⟩ := h.element_children
    rw [write, tokens]
    split
    · next hvoid => exact Token.all_void hel hvoid rest
    · next hvoid =>
      split
      · next hraw =>
        rw [hraw, String.toList_append, String.toList_append, List.append_assoc, List.append_assoc]
        exact Token.all_literal hel hraw (holdsEndTag_writeAll h hraw) rest
      · next hraw =>
        obtain ⟨hpartedAll, hapart⟩ : (∀ child ∈ children, child.Parted) ∧ children.IsChain Apart := by
          cases hparted with
          | element _ hpartedAll hapart => exact ⟨hpartedAll, hapart⟩
        -- the last child may be a text, and the end tag ends it
        have hends : Token.Ends (el.endTag.toList ++ rest) := by
          rw [Element.toList_endTag]
          exact .inr rfl
        rw [Bool.eq_false_iff.mpr hraw, String.toList_append, String.toList_append, List.append_assoc,
          List.append_assoc, Token.all_opening hel hvoid hraw,
          all_tokensAll children hchildren hpartedAll hapart _ hends, Token.all_endTag hel.tag]
        cases Token.all rest with
        | error halt => rfl
        | ok more => simp [Except.map]

/-- A written forest is scanned into its tokens, since no two texts of it are adjacent. -/
theorem all_tokensAll (trees : List Tree) (h : ∀ tree ∈ trees, tree.Readable)
    (hparted : ∀ tree ∈ trees, tree.Parted) (hapart : trees.IsChain Apart) (rest : List Char)
    (hrest : Token.Ends rest) :
    Token.all ((writeAll false trees).toList ++ rest) = (Token.all rest).map (tokensAll trees ++ ·) :=
  match trees with
  | [] => by
    show Token.all rest = (Token.all rest).map fun tokens => tokens
    cases Token.all rest <;> rfl
  | tree :: more => by
    obtain ⟨htree, hmore⟩ := List.forall_mem_cons.mp h
    obtain ⟨htreeParted, hmoreParted⟩ := List.forall_mem_cons.mp hparted
    obtain ⟨hnext, hapartMore⟩ := List.isChain_cons.mp hapart
    -- behind a text there is markup, as no two texts stand side by side
    have hends : tree.isText = true → Token.Ends ((writeAll false more).toList ++ rest) := by
      intro htext
      cases more with
      | nil => exact hrest
      | cons next after =>
        have hnot : next.isText = false := by
          by_contra hnext'
          exact hnext next rfl ⟨htext, Bool.not_eq_false _ ▸ hnext'⟩
        rw [writeAll, String.toList_append, List.append_assoc]
        exact .inr (atMarkup_write (hmore next List.mem_cons_self) hnot _)
    rw [writeAll, String.toList_append, List.append_assoc, all_tokens tree htree htreeParted _ hends,
      all_tokensAll more hmore hmoreParted hapartMore rest hrest, tokensAll]
    cases Token.all rest with
    | error halt => rfl
    | ok tokens => simp [Except.map]

end

end Tree

end AmpTuner.Markup
