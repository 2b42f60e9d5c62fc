import AmpTuner.Proofs.Markup.Readable
import Mathlib.Data.List.DropRight

/-!
# Whatever is read is readable

The proof follows the reader.

## The architecture

* **tokens**: `Token.Readable` says of one token what its scanner promises, with a lemma for each
  scanner from `isName_of_entry` to `readable_of_scan`; `readable_of_all` runs them over the input.
* **the builder**: `Builder.Readable` holds of every state of the builder, since `step` keeps it.
* **`readable_of_read`** puts the two together.
-/

namespace AmpTuner.Markup

/-! ## White space at the ends -/

theorem trimChars_eq (s : List Char) : Text.trimChars s = (s.dropWhile Text.isBlank).rdropWhile Text.isBlank :=
  rfl

theorem trimChars_sublist (s : List Char) : (Text.trimChars s).Sublist s := by
  rw [trimChars_eq]
  exact (List.rdropWhile_prefix _ _).sublist.trans (List.dropWhile_sublist _)

/-- What is left begins with what the front trim left, so the front is trimmed for good. -/
theorem dropWhile_trimChars (s : List Char) :
    (Text.trimChars s).dropWhile Text.isBlank = Text.trimChars s := by
  rw [trimChars_eq, List.dropWhile_eq_self_iff]
  intro hpos
  have hbegin := List.rdropWhile_prefix Text.isBlank (s.dropWhile Text.isBlank)
  rw [hbegin.getElem hpos]
  exact List.dropWhile_get_zero_not Text.isBlank s (lt_of_lt_of_le hpos hbegin.length_le)

theorem trimChars_trimChars (s : List Char) : Text.trimChars (Text.trimChars s) = Text.trimChars s := by
  rw [trimChars_eq, dropWhile_trimChars, trimChars_eq, List.rdropWhile_idempotent]

theorem trim_trim (s : String) : Text.trim (Text.trim s) = Text.trim s := by
  rw [Text.trim, Text.trim, String.toList_ofList, trimChars_trimChars]

/-! ## Tokens -/

/-- What the scanners promise of a token. -/
def Token.Readable : Token → Prop
  | .doctype name => IsDoctype name
  | .comment content => IsComment content
  | .text content => content ≠ ""
  | .complete el content =>
    el.Readable ∧ (content ≠ "" → isRawText el.tag = true ∧ holdsEndTag el.tag content = false)
  | .opening el => el.Readable ∧ isVoid el.tag = false ∧ isRawText el.tag = false
  | .closing _ => True

namespace Token

/-- What is not empty does not decode to nothing. -/
theorem decode_cons_ne (c : Char) (s : List Char) : Reference.decode (c :: s) ≠ "" := by
  intro h
  have hnil := congrArg String.toList h
  rw [Reference.decode, String.toList_ofList, Reference.decodeChars] at hnil
  split at hnil
  · split at hnil <;> cases hnil
  · cases hnil

/-- An attribute is read under a name. -/
theorem isName_of_entry {tag name value : String} {input rest : List Char}
    (h : entry tag input = .ok (.entry name value, rest)) : IsName name := by
  obtain ⟨found, afterName, value', hfound, hne, hitem, -⟩ := entry_cases h
  obtain ⟨rfl, -⟩ := TagItem.entry.inj hitem
  exact isName_lowerName hne (clear_atHead_iff.mp (clear_of_upTo hfound).2.1)

/-- The same for an item of a tag. -/
theorem isName_of_tagItem {tag name value : String} {input rest : List Char}
    (h : tagItem tag input = .ok (.entry name value, rest)) : IsName name := by
  rcases tagItem_cases h with ⟨hitem, -⟩ | ⟨hitem, -⟩ | ⟨hitem, -, -⟩ | hentry
  · cases hitem
  · cases hitem
  · cases hitem
  · exact isName_of_entry hentry

/-- Attributes are added under names. -/
theorem names_addAttribute {found : List Attribute} {name : String} (value : String)
    (h : ∀ a ∈ found, IsName a.name) (hname : IsName name) :
    ∀ a ∈ addAttribute found name value, IsName a.name := by
  rw [addAttribute]
  split
  · exact h
  · intro a ha
    rcases List.mem_append.mp ha with ha | ha
    · exact h a ha
    · obtain rfl := List.mem_singleton.mp ha
      exact hname

/-- An attribute that stands twice is added once. -/
theorem distinct_addAttribute {tag : String} {found : List Attribute} (name value : String)
    (h : (Element.mk tag found).Distinct) :
    (Element.mk tag (addAttribute found name value)).Distinct := by
  rw [addAttribute]
  split
  · exact h
  · next hnew =>
    have hnew : ∀ a ∈ found, a.name ≠ name := by simpa using hnew
    show (found ++ [(⟨name, value⟩ : Attribute)]).map (·.name) |>.Nodup
    rw [List.map_append, List.nodup_append]
    refine ⟨h, List.nodup_singleton _, ?_⟩
    intro x hx y hy
    obtain ⟨a, ha, rfl⟩ := List.mem_map.mp hx
    obtain rfl : y = name := by simpa using hy
    exact hnew a ha

/-- The attributes of a tag have names, and no two the same. By induction on the reading. -/
theorem readable_of_attributes {tag : String} {found all : List Attribute} {input rest : List Char}
    {closes : Bool} (h : attributes tag found input = .ok (all, closes, rest))
    (hnames : ∀ a ∈ found, IsName a.name) (hdistinct : (Element.mk tag found).Distinct) :
    (∀ a ∈ all, IsName a.name) ∧ (Element.mk tag all).Distinct := by
  -- `found` is what has been read so far; each item ends the list or adds to it
  fun_induction attributes tag found input with
  | case1 => cases h
  | case2 found input _ _ hitem =>
    obtain ⟨rfl, _⟩ := Prod.mk.inj (Except.ok.inj h)
    exact ⟨hnames, hdistinct⟩
  | case3 found input rest' hitem ih => exact ih h hnames hdistinct
  | case4 found input name value rest' hitem ih =>
    exact ih h (names_addAttribute value hnames (isName_of_tagItem hitem))
      (distinct_addAttribute name value hdistinct)

/-- A text that was passed over holds no end tag. -/
theorem holdsEndTag_of_clear {tag : String} {s rest : List Char}
    (h : Clear (startsIgnoringCase ('<' :: '/' :: tag.toList)) rest s) :
    holdsEndTag tag (String.ofList s) = false := by
  have hchars : (String.ofList s).toLower.toList = s.map Char.toLower := toList_lowerName s
  have hpattern : ("</" ++ tag).toList = '<' :: '/' :: tag.toList := by simp
  rw [holdsEndTag, Text.contains, hchars, hpattern]
  induction s with
  | nil => rfl
  | cons c s ih =>
    obtain ⟨hc, hs⟩ := h
    -- a pattern that begins in the content would have stopped the scan, whatever stands behind
    have hfirst : ('<' :: '/' :: tag.toList).isPrefixOf (c.toLower :: s.map Char.toLower) = false := by
      rw [startsIgnoringCase_eq, List.map_append] at hc
      by_contra htrue
      have hbegin := List.isPrefixOf_iff_prefix.mp (Bool.not_eq_false _ ▸ htrue)
      have := List.isPrefixOf_iff_prefix.mpr (hbegin.trans (List.prefix_append _ (rest.map Char.toLower)))
      rw [List.map_cons, this] at hc
      cases hc
    rw [List.map_cons, Text.occursIn, hfirst, Bool.false_or]
    exact ih hs (toList_lowerName s)

theorem holdsEndTag_of_literal {tag content : String} {input rest : List Char}
    (h : literal tag input = .ok (content, rest)) : holdsEndTag tag content = false := by
  obtain ⟨chars, after, hchars, rfl, -⟩ := literal_cases h
  exact holdsEndTag_of_clear (clear_of_upTo hchars).2.1

/-- The tag of a start tag, given that a letter stands behind its angle bracket. -/
theorem isTag_of_upTo {input name rest : List Char} (hletter : atHead isAsciiLetter input = true)
    (h : upTo (atHead endsName) input = (name, rest)) : IsTag (lowerName name) := by
  obtain ⟨hinput, hclear, hrest⟩ := clear_of_upTo h
  cases input with
  | nil => cases hletter
  | cons c input =>
    have hplain := endsName_of_isAsciiLetter hletter
    -- the letter in front does not end a name, so the name is not empty
    cases name with
    | nil =>
      rw [List.nil_append] at hinput
      rw [← hinput] at hrest
      rw [show atHead endsName (c :: input) = false from hplain] at hrest
      simp at hrest
    | cons d name =>
      obtain ⟨rfl, _⟩ := List.cons.inj hinput
      have hname : IsName (lowerName (c :: name)) :=
        isName_lowerName (by simp) (clear_atHead_iff.mp hclear)
      refine ⟨hname, ?_⟩
      rw [toList_lowerName]
      exact isAsciiLetter_toLower hletter

/-- What is read from a start tag is readable. -/
theorem readable_of_startTag {input rest : List Char} {token : Token}
    (hletter : atHead isAsciiLetter input = true) (h : startTag input = .ok (token, rest)) :
    token.Readable := by
  obtain ⟨name, afterName, attrs, closes, after, hname, hattributes, hcases⟩ := startTag_cases h
  obtain ⟨hnames, hdistinct⟩ := readable_of_attributes hattributes (by simp) List.nodup_nil
  have hel : (Element.mk (lowerName name) attrs).Readable := ⟨isTag_of_upTo hletter hname, hnames, hdistinct⟩
  rcases hcases with ⟨-, rfl, -⟩ | ⟨hvoid, -, ⟨hraw, content, hliteral, rfl⟩ | ⟨hraw, rfl, -⟩⟩
  · exact ⟨hel, fun hne => absurd rfl hne⟩
  · exact ⟨hel, fun _ => ⟨hraw, holdsEndTag_of_literal hliteral⟩⟩
  · exact ⟨hel, hvoid, hraw⟩

/-- Every token that is read is readable. -/
theorem readable_of_scan {first : Char} {input rest : List Char} {token : Token}
    (h : scan first input = .ok (token, rest)) : token.Readable := by
  cases scanned_of_scan h with
  | @comment content _ hthrough =>
    have hcontent := String.toList_ofList (l := content)
    show IsComment (String.ofList content)
    rw [IsComment, hcontent]
    exact (clear_isPrefixOf_append_iff rest).mp (clear_of_through hthrough).2
  | @doctype name _ hthrough =>
    have hclosed : '>' ∉ name := clear_isPrefixOf_singleton_iff.mp (clear_of_through hthrough).2
    refine ⟨trim_trim _, fun hmem => hclosed ?_⟩
    rw [Text.trim, String.toList_ofList, String.toList_ofList] at hmem
    exact (trimChars_sublist name).subset hmem
  | closing _ hend =>
    obtain ⟨name, after, skipped, -, -, rfl⟩ := exists_of_endTag hend
    trivial
  | start _ hletter hstart => exact readable_of_startTag hletter hstart
  | text _ _ _ _ _ => exact decode_cons_ne _ _

/-- All tokens of a source are readable. -/
theorem readable_of_all {input : List Char} {tokens : List Token} (h : all input = .ok tokens) :
    ∀ token ∈ tokens, token.Readable := by
  fun_induction all input generalizing tokens with
  | case1 =>
    obtain rfl := Except.ok.inj h
    simp
  | case2 => cases h
  | case3 first input token rest htoken ih =>
    cases hrest : all rest with
    | error halt => rw [hrest] at h; cases h
    | ok more =>
      rw [hrest] at h
      obtain rfl := Except.ok.inj h
      intro t ht
      rcases List.mem_cons.mp ht with rfl | ht
      · exact readable_of_scan htoken
      · exact ih hrest t ht

end Token

/-! ## The builder -/

/-- An open element takes any children. -/
structure OpenElement.Readable (o : OpenElement) : Prop where
  element : o.element.Readable
  void : isVoid o.element.tag = false
  raw : isRawText o.element.tag = false
  earlier : ∀ tree ∈ o.earlier, tree.Readable

namespace Builder

/-- What a builder has gathered so far could have been read. -/
structure Readable (b : Builder) : Prop where
  doctype : ∀ name, b.doctype = some name → IsDoctype name
  top : ∀ tree ∈ b.top, tree.Readable
  pending : ∀ o ∈ b.pending, o.Readable

/-- Adding a readable tree. -/
theorem Readable.add {b : Builder} (h : b.Readable) {tree : Tree} (htree : tree.Readable) :
    (b.add tree).Readable := by
  obtain ⟨doctype, top, pending⟩ := b
  -- it goes to the top or into the innermost open element, which takes any children
  cases pending with
  | nil => exact ⟨h.doctype, List.forall_mem_cons.mpr ⟨htree, h.top⟩, h.pending⟩
  | cons o outer =>
    obtain ⟨ho, houter⟩ := List.forall_mem_cons.mp h.pending
    refine ⟨h.doctype, h.top, List.forall_mem_cons.mpr ⟨?_, houter⟩⟩
    exact { ho with earlier := List.forall_mem_cons.mpr ⟨htree, ho.earlier⟩ }

/-- Closing an element makes a readable tree of it. -/
theorem Readable.closeInnermost {b : Builder} (h : b.Readable) : b.closeInnermost.Readable := by
  obtain ⟨doctype, top, pending⟩ := b
  cases pending with
  | nil => exact h
  | cons o outer =>
    obtain ⟨ho, houter⟩ := List.forall_mem_cons.mp h.pending
    have hinner : Builder.Readable ⟨doctype, top, outer⟩ := ⟨h.doctype, h.top, houter⟩
    refine hinner.add (.element ho.element ho.void ho.raw ?_)
    intro child hchild
    exact ho.earlier child (List.mem_reverse.mp hchild)

theorem Readable.close {b : Builder} (h : b.Readable) (n : Nat) : (b.close n).Readable := by
  induction n generalizing b with
  | zero => exact h
  | succ n ih => exact ih h.closeInnermost

/-- One readable token. -/
theorem Readable.step {b : Builder} (h : b.Readable) {token : Token} (htoken : token.Readable) :
    (b.step token).Readable := by
  cases token with
  | doctype name =>
    refine ⟨?_, h.top, h.pending⟩
    rintro _ ⟨⟩
    exact htoken
  | comment content => exact h.add (.comment htoken)
  | text content => exact h.add (.text htoken)
  | complete el content =>
    obtain ⟨hel, hcontent⟩ := htoken
    refine h.add ?_
    split
    · exact .empty hel
    · next hempty =>
      have hne : content ≠ "" := by simpa using hempty
      exact .literal hel (hcontent hne).1 hne (hcontent hne).2
  | opening el =>
    obtain ⟨hel, hvoid, hraw⟩ := htoken
    refine ⟨h.doctype, h.top, List.forall_mem_cons.mpr ⟨?_, h.pending⟩⟩
    exact ⟨hel, hvoid, hraw, by simp⟩
  | closing tag =>
    rw [Builder.step, closeTag]
    split
    · exact h
    · exact h.close _

/-- Any number of readable tokens. By induction on them. -/
theorem Readable.foldl_step {b : Builder} (h : b.Readable) {tokens : List Token}
    (htokens : ∀ token ∈ tokens, token.Readable) : (tokens.foldl Builder.step b).Readable := by
  induction tokens generalizing b with
  | nil => exact h
  | cons token tokens ih =>
    obtain ⟨htoken, htokens⟩ := List.forall_mem_cons.mp htokens
    exact ih (h.step htoken) htokens

theorem Readable.finish {b : Builder} (h : b.Readable) : b.finish.Readable := by
  -- finishing closes whatever is open
  have hclosed := h.close b.pending.length
  exact ⟨hclosed.doctype, fun tree htree => hclosed.top tree (List.mem_reverse.mp htree)⟩

end Builder

/-- What was read is readable. -/
theorem readable_of_read {source : String} {d : Document} (h : read source = .ok d) : d.Readable := by
  rw [read] at h
  split at h
  · cases h
  · next tokens htokens =>
    obtain rfl := Except.ok.inj h
    have hempty : ({} : Builder).Readable := ⟨by simp, by simp, by simp⟩
    exact (hempty.foldl_step (Token.readable_of_all htokens)).finish

end AmpTuner.Markup
