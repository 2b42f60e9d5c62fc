import AmpTuner.Proofs.Markup.Scanning
import AmpTuner.Proofs.Markup.Attributes
import AmpTuner.Markup.Reader
import AmpTuner.Text.Affix

/-!
# What a reader can bring forth

`Tree.Readable` describes the trees that come out of markup: names as the reader takes them, no
attribute twice, no child in a void element, and contents that do not hold their own ending. It says
nothing about how a tree was read, so that it can be checked of a tree that was changed afterwards.

* **`Element.Readable`** is the part about one element. Giving it a value, taking one away or adding a
  class keeps it, as the names that passes use are names.
-/

namespace AmpTuner.Markup

open Token (Clear upTo atHead endsName lowerName isAsciiLetter)

/-! ## Names -/

/-- A name as the reader takes it: in lower case, up to a character that ends it. -/
structure IsName (name : String) : Prop where
  ne_nil : name.toList ≠ []
  plain : ∀ c ∈ name.toList, endsName c = false
  lower : ∀ c ∈ name.toList, c.toLower = c

/-- A tag begins with a letter besides. -/
structure IsTag (tag : String) : Prop extends IsName tag where
  letter : atHead isAsciiLetter tag.toList = true

theorem toList_lowerName (name : List Char) : (lowerName name).toList = name.map Char.toLower := by
  show ((String.ofList name).map Char.toLower).toList = _
  rw [String.toList_map, String.toList_ofList]

/-- What is read up to the end of a name is a name. -/
theorem isName_lowerName {name : List Char} (hne : name ≠ [])
    (hplain : ∀ c ∈ name, endsName c = false) : IsName (lowerName name) where
  ne_nil := by rw [toList_lowerName]; simpa using hne
  plain := by
    rw [toList_lowerName]
    intro c hc
    obtain ⟨d, hd, rfl⟩ := List.mem_map.mp hc
    exact Token.endsName_toLower (hplain d hd)
  lower := by
    rw [toList_lowerName]
    intro c hc
    obtain ⟨d, _, rfl⟩ := List.mem_map.mp hc
    exact Token.toLower_toLower d

theorem IsName.lowerName_toList {name : String} (h : IsName name) : lowerName name.toList = name := by
  apply String.toList_injective
  rw [toList_lowerName]
  exact (List.map_congr_left h.lower).trans (List.map_id _)

theorem isName_of_all {name : String} (hne : name.toList ≠ [])
    (h : name.toList.all fun c => !endsName c && c.toLower == c) : IsName name := by
  simp only [List.all_eq_true, Bool.and_eq_true, Bool.not_eq_true', beq_iff_eq] at h
  exact ⟨hne, fun c hc => (h c hc).1, fun c hc => (h c hc).2⟩

/-! ## Contents -/

/-- A comment that its own ending would not cut short. -/
def IsComment (content : String) : Prop :=
  Clear "-->".toList.isPrefixOf "-->".toList content.toList

/-- Whether literal content holds the end tag of its element, in any case of letters. -/
def holdsEndTag (tag content : String) : Bool := Text.contains ("</" ++ tag) content.toLower

/-- A document type as the reader takes it. -/
structure IsDoctype (name : String) : Prop where
  trimmed : Text.trim name = name
  closed : '>' ∉ name.toList

/-! ## Trees -/

/-- An element that could have been read: its tag and the names of its attributes are names, and none stands twice. -/
structure Element.Readable (el : Element) : Prop where
  tag : IsTag el.tag
  names : ∀ a ∈ el.attributes, IsName a.name
  distinct : el.Distinct

namespace Element.Readable

variable {el : Element} {name value : String}

/-- Setting an attribute under a name keeps an element readable. -/
theorem set (h : el.Readable) (hname : IsName name) : (el.set name value).Readable where
  tag := h.tag
  names a ha := by
    rcases Attribute.mem_names_put.mp (List.mem_map_of_mem ha) with ha | ha
    · obtain ⟨b, hb, hab⟩ := List.mem_map.mp ha
      exact hab ▸ h.names b hb
    · exact ha ▸ hname
  distinct := h.distinct.set

theorem erase (h : el.Readable) : (el.erase name).Readable where
  tag := h.tag
  names a ha := h.names a (List.eraseP_subset ha)
  distinct := h.distinct.erase

/-- Setting several attributes under names keeps an element readable. -/
theorem setAll {given : List (String × String)} (h : el.Readable)
    (hgiven : ∀ a ∈ given, IsName a.1) : (el.setAll given).Readable := by
  induction given generalizing el with
  | nil => exact h
  | cons a given ih =>
    obtain ⟨ha, hgiven⟩ := List.forall_mem_cons.mp hgiven
    exact ih (h.set ha) hgiven

theorem make {tag : String} {given : List (String × String)} (htag : IsTag tag)
    (hgiven : ∀ a ∈ given, IsName a.1) : (Element.make tag given).Readable := by
  have hbare : (Element.mk tag []).Readable := ⟨htag, by simp, List.nodup_nil⟩
  exact hbare.setAll hgiven

end Element.Readable

/-- A tree that could have been read: void elements are empty, and literal content is one text without its end tag. -/
inductive Tree.Readable : Tree → Prop where
  | text {content : String} (hne : content ≠ "") : Readable (.text content)
  | comment {content : String} (h : IsComment content) : Readable (.comment content)
  /-- Void elements are empty, and any other element may be. -/
  | empty {el : Element} (hel : el.Readable) : Readable (.element el [])
  | literal {el : Element} {content : String} (hel : el.Readable) (hraw : isRawText el.tag = true)
      (hne : content ≠ "") (hend : holdsEndTag el.tag content = false) :
      Readable (.element el [.text content])
  | element {el : Element} {children : List Tree} (hel : el.Readable) (hvoid : isVoid el.tag = false)
      (hraw : isRawText el.tag = false) (hchildren : ∀ child ∈ children, Readable child) :
      Readable (.element el children)

/-- A document that could have been read, the doctype included. -/
structure Document.Readable (d : Document) : Prop where
  doctype : ∀ name, d.doctype = some name → IsDoctype name
  nodes : ∀ tree ∈ d.nodes, tree.Readable

theorem isVoid_eq_false_of_isRawText {tag : String} (h : isRawText tag = true) :
    isVoid tag = false := by
  simp only [isRawText, Bool.or_eq_true, beq_iff_eq] at h
  rcases h with rfl | rfl <;> decide

/-! ## Readable elements -/

namespace Tree.Readable

variable {el : Element} {children : List Tree}

/-- A readable tree has a readable element and readable children. -/
theorem element_children (h : (Tree.element el children).Readable) :
    el.Readable ∧ ∀ child ∈ children, child.Readable := by
  cases h with
  | empty hel => exact ⟨hel, by simp⟩
  | literal hel hraw hne hend => exact ⟨hel, by simpa using .text hne⟩
  | element hel _ _ hchildren => exact ⟨hel, hchildren⟩

/-- A void element has no children. -/
theorem children_of_isVoid (h : (Tree.element el children).Readable) (hvoid : isVoid el.tag = true) :
    children = [] := by
  cases h with
  | empty => rfl
  | literal _ hraw =>
    rw [isVoid_eq_false_of_isRawText hraw] at hvoid
    cases hvoid
  | element _ hvoid' =>
    rw [hvoid'] at hvoid
    cases hvoid

/-- A raw element holds nothing, or one text that does not hold its end tag. -/
theorem children_of_isRawText (h : (Tree.element el children).Readable) (hraw : isRawText el.tag = true) :
    children = [] ∨ ∃ content, children = [.text content] ∧ content ≠ ""
      ∧ holdsEndTag el.tag content = false := by
  cases h with
  | empty => exact .inl rfl
  | literal _ _ hne hend => exact .inr ⟨_, rfl, hne, hend⟩
  | element _ _ hraw' =>
    rw [hraw] at hraw'
    cases hraw'

end Tree.Readable

/-! ## The end tag of literal content -/

namespace Token

/-- To compare without regard to case is to compare in lower case. -/
theorem startsIgnoringCase_eq (lower input : List Char) :
    startsIgnoringCase lower input = lower.isPrefixOf (input.map Char.toLower) := by
  rw [startsIgnoringCase, List.map_take]
  -- `take` cuts the input to the length of the pattern, which `isPrefixOf` never passes
  induction lower generalizing input with
  | nil => simp
  | cons c lower ih =>
    cases input with
    | nil => rfl
    | cons d input =>
      rw [List.map_cons, List.length_cons, List.take_succ_cons, List.isPrefixOf_cons_cons,
        List.isPrefixOf_cons_cons, ih]

/-- A pattern that holds an angle bracket at its head alone does not run on into a text that begins
with one. -/
theorem isPrefixOf_append_bracket {pattern s : List Char} (hp : '<' ∉ pattern) (rest : List Char) :
    pattern.isPrefixOf (s ++ '<' :: rest) = pattern.isPrefixOf s := by
  induction pattern generalizing s with
  | nil => simp
  | cons p pattern ih =>
    obtain ⟨hne, hp⟩ : '<' ≠ p ∧ '<' ∉ pattern := by simpa using hp
    cases s with
    | nil => simp [List.isPrefixOf_cons_cons, hne.symm]
    | cons c s => rw [List.cons_append, List.isPrefixOf_cons_cons, List.isPrefixOf_cons_cons, ih hp]

end Token

end AmpTuner.Markup
