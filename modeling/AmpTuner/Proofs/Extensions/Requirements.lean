import AmpTuner.Proofs.Extensions.Stages

/-!
# Required extensions

When an element requires an extension, rule by rule, and that the pass finds every such requirement.

* **`Requires`** has one constructor for each rule. The rules for attributes look them up under the
  names that they have once bound attributes are spelled out (`countedAs`); only a shorthand that is to
  be spelled out has another name then.
* **`Requires.mem_requiredBy`**: each rule is seen in the element as it is searched.
* **`mem_needs`**: so the name is among those that the pass sees to, for every element in reach.
-/

namespace AmpTuner.Extensions

open Markup (Element Attribute)
open Markup.Attribute (names)

variable {s : Settings.Extensions} {spec : Spec} {page : Page} {el : Element} {name x : String}

/-! ## Lists without repetition -/

/-- The names that are known and the new ones. -/
theorem mem_addNames {known new : List String} : x ∈ addNames known new ↔ x ∈ known ∨ x ∈ new := by
  rw [addNames]
  induction new generalizing known with
  | nil => simp
  | cons name new ih =>
    rw [List.foldl_cons, ih, List.mem_cons]
    split
    · next hknown =>
      -- a name that is known already adds nothing
      rw [List.contains_iff_mem] at hknown
      constructor
      · exact Or.imp_right .inr
      · rintro (hx | rfl | hx)
        · exact .inl hx
        · exact .inl hknown
        · exact .inr hx
    · rw [List.mem_append, List.mem_singleton, or_assoc]

theorem mem_distinct {given : List String} : x ∈ Spec.distinct given ↔ x ∈ given := by
  show x ∈ addNames [] given ↔ _
  simp [mem_addNames]

/-- The walk over the elements adds what each of them requires. -/
theorem mem_requirements_iff_exists {required : List String} {groups : List Group} :
    x ∈ (requirements spec page required groups).1 ↔ x ∈ required
      ∨ ∃ el ∈ (page.descendants page.root).filterMap page.element?, x ∈ requiredBy spec el := by
  rw [requirements]
  generalize (page.descendants page.root).filterMap page.element? = els
  induction els generalizing required groups with
  | nil => simp
  | cons el els ih => rw [List.foldl_cons, ih, mem_addNames, List.exists_mem_cons_iff, or_assoc]

/-- What is required in the end: what was at first, and what an element below the root requires. -/
theorem mem_requirements {required : List String} {groups : List Group} (h : page.Linked) :
    x ∈ (requirements spec page required groups).1 ↔ x ∈ required
      ∨ ∃ e el, page.Above page.root e ∧ page.element? e = some el ∧ x ∈ requiredBy spec el := by
  rw [mem_requirements_iff_exists]
  refine or_congr_right ⟨?_, ?_⟩
  · rintro ⟨el, hel, hx⟩
    obtain ⟨e, he, hel⟩ := List.mem_filterMap.mp hel
    exact ⟨e, el, h.mem_descendants_iff.mp he, hel, hx⟩
  · rintro ⟨e, el, he, hel, hx⟩
    exact ⟨el, List.mem_filterMap.mpr ⟨e, h.mem_descendants_iff.mpr he, hel⟩, hx⟩

/-! ## The rules -/

/-- The name under which an attribute counts. -/
def countedAs (s : Settings.Extensions) (name : String) : String :=
  if s.renameBind then spelledName name else name

/-- A short form spelled out is a binding. -/
theorem isBound_spelledName (h : Text.startsWith shorthand name = true) : isBound (spelledName name) = true := by
  cases hrest : Text.afterStart? shorthand name with
  | none =>
    rw [afterStart?_eq_none_iff.mp hrest] at h
    cases h
  | some rest => rw [spelledName_of_some hrest, isBound, startsWith_append, Bool.or_true]

/-- A bound attribute is one also under the name that it counts as. -/
theorem isBound_countedAs (h : isBound name = true) : isBound (countedAs s name) = true := by
  rw [countedAs]
  split
  · cases hshort : Text.startsWith shorthand name with
    | true => exact isBound_spelledName hshort
    | false => rwa [spelledName_of_none (afterStart?_eq_none_iff.mpr hshort)]
  · exact h

/-- The element requires the extension. -/
inductive Requires (s : Settings.Extensions) (spec : Spec) (el : Element) : String → Prop
  | tag {rule : TagRule} {x : String} (hrule : rule ∈ spec.tags) (htag : rule.tag.toLower = el.tag)
      (hx : x ∈ rule.requires) : Requires s spec el x
  | template {x : String} (htag : el.tag = "template") (hx : el.attribute? "type" = some x)
      (hamp : Text.startsWith "amp-" x = true) : Requires s spec el x
  | scriptTemplate {x : String} (htag : el.tag = "script") (hx : el.attribute? "template" = some x)
      (hamp : Text.startsWith "amp-" x = true) : Requires s spec el x
  | mask (htag : el.tag = "input") (hmask : el.hasAttribute "mask" = true) :
      Requires s spec el "amp-inputmask"
  | lightbox (hlightbox : el.hasAttribute "lightbox" = true) : Requires s spec el "amp-lightbox-gallery"
  | tagAttribute {rule : TagRule} {attr : AttributeRule} {name x : String} (hrule : rule ∈ spec.tags)
      (htag : rule.tag.toLower = el.tag) (hattr : attr ∈ rule.attributes)
      (hname : name ∈ names el.attributes) (hcounted : attr.name = countedAs s name)
      (hx : x ∈ attr.requires) : Requires s spec el x
  | globalAttribute {attr : AttributeRule} {name x : String}
      (hattr : attr ∈ spec.attributeList Spec.globalList) (hname : name ∈ names el.attributes)
      (hcounted : attr.name = countedAs s name) (hx : x ∈ attr.requires) : Requires s spec el x
  | bound {name : String} (hname : name ∈ names el.attributes) (hbound : isBound name = true) :
      Requires s spec el "amp-bind"
  | shorthand {name : String} (hname : name ∈ names el.attributes) (hrename : s.renameBind = true)
      (hshort : Text.startsWith shorthand name = true) : Requires s spec el "amp-bind"

/-! ## What the element looks like when it is searched -/

/-- Spelling out keeps the tag. -/
theorem tag_written : (written s el).tag = el.tag := by
  rw [written]
  split
  · exact tag_spellOut
  · rfl

/-- It keeps the value of what is no binding. -/
theorem attribute?_written (h : Unbound name) : (written s el).attribute? name = el.attribute? name := by
  rw [written]
  split
  · exact attribute?_spellOut h
  · rfl

theorem hasAttribute_written (h : Unbound name) : (written s el).hasAttribute name = el.hasAttribute name := by
  rw [Element.hasAttribute_eq_isSome, attribute?_written h, Element.hasAttribute_eq_isSome]

/-- Every name is searched in the form in which it counts. -/
theorem mem_names_written (h : name ∈ names el.attributes) :
    countedAs s name ∈ names (written s el).attributes := by
  rw [countedAs, written]
  split
  · exact mem_names_spellOut h
  · exact h

/-! ## No rule is missed -/

/-- What one attribute of an element requires, the element does. -/
theorem mem_requiredBy_of_attribute (hname : name ∈ names el.attributes)
    (hx : x ∈ impliedByAttribute name ++ spec.extensionsForAttribute el.tag name
      ++ if isBound name then ["amp-bind"] else []) : x ∈ requiredBy spec el := by
  obtain ⟨a, ha, rfl⟩ := List.mem_map.mp hname
  rw [requiredBy]
  exact List.mem_append_right _ (List.mem_flatMap.mpr ⟨a, ha, hx⟩)

theorem mem_requiredBy_of_template (h : templateOf? el = some x) : x ∈ requiredBy spec el := by
  simp [requiredBy, h]

/-- What a rule asks for on account of an attribute is among what the spec has for it. -/
theorem mem_extensionsForAttribute {tag : String} {attr : AttributeRule}
    (hattr : (∃ rule ∈ spec.tags, rule.tag.toLower = tag ∧ attr ∈ rule.attributes)
      ∨ attr ∈ spec.attributeList Spec.globalList)
    (hx : x ∈ attr.requires) : x ∈ spec.extensionsForAttribute tag attr.name := by
  rw [Spec.extensionsForAttribute, mem_distinct, List.mem_flatMap]
  refine ⟨attr, List.mem_filter.mpr ⟨?_, beq_self_eq_true _⟩, hx⟩
  rcases hattr with ⟨rule, hrule, htag, hattr⟩ | hglobal
  · refine List.mem_append_left _ (List.mem_flatMap.mpr ⟨rule, ?_, hattr⟩)
    exact List.mem_filter.mpr ⟨hrule, beq_iff_eq.mpr htag⟩
  · exact List.mem_append_right _ hglobal

/-- Rule by rule; an attribute is looked up under the name that it counts as. -/
theorem Requires.mem_requiredBy (h : Requires s spec el x) : x ∈ requiredBy spec (written s el) := by
  cases h with
  | tag hrule htag hx =>
    have hmem : x ∈ spec.extensionsForTag (written s el).tag := by
      rw [Spec.extensionsForTag, mem_distinct, List.mem_flatMap, tag_written]
      exact ⟨_, List.mem_filter.mpr ⟨hrule, beq_iff_eq.mpr htag⟩, hx⟩
    simp [requiredBy, hmem]
  | template htag hx hamp =>
    refine mem_requiredBy_of_template ?_
    rw [templateOf?, tag_written, htag]
    show Option.filter _ ((written s el).attribute? "type") = _
    rw [attribute?_written (by decide), hx, Option.filter_some_pos hamp]
  | scriptTemplate htag hx hamp =>
    refine mem_requiredBy_of_template ?_
    rw [templateOf?, tag_written, htag]
    show Option.filter _ ((written s el).attribute? "template") = _
    rw [attribute?_written (by decide), hx, Option.filter_some_pos hamp]
  | mask htag hmask =>
    have hwritten : (written s el).hasAttribute "mask" = true := by
      rw [hasAttribute_written (by decide), hmask]
    simp [requiredBy, tag_written, htag, hwritten]
  | lightbox hlightbox =>
    have hwritten : (written s el).hasAttribute "lightbox" = true := by
      rw [hasAttribute_written (by decide), hlightbox]
    refine mem_requiredBy_of_attribute (Element.hasAttribute_iff.mp hwritten) ?_
    simp [impliedByAttribute]
  | @tagAttribute rule attr name _ hrule htag hattr hname hcounted hx =>
    refine mem_requiredBy_of_attribute (mem_names_written hname) ?_
    rw [← hcounted, tag_written]
    have hmem := mem_extensionsForAttribute (.inl ⟨rule, hrule, htag, hattr⟩) hx
    exact List.mem_append_left _ (List.mem_append_right _ hmem)
  | @globalAttribute attr name _ hattr hname hcounted hx =>
    refine mem_requiredBy_of_attribute (mem_names_written hname) ?_
    rw [← hcounted]
    exact List.mem_append_left _ (List.mem_append_right _ (mem_extensionsForAttribute (.inr hattr) hx))
  | bound hname hbound =>
    refine mem_requiredBy_of_attribute (mem_names_written hname) ?_
    simp [isBound_countedAs hbound]
  | shorthand hname hrename hshort =>
    refine mem_requiredBy_of_attribute (mem_names_written hname) ?_
    simp [countedAs, hrename, isBound_spelledName hshort]

/-- No element in reach is missed. -/
theorem mem_needs (h : page.WellFormed) {e : NodeId} (he : InReach page e) (hel : page.element? e = some el)
    (hx : Requires s spec el x) : x ∈ (needs s spec page).1 := by
  have habove : (cleared page).Above page.root e := above_cleared he.1 he.2
  refine (mem_requirements (searched_wellFormed h).linked).mpr (.inr ⟨e, written s el, ?_, ?_, ?_⟩)
  · rwa [searched_sameFrame.root, searched_sameLinks.above_iff]
  · rw [element?_searched h habove, hel]
    rfl
  · exact hx.mem_requiredBy

end AmpTuner.Extensions
