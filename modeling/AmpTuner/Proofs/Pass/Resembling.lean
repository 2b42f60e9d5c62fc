import AmpTuner.Proofs.Rendering.Content
import AmpTuner.Proofs.Extensions.Requirements
import AmpTuner.Pass.RuntimeCss
import AmpTuner.Pass.HeroImages
import AmpTuner.Pass.Viewport
import AmpTuner.Amp.BundledSpec

/-!
# Elements that are the same to the other passes

Passes write attributes on elements that they find and create elements of their own. Neither is anything to
the passes that look for extensions, a viewport or a boilerplate.

* **`Resembles`**: two elements are the same but for the attributes that passes write.
* **`IsPadding`**: elements of the few kinds that passes create.
* **`Inert`**: elements that require no extension and declare no viewport. That is shared by elements that resemble
  each other (`Inert.of_resembles`) and true of padding (`IsPadding.inert`), under a spec that has nothing to
  say about what passes write (`Spec.Quiet`). The bundled one is such a spec.
-/

namespace AmpTuner

open Markup (Element Attribute)
open Vocabulary
open Rendering (without)

variable {spec : Spec} {el el' el'' : Element} {name : String} {names : List String}

/-! ## Without some attributes -/

/-- Other attributes keep their values. -/
theorem Rendering.attribute?_without (hname : name ∉ names) :
    (without names el).attribute? name = el.attribute? name := by
  rw [Element.attribute?, Element.attribute?, without, List.find?_filter]
  congr 2
  funext a
  by_cases heq : a.name = name
  · simp [heq, hname]
  · simp [heq]

theorem Rendering.hasAttribute_without (hname : name ∉ names) :
    (without names el).hasAttribute name = el.hasAttribute name := by
  rw [Markup.Element.hasAttribute_eq_isSome, Markup.Element.hasAttribute_eq_isSome, attribute?_without hname]

/-- The attributes that passes write on elements that were there. -/
def touchedNames : List String :=
  Rendering.ownNames
    ++ [noBoilerplateMarker, RuntimeCss.versionAttribute, HeroImages.renderedMarker, "transformed"]

/-- The same element, whatever passes have written on it. -/
def Resembles (el el' : Element) : Prop := without touchedNames el' = without touchedNames el

namespace Resembles

theorem refl (el : Element) : Resembles el el := rfl

theorem trans (h : Resembles el el') (h' : Resembles el' el'') : Resembles el el'' := Eq.trans h' h

theorem set (hname : name ∈ touchedNames) (value : String) : Resembles el (el.set name value) :=
  Rendering.without_set hname el value

theorem erase (hname : name ∈ touchedNames) : Resembles el (el.erase name) := Rendering.without_erase hname el

theorem tag (h : Resembles el el') : el'.tag = el.tag := by
  unfold Resembles at h
  have htag := congrArg Element.tag h
  exact htag

theorem attribute? (h : Resembles el el') (hname : name ∉ touchedNames) :
    el'.attribute? name = el.attribute? name := by
  rw [← Rendering.attribute?_without hname, h, Rendering.attribute?_without hname]

theorem hasAttribute (h : Resembles el el') (hname : name ∉ touchedNames) :
    el'.hasAttribute name = el.hasAttribute name := by
  rw [Markup.Element.hasAttribute_eq_isSome, Markup.Element.hasAttribute_eq_isSome, h.attribute? hname]

theorem isViewport (h : Resembles el el') : Viewport.isViewport el' = Viewport.isViewport el := by
  rw [Viewport.isViewport, Viewport.isViewport, h.tag, h.attribute? (by decide)]

/-- Both are boilerplate styles, or none is. -/
theorem isBoilerplateStyle (h : Resembles el el') : isBoilerplateStyle el' = isBoilerplateStyle el := by
  have hany : boilerplateAttributes.any el'.hasAttribute = boilerplateAttributes.any el.hasAttribute := by
    rw [Bool.eq_iff_iff, List.any_eq_true, List.any_eq_true]
    refine exists_congr fun marker => and_congr_right fun hmarker => ?_
    have hall : ∀ marker ∈ boilerplateAttributes, marker ∉ touchedNames := by decide
    rw [h.hasAttribute (hall marker hmarker)]
  rw [Vocabulary.isBoilerplateStyle, Vocabulary.isBoilerplateStyle, h.tag, hany]

theorem isRuntimeStyle (h : Resembles el el') : isRuntimeStyle el' = isRuntimeStyle el := by
  rw [Vocabulary.isRuntimeStyle, Vocabulary.isRuntimeStyle, h.tag, h.hasAttribute (by decide)]

theorem isRuntimeStylesheet (h : Resembles el el') : isRuntimeStylesheet el' = isRuntimeStylesheet el := by
  have htokens : el'.tokens "rel" = el.tokens "rel" := by
    rw [Element.tokens, Element.tokens, h.attribute? (by decide)]
  rw [Vocabulary.isRuntimeStylesheet, Vocabulary.isRuntimeStylesheet, h.tag, htokens, h.attribute? (by decide)]

end Resembles

/-! ## What passes create -/

/-- The tags of what passes create besides scripts and the boilerplate. -/
def paddingTags : List String := [sizerTag, "img", "style", "link"]

/-- The attributes that passes give to what they create. -/
def paddingNames : List String :=
  ["slot", "style", "class", "alt", "aria-hidden", "role", "src", "amp-custom", "rel", "href", "as",
    "imagesrcset", "imagesizes", "srcset", "sizes", "referrerpolicy", "decoding"]

/-- Of a kind that passes create, with no other attributes than they give it. -/
structure IsPadding (el : Element) : Prop where
  tag : el.tag ∈ paddingTags
  names : ∀ a ∈ el.attributes, a.name ∈ paddingNames ∨ a.name ∈ touchedNames

namespace IsPadding

/-- Padding stays padding when it is written on. -/
theorem of_resembles (h : IsPadding el) (hres : Resembles el el') : IsPadding el' where
  tag := by rw [hres.tag]; exact h.tag
  names := by
    intro a ha
    by_cases htouched : a.name ∈ touchedNames
    · exact .inr htouched
    · have hmem : a ∈ (without touchedNames el').attributes := List.mem_filter.mpr ⟨ha, by simpa using htouched⟩
      rw [hres] at hmem
      exact h.names a (List.mem_filter.mp hmem).1

/-- What is made of such a tag and such attributes is padding. -/
theorem make {tag : String} {given : List (String × String)} (htag : tag ∈ paddingTags)
    (hgiven : ∀ p ∈ given, p.1 ∈ paddingNames) : IsPadding (.make tag given) where
  tag := by rwa [Element.tag_make]
  names := by
    have run (given : List (String × String)) (hgiven : ∀ p ∈ given, p.1 ∈ paddingNames) (el : Element)
        (hel : ∀ a ∈ el.attributes, a.name ∈ paddingNames) :
        ∀ a ∈ (el.setAll given).attributes, a.name ∈ paddingNames := by
      induction given generalizing el with
      | nil => exact hel
      | cons p given ih =>
        obtain ⟨hp, hgiven⟩ := List.forall_mem_cons.mp hgiven
        refine ih hgiven (el.set p.1 p.2) fun a ha => ?_
        have hname : a.name ∈ Attribute.names el.attributes ∨ a.name = p.1 :=
          Attribute.mem_names_put.mp (List.mem_map_of_mem ha)
        rcases hname with hmem | heq
        · obtain ⟨b, hb, hname⟩ := List.mem_map.mp hmem
          exact hname ▸ hel b hb
        · rw [heq]
          exact hp
    exact fun a ha => .inl (run given hgiven { tag } (by simp) a ha)

variable (h : IsPadding el)

include h

theorem isComponent : Markup.isComponent el.tag = false := by
  have hall : ∀ tag ∈ paddingTags, Markup.isComponent tag = false := by decide
  exact hall el.tag h.tag

theorem tag_ne (hname : name ∉ paddingTags) : el.tag ≠ name := fun heq => hname (heq ▸ h.tag)

/-- Padding has no other attributes. -/
theorem hasAttribute (hpadding : name ∉ paddingNames) (htouched : name ∉ touchedNames) :
    el.hasAttribute name = false := by
  rw [Bool.eq_false_iff, Ne, Markup.Element.hasAttribute_iff]
  intro hmem
  obtain ⟨a, ha, rfl⟩ := List.mem_map.mp hmem
  exact (h.names a ha).elim hpadding htouched

/-- Padding is no boilerplate style. -/
theorem isBoilerplateStyle : isBoilerplateStyle el = false := by
  rw [Vocabulary.isBoilerplateStyle, Bool.and_eq_false_iff]
  refine .inr (List.any_eq_false.mpr fun marker hmarker => ?_)
  have hall : ∀ marker ∈ boilerplateAttributes, marker ∉ paddingNames ∧ marker ∉ touchedNames := by decide
  rw [h.hasAttribute (hall marker hmarker).1 (hall marker hmarker).2]
  decide

end IsPadding

/-! ## What no pass looks for -/

/-- The spec has nothing to say about what passes create and write, and every extension has a name. -/
structure Spec.Quiet (spec : Spec) : Prop where
  tags : ∀ rule ∈ spec.tags, rule.tag.toLower ∈ "noscript" :: paddingTags → rule.requires = []
  attributes : ∀ rule ∈ spec.tags.flatMap (·.attributes) ++ spec.attributeList Spec.globalList,
    rule.name ∈ "amp-boilerplate" :: (paddingNames ++ touchedNames) → rule.requires = []
  named : spec.extension? "" = none

theorem Spec.quiet_bundled : Spec.bundled.Quiet where
  tags := by decide +kernel
  attributes := by decide +kernel
  named := by decide +kernel

/-- Nothing is required on account of such a tag. -/
theorem Spec.Quiet.extensionsForTag (h : spec.Quiet) {tag : String} (htag : tag ∈ "noscript" :: paddingTags) :
    spec.extensionsForTag tag = [] := by
  have hnone : (spec.tagsNamed tag).flatMap (·.requires) = [] := by
    refine List.flatMap_eq_nil_iff.mpr fun rule hrule => ?_
    obtain ⟨hmem, heq⟩ := List.mem_filter.mp hrule
    exact h.tags rule hmem (beq_iff_eq.mp heq ▸ htag)
  rw [Spec.extensionsForTag, hnone]
  rfl

namespace Extensions

/-- What an attribute of an element requires. -/
def attributeRequires (spec : Spec) (tag name : String) : List String :=
  impliedByAttribute name ++ spec.extensionsForAttribute tag name ++ if isBound name then ["amp-bind"] else []

/-- Nothing is required on account of such an attribute. -/
theorem attributeRequires_of_quiet (h : spec.Quiet) (tag : String)
    (hname : name ∈ "amp-boilerplate" :: (paddingNames ++ touchedNames)) :
    attributeRequires spec tag name = [] := by
  have hplain : ∀ name ∈ "amp-boilerplate" :: (paddingNames ++ touchedNames),
      impliedByAttribute name = [] ∧ isBound name = false := by decide
  have hnone : spec.extensionsForAttribute tag name = [] := by
    have hrules : (((spec.tagsNamed tag).flatMap (·.attributes) ++ spec.attributeList Spec.globalList).filter
        (·.name == name)).flatMap (·.requires) = [] := by
      refine List.flatMap_eq_nil_iff.mpr fun rule hrule => ?_
      obtain ⟨hmem, heq⟩ := List.mem_filter.mp hrule
      refine h.attributes rule ?_ (beq_iff_eq.mp heq ▸ hname)
      refine List.mem_append.mpr ((List.mem_append.mp hmem).imp_left fun hmem => ?_)
      obtain ⟨tagRule, htagRule, hrule⟩ := List.mem_flatMap.mp hmem
      exact List.mem_flatMap.mpr ⟨tagRule, (List.mem_filter.mp htagRule).1, hrule⟩
    rw [Spec.extensionsForAttribute, hrules]
    rfl
  rw [attributeRequires, (hplain name hname).1, hnone, (hplain name hname).2]
  rfl

theorem requiredBy_eq : requiredBy spec el = spec.extensionsForTag el.tag ++ (templateOf? el).toList
    ++ (if el.tag == "input" && el.hasAttribute "mask" then ["amp-inputmask"] else [])
    ++ el.attributes.flatMap fun a => attributeRequires spec el.tag a.name := rfl

/-- What passes write requires nothing. -/
theorem requiredBy_without (h : spec.Quiet) : requiredBy spec (without touchedNames el) = requiredBy spec el := by
  have hattributes : ((without touchedNames el).attributes.flatMap fun a => attributeRequires spec el.tag a.name)
      = el.attributes.flatMap fun a => attributeRequires spec el.tag a.name := by
    show (el.attributes.filter (!touchedNames.contains ·.name)).flatMap _ = _
    induction el.attributes with
    | nil => rfl
    | cons a rest ih =>
      by_cases htouched : a.name ∈ touchedNames
      · rw [List.filter_cons_of_neg (by simp [htouched]), List.flatMap_cons, ih,
          attributeRequires_of_quiet h el.tag (by simp [htouched]), List.nil_append]
      · rw [List.filter_cons_of_pos (by simp [htouched]), List.flatMap_cons, List.flatMap_cons, ih]
  have htemplate : templateOf? (without touchedNames el) = templateOf? el := by
    unfold templateOf?
    rw [Rendering.attribute?_without (by decide), Rendering.attribute?_without (by decide)]
    rfl
  rw [requiredBy_eq, requiredBy_eq, htemplate, Rendering.hasAttribute_without (by decide)]
  exact congrArg _ hattributes

end Extensions

/-- Requires no extension and declares no viewport. -/
structure Inert (spec : Spec) (el : Element) : Prop where
  requires : Extensions.requiredBy spec el = []
  component : Markup.isComponent el.tag = false
  viewport : Viewport.isViewport el = false

theorem Resembles.requiredBy (h : Resembles el el') (hspec : spec.Quiet) :
    Extensions.requiredBy spec el' = Extensions.requiredBy spec el := by
  rw [← Extensions.requiredBy_without hspec, h, Extensions.requiredBy_without hspec]

/-- Both are inert, or none is. -/
theorem Resembles.inert_iff (h : Resembles el el') (hspec : spec.Quiet) : Inert spec el' ↔ Inert spec el := by
  constructor
  · rintro ⟨hrequires, hcomponent, hviewport⟩
    exact ⟨h.requiredBy hspec ▸ hrequires, h.tag ▸ hcomponent, h.isViewport ▸ hviewport⟩
  · rintro ⟨hrequires, hcomponent, hviewport⟩
    exact ⟨h.requiredBy hspec ▸ hrequires, h.tag ▸ hcomponent, h.isViewport ▸ hviewport⟩

/-- What has only names that the spec is quiet about is inert. -/
theorem inert_of_names (hspec : spec.Quiet) (htag : el.tag ∈ "noscript" :: paddingTags)
    (hnames : ∀ a ∈ el.attributes, a.name ∈ "amp-boilerplate" :: (paddingNames ++ touchedNames)) :
    Inert spec el where
  requires := by
    have hall : ∀ tag ∈ "noscript" :: paddingTags, tag ≠ "template" ∧ tag ≠ "script" ∧ tag ≠ "input" := by decide
    obtain ⟨htemplate, hscript, hinput⟩ := hall el.tag htag
    have hattributes : (el.attributes.flatMap fun a => Extensions.attributeRequires spec el.tag a.name) = [] :=
      List.flatMap_eq_nil_iff.mpr fun a ha =>
        Extensions.attributeRequires_of_quiet hspec el.tag (hnames a ha)
    have htemplateOf : Extensions.templateOf? el = none := by simp [Extensions.templateOf?]
    rw [Extensions.requiredBy_eq, hspec.extensionsForTag htag, hattributes, htemplateOf]
    simp [hinput]
  component := by
    have hall : ∀ tag ∈ "noscript" :: paddingTags, Markup.isComponent tag = false := by decide
    exact hall el.tag htag
  viewport := by
    have hall : ∀ tag ∈ "noscript" :: paddingTags, (tag == "meta") = false := by decide
    rw [Viewport.isViewport, hall el.tag htag, Bool.false_and]

theorem IsPadding.inert (h : IsPadding el) (hspec : spec.Quiet) : Inert spec el :=
  inert_of_names hspec (List.mem_cons_of_mem _ h.tag) fun a ha =>
    List.mem_cons_of_mem _ (List.mem_append.mpr (h.names a ha))

end AmpTuner
