import AmpTuner.Proofs.Markup.Classes
import AmpTuner.Proofs.Rendering.Layout
import AmpTuner.Proofs.Rendering.Table

/-!
# The decision of a layout

Rendering reads the keyword and the two lengths, puts in what the tag has of its own, and looks at what came out. That
comes to the table: an element is planned with the layout that the table has for it, or rejected for one of its reasons.

* **`Layout.parse?_eq_some_iff`** and **`Layout.isSupported_iff`**: both recognisers of a keyword go by its name.
* **`exists_dimensions`**: the lengths are those of the texts that count.
* **`infers_infer`** and **`accepts_iff`** set the two steps of the decision beside the table.
* **`decides_of_plan`**, **`rejects_of_plan`**: what a plan and a refusal tell of the element.
* **`attribute?_rendered_marker`**, **`hasClass_rendered`**, **`hasClass_rendered_sizeDefined`**: the rendered element
  shows its layout.
-/

namespace AmpTuner

/-! ## Keywords -/

namespace Layout

variable {layout : Layout} {value : String}

theorem mem_all (layout : Layout) : layout ∈ all := by cases layout <;> decide

theorem toLower_keyword (layout : Layout) : layout.keyword.toLower = layout.keyword := by
  show String.map Char.toLower layout.keyword = layout.keyword
  rw [← String.toList_inj, String.toList_map]
  cases layout <;> decide

/-- A keyword is read whatever the case of its letters and the blanks around it. -/
theorem parse?_eq_some_iff : parse? value = some layout ↔ Keyword (Text.trim value).toLower layout := by
  rw [parse?, keyword_iff]
  constructor
  · intro h
    exact (eq_of_beq (List.find?_some (p := fun l : Layout => l.keyword == (Text.trim value).toLower) h)).symm
  · intro h
    obtain ⟨found, hfound⟩ : ∃ found, all.find? (·.keyword == (Text.trim value).toLower) = some found := by
      rw [← Option.isSome_iff_exists, List.find?_isSome]
      exact ⟨layout, mem_all layout, by rw [h]; exact BEq.rfl⟩
    have hkeyword := List.find?_some (p := fun l : Layout => l.keyword == (Text.trim value).toLower) hfound
    rw [hfound, keyword_injective ((eq_of_beq hkeyword).trans h)]

/-- The second recogniser takes the same names, and none at all. -/
theorem isSupported_iff : isSupported value = true ↔ value = "" ∨ ∃ layout, Keyword value.toLower layout := by
  rw [isSupported, Bool.or_eq_true, String.isEmpty_iff, List.any_eq_true]
  refine or_congr_right ?_
  constructor
  · rintro ⟨layout, -, hsame⟩
    have hlower : layout.keyword.toLower = value.toLower := eq_of_beq hsame
    exact ⟨layout, keyword_iff.mpr (by rw [← hlower, toLower_keyword])⟩
  · rintro ⟨layout, hlayout⟩
    refine ⟨layout, mem_all layout, ?_⟩
    rw [Text.sameIgnoringCase, toLower_keyword, keyword_iff.mp hlayout]
    exact BEq.rfl

theorem isSizeDefined_iff : layout.isSizeDefined = true ↔ layout ≠ .nodisplay ∧ layout ≠ .container := by
  cases layout <;> simp [isSizeDefined]

end Layout

namespace Rendering

open Markup (Element)
open Vocabulary (layoutMarker)
open Css (Length)

variable {el : Element} {layout : Layout} {p : Plan} {issue : Issue} {width height : Option String}

theorem trim_authored (el : Element) : Text.trim (authored el) = authored el := Markup.trim_trim _

theorem parse?_authored : Layout.parse? (authored el) = some layout ↔ Layout.Keyword (authored el).toLower layout := by
  rw [Layout.parse?_eq_some_iff, trim_authored]

theorem parse?_authored_eq_none (hnone : authored el = "") : Layout.parse? (authored el) = none :=
  Option.eq_none_iff_forall_ne_some.mpr fun _ h => not_keyword_of_authored hnone (parse?_authored.mp h)

/-! ## Lengths -/

/-- The length of a width, which may be `auto`. -/
def widthOf (text : Option String) : Length := .parse text true false

/-- The length of a height, which may be `auto`, and in a fluid layout also `fluid`. -/
def heightOf (el : Element) (text : Option String) : Length :=
  .parse text true (Layout.parse? (authored el) == some .fluid)

/-- The dimensions with which `plan` goes on after the defaults. -/
def planned (el : Element) : Length × Length :=
  Layout.withDefaults el.tag (Layout.parse? (authored el)) (widthOf (el.attribute? "width"))
    (heightOf el (el.attribute? "height"))

theorem isFluid_authored_iff :
    (Layout.parse? (authored el) == some .fluid) = true ↔ (authored el).toLower = "fluid" := by
  rw [beq_iff_eq, parse?_authored, Layout.keyword_iff]
  rfl

/-- The width is valid exactly if what is written for it is a length. -/
theorem isValid_width_iff : (widthOf (el.attribute? "width")).isValid = true
    ↔ ∀ text, el.attribute? "width" = some text → IsLength False text := by
  cases hwritten : el.attribute? "width" with
  | none => exact iff_of_true rfl fun _ htext => by cases htext
  | some text =>
    rw [widthOf, Length.isValid_parse]
    simp [IsLength]

/-- The height is valid exactly if what is written for it is a length, or the word `fluid` in a fluid layout. -/
theorem isValid_height_iff : (heightOf el (el.attribute? "height")).isValid = true
    ↔ ∀ text, el.attribute? "height" = some text → IsLength ((authored el).toLower = "fluid") text := by
  cases hwritten : el.attribute? "height" with
  | none => exact iff_of_true rfl fun _ htext => by cases htext
  | some text =>
    rw [heightOf, Length.isValid_parse, isFluid_authored_iff]
    simp [IsLength]

/-- A default takes the place of a length that is not there. -/
theorem fill_parse {text : Option String} {autoAllowed fluidAllowed : Bool} (value : String)
    (hfluid : text = none → fluidAllowed = false) (hauto : autoAllowed = true) :
    (if (Length.parse text autoAllowed fluidAllowed).isDefined then Length.parse text autoAllowed fluidAllowed
      else .parse (some value) true false) = .parse (some (text.getD value)) autoAllowed fluidAllowed := by
  rw [Length.isDefined_parse]
  cases text with
  | none =>
    rw [hfluid rfl, hauto]
    rfl
  | some text => rfl

/-- Where a default applies, it stands in for a dimension that is not written. -/
theorem dimension_of_assumed {name value : String} {assumed : String → Prop} (h : assumed value) :
    Dimension el name assumed (some ((el.attribute? name).getD value)) := by
  cases hwritten : el.attribute? name with
  | none => exact .assumed hwritten h
  | some text => exact .written hwritten

/-- Where no default applies, a dimension is what is written, if anything is. -/
theorem dimension_of_not_assumed {name : String} {assumed : String → Prop} (h : ∀ text, ¬ assumed text) :
    Dimension el name assumed (el.attribute? name) := by
  cases hwritten : el.attribute? name with
  | none => exact .missing hwritten h
  | some text => exact .written hwritten

/-- Defaults are put in for an element whose author named no layout, or a fixed one. -/
theorem hasDefaults_iff {w h : String}
    (hnamed : authored el = "" ∨ ∃ layout, Layout.Keyword (authored el).toLower layout) : HasDefaults el w h
      ↔ ((Layout.parse? (authored el)).isNone || Layout.parse? (authored el) == some .fixed) = true
        ∧ Layout.defaultDimensions? el.tag = some (w, h) := by
  rw [HasDefaults, assumed_iff, Bool.or_eq_true, beq_iff_eq, parse?_authored, Layout.keyword_iff]
  refine and_congr_left' (or_congr_left ⟨fun hnone => by rw [parse?_authored_eq_none hnone]; rfl, fun hnone => ?_⟩)
  refine hnamed.resolve_right fun ⟨layout, hlayout⟩ => ?_
  rw [parse?_authored.mpr hlayout] at hnone
  cases hnone

/-- The lengths after the defaults are those of the texts that count for the element. -/
theorem exists_dimensions (hnamed : authored el = "" ∨ ∃ layout, Layout.Keyword (authored el).toLower layout) :
    ∃ width height, Dimensions el width height ∧ planned el = (widthOf width, heightOf el height) := by
  by_cases hdefaults : ∃ w h, HasDefaults el w h
  · obtain ⟨w, h, hassumed⟩ := hdefaults
    obtain ⟨happly, htag⟩ := (hasDefaults_iff hnamed).mp hassumed
    refine ⟨_, _, ⟨dimension_of_assumed ⟨h, hassumed⟩, dimension_of_assumed ⟨w, hassumed⟩⟩, ?_⟩
    -- where there are defaults, the layout is not fluid
    have hfluid : (Layout.parse? (authored el) == some .fluid) = false := by
      rw [Bool.eq_false_iff]
      intro hfluid
      rw [beq_iff_eq.mp hfluid] at happly
      cases happly
    simp only [planned, Layout.withDefaults, happly, htag, if_true]
    exact congrArg₂ Prod.mk (fill_parse w (fun _ => rfl) rfl) (fill_parse h (fun _ => hfluid) rfl)
  · refine ⟨_, _, ⟨dimension_of_not_assumed fun w ⟨h, hassumed⟩ => hdefaults ⟨w, h, hassumed⟩,
      dimension_of_not_assumed fun h ⟨w, hassumed⟩ => hdefaults ⟨w, h, hassumed⟩⟩, ?_⟩
    rw [planned, Layout.withDefaults]
    split
    · next happly =>
      split
      · rfl
      · next w h htag => exact absurd ⟨w, h, (hasDefaults_iff hnamed).mpr ⟨happly, htag⟩⟩ hdefaults
    · rfl

/-! ## The decision -/

/-- An inferred layout stands in the table, unless there is a width alone. -/
theorem infers_infer (el : Element) (width height : Option String) (sized : Bool) :
    Infers (sized = true) width height (.infer (widthOf width) (heightOf el height) sized)
      ∨ width.isSome = true ∧ height = none ∧ Layout.infer (widthOf width) (heightOf el height) sized = .fixed := by
  rw [Layout.infer, widthOf, heightOf, Length.isDefined_parse, Length.isDefined_parse]
  rcases width with _ | width <;> rcases height with _ | height
  · exact .inl .container
  · exact .inl (.fixedHeight (.inl rfl))
  · exact .inr ⟨rfl, rfl, rfl⟩
  · by_cases hauto : width = "auto"
    · have hread : (Length.parse (some width) true false).isAuto = true := Length.isAuto_parse.mpr (congrArg some hauto)
      simp only [hread]
      exact .inl (.fixedHeight (.inr (congrArg some hauto)))
    · have hread : (Length.parse (some width) true false).isAuto = false :=
        Bool.eq_false_iff.mpr fun h => hauto (Option.some.inj (Length.isAuto_parse.mp h))
      simp only [hread]
      cases sized
      · exact .inl (.fixed hauto Bool.false_ne_true)
      · exact .inl (.responsive hauto rfl)

/-- The check behind the decision asks for what the layout cannot do without. -/
theorem accepts_iff : layout.accepts (widthOf width) (heightOf el height) = true ↔ Suffices width height layout := by
  have hplain {text : Option String} {fluidAllowed : Bool} :
      ((Length.parse text true fluidAllowed).isDefined && !(Length.parse text true fluidAllowed).isFluid) = true
        ↔ ∃ t, text = some t ∧ t ≠ "fluid" := by
    rw [Bool.and_eq_true, Bool.not_eq_true', ← Bool.not_eq_true, Length.isFluid_parse, Length.isDefined_parse]
    cases text <;> simp
  have hloose {text : Option String} : ((!(Length.parse text true false).isDefined)
      || (Length.parse text true false).isAuto) = true ↔ text = none ∨ text = some "auto" := by
    rw [Bool.or_eq_true, Length.isAuto_parse, Length.isDefined_parse]
    cases text <;> simp
  cases layout with
  | fixed =>
    rw [Layout.accepts, widthOf, heightOf, Bool.and_assoc, Bool.and_eq_true, hplain, hplain]
    rfl
  | fixedHeight =>
    rw [Layout.accepts, widthOf, heightOf, Bool.and_eq_true, hplain, hloose, and_comm]
    rfl
  | responsive | intrinsic =>
    rw [Layout.accepts, widthOf, heightOf, Bool.and_eq_true, Length.isNumeric_parse, Length.isNumeric_parse]
    rfl
  | nodisplay | container | fill | flexItem | fluid => exact iff_of_true rfl trivial

/-- What `plan` comes to, case by case. -/
theorem plan_eq (el : Element) : plan el
    = if (widthOf (el.attribute? "width")).isValid = false then
        .error (.invalidWidth el.tag ((el.attribute? "width").getD ""))
      else if (heightOf el (el.attribute? "height")).isValid = false then
        .error (.invalidHeight el.tag ((el.attribute? "height").getD ""))
      else
        let layout := (Layout.parse? (authored el)).getD (.infer (planned el).1 (planned el).2
          (el.hasAttribute "sizes" || el.hasAttribute "heights"))
        if Layout.isSupported (authored el) = false then .error (.unsupportedLayout el.tag (authored el))
        else if layout.accepts (planned el).1 (planned el).2 = false then
          .error (.missingDimensions el.tag layout.keyword)
        else .ok ⟨layout, (planned el).1, (planned el).2⟩ := by
  simp only [plan, planned, widthOf, heightOf, authored, Bool.not_eq_true']
  rfl

/-- The layout that comes out for an element whose keyword is known stands in the table, unless there is a width
alone, which is taken for one of a fixed box. -/
theorem decides_getD (hsupported : Layout.isSupported (authored el) = true) : ∃ width height, Dimensions el width height
    ∧ planned el = (widthOf width, heightOf el height)
    ∧ let layout := (Layout.parse? (authored el)).getD (.infer (planned el).1 (planned el).2
        (el.hasAttribute "sizes" || el.hasAttribute "heights"))
      Decides el layout ∨ authored el = "" ∧ width.isSome = true ∧ height = none ∧ layout = .fixed := by
  have hnamed := Layout.isSupported_iff.mp hsupported
  obtain ⟨width, height, hdimensions, hplanned⟩ := exists_dimensions hnamed
  refine ⟨width, height, hdimensions, hplanned, ?_⟩
  have hsized : ((el.hasAttribute "sizes" || el.hasAttribute "heights") = true) = IsSized el := by
    rw [Bool.or_eq_true, IsSized]
  rcases hnamed with hnone | ⟨layout, hlayout⟩
  · rw [parse?_authored_eq_none hnone, hplanned]
    rcases infers_infer el width height (el.hasAttribute "sizes" || el.hasAttribute "heights") with
      hinfers | ⟨hwidth, hheight, heq⟩
    · exact .inl (.inferred hnone hdimensions (hsized ▸ hinfers))
    · exact .inr ⟨hnone, hwidth, hheight, heq⟩
  · rw [parse?_authored.mpr hlayout]
    exact .inl (.named hlayout)

/-- What is planned stands in the table, and there is no reason against it. -/
theorem decides_of_plan (h : plan el = .ok p) : Decides el p.layout ∧ ∀ issue, ¬ Rejects el issue := by
  rw [plan_eq] at h
  split at h
  · cases h
  next hwidth =>
  split at h
  · cases h
  next hheight =>
  dsimp only at h
  split at h
  · cases h
  next hsupported =>
  split at h
  · cases h
  next haccepts =>
  obtain rfl := Except.ok.inj h
  rw [Bool.not_eq_false] at hwidth hheight hsupported haccepts
  obtain ⟨width, height, hdimensions, hplanned, hcases⟩ := decides_getD hsupported
  rw [hplanned, accepts_iff] at haccepts
  rw [hplanned] at hcases
  -- a fixed box needs both dimensions
  have hdecides := hcases.resolve_right fun ⟨_, _, hnone, heq⟩ => by
    rw [heq] at haccepts
    obtain ⟨-, text, htext, -⟩ := haccepts
    cases hnone.symm.trans htext
  refine ⟨hplanned ▸ hdecides, fun issue hreason => ?_⟩
  cases hreason with
  | width hwritten hnot => exact hnot (isValid_width_iff.mp hwidth _ hwritten)
  | height hwritten hnot => exact hnot (isValid_height_iff.mp hheight _ hwritten)
  | unsupported hsome hnone =>
    obtain ⟨layout, hlayout⟩ := (Layout.isSupported_iff.mp hsupported).resolve_left hsome
    exact hnone layout hlayout
  | lacking hdecides' _ hdimensions' hnot =>
    obtain ⟨rfl, rfl⟩ := hdimensions.unique hdimensions'
    exact hnot (hdecides.unique hdecides' ▸ haccepts)
  | lone hnone hdimensions' =>
    obtain ⟨rfl, rfl⟩ := hdimensions.unique hdimensions'
    cases hdecides with
    | named hkeyword => exact not_keyword_of_authored hnone hkeyword
    | inferred _ hdimensions'' hinfers =>
      obtain ⟨rfl, rfl⟩ := hdimensions.unique hdimensions''
      cases hinfers

/-- An issue of the plan is a reason for which the specification rejects the element. -/
theorem rejects_of_plan (h : plan el = .error issue) : Rejects el issue := by
  rw [plan_eq] at h
  split at h
  · next hwidth =>
    obtain rfl := Except.error.inj h
    obtain ⟨text, hwritten, hnot⟩ : ∃ text, el.attribute? "width" = some text ∧ ¬ IsLength False text := by
      simpa using mt isValid_width_iff.mpr (Bool.eq_false_iff.mp hwidth)
    rw [hwritten]
    exact .width hwritten hnot
  split at h
  · next hheight =>
    obtain rfl := Except.error.inj h
    obtain ⟨text, hwritten, hnot⟩ : ∃ text, el.attribute? "height" = some text
        ∧ ¬ IsLength ((authored el).toLower = "fluid") text := by
      simpa using mt isValid_height_iff.mpr (Bool.eq_false_iff.mp hheight)
    rw [hwritten]
    exact .height hwritten hnot
  dsimp only at h
  split at h
  · next hunsupported =>
    obtain rfl := Except.error.inj h
    have hnot := mt Layout.isSupported_iff.mpr (Bool.eq_false_iff.mp hunsupported)
    rw [not_or, not_exists] at hnot
    exact .unsupported hnot.1 hnot.2
  next hsupported =>
  rw [Bool.not_eq_false] at hsupported
  obtain ⟨width, height, hdimensions, hplanned, hcases⟩ := decides_getD hsupported
  rw [hplanned] at h hcases
  split at h
  · next haccepts =>
    obtain rfl := Except.error.inj h
    rcases hcases with hdecides | ⟨hnone, hwidth, rfl, heq⟩
    · exact .lacking hdecides (Layout.keyword_iff.mpr rfl) hdimensions
        (mt accepts_iff.mpr (Bool.eq_false_iff.mp haccepts))
    · obtain ⟨text, rfl⟩ := Option.isSome_iff_exists.mp hwidth
      rw [heq]
      exact .lone hnone hdimensions
  · cases h

/-! ## Rendered elements -/

section Rendered

variable (layout : Layout) (width height : Length) (el : Element)

theorem isClass_className : Element.IsClass layout.className := by
  cases layout <;> exact Element.isClass_of_all (by decide) (by decide)

theorem isClass_sizeDefinedClass : Element.IsClass sizeDefinedClass := Element.isClass_of_all (by decide) (by decide)

/-- Rendering leaves every other attribute as it was. -/
theorem attribute?_rendered {name : String} (hname : name ∉ renderedNames) :
    (rendered layout width height el).attribute? name = el.attribute? name := by
  refine rendered_of_set layout width height (P := fun el' => el'.attribute? name = el.attribute? name) ?_ rfl
  intro el' other value hother h
  have hne : name ≠ other := by
    rintro rfl
    exact hname hother
  rw [Element.attribute?_set_of_ne hne, h]

theorem attribute?_rendered_marker :
    (rendered layout width height el).attribute? layoutMarker = some layout.keyword := by
  rw [rendered, Element.attribute?_set, if_pos rfl]

/-- Behind the classes of the layout only other attributes are written, and classes. -/
theorem hasClass_rendered_of {name : String} (hname : Element.IsClass name)
    (h : (if layout.isSizeDefined then (el.addClass layout.className).addClass sizeDefinedClass
      else el.addClass layout.className).hasClass name = true) :
    (rendered layout width height el).hasClass name = true := by
  have hset {el : Element} (other value : String) (hne : other ≠ "class") (h : el.hasClass name = true) :
      (el.set other value).hasClass name = true := by
    rwa [Element.hasClass_set hne]
  have choice {p : Prop} [Decidable p] {a b : Element} (ha : a.hasClass name = true) (hb : b.hasClass name = true) :
      (if p then a else b).hasClass name = true := by
    split
    · exact ha
    · exact hb
  have hwaiting := choice (p := (layout == .fluid) = true) (hname.hasClass_addClass h awaitingSizeClass) h
  have hstyled (el : Element) (h : el.hasClass name = true) :=
    choice (p := (styles layout width height).isEmpty = true) h
      (hset "style" (styles layout width height ++ (el.attribute? "style").getD "") (by decide) h)
  have hhidden (el : Element) (h : el.hasClass name = true) := choice (p := (layout == .nodisplay) = true)
    (hset "hidden" "hidden" (by decide) h) h
  exact hset _ _ (by decide) (hhidden _ (hstyled _ hwaiting))

/-- The rendered element has its layout's class. -/
theorem hasClass_rendered : (rendered layout width height el).hasClass layout.className = true := by
  refine hasClass_rendered_of layout width height el (isClass_className layout) ?_
  split
  · exact (isClass_className layout).hasClass_addClass (isClass_className layout).hasClass_addClass_self _
  · exact (isClass_className layout).hasClass_addClass_self

/-- The element rendered with a layout of a known size has the class that says so. -/
theorem hasClass_rendered_sizeDefined (h : layout.isSizeDefined = true) :
    (rendered layout width height el).hasClass sizeDefinedClass = true := by
  refine hasClass_rendered_of layout width height el isClass_sizeDefinedClass ?_
  rw [if_pos h]
  exact isClass_sizeDefinedClass.hasClass_addClass_self

end Rendered

end Rendering

end AmpTuner
