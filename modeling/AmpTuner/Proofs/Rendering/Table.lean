import AmpTuner.Proofs.Css.Length
import AmpTuner.Pass.Rendering

/-!
# The table of layouts

Which layout an element has, and why it may have none, is written down here in the words of its attributes: a keyword,
and two texts for the width and the height. Nothing refers to the way in which rendering finds it out.

* **`Layout.Keyword`** and **`Assumed`** are the two lists of the runtime: the names of the layouts, and the dimensions
  of the tags that have some of their own.
* **`Dimensions`** are the texts that count for an element, with those of the tag where its author left one out.
* **`Decides`** is the table. **`Rejects`** are the reasons against rendering, with what is noted for each.
* **`Decides.unique`**: no element has two layouts.
-/

namespace AmpTuner

/-- The names of the layouts, as authors write them in small letters. -/
inductive Layout.Keyword : String → Layout → Prop
  | nodisplay : Keyword "nodisplay" .nodisplay
  | fixed : Keyword "fixed" .fixed
  | fixedHeight : Keyword "fixed-height" .fixedHeight
  | responsive : Keyword "responsive" .responsive
  | container : Keyword "container" .container
  | fill : Keyword "fill" .fill
  | flexItem : Keyword "flex-item" .flexItem
  | fluid : Keyword "fluid" .fluid
  | intrinsic : Keyword "intrinsic" .intrinsic

/-- The table of keywords is the one by which layouts are written. -/
theorem Layout.keyword_iff {word : String} {layout : Layout} : Keyword word layout ↔ word = layout.keyword := by
  constructor
  · rintro (_ | _) <;> rfl
  · rintro rfl
    cases layout <;> constructor

theorem Layout.keyword_injective {a b : Layout} (h : a.keyword = b.keyword) : a = b := by
  cases a <;> cases b <;> first | rfl | exact absurd h (by decide)

theorem Layout.Keyword.unique {word : String} {a b : Layout} (h : Keyword word a) (h' : Keyword word b) : a = b :=
  keyword_injective ((keyword_iff.mp h).symm.trans (keyword_iff.mp h'))

theorem Layout.Keyword.ne_empty {word : String} {layout : Layout} (h : Keyword word layout) : word ≠ "" := by
  rintro rfl
  have hempty := keyword_iff.mp h
  cases layout <;> exact absurd hempty (by decide)

namespace Rendering

open Markup (Element)

variable {el : Element} {layout : Layout} {width height : Option String}

/-! ## Dimensions -/

/-- The dimensions that the runtime assumes for some tags. -/
inductive Assumed : (tag width height : String) → Prop
  | analytics : Assumed "amp-analytics" "1px" "1px"
  | pixel : Assumed "amp-pixel" "1px" "1px"
  | audio : Assumed "amp-audio" "auto" "auto"
  | socialShare : Assumed "amp-social-share" "60px" "44px"

/-- The table of defaults is the one that the pass looks up. -/
theorem assumed_iff {tag width height : String} :
    Assumed tag width height ↔ Layout.defaultDimensions? tag = some (width, height) := by
  constructor
  · rintro (_ | _) <;> rfl
  · intro h
    unfold Layout.defaultDimensions? at h
    split at h
    all_goals cases h
    exacts [.analytics, .pixel, .audio, .socialShare]

/-- The layout that the author gave, without the blanks around it. -/
def authored (el : Element) : String := Text.trim ((el.attribute? "layout").getD "")

/-- Dimensions are assumed for an element without a layout and for one in a fixed box. -/
def HasDefaults (el : Element) (width height : String) : Prop :=
  (authored el = "" ∨ (authored el).toLower = "fixed") ∧ Assumed el.tag width height

/-- The text that counts for a dimension: what the author wrote, or else what is assumed, or none. -/
inductive Dimension (el : Element) (name : String) (assumed : String → Prop) : Option String → Prop
  | written {text : String} (h : el.attribute? name = some text) : Dimension el name assumed (some text)
  | assumed {text : String} (hnone : el.attribute? name = none) (h : assumed text) :
      Dimension el name assumed (some text)
  | missing (hnone : el.attribute? name = none) (h : ∀ text, ¬ assumed text) : Dimension el name assumed none

/-- The width and the height of an element, as texts. -/
structure Dimensions (el : Element) (width height : Option String) : Prop where
  width : Dimension el "width" (fun text => ∃ other, HasDefaults el text other) width
  height : Dimension el "height" (fun text => ∃ other, HasDefaults el other text) height

/-- A dimension is determined by what is written and what is assumed. -/
theorem Dimension.unique {name : String} {assumed : String → Prop} {text text' : Option String}
    (hassumed : ∀ a b, assumed a → assumed b → a = b) (h : Dimension el name assumed text)
    (h' : Dimension el name assumed text') : text = text' := by
  cases h with
  | written h =>
    cases h' with
    | written h' => exact h.symm.trans h'
    | assumed hnone _ | missing hnone _ => cases hnone.symm.trans h
  | assumed hnone h =>
    cases h' with
    | written h' => cases hnone.symm.trans h'
    | assumed _ h' => exact congrArg some (hassumed _ _ h h')
    | missing _ h' => exact absurd h (h' _)
  | missing hnone h =>
    cases h' with
    | written h' => cases hnone.symm.trans h'
    | assumed _ h' => exact absurd h' (h _)
    | missing => rfl

theorem HasDefaults.unique {w w' h h' : String} (hw : HasDefaults el w h) (hw' : HasDefaults el w' h') :
    w = w' ∧ h = h' := by
  have heq := (assumed_iff.mp hw.2).symm.trans (assumed_iff.mp hw'.2)
  exact Prod.mk.inj (Option.some.inj heq)

theorem Dimensions.unique {width' height' : Option String} (h : Dimensions el width height)
    (h' : Dimensions el width' height') : width = width' ∧ height = height' :=
  ⟨h.width.unique (fun _ _ ⟨_, ha⟩ ⟨_, hb⟩ => (ha.unique hb).1) h'.width,
    h.height.unique (fun _ _ ⟨_, ha⟩ ⟨_, hb⟩ => (ha.unique hb).2) h'.height⟩

/-! ## The table -/

/-- The rows for elements whose author gave no layout, by width and height. `sized` is for source sizes. -/
inductive Infers (sized : Prop) : (width height : Option String) → Layout → Prop
  | container : Infers sized none none .container
  | fixedHeight {width : Option String} {height : String} (hwidth : width = none ∨ width = some "auto") :
      Infers sized width (some height) .fixedHeight
  | responsive {width height : String} (hwidth : width ≠ "auto") (hsized : sized) :
      Infers sized (some width) (some height) .responsive
  | fixed {width height : String} (hwidth : width ≠ "auto") (hsized : ¬ sized) :
      Infers sized (some width) (some height) .fixed

/-- The element says which sources or heights go with which widths. -/
def IsSized (el : Element) : Prop := el.hasAttribute "sizes" = true ∨ el.hasAttribute "heights" = true

/-- The layout of an element. A keyword always wins, whatever the case of its letters. -/
inductive Decides (el : Element) : Layout → Prop
  | named {layout : Layout} (h : Layout.Keyword (authored el).toLower layout) : Decides el layout
  | inferred {layout : Layout} {width height : Option String} (hnone : authored el = "")
      (hdimensions : Dimensions el width height) (h : Infers (IsSized el) width height layout) : Decides el layout

theorem Infers.unique {sized : Prop} {layout' : Layout} (h : Infers sized width height layout)
    (h' : Infers sized width height layout') : layout = layout' := by
  cases h <;> cases h' <;> simp_all

/-- Without a name there is no keyword. -/
theorem not_keyword_of_authored (hnone : authored el = "") : ¬ Layout.Keyword (authored el).toLower layout := by
  refine fun h => h.ne_empty ?_
  show String.map Char.toLower (authored el) = ""
  rw [hnone, ← String.toList_inj, String.toList_map]
  rfl

/-- The table has one layout for an element at most. -/
theorem Decides.unique {layout' : Layout} (h : Decides el layout) (h' : Decides el layout') : layout = layout' := by
  cases h with
  | named h =>
    cases h' with
    | named h' => exact h.unique h'
    | inferred hnone _ _ => exact absurd h (not_keyword_of_authored hnone)
  | inferred hnone hdimensions h =>
    cases h' with
    | named h' => exact absurd h' (not_keyword_of_authored hnone)
    | inferred _ hdimensions' h' =>
      obtain ⟨rfl, rfl⟩ := hdimensions.unique hdimensions'
      exact h.unique h'

-- nobody wrote a width or a height
example : Decides ⟨"amp-pixel", []⟩ .fixed := by
  have hdefaults : HasDefaults ⟨"amp-pixel", []⟩ "1px" "1px" := ⟨.inl (by decide +kernel), .pixel⟩
  refine .inferred (by decide +kernel) ⟨.assumed rfl ⟨_, hdefaults⟩, .assumed rfl ⟨_, hdefaults⟩⟩ (.fixed ?_ ?_)
  · decide
  · rintro (h | h) <;> cases h

/-! ## Reasons against rendering -/

/-- A number with its unit or `auto`, and `fluid` where that is allowed. -/
def IsLength (fluid : Prop) (text : String) : Prop :=
  (∃ unit, Css.Measures text.toList unit) ∨ text = "auto" ∨ text = "fluid" ∧ fluid

/-- The dimensions that a layout cannot do without. -/
def Suffices (width height : Option String) : Layout → Prop
  | .fixed => (∃ w, width = some w ∧ w ≠ "fluid") ∧ ∃ h, height = some h ∧ h ≠ "fluid"
  | .fixedHeight => (width = none ∨ width = some "auto") ∧ ∃ h, height = some h ∧ h ≠ "fluid"
  | .responsive | .intrinsic =>
    (∃ w unit, width = some w ∧ Css.Measures w.toList unit) ∧ ∃ h unit, height = some h ∧ Css.Measures h.toList unit
  | .nodisplay | .container | .fill | .flexItem | .fluid => True

/-- Why an element is not rendered, and what is noted then. -/
inductive Rejects (el : Element) : Issue → Prop
  | width {text : String} (hwritten : el.attribute? "width" = some text) (h : ¬ IsLength False text) :
      Rejects el (.invalidWidth el.tag text)
  | height {text : String} (hwritten : el.attribute? "height" = some text)
      (h : ¬ IsLength ((authored el).toLower = "fluid") text) : Rejects el (.invalidHeight el.tag text)
  | unsupported (hsome : authored el ≠ "") (hnone : ∀ layout, ¬ Layout.Keyword (authored el).toLower layout) :
      Rejects el (.unsupportedLayout el.tag (authored el))
  | lacking {layout : Layout} {keyword : String} {width height : Option String} (hdecides : Decides el layout)
      (hkeyword : Layout.Keyword keyword layout) (hdimensions : Dimensions el width height)
      (h : ¬ Suffices width height layout) : Rejects el (.missingDimensions el.tag keyword)
  /-- A width alone is taken for one of a fixed box. -/
  | lone {width : String} (hnone : authored el = "") (hdimensions : Dimensions el (some width) none) :
      Rejects el (.missingDimensions el.tag "fixed")

end Rendering

end AmpTuner
