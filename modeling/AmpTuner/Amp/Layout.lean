import AmpTuner.Css.Length
import AmpTuner.Text.Affix

/-!
Layouts of custom elements: their keywords, the one that an element has when it names none, and the
dimensions that some elements have when they give none.
-/

namespace AmpTuner

inductive Layout where
  | nodisplay
  | fixed
  | fixedHeight
  | responsive
  | container
  | fill
  | flexItem
  | fluid
  | intrinsic
deriving Repr, DecidableEq

namespace Layout

open Css (Length)

def keyword : Layout → String
  | nodisplay => "nodisplay"
  | fixed => "fixed"
  | fixedHeight => "fixed-height"
  | responsive => "responsive"
  | container => "container"
  | fill => "fill"
  | flexItem => "flex-item"
  | fluid => "fluid"
  | intrinsic => "intrinsic"

def all : List Layout :=
  [nodisplay, fixed, fixedHeight, responsive, container, fill, flexItem, fluid, intrinsic]

/-- The layout of a keyword, whatever the case of its letters and the blanks around it. -/
def parse? (value : String) : Option Layout :=
  let word := (Text.trim value).toLower
  all.find? (·.keyword == word)

/-- Whether an authored value, which must not have blanks around it, can be rendered. The empty value
stands for none. -/
def isSupported (authored : String) : Bool :=
  authored.isEmpty || all.any fun layout => Text.sameIgnoringCase layout.keyword authored

def className (l : Layout) : String := "i-amphtml-layout-" ++ l.keyword

/-- Layouts whose box has its size before the element loads. -/
def isSizeDefined : Layout → Bool
  | nodisplay => false
  | container => false
  | _ => true

/-- Whether the dimensions are enough for the layout. -/
def accepts (l : Layout) (width height : Length) : Bool :=
  match l with
  | fixed => width.isDefined && !width.isFluid && height.isDefined && !height.isFluid
  | fixedHeight => height.isDefined && !height.isFluid && (!width.isDefined || width.isAuto)
  | responsive => width.isNumeric && height.isNumeric
  | intrinsic => width.isNumeric && height.isNumeric
  | _ => true

/-- The layout of an element that names none. `sized` tells whether it has source sizes. -/
def infer (width height : Length) (sized : Bool) : Layout :=
  if !width.isDefined && !height.isDefined then container
  else if height.isDefined && (!width.isDefined || width.isAuto) then fixedHeight
  else if height.isDefined && width.isDefined && sized then responsive
  else fixed

def defaultDimensions? (tag : String) : Option (String × String) :=
  match tag with
  | "amp-analytics" => some ("1px", "1px")
  | "amp-pixel" => some ("1px", "1px")
  | "amp-audio" => some ("auto", "auto")
  | "amp-social-share" => some ("60px", "44px")
  | _ => none

/-- Fills in the default dimensions of the tag, for fixed elements and those that name no layout. -/
def withDefaults (tag : String) (authored : Option Layout) (width height : Length) :
    Length × Length :=
  if authored.isNone || authored == some fixed then
    match defaultDimensions? tag with
    | none => (width, height)
    | some (defaultWidth, defaultHeight) =>
      let fill (length : Length) (value : String) : Length :=
        if length.isDefined then length else .parse (some value) true false
      (fill width defaultWidth, fill height defaultHeight)
  else (width, height)

end Layout

end AmpTuner
