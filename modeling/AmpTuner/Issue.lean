/-!
Issues that a pass met and worked around. None of them stops a run.
-/

namespace AmpTuner

inductive Issue where
  | invalidWidth (tag value : String)
  | invalidHeight (tag value : String)
  | unsupportedLayout (tag layout : String)
  | missingDimensions (tag layout : String)
  | budgetExceeded (tag name : String) (bytes remaining : Nat)
  | renderDelayingScript (extension : String)
  | experimentInUse
  | notConverted (tag name : String)
  | missingRuntimeStyle
  | runtimeCssUnavailable (url reason : String)
  | invalidHost (host : String)
  | tooManyHeroImages (found most : Nat)
  | missingPackage (package feature : String)
  | retiredPass (name : String)
  | invalidAttribute (tag name reason : String)
  | invalidJson (context reason : String)
deriving Repr, DecidableEq

/-- What an issue keeps from being done. -/
inductive IssueKind where
  | rendering
  | boilerplateRemoval
  | runtimeCssInlining
  | selfHosting
  | invalidJson
  | invalidAttribute
  | tooManyHeroImages
  | missingPackage
  | retiredPass
deriving Repr, DecidableEq

namespace IssueKind

def all : List IssueKind :=
  [rendering, boilerplateRemoval, runtimeCssInlining, selfHosting, invalidJson, invalidAttribute,
    tooManyHeroImages, missingPackage, retiredPass]

def name : IssueKind → String
  | rendering => "CannotPerformServerSideRendering"
  | boilerplateRemoval => "CannotRemoveBoilerplate"
  | runtimeCssInlining => "CannotInlineRuntimeCss"
  | selfHosting => "CannotAdaptDocumentForSelfHosting"
  | invalidJson => "InvalidJson"
  | invalidAttribute => "InvalidHtmlAttribute"
  | tooManyHeroImages => "TooManyHeroImages"
  | missingPackage => "MissingPackage"
  | retiredPass => "DeprecatedTransformer"

/-- Whether an issue of this kind fails a check; the others only give warnings. -/
def isBlocking : IssueKind → Bool
  | runtimeCssInlining => false
  | missingPackage => false
  | retiredPass => false
  | _ => true

end IssueKind

namespace Issue

def kind : Issue → IssueKind
  | invalidWidth .. => .rendering
  | invalidHeight .. => .rendering
  | unsupportedLayout .. => .rendering
  | missingDimensions .. => .rendering
  | budgetExceeded .. => .rendering
  | renderDelayingScript .. => .boilerplateRemoval
  | experimentInUse => .boilerplateRemoval
  | notConverted .. => .boilerplateRemoval
  | missingRuntimeStyle => .runtimeCssInlining
  | runtimeCssUnavailable .. => .runtimeCssInlining
  | invalidHost .. => .selfHosting
  | tooManyHeroImages .. => .tooManyHeroImages
  | missingPackage .. => .missingPackage
  | retiredPass .. => .retiredPass
  | invalidAttribute .. => .invalidAttribute
  | invalidJson .. => .invalidJson

/-- The tag of the element that the issue is about. -/
def tag? : Issue → Option String
  | invalidWidth tag _ => some tag
  | invalidHeight tag _ => some tag
  | unsupportedLayout tag _ => some tag
  | missingDimensions tag _ => some tag
  | budgetExceeded tag _ _ _ => some tag
  | experimentInUse => some "amp-experiment"
  | notConverted tag _ => some tag
  | missingRuntimeStyle => some "style"
  | tooManyHeroImages _ _ => some "amp-img"
  | invalidAttribute tag _ _ => some tag
  | _ => none

def message : Issue → String
  | invalidWidth _ value => "Cannot perform SSR: invalid input width '" ++ value ++ "'"
  | invalidHeight _ value => "Cannot perform SSR: invalid input height '" ++ value ++ "'"
  | unsupportedLayout _ layout => "Cannot perform SSR: unsupported layout '" ++ layout ++ "'"
  | missingDimensions _ layout =>
    "Cannot perform SSR: layout '" ++ layout ++ "' needs a valid width and height"
  | budgetExceeded _ name bytes remaining =>
    "Cannot perform SSR: converting '" ++ name ++ "' needs " ++ toString bytes
      ++ " bytes of CSS, only " ++ toString remaining ++ " left"
  | renderDelayingScript extension =>
    "Cannot remove boilerplate because of an unsupported render-delaying script: " ++ extension
  | experimentInUse =>
    "Cannot remove boilerplate because the document contains an amp-experiment element"
  | notConverted _ name =>
    "Cannot remove boilerplate because '" ++ name ++ "' could not be converted to CSS"
  | missingRuntimeStyle =>
    "Cannot inline the runtime CSS: no <style amp-runtime> placeholder in <head>"
  | runtimeCssUnavailable url reason =>
    "Cannot inline the runtime CSS from " ++ url ++ ": " ++ reason
  | invalidHost host =>
    "Cannot rewrite AMP URLs: '" ++ host
      ++ "' is not an absolute http(s) URL or a root-relative path"
  | tooManyHeroImages found most =>
    "Found " ++ toString found ++ " hero images, only the first " ++ toString most
      ++ " are preloaded"
  | missingPackage package feature =>
    "'" ++ package ++ "' is unavailable; rebuild with the '" ++ feature ++ "' feature"
  | retiredPass name => "Transformer '" ++ name ++ "' is deprecated and was skipped"
  | invalidAttribute _ name reason => "Invalid value for attribute '" ++ name ++ "': " ++ reason
  | invalidJson context reason => "Invalid JSON in " ++ context ++ ": " ++ reason

def report (i : Issue) : String := i.kind.name ++ ": " ++ i.message

end Issue

end AmpTuner
