import AmpTuner.Page.Tree
import AmpTuner.Issue
import AmpTuner.Settings

/-!
What passes share: their names and the order in which they run by default, the page that they work on
with the issues met so far, and the mark of pages that have been tuned.
-/

namespace AmpTuner

/-! ## Names and order -/

inductive Pass where
  | boilerplate
  | viewport
  | extensions
  | rendering
  | runtimeCss
  | heroImages
  | urls
  | identifier
  | headOrder
  | minify
deriving Repr, DecidableEq

namespace Pass

def all : List Pass :=
  [boilerplate, viewport, extensions, rendering, runtimeCss, heroImages, urls, identifier,
    headOrder, minify]

/-- The name by which settings refer to the pass. -/
def name : Pass → String
  | boilerplate => "AmpBoilerplate"
  | viewport => "MetaViewport"
  | extensions => "AutoExtensions"
  | rendering => "ServerSideRendering"
  | runtimeCss => "AmpRuntimeCss"
  | heroImages => "PreloadHeroImage"
  | urls => "RewriteAmpUrls"
  | identifier => "TransformedIdentifier"
  | headOrder => "ReorderHead"
  | minify => "MinifyHtml"

def ofName? (name : String) : Option Pass := all.find? (·.name == name)

/-- Passes that are gone. Naming one is reported and does no harm. -/
def isRetired (name : String) : Bool := name == "GoogleFontsPreconnect"

/-- Whether the settings give the pass anything to do. -/
def isWanted (s : Settings) : Pass → Bool
  | urls => s.urls.isActive
  | minify => s.minify.enabled
  | _ => true

/-- What runs when the settings name no passes. Rendering comes after all that adds scripts, and the
order of the head after all that adds to it. -/
def defaultOrder (s : Settings) : List Pass := all.filter (isWanted s)

end Pass

/-! ## Work -/

/-- A page under work, with the issues met so far. -/
structure Work where
  page : Page
  issues : List Issue := []

namespace Work

/-- Records an issue behind the others. -/
def note (w : Work) (issue : Issue) : Work := { w with issues := w.issues ++ [issue] }

/-- Changes the page. -/
def edit (w : Work) (f : Page → Page) : Work := { w with page := f w.page }

end Work

/-! ## The mark -/

/-- Marks the root of a page that has been tuned. -/
def Identifier.run (page : Page) : Page := page.setAttribute page.root "transformed" "self;v=1"

end AmpTuner
