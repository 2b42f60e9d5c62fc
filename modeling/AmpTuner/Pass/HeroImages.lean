import AmpTuner.Pass.Basic
import AmpTuner.Settings

/-!
Hero images: the first images that are marked so get a preload link in the head and the image that
the runtime would render as their last child.
-/

namespace AmpTuner.HeroImages

def renderedMarker : String := "i-amphtml-ssr"

def heroes (page : Page) : List NodeId :=
  (page.elementsWhere page.body fun el => el.tag == "amp-img" && el.hasAttribute "data-hero").filter
    (!page.hasAncestor · "template")

/-- Copies an attribute of the image, if it has it. -/
def copied (image : Markup.Element) (name target : String) : List (String × String) :=
  ((image.attribute? name).map fun value => (target, value)).toList

def preloadAttributes (image : Markup.Element) (source : String) : List (String × String) :=
  [("rel", "preload"), ("as", "image"), ("href", source)]
    ++ if image.hasAttribute "srcset" then
      copied image "srcset" "imagesrcset" ++ copied image "sizes" "imagesizes"
    else []

def renderedAttributes (image : Markup.Element) : List (String × String) :=
  (["src", "srcset", "sizes", "alt", "referrerpolicy"].flatMap fun name => copied image name name)
    ++ [("decoding", "async"), ("class", "i-amphtml-fill-content i-amphtml-replaced-content")]

/-- Preloads one image, unless that is done or its source is missing or stands in the address. -/
def preload (page : Page) (id : NodeId) : Page :=
  match page.element? id with
  | none => page
  | some image =>
    match image.attribute? "src" with
    | none => page
    | some source =>
      if image.hasAttribute renderedMarker || Text.startsWith "data:" source then page
      else
        let (page, link) := page.createElement "link" (preloadAttributes image source)
        let page := page.appendChild page.head link
        let (page, rendered) := page.createElement "img" (renderedAttributes image)
        (page.appendChild id rendered).setAttribute id renderedMarker ""

def run (s : Settings.HeroImages) (page : Page) : Work :=
  let found := heroes page
  let issues := if s.most < found.length then [.tooManyHeroImages found.length s.most] else []
  ⟨(found.take s.most).foldl preload page, issues⟩

end AmpTuner.HeroImages
