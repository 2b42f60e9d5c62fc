import AmpTuner.Pass.Basic
import AmpTuner.Amp.Vocabulary

/-!
The boilerplate hides a page until its layout is applied: a style in the head, and one in a noscript
that takes its effect back. A page that still needs it gets exactly one such pair.
-/

namespace AmpTuner.Boilerplate

open Vocabulary

/-- A noscript with a boilerplate style among its children. -/
def isNoscript (page : Page) (id : NodeId) : Bool :=
  page.isTag id "noscript"
    && (page.elementChildren id).any (page.isElement · isBoilerplateStyle)

def styles (page : Page) : List NodeId :=
  (page.elementChildren page.head).filter (page.isElement · isBoilerplateStyle)

def noscripts (page : Page) : List NodeId :=
  (page.elementChildren page.head).filter (isNoscript page)

/-- Markers of the formats that bring a boilerplate of their own. -/
def otherFormats : List String := ["amp4email", "⚡4email", "amp4ads", "⚡4ads"]

/-- Appends the canonical pair to the head. -/
def insertPair (page : Page) : Page :=
  let (page, style) := page.createElement "style" [("amp-boilerplate", "")]
  let page := page.setTextContent style boilerplateCss
  let (page, noscript) := page.createElement "noscript" []
  let (page, inner) := page.createElement "style" [("amp-boilerplate", "")]
  let page := (page.setTextContent inner noscriptCss).appendChild noscript inner
  (page.appendChild page.head style).appendChild page.head noscript

/-- Leaves a complete pair alone, and puts the canonical one in place of anything else. -/
def run (page : Page) : Page :=
  if page.hasAttribute page.root noBoilerplateMarker
      || otherFormats.any (page.hasAttribute page.root) then page
  else if (styles page).length = 1 && (noscripts page).length = 1 then page
  else insertPair (page.detachAll (styles page ++ noscripts page))

end AmpTuner.Boilerplate
