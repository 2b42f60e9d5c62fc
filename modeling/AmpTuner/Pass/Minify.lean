import AmpTuner.Pass.Basic
import AmpTuner.Settings

/-!
Minification: comments go, and runs of blanks shrink to one space, except inside elements whose
content counts to the byte.
-/

namespace AmpTuner.Minify

def preservedTags : List String := ["pre", "textarea", "script", "style"]

def isPreserved (page : Page) (id : NodeId) : Bool := preservedTags.any (page.hasAncestor id)

/-- Minifies one node. Blank text in the head goes altogether. -/
def minifyNode (s : Settings.Minify) (page : Page) (id : NodeId) : Page :=
  if isPreserved page id then page
  else
    match page.kind? id with
    | some (.comment _) => if s.removeComments then page.detach id else page
    | some (.text content) =>
      if !s.collapseBlanks then page
      else if Text.isAllBlank content && page.parent? id == some page.head then page.detach id
      else page.setContent id (Text.collapse content)
    | _ => page

def run (s : Settings.Minify) (page : Page) : Page :=
  (page.descendants page.root).foldl (minifyNode s) page

end AmpTuner.Minify
