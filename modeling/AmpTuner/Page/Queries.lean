import AmpTuner.Page.Basic

/-!
Questions about the shape of a page: the nodes below a node in document order, and the ones above
it. The walks are bounded by the number of nodes, which no walk over a tree exceeds.
-/

namespace AmpTuner.Page

open Markup (Element)

/-- Lists the nodes of the stack, each followed by those below it, in at most `steps` steps. -/
def walk (page : Page) : Nat → List NodeId → List NodeId
  | 0, _ => []
  | _ + 1, [] => []
  | steps + 1, id :: rest => id :: page.walk steps (page.children id ++ rest)

/-- The nodes below `id` in document order. -/
def descendants (page : Page) (id : NodeId) : List NodeId :=
  page.walk page.nodes.size (page.children id)

/-- The elements below `id` that satisfy `p`, in document order. -/
def elementsWhere (page : Page) (id : NodeId) (p : Element → Bool) : List NodeId :=
  (page.descendants id).filter (page.isElement · p)

/-- The custom elements of the page, in document order. -/
def components (page : Page) : List NodeId :=
  page.elementsWhere page.root fun el => Markup.isComponent el.tag

/-- The parent, its parent and so on, at most `steps` of them. -/
def climb (page : Page) : Nat → NodeId → List NodeId
  | 0, _ => []
  | steps + 1, id =>
    match page.parent? id with
    | none => []
    | some parent => parent :: page.climb steps parent

def ancestors (page : Page) (id : NodeId) : List NodeId := page.climb page.nodes.size id

def hasAncestor (page : Page) (id : NodeId) (tag : String) : Bool :=
  (page.ancestors id).any (page.isTag · tag)

/-- Whether the node is the root element or below it. -/
def isAttached (page : Page) (id : NodeId) : Bool :=
  id == page.root || (page.ancestors id).contains page.root

/-- The text of a text node; of any other node, the text below it. -/
def textContent (page : Page) (id : NodeId) : String :=
  match page.kind? id with
  | some (.text content) => content
  | _ =>
    String.join ((page.descendants id).filterMap fun d =>
      match page.kind? d with
      | some (.text content) => some content
      | _ => none)

end AmpTuner.Page
