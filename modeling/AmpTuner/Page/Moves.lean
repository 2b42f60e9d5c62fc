import AmpTuner.Page.Basic

/-!
Moving nodes. A move first takes the node out of its parent's children and then puts it into the
children of the new parent, so that both links of a node always agree.
-/

namespace AmpTuner

/-- `new` in front of `mark`, or at the end when `mark` is not in the list. -/
def insertBefore (new mark : NodeId) : List NodeId → List NodeId
  | [] => [new]
  | x :: rest => if x = mark then new :: x :: rest else x :: insertBefore new mark rest

/-- `new` right behind `mark`, or at the end when `mark` is not in the list. -/
def insertAfter (new mark : NodeId) : List NodeId → List NodeId
  | [] => [new]
  | x :: rest => if x = mark then x :: new :: rest else x :: insertAfter new mark rest

namespace Page

/-- Takes the node away from its parent. Its own children stay with it. -/
def detach (page : Page) (id : NodeId) : Page :=
  match page.parent? id with
  | none => page
  | some parent =>
    (page.update id ({ · with parent := none })).update parent fun node =>
      { node with children := node.children.filter (· != id) }

def detachAll (page : Page) (ids : List NodeId) : Page := ids.foldl detach page

/-- Makes `child` a child of `parent`, in the place that `place` gives it among the others. -/
def attach (page : Page) (parent child : NodeId) (place : List NodeId → List NodeId) : Page :=
  ((page.detach child).update parent fun node => { node with children := place node.children }).update
    child ({ · with parent := some parent })

def appendChild (page : Page) (parent child : NodeId) : Page :=
  page.attach parent child (· ++ [child])

def appendAll (page : Page) (parent : NodeId) (children : List NodeId) : Page :=
  children.foldl (fun page child => page.appendChild parent child) page

def prependChild (page : Page) (parent child : NodeId) : Page := page.attach parent child (child :: ·)

/-- Puts `child` in front of `mark`. Without a mark, or when that is no other child of `parent`, it
becomes the last child. -/
def insertChildBefore (page : Page) (parent child : NodeId) (mark : Option NodeId) : Page :=
  match mark with
  | none => page.appendChild parent child
  | some mark => page.attach parent child (insertBefore child mark)

/-- Puts `child` right behind `mark`, or last when that is no other child of `parent`. -/
def insertChildAfter (page : Page) (parent child mark : NodeId) : Page :=
  page.attach parent child (insertAfter child mark)

/-- Puts `new` where `old` is and detaches `old`. Without a place to take over, nothing happens. -/
def replace (page : Page) (old new : NodeId) : Page :=
  match page.parent? old with
  | none => page
  | some parent => (page.insertChildBefore parent new (some old)).detach old

/-- Moves the children of one node behind those of another, in order. -/
def moveChildren (page : Page) (source target : NodeId) : Page :=
  let children := page.children source
  let page := page.update source ({ · with children := [] })
  children.foldl
    (fun page child => (page.update child ({ · with parent := none })).appendChild target child) page

/-- Leaves one text node in place of the children, or none when the content is empty. -/
def setTextContent (page : Page) (id : NodeId) (content : String) : Page :=
  let page := page.detachAll (page.children id)
  if content.isEmpty then page
  else
    let (page, text) := page.createText content
    page.appendChild id text

end Page

end AmpTuner
