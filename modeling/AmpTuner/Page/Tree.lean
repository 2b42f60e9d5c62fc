import AmpTuner.Page.Stylesheet
import AmpTuner.Markup.Writer

/-!
Pages and trees: loading a document into a page, which always gets a root with one head and one body,
and reading the attached tree of a page back.
-/

namespace AmpTuner.Page

open Markup (Tree Document Attribute)

/-! ## Loading -/

/-- Root, head and body without attributes. -/
def empty (doctype : Option String) : Page :=
  { nodes := #[
      { kind := .element { tag := "html" }, children := [⟨1⟩, ⟨2⟩] },
      { kind := .element { tag := "head" }, parent := some ⟨0⟩ },
      { kind := .element { tag := "body" }, parent := some ⟨0⟩ }]
    doctype, root := ⟨0⟩, head := ⟨1⟩, body := ⟨2⟩
    budget := .empty Css.maxCustomBytes, nextGenerated := 0 }

/-- Adds the attributes whose names are not taken, so that of each name the first stays. -/
def addAttributes (page : Page) (id : NodeId) (attributes : List Attribute) : Page :=
  attributes.foldl (fun page a =>
    if page.hasAttribute id a.name then page else page.setAttribute id a.name a.value) page

mutual

/-- Adds a tree as the last child of `parent`, and names its topmost node. -/
def insertTree (page : Page) (parent : NodeId) : Tree → Page × NodeId
  | .element el children =>
    let (page, id) := page.createElement el.tag []
    let page := insertForest (page.addAttributes id el.attributes) id children
    (page.appendChild parent id, id)
  | .text content =>
    let (page, id) := page.createText content
    (page.appendChild parent id, id)
  | .comment content =>
    let (page, id) := page.create (.comment content)
    (page.appendChild parent id, id)

def insertForest (page : Page) (parent : NodeId) : List Tree → Page
  | [] => page
  | tree :: rest => insertForest (insertTree page parent tree).1 parent rest

end

/-- Places a node that stands at the top or directly in the root: the content of a head or a body goes
into that of the page, blank text nowhere, and anything else into the body. -/
def placeTop (page : Page) (tree : Tree) : Page :=
  if tree.isBlankText then page
  else
    match tree with
    | .element el children =>
      if el.tag == "head" then
        insertForest (page.addAttributes page.head el.attributes) page.head children
      else if el.tag == "body" then
        insertForest (page.addAttributes page.body el.attributes) page.body children
      else (page.insertTree page.body tree).1
    | _ => (page.insertTree page.body tree).1

/-- Places a node of the document: a root element is merged into that of the page. -/
def placeNode (page : Page) (tree : Tree) : Page :=
  match tree with
  | .element el children =>
    if el.tag == "html" then children.foldl placeTop (page.addAttributes page.root el.attributes)
    else page.placeTop tree
  | _ => page.placeTop tree

def ofDocument (d : Document) : Page := (d.nodes.foldl placeNode (empty d.doctype)).recountBudget

/-! ## Reading back -/

/-- The tree of a node, cut off `depth` levels below it. -/
def treeWithin (page : Page) : Nat → NodeId → Tree
  | 0, _ => .text ""
  | depth + 1, id =>
    match page.kind? id with
    | none => .text ""
    | some (.text content) => .text content
    | some (.comment content) => .comment content
    | some (.element el) => .element el ((page.children id).map (page.treeWithin depth))

/-- The tree of a node. No path in a page is longer than its store. -/
def treeOf (page : Page) (id : NodeId) : Tree := page.treeWithin page.nodes.size id

/-- The attached tree. -/
def toDocument (page : Page) : Document := ⟨page.doctype, [page.treeOf page.root]⟩

def toHtml (page : Page) : String := page.toDocument.toHtml

/-- The markup of one node; text in a script or style sheet is raw there too. -/
def nodeHtml (page : Page) (id : NodeId) : String :=
  (page.treeOf id).write (((page.parent? id).bind page.tag?).any Markup.isRawText)

end AmpTuner.Page
