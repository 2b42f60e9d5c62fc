import AmpTuner.Markup.Element
import AmpTuner.Css.Rule

/-!
Pages: a store of nodes that know their parent and their children, with the three elements that
every page has, the budget of the custom stylesheet and the counter for generated identifiers.

A node is named by its place in the store and keeps it, also while it is detached. Nothing is ever
removed from the store. Reading a node that does not exist gives `none` or nothing; writing to it
changes nothing.
-/

namespace AmpTuner

open Markup (Element)

/-- Place of a node in the store of its page. -/
structure NodeId where
  index : Nat
deriving Repr, DecidableEq

inductive NodeKind where
  | element (element : Element)
  | text (content : String)
  | comment (content : String)
deriving Repr, DecidableEq

structure Node where
  kind : NodeKind
  parent : Option NodeId := none
  children : List NodeId := []
deriving Repr, DecidableEq

structure Page where
  nodes : Array Node
  doctype : Option String
  root : NodeId
  head : NodeId
  body : NodeId
  budget : Css.Budget
  nextGenerated : Nat
deriving Repr, DecidableEq

namespace NodeKind

def element? : NodeKind → Option Element
  | element el => some el
  | _ => none

/-- The element with `f` applied; texts and comments stay as they are. -/
def mapElement (f : Element → Element) : NodeKind → NodeKind
  | element el => element (f el)
  | kind => kind

end NodeKind

namespace Page

/-! ## Reading -/

def node? (page : Page) (id : NodeId) : Option Node := page.nodes[id.index]?

def kind? (page : Page) (id : NodeId) : Option NodeKind := (page.node? id).map (·.kind)

def parent? (page : Page) (id : NodeId) : Option NodeId := (page.node? id).bind (·.parent)

def children (page : Page) (id : NodeId) : List NodeId := ((page.node? id).map (·.children)).getD []

def element? (page : Page) (id : NodeId) : Option Element := (page.kind? id).bind (·.element?)

def tag? (page : Page) (id : NodeId) : Option String := (page.element? id).map (·.tag)

def isTag (page : Page) (id : NodeId) (tag : String) : Bool := page.tag? id == some tag

/-- Whether the node is an element that satisfies `p`. -/
def isElement (page : Page) (id : NodeId) (p : Element → Bool) : Bool := (page.element? id).any p

def attribute? (page : Page) (id : NodeId) (name : String) : Option String :=
  (page.element? id).bind (·.attribute? name)

def hasAttribute (page : Page) (id : NodeId) (name : String) : Bool :=
  page.isElement id (·.hasAttribute name)

def elementChildren (page : Page) (id : NodeId) : List NodeId :=
  (page.children id).filter fun child => (page.element? child).isSome

/-! ## Writing -/

def update (page : Page) (id : NodeId) (f : Node → Node) : Page :=
  { page with nodes := page.nodes.modify id.index f }

def mapElement (page : Page) (id : NodeId) (f : Element → Element) : Page :=
  page.update id fun node => { node with kind := node.kind.mapElement f }

def setAttribute (page : Page) (id : NodeId) (name value : String) : Page :=
  page.mapElement id (·.set name value)

def removeAttribute (page : Page) (id : NodeId) (name : String) : Page :=
  page.mapElement id (·.erase name)

/-- Overwrites a text or a comment. -/
def setContent (page : Page) (id : NodeId) (content : String) : Page :=
  page.update id fun node =>
    match node.kind with
    | .text _ => { node with kind := .text content }
    | .comment _ => { node with kind := .comment content }
    | .element _ => node

/-- Adds a node without parent and children. -/
def create (page : Page) (kind : NodeKind) : Page × NodeId :=
  ({ page with nodes := page.nodes.push { kind } }, ⟨page.nodes.size⟩)

def createElement (page : Page) (tag : String) (attributes : List (String × String)) : Page × NodeId :=
  page.create (.element (.make tag attributes))

def createText (page : Page) (content : String) : Page × NodeId := page.create (.text content)

/-- A detached copy of the node without its children. -/
def copy (page : Page) (id : NodeId) : Page × NodeId :=
  page.create ((page.kind? id).getD (.text ""))

end Page

end AmpTuner
