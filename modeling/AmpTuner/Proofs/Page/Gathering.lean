import AmpTuner.Proofs.Page.Operations

/-!
# What a loaded page is made from

A document has content at two levels, at the top and directly in a root element there. Loading collects it node by
node; here it is said at once which nodes come where, and that none is lost, doubled or put out of order.

* **`topNodes`** are the nodes of both levels, **`headNodes`** and **`bodyNodes`** those that come into the head and
  into the body.
* **`Element.addMissing_eq`**: attributes that are added one after the other leave the first of each name.
* **`outline_eq`**: what is collected node by node are these lists.
* **`Copies`** says of nodes that they are copies of trees, and **`madeFrom_ofDocument`** that a loaded page is made
  of such copies.
-/

namespace AmpTuner

open Markup (Element Attribute Tree Document Outline)

namespace Markup

/-! ## The nodes of a document -/

namespace Tree

/-- The tree is an element of the tag. -/
def hasTag (tag : String) : Tree → Bool
  | element el _ => el.tag == tag
  | _ => false

/-- The attributes of the outermost element. -/
def attributes : Tree → List Attribute
  | element el _ => el.attributes
  | _ => []

/-- The children of the outermost element. -/
def children : Tree → List Tree
  | element _ children => children
  | _ => []

end Tree

/-- The attributes of the elements with that tag, one element after the other. -/
def attributesOf (tag : String) (nodes : List Tree) : List Attribute :=
  (nodes.filter (·.hasTag tag)).flatMap (·.attributes)

/-- The nodes with those directly in a root element in its place. -/
def topNodes (nodes : List Tree) : List Tree :=
  nodes.flatMap fun tree => if tree.hasTag "html" then tree.children else [tree]

/-- What stands in the heads. -/
def headNodes (nodes : List Tree) : List Tree :=
  (nodes.filter (·.hasTag "head")).flatMap (·.children)

/-- What stands in the bodies, and what is neither a head nor a body nor blank. -/
def bodyNodes (nodes : List Tree) : List Tree :=
  nodes.flatMap fun tree =>
    if tree.hasTag "body" then tree.children
    else if tree.hasTag "head" || tree.isBlankText then []
    else [tree]

section Append

variable (nodes more : List Tree)

theorem attributesOf_append (tag : String) :
    attributesOf tag (nodes ++ more) = attributesOf tag nodes ++ attributesOf tag more := by
  rw [attributesOf, List.filter_append, List.flatMap_append, ← attributesOf, ← attributesOf]

theorem topNodes_append : topNodes (nodes ++ more) = topNodes nodes ++ topNodes more := List.flatMap_append

theorem headNodes_append : headNodes (nodes ++ more) = headNodes nodes ++ headNodes more := by
  rw [headNodes, List.filter_append, List.flatMap_append, ← headNodes, ← headNodes]

theorem bodyNodes_append : bodyNodes (nodes ++ more) = bodyNodes nodes ++ bodyNodes more := List.flatMap_append

end Append

/-! ## The first of each name -/

/-- What is added comes behind what was found, as far as it has a name of its own. -/
theorem Element.addMissing_eq (tag : String) (found given : List Attribute) :
    (Element.mk tag found).addMissing given
      = ⟨tag, found ++ Attribute.firstOfEach (given.filter fun a => a.name ∉ Attribute.names found)⟩ := by
  have hadd (found : List Attribute) (a : Attribute) :
      (if (Element.mk tag found).hasAttribute a.name then Element.mk tag found
        else (Element.mk tag found).set a.name a.value) = ⟨tag, Attribute.takeUp found a⟩ := by
    by_cases hfound : a.name ∈ Attribute.names found
    · rw [if_pos (Element.hasAttribute_iff.mpr hfound), Attribute.takeUp, if_pos hfound]
    · rw [if_neg (mt Element.hasAttribute_iff.mp hfound), Attribute.takeUp, if_neg hfound, Element.set,
        Attribute.put_of_notMem hfound]
  rw [Element.addMissing, ← Attribute.foldl_takeUp]
  exact List.foldl_hom (Element.mk tag) hadd

theorem Element.addMissing_bare (tag : String) (given : List Attribute) :
    ({ tag } : Element).addMissing given = ⟨tag, Attribute.firstOfEach given⟩ := by
  rw [Element.addMissing_eq, List.nil_append, List.filter_eq_self.mpr (by simp [Attribute.names])]

theorem Element.addMissing_append (el : Element) (given more : List Attribute) :
    el.addMissing (given ++ more) = (el.addMissing given).addMissing more :=
  List.foldl_append

/-! ## Collecting -/

theorem Tree.firstWinsAll_eq_map (trees : List Tree) : Tree.firstWinsAll trees = trees.map Tree.firstWins := by
  induction trees with
  | nil => rfl
  | cons tree trees ih => rw [Tree.firstWinsAll, ih, List.map_cons]

theorem Tree.firstWinsAll_append (trees more : List Tree) :
    Tree.firstWinsAll (trees ++ more) = Tree.firstWinsAll trees ++ Tree.firstWinsAll more := by
  rw [firstWinsAll_eq_map, firstWinsAll_eq_map, firstWinsAll_eq_map, List.map_append]

namespace Outline

variable {o : Outline}

/-- One node at the top, whatever it is, adds what the lists have of it. -/
theorem placeTop_eq (tree : Tree) : o.placeTop tree =
    { root := o.root
      head := o.head.addMissing (attributesOf "head" [tree])
      body := o.body.addMissing (attributesOf "body" [tree])
      inHead := o.inHead ++ Tree.firstWinsAll (headNodes [tree])
      inBody := o.inBody ++ Tree.firstWinsAll (bodyNodes [tree]) } := by
  cases tree with
  | text content =>
    cases hblank : (Tree.text content).isBlankText <;>
      simp [placeTop, attributesOf, headNodes, bodyNodes, Tree.hasTag, hblank, Tree.firstWinsAll,
        Element.addMissing]
  | comment content =>
    simp [placeTop, attributesOf, headNodes, bodyNodes, Tree.hasTag, Tree.isBlankText, Tree.firstWinsAll,
      Element.addMissing]
  | element el children =>
    by_cases hhead : el.tag = "head"
    · simp [placeTop, attributesOf, headNodes, bodyNodes, Tree.hasTag, Tree.isBlankText, Tree.firstWinsAll,
        Element.addMissing, hhead, Tree.attributes, Tree.children]
    · by_cases hbody : el.tag = "body" <;>
        simp [placeTop, attributesOf, headNodes, bodyNodes, Tree.hasTag, Tree.isBlankText, Tree.firstWinsAll,
          Element.addMissing, hhead, hbody, Tree.attributes, Tree.children]

/-- The loop over the children of a root: what the outline has gathered in the end. -/
theorem foldl_placeTop_eq (nodes : List Tree) : nodes.foldl placeTop o =
    { root := o.root
      head := o.head.addMissing (attributesOf "head" nodes)
      body := o.body.addMissing (attributesOf "body" nodes)
      inHead := o.inHead ++ Tree.firstWinsAll (headNodes nodes)
      inBody := o.inBody ++ Tree.firstWinsAll (bodyNodes nodes) } := by
  induction nodes generalizing o with
  | nil => simp [attributesOf, headNodes, bodyNodes, Tree.firstWinsAll, Element.addMissing]
  | cons tree nodes ih =>
    have hsplit : tree :: nodes = [tree] ++ nodes := rfl
    rw [List.foldl_cons, ih, placeTop_eq, hsplit]
    simp only [attributesOf_append, headNodes_append, bodyNodes_append, Element.addMissing_append,
      Tree.firstWinsAll_append, List.append_assoc]

/-- A root element adds its attributes to the root, and its nodes as if they stood in its place. -/
theorem foldl_placeNode_eq (nodes : List Tree) : nodes.foldl placeNode o =
    (topNodes nodes).foldl placeTop { o with root := o.root.addMissing (attributesOf "html" nodes) } := by
  induction nodes generalizing o with
  | nil => rfl
  | cons tree nodes ih =>
    have hstep : o.placeNode tree
        = (topNodes [tree]).foldl placeTop { o with root := o.root.addMissing (attributesOf "html" [tree]) } := by
      cases tree with
      | text content => rfl
      | comment content => rfl
      | element el children =>
        by_cases hroot : el.tag = "html" <;>
          simp [placeNode, topNodes, attributesOf, Tree.hasTag, hroot, Tree.attributes, Tree.children,
            Element.addMissing]
    have hsplit : tree :: nodes = [tree] ++ nodes := rfl
    rw [List.foldl_cons, ih, hstep, hsplit, topNodes_append, List.foldl_append, attributesOf_append,
      Element.addMissing_append]
    -- the root is not looked at where the nodes are placed
    simp only [foldl_placeTop_eq]

end Outline

/-- What is collected from the document. -/
theorem outline_eq (d : Document) : d.outline =
    { root := ⟨"html", Attribute.firstOfEach (attributesOf "html" d.nodes)⟩
      head := ⟨"head", Attribute.firstOfEach (attributesOf "head" (topNodes d.nodes))⟩
      body := ⟨"body", Attribute.firstOfEach (attributesOf "body" (topNodes d.nodes))⟩
      inHead := Tree.firstWinsAll (headNodes (topNodes d.nodes))
      inBody := Tree.firstWinsAll (bodyNodes (topNodes d.nodes)) } := by
  rw [Document.outline, Outline.foldl_placeNode_eq, Outline.foldl_placeTop_eq]
  simp only [Element.addMissing_bare, List.nil_append]

end Markup

namespace Page

variable {page : Page} {id : NodeId}

/-! ## Copies -/

/-- The nodes are copies of the trees, one of each: with the text or the comment, or with the tag, of the attributes
with one name the first, and as children copies of the children. -/
inductive Copies (page : Page) : List NodeId → List Tree → Prop
  | done : page.Copies [] []
  | text {id : NodeId} {rest : List NodeId} {trees : List Tree} {content : String}
      (hid : page.kind? id = some (.text content)) (hrest : page.Copies rest trees) :
      page.Copies (id :: rest) (.text content :: trees)
  | comment {id : NodeId} {rest : List NodeId} {trees : List Tree} {content : String}
      (hid : page.kind? id = some (.comment content)) (hrest : page.Copies rest trees) :
      page.Copies (id :: rest) (.comment content :: trees)
  | element {id : NodeId} {rest : List NodeId} {trees children : List Tree} {el : Element}
      (hid : page.kind? id = some (.element ⟨el.tag, Attribute.firstOfEach el.attributes⟩))
      (hchildren : page.Copies (page.children id) children) (hrest : page.Copies rest trees) :
      page.Copies (id :: rest) (.element el children :: trees)

/-- Nodes that read as the trees with the first of each name are copies of them. -/
theorem Unfolds.copies {ids : List NodeId} {shown : List Tree} (h : page.Unfolds ids shown) :
    ∀ trees, shown = Tree.firstWinsAll trees → page.Copies ids trees := by
  induction h with
  | done =>
    rintro (_ | ⟨tree, trees⟩) heq
    · exact .done
    · cases heq
  | text hid _ ih =>
    rintro (_ | ⟨_ | _ | _, trees⟩) heq <;> cases heq
    exact .text hid (ih trees rfl)
  | comment hid _ ih =>
    rintro (_ | ⟨_ | _ | _, trees⟩) heq <;> cases heq
    exact .comment hid (ih trees rfl)
  | element hid _ _ ihChildren ih =>
    rintro (_ | ⟨⟨el, children⟩ | _ | _, trees⟩) heq <;> cases heq
    rw [Element.addMissing_bare] at hid
    exact .element hid (ihChildren children rfl) (ih trees rfl)

theorem Linked.copies (h : page.Linked) {trees : List Tree}
    (htrees : (page.children id).map page.treeOf = Tree.firstWinsAll trees) :
    page.Copies (page.children id) trees :=
  (h.unfolds_children id).copies trees htrees

/-- The page has the content of the document and no other: below the root the head and the body, in the head copies of
what stands in its heads and in the body copies of the rest, in order. Of all attributes that are given to one of the
three, the first of each name stay. -/
structure MadeFrom (page : Page) (d : Document) : Prop where
  linked : page.Linked
  doctype : page.doctype = d.doctype
  parent?_root : page.parent? page.root = none
  children_root : page.children page.root = [page.head, page.body]
  root : page.element? page.root = some ⟨"html", Attribute.firstOfEach (Markup.attributesOf "html" d.nodes)⟩
  head : page.element? page.head
    = some ⟨"head", Attribute.firstOfEach (Markup.attributesOf "head" (Markup.topNodes d.nodes))⟩
  body : page.element? page.body
    = some ⟨"body", Attribute.firstOfEach (Markup.attributesOf "body" (Markup.topNodes d.nodes))⟩
  inHead : page.Copies (page.children page.head) (Markup.headNodes (Markup.topNodes d.nodes))
  inBody : page.Copies (page.children page.body) (Markup.bodyNodes (Markup.topNodes d.nodes))

/-- Every document: where its nodes land, in what order, and with which attributes. -/
theorem madeFrom_ofDocument (d : Document) : (ofDocument d).MadeFrom d := by
  have houtlined := outlined_ofDocument d
  have hwell := houtlined.wellFormed
  rw [Markup.outline_eq] at houtlined
  exact
    { linked := hwell.linked
      doctype := houtlined.doctype
      parent?_root := hwell.parent?_root
      children_root := hwell.children_root
      root := houtlined.root
      head := houtlined.head
      body := houtlined.body
      inHead := hwell.linked.copies houtlined.inHead
      inBody := hwell.linked.copies houtlined.inBody }

end Page

end AmpTuner
