import AmpTuner.Proofs.Rendering.Boilerplate

/-!
# The content of a document

What rendering must not lose is all of a document but what rendering is there to write: the spacers, some
attributes of custom elements, the two markers of the root, and the stylesheet and boilerplate of the head.

* **`contentOfDocument`** is a document without these. It reads nothing but the tree.
* **`Preserves`** says the same of two pages, node by node: `ρ` tells where a node is found again.
* **`Preserves.content`** gets from one to the other, down the tree.
-/

namespace AmpTuner.Rendering

open Markup (Element Attribute Tree Document)
open Vocabulary

/-! ## Elements -/

/-- The element without the attributes of these names. -/
def without (names : List String) (el : Element) : Element :=
  { el with attributes := el.attributes.filter (!names.contains ·.name) }

section Without

variable {names : List String} {name : String}

/-- To set a struck attribute shows in nothing. -/
theorem without_set (hname : name ∈ names) (el : Element) (value : String) :
    without names (el.set name value) = without names el := by
  have hput (attributes : List Attribute) :
      (Attribute.put name value attributes).filter (!names.contains ·.name)
        = attributes.filter (!names.contains ·.name) := by
    induction attributes with
    | nil => simp [Attribute.put, hname]
    | cons a rest ih =>
      rw [Attribute.put]
      split
      · next heq => simp [heq, hname]
      · rw [List.filter_cons, List.filter_cons, ih]
  rw [without, without, Element.set, hput]

/-- To erase a struck attribute shows in nothing. -/
theorem without_erase (hname : name ∈ names) (el : Element) :
    without names (el.erase name) = without names el := by
  have herase (attributes : List Attribute) :
      (attributes.eraseP (·.name == name)).filter (!names.contains ·.name)
        = attributes.filter (!names.contains ·.name) := by
    induction attributes with
    | nil => rfl
    | cons a rest ih =>
      by_cases heq : a.name = name
      · rw [List.eraseP_cons_of_pos (by simp [heq]), List.filter_cons_of_neg (by simp [heq, hname])]
      · rw [List.eraseP_cons_of_neg (by simp [heq]), List.filter_cons, List.filter_cons, ih]
  rw [without, without, Element.erase, herase]

end Without

/-- The attributes of a custom element that rendering writes or takes away. -/
def ownNames : List String :=
  ["class", "style", "hidden", "id", layoutMarker, "sizes", "heights", "media"]

/-- The element with what its author gave it. -/
def bare (el : Element) : Element := if Markup.isComponent el.tag then without ownNames el else el

/-- The root without the marks of rendering. -/
def bareRoot (el : Element) : Element := without [layoutMarker, noBoilerplateMarker] el

/-- The element that holds the room for another. -/
def isSizer (el : Element) : Bool := el.tag == sizerTag && el.attribute? "slot" == some sizerSlot

theorem tag_bare (el : Element) : (bare el).tag = el.tag := by
  rw [bare]
  split <;> rfl

theorem bare_of_not_component {el : Element} (h : Markup.isComponent el.tag = false) : bare el = el := by
  rw [bare, if_neg (by simp [h])]

theorem bare_of_component {el el' : Element} (h : Markup.isComponent el.tag = true) (htag : el'.tag = el.tag)
    (hwithout : without ownNames el' = without ownNames el) : bare el' = bare el := by
  rw [bare, bare, htag, if_pos h, if_pos h, hwithout]

/-- What is no test of custom elements does not see what they lose. -/
theorem eq_of_bare_eq {el el' : Element} (h : bare el' = bare el) {p : Element → Bool}
    (hp : ∀ {el}, Markup.isComponent el.tag = true → p el = false) : p el' = p el := by
  have htag : el'.tag = el.tag := by rw [← tag_bare el', h, tag_bare]
  cases hcomponent : Markup.isComponent el.tag with
  | true => rw [hp hcomponent, hp (htag ▸ hcomponent)]
  | false => rw [← bare_of_not_component hcomponent, ← h, bare_of_not_component (htag ▸ hcomponent)]

/-- A custom element has not the tag of a plain one. -/
theorem ne_of_isComponent {tag tag' : String} (h : Markup.isComponent tag = true)
    (h' : Markup.isComponent tag' = false) : tag ≠ tag' := by
  rintro rfl
  rw [h] at h'
  cases h'

theorem isSizer_of_isComponent {el : Element} (h : Markup.isComponent el.tag = true) : isSizer el = false := by
  have hne := ne_of_isComponent h (by decide : Markup.isComponent sizerTag = false)
  simp [isSizer, hne]

/-- A custom element is no style. -/
theorem isCustomStyle_of_isComponent {el : Element} (h : Markup.isComponent el.tag = true) :
    isCustomStyle el = false := by
  have hne := ne_of_isComponent h (by decide : Markup.isComponent "style" = false)
  simp [isCustomStyle, hne]

theorem isBoilerplateStyle_of_isComponent {el : Element} (h : Markup.isComponent el.tag = true) :
    isBoilerplateStyle el = false := by
  have hne := ne_of_isComponent h (by decide : Markup.isComponent "style" = false)
  simp [isBoilerplateStyle, hne]

theorem isNoscriptTag_of_isComponent {el : Element} (h : Markup.isComponent el.tag = true) :
    (el.tag == "noscript") = false := by
  have hne := ne_of_isComponent h (by decide : Markup.isComponent "noscript" = false)
  simpa using hne

/-! ## Trees -/

/-- Whether the tree is an element that satisfies `p`. -/
def isElementTree (p : Element → Bool) : Tree → Bool
  | .element el _ => p el
  | _ => false

/-- A child of the head that rendering may write or take away: the stylesheet, a boilerplate style, or a
noscript with one. -/
def isReplaceable : Tree → Bool
  | .element el children => isCustomStyle el || isBoilerplateStyle el
      || (el.tag == "noscript" && children.any (isElementTree isBoilerplateStyle))
  | _ => false

mutual

/-- The tree without what rendering writes. -/
def contentOf : Tree → Tree
  | .element el children => .element (bare el) (contentsOf children)
  | .text content => .text content
  | .comment content => .comment content

/-- A forest without its spacers and all that is in them. -/
def contentsOf : List Tree → List Tree
  | [] => []
  | tree :: rest =>
    if isElementTree isSizer tree then contentsOf rest else contentOf tree :: contentsOf rest

end

/-- Of a head, the stylesheet and the boilerplate do not count. -/
def contentOfHead : Tree → Tree
  | .element el children => .element (bare el) (contentsOf (children.filter (!isReplaceable ·)))
  | tree => tree

/-- The content of a whole page: the head without what rendering may write or take away, and the body. -/
def contentOfRoot : Tree → Tree
  | .element el children => .element (bareRoot el)
      (children.map fun tree =>
        if isElementTree (·.tag == "head") tree then contentOfHead tree else contentOf tree)
  | tree => tree

/-- The content of a document, with its doctype. -/
def contentOfDocument (d : Document) : Document := ⟨d.doctype, d.nodes.map contentOfRoot⟩

/-- The content of several trees: without the sizers, tree by tree. -/
theorem contentsOf_eq (trees : List Tree) :
    contentsOf trees = (trees.filter (!isElementTree isSizer ·)).map contentOf := by
  induction trees with
  | nil => rfl
  | cons tree rest ih =>
    rw [contentsOf, List.filter_cons, ih]
    cases isElementTree isSizer tree <;> rfl

/-! ## Pages -/

variable {page page' : Page} {ρ : NodeId → NodeId} {x : NodeId}

section Trees

variable (h : page.Linked)

include h

theorem treeOf_of_kind?_eq_none (hkind : page.kind? x = none) : page.treeOf x = .text "" := by
  rw [h.treeOf_eq, Page.treeWithin, hkind]

/-- A test of a tree is a test of its node. -/
theorem isElementTree_treeOf (p : Element → Bool) :
    isElementTree p (page.treeOf x) = page.isElement x p := by
  rw [Page.isElement, Page.element?]
  cases hkind : page.kind? x with
  | none => rw [treeOf_of_kind?_eq_none h hkind]; rfl
  | some kind =>
    cases kind with
    | element el => rw [h.treeOf_element hkind]; rfl
    | text content => rw [h.treeOf_text hkind]; rfl
    | comment content => rw [h.treeOf_comment hkind]; rfl

end Trees

/-- The node is a child of the head that rendering may write or take away. -/
def isReplaceableNode (page : Page) (x : NodeId) : Bool :=
  page.isElement x isCustomStyle || page.isElement x isBoilerplateStyle || Boilerplate.isNoscript page x

/-- The node counts among the children of the head. -/
def staysInHead (page : Page) (x : NodeId) : Bool :=
  !page.isElement x isSizer && !isReplaceableNode page x

/-- The test for a boilerplate noscript. -/
theorem isNoscript_eq : Boilerplate.isNoscript page x
    = (page.isElement x (·.tag == "noscript")
      && (page.children x).any (page.isElement · isBoilerplateStyle)) := by
  rw [Boilerplate.isNoscript, Page.isTag_eq_isElement, Page.elementChildren, List.any_filter]
  congr 2
  funext c
  rw [Page.isElement]
  cases page.element? c <;> rfl

/-- Whether a tree may go is read off its node. -/
theorem isReplaceable_treeOf (h : page.Linked) : isReplaceable (page.treeOf x) = isReplaceableNode page x := by
  rw [isReplaceableNode, isNoscript_eq, Page.isElement, Page.isElement, Page.isElement, Page.element?]
  cases hkind : page.kind? x with
  | none => rw [treeOf_of_kind?_eq_none h hkind]; rfl
  | some kind =>
    cases kind with
    | element el =>
      rw [h.treeOf_element hkind]
      simp [isReplaceable, NodeKind.element?, isElementTree_treeOf h, List.any_map, Function.comp_def]
    | text content => rw [h.treeOf_text hkind]; rfl
    | comment content => rw [h.treeOf_comment hkind]; rfl

/-- Neither the root nor the head, nor the stylesheet that rules are appended to. -/
structure Inner (page : Page) (x : NodeId) : Prop where
  has : page.Has x
  ne_root : x ≠ page.root
  ne_head : x ≠ page.head
  ne_style : page.customStyle? ≠ some x

/-- A child of what is inside is inside. -/
theorem Inner.child (h : page.WellFormed) (hx : Inner page x) {c : NodeId}
    (hc : page.parent? c = some x) : Inner page c where
  has := Page.has_of_parent? hc
  ne_root := by
    rintro rfl
    rw [h.parent?_root] at hc
    cases hc
  ne_head := by
    rintro rfl
    exact hx.ne_root (Option.some.inj (hc.symm.trans h.parent?_head))
  ne_style hstyle := by
    -- the stylesheet is a child of the head
    have hparent := ((Page.mem_customStyles_iff h.linked).mp
      (Page.mem_customStyles_of_customStyle? hstyle)).1
    exact hx.ne_head (Option.some.inj (hc.symm.trans hparent))

/-- `ρ` tells where each node is found again, with the attributes that count. The root is looked at by
itself. -/
def KeepsKinds (page page' : Page) (ρ : NodeId → NodeId) : Prop :=
  ∀ x, page.Has x → x ≠ page.root →
    (page'.kind? (ρ x)).map (·.mapElement bare) = (page.kind? x).map (·.mapElement bare)

/-- And in front of the same nodes. -/
structure Follows (page page' : Page) (ρ : NodeId → NodeId) : Prop where
  kinds : KeepsKinds page page' ρ
  children : ∀ x, Inner page x → (page'.children (ρ x)).filter (!page'.isElement · isSizer)
    = ((page.children x).filter (!page.isElement · isSizer)).map ρ

/-- The same of the whole page, whose root and head have lost nothing that counts either. -/
structure Preserves (page page' : Page) (ρ : NodeId → NodeId) : Prop extends Follows page page' ρ where
  doctype : page'.doctype = page.doctype
  root : page'.root = page.root
  head : page'.head = page.head
  body : page'.body = page.body
  rootElement : (page'.element? page.root).map bareRoot = (page.element? page.root).map bareRoot
  headElement : page'.element? page.head = page.element? page.head
  map_body : ρ page.body = page.body
  headChildren : (page'.children page.head).filter (staysInHead page')
    = ((page.children page.head).filter (staysInHead page)).map ρ

/-- What is no test of custom elements has the same answer for both nodes. -/
theorem KeepsKinds.isElement_eq (h : KeepsKinds page page' ρ) (hx : page.Has x) (hroot : x ≠ page.root)
    {p : Element → Bool} (hp : ∀ {el}, Markup.isComponent el.tag = true → p el = false) :
    page'.isElement (ρ x) p = page.isElement x p := by
  have hkind := h x hx hroot
  rw [Page.isElement, Page.isElement, Page.element?, Page.element?]
  cases hold : page.kind? x with
  | none =>
    rw [hold, Option.map_none, Option.map_eq_none_iff] at hkind
    rw [hkind]
  | some kind =>
    rw [hold, Option.map_some] at hkind
    obtain ⟨kind', hnew, heq⟩ := Option.map_eq_some_iff.mp hkind
    rw [hnew]
    cases kind with
    | element el =>
      cases kind' with
      | element el' => exact eq_of_bare_eq (NodeKind.element.inj heq) hp
      | text content => cases heq
      | comment content => cases heq
    | text content => cases kind' <;> first | rfl | cases heq
    | comment content => cases kind' <;> first | rfl | cases heq

namespace Follows

variable (h : Follows page page' ρ)

include h

/-- Down the tree: the spacer-free children of a node are those of the node it has become. -/
theorem contentOf_treeOf (hpage : page.WellFormed) (hpage' : page'.WellFormed) (hx : Inner page x) :
    contentOf (page'.treeOf (ρ x)) = contentOf (page.treeOf x) := by
  induction x using hpage.linked.down_induction with
  | step x ih =>
    have hkind := h.kinds x hx.has hx.ne_root
    have hcontents : contentsOf ((page'.children (ρ x)).map page'.treeOf)
        = contentsOf ((page.children x).map page.treeOf) := by
      rw [contentsOf_eq, contentsOf_eq, List.filter_map, List.filter_map]
      simp only [Function.comp_def, isElementTree_treeOf hpage.linked, isElementTree_treeOf hpage'.linked]
      rw [h.children x hx, List.map_map, List.map_map, List.map_map]
      refine List.map_congr_left fun c hc => ?_
      have hparent := (hpage.linked.mem_children_iff x c).mp (List.mem_filter.mp hc).1
      exact ih c hparent (hx.child hpage hparent)
    cases hold : page.kind? x with
    | none =>
      rw [hold, Option.map_none, Option.map_eq_none_iff] at hkind
      rw [treeOf_of_kind?_eq_none hpage.linked hold, treeOf_of_kind?_eq_none hpage'.linked hkind]
    | some kind =>
      rw [hold, Option.map_some] at hkind
      obtain ⟨kind', hnew, heq⟩ := Option.map_eq_some_iff.mp hkind
      cases kind with
      | element el =>
        cases kind' with
        | element el' =>
          have hbare : bare el' = bare el := NodeKind.element.inj heq
          rw [hpage.linked.treeOf_element hold, hpage'.linked.treeOf_element hnew, contentOf, contentOf, hbare,
            hcontents]
        | text content => cases heq
        | comment content => cases heq
      | text content =>
        cases kind' with
        | element el' => cases heq
        | text content' =>
          obtain rfl : content' = content := NodeKind.text.inj heq
          rw [hpage.linked.treeOf_text hold, hpage'.linked.treeOf_text hnew]
        | comment content' => cases heq
      | comment content =>
        cases kind' with
        | element el' => cases heq
        | text content' => cases heq
        | comment content' =>
          obtain rfl : content' = content := NodeKind.comment.inj heq
          rw [hpage.linked.treeOf_comment hold, hpage'.linked.treeOf_comment hnew]

/-- A style is no spacer, so it does not matter that only the others are found again. -/
theorem isNoscript_eq (hpage : page.WellFormed) (hx : Inner page x) :
    Boilerplate.isNoscript page' (ρ x) = Boilerplate.isNoscript page x := by
  have hfilter (q : Page) (L : List NodeId) : L.any (q.isElement · isBoilerplateStyle)
      = (L.filter (!q.isElement · isSizer)).any (q.isElement · isBoilerplateStyle) := by
    rw [List.any_filter]
    congr 1
    funext c
    rw [Page.isElement, Page.isElement]
    cases q.element? c with
    | none => rfl
    | some el =>
      rw [Option.any_some, Option.any_some, isSizer, isBoilerplateStyle]
      by_cases htag : el.tag = "style" <;> simp [htag, sizerTag]
  rw [Rendering.isNoscript_eq, Rendering.isNoscript_eq, hfilter page', hfilter page, h.children x hx,
    List.any_map, h.kinds.isElement_eq hx.has hx.ne_root isNoscriptTag_of_isComponent]
  congr 1
  refine any_congr_of_mem fun c hc => ?_
  have hparent := (hpage.linked.mem_children_iff x c).mp (List.mem_filter.mp hc).1
  have hinner := hx.child hpage hparent
  exact h.kinds.isElement_eq hinner.has hinner.ne_root isBoilerplateStyle_of_isComponent

/-- What is replaceable in the head is so afterwards. -/
theorem staysInHead_eq (hpage : page.WellFormed) (hx : x ∈ page.children page.head) :
    staysInHead page' (ρ x) = staysInHead page x := by
  have hparent := (hpage.linked.mem_children_iff _ _).mp hx
  have hhas : page.Has x := Page.has_of_parent? hparent
  have hroot : x ≠ page.root := by
    rintro rfl
    rw [hpage.parent?_root] at hparent
    cases hparent
  have hhead : x ≠ page.head := by
    rintro rfl
    exact hpage.linked.acyclic _ (.of_parent? hparent)
  have hcustom := h.kinds.isElement_eq hhas hroot isCustomStyle_of_isComponent
  rw [staysInHead, staysInHead, isReplaceableNode, isReplaceableNode, hcustom,
    h.kinds.isElement_eq hhas hroot isBoilerplateStyle_of_isComponent,
    h.kinds.isElement_eq hhas hroot isSizer_of_isComponent]
  by_cases hstyle : page.customStyle? = some x
  -- whatever is in the stylesheet, it is replaceable
  · have hmem := (List.mem_filter.mp (Page.mem_customStyles_of_customStyle? hstyle)).2
    rw [hmem]
    rfl
  · rw [h.isNoscript_eq hpage ⟨hhas, hroot, hhead, hstyle⟩]

end Follows

/-! ## Documents -/

theorem parent?_of_customStyle? (h : page.Linked) {style : NodeId} (hstyle : page.customStyle? = some style) :
    page.parent? style = some page.head :=
  ((Page.mem_customStyles_iff h).mp (Page.mem_customStyles_of_customStyle? hstyle)).1

/-- The body is inside the page. -/
theorem inner_body (h : page.WellFormed) : Inner page page.body where
  has := h.has_body
  ne_root := h.body_ne_root
  ne_head := h.head_ne_body.symm
  ne_style hstyle :=
    h.head_ne_root (Option.some.inj ((parent?_of_customStyle? h.linked hstyle).symm.trans h.parent?_body))

/-- What stays in the head is inside the page. -/
theorem inner_of_staysInHead (h : page.WellFormed) (hx : x ∈ page.children page.head)
    (hstays : staysInHead page x = true) : Inner page x := by
  have hparent := (h.linked.mem_children_iff _ _).mp hx
  have hfixed := h.not_isFixed_of_parent? hparent h.head_ne_root
  refine ⟨Page.has_of_parent? hparent, fun heq => hfixed (.inl heq), fun heq => hfixed (.inr (.inl heq)),
    fun hstyle => ?_⟩
  rw [staysInHead, isReplaceableNode,
    (List.mem_filter.mp (Page.mem_customStyles_of_customStyle? hstyle)).2] at hstays
  simp at hstays

/-- The content of the head is that of the children that stay. -/
theorem contentOfHead_treeOf (h : page.WellFormed) {el : Element} (hel : page.element? page.head = some el) :
    contentOfHead (page.treeOf page.head) = .element (bare el)
      (((page.children page.head).filter (staysInHead page)).map fun c => contentOf (page.treeOf c)) := by
  rw [h.linked.treeOf_element (Page.element?_eq_some_iff.mp hel), contentOfHead, contentsOf_eq, List.filter_map,
    List.filter_map, List.map_map, List.filter_filter]
  congr 2
  refine List.filter_congr fun c _ => ?_
  simp only [Function.comp_def, isElementTree_treeOf h.linked, isReplaceable_treeOf h.linked, staysInHead]

/-- The content of a page is that of its head and of its body. -/
theorem contentOfRoot_treeOf (h : page.WellFormed) {el : Element} (hel : page.element? page.root = some el) :
    contentOfRoot (page.treeOf page.root) = .element (bareRoot el)
      [contentOfHead (page.treeOf page.head), contentOf (page.treeOf page.body)] := by
  have hhead : page.isElement page.head (·.tag == "head") = true := by
    rw [← Page.isTag_eq_isElement, Page.isTag, h.tag?_head]
    rfl
  have hbody : page.isElement page.body (·.tag == "head") = false := by
    rw [← Page.isTag_eq_isElement, Page.isTag, h.tag?_body]
    rfl
  rw [h.linked.treeOf_element (Page.element?_eq_some_iff.mp hel), h.children_root, contentOfRoot]
  simp only [List.map_cons, List.map_nil, isElementTree_treeOf h.linked, hhead, hbody]
  rfl

/-- Pages with the same nodes that count are documents with the same content. -/
theorem Preserves.content (h : Preserves page page' ρ) (hpage : page.WellFormed)
    (hpage' : page'.WellFormed) :
    contentOfDocument page'.toDocument = contentOfDocument page.toDocument := by
  obtain ⟨el, hel, _⟩ := Option.map_eq_some_iff.mp hpage.tag?_root
  obtain ⟨headEl, hheadEl, _⟩ := Option.map_eq_some_iff.mp hpage.tag?_head
  obtain ⟨el', hel', hroot⟩ : ∃ el', page'.element? page.root = some el' ∧ bareRoot el' = bareRoot el := by
    have hrootElement := h.rootElement
    rw [hel, Option.map_some] at hrootElement
    exact Option.map_eq_some_iff.mp hrootElement
  have hhead : contentOfHead (page'.treeOf page'.head) = contentOfHead (page.treeOf page.head) := by
    have hheadEl' : page'.element? page'.head = some headEl := by rw [h.head, h.headElement, hheadEl]
    rw [contentOfHead_treeOf hpage' hheadEl', contentOfHead_treeOf hpage hheadEl, h.head, h.headChildren,
      List.map_map]
    congr 1
    refine List.map_congr_left fun c hc => ?_
    obtain ⟨hc, hstays⟩ := List.mem_filter.mp hc
    exact h.contentOf_treeOf hpage hpage' (inner_of_staysInHead hpage hc hstays)
  have hbody : contentOf (page'.treeOf page'.body) = contentOf (page.treeOf page.body) := by
    rw [h.body, ← h.contentOf_treeOf hpage hpage' (inner_body hpage), h.map_body]
  rw [contentOfDocument, contentOfDocument, Page.toDocument, Page.toDocument, h.doctype, List.map_singleton,
    List.map_singleton, contentOfRoot_treeOf hpage' (h.root ▸ hel'), contentOfRoot_treeOf hpage hel, hhead, hbody,
    hroot]

end AmpTuner.Rendering
