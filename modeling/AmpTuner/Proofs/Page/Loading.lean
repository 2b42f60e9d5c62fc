import AmpTuner.Proofs.Page.WellFormed
import AmpTuner.Proofs.Page.Preorder

/-!
# Loading a document

What a page shows after a document was loaded into it. Both sides are trees: `Document.outline` says
on the tree of the document which elements the page gets and what stands in them, and the page that
was built node by node reads back as that tree.

## The architecture

* **`Grown`** is what one insertion does to a page: it adds children behind those of one node, all of
  them new, and changes nothing else. Trees that were there keep their shape (`Grown.treeOf`).
* **`insertTree_grown`** and **`insertForest_grown`** say that the new nodes read back as the inserted
  trees, of each repeated attribute only the first one (`Tree.firstWins`).
* **`Outlined`** relates a page to the outline of what it has been given so far; every placement keeps
  it, and so does the whole load (`outlined_ofDocument`).
* **`ofDocument_wellFormed`** and **`toDocument_ofDocument`** are what the rest of the library uses.
-/

namespace AmpTuner

open Markup (Element Attribute Tree Document)

namespace Markup

/-! ## The tree of a loaded document -/

/-- Adds the attributes whose names are not taken. -/
def Element.addMissing (el : Element) (given : List Attribute) : Element :=
  given.foldl (fun el a => if el.hasAttribute a.name then el else el.set a.name a.value) el

mutual

/-- The tree with only the first of the attributes of one name in each element. -/
def Tree.firstWins : Tree → Tree
  | .element el children =>
    .element (({ tag := el.tag } : Element).addMissing el.attributes) (Tree.firstWinsAll children)
  | .text content => .text content
  | .comment content => .comment content

/-- A forest in which the first attribute of each name wins. -/
def Tree.firstWinsAll : List Tree → List Tree
  | [] => []
  | tree :: rest => tree.firstWins :: Tree.firstWinsAll rest

end

/-- The three fixed elements of a page with what stands in head and body. -/
structure Outline where
  root : Element := { tag := "html" }
  head : Element := { tag := "head" }
  body : Element := { tag := "body" }
  inHead : List Tree := []
  inBody : List Tree := []

namespace Outline

/-- Places a node that stands at the top or directly in the root. -/
def placeTop (o : Outline) (tree : Tree) : Outline :=
  if tree.isBlankText then o
  else
    match tree with
    | .element el children =>
      if el.tag == "head" then
        { o with head := o.head.addMissing el.attributes,
                 inHead := o.inHead ++ Tree.firstWinsAll children }
      else if el.tag == "body" then
        { o with body := o.body.addMissing el.attributes,
                 inBody := o.inBody ++ Tree.firstWinsAll children }
      else { o with inBody := o.inBody ++ [tree.firstWins] }
    | _ => { o with inBody := o.inBody ++ [tree.firstWins] }

/-- Places a node of the document. -/
def placeNode (o : Outline) (tree : Tree) : Outline :=
  match tree with
  | .element el children =>
    if el.tag == "html" then
      children.foldl placeTop { o with root := o.root.addMissing el.attributes }
    else o.placeTop tree
  | _ => o.placeTop tree

/-- The tree of the page: a root with head and body, and what was gathered in each. -/
def toTree (o : Outline) : Tree :=
  .element o.root [.element o.head o.inHead, .element o.body o.inBody]

end Outline

/-- What loading the nodes of a document gathers. -/
def Document.outline (d : Document) : Outline := d.nodes.foldl Outline.placeNode {}

namespace Element

theorem tag_addMissing (el : Element) (given : List Attribute) :
    (el.addMissing given).tag = el.tag := by
  rw [addMissing]
  induction given generalizing el with
  | nil => rfl
  | cons a given ih =>
    rw [List.foldl_cons, ih]
    split <;> rfl

/-- Adding what is missing keeps the names distinct. -/
theorem Distinct.addMissing {el : Element} (h : el.Distinct) (given : List Attribute) :
    (el.addMissing given).Distinct := by
  rw [Element.addMissing]
  induction given generalizing el with
  | nil => exact h
  | cons a given ih =>
    refine ih ?_
    show (if el.hasAttribute a.name then el else el.set a.name a.value).Distinct
    split
    · exact h
    · exact h.set

end Element

end Markup

namespace Page

variable {page page' : Page} {parent id x : NodeId}

/-! ## Adding attributes -/

/-- A change to an element is what it does to that element. -/
theorem mapElement_congr {f g : Element → Element}
    (h : ∀ el, page.element? id = some el → f el = g el) :
    page.mapElement id f = page.mapElement id g := by
  have hnodes : page.nodes.modify id.index (fun n => { n with kind := n.kind.mapElement f })
      = page.nodes.modify id.index (fun n => { n with kind := n.kind.mapElement g }) := by
    -- the stores agree entry by entry; only the entry of `id` was written
    apply Array.ext_getElem?
    intro i
    simp only [Array.getElem?_modify]
    split
    · next hi =>
      subst hi
      cases hn : page.nodes[id.index]? with
      | none => rfl
      | some n =>
        cases hkind : n.kind with
        | element el =>
          have hel : page.element? id = some el := by
            rw [element?, kind?, node?, hn]
            simp [hkind, NodeKind.element?]
          simp [NodeKind.mapElement, hkind, h el hel]
        | text content => simp [NodeKind.mapElement, hkind]
        | comment content => simp [NodeKind.mapElement, hkind]
    · rfl
  rw [mapElement, mapElement, update, update, hnodes]

/-- Two changes to an element are one. -/
theorem mapElement_mapElement {f g : Element → Element} :
    (page.mapElement id f).mapElement id g = page.mapElement id (fun el => g (f el)) := by
  have hnodes : (page.nodes.modify id.index (fun n => { n with kind := n.kind.mapElement f })).modify
        id.index (fun n => { n with kind := n.kind.mapElement g })
      = page.nodes.modify id.index fun n => { n with kind := n.kind.mapElement fun el => g (f el) } := by
    apply Array.ext_getElem?
    intro i
    simp only [Array.getElem?_modify]
    split
    · cases page.nodes[i]? with
      | none => rfl
      | some n =>
        obtain ⟨kind, _, _⟩ := n
        cases kind <;> rfl
    · rfl
  simp only [mapElement, update, hnodes]

/-- A change that changes nothing leaves the page as it is. -/
theorem mapElement_id : page.mapElement id (fun el => el) = page := by
  have hnodes : page.nodes.modify id.index (fun n => { n with kind := n.kind.mapElement fun el => el })
      = page.nodes := by
    apply Array.ext_getElem?
    intro i
    simp only [Array.getElem?_modify]
    split
    · cases page.nodes[i]? with
      | none => rfl
      | some n =>
        obtain ⟨kind, _, _⟩ := n
        cases kind <;> rfl
    · rfl
  rw [mapElement, update, hnodes]

/-- Adding attributes to a node is one change of its element. -/
theorem addAttributes_eq (given : List Attribute) :
    page.addAttributes id given = page.mapElement id (·.addMissing given) := by
  -- each step is a change of the element too, and two changes are one
  induction given generalizing page with
  | nil =>
    rw [addAttributes, List.foldl_nil]
    exact mapElement_id.symm
  | cons a given ih =>
    have hstep : (if page.hasAttribute id a.name then page else page.setAttribute id a.name a.value)
        = page.mapElement id fun el =>
            if el.hasAttribute a.name then el else el.set a.name a.value := by
      split
      · next hhas =>
        refine mapElement_id.symm.trans (mapElement_congr fun el hel => ?_)
        rw [hasAttribute, isElement, hel, Option.any_some] at hhas
        rw [if_pos hhas]
      · next hhas =>
        refine mapElement_congr fun el hel => ?_
        rw [hasAttribute, isElement, hel, Option.any_some] at hhas
        rw [if_neg hhas]
    rw [addAttributes, List.foldl_cons, hstep, ← addAttributes, ih, mapElement_mapElement]
    rfl

theorem addAttributes_sameFrame (given : List Attribute) :
    page.SameFrame (page.addAttributes id given) := by
  rw [addAttributes_eq]
  exact mapElement_sameFrame _

/-! ## Growing -/

/-- A tree keeps its shape where only a node outside it gets other children. -/
theorem Linked.treeOf_away (h : page.Linked) (h' : page'.Linked)
    (hkind : ∀ a, page.Has a → page'.kind? a = page.kind? a)
    (hchildren : ∀ a, page.Has a → a ≠ parent → page'.children a = page.children a)
    (hx : page.Has x) (hne : x ≠ parent) (habove : ¬ page.Above x parent) :
    page'.treeOf x = page.treeOf x := by
  refine h.treeOf_congr h' (S := fun a => page.Has a ∧ a ≠ parent ∧ ¬ page.Above a parent) ?_
    (fun a ha => hkind a ha.1) (fun a ha => hchildren a ha.1 ha.2.1) ⟨hx, hne, habove⟩
  -- a child that is the node outside, or is above it, would put its parent above it too
  rintro a c ⟨_, _, habove⟩ hc
  refine ⟨has_of_parent? hc, ?_, fun hcp => habove (.trans (.of_parent? hc) hcp)⟩
  rintro rfl
  exact habove (.of_parent? hc)

/-- `page'` is `page` with new nodes, of which `added` are behind the other children of `parent`. -/
structure Grown (page page' : Page) (parent : NodeId) (added : List NodeId) : Prop where
  frame : page.SameFrame page'
  wellFormed : page'.WellFormed
  has : ∀ x, page.Has x → page'.Has x
  kind? : ∀ x, page.Has x → page'.kind? x = page.kind? x
  parent? : ∀ x, page.Has x → page'.parent? x = page.parent? x
  children : ∀ x, page.Has x →
    page'.children x = if x = parent then page.children x ++ added else page.children x

namespace Grown

variable {page'' : Page} {added more : List NodeId}

/-- Nothing has grown. -/
theorem refl (h : page.WellFormed) (parent : NodeId) : page.Grown page parent [] where
  frame := .refl _
  wellFormed := h
  has _ hx := hx
  kind? _ _ := rfl
  parent? _ _ := rfl
  children x _ := by split <;> simp

/-- What has grown in two stretches has grown in both. -/
theorem trans (h : page.Grown page' parent added) (h' : page'.Grown page'' parent more) :
    page.Grown page'' parent (added ++ more) where
  frame := h.frame.trans h'.frame
  wellFormed := h'.wellFormed
  has x hx := h'.has x (h.has x hx)
  kind? x hx := (h'.kind? x (h.has x hx)).trans (h.kind? x hx)
  parent? x hx := (h'.parent? x (h.has x hx)).trans (h.parent? x hx)
  children x hx := by
    rw [h'.children x (h.has x hx), h.children x hx]
    split <;> simp

/-- What grows under a new node does not show in the old ones. -/
theorem inside (h : page.Grown page' parent []) (h' : page'.Grown page'' id more)
    (hid : ¬ page.Has id) : page.Grown page'' parent [] where
  frame := h.frame.trans h'.frame
  wellFormed := h'.wellFormed
  has x hx := h'.has x (h.has x hx)
  kind? x hx := (h'.kind? x (h.has x hx)).trans (h.kind? x hx)
  parent? x hx := (h'.parent? x (h.has x hx)).trans (h.parent? x hx)
  children x hx := by
    rw [h'.children x (h.has x hx), if_neg (fun heq : x = id => hid (heq ▸ hx)), h.children x hx]

/-- No new node is above an old one. -/
theorem above_of_above (h : page.Grown page' parent added) (hpage : page.WellFormed) {a d : NodeId}
    (hd : page.Has d) (had : page'.Above a d) : page.Above a d := by
  -- up from an old node, each parent is an old node with the parent it had
  induction had with
  | single hp =>
    rw [h.parent? _ hd] at hp
    exact .of_parent? hp
  | tail _ hp ih =>
    rw [h.parent? _ hd] at hp
    exact (ih (hpage.linked.has_parent hp)).child hp

/-- Trees away from the parent keep their shape. -/
theorem treeOf (h : page.Grown page' parent added) (hpage : page.WellFormed) (hx : page.Has x)
    (hne : x ≠ parent) (habove : ¬ page.Above x parent) : page'.treeOf x = page.treeOf x :=
  hpage.linked.treeOf_away h.wellFormed.linked h.kind?
    (fun a ha hap => by rw [h.children a ha, if_neg hap]) hx hne habove

/-- A new node at the end of the children. -/
theorem attachNew (h : page.WellFormed) (kind : NodeKind)
    (hkind : ∀ el, kind = .element el → el.Distinct)
    (hparent : (page.element? parent).isSome = true) (hroot : parent ≠ page.root) :
    page.Grown (page.attachNew kind parent (· ++ [page.next])) parent [page.next] where
  frame := attachNew_sameFrame
  wellFormed := h.attachNew hkind hparent hroot (isPlacement_append _)
  has x hx := has_attachNew.mpr (.inl hx)
  kind? x hx := by rw [kind?_attachNew, if_neg (ne_next_of_has hx)]
  parent? x hx := by rw [parent?_attachNew, if_neg (ne_next_of_has hx)]
  children x hx := by
    obtain ⟨el, hel⟩ := Option.isSome_iff_exists.mp hparent
    exact h.linked.children_attachNew (has_of_element? hel)

end Grown

/-- A detached node put behind the children of a node that is not below it. -/
theorem WellFormed.appendChild_detached (h : page.WellFormed) (parent : NodeId) (hid : page.Has id)
    (hdetached : page.parent? id = none) (hfixed : ¬ page.IsFixed id)
    (hparent : (page.element? parent).isSome = true) (hroot : parent ≠ page.root) (hne : id ≠ parent)
    (hloop : ¬ page.Above id parent) :
    (page.appendChild parent id).WellFormed
      ∧ page.SameFrame (page.appendChild parent id)
      ∧ (∀ x, (page.appendChild parent id).kind? x = page.kind? x)
      ∧ (∀ x, x ≠ id → (page.appendChild parent id).parent? x = page.parent? x)
      ∧ ∀ x, (page.appendChild parent id).children x
          = if x = parent then page.children x ++ [id] else page.children x := by
  obtain ⟨el, hel⟩ := Option.isSome_iff_exists.mp hparent
  refine ⟨h.attach hparent hroot hid hfixed (isPlacement_append id) hne hloop, attach_sameFrame,
    fun x => kind?_attach, fun x hx => ?_, fun x => ?_⟩
  · rw [appendChild, parent?_attach hid, if_neg hx]
  · have hfilter : (page.children x).filter (· != id) = page.children x := by
      refine List.filter_eq_self.mpr fun c hc => ?_
      rw [bne_iff_ne]
      rintro rfl
      rw [h.linked.mem_children_iff, hdetached] at hc
      cases hc
    rw [appendChild, h.linked.children_attach (has_of_element? hel), hfilter]

/-! ## Inserting trees -/

theorem insertTree_text (content : String) : page.insertTree parent (.text content)
    = (page.attachNew (.text content) parent (· ++ [page.next]), page.next) := by
  rw [insertTree, attachNew]
  rfl

theorem insertTree_comment (content : String) : page.insertTree parent (.comment content)
    = (page.attachNew (.comment content) parent (· ++ [page.next]), page.next) := by
  rw [insertTree, attachNew]
  rfl

/-- The new element with its attributes, before anything is put into it. -/
def createWith (page : Page) (el : Element) : Page :=
  ((page.create (.element { tag := el.tag })).1).addAttributes page.next el.attributes

/-- An element is made, filled with its children, and appended. -/
theorem insertTree_element (el : Element) (children : List Tree) :
    page.insertTree parent (.element el children)
      = (((page.createWith el).insertForest page.next children).appendChild parent page.next,
        page.next) := by
  rw [insertTree, createWith]
  rfl

/-- An element with attributes is new, and nothing has grown anywhere else. -/
theorem createWith_grown (h : page.WellFormed) (el : Element) (parent : NodeId) :
    page.Grown (page.createWith el) parent []
      ∧ (page.createWith el).element? page.next
          = some (({ tag := el.tag } : Element).addMissing el.attributes)
      ∧ (page.createWith el).parent? page.next = none
      ∧ (page.createWith el).children page.next = [] := by
  have hcreated : (page.create (.element { tag := el.tag })).1.WellFormed := by
    refine h.create fun el' hel' => ?_
    obtain rfl := NodeKind.element.inj hel'
    exact List.nodup_nil
  -- attributes are no links: the element stands alone as it was made
  have hlinks : page.SameLinks ((page.create (.element { tag := el.tag })).1.mapElement page.next
      (·.addMissing el.attributes)) :=
    (create_sameLinks _).trans (mapElement_sameLinks _)
  rw [createWith, addAttributes_eq]
  refine ⟨⟨?_, ?_, ?_, ?_, ?_, ?_⟩, ?_, ?_, ?_⟩
  · exact (create_sameFrame _).trans (mapElement_sameFrame _)
  · exact hcreated.mapElement (fun el => el.tag_addMissing _) (fun el hel => hel.addMissing _)
  · exact fun x hx => (has_mapElement _).mpr ((has_create _).mpr (.inl hx))
  · intro x hx
    rw [kind?_mapElement_of_ne _ (ne_next_of_has hx), kind?_create_of_has _ hx]
  · exact fun x _ => hlinks.parent? x
  · intro x _
    rw [hlinks.children]
    split <;> simp
  · rw [element?_mapElement, if_pos rfl, element?_eq_some_iff.mpr (kind?_create_next _)]
    rfl
  · rw [hlinks.parent?, parent?_of_not_has not_has_next]
  · rw [hlinks.children, children_of_not_has not_has_next]

/-- A new element whose children have grown is one tree more below the parent. -/
theorem grown_of_element {added : List NodeId} (h : page.WellFormed) (el : Element)
    (hparent : (page.element? parent).isSome = true) (hroot : parent ≠ page.root)
    (hgrown : (page.createWith el).Grown page' page.next added)
    (hadded : ∀ x ∈ added, ¬ (page.createWith el).Has x) :
    page.Grown (page'.appendChild parent page.next) parent [page.next]
      ∧ (page'.appendChild parent page.next).treeOf page.next
          = .element (({ tag := el.tag } : Element).addMissing el.attributes)
              (added.map page'.treeOf) := by
  obtain ⟨hcreated, hel, hdetached, hempty⟩ := createWith_grown h el parent
  have hnext : (page.createWith el).Has page.next := has_of_element? hel
  have hhas : page.Has parent := by
    obtain ⟨_, hp⟩ := Option.isSome_iff_exists.mp hparent
    exact has_of_element? hp
  -- all that was inserted hangs from the element, so the old nodes see nothing yet
  have hinside := hcreated.inside hgrown not_has_next
  have hne : page.next ≠ parent := (ne_next_of_has hhas).symm
  have happend := hinside.wellFormed.appendChild_detached parent (hgrown.has _ hnext)
    (by rw [hgrown.parent? _ hnext, hdetached]) ?_ ?_ (by rw [hinside.frame.root]; exact hroot) hne ?_
  · obtain ⟨hwell, hframe, hkind, hparent?, hchildren⟩ := happend
    refine ⟨⟨hinside.frame.trans hframe, hwell, ?_, ?_, ?_, ?_⟩, ?_⟩
    · exact fun x hx => has_attach.mpr (hinside.has x hx)
    · exact fun x hx => (hkind x).trans (hinside.kind? x hx)
    · exact fun x hx => (hparent? x (ne_next_of_has hx)).trans (hinside.parent? x hx)
    · intro x hx
      rw [hchildren, hinside.children x hx]
      split <;> simp
    · have hkind' : (page'.appendChild parent page.next).kind? page.next
          = some (.element (({ tag := el.tag } : Element).addMissing el.attributes)) := by
        rw [hkind, hgrown.kind? _ hnext]
        exact element?_eq_some_iff.mp hel
      have hbelow : page'.children page.next = added := by
        rw [hgrown.children _ hnext, if_pos rfl, hempty, List.nil_append]
      rw [hwell.linked.treeOf_element hkind', hchildren, if_neg hne, hbelow]
      congr 1
      refine List.map_congr_left fun c hc => ?_
      have hhasChild : page'.Has c := hinside.wellFormed.linked.has_child (hbelow ▸ hc)
      -- a new child is not the parent, and the parent has nothing new above it
      refine hinside.wellFormed.linked.treeOf_away hwell.linked (fun a _ => hkind a)
        (fun a _ ha => by rw [hchildren, if_neg ha]) hhasChild ?_ fun habove => ?_
      · rintro rfl
        exact hadded c hc (hcreated.has c hhas)
      · exact hadded c hc (hcreated.wellFormed.linked.has_of_above
          (hgrown.above_of_above hcreated.wellFormed (hcreated.has parent hhas) habove))
  · rw [IsFixed, hinside.frame.root, hinside.frame.head, hinside.frame.body]
    exact fun hfixed => not_has_next (h.has_of_isFixed hfixed)
  · rw [element?_congr (hinside.kind? parent hhas)]
    exact hparent
  · exact fun habove => h.linked.not_above_next (hinside.above_of_above h hhas habove)

mutual

/-- An inserted tree is the last child of its parent, and reads back as it was given. -/
theorem insertTree_grown (page : Page) (parent : NodeId) (h : page.WellFormed)
    (hparent : (page.element? parent).isSome = true) (hroot : parent ≠ page.root) :
    ∀ tree : Tree,
      page.Grown (page.insertTree parent tree).1 parent [(page.insertTree parent tree).2]
        ∧ ¬ page.Has (page.insertTree parent tree).2
        ∧ (page.insertTree parent tree).1.treeOf (page.insertTree parent tree).2 = tree.firstWins
  | .text content => by
    rw [insertTree_text]
    have hgrown := Grown.attachNew h (.text content) (fun el hel => by cases hel) hparent hroot
    refine ⟨hgrown, not_has_next, hgrown.wellFormed.linked.treeOf_text ?_⟩
    rw [kind?_attachNew, if_pos rfl]
  | .comment content => by
    rw [insertTree_comment]
    have hgrown := Grown.attachNew h (.comment content) (fun el hel => by cases hel) hparent hroot
    refine ⟨hgrown, not_has_next, hgrown.wellFormed.linked.treeOf_comment ?_⟩
    rw [kind?_attachNew, if_pos rfl]
  | .element el children => by
    -- the children go into the element before it gets its own place
    obtain ⟨hcreated, hel, _, _⟩ := createWith_grown h el parent
    obtain ⟨added, hgrown, hadded, htrees⟩ :=
      insertForest_grown (page.createWith el) page.next hcreated.wellFormed
        (by rw [hel]; rfl)
        (by rw [hcreated.frame.root]; exact (ne_next_of_has h.has_root).symm) children
    obtain ⟨hresult, htree⟩ := grown_of_element h el hparent hroot hgrown hadded
    rw [insertTree_element]
    exact ⟨hresult, not_has_next, by rw [htree, htrees, Tree.firstWins]⟩

/-- Inserted trees are the last children of their parent in order. -/
theorem insertForest_grown (page : Page) (parent : NodeId) (h : page.WellFormed)
    (hparent : (page.element? parent).isSome = true) (hroot : parent ≠ page.root) :
    ∀ forest : List Tree, ∃ added,
      page.Grown (page.insertForest parent forest) parent added
        ∧ (∀ x ∈ added, ¬ page.Has x)
        ∧ added.map (page.insertForest parent forest).treeOf = Tree.firstWinsAll forest
  | [] => ⟨[], by rw [insertForest]; exact .refl h parent, by simp, rfl⟩
  | tree :: rest => by
    obtain ⟨hfirst, hnew, htree⟩ := insertTree_grown page parent h hparent hroot tree
    have hhas : page.Has parent := by
      obtain ⟨_, hp⟩ := Option.isSome_iff_exists.mp hparent
      exact has_of_element? hp
    obtain ⟨added, hrest, hadded, htrees⟩ := insertForest_grown (page.insertTree parent tree).1 parent
      hfirst.wellFormed (by rw [element?_congr (hfirst.kind? parent hhas)]; exact hparent)
      (by rw [hfirst.frame.root]; exact hroot) rest
    refine ⟨(page.insertTree parent tree).2 :: added, ?_, ?_, ?_⟩
    · rw [insertForest]
      exact hfirst.trans hrest
    · intro x hx
      rcases List.mem_cons.mp hx with rfl | hx
      · exact hnew
      · exact fun hpage => hadded x hx (hfirst.has x hpage)
    · have hmem : (page.insertTree parent tree).2 ∈ (page.insertTree parent tree).1.children parent := by
        rw [hfirst.children parent hhas, if_pos rfl]
        simp
      -- the first tree does not hold the parent, so what follows it leaves it alone
      have hkeep := hrest.treeOf hfirst.wellFormed (hfirst.wellFormed.linked.has_child hmem)
        (fun heq => hnew (by rw [heq]; exact hhas))
        (fun habove => hnew (h.linked.has_of_above (hfirst.above_of_above h hhas habove)))
      rw [insertForest, List.map_cons, hkeep, htree, htrees, Tree.firstWinsAll]

end

/-! ## Loading -/

/-- The page shows the document type and the outline. -/
structure Outlined (page : Page) (doctype : Option String) (o : Markup.Outline) : Prop where
  wellFormed : page.WellFormed
  doctype : page.doctype = doctype
  root : page.element? page.root = some o.root
  head : page.element? page.head = some o.head
  body : page.element? page.body = some o.body
  inHead : (page.children page.head).map page.treeOf = o.inHead
  inBody : (page.children page.body).map page.treeOf = o.inBody

theorem parent?_empty (doctype : Option String) :
    (empty doctype).parent? x = if x = ⟨1⟩ ∨ x = ⟨2⟩ then some ⟨0⟩ else none := by
  obtain ⟨_ | _ | _ | n⟩ := x <;> simp [parent?, node?, empty]

theorem children_empty (doctype : Option String) :
    (empty doctype).children x = if x = ⟨0⟩ then [⟨1⟩, ⟨2⟩] else [] := by
  obtain ⟨_ | _ | _ | n⟩ := x <;> simp [children, node?, empty]

/-- The elements of the bare page: root, head and body. -/
theorem element?_empty (doctype : Option String) :
    (empty doctype).element? x
      = if x = ⟨0⟩ then some { tag := "html" }
        else if x = ⟨1⟩ then some { tag := "head" }
        else if x = ⟨2⟩ then some { tag := "body" } else none := by
  obtain ⟨_ | _ | _ | n⟩ := x <;> simp [element?, kind?, node?, empty, NodeKind.element?]

/-- The bare page is well formed. -/
theorem wellFormed_empty (doctype : Option String) : (empty doctype).WellFormed where
  linked :=
    { mem_children_iff := by
        intro p c
        rw [children_empty, parent?_empty]
        by_cases hp : p = ⟨0⟩ <;> by_cases hc : c = ⟨1⟩ ∨ c = ⟨2⟩ <;> simp [hp, hc, eq_comm]
      nodup := by
        intro p
        rw [children_empty]
        split <;> simp
      acyclic := by
        intro id hid
        -- the only parent is the root, which has none itself
        obtain ⟨p, hp, habove⟩ := above_iff.mp hid
        rw [parent?_empty] at hp
        split at hp
        · next hid =>
          obtain rfl := Option.some.inj hp
          rcases habove with rfl | habove
          · simp at hid
          · exact not_above_of_parent?_eq_none (by rw [parent?_empty]; simp) habove
        · cases hp }
  tag?_root := rfl
  tag?_head := rfl
  tag?_body := rfl
  parent?_root := rfl
  children_root := rfl
  leaf id hid := by
    rw [element?_empty] at hid
    rw [children_empty, if_neg]
    rintro rfl
    cases hid
  distinct id el hel := by
    have bare (tag : String) (h : some ({ tag } : Element) = some el) : el.Distinct := by
      rw [← Option.some.inj h]
      exact List.nodup_nil
    rw [element?_empty] at hel
    split at hel
    · exact bare _ hel
    · split at hel
      · exact bare _ hel
      · split at hel
        · exact bare _ hel
        · cases hel

theorem outlined_empty (doctype : Option String) : (empty doctype).Outlined doctype {} :=
  ⟨wellFormed_empty doctype, rfl, rfl, rfl, rfl, rfl, rfl⟩

namespace WellFormed

/-- A child of the head or the body is neither the head nor the body, and above neither. -/
theorem apart_of_parent? (h : page.WellFormed) {a b c : NodeId} (hc : page.parent? c = some a)
    (ha : a = page.head ∨ a = page.body) (hb : b = page.head ∨ b = page.body) :
    c ≠ b ∧ ¬ page.Above c b := by
  have hroot : a ≠ page.root := by
    rcases ha with rfl | rfl
    · exact h.head_ne_root
    · exact h.body_ne_root
  have hfixed := h.not_isFixed_of_parent? hc hroot
  constructor
  · rintro rfl
    exact hfixed (.inr hb)
  · intro habove
    have : c = page.root := by
      rcases hb with rfl | rfl
      · exact h.above_head_iff.mp habove
      · exact h.above_body_iff.mp habove
    exact hfixed (.inl this)

end WellFormed

namespace Outlined

variable {doctype : Option String} {o : Markup.Outline} {added : List NodeId}

section Grow

variable (h : page.Outlined doctype o)

include h

/-- What grows below head or body leaves the trees that were there. -/
theorem kept (hgrown : page.Grown page' parent added)
    (hparent : parent = page.head ∨ parent = page.body) {a : NodeId}
    (ha : a = page.head ∨ a = page.body) :
    (page.children a).map page'.treeOf = (page.children a).map page.treeOf := by
  -- a tree in the head or the body does not hold the head or the body
  refine List.map_congr_left fun c hc => ?_
  have hparent? := (h.wellFormed.linked.mem_children_iff a c).mp hc
  obtain ⟨hne, habove⟩ := h.wellFormed.apart_of_parent? hparent? ha hparent
  exact hgrown.treeOf h.wellFormed (h.wellFormed.linked.has_child hc) hne habove

/-- What is added to the head or the body is added to the outline. -/
theorem grow (hgrown : page.Grown page' parent added) (hparent : parent = page.head ∨ parent = page.body) :
    page'.Outlined doctype
      { o with inHead := o.inHead ++ if page.head = parent then added.map page'.treeOf else [],
               inBody := o.inBody ++ if page.body = parent then added.map page'.treeOf else [] } := by
  have trees {a : NodeId} (ha : a = page.head ∨ a = page.body) (hhas : page.Has a) :
      (page'.children a).map page'.treeOf
        = (page.children a).map page.treeOf ++ if a = parent then added.map page'.treeOf else [] := by
    rw [hgrown.children a hhas]
    split
    · rw [List.map_append, h.kept hgrown hparent ha]
    · rw [h.kept hgrown hparent ha, List.append_nil]
  have hwell := h.wellFormed
  exact
    { wellFormed := hgrown.wellFormed
      doctype := by rw [hgrown.frame.doctype, h.doctype]
      root := by rw [hgrown.frame.root, element?_congr (hgrown.kind? _ hwell.has_root), h.root]
      head := by rw [hgrown.frame.head, element?_congr (hgrown.kind? _ hwell.has_head), h.head]
      body := by rw [hgrown.frame.body, element?_congr (hgrown.kind? _ hwell.has_body), h.body]
      inHead := by rw [hgrown.frame.head, trees (.inl rfl) hwell.has_head, h.inHead]
      inBody := by rw [hgrown.frame.body, trees (.inr rfl) hwell.has_body, h.inBody] }

theorem isSome_element?_head : (page.element? page.head).isSome = true := by rw [h.head]; rfl

theorem isSome_element?_body : (page.element? page.body).isSome = true := by rw [h.body]; rfl

/-- Attributes of a fixed element do not show below it. -/
theorem trees_mapElement {f : Element → Element} (htag : ∀ el, (f el).tag = el.tag)
    (hdistinct : ∀ el, el.Distinct → (f el).Distinct) (hid : page.IsFixed id) {a : NodeId}
    (ha : a ≠ page.root) :
    ((page.mapElement id f).children a).map (page.mapElement id f).treeOf
      = (page.children a).map page.treeOf := by
  have hlinks : page.SameLinks (page.mapElement id f) := mapElement_sameLinks f
  rw [hlinks.children]
  refine List.map_congr_left fun c hc => ?_
  -- going down from a child of a fixed element, no other fixed element is met
  refine h.wellFormed.linked.treeOf_congr (h.wellFormed.mapElement htag hdistinct).linked
    (S := fun a => ¬ page.IsFixed a) ?_ ?_ (fun a _ => hlinks.children a) ?_
  · exact fun a d hfixed hd => h.wellFormed.not_isFixed_of_parent? hd fun heq => hfixed (.inl heq)
  · intro a ha
    refine kind?_mapElement_of_ne f ?_
    rintro rfl
    exact ha hid
  · exact h.wellFormed.not_isFixed_of_parent? ((h.wellFormed.linked.mem_children_iff a c).mp hc) ha

/-- Attributes added to a fixed element. -/
theorem addAttributes (id : NodeId) (given : List Attribute) (hid : page.IsFixed id) :
    (page.addAttributes id given).Outlined doctype
      { o with root := if page.root = id then o.root.addMissing given else o.root,
               head := if page.head = id then o.head.addMissing given else o.head,
               body := if page.body = id then o.body.addMissing given else o.body } := by
  have htag (el : Element) : (el.addMissing given).tag = el.tag := el.tag_addMissing given
  have hdistinct (el : Element) (hel : el.Distinct) : (el.addMissing given).Distinct :=
    hel.addMissing given
  rw [addAttributes_eq]
  refine ⟨h.wellFormed.mapElement htag hdistinct, h.doctype, ?_, ?_, ?_, ?_, ?_⟩
  · rw [(mapElement_sameFrame _).root, element?_mapElement, h.root]
    split <;> rfl
  · rw [(mapElement_sameFrame _).head, element?_mapElement, h.head]
    split <;> rfl
  · rw [(mapElement_sameFrame _).body, element?_mapElement, h.body]
    split <;> rfl
  · rw [(mapElement_sameFrame _).head,
      h.trees_mapElement htag hdistinct hid h.wellFormed.head_ne_root, h.inHead]
  · rw [(mapElement_sameFrame _).body,
      h.trees_mapElement htag hdistinct hid h.wellFormed.body_ne_root, h.inBody]

end Grow

section Place

variable (h : page.Outlined doctype o)

include h

/-- A forest may be inserted into the head. -/
theorem insertHead (forest : List Tree) : (page.insertForest page.head forest).Outlined doctype
    { o with inHead := o.inHead ++ Tree.firstWinsAll forest } := by
  obtain ⟨added, hgrown, _, htrees⟩ := insertForest_grown page page.head h.wellFormed
    h.isSome_element?_head h.wellFormed.head_ne_root forest
  have hgrow := h.grow hgrown (.inl rfl)
  rwa [htrees, if_pos rfl, if_neg h.wellFormed.head_ne_body.symm, List.append_nil] at hgrow

/-- A forest may be inserted into the body. -/
theorem insertBody (forest : List Tree) : (page.insertForest page.body forest).Outlined doctype
    { o with inBody := o.inBody ++ Tree.firstWinsAll forest } := by
  obtain ⟨added, hgrown, _, htrees⟩ := insertForest_grown page page.body h.wellFormed
    h.isSome_element?_body h.wellFormed.body_ne_root forest
  have hgrow := h.grow hgrown (.inr rfl)
  rwa [htrees, if_pos rfl, if_neg h.wellFormed.head_ne_body, List.append_nil] at hgrow

/-- A head of the document is merged into that of the page. -/
theorem mergeHead (given : List Attribute) (forest : List Tree) :
    ((page.addAttributes page.head given).insertForest page.head forest).Outlined doctype
      { o with head := o.head.addMissing given, inHead := o.inHead ++ Tree.firstWinsAll forest } := by
  have hadd := (h.addAttributes page.head given (.inr (.inl rfl))).insertHead forest
  have hroot := h.wellFormed.head_ne_root
  have hbody := h.wellFormed.head_ne_body
  rw [(addAttributes_sameFrame given).head] at hadd
  simpa [hroot.symm, hbody.symm] using hadd

/-- A body of the document is merged into that of the page. -/
theorem mergeBody (given : List Attribute) (forest : List Tree) :
    ((page.addAttributes page.body given).insertForest page.body forest).Outlined doctype
      { o with body := o.body.addMissing given, inBody := o.inBody ++ Tree.firstWinsAll forest } := by
  have hadd := (h.addAttributes page.body given (.inr (.inr rfl))).insertBody forest
  have hroot := h.wellFormed.body_ne_root
  have hhead := h.wellFormed.head_ne_body
  rw [(addAttributes_sameFrame given).body] at hadd
  simpa [hroot.symm, hhead] using hadd

/-- One child of a root lands where the outline has it. -/
theorem placeTop (tree : Tree) : (page.placeTop tree).Outlined doctype (o.placeTop tree) := by
  have intoBody : (page.insertTree page.body tree).1.Outlined doctype
      { o with inBody := o.inBody ++ [tree.firstWins] } := h.insertBody [tree]
  -- both make the same choices, so the cases of one are the cases of the other
  unfold Page.placeTop Markup.Outline.placeTop
  split
  · exact h
  · cases tree with
    | text content => exact intoBody
    | comment content => exact intoBody
    | element el children =>
      by_cases hhead : (el.tag == "head") = true
      · simp only [hhead, if_true]
        exact h.mergeHead el.attributes children
      · by_cases hbody : (el.tag == "body") = true
        · simp only [hhead, hbody, if_true, if_false, Bool.false_eq_true]
          exact h.mergeBody el.attributes children
        · simp only [hhead, hbody, if_false, Bool.false_eq_true]
          exact intoBody

end Place

/-- All children of a root. By induction on them. -/
theorem foldl_placeTop (forest : List Tree) (h : page.Outlined doctype o) :
    (forest.foldl Page.placeTop page).Outlined doctype (forest.foldl Markup.Outline.placeTop o) := by
  induction forest generalizing page o with
  | nil => exact h
  | cons tree forest ih => exact ih (h.placeTop tree)

/-- One node of the document lands where the outline has it. -/
theorem placeNode (h : page.Outlined doctype o) (tree : Tree) :
    (page.placeNode tree).Outlined doctype (o.placeNode tree) := by
  cases tree with
  | text content => exact h.placeTop _
  | comment content => exact h.placeTop _
  | element el children =>
    rw [Page.placeNode, Markup.Outline.placeNode]
    split
    · have hadd := h.addAttributes page.root el.attributes (.inl rfl)
      rw [if_pos rfl, if_neg h.wellFormed.head_ne_root, if_neg h.wellFormed.body_ne_root] at hadd
      exact hadd.foldl_placeTop children
    · exact h.placeTop _

/-- All nodes of the document. By induction on them. -/
theorem foldl_placeNode (forest : List Tree) (h : page.Outlined doctype o) :
    (forest.foldl Page.placeNode page).Outlined doctype (forest.foldl Markup.Outline.placeNode o) := by
  induction forest generalizing page o with
  | nil => exact h
  | cons tree forest ih => exact ih (h.placeNode tree)

/-- The two counters do not show. -/
theorem withCounters (h : page.Outlined doctype o) (budget : Css.Budget) (nextGenerated : Nat) :
    ({ page with budget, nextGenerated } : Page).Outlined doctype o :=
  have hwell := h.wellFormed.withCounters budget nextGenerated
  have trees (ids : List NodeId) :
      ids.map ({ page with budget, nextGenerated } : Page).treeOf = ids.map page.treeOf :=
    List.map_congr_left fun _ _ =>
      h.wellFormed.linked.treeOf_congr hwell.linked (fun _ _ _ _ => trivial) (fun _ _ => rfl)
        (fun _ _ => rfl) trivial
  ⟨hwell, h.doctype, h.root, h.head, h.body,
    (trees _).trans h.inHead, (trees _).trans h.inBody⟩

/-- The attached tree is that of the outline. -/
theorem toDocument (h : page.Outlined doctype o) : page.toDocument = ⟨doctype, [o.toTree]⟩ := by
  have hlinked := h.wellFormed.linked
  rw [Page.toDocument, h.doctype, hlinked.treeOf_element (element?_eq_some_iff.mp h.root),
    h.wellFormed.children_root, List.map_cons, List.map_singleton,
    hlinked.treeOf_element (element?_eq_some_iff.mp h.head),
    hlinked.treeOf_element (element?_eq_some_iff.mp h.body), h.inHead, h.inBody]
  rfl

end Outlined

/-- A loaded page shows the outline of its document. -/
theorem outlined_ofDocument (d : Document) : (ofDocument d).Outlined d.doctype d.outline :=
  ((outlined_empty d.doctype).foldl_placeNode d.nodes).withCounters _ _

theorem ofDocument_wellFormed (d : Document) : (ofDocument d).WellFormed :=
  (outlined_ofDocument d).wellFormed

theorem toDocument_ofDocument (d : Document) :
    (ofDocument d).toDocument = ⟨d.doctype, [d.outline.toTree]⟩ :=
  (outlined_ofDocument d).toDocument

end Page

end AmpTuner
