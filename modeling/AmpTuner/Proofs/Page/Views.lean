import AmpTuner.Page.Stylesheet

/-!
# What reads show after writes

A page is read through three views: the kind of a node, its parent and its children. Every other
read is a function of these. Here is, for every primitive write, what the three views show after it;
the theory of links, of loading and of the passes is written over these equations and does not open
the store again.

* **`update`** is the only write to a node that exists, and **`create`** the only one that adds one.
* A **move** is a `detach` or an `attach`; the others are made of these two.
* `SameFrame` says that a write leaves everything but the store alone: the document type, the three
  fixed elements, the budget and the counter of identifiers.
-/

namespace AmpTuner

theorem NodeId.eq_iff_index (x y : NodeId) : x = y ↔ x.index = y.index := by
  cases x; cases y; simp

/-- Only what is in the list is asked. -/
theorem any_congr_of_mem {ids : List NodeId} {p q : NodeId → Bool} (h : ∀ x ∈ ids, p x = q x) :
    ids.any p = ids.any q := by
  rw [Bool.eq_iff_iff, List.any_eq_true, List.any_eq_true]
  exact exists_congr fun x => and_congr_right fun hx => by rw [h x hx]

theorem not_mem_front_of_nodup {front back : List NodeId} {x : NodeId} (h : (front ++ x :: back).Nodup) : x ∉ front :=
  fun hx => (List.nodup_append.mp h).2.2 x hx x List.mem_cons_self rfl

namespace Page

open Markup (Element)

/-- The node is in the store. -/
def Has (page : Page) (id : NodeId) : Prop := id.index < page.nodes.size

/-- `page'` differs from `page` at most in its store. -/
structure SameFrame (page page' : Page) : Prop where
  eq : page' = { page with nodes := page'.nodes }

namespace SameFrame

variable {page page' page'' : Page}

theorem refl (page : Page) : page.SameFrame page := ⟨rfl⟩

theorem trans (h : page.SameFrame page') (h' : page'.SameFrame page'') : page.SameFrame page'' :=
  ⟨by rw [h'.eq, h.eq]⟩

theorem doctype (h : page.SameFrame page') : page'.doctype = page.doctype := by rw [h.eq]
theorem root (h : page.SameFrame page') : page'.root = page.root := by rw [h.eq]
theorem head (h : page.SameFrame page') : page'.head = page.head := by rw [h.eq]
theorem body (h : page.SameFrame page') : page'.body = page.body := by rw [h.eq]
theorem budget (h : page.SameFrame page') : page'.budget = page.budget := by rw [h.eq]

end SameFrame

variable (page : Page) (id x : NodeId)

/-! ## Existence -/

theorem node?_eq_none_iff : page.node? x = none ↔ ¬ page.Has x := by
  simp [node?, Has]

theorem kind?_eq_none_iff : page.kind? x = none ↔ ¬ page.Has x := by
  simp [kind?, node?_eq_none_iff]

variable {page id x}

theorem has_of_kind? {kind : NodeKind} (h : page.kind? x = some kind) : page.Has x := by
  refine Classical.byContradiction fun hx => ?_
  rw [(page.kind?_eq_none_iff x).mpr hx] at h
  cases h

theorem has_of_element? {el : Element} (h : page.element? x = some el) : page.Has x := by
  obtain ⟨kind, hkind, _⟩ := Option.bind_eq_some_iff.mp h
  exact has_of_kind? hkind

theorem has_of_parent? {p : NodeId} (h : page.parent? x = some p) : page.Has x := by
  refine Classical.byContradiction fun hx => ?_
  rw [parent?, (page.node?_eq_none_iff x).mpr hx] at h
  cases h

theorem exists_kind?_of_has (h : page.Has x) : ∃ kind, page.kind? x = some kind := by
  cases hkind : page.kind? x with
  | none => exact absurd h ((page.kind?_eq_none_iff x).mp hkind)
  | some kind => exact ⟨kind, rfl⟩

/-- A node is there where it has a kind. -/
theorem has_congr {page' : Page} (h : page'.kind? x = page.kind? x) : page'.Has x ↔ page.Has x := by
  constructor <;> intro hx <;> obtain ⟨kind, hkind⟩ := exists_kind?_of_has hx
  · exact has_of_kind? (h.symm.trans hkind)
  · exact has_of_kind? (h.trans hkind)

theorem has_of_mem_children {c : NodeId} (h : c ∈ page.children x) : page.Has x := by
  refine Classical.byContradiction fun hx => ?_
  rw [children, (page.node?_eq_none_iff x).mpr hx] at h
  simp at h

theorem parent?_of_not_has (h : ¬ page.Has x) : page.parent? x = none := by
  rw [parent?, (page.node?_eq_none_iff x).mpr h]; rfl

theorem children_of_not_has (h : ¬ page.Has x) : page.children x = [] := by
  rw [children, (page.node?_eq_none_iff x).mpr h]; rfl

theorem element?_eq_some_iff {el : Element} :
    page.element? x = some el ↔ page.kind? x = some (.element el) := by
  rw [element?]
  cases hkind : page.kind? x with
  | none => simp
  | some kind => cases kind <;> simp [NodeKind.element?]

/-- Reads of an element are reads of its kind. -/
theorem element?_congr {page' : Page} {x' : NodeId} (h : page'.kind? x' = page.kind? x) :
    page'.element? x' = page.element? x := by
  rw [element?, element?, h]

theorem isTag_iff {tag : String} :
    page.isTag x tag = true ↔ ∃ el, page.element? x = some el ∧ el.tag = tag := by
  simp [isTag, tag?]

/-- The test for a tag is a test of the element. -/
theorem isTag_eq_isElement {tag : String} : page.isTag x tag = page.isElement x (·.tag == tag) := by
  rw [isTag, tag?, isElement]
  cases page.element? x with
  | none => rfl
  | some el => simp

theorem isElement_iff {p : Element → Bool} :
    page.isElement x p = true ↔ ∃ el, page.element? x = some el ∧ p el = true := by
  simp [isElement, Option.any_eq_true]

theorem hasAttribute_of_element? {el : Element} {name : String} (hel : page.element? x = some el) :
    page.hasAttribute x name = el.hasAttribute name := by
  rw [hasAttribute, isElement, hel, Option.any_some]

/-- A test of elements passes over texts and comments. -/
theorem find?_elementChildren (p : Element → Bool) :
    (page.elementChildren x).find? (page.isElement · p) = (page.children x).find? (page.isElement · p) := by
  rw [elementChildren, List.find?_filter]
  congr 1
  funext c
  cases hel : page.element? c <;> simp [isElement, hel]

/-! ## Updates in place -/

section Update

variable (f : Node → Node)

theorem update_sameFrame : page.SameFrame (page.update id f) := ⟨rfl⟩

/-- Updating a node changes that node. -/
theorem node?_update :
    (page.update id f).node? x = if x = id then (page.node? x).map f else page.node? x := by
  simp only [node?, update, Array.getElem?_modify, NodeId.eq_iff_index]
  by_cases h : x.index = id.index
  · simp [h]
  · simp [h, Ne.symm h]

theorem has_update : (page.update id f).Has x ↔ page.Has x := by
  simp [Has, update]

variable {f} in
/-- A write that changes nothing in its node changes nothing. -/
theorem update_eq_self (h : ∀ node, page.node? id = some node → f node = node) : page.update id f = page := by
  have hnodes : page.nodes.modify id.index f = page.nodes := by
    refine Array.ext_getElem? fun i => ?_
    rw [Array.getElem?_modify]
    split
    · next heq =>
      subst heq
      cases hnode : page.nodes[id.index]? with
      | none => rfl
      | some node => rw [Option.map_some, h node hnode]
    · rfl
  rw [update, hnodes]

/-- What a node is after an update. -/
theorem kind?_update :
    (page.update id f).kind? x
      = if x = id then (page.node? x).map fun n => (f n).kind else page.kind? x := by
  simp only [kind?, node?_update]
  split <;> simp [Function.comp_def]

/-- The parent of a node after an update. -/
theorem parent?_update :
    (page.update id f).parent? x
      = if x = id then (page.node? x).bind fun n => (f n).parent else page.parent? x := by
  simp only [parent?, node?_update]
  split
  · exact Option.bind_map ..
  · rfl

/-- The children of a node after an update. -/
theorem children_update :
    (page.update id f).children x
      = if x = id then ((page.node? x).map fun n => (f n).children).getD [] else page.children x := by
  simp only [children, node?_update]
  split <;> simp [Function.comp_def]

end Update

/-! ## Changing what a node holds -/

/-- No link differs between the two pages. -/
structure SameLinks (page page' : Page) : Prop where
  parent? : ∀ x, page'.parent? x = page.parent? x
  children : ∀ x, page'.children x = page.children x

namespace SameLinks

variable {page page' page'' : Page}

theorem refl (page : Page) : page.SameLinks page := ⟨fun _ => rfl, fun _ => rfl⟩

theorem trans (h : page.SameLinks page') (h' : page'.SameLinks page'') : page.SameLinks page'' :=
  ⟨fun x => (h'.parent? x).trans (h.parent? x), fun x => (h'.children x).trans (h.children x)⟩

end SameLinks

/-- An update that keeps parent and children keeps all links. -/
theorem update_sameLinks {f : Node → Node} (hparent : ∀ n, (f n).parent = n.parent)
    (hchildren : ∀ n, (f n).children = n.children) : page.SameLinks (page.update id f) := by
  constructor
  · intro x
    rw [parent?_update]
    split
    · simp only [hparent, Page.parent?]
    · rfl
  · intro x
    rw [children_update]
    split
    · simp only [hchildren, Page.children]
    · rfl

section MapElement

variable (f : Element → Element)

theorem mapElement_sameFrame : page.SameFrame (page.mapElement id f) := ⟨rfl⟩

theorem mapElement_sameLinks : page.SameLinks (page.mapElement id f) :=
  update_sameLinks (fun _ => rfl) (fun _ => rfl)

theorem has_mapElement : (page.mapElement id f).Has x ↔ page.Has x := has_update _

/-- Changing an element changes that node only. -/
theorem kind?_mapElement :
    (page.mapElement id f).kind? x
      = if x = id then (page.kind? x).map (·.mapElement f) else page.kind? x := by
  rw [mapElement, kind?_update]
  split <;> simp [kind?, Function.comp_def]

/-- The element after the change. -/
theorem element?_mapElement :
    (page.mapElement id f).element? x
      = if x = id then (page.element? x).map f else page.element? x := by
  rw [element?, kind?_mapElement]
  split
  · rw [element?]
    cases page.kind? x with
    | none => rfl
    | some kind => cases kind <;> rfl
  · rfl

theorem kind?_mapElement_of_ne (h : x ≠ id) : (page.mapElement id f).kind? x = page.kind? x := by
  rw [kind?_mapElement, if_neg h]

end MapElement

theorem setContent_sameFrame (content : String) : page.SameFrame (page.setContent id content) :=
  ⟨rfl⟩

theorem setContent_sameLinks (content : String) : page.SameLinks (page.setContent id content) :=
  update_sameLinks (fun n => by split <;> rfl) (fun n => by split <;> rfl)

theorem kind?_setContent_of_ne {content : String} (h : x ≠ id) :
    (page.setContent id content).kind? x = page.kind? x := by
  rw [setContent, kind?_update, if_neg h]

/-- A text has the content that was written. -/
theorem kind?_setContent_text {content content' : String} (h : page.kind? id = some (.text content)) :
    (page.setContent id content').kind? id = some (.text content') := by
  obtain ⟨⟨kind, parent, children⟩, hnode, rfl⟩ := Option.map_eq_some_iff.mp h
  rw [setContent, kind?_update, if_pos rfl, hnode]
  rfl

/-- A text that is written again stays as it is. -/
theorem setContent_eq_self {content : String} (h : page.kind? id = some (.text content)) :
    page.setContent id content = page := by
  refine update_eq_self fun node hnode => ?_
  rw [kind?, hnode, Option.map_some] at h
  obtain ⟨kind, parent, children⟩ := node
  obtain rfl := Option.some.inj h
  rfl

/-- The content of a node never turns it into an element, or an element into something else. -/
theorem element?_setContent (content : String) :
    (page.setContent id content).element? x = page.element? x := by
  rw [element?, setContent, kind?_update]
  split
  · rw [element?, kind?]
    cases page.node? x with
    | none => rfl
    | some n =>
      obtain ⟨kind, _, _⟩ := n
      cases kind <;> rfl
  · rfl

/-! ## Creating -/

section Create

variable (kind : NodeKind)

/-- The node that is created next. -/
def next (page : Page) : NodeId := ⟨page.nodes.size⟩

theorem not_has_next : ¬ page.Has page.next := Nat.lt_irrefl _

theorem ne_next_of_has (h : page.Has x) : x ≠ page.next := by
  rintro rfl
  exact not_has_next h

theorem create_sameFrame : page.SameFrame (page.create kind).1 := ⟨rfl⟩

theorem has_create : (page.create kind).1.Has x ↔ page.Has x ∨ x = page.next := by
  simp only [Has, create, Array.size_push, next, NodeId.eq_iff_index]
  omega

theorem node?_create :
    (page.create kind).1.node? x = if x = page.next then some { kind } else page.node? x := by
  simp only [node?, create, Array.getElem?_push, next, NodeId.eq_iff_index]

theorem kind?_create :
    (page.create kind).1.kind? x = if x = page.next then some kind else page.kind? x := by
  simp only [kind?, node?_create]
  split <;> rfl

/-- A new node does not touch the links. -/
theorem create_sameLinks : page.SameLinks (page.create kind).1 := by
  constructor
  · intro x
    rw [parent?, node?_create]
    split
    · next h => rw [h, parent?_of_not_has not_has_next]; rfl
    · rfl
  · intro x
    rw [children, node?_create]
    split
    · next h => rw [h, children_of_not_has not_has_next]; rfl
    · rfl

theorem kind?_create_of_has (h : page.Has x) : (page.create kind).1.kind? x = page.kind? x := by
  rw [kind?_create, if_neg (ne_next_of_has h)]

theorem kind?_create_next : (page.create kind).1.kind? page.next = some kind := by
  rw [kind?_create, if_pos rfl]

end Create

/-! ## Moves -/

section Detach

/-- Detaching does not touch the frame. -/
theorem detach_sameFrame : page.SameFrame (page.detach id) := by
  rw [detach]
  split
  · exact .refl _
  · exact (update_sameFrame _).trans (update_sameFrame _)

/-- Detached nodes are still there. -/
theorem has_detach : (page.detach id).Has x ↔ page.Has x := by
  rw [detach]
  split
  · rfl
  · rw [has_update, has_update]

/-- Detached nodes stay what they are. -/
theorem kind?_detach : (page.detach id).kind? x = page.kind? x := by
  rw [detach]
  split
  · rfl
  · rw [kind?_update, kind?_update]
    simp only [node?_update, kind?]
    split <;> split <;> simp [Function.comp_def]

/-- A detached node has no parent. -/
theorem parent?_detach :
    (page.detach id).parent? x = if x = id then none else page.parent? x := by
  rw [detach]
  split
  · next h =>
    split
    · next hx => rw [hx, h]
    · rfl
  · rw [parent?_update, parent?_update]
    simp only [node?_update, parent?]
    split <;> split <;> simp

/-- A detached node is gone from the children of its parent. -/
theorem children_detach :
    (page.detach id).children x
      = if page.parent? id = some x then (page.children x).filter (· != id)
        else page.children x := by
  rw [detach]
  split
  · next h => simp [h]
  · next parent h =>
    -- two nodes are written, the parent and the child, and they may be the same one
    rw [h, children_update, children_update]
    simp only [node?_update, children, Option.some.injEq, eq_comm (a := x)]
    split
    · split <;> cases page.node? x <;> simp
    · split <;> simp

end Detach

section Attach

variable {parent child : NodeId} {place : List NodeId → List NodeId}

theorem attach_sameFrame : page.SameFrame (page.attach parent child place) := by
  rw [attach]
  exact (detach_sameFrame.trans (update_sameFrame _)).trans (update_sameFrame _)

theorem has_attach : (page.attach parent child place).Has x ↔ page.Has x := by
  rw [attach, has_update, has_update, has_detach]

/-- Attaching does not change what nodes are. -/
theorem kind?_attach : (page.attach parent child place).kind? x = page.kind? x := by
  rw [attach, kind?_update, kind?_update]
  have h : (page.detach child).kind? x = page.kind? x := kind?_detach
  simp only [node?_update, kind?] at h ⊢
  rw [← h]
  split <;> split <;> simp [Function.comp_def]

/-- Attaching a node does not concern the parents of the others, whether it is on the page or not. -/
theorem parent?_attach_of_ne (hx : x ≠ child) :
    (page.attach parent child place).parent? x = page.parent? x := by
  rw [attach, parent?_update, if_neg hx, parent?_update]
  split
  · have hdetached : (page.detach child).parent? x = page.parent? x := by
      rw [parent?_detach, if_neg hx]
    rw [← hdetached, parent?]
  · rw [parent?_detach, if_neg hx]

/-- An attached node has its new parent. -/
theorem parent?_attach (hchild : page.Has child) :
    (page.attach parent child place).parent? x
      = if x = child then some parent else page.parent? x := by
  split
  · next hx =>
    -- the child is in the store, so that there is a node to write to
    have hn : ((page.detach child).update parent
        fun n => { n with children := place n.children }).node? x ≠ none := by
      rw [Ne, node?_eq_none_iff, has_update, has_detach, hx]
      exact not_not_intro hchild
    obtain ⟨n, hn⟩ := Option.ne_none_iff_exists'.mp hn
    rw [attach, parent?_update, if_pos hx, hn]
    rfl
  · next hx => exact parent?_attach_of_ne hx

/-- An attached node is in its place among the children of its new parent. -/
theorem children_attach (hparent : page.Has parent) :
    (page.attach parent child place).children x
      = if x = parent then place ((page.detach child).children x)
        else (page.detach child).children x := by
  rw [attach, children_update, children_update]
  simp only [node?_update]
  -- detaching comes first, also where parent and child are linked already
  by_cases hx : x = parent
  · have hn : (page.detach child).node? x ≠ none := by
      rw [Ne, node?_eq_none_iff, has_detach, hx]
      exact not_not_intro hparent
    obtain ⟨n, hn⟩ := Option.ne_none_iff_exists'.mp hn
    rw [if_pos hx, if_pos hx, if_pos hx, children, hn]
    split <;> rfl
  · rw [if_neg hx, if_neg hx, if_neg hx]
    split <;> rfl

end Attach

/-! ## Writes that change no kind -/

/-- No node that was there is anything else now. -/
structure SameKinds (page page' : Page) : Prop where
  kind? : ∀ x, page.Has x → page'.kind? x = page.kind? x

namespace SameKinds

variable {page page' page'' : Page}

theorem has (h : page.SameKinds page') (hx : page.Has x) : page'.Has x := (has_congr (h.kind? x hx)).mpr hx

theorem refl (page : Page) : page.SameKinds page := ⟨fun _ _ => rfl⟩

theorem trans (h : page.SameKinds page') (h' : page'.SameKinds page'') : page.SameKinds page'' :=
  ⟨fun x hx => (h'.kind? x (h.has hx)).trans (h.kind? x hx)⟩

theorem element? (h : page.SameKinds page') {el : Element} (hx : page.element? x = some el) :
    page'.element? x = some el := by
  rw [element?_congr (h.kind? x (has_of_element? hx)), hx]

end SameKinds

theorem create_sameKinds (kind : NodeKind) : page.SameKinds (page.create kind).1 :=
  ⟨fun _ hx => kind?_create_of_has kind hx⟩

theorem attach_sameKinds {parent child : NodeId} {place : List NodeId → List NodeId} :
    page.SameKinds (page.attach parent child place) :=
  ⟨fun _ _ => kind?_attach⟩

end Page

end AmpTuner
