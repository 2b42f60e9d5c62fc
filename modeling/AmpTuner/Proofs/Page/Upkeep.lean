import AmpTuner.Proofs.Page.Stylesheet

/-!
# Writes in sequence

A chain of writes keeps a page well-formed when each one does, but what a later write needs is often known
of the first page only: that a node is one of the fixed elements or not, and which tag it has. `Maintains`
carries this along.

* **`Maintains.trans`** chains writes, **`WellFormed.maintains_foldl`** repeats one; there is a lemma for
  each write, named after it.
* **`createFilled`** is a new element with a text in it, which has no place yet.
-/

namespace AmpTuner.Page

open Markup (Element)

variable {page page' page'' : Page} {id x : NodeId}

/-- The other page is well-formed, around the same fixed elements, and no element has changed its tag. -/
structure Maintains (page page' : Page) : Prop where
  wellFormed : page'.WellFormed
  root : page'.root = page.root
  head : page'.head = page.head
  body : page'.body = page.body
  tag? : ∀ x tag, page.tag? x = some tag → page'.tag? x = some tag

namespace Maintains

theorem refl (h : page.WellFormed) : page.Maintains page := ⟨h, rfl, rfl, rfl, fun _ _ htag => htag⟩

/-- Two changes that maintain the page, one after the other. -/
theorem trans (h : page.Maintains page') (h' : page'.Maintains page'') : page.Maintains page'' where
  wellFormed := h'.wellFormed
  root := h'.root.trans h.root
  head := h'.head.trans h.head
  body := h'.body.trans h.body
  tag? x tag htag := h'.tag? x tag (h.tag? x tag htag)

/-- A change that keeps the page well formed and every node as it was. -/
theorem of_sameKinds (hwell : page'.WellFormed) (hframe : page.SameFrame page')
    (hkinds : page.SameKinds page') : page.Maintains page' where
  wellFormed := hwell
  root := hframe.root
  head := hframe.head
  body := hframe.body
  tag? y tag htag := by rw [tag?_congr (hkinds.kind? y (has_of_tag? htag)), htag]

theorem not_isFixed_next (h : page.Maintains page') (hwell : page.WellFormed) : ¬ page'.IsFixed page.next := by
  rw [IsFixed, h.root, h.head, h.body]
  exact fun hfixed => not_has_next (hwell.has_of_isFixed hfixed)

/-- What was an element is one. -/
theorem isSome_element? (h : page.Maintains page') {tag : String} (hx : page.tag? x = some tag) :
    (page'.element? x).isSome = true := by
  obtain ⟨el, hel, -⟩ := Option.map_eq_some_iff.mp (h.tag? x tag hx)
  rw [hel]
  rfl

end Maintains

namespace WellFormed

variable (h : page.WellFormed)

include h

/-- A loop maintains a page if one turn does. -/
theorem maintains_foldl {α : Type} {step : Page → α → Page} {items : List α}
    (hstep : ∀ p : Page, page.Maintains p → ∀ a ∈ items, p.Maintains (step p a)) :
    page.Maintains (items.foldl step page) := by
  -- what is left to do shrinks while the items that a turn may be given stay the same
  have run (todo : List α) (htodo : ∀ a ∈ todo, a ∈ items) (p : Page) (hp : page.Maintains p) :
      page.Maintains (todo.foldl step p) := by
    induction todo generalizing p with
    | nil => exact hp
    | cons a todo ih =>
      obtain ⟨ha, htodo⟩ := List.forall_mem_cons.mp htodo
      exact ih htodo _ (hp.trans (hstep p hp a ha))
  exact run items (fun _ ha => ha) page (.refl h)

/-! ## One lemma for each write -/

/-- A change to an element that keeps its tag and its distinct names. -/
theorem maintains_mapElement {f : Element → Element} (htag : ∀ el, (f el).tag = el.tag)
    (hdistinct : ∀ el, el.Distinct → (f el).Distinct) : page.Maintains (page.mapElement id f) where
  wellFormed := h.mapElement htag hdistinct
  root := rfl
  head := rfl
  body := rfl
  tag? y tag hy := by rw [tag?_mapElement htag, hy]

theorem maintains_setAttribute {name value : String} : page.Maintains (page.setAttribute id name value) :=
  h.maintains_mapElement (fun _ => rfl) (fun _ hel => hel.set)

/-- Writing the content of a text. -/
theorem maintains_setContent {content : String} : page.Maintains (page.setContent id content) where
  wellFormed := h.setContent
  root := rfl
  head := rfl
  body := rfl
  tag? y tag hy := by rwa [Page.tag?, element?_setContent]

theorem maintains_create {kind : NodeKind} (hkind : ∀ el, kind = .element el → el.Distinct) :
    page.Maintains (page.create kind).1 :=
  .of_sameKinds (h.create hkind) (create_sameFrame kind) (create_sameKinds kind)

/-- A new element without a parent. -/
theorem maintains_createElement (tag : String) (given : List (String × String)) :
    page.Maintains (page.createElement tag given).1 := by
  refine h.maintains_create fun el hel => ?_
  obtain rfl := NodeKind.element.inj hel
  exact Element.distinct_make _ _

theorem maintains_detachAll {ids : List NodeId} (hids : ∀ y ∈ ids, y ≠ page.head ∧ y ≠ page.body) :
    page.Maintains (page.detachAll ids) :=
  .of_sameKinds (h.detachAll hids) (detachAll_sameFrame ids) (detachAll_sameKinds ids)

theorem maintains_detachAll_head {ids : List NodeId} (hids : ∀ y ∈ ids, page.Above page.head y) :
    page.Maintains (page.detachAll ids) :=
  .of_sameKinds (h.detachAll_head hids) (detachAll_sameFrame ids) (detachAll_sameKinds ids)

section Attach

variable {parent child : NodeId} {place : List NodeId → List NodeId}

theorem maintains_attach_head (hchild : page.Has child) (hfixed : ¬ page.IsFixed child)
    (hplace : IsPlacement child place) : page.Maintains (page.attach page.head child place) :=
  .of_sameKinds (h.attach_head hchild hfixed hplace) attach_sameFrame attach_sameKinds

/-- Attaching a new element somewhere. -/
theorem maintains_attachNew {el : Element} (hdistinct : el.Distinct)
    (hparent : (page.element? parent).isSome = true) (hroot : parent ≠ page.root)
    (hplace : IsPlacement page.next place) :
    page.Maintains (page.attachNew (.element el) parent place) := by
  refine .of_sameKinds (h.attachNew (fun el' hel' => ?_) hparent hroot hplace) attachNew_sameFrame
    attachNew_sameKinds
  obtain rfl := NodeKind.element.inj hel'
  exact hdistinct

theorem maintains_attachNew_head {el : Element} (hdistinct : el.Distinct)
    (hplace : IsPlacement page.next place) :
    page.Maintains (page.attachNew (.element el) page.head place) :=
  h.maintains_attachNew hdistinct h.isSome_element?_head h.head_ne_root hplace

end Attach

theorem maintains_setTextContent {content : String} (hid : (page.element? id).isSome = true)
    (hroot : id ≠ page.root) : page.Maintains (page.setTextContent id content) :=
  .of_sameKinds (h.setTextContent hid hroot) (setTextContent_sameFrame content)
    (setTextContent_sameKinds content)

end WellFormed

/-! ## New elements with a text -/

/-- A new element with a text in it. -/
def createFilled (page : Page) (tag : String) (given : List (String × String)) (content : String) :
    Page :=
  (page.createElement tag given).1.setTextContent page.next content

section CreateFilled

variable {tag : String} {given : List (String × String)} {content : String}

theorem createFilled_sameKinds : page.SameKinds (page.createFilled tag given content) :=
  (create_sameKinds _).trans (setTextContent_sameKinds content)

theorem element?_createFilled :
    (page.createFilled tag given content).element? page.next = some (.make tag given) :=
  (setTextContent_sameKinds content).element? (element?_eq_some_iff.mpr (kind?_create_next _))

/-- Making an element with a text maintains the page. -/
theorem WellFormed.maintains_createFilled (h : page.WellFormed) :
    page.Maintains (page.createFilled tag given content) := by
  have hnew := h.maintains_createElement tag given
  have hel : (page.createElement tag given).1.element? page.next = some (.make tag given) :=
    element?_eq_some_iff.mpr (kind?_create_next _)
  refine hnew.trans (hnew.wellFormed.maintains_setTextContent (by rw [hel]; rfl) ?_)
  exact fun heq => hnew.not_isFixed_next h (.inl heq)

/-- No old node moves when it is made. -/
theorem WellFormed.parent?_createFilled (h : page.WellFormed) {x : NodeId} (hx : page.Has x) :
    (page.createFilled tag given content).parent? x = page.parent? x := by
  have hlinks : page.SameLinks (page.createElement tag given).1 := create_sameLinks _
  have hcreated : (page.createElement tag given).1.Has x := (create_sameKinds _).has hx
  have hparent : page.parent? x ≠ some page.next := fun hp => not_has_next (h.linked.has_parent hp)
  have htext : x ∉ (page.createElement tag given).1.textNodes content := by
    rw [textNodes]
    split
    · simp
    · simpa using ne_next_of_has hcreated
  rw [createFilled, (hlinks.linked h.linked).parent?_setTextContent, if_neg htext, hlinks.parent?,
    if_neg hparent]

end CreateFilled

end AmpTuner.Page
