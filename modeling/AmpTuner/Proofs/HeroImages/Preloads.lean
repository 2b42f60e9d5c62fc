import AmpTuner.Proofs.Pass.Settled

/-!
# The images that are preloaded

A run looks at the first heroes of the page, as many as the settings allow, and passes over those that are done. So
a later run, which finds the same heroes, must not go on to the next ones in their place.

* **`Adds`** is the page with some images preloaded and no other change: for each of them a link behind the children
  of the head, an image behind its own children, and the mark. **`exists_adds_preload`** makes one such addition, and
  **`Adds.trans`** puts additions together.
* **`heroes_preload`** and **`settled_run`**: what is added is no hero, so that the next run finds the same images,
  and nothing to do at them.
* **`Preloads`** says which images are preloaded, and **`preloads_run`** is about the first run and all runs behind it.
-/

namespace AmpTuner.HeroImages

open Markup (Element)

variable {s : Settings.HeroImages} {page page' page'' : Page} {id x : NodeId} {ids : List NodeId} {image el : Element}
  {source name other target : String}

/-! ## The new elements -/

/-- The element has a browser load the image early. -/
structure IsPreloadLink (image el : Element) : Prop where
  tag : el.tag = "link"
  attribute? : ∀ name, el.attribute? name =
    if name = "imagesizes" ∧ image.hasAttribute "srcset" = true then image.attribute? "sizes"
    else if name = "imagesrcset" then image.attribute? "srcset"
    else if name = "href" then image.attribute? "src"
    else if name = "as" then some "image"
    else if name = "rel" then some "preload"
    else none

/-- The element is what becomes of the image when it is rendered. -/
structure IsRendering (image el : Element) : Prop where
  tag : el.tag = "img"
  attribute? : ∀ name, el.attribute? name =
    if name = "class" then some "i-amphtml-fill-content i-amphtml-replaced-content"
    else if name = "decoding" then some "async"
    else if name ∈ ["src", "srcset", "sizes", "alt", "referrerpolicy"] then image.attribute? name
    else none

/-- Copying an attribute under another name. -/
theorem attribute?_setAll_copied : (el.setAll (copied image name target)).attribute? other
    = if other = target then (image.attribute? name).or (el.attribute? target) else el.attribute? other := by
  rw [copied]
  cases image.attribute? name with
  | none =>
    show el.attribute? other = _
    split
    · next hother => rw [hother, Option.none_or]
    · rfl
  | some value => exact Element.attribute?_set

/-- Copying a list of attributes under their own names. -/
theorem attribute?_setAll_flatMap_copied (names : List String) :
    (el.setAll (names.flatMap fun name => copied image name name)).attribute? other
      = if other ∈ names then (image.attribute? other).or (el.attribute? other) else el.attribute? other := by
  induction names generalizing el with
  | nil => rfl
  | cons name names ih =>
    rw [List.flatMap_cons, Element.setAll_append, ih, attribute?_setAll_copied]
    by_cases hother : other = name
    · subst hother
      cases image.attribute? other <;> simp
    · simp [hother]

/-- The link that is written is the one to preload the image. -/
theorem isPreloadLink_make (hsource : image.attribute? "src" = some source) :
    IsPreloadLink image (.make "link" (preloadAttributes image source)) where
  tag := Element.tag_make _ _
  attribute? name := by
    have hfirst (name : String) :
        (({ tag := "link" } : Element).setAll [("rel", "preload"), ("as", "image"), ("href", source)]).attribute? name
          = if name = "href" then some source else if name = "as" then some "image"
            else if name = "rel" then some "preload" else none := by
      simp only [Element.setAll, List.foldl_cons, List.foldl_nil, Element.attribute?_set]
      rfl
    rw [Element.make, preloadAttributes, Element.setAll_append, hsource]
    split
    · next hsrcset =>
      simp only [Element.setAll_append, attribute?_setAll_copied, hfirst]
      simp [hsrcset]
    · next hsrcset =>
      have hnone : image.attribute? "srcset" = none := by simpa [Element.hasAttribute_eq_isSome] using hsrcset
      show (({ tag := "link" } : Element).setAll _).attribute? name = _
      rw [hfirst, hnone]
      by_cases hname : name = "imagesrcset"
      · simp [hname]
      · simp [hname, hsrcset]

/-- The image that is written is the rendering. -/
theorem isRendering_make (image : Element) : IsRendering image (.make "img" (renderedAttributes image)) where
  tag := Element.tag_make _ _
  attribute? name := by
    have hempty : ({ tag := "img" } : Element).attribute? name = none := rfl
    rw [Element.make, renderedAttributes, Element.setAll_append]
    simp only [Element.setAll, List.foldl_cons, List.foldl_nil, Element.attribute?_set]
    rw [← Element.setAll, attribute?_setAll_flatMap_copied, hempty, Option.or_none]

/-! ## Additions -/

/-- An image that is preloaded, with the link for it in the head and the image in it that is rendered. -/
structure Addition where
  image : NodeId
  link : NodeId
  rendered : NodeId

/-- The image and the two elements that were made for it. -/
def Addition.nodes (a : Addition) : List NodeId := [a.image, a.link, a.rendered]

/-- The addition is made on the way from the first page to the second. -/
structure Addition.Made (page page' : Page) (a : Addition) (image : Element) : Prop where
  element? : page.element? a.image = some image
  tag : image.tag = "amp-img"
  marked : page'.element? a.image = some (image.set renderedMarker "")
  children : page'.children a.image = page.children a.image ++ [a.rendered]
  link_fresh : ¬ page.Has a.link
  link : ∃ el, page'.element? a.link = some el ∧ IsPreloadLink image el
  children_link : page'.children a.link = []
  rendered_fresh : ¬ page.Has a.rendered
  rendered : ∃ el, page'.element? a.rendered = some el ∧ IsRendering image el
  children_rendered : page'.children a.rendered = []

namespace Addition.Made

variable {a : Addition}

/-- What was made for an image is there as long as nobody touches it. -/
theorem of_later (h : a.Made page page' image)
    (hkind : ∀ x ∈ a.nodes, page''.kind? x = page'.kind? x)
    (hchildren : ∀ x ∈ a.nodes, page''.children x = page'.children x) : a.Made page page'' image := by
  simp only [nodes, List.mem_cons, List.not_mem_nil, or_false, forall_eq_or_imp, forall_eq] at hkind hchildren
  obtain ⟨himage, hlink, hrendered⟩ := hkind
  obtain ⟨himage', hlink', hrendered'⟩ := hchildren
  exact {
    element? := h.element?
    tag := h.tag
    marked := (Page.element?_congr himage).trans h.marked
    children := himage'.trans h.children
    link_fresh := h.link_fresh
    link := h.link.imp fun _ hel => ⟨(Page.element?_congr hlink).trans hel.1, hel.2⟩
    children_link := hlink'.trans h.children_link
    rendered_fresh := h.rendered_fresh
    rendered := h.rendered.imp fun _ hel => ⟨(Page.element?_congr hrendered).trans hel.1, hel.2⟩
    children_rendered := hrendered'.trans h.children_rendered }

/-- What is new on a page is new with respect to every earlier one. -/
theorem of_earlier (h : a.Made page' page'' image) (hhas : ∀ x, page.Has x → page'.Has x)
    (hkind : page'.kind? a.image = page.kind? a.image) (hchildren : page'.children a.image = page.children a.image) :
    a.Made page page'' image where
  element? := (Page.element?_congr hkind).symm.trans h.element?
  tag := h.tag
  marked := h.marked
  children := by rw [h.children, hchildren]
  link_fresh := fun hx => h.link_fresh (hhas _ hx)
  link := h.link
  children_link := h.children_link
  rendered_fresh := fun hx => h.rendered_fresh (hhas _ hx)
  rendered := h.rendered
  children_rendered := h.children_rendered

end Addition.Made

/-- The second page is the first with the additions and nothing else. -/
structure Adds (page page' : Page) (added : List Addition) : Prop where
  frame : page.SameFrame page'
  has : ∀ x, page'.Has x ↔ page.Has x ∨ ∃ a ∈ added, x = a.link ∨ x = a.rendered
  nodup : (added.flatMap Addition.nodes).Nodup
  made : ∀ a ∈ added, ∃ image, a.Made page page' image
  head : page'.children page.head = page.children page.head ++ added.map (·.link)
  kind? : ∀ x, page.Has x → x ∉ added.map (·.image) → page'.kind? x = page.kind? x
  parent? : ∀ x, page.Has x → page'.parent? x = page.parent? x
  children : ∀ x, page.Has x → x ∉ added.map (·.image) → x ≠ page.head → page'.children x = page.children x

namespace Adds

variable {added more : List Addition}

/-- Nothing is added. -/
theorem refl (page : Page) : Adds page page [] where
  frame := .refl page
  has x := by simp
  nodup := List.nodup_nil
  made := by simp
  head := (List.append_nil _).symm
  kind? _ _ _ := rfl
  parent? _ _ := rfl
  children _ _ _ _ := rfl

theorem tag?_of_mem (h : Adds page page' added) (hx : x ∈ added.map (·.image)) : page.tag? x = some "amp-img" := by
  obtain ⟨a, ha, rfl⟩ := List.mem_map.mp hx
  obtain ⟨image, hmade⟩ := h.made a ha
  rw [Page.tag?, hmade.element?, Option.map_some, hmade.tag]

theorem head_not_mem (h : Adds page page' added) (hpage : page.WellFormed) : page.head ∉ added.map (·.image) :=
  fun hx => hpage.not_isFixed_of_tag? (h.tag?_of_mem hx) (by decide) (.inr (.inl rfl))

/-- All nodes of an addition are on the page. -/
theorem has_of_mem_nodes (h : Adds page page' added) (hx : x ∈ added.flatMap Addition.nodes) : page'.Has x := by
  obtain ⟨a, ha, hx⟩ := List.mem_flatMap.mp hx
  rw [h.has]
  simp only [Addition.nodes, List.mem_cons, List.not_mem_nil, or_false] at hx
  rcases hx with rfl | hx
  · exact .inl (Page.has_of_tag? (h.tag?_of_mem (List.mem_map_of_mem ha)))
  · exact .inr ⟨a, ha, hx⟩

/-- The links and the rendered images are new. -/
theorem mem_of_mem_nodes (h : Adds page page' added) (hx : x ∈ added.flatMap Addition.nodes) (hhas : page.Has x) :
    x ∈ added.map (·.image) := by
  obtain ⟨a, ha, hx⟩ := List.mem_flatMap.mp hx
  obtain ⟨image, hmade⟩ := h.made a ha
  simp only [Addition.nodes, List.mem_cons, List.not_mem_nil, or_false] at hx
  rcases hx with rfl | rfl | rfl
  · exact List.mem_map_of_mem ha
  · exact absurd hhas hmade.link_fresh
  · exact absurd hhas hmade.rendered_fresh

/-- What is added later stays clear of what was added before. -/
theorem trans (hpage : page.WellFormed) (hpage' : page'.WellFormed) (h : Adds page page' added)
    (h' : Adds page' page'' more)
    (hmore : ∀ b ∈ more, page.Has b.image ∧ b.image ∉ added.map (·.image)) : Adds page page'' (added ++ more) := by
  have hhas {x : NodeId} (hx : page.Has x) : page'.Has x := (h.has x).mpr (.inl hx)
  have hclear {x : NodeId} (hx : x ∈ added.flatMap Addition.nodes) : x ∉ more.map (·.image) := fun hmem => by
    obtain ⟨b, hb, rfl⟩ := List.mem_map.mp hmem
    exact (hmore b hb).2 (h.mem_of_mem_nodes hx (hmore b hb).1)
  have hhead : page.head ∉ added.flatMap Addition.nodes := fun hx =>
    h.head_not_mem hpage (h.mem_of_mem_nodes hx hpage.has_head)
  have hhead' : page.head ∉ more.map (·.image) := h.frame.head ▸ h'.head_not_mem hpage'
  have hmap : (added ++ more).map (·.image) = added.map (·.image) ++ more.map (·.image) := List.map_append
  refine
    { frame := h.frame.trans h'.frame
      has := fun x => ?_
      nodup := ?_
      made := fun a ha => ?_
      head := ?_
      kind? := fun x hx hnot => ?_
      parent? := fun x hx => (h'.parent? x (hhas hx)).trans (h.parent? x hx)
      children := fun x hx hnot hne => ?_ }
  · rw [h'.has, h.has]
    simp only [List.mem_append, or_and_right, exists_or, or_assoc]
  · rw [List.flatMap_append, List.nodup_append]
    refine ⟨h.nodup, h'.nodup, fun x hx y hy => ?_⟩
    rintro rfl
    exact hclear hx (h'.mem_of_mem_nodes hy (h.has_of_mem_nodes hx))
  · -- the second additions come too late for the first images, and the first too early for the second
    rcases List.mem_append.mp ha with ha | ha
    · have hnodes {x : NodeId} (hx : x ∈ a.nodes) : x ∈ added.flatMap Addition.nodes :=
        List.mem_flatMap.mpr ⟨a, ha, hx⟩
      obtain ⟨image, hmade⟩ := h.made a ha
      refine ⟨image, hmade.of_later (fun x hx => ?_) fun x hx => ?_⟩
      · exact h'.kind? x (h.has_of_mem_nodes (hnodes hx)) (hclear (hnodes hx))
      · refine h'.children x (h.has_of_mem_nodes (hnodes hx)) (hclear (hnodes hx)) ?_
        rw [h.frame.head]
        exact fun heq => hhead (heq ▸ hnodes hx)
    · obtain ⟨hold, hnot⟩ := hmore a ha
      obtain ⟨image, hmade⟩ := h'.made a ha
      refine ⟨image, hmade.of_earlier (fun x => hhas) (h.kind? a.image hold hnot) (h.children a.image hold hnot ?_)⟩
      exact fun heq => hhead' (List.mem_map.mpr ⟨a, ha, heq⟩)
  · rw [List.map_append, ← List.append_assoc, ← h.head, ← h.frame.head, h'.head]
  · rw [hmap, List.mem_append, not_or] at hnot
    exact (h'.kind? x (hhas hx) hnot.2).trans (h.kind? x hx hnot.1)
  · rw [hmap, List.mem_append, not_or] at hnot
    rw [h'.children x (hhas hx) hnot.2 (h.frame.head ▸ hne), h.children x hx hnot.1 hne]

end Adds

/-! ## One image -/

/-- The image is not preloaded yet, and has a source that is an address and not the data itself. -/
def IsDue (page : Page) (id : NodeId) : Prop :=
  ∃ image source, page.element? id = some image ∧ image.attribute? "src" = some source
    ∧ image.hasAttribute renderedMarker = false ∧ Text.startsWith "data:" source = false

/-- Either an image is due or there is nothing to do for it. -/
theorem isPreloaded_iff : IsPreloaded page id ↔ ¬ IsDue page id := by
  constructor
  · rintro h ⟨image, source, himage, hsource, hmarker, hdata⟩
    have hdone := h image source himage hsource
    rw [hmarker, hdata] at hdone
    cases hdone
  · intro h image source himage hsource
    by_contra hdone
    rw [Bool.or_eq_true, not_or, Bool.not_eq_true, Bool.not_eq_true] at hdone
    exact h ⟨image, source, himage, hsource, hdone.1, hdone.2⟩

theorem isDue_congr (h : page'.kind? id = page.kind? id) : IsDue page' id ↔ IsDue page id := by
  rw [IsDue, IsDue, Page.element?_congr h]

/-- For an image that is due, the pass adds a link and a rendering. -/
theorem exists_preload_eq_add (h : IsDue page id) : ∃ image source, page.element? id = some image
    ∧ image.attribute? "src" = some source ∧ preload page id
      = add page id (.make "link" (preloadAttributes image source)) (.make "img" (renderedAttributes image)) := by
  obtain ⟨image, source, himage, hsource, hmarker, hdata⟩ := h
  refine ⟨image, source, himage, hsource, ?_⟩
  unfold preload
  rw [himage]
  dsimp only
  rw [hsource]
  dsimp only
  rw [hmarker, hdata]
  rfl

section Add

variable {link img : Element}

theorem has_addLink : (addLink page link).Has x ↔ page.Has x ∨ x = page.next := Page.has_attachNew

theorem not_has_next_addLink : ¬ page.Has (addLink page link).next :=
  fun hx => Page.not_has_next (has_addLink.mpr (.inl hx))

theorem ne_next_addLink (hhas : page.Has x) : x ≠ (addLink page link).next :=
  Page.ne_next_of_has (has_addLink.mpr (.inl hhas))

theorem next_ne_next_addLink : page.next ≠ (addLink page link).next :=
  Page.ne_next_of_has (has_addLink.mpr (.inr rfl))

theorem add_sameFrame : page.SameFrame (add page id link img) :=
  (Page.attachNew_sameFrame.trans Page.attachNew_sameFrame).trans (Page.mapElement_sameFrame _)

theorem has_add : (add page id link img).Has x
    ↔ page.Has x ∨ x = page.next ∨ x = (addLink page link).next := by
  rw [add, Page.setAttribute, Page.has_mapElement, Page.has_attachNew, has_addLink, or_assoc]

/-- The new nodes are what they should be, and every other node but the image is what it was. -/
theorem kind?_add (hx : x ≠ id) : (add page id link img).kind? x
    = if x = (addLink page link).next then some (.element img)
      else if x = page.next then some (.element link) else page.kind? x := by
  rw [add, Page.setAttribute, Page.kind?_mapElement_of_ne _ hx, Page.kind?_attachNew, addLink, Page.kind?_attachNew]

theorem kind?_add_of_has (hx : x ≠ id) (hhas : page.Has x) : (add page id link img).kind? x = page.kind? x := by
  rw [kind?_add hx, if_neg (ne_next_addLink hhas), if_neg (Page.ne_next_of_has hhas)]

/-- The image is marked. -/
theorem element?_add_self (hid : page.element? id = some image) :
    (add page id link img).element? id = some (image.set renderedMarker "") := by
  have hhas : page.Has id := Page.has_of_element? hid
  have hkind : ((addLink page link).attachNew (.element img) id (· ++ [(addLink page link).next])).kind? id
      = page.kind? id := by
    rw [Page.kind?_attachNew, if_neg (ne_next_addLink hhas), addLink, Page.kind?_attachNew,
      if_neg (Page.ne_next_of_has hhas)]
  rw [add, Page.setAttribute, Page.element?_mapElement, if_pos rfl, Page.element?_congr hkind, hid]
  rfl

theorem parent?_add (hhas : page.Has x) : (add page id link img).parent? x = page.parent? x := by
  rw [add, Page.setAttribute, (Page.mapElement_sameLinks _).parent?, Page.parent?_attachNew,
    if_neg (ne_next_addLink hhas), addLink, Page.parent?_attachNew, if_neg (Page.ne_next_of_has hhas)]

/-- The link is the last child of the head and the rendering the last child of the image. -/
theorem children_add (h : page.WellFormed) (hdistinct : link.Distinct) (hid : page.Has id) (hhead : id ≠ page.head) :
    (add page id link img).children x = if x = id then page.children x ++ [(addLink page link).next]
      else if x = page.head then page.children x ++ [page.next] else page.children x := by
  have hlinked : (addLink page link).Linked :=
    (h.maintains_attachNew_head hdistinct (isPlacement_append _)).wellFormed.linked
  rw [add, Page.setAttribute, (Page.mapElement_sameLinks _).children,
    hlinked.children_attachNew (has_addLink.mpr (.inl hid)), addLink, h.linked.children_attachNew h.has_head]
  by_cases hx : x = id
  · rw [if_pos hx, if_pos hx, if_neg fun heq => hhead (hx.symm.trans heq)]
  · rw [if_neg hx, if_neg hx]

/-- All this is an addition. -/
theorem adds_add (h : page.WellFormed) (himage : page.element? id = some image) (htag : image.tag = "amp-img")
    (hlink : IsPreloadLink image link) (himg : IsRendering image img) (hdistinct : link.Distinct) :
    Adds page (add page id link img) [⟨id, page.next, (addLink page link).next⟩] := by
  have hid : page.Has id := Page.has_of_element? himage
  have hhead : id ≠ page.head := fun heq => h.not_isFixed_of_tag? (by rw [Page.tag?, himage, Option.map_some, htag])
    (by decide) (.inr (.inl heq))
  have hchildren (x : NodeId) : (add page id link img).children x
      = if x = id then page.children x ++ [(addLink page link).next]
        else if x = page.head then page.children x ++ [page.next] else page.children x :=
    children_add h hdistinct hid hhead
  have hempty {x : NodeId} (hx : ¬ page.Has x) : (add page id link img).children x = [] := by
    have hne : x ≠ id := fun heq => hx (heq ▸ hid)
    have hne' : x ≠ page.head := fun heq => hx (heq ▸ h.has_head)
    rw [hchildren, if_neg hne, if_neg hne', Page.children_of_not_has hx]
  have hnext : page.next ≠ id := (Page.ne_next_of_has hid).symm
  have hnext' : (addLink page link).next ≠ id := (ne_next_addLink hid).symm
  have hmade : Addition.Made page (add page id link img) ⟨id, page.next, (addLink page link).next⟩ image :=
    { element? := himage
      tag := htag
      marked := element?_add_self himage
      children := by rw [hchildren, if_pos rfl]
      link_fresh := Page.not_has_next
      link := by
        refine ⟨link, Page.element?_eq_some_iff.mpr ?_, hlink⟩
        rw [kind?_add hnext, if_neg next_ne_next_addLink, if_pos rfl]
      children_link := hempty Page.not_has_next
      rendered_fresh := not_has_next_addLink
      rendered := ⟨img, Page.element?_eq_some_iff.mpr (by rw [kind?_add hnext', if_pos rfl]), himg⟩
      children_rendered := hempty not_has_next_addLink }
  exact
    { frame := add_sameFrame
      has := fun x => by rw [has_add]; simp
      nodup := by simp [Addition.nodes, next_ne_next_addLink, hnext.symm, hnext'.symm]
      made := List.forall_mem_singleton.mpr ⟨image, hmade⟩
      head := by rw [hchildren, if_neg hhead.symm, if_pos rfl]; rfl
      kind? := fun x hx hnot => kind?_add_of_has (by simpa using hnot) hx
      parent? := fun x hx => parent?_add hx
      children := fun x _ hnot hne => by rw [hchildren, if_neg (by simpa using hnot), if_neg hne] }

end Add

/-- One image that is due gets one addition. -/
theorem exists_adds_preload (h : page.WellFormed) (htag : page.tag? id = some "amp-img") (hdue : IsDue page id) :
    ∃ a : Addition, a.image = id ∧ Adds page (preload page id) [a] := by
  obtain ⟨image, source, himage, hsource, heq⟩ := exists_preload_eq_add hdue
  rw [Page.tag?, himage] at htag
  rw [heq]
  exact ⟨_, rfl, adds_add h himage (Option.some.inj htag) (isPreloadLink_make hsource) (isRendering_make image)
    (Element.distinct_make _ _)⟩

/-! ## All images -/

/-- Each image that is due is preloaded, in its turn. -/
theorem exists_adds_foldl (h : page.WellFormed) (hnodup : ids.Nodup)
    (htags : ∀ id ∈ ids, page.tag? id = some "amp-img") : ∃ added, Adds page (ids.foldl preload page) added
      ∧ (added.map (·.image)).Sublist ids ∧ ∀ x, x ∈ added.map (·.image) ↔ x ∈ ids ∧ IsDue page x := by
  induction ids generalizing page with
  | nil => exact ⟨[], .refl page, .refl _, by simp⟩
  | cons id ids ih =>
    obtain ⟨hnot, hrest⟩ := List.nodup_cons.mp hnodup
    obtain ⟨hid, hids⟩ := List.forall_mem_cons.mp htags
    rw [List.foldl_cons]
    by_cases hdue : IsDue page id
    · obtain ⟨a, rfl, hadds⟩ := exists_adds_preload h hid hdue
      have hwell : (preload page a.image).WellFormed := (maintains_preload h hid).wellFormed
      have hother {x : NodeId} (hx : x ∈ ids) : x ∉ [a].map (·.image) := fun heq => by
        obtain rfl : x = a.image := List.mem_singleton.mp heq
        exact hnot hx
      have hkind {x : NodeId} (hx : x ∈ ids) : (preload page a.image).kind? x = page.kind? x :=
        hadds.kind? x (Page.has_of_tag? (hids x hx)) (hother hx)
      obtain ⟨more, hmore, hsub, hmem⟩ := ih hwell hrest fun x hx =>
        (Page.tag?_congr (hkind hx)).trans (hids x hx)
      refine ⟨a :: more, hadds.trans h hwell hmore fun b hb => ?_, hsub.cons_cons _, fun x => ?_⟩
      · have hb : b.image ∈ ids := hsub.subset (List.mem_map_of_mem hb)
        exact ⟨Page.has_of_tag? (hids _ hb), hother hb⟩
      · rw [List.map_cons, List.mem_cons, List.mem_cons, hmem]
        constructor
        · rintro (rfl | ⟨hx, hxdue⟩)
          · exact ⟨.inl rfl, hdue⟩
          · exact ⟨.inr hx, (isDue_congr (hkind hx)).mp hxdue⟩
        · rintro ⟨rfl | hx, hxdue⟩
          · exact .inl rfl
          · exact .inr ⟨hx, (isDue_congr (hkind hx)).mpr hxdue⟩
    · rw [preload_of_isPreloaded (isPreloaded_iff.mpr hdue)]
      obtain ⟨added, hadds, hsub, hmem⟩ := ih h hrest hids
      refine ⟨added, hadds, hsub.cons _, fun x => ?_⟩
      rw [hmem, List.mem_cons]
      refine ⟨fun hx => ⟨.inr hx.1, hx.2⟩, ?_⟩
      rintro ⟨rfl | hx, hxdue⟩
      · exact absurd hxdue hdue
      · exact ⟨hx, hxdue⟩

/-! ## The heroes -/

/-- The image is marked as a hero, and stands below the body and in no template. -/
structure IsHero (page : Page) (x : NodeId) : Prop where
  above : page.Above page.body x
  marked : ∃ el, page.element? x = some el ∧ el.tag = "amp-img" ∧ el.hasAttribute "data-hero" = true
  outside : ∀ a, page.Above a x → page.tag? a ≠ some "template"

/-- These are the heroes in document order. -/
structure Found (page : Page) (ids : List NodeId) : Prop where
  sublist : ids.Sublist (page.preorder page.body)
  mem_iff : ∀ x, x ∈ ids ↔ IsHero page x

/-- The heroes are found in document order, outside templates. -/
theorem found_heroes (h : page.Linked) : Found page (heroes page) where
  sublist := by
    rw [heroes, Page.elementsWhere, h.descendants_eq_preorder]
    exact List.filter_sublist.trans List.filter_sublist
  mem_iff x := by
    have htemplate : page.hasAncestor x "template" = false ↔ ∀ a, page.Above a x → page.tag? a ≠ some "template" := by
      rw [← Bool.not_eq_true, h.hasAncestor_iff]
      simp [Page.isTag]
    rw [heroes, List.mem_filter, Page.elementsWhere, List.mem_filter, h.mem_descendants_iff, Page.isElement_iff,
      Bool.not_eq_true', htemplate]
    simp only [Bool.and_eq_true, beq_iff_eq]
    exact ⟨fun hx => ⟨hx.1.1, hx.1.2, hx.2⟩, fun hx => ⟨⟨hx.above, hx.marked⟩, hx.outside⟩⟩

theorem Found.nodup (h : Found page ids) (hpage : page.Linked) : ids.Nodup := hpage.nodup_preorder.sublist h.sublist

/-- Neither the link nor the image that is rendered is a hero. -/
theorem heroes_preload (h : page.WellFormed) (htag : page.tag? id = some "amp-img") :
    heroes (preload page id) = heroes page := by
  obtain heq | ⟨image, source, heq⟩ := preload_eq_or page id
  · rw [heq]
  · have hlink : page.Maintains (addLink page (.make "link" (preloadAttributes image source))) :=
      h.maintains_attachNew_head (Element.distinct_make _ _) (isPlacement_append _)
    have himg := hlink.wellFormed.maintains_attachNew (Element.distinct_make "img" (renderedAttributes image))
      (hlink.isSome_element? htag)
      (fun heq => hlink.wellFormed.not_isFixed_of_tag? (hlink.tag? id _ htag) (by decide) (.inl heq))
      (isPlacement_append _)
    rw [heq, add, heroes_setAttribute himg.wellFormed.linked (by decide),
      heroes_attachNew hlink.wellFormed.linked himg.wellFormed.linked
        (Page.has_of_tag? (hlink.tag? id _ htag)) (isPlacement_append _) (by rw [isHero, Element.tag_make]; rfl)]
    exact heroes_attachNew h.linked hlink.wellFormed.linked h.has_head (isPlacement_append _)
      (by rw [isHero, Element.tag_make]; rfl)

/-- The heroes are the same after any number of additions. -/
theorem heroes_foldl (h : page.WellFormed) (htags : ∀ id ∈ ids, page.tag? id = some "amp-img") :
    heroes (ids.foldl preload page) = heroes page := by
  induction ids generalizing page with
  | nil => rfl
  | cons id ids ih =>
    obtain ⟨hid, hids⟩ := List.forall_mem_cons.mp htags
    have hstep := maintains_preload h hid
    rw [List.foldl_cons, ih hstep.wellFormed fun x hx => hstep.tag? x _ (hids x hx), heroes_preload h hid]

/-! ## Runs -/

/-- The images that are due among the first heroes are preloaded, and no other image is marked. -/
structure Preloads (s : Settings.HeroImages) (page page' : Page) (added : List Addition) : Prop where
  adds : Adds page page' added
  first : ∃ found, Found page found ∧ (added.map (·.image)).Sublist (found.take s.most)
    ∧ ∀ x, x ∈ added.map (·.image) ↔ x ∈ found.take s.most ∧ IsDue page x
  newlyMarked : ∀ x, x ∈ added.map (·.image)
    ↔ page.hasAttribute x renderedMarker = false ∧ page'.hasAttribute x renderedMarker = true
  length_le : added.length ≤ s.most

/-- The images that an addition is for are those that are marked now and were not. -/
theorem Adds.newlyMarked {added : List Addition} (h : Adds page page' added)
    (hdue : ∀ x ∈ added.map (·.image), IsDue page x) : x ∈ added.map (·.image)
      ↔ page.hasAttribute x renderedMarker = false ∧ page'.hasAttribute x renderedMarker = true := by
  constructor
  · intro hx
    obtain ⟨image, -, himage, -, hmarker, -⟩ := hdue x hx
    obtain ⟨a, ha, rfl⟩ := List.mem_map.mp hx
    obtain ⟨_, hmade⟩ := h.made a ha
    rw [Page.hasAttribute_of_element? himage, Page.hasAttribute_of_element? hmade.marked]
    exact ⟨hmarker, Element.hasAttribute_set_self⟩
  · rintro ⟨hformer, hmarked⟩
    by_contra hx
    by_cases hhas : page.Has x
    · rw [Page.hasAttribute, Page.isElement_congr (Page.element?_congr (h.kind? x hhas hx))] at hmarked
      exact Bool.false_ne_true (hformer.symm.trans hmarked)
    · obtain ⟨el, hel, hmarker⟩ := Page.isElement_iff.mp hmarked
      rw [Element.hasAttribute_eq_isSome] at hmarker
      -- neither a link nor a rendered image has the mark
      obtain ⟨a, ha, hnew⟩ := ((h.has x).mp (Page.has_of_element? hel)).resolve_left hhas
      obtain ⟨image, hmade⟩ := h.made a ha
      rcases hnew with rfl | rfl
      · obtain ⟨el', hel', hlink⟩ := hmade.link
        obtain rfl := Option.some.inj (hel.symm.trans hel')
        rw [hlink.attribute?] at hmarker
        cases hmarker
      · obtain ⟨el', hel', himg⟩ := hmade.rendered
        obtain rfl := Option.some.inj (hel.symm.trans hel')
        rw [himg.attribute?] at hmarker
        cases hmarker

section Run

variable (h : page.WellFormed)

include h

/-- A run adds for those of the first heroes that are due. -/
theorem exists_adds_run (s : Settings.HeroImages) : ∃ added, Adds page (run s page).page added
    ∧ (added.map (·.image)).Sublist ((heroes page).take s.most)
    ∧ ∀ x, x ∈ added.map (·.image) ↔ x ∈ (heroes page).take s.most ∧ IsDue page x :=
  exists_adds_foldl h (((found_heroes h.linked).nodup h.linked).sublist (List.take_sublist s.most _))
    fun _ hid => tag?_of_mem_heroes (List.mem_of_mem_take hid)

theorem heroes_run (s : Settings.HeroImages) : heroes (run s page).page = heroes page :=
  heroes_foldl h fun _ hid => tag?_of_mem_heroes (List.mem_of_mem_take hid)

/-- One run. -/
theorem exists_preloads_run (s : Settings.HeroImages) : ∃ added, Preloads s page (run s page).page added := by
  obtain ⟨added, hadds, hsub, hmem⟩ := exists_adds_run h s
  refine ⟨added, hadds, ⟨heroes page, found_heroes h.linked, hsub, hmem⟩,
    fun x => hadds.newlyMarked fun y hy => ((hmem y).mp hy).2, ?_⟩
  calc added.length
      = (added.map (·.image)).length := (List.length_map _).symm
    _ ≤ ((heroes page).take s.most).length := hsub.length_le
    _ ≤ s.most := List.length_take_le _ _

/-- The heroes are the same, and those among the first that were due are marked now. -/
theorem settled_run (s : Settings.HeroImages) : Settled s (run s page).page := by
  obtain ⟨added, hadds, -, hmem⟩ := exists_adds_run h s
  intro id hid
  rw [heroes_run h] at hid
  refine isPreloaded_iff.mpr fun hdue => ?_
  by_cases hadded : id ∈ added.map (·.image)
  · obtain ⟨image, -, himage, -, hmarker, -⟩ := hdue
    have hmarked := ((hadds.newlyMarked fun y hy => ((hmem y).mp hy).2).mp hadded).2
    rw [Page.hasAttribute_of_element? himage, hmarker] at hmarked
    cases hmarked
  · have hhas : page.Has id := Page.has_of_tag? (tag?_of_mem_heroes (List.mem_of_mem_take hid))
    exact hadded ((hmem id).mpr ⟨hid, (isDue_congr (hadds.kind? id hhas hadded)).mp hdue⟩)

/-- Any number of runs: all is done in the first. -/
theorem preloads_run (s : Settings.HeroImages) : ∃ added, Preloads s page (run s page).page added
    ∧ ∀ n, (fun page => (run s page).page)^[n + 1] page = (run s page).page := by
  obtain ⟨added, hadded⟩ := exists_preloads_run h s
  refine ⟨added, hadded, fun n => ?_⟩
  rw [Function.iterate_succ_apply]
  exact Function.iterate_fixed (run_of_settled (settled_run h s)) n

end Run

/-- Of the first five heroes one has its data in the address, one is marked and one has no source. One hero more comes
too late, and one image is in a template. -/
def heroDocument : Markup.Document :=
  ⟨none, [.element ⟨"head", []⟩ [],
    .element ⟨"amp-img", [⟨"data-hero", ""⟩, ⟨"src", "a"⟩, ⟨"alt", "A"⟩]⟩ [.text "b"],
    .element ⟨"template", []⟩ [.element ⟨"amp-img", [⟨"data-hero", ""⟩, ⟨"src", "c"⟩]⟩ []],
    .element ⟨"amp-img", [⟨"data-hero", ""⟩, ⟨"src", "data:,d"⟩]⟩ [],
    .element ⟨"amp-img", [⟨"data-hero", ""⟩, ⟨"src", "e"⟩, ⟨"i-amphtml-ssr", ""⟩]⟩ [],
    .element ⟨"amp-img", [⟨"data-hero", ""⟩]⟩ [],
    .element ⟨"amp-img", [⟨"data-hero", ""⟩, ⟨"src", "f"⟩, ⟨"srcset", "g 2x"⟩]⟩ [],
    .element ⟨"amp-img", [⟨"data-hero", ""⟩, ⟨"src", "h"⟩]⟩ []]⟩

/-- Heroes of every kind. -/
theorem preloads_heroDocument :
    let page := Page.ofDocument heroDocument
    page.WellFormed ∧ (∃ added, Preloads ⟨5⟩ page (run ⟨5⟩ page).page added
      ∧ ∀ n, (fun page => (run ⟨5⟩ page).page)^[n + 1] page = (run ⟨5⟩ page).page)
      ∧ ((run ⟨5⟩ page).page.children page.head).length = 2 := by
  have h := Page.ofDocument_wellFormed heroDocument
  exact ⟨h, preloads_run h ⟨5⟩, by decide +kernel⟩

end AmpTuner.HeroImages
