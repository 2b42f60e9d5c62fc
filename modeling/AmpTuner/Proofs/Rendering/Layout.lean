import AmpTuner.Proofs.Page.Attached
import AmpTuner.Proofs.Markup.Readable
import AmpTuner.Pass.Rendering

/-!
# What applying a layout does to a page

A custom element gives its place, and all that was below it, to a rendered copy, which gets a spacer in
front of these where its layout needs one.

* **`Moved`** is the page between: the copy has the children already, but no place yet.
* **`Spaced`** is for the spacer. It only adds nodes, and says what they are (`IsSpacer`).
* **`withSpacer_cases`**: there is no spacer, or one that has been made (`Sized`) comes in front of the children.
* **`Waiting`** has both, and **`Replaced`** sums up the whole: `heir` tells where the links to the element
  lead now.
* **`Replaced.image`** puts that in the terms of what is above what.
-/

namespace AmpTuner.Rendering

open Markup (Element IsName IsTag)
open Vocabulary
open Css (Length)
open Page (IsFixed)

variable {page page' : Page} {id x : NodeId}

/-! ## Rendered elements -/

section Rendered

variable (layout : Layout) (width height : Length) {el : Element}

/-- The attributes that rendering writes on an element. -/
def renderedNames : List String := ["class", "style", "hidden", layoutMarker]

/-- What every write of such an attribute keeps holds of the rendered element. -/
theorem rendered_of_set {P : Element → Prop}
    (hset : ∀ el name value, name ∈ renderedNames → P el → P (el.set name value)) (h : P el) :
    P (rendered layout width height el) := by
  have hclass {el : Element} (h : P el) (name : String) : P (el.addClass name) := by
    rw [Element.addClass]
    split
    · exact h
    · exact hset _ _ _ (by decide) h
  have choice {p : Prop} [Decidable p] {a b : Element} (ha : P a) (hb : P b) :
      P (if p then a else b) := by
    split
    · exact ha
    · exact hb
  have hnamed := hclass h layout.className
  have hsized := choice (p := layout.isSizeDefined = true) (hclass hnamed sizeDefinedClass) hnamed
  have hwaiting := choice (p := (layout == .fluid) = true) (hclass hsized awaitingSizeClass) hsized
  have hstyled (el : Element) (h : P el) := choice (p := (styles layout width height).isEmpty = true) h
    (hset el "style" (styles layout width height ++ (el.attribute? "style").getD "") (by decide) h)
  have hhidden (el : Element) (h : P el) := choice (p := (layout == .nodisplay) = true)
    (hset el "hidden" "hidden" (by decide) h) h
  exact hset _ _ _ (by decide) (hhidden _ (hstyled _ hwaiting))

variable (el)

theorem tag_rendered : (rendered layout width height el).tag = el.tag :=
  rendered_of_set layout width height (P := fun el' => el'.tag = el.tag) (fun _ _ _ _ h => h) rfl

theorem hasAttribute_rendered : (rendered layout width height el).hasAttribute layoutMarker = true :=
  Element.hasAttribute_set_self

variable {el}

theorem distinct_rendered (h : el.Distinct) : (rendered layout width height el).Distinct :=
  rendered_of_set layout width height (fun _ _ _ _ h => h.set) h

/-- An element that can be read back can be read back when it is rendered. -/
theorem readable_rendered (h : el.Readable) : (rendered layout width height el).Readable := by
  refine rendered_of_set layout width height (fun el name value hname h => h.set ?_) h
  have hall : ∀ name ∈ renderedNames, name.toList ≠ []
      ∧ (name.toList.all fun c => !Markup.Token.endsName c && c.toLower == c) = true := by decide
  exact Markup.isName_of_all (hall name hname).1 (hall name hname).2

end Rendered

/-! ## The copy takes the children -/

/-- Where links to the element lead when its copy has taken over. -/
def heir (page : Page) (id x : NodeId) : NodeId := if x = id then page.next else x

theorem heir_of_ne (h : x ≠ id) : heir page id x = x := if_neg h

theorem heir_self : heir page id id = page.next := if_pos rfl

/-- The copy `el` is there and has the children of the element, but no parent. -/
structure Moved (page : Page) (id : NodeId) (el : Element) (page' : Page) : Prop where
  wellFormed : page'.WellFormed
  frame : page.SameFrame page'
  has : ∀ x, page'.Has x ↔ page.Has x ∨ x = page.next
  kind? : ∀ x, page'.kind? x = if x = page.next then some (.element el) else page.kind? x
  parent? : ∀ x, page'.parent? x = (page.parent? x).map (heir page id)
  children : ∀ x, page'.children x
    = if x = id then [] else if x = page.next then page.children id else page.children x

/-- The page with a copy of `el`, rendered by `f`, that has no place yet. -/
def copied (page : Page) (el : Element) (f : Element → Element) : Page :=
  (page.create (.element el)).1.mapElement page.next f

section Copied

variable {el : Element} {f : Element → Element}

theorem copied_sameLinks : page.SameLinks (copied page el f) :=
  (Page.create_sameLinks _).trans (Page.mapElement_sameLinks f)

theorem copied_sameFrame : page.SameFrame (copied page el f) :=
  (Page.create_sameFrame _).trans (Page.mapElement_sameFrame f)

theorem has_copied : (copied page el f).Has x ↔ page.Has x ∨ x = page.next :=
  (Page.has_mapElement f).trans (Page.has_create _)

/-- The copy is the element rendered, and no other node changes. -/
theorem kind?_copied :
    (copied page el f).kind? x = if x = page.next then some (.element (f el)) else page.kind? x := by
  rw [copied, Page.kind?_mapElement, Page.kind?_create]
  split
  · rfl
  · rfl

/-- The page stays well-formed when a copy is made. -/
theorem copied_wellFormed (h : page.WellFormed) (hel : el.Distinct) (htag : ∀ el, (f el).tag = el.tag)
    (hdistinct : ∀ el, el.Distinct → (f el).Distinct) : (copied page el f).WellFormed := by
  refine (h.create fun el' hel' => ?_).mapElement htag hdistinct
  obtain rfl := NodeKind.element.inj hel'
  exact hel

end Copied

/-- Copying an element, rendering the copy and handing over the children leaves what `Moved` says. -/
theorem moved_copy (h : page.WellFormed) {el : Element} (hid : page.element? id = some el)
    (hfixed : ¬ page.IsFixed id) {f : Element → Element} (htag : ∀ el, (f el).tag = el.tag)
    (hdistinct : ∀ el, el.Distinct → (f el).Distinct) :
    Moved page id (f el) (((page.copy id).1.mapElement page.next f).moveChildren id page.next) := by
  have hcopy : (page.copy id).1.mapElement page.next f = copied page el f := by
    rw [Page.copy, Page.element?_eq_some_iff.mp hid]
    rfl
  rw [hcopy]
  have hcopied := copied_wellFormed h (h.distinct id el hid) htag hdistinct
  have hlinks : page.SameLinks (copied page el f) := copied_sameLinks
  have hframe : page.SameFrame (copied page el f) := copied_sameFrame
  have htarget : ((copied page el f).element? page.next).isSome = true := by
    rw [Page.element?, kind?_copied, if_pos rfl]
    rfl
  have hne : id ≠ page.next := Page.ne_next_of_has (Page.has_of_element? hid)
  -- nothing is above the copy, so it may take any children
  have hloop : ¬ (copied page el f).Above id page.next := by
    refine Page.not_above_of_parent?_eq_none ?_
    rw [hlinks.parent?, Page.parent?_of_not_has Page.not_has_next]
  have hroot : page.next ≠ (copied page el f).root := by
    rw [hframe.root]
    exact (Page.ne_next_of_has h.has_root).symm
  have hsource : id ≠ (copied page el f).root := by
    rw [hframe.root]
    exact fun heq => hfixed (.inl heq)
  exact
    { wellFormed := hcopied.moveChildren htarget hne hsource hroot hloop
      frame := hframe.trans Page.moveChildren_sameFrame
      has := fun x => Page.has_moveChildren.trans has_copied
      kind? := fun x => Page.kind?_moveChildren.trans kind?_copied
      parent? := by
        intro x
        rw [hcopied.linked.parent?_moveChildren, hlinks.parent?]
        cases hp : page.parent? x with
        | none => rfl
        | some p =>
          by_cases hpid : p = id
          · rw [if_pos (by rw [hpid]), hpid, Option.map_some, heir_self]
          · rw [if_neg (by simpa using hpid), Option.map_some, heir_of_ne hpid]
      children := by
        intro x
        have hnext : page.children page.next = [] := Page.children_of_not_has Page.not_has_next
        rw [Page.children_moveChildren (has_copied.mpr (.inr rfl)) hne, hlinks.children,
          hlinks.children, hlinks.children, hnext, List.nil_append] }

namespace Moved

variable {el : Element}

theorem sameKinds (h : Moved page id el page') : page.SameKinds page' :=
  ⟨fun x hx => by rw [h.kind?, if_neg (Page.ne_next_of_has hx)]⟩

theorem element?_next (h : Moved page id el page') : page'.element? page.next = some el := by
  rw [Page.element?_eq_some_iff, h.kind?, if_pos rfl]

end Moved

/-! ## The spacer -/

/-- What holds the space of an element open, or the picture in it. -/
def IsSpacer (page : Page) (x : NodeId) : Prop :=
  ∃ el, page.element? x = some el ∧ el.Readable
    ∧ (el.tag = sizerTag ∨ el.tag = "img" ∧ page.children x = [])

/-- A spacer is one still if it is the same element and has no new children. -/
theorem IsSpacer.congr (h : IsSpacer page x) (hkind : page'.kind? x = page.kind? x)
    (hchildren : page.children x = [] → page'.children x = []) : IsSpacer page' x := by
  obtain ⟨el, hel, hreadable, htag⟩ := h
  refine ⟨el, by rw [Page.element?_congr hkind, hel], hreadable, ?_⟩
  exact htag.imp_right (And.imp_right hchildren)

/-- Nothing is done to the nodes there were, but that spacers come in front of what `clone` has. -/
structure Spaced (page : Page) (clone : NodeId) (page' : Page) : Prop where
  wellFormed : page'.WellFormed
  frame : page.SameFrame page'
  sameKinds : page.SameKinds page'
  parent? : ∀ x, page.Has x → page'.parent? x = page.parent? x
  children : ∀ x, page.Has x → x ≠ clone → page'.children x = page.children x
  added : ∀ x, page'.Has x → ¬ page.Has x → IsSpacer page' x

namespace Spaced

variable {clone : NodeId}

theorem refl (h : page.WellFormed) : Spaced page clone page :=
  ⟨h, .refl _, .refl _, fun _ _ => rfl, fun _ _ _ => rfl, fun _ hx hnot => absurd hx hnot⟩

/-- Up from an old node there are old nodes alone. -/
theorem has_of_above (h : Spaced page clone page') (hpage : page.Linked) {a : NodeId}
    (hx : page.Has x) (ha : page'.Above a x) : page.Has a := by
  induction ha with
  | single hd =>
    rw [h.parent? _ hx] at hd
    exact hpage.has_parent hd
  | tail _ hd ih =>
    rw [h.parent? _ hx] at hd
    exact ih (hpage.has_parent hd)

/-- A sizer that is made and has no place yet disturbs nothing. -/
theorem createSizer (hpage : page.WellFormed) (given : List (String × String))
    (hgiven : ∀ a ∈ given, IsName a.1) :
    Spaced page clone (page.createElement sizerTag given).1 where
  wellFormed := hpage.create fun el hel => NodeKind.element.inj hel ▸ Element.distinct_make _ _
  frame := Page.create_sameFrame _
  sameKinds := Page.create_sameKinds _
  parent? x _ := (Page.create_sameLinks _).parent? x
  children x _ _ := (Page.create_sameLinks _).children x
  added x hx hnot := by
    obtain rfl := ((Page.has_create _).mp hx).resolve_left hnot
    have htag : IsTag sizerTag :=
      ⟨Markup.isName_of_all (by decide) (by decide), by decide⟩
    refine ⟨_, Page.element?_eq_some_iff.mpr (Page.kind?_create_next _), .make htag hgiven, .inl ?_⟩
    exact Element.tag_make _ _

/-- A picture in the sizer. -/
theorem attachNew (h : Spaced page clone page') {sizer : NodeId} {el : Element}
    (hsizer : page'.tag? sizer = some sizerTag) (hnew : ¬ page.Has sizer) (hroot : sizer ≠ page.root)
    (hel : el.Readable) (htag : el.tag = "img") :
    Spaced page clone (page'.attachNew (.element el) sizer (· ++ [page'.next])) := by
  obtain ⟨sizerEl, hsizerEl, _⟩ := Option.map_eq_some_iff.mp hsizer
  have hold {x : NodeId} (hx : page.Has x) : x ≠ page'.next := Page.ne_next_of_has (h.sameKinds.has hx)
  -- only the sizer gets a child, and only the picture is new
  have hchildren (x : NodeId) : (page'.attachNew (.element el) sizer (· ++ [page'.next])).children x
      = if x = sizer then page'.children x ++ [page'.next] else page'.children x :=
    h.wellFormed.linked.children_attachNew (Page.has_of_element? hsizerEl)
  have hkind {x : NodeId} (hx : x ≠ page'.next) :
      (page'.attachNew (.element el) sizer (· ++ [page'.next])).kind? x = page'.kind? x := by
    rw [Page.kind?_attachNew, if_neg hx]
  exact
    { wellFormed := by
        refine h.wellFormed.attachNew (fun el' hel' => NodeKind.element.inj hel' ▸ hel.distinct)
          (by rw [hsizerEl]; rfl) ?_ (isPlacement_append _)
        rw [h.frame.root]
        exact hroot
      frame := h.frame.trans Page.attachNew_sameFrame
      sameKinds := h.sameKinds.trans Page.attachNew_sameKinds
      parent? := fun x hx => by rw [Page.parent?_attachNew, if_neg (hold hx), h.parent? x hx]
      children := by
        intro x hx hne
        have hxs : x ≠ sizer := fun heq => hnew (heq ▸ hx)
        rw [hchildren, if_neg hxs, h.children x hx hne]
      added := by
        intro x hx hnot
        rcases Page.has_attachNew.mp hx with hx | rfl
        · obtain ⟨el', hel', hreadable, htag'⟩ := h.added x hx hnot
          refine ⟨el', by rw [Page.element?_congr (hkind (Page.ne_next_of_has hx)), hel'], hreadable, ?_⟩
          by_cases hxs : x = sizer
          · -- it is the sizer itself that gets a child
            rw [← hxs, Page.tag?, hel'] at hsizer
            exact .inl (Option.some.inj hsizer)
          · exact htag'.imp_right (And.imp_right fun hnil => by rw [hchildren, if_neg hxs, hnil])
        · have hnil : page'.children page'.next = [] := Page.children_of_not_has Page.not_has_next
          refine ⟨el, ?_, hel, .inr ⟨htag, ?_⟩⟩
          · rw [Page.element?_eq_some_iff, Page.kind?_attachNew, if_pos rfl]
          · rw [hchildren, if_neg (Page.ne_next_of_has (Page.has_of_element? hsizerEl)).symm, hnil] }

/-- The spacer gets its place. -/
theorem prepend (h : Spaced page clone page') (hpage : page.WellFormed) {sizer : NodeId}
    (hclone : (page.element? clone).isSome = true) (hroot : clone ≠ page.root)
    (hsizer : page'.Has sizer) (hnew : ¬ page.Has sizer) :
    Spaced page clone (page'.prependChild clone sizer) := by
  obtain ⟨el, hel⟩ := Option.isSome_iff_exists.mp hclone
  have hhas : page.Has clone := Page.has_of_element? hel
  have hel' : page'.element? clone = some el := h.sameKinds.element? hel
  have hne : sizer ≠ clone := fun heq => hnew (heq ▸ hhas)
  have hchildren (x : NodeId) : (page'.prependChild clone sizer).children x
      = if x = clone then sizer :: (page'.children x).filter (· != sizer)
        else (page'.children x).filter (· != sizer) :=
    h.wellFormed.linked.children_attach (Page.has_of_element? hel')
  exact
    { wellFormed := by
        refine h.wellFormed.attach (by rw [hel']; rfl) ?_ hsizer ?_ (isPlacement_cons _) hne ?_
        · rw [h.frame.root]
          exact hroot
        · rw [IsFixed, h.frame.root, h.frame.head, h.frame.body]
          exact fun hfixed => hnew (hpage.has_of_isFixed hfixed)
        · -- what is above `clone` was there before the sizer
          exact fun habove => hnew (h.has_of_above hpage.linked hhas habove)
      frame := h.frame.trans Page.attach_sameFrame
      sameKinds := h.sameKinds.trans Page.attach_sameKinds
      parent? := by
        intro x hx
        rw [Page.prependChild, Page.parent?_attach_of_ne fun heq : x = sizer => hnew (heq ▸ hx),
          h.parent? x hx]
      children := by
        intro x hx hxc
        rw [hchildren, if_neg hxc, h.children x hx hxc]
        -- the sizer is new, so no old node loses it
        refine List.filter_eq_self.mpr fun c hc => ?_
        rw [bne_iff_ne]
        rintro rfl
        exact hnew (hpage.linked.has_child hc)
      added := by
        intro x hx hnot
        have hx' : page'.Has x := Page.has_attach.mp hx
        have hxc : x ≠ clone := fun heq => hnot (heq ▸ hhas)
        refine (h.added x hx' hnot).congr Page.kind?_attach fun hnil => ?_
        rw [hchildren, if_neg hxc, hnil]
        rfl }

end Spaced

/-- The attributes that a spacer and the picture in it are given. -/
def spacerNames : List String := ["alt", "aria-hidden", "class", "role", "slot", "src", "style"]

theorem isName_of_mem_spacerNames {name : String} (h : name ∈ spacerNames) : IsName name := by
  have hall : ∀ name ∈ spacerNames, name.toList ≠ []
      ∧ (name.toList.all fun c => !Markup.Token.endsName c && c.toLower == c) = true := by decide
  exact Markup.isName_of_all (hall name h).1 (hall name h).2

/-- The spacer has been made and waits for its place in front of what `clone` has. -/
structure Sized (page : Page) (clone : NodeId) (sized : Page) : Prop extends Spaced page clone sized where
  children_clone : page.Has clone → sized.children clone = page.children clone
  sizer : ∃ given, sized.element? page.next = some (.make sizerTag given)
    ∧ (Element.make sizerTag given).attribute? "slot" = some sizerSlot
  made : ∀ x el, ¬ page.Has x → sized.element? x = some el →
    ∃ tag given, el = .make tag given ∧ (tag = sizerTag ∨ tag = "img") ∧ ∀ a ∈ given, a.1 ∈ spacerNames

namespace Sized

variable {clone : NodeId} {sized : Page} {given : List (String × String)}

theorem has (h : Sized page clone sized) : sized.Has page.next := by
  obtain ⟨_, hel, -⟩ := h.sizer
  exact Page.has_of_element? hel

/-- A sizer with these attributes is made and waits for its place. -/
theorem createSizer (hpage : page.WellFormed) (hgiven : ∀ a ∈ given, a.1 ∈ spacerNames)
    (hslot : (Element.make sizerTag given).attribute? "slot" = some sizerSlot) :
    Sized page clone (page.createElement sizerTag given).1 where
  toSpaced := .createSizer hpage given fun a ha => isName_of_mem_spacerNames (hgiven a ha)
  children_clone _ := (Page.create_sameLinks _).children clone
  sizer := ⟨given, Page.element?_eq_some_iff.mpr (Page.kind?_create_next _), hslot⟩
  made x el hnot hel := by
    obtain rfl := ((Page.has_create _).mp (Page.has_of_element? hel)).resolve_left hnot
    rw [Page.createElement, Page.element?_eq_some_iff, Page.kind?_create_next] at hel
    obtain rfl := NodeKind.element.inj (Option.some.inj hel)
    exact ⟨sizerTag, given, rfl, .inl rfl, hgiven⟩

/-- A picture in the sizer. -/
theorem attachPicture (h : Sized page clone sized) (hpage : page.WellFormed)
    (hgiven : ∀ a ∈ given, a.1 ∈ spacerNames) :
    Sized page clone (sized.attachNew (.element (.make "img" given)) page.next (· ++ [sized.next])) where
  toSpaced := by
    obtain ⟨_, hel, -⟩ := h.sizer
    have himg : IsTag "img" := ⟨Markup.isName_of_all (by decide) (by decide), by decide⟩
    refine h.toSpaced.attachNew ?_ Page.not_has_next (Page.ne_next_of_has hpage.has_root).symm
      (.make himg fun a ha => isName_of_mem_spacerNames (hgiven a ha)) (Element.tag_make _ _)
    rw [Page.tag?, hel, Option.map_some, Element.tag_make]
  children_clone hclone := by
    rw [h.wellFormed.linked.children_attachNew h.has, if_neg (Page.ne_next_of_has hclone), h.children_clone hclone]
  sizer := by
    obtain ⟨given, hel, hslot⟩ := h.sizer
    exact ⟨given, Page.attachNew_sameKinds.element? hel, hslot⟩
  made x el hnot hel := by
    rw [Page.element?_eq_some_iff, Page.kind?_attachNew] at hel
    split at hel
    · obtain rfl := NodeKind.element.inj (Option.some.inj hel)
      exact ⟨"img", given, rfl, .inr rfl, hgiven⟩
    · exact h.made x el hnot (Page.element?_eq_some_iff.mpr hel)

end Sized

/-- Either the layout needs no sizer, or one has been made and waits. -/
theorem createSizer_cases (h : page.WellFormed) (clone : NodeId) (layout : Layout) (width height : Length)
    (heightsConverted : Bool) :
    createSizer page layout width height heightsConverted = (page, none)
      ∨ ∃ sized, Sized page clone sized
        ∧ createSizer page layout width height heightsConverted = (sized, some page.next) := by
  unfold createSizer
  by_cases hratio : (!hasRatio width height) = true
  · exact .inl (if_pos hratio)
  · rw [if_neg hratio]
    cases layout
    case responsive =>
      refine .inr ⟨_, .createSizer h (by simp [spacerNames]) ?_, rfl⟩
      simp [Element.make, Element.setAll, Element.set, Markup.Attribute.put, Element.attribute?]
    case intrinsic =>
      have hsized : Sized page clone
          (page.createElement sizerTag [("class", "i-amphtml-sizer"), ("slot", sizerSlot)]).1 :=
        .createSizer h (by simp [spacerNames]) (by decide)
      exact .inr ⟨_, hsized.attachPicture h (by simp [spacerNames]), rfl⟩
    all_goals exact .inl rfl

/-- The page with the spacer of the layout, if it has one, in front of what `clone` has. -/
def withSpacer (page : Page) (clone : NodeId) (layout : Layout) (width height : Length)
    (heightsConverted : Bool) : Page :=
  let (page, sizer) := createSizer page layout width height heightsConverted
  match sizer with
  | some sizer => page.prependChild clone sizer
  | none => page

/-- Either there is no spacer, or one stands in front of what `clone` has. -/
theorem withSpacer_cases (h : page.WellFormed) (clone : NodeId) (layout : Layout) (width height : Length)
    (heightsConverted : Bool) :
    withSpacer page clone layout width height heightsConverted = page
      ∨ ∃ sized, Sized page clone sized
        ∧ withSpacer page clone layout width height heightsConverted = sized.prependChild clone page.next := by
  rw [withSpacer]
  rcases createSizer_cases h clone layout width height heightsConverted with heq | ⟨sized, hsized, heq⟩
  · rw [heq]
    exact .inl rfl
  · rw [heq]
    exact .inr ⟨sized, hsized, rfl⟩

/-- Putting the spacer in does nothing to the nodes there were. -/
theorem spaced_withSpacer (h : page.WellFormed) {clone : NodeId}
    (hclone : (page.element? clone).isSome = true) (hroot : clone ≠ page.root) (layout : Layout)
    (width height : Length) (heightsConverted : Bool) :
    Spaced page clone (withSpacer page clone layout width height heightsConverted) := by
  rcases withSpacer_cases h clone layout width height heightsConverted with heq | ⟨sized, hsized, heq⟩
  · rw [heq]
    exact .refl h
  · rw [heq]
    exact hsized.toSpaced.prepend h hclone hroot hsized.has Page.not_has_next

/-- A new spacer comes in front of the children. -/
theorem Sized.children_prependChild {clone : NodeId} {sized : Page} (h : Sized page clone sized) (hpage : page.Linked)
    (hclone : page.Has clone) :
    (sized.prependChild clone page.next).children clone = page.next :: page.children clone := by
  have hself : (page.children clone).filter (· != page.next) = page.children clone := by
    refine List.filter_eq_self.mpr fun c hc => ?_
    rw [bne_iff_ne]
    exact Page.ne_next_of_has (hpage.has_child hc)
  rw [Page.prependChild, h.wellFormed.linked.children_attach (h.sameKinds.has hclone), if_pos rfl,
    h.children_clone hclone, hself]

/-! ## The copy takes the place -/

/-- Links up are kept, and lead to the copy instead of the element. -/
theorem image_heir (h : page.WellFormed) (hroot : page'.root = page.root)
    (hnext : ∀ q, page'.parent? page.next = some q → page.parent? id = some q)
    (hparent : ∀ x, page.Has x → x ≠ id → page'.parent? x = (page.parent? x).map (heir page id)) :
    page.Image page' (heir page id) where
  root := hroot
  map_root x hx hxr := by
    by_cases hxid : x = id
    · rw [hxid, heir_self] at hxr
      exact absurd hxr.symm (Page.ne_next_of_has h.has_root)
    · rwa [heir_of_ne hxid] at hxr
  parent? x hx q hq := by
    by_cases hxid : x = id
    · rw [hxid, heir_self] at hq
      have hp := hnext q hq
      have hne : q ≠ id := fun heq => h.linked.acyclic id (.of_parent? (heq ▸ hp))
      exact ⟨q, hxid ▸ hp, heir_of_ne hne⟩
    · rw [heir_of_ne hxid, hparent x hx hxid] at hq
      exact Option.map_eq_some_iff.mp hq

/-- The copy `el` has all that was below the element, behind its spacer, and waits for the place. -/
structure Waiting (page : Page) (id : NodeId) (el : Element) (page' : Page) : Prop where
  wellFormed : page'.WellFormed
  frame : page.SameFrame page'
  sameKinds : page.SameKinds page'
  element?_next : page'.element? page.next = some el
  parent?_next : page'.parent? page.next = none
  parent? : ∀ x, page.Has x → page'.parent? x = (page.parent? x).map (heir page id)
  children : ∀ x, page.Has x → x ≠ id → page'.children x = page.children x
  added : ∀ x, page'.Has x → ¬ page.Has x → x ≠ page.next → IsSpacer page' x

/-- The copy waits for the place once its spacer is in front of its children. -/
theorem Moved.waiting {el : Element} {moved : Page} (h : Moved page id el moved)
    (hspaced : Spaced moved page.next page') : Waiting page id el page' := by
  have hnext : moved.Has page.next := (h.has _).mpr (.inr rfl)
  have hold {x : NodeId} (hx : page.Has x) : moved.Has x := (h.has x).mpr (.inl hx)
  exact
    { wellFormed := hspaced.wellFormed
      frame := h.frame.trans hspaced.frame
      sameKinds := h.sameKinds.trans hspaced.sameKinds
      element?_next := hspaced.sameKinds.element? h.element?_next
      parent?_next := by
        rw [hspaced.parent? _ hnext, h.parent?, Page.parent?_of_not_has Page.not_has_next]
        rfl
      parent? := fun x hx => (hspaced.parent? x (hold hx)).trans (h.parent? x)
      children := by
        intro x hx hne
        have hxn := Page.ne_next_of_has hx
        rw [hspaced.children x (hold hx) hxn, h.children, if_neg hne, if_neg hxn]
      added := fun x hx hnot hne =>
        hspaced.added x hx fun hmem => ((h.has x).mp hmem).elim hnot hne }

/-- The copy `el` stands where the element stood, and every link leads to it instead. -/
structure Replaced (page : Page) (id : NodeId) (el : Element) (page' : Page) : Prop where
  wellFormed : page'.WellFormed
  frame : page.SameFrame page'
  sameKinds : page.SameKinds page'
  element?_next : page'.element? page.next = some el
  parent?_self : page'.parent? id = none
  parent?_next : page'.parent? page.next = page.parent? id
  parent? : ∀ x, page.Has x → x ≠ id → page'.parent? x = (page.parent? x).map (heir page id)
  children : ∀ x, page.Has x → x ≠ id → page'.children x = (page.children x).map (heir page id)
  added : ∀ x, page'.Has x → ¬ page.Has x → x ≠ page.next → IsSpacer page' x

namespace Waiting

variable {el : Element}

/-- An element without a place leaves the copy without one. -/
theorem replaced_of_parent?_eq_none (h : Waiting page id el page') (hpage : page.WellFormed)
    (hid : page.Has id) (hp : page.parent? id = none) : Replaced page id el page' where
  wellFormed := h.wellFormed
  frame := h.frame
  sameKinds := h.sameKinds
  element?_next := h.element?_next
  parent?_self := by rw [h.parent? id hid, hp]; rfl
  parent?_next := by rw [h.parent?_next, hp]
  parent? x hx _ := h.parent? x hx
  children x hx hne := by
    have hmap : (page.children x).map (heir page id) = (page.children x).map fun c => c :=
      List.map_congr_left fun c hc => heir_of_ne fun heq => by
        rw [heq, hpage.linked.mem_children_iff, hp] at hc
        cases hc
    rw [h.children x hx hne, hmap, List.map_id']
  added := h.added

/-- What is below the copy was below the element, and the element's parent was not. -/
theorem not_above_parent (h : Waiting page id el page') (hpage : page.WellFormed) {p : NodeId}
    (hp : page.parent? id = some p) : ¬ page'.Above page.next p := by
  intro habove
  have hpid : p ≠ id := fun heq => hpage.linked.acyclic id (.of_parent? (heq ▸ hp))
  -- going back along the links, the copy would be the element, which is above itself
  have himage : page.Image page' (heir page id) :=
    image_heir hpage h.frame.root (fun q hq => by rw [h.parent?_next] at hq; cases hq)
      fun x hx _ => h.parent? x hx
  have hself : heir page id p = p := heir_of_ne hpid
  rw [← hself] at habove
  obtain ⟨a, ha, heq⟩ := himage.exists_above hpage.linked (hpage.linked.has_parent hp) habove
  by_cases haid : a = id
  · rw [haid] at ha
    exact hpage.linked.acyclic id (ha.child hp)
  · rw [heir_of_ne haid] at heq
    exact Page.ne_next_of_has (hpage.linked.has_of_above ha) heq

/-- Putting the copy into the place leads every link to it. -/
theorem replaced (h : Waiting page id el page') (hpage : page.WellFormed) (hid : page.Has id)
    (hfixed : ¬ page.IsFixed id) : Replaced page id el (page'.replace id page.next) := by
  cases hp : page.parent? id with
  | none =>
    have hself : page'.parent? id = none := by rw [h.parent? id hid, hp]; rfl
    rw [Page.replace_of_parent?_eq_none hself]
    exact h.replaced_of_parent?_eq_none hpage hid hp
  | some p =>
    have hpid : p ≠ id := fun heq => hpage.linked.acyclic id (.of_parent? (heq ▸ hp))
    have hself : page'.parent? id = some p := by
      rw [h.parent? id hid, hp, Option.map_some, heir_of_ne hpid]
    have hnext : page'.Has page.next := Page.has_of_element? h.element?_next
    have hne : page.next ≠ id := (Page.ne_next_of_has hid).symm
    have hloop : page.next ≠ p ∧ ¬ page'.Above page.next p :=
      ⟨(Page.ne_next_of_has (hpage.linked.has_parent hp)).symm, h.not_above_parent hpage hp⟩
    have hchildren (x : NodeId) := h.wellFormed.linked.children_replace (x := x) hself hnext hne
    -- the parent is none of the nodes that come along, so the copy may hang from it
    have hfixed' (y : NodeId) : page'.IsFixed y ↔ page.IsFixed y := by
      rw [IsFixed, IsFixed, h.frame.root, h.frame.head, h.frame.body]
    exact
      { wellFormed := by
          refine h.wellFormed.replace (by rwa [hfixed']) hnext ?_ hne fun q hq => ?_
          · rw [hfixed']
            exact fun hmem => Page.not_has_next (hpage.has_of_isFixed hmem)
          · rw [hself] at hq
            exact Option.some.inj hq ▸ hloop
        frame := h.frame.trans Page.replace_sameFrame
        sameKinds := h.sameKinds.trans ⟨fun _ _ => Page.kind?_replace⟩
        element?_next := by rw [Page.element?_congr Page.kind?_replace, h.element?_next]
        parent?_self := by rw [Page.parent?_replace hself hnext, if_pos rfl]
        parent?_next := by rw [Page.parent?_replace hself hnext, if_neg hne, if_pos rfl, hp]
        parent? := fun x hx hxid => by
          rw [Page.parent?_replace hself hnext, if_neg hxid, if_neg (Page.ne_next_of_has hx), h.parent? x hx]
        children := by
          intro x hx hxid
          have hfilter : (page.children x).filter (· != page.next) = page.children x :=
            List.filter_eq_self.mpr fun c hc =>
              bne_iff_ne.mpr (Page.ne_next_of_has (hpage.linked.has_child hc))
          rw [hchildren, h.children x hx hxid, hfilter]
          rfl
        added := by
          intro x hx hnot hxn
          refine (h.added x (Page.has_replace.mp hx) hnot hxn).congr Page.kind?_replace fun hnil => ?_
          rw [hchildren, hnil]
          rfl }

end Waiting

/-- Applying a layout is the three steps in a row: the copy, its spacer, and the place. -/
theorem applyLayout_eq (layout : Layout) (width height : Length) (heightsConverted : Bool) :
    applyLayout page id layout width height heightsConverted
      = (withSpacer (((page.copy id).1.mapElement page.next (rendered layout width height)).moveChildren
          id page.next) page.next layout width height heightsConverted).replace id page.next :=
  rfl

/-- The rendered copy has what was below the element, and then its spacer. -/
theorem moved_rendered (h : page.WellFormed) {el : Element} (hid : page.element? id = some el)
    (hcomponent : Markup.isComponent el.tag = true) (layout : Layout) (width height : Length) :
    Moved page id (rendered layout width height el)
      (((page.copy id).1.mapElement page.next (rendered layout width height)).moveChildren id page.next) :=
  moved_copy h hid (h.not_isFixed_of_isComponent ⟨el, hid, hcomponent⟩) (tag_rendered layout width height)
    fun _ => distinct_rendered layout width height

/-- The copy waits for the place, with a spacer or without one. -/
theorem Moved.waiting_withSpacer {el : Element} (h : Moved page id el page') (hpage : page.WellFormed)
    (layout : Layout) (width height : Length) (heightsConverted : Bool) :
    Waiting page id el (withSpacer page' page.next layout width height heightsConverted) := by
  refine h.waiting (spaced_withSpacer h.wellFormed (by rw [h.element?_next]; rfl) ?_ layout width height
    heightsConverted)
  rw [h.frame.root]
  exact (Page.ne_next_of_has hpage.has_root).symm

/-- Applying a layout puts the rendered copy where the element stood, and every link leads to it. -/
theorem replaced_applyLayout (h : page.WellFormed) {el : Element} (hid : page.element? id = some el)
    (hcomponent : Markup.isComponent el.tag = true) (layout : Layout) (width height : Length)
    (heightsConverted : Bool) :
    Replaced page id (rendered layout width height el)
      (applyLayout page id layout width height heightsConverted) := by
  have hmoved := moved_rendered h hid hcomponent layout width height
  rw [applyLayout_eq]
  exact (hmoved.waiting_withSpacer h layout width height heightsConverted).replaced h (Page.has_of_element? hid)
    (h.not_isFixed_of_isComponent ⟨el, hid, hcomponent⟩)

namespace Replaced

variable {el : Element}

theorem image (h : Replaced page id el page') (hpage : page.WellFormed) :
    page.Image page' (heir page id) :=
  image_heir hpage h.frame.root (fun q hq => by rw [← h.parent?_next, hq]) h.parent?

/-- The element itself is off the page. -/
theorem not_attached (h : Replaced page id el page') (hroot : id ≠ page.root) : ¬ page'.Attached id := by
  rintro (heq | habove)
  · rw [h.frame.root] at heq
    exact hroot heq
  · exact Page.not_above_of_parent?_eq_none h.parent?_self habove

end Replaced

end AmpTuner.Rendering
