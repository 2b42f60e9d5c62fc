import AmpTuner.Proofs.Extensions.Regathering
import AmpTuner.Proofs.Pass.HeadOrder
import AmpTuner.Proofs.HeadOrder.Ends
import AmpTuner.Proofs.Rendering.Edits

/-!
# Pages that are left alone

For each pass of the default order: what a page is like that it has nothing to do for.

* **`Boilerplate.Settled`**, **`RuntimeCss.Settled`**, **`HeroImages.Settled`**: then the pass gives the very
  same page back.
* **`HeadOrder.InOrder`**: then ordering the head again, also behind `Extensions.run`, which gathers its scripts,
  gives the same order back.
* **`toHtml_tune_of_settled`**: a page that is all of this is written as it was after another run of the default
  order.
-/

namespace AmpTuner

open Markup (Element)
open Vocabulary

variable {page page' : Page} {id x : NodeId} {name value : String}

/-! ## Writing what is there -/

/-- To write what is there changes nothing. -/
theorem Markup.Attribute.put_of_find? {L : List Markup.Attribute}
    (h : (L.find? (·.name == name)).map (·.value) = some value) : put name value L = L := by
  induction L with
  | nil => cases h
  | cons a rest ih =>
    rw [List.find?_cons] at h
    by_cases hname : a.name = name
    · rw [beq_iff_eq.mpr hname] at h
      rw [put, if_pos hname, ← Option.some.inj h]
    · rw [beq_eq_false_iff_ne.mpr hname] at h
      rw [put, if_neg hname, ih h]

theorem Markup.Element.set_of_attribute? {el : Element} (h : el.attribute? name = some value) :
    el.set name value = el := by
  rw [set, Attribute.put_of_find? h]

/-- A change that leaves the element leaves the page. -/
theorem Page.mapElement_eq_self {f : Element → Element} (h : ∀ el, page.element? id = some el → f el = el) :
    page.mapElement id f = page := by
  refine Page.update_eq_self fun node hnode => ?_
  have hkind : page.kind? id = some node.kind := by rw [Page.kind?, hnode, Option.map_some]
  obtain ⟨kind, parent, children⟩ := node
  cases kind with
  | element el => rw [NodeKind.mapElement, h el (Page.element?_eq_some_iff.mpr hkind)]
  | text content => rfl
  | comment content => rfl

/-- To set an attribute of a node to its value changes nothing. -/
theorem Page.setAttribute_eq_self (h : page.attribute? id name = some value) :
    page.setAttribute id name value = page := by
  refine Page.mapElement_eq_self fun el hel => Markup.Element.set_of_attribute? ?_
  rw [Page.attribute?, hel] at h
  exact h

/-! ## The boilerplate and the viewport -/

/-- The page needs no boilerplate or brings its own, or it has the pair. -/
def Boilerplate.Settled (page : Page) : Prop :=
  page.hasAttribute page.root noBoilerplateMarker = true
    ∨ otherFormats.any (page.hasAttribute page.root) = true
    ∨ (styles page).length = 1 ∧ (noscripts page).length = 1

/-- Where the boilerplate is settled, the pass does nothing. -/
theorem Boilerplate.run_of_settled (h : Settled page) : run page = page := by
  unfold run
  split
  · rfl
  · next hmarked =>
    rw [Bool.or_eq_true, not_or] at hmarked
    rcases h with h | h | h
    · exact absurd h hmarked.1
    · exact absurd h hmarked.2
    · rw [if_pos (by simpa using h)]

theorem Viewport.run_of_single (h : (page.elementsWhere page.head isViewport).length = 1) :
    run page = page := by
  obtain ⟨viewport, h⟩ := List.length_eq_one_iff.mp h
  rw [run, h]

/-! ## The style sheet of the runtime -/

namespace RuntimeCss

variable {s : Settings.RuntimeCss} {fetch : Fetch}

/-- Where the style sheet goes. -/
def placeholder? (page : Page) : Option NodeId :=
  (page.children page.head).find? (page.isElement · isRuntimeStyle)

/-- The style sheet is not wanted, in place or linked, or it is empty and has been put in place. -/
inductive Settled (s : Settings.RuntimeCss) (fetch : Fetch) (page : Page) : Prop where
  | absent (h : placeholder? page = none)
  | inlined {style : NodeId} (h : placeholder? page = some style)
      (hversion : page.hasAttribute style versionAttribute = true) (htext : page.textContent style ≠ "")
  | linked {n : NodeId} (hn : n ∈ page.children page.head) (hlink : page.isElement n isRuntimeStylesheet = true)
  | empty {style : NodeId} (h : placeholder? page = some style) (hfetch : download fetch (url s) = .ok "")
      (hchildren : page.children style = [])
      (hversion : page.attribute? style versionAttribute = some (s.version.getD "latest"))

/-- A test for children that are elements needs no test for elements. -/
theorem any_elementChildren_iff {p : Element → Bool} : (page.elementChildren id).any (page.isElement · p) = true
    ↔ ∃ n ∈ page.children id, page.isElement n p = true := by
  rw [List.any_eq_true]
  constructor
  · rintro ⟨n, hn, hp⟩
    exact ⟨n, (List.mem_filter.mp hn).1, hp⟩
  · rintro ⟨n, hn, hp⟩
    obtain ⟨el, hel, -⟩ := Page.isElement_iff.mp hp
    exact ⟨n, List.mem_filter.mpr ⟨hn, by rw [hel]; rfl⟩, hp⟩

/-- What the pass does to the page, by what it finds. -/
theorem page_run : (run s fetch page).page = match placeholder? page with
    | none => page
    | some style =>
      if (page.hasAttribute style versionAttribute = true ∧ page.textContent style ≠ "")
          ∨ ∃ n ∈ page.children page.head, page.isElement n isRuntimeStylesheet = true then page
      else match download fetch (url s) with
        | .ok css => (page.setTextContent style css).setAttribute style versionAttribute (s.version.getD "latest")
        | .error _ => page.attachNew (.element (.make "link" [("rel", "stylesheet"), ("href", url s)])) page.head
            (insertAfter page.next style) := by
  unfold run placeholder?
  rw [← Page.find?_elementChildren]
  dsimp only
  cases (page.elementChildren page.head).find? (page.isElement · isRuntimeStyle) with
  | none => rfl
  | some style =>
    have hcondition : (page.hasAttribute style versionAttribute && !(page.textContent style).isEmpty
          || (page.elementChildren page.head).any (page.isElement · isRuntimeStylesheet)) = true
        ↔ (page.hasAttribute style versionAttribute = true ∧ page.textContent style ≠ "")
          ∨ ∃ n ∈ page.children page.head, page.isElement n isRuntimeStylesheet = true := by
      rw [Bool.or_eq_true, Bool.and_eq_true, any_elementChildren_iff, Bool.not_eq_true',
        Bool.eq_false_iff, Ne, Ne, String.isEmpty_iff]
    show Work.page (if _ then _ else _) = ite _ _ _
    simp only [hcondition]
    split
    · rfl
    · cases download fetch (url s) <;> rfl

/-- Where the style sheet is settled, the pass does nothing. -/
theorem run_of_settled (h : Settled s fetch page) : (run s fetch page).page = page := by
  rw [page_run]
  cases h with
  | absent h => rw [h]
  | inlined h hversion htext =>
    rw [h]
    exact if_pos (.inl ⟨hversion, htext⟩)
  | linked hn hlink =>
    split
    · rfl
    · exact if_pos (.inr ⟨_, hn, hlink⟩)
  | @empty style h hfetch hchildren hversion =>
    rw [h, hfetch]
    dsimp only
    split
    · rfl
    · have hset : page.setTextContent style "" = page := by
        rw [Page.setTextContent_eq, hchildren]
        rfl
      rw [hset, Page.setAttribute_eq_self hversion]

/-- The style sheet is where it was and as it was, and so are the links. -/
theorem Settled.congr (h : Settled s fetch page) (hplaceholder : placeholder? page' = placeholder? page)
    (hstyle : ∀ style, placeholder? page = some style → page'.element? style = page.element? style
      ∧ page'.children style = page.children style ∧ page'.textContent style = page.textContent style)
    (hlinks : ∀ n ∈ page.children page.head, page.isElement n isRuntimeStylesheet = true →
      n ∈ page'.children page'.head ∧ page'.isElement n isRuntimeStylesheet = true) : Settled s fetch page' := by
  cases h with
  | absent hnone => exact .absent (hplaceholder.trans hnone)
  | @inlined style hfound hversion htext =>
    obtain ⟨helement, -, hcontent⟩ := hstyle style hfound
    refine .inlined (hplaceholder.trans hfound) ?_ (hcontent ▸ htext)
    rwa [Page.hasAttribute, Page.isElement_congr helement]
  | @linked n hn hlink => exact .linked (hlinks n hn hlink).1 (hlinks n hn hlink).2
  | @empty style hfound hfetch hchildren hversion =>
    obtain ⟨helement, hsame, -⟩ := hstyle style hfound
    exact .empty (hplaceholder.trans hfound) hfetch (hsame.trans hchildren)
      (by rw [Page.attribute?, helement]; exact hversion)

end RuntimeCss

/-! ## Hero images -/

/-- Nothing below the body has changed, and no element has another tag. -/
structure Page.SameBody (page page' : Page) : Prop where
  wellFormed : page'.WellFormed
  root : page'.root = page.root
  body : page'.body = page.body
  children : ∀ x, x = page.body ∨ page.Above page.body x → page'.children x = page.children x
  element? : ∀ x, page.Above page.body x → page'.element? x = page.element? x
  tag? : ∀ x, page.Has x → page'.tag? x = page.tag? x

namespace Page.SameBody

variable (h : page.SameBody page') (hpage : page.WellFormed)

include h hpage

/-- With the same body, the same nodes are in it. -/
theorem descendants : page'.descendants page'.body = page.descendants page.body := by
  rw [hpage.linked.descendants_eq_preorder, h.wellFormed.linked.descendants_eq_preorder, h.body]
  refine hpage.linked.preorder_congr h.wellFormed.linked (S := fun a => a = page.body ∨ page.Above page.body a)
    ?_ h.children (.inl rfl)
  intro a c ha hc
  exact .inr ((Page.above_of_parent? hc).mpr (ha.imp Eq.symm fun habove => habove))

/-- The way up from below the body is the same. -/
theorem above_iff {a : NodeId} (hx : page.Above page.body x) : page'.Above a x ↔ page.Above a x := by
  refine hpage.linked.above_congr (S := fun x => x = page.root ∨ x = page.body ∨ page.Above page.body x)
    ?_ ?_ (.inr (.inr hx))
  · rintro x p (rfl | rfl | habove) hp
    · rw [hpage.parent?_root] at hp
      cases hp
    · rw [hpage.parent?_body] at hp
      exact .inl (Option.some.inj hp).symm
    · exact .inr (((Page.above_of_parent? hp).mp habove).imp Eq.symm fun habove => habove)
  · rintro x (rfl | rfl | habove)
    · rw [hpage.parent?_root, ← h.root, h.wellFormed.parent?_root]
    · rw [hpage.parent?_body, ← h.body, h.wellFormed.parent?_body, h.root]
    · obtain ⟨q, hq, hup⟩ := Page.above_iff.mp habove
      rw [hq, ← h.wellFormed.linked.mem_children_iff, h.children q (hup.imp Eq.symm fun habove => habove)]
      exact (hpage.linked.mem_children_iff q x).mpr hq

end Page.SameBody

namespace HeroImages

/-- There is nothing left to preload for the image. -/
def IsPreloaded (page : Page) (id : NodeId) : Prop :=
  ∀ image source, page.element? id = some image → image.attribute? "src" = some source →
    (image.hasAttribute renderedMarker || Text.startsWith "data:" source) = true

/-- For an image that is preloaded there is nothing to do. -/
theorem preload_of_isPreloaded (h : IsPreloaded page id) : preload page id = page := by
  unfold preload
  split
  · rfl
  · next image himage =>
    split
    · rfl
    · next source hsource => rw [if_pos (h image source himage hsource)]

/-- There is nothing left to preload. -/
def Settled (s : Settings.HeroImages) (page : Page) : Prop :=
  ∀ id ∈ (heroes page).take s.most, IsPreloaded page id

/-- Where the hero images are settled, the pass does nothing. -/
theorem run_of_settled {s : Settings.HeroImages} (h : Settled s page) : (run s page).page = page := by
  show ((heroes page).take s.most).foldl preload page = page
  unfold Settled at h
  generalize (heroes page).take s.most = ids at h ⊢
  induction ids with
  | nil => rfl
  | cons id ids ih =>
    obtain ⟨hid, hids⟩ := List.forall_mem_cons.mp h
    rw [List.foldl_cons, preload_of_isPreloaded hid, ih hids]

/-- What makes an image a hero, wherever it stands. -/
def isHero (el : Element) : Bool := el.tag == "amp-img" && el.hasAttribute "data-hero"

/-- The heroes depend on the images of the body and on what is above them. -/
theorem heroes_congr (hpage : page.Linked) (hpage' : page'.Linked)
    (himages : page'.elementsWhere page'.body isHero = page.elementsWhere page.body isHero)
    (habove : ∀ a x, page.Above page.body x → (page'.Above a x ↔ page.Above a x))
    (htag : ∀ a, page.Has a → page'.tag? a = page.tag? a) : heroes page' = heroes page := by
  show (page'.elementsWhere page'.body isHero).filter _ = (page.elementsWhere page.body isHero).filter _
  rw [himages]
  refine List.filter_congr fun x hx => ?_
  have hbelow := hpage.mem_descendants_iff.mp (List.mem_filter.mp hx).1
  rw [Bool.eq_iff_iff, Bool.not_eq_true', Bool.not_eq_true', Bool.eq_false_iff, Bool.eq_false_iff, Ne, Ne,
    hpage'.hasAncestor_iff, hpage.hasAncestor_iff]
  refine not_congr (exists_congr fun a => ?_)
  rw [habove a x hbelow]
  exact and_congr_right fun ha => by rw [Page.isTag, Page.isTag, htag a (hpage.has_of_above ha)]

/-- With the same body, the heroes are the same. -/
theorem heroes_eq (h : page.SameBody page') (hpage : page.WellFormed) : heroes page' = heroes page := by
  refine heroes_congr hpage.linked h.wellFormed.linked ?_ (fun a x hx => h.above_iff hpage hx) h.tag?
  rw [Page.elementsWhere, Page.elementsWhere, h.descendants hpage]
  exact List.filter_congr fun x hx =>
    Page.isElement_congr (h.element? x (hpage.linked.mem_descendants_iff.mp hx)) _

/-- A new element is no hero if it is not marked as one. -/
theorem heroes_attachNew (hpage : page.Linked) {el : Element} {parent : NodeId} {place : List NodeId → List NodeId}
    (h : (page.attachNew (.element el) parent place).Linked) (hparent : page.Has parent)
    (hplace : IsPlacement page.next place) (hplain : isHero el = false) :
    heroes (page.attachNew (.element el) parent place) = heroes page := by
  have hframe : page.SameFrame (page.attachNew (.element el) parent place) := Page.attachNew_sameFrame
  have hkinds : page.SameKinds (page.attachNew (.element el) parent place) := Page.attachNew_sameKinds
  refine heroes_congr hpage h ?_ (fun a x hx => ?_) fun x hx => Page.tag?_congr (hkinds.kind? x hx)
  · rw [hframe.body, Page.elementsWhere, Page.elementsWhere, h.descendants_eq_preorder,
      hpage.descendants_eq_preorder, ← hpage.filter_preorder_attachNew h hparent hplace, List.filter_filter]
    refine List.filter_congr fun x _ => ?_
    by_cases hx : x = page.next
    · subst hx
      rw [Page.isElement, Page.element?, Page.kind?_attachNew, if_pos rfl, bne_self_eq_false, Bool.and_false]
      exact hplain
    · have hkind : (page.attachNew (.element el) parent place).kind? x = page.kind? x := by
        rw [Page.kind?_attachNew, if_neg hx]
      rw [Page.isElement_congr (Page.element?_congr hkind), bne_iff_ne.mpr hx, Bool.and_true]
  · obtain ⟨q, hq, -⟩ := Page.above_iff.mp hx
    refine hpage.above_congr (S := page.Has) (fun x p _ hp => hpage.has_parent hp) (fun x hx => ?_)
      (Page.has_of_parent? hq)
    rw [Page.parent?_attachNew, if_neg (Page.ne_next_of_has hx)]

/-- Most attributes make no hero and unmake none. -/
theorem heroes_setAttribute (hpage : page.Linked) (hname : name ≠ "data-hero") :
    heroes (page.setAttribute id name value) = heroes page := by
  have hlinks : page.SameLinks (page.setAttribute id name value) := Page.mapElement_sameLinks _
  have h : (page.setAttribute id name value).Linked := hlinks.linked hpage
  have hhero (el : Element) : isHero (el.set name value) = isHero el := by
    rw [isHero, isHero, Markup.Element.tag_set, Markup.Element.hasAttribute_set, beq_false_of_ne hname.symm,
      Bool.or_false]
  refine heroes_congr hpage h ?_ (fun a x _ => hlinks.above_iff) fun x _ =>
    Page.tag?_mapElement (fun _ => Markup.Element.tag_set) id x
  show (page.setAttribute id name value).elementsWhere page.body isHero = _
  have hdescendants : (page.setAttribute id name value).descendants page.body = page.descendants page.body := by
    rw [h.descendants_eq_preorder, hpage.descendants_eq_preorder]
    exact hpage.preorder_congr h (S := fun _ => True) (fun _ _ _ _ => trivial) (fun x _ => hlinks.children x) trivial
  rw [Page.elementsWhere, Page.elementsWhere, hdescendants]
  refine List.filter_congr fun x _ => ?_
  rw [Page.isElement, Page.isElement, Page.setAttribute, Page.element?_mapElement]
  split
  · cases page.element? x with
    | none => rfl
    | some el => exact hhero el
  · rfl

/-- With the same body, hero images stay settled. -/
theorem Settled.congr {s : Settings.HeroImages} (h : Settled s page) (hsame : page.SameBody page')
    (hpage : page.WellFormed) : Settled s page' := by
  intro id hid image source himage
  rw [heroes_eq hsame hpage] at hid
  have hbelow : page.Above page.body id :=
    hpage.linked.mem_descendants_iff.mp (List.mem_filter.mp (List.mem_filter.mp (List.mem_of_mem_take hid)).1).1
  exact h id hid image source ((hsame.element? id hbelow).symm.trans himage)

end HeroImages

/-! ## The order of the head -/

namespace HeadOrder

/-- The children of the head stand as they are arranged. -/
structure InOrder (page : Page) (slot : NodeId → HeadSlot) : Prop where
  slotting : IsSlotting page (page.children page.head) slot
  arranged : arrange page slot (page.children page.head) = page.children page.head
  visible : ∀ x ∈ page.children page.head, isBlankText page x = false

/-- Gathering scripts does not change the order of anything else. -/
theorem Gathered.filter_eq {A B : List NodeId} (h : Gathered page A B) (hnodup : A.Nodup) {p : Element → Bool}
    (hp : ∀ el, p el = true → isGathered el = false) :
    B.filter (page.isElement · p) = A.filter (page.isElement · p) := by
  have hother {x : NodeId} (hx : x ∈ A.filter (page.isElement · p)) : page.isElement x isGathered = false := by
    obtain ⟨el, hel, hpel⟩ := Page.isElement_iff.mp (List.mem_filter.mp hx).2
    rw [isElement_of_element? hel, hp el hpel]
  refine @List.Perm.eq_of_pairwise _ (fun x y => [x, y].Sublist B) _ _ ?_ ?_ ?_ (h.perm.filter _)
  · intro x y _ _ hxy hyx
    exact absurd hyx (not_pair_sublist_swap (h.perm.nodup_iff.mpr hnodup) hxy)
  · exact List.pairwise_iff_forall_sublist.mpr fun hxy => hxy.trans List.filter_sublist
  · refine List.pairwise_iff_forall_sublist.mpr fun {x y} hxy => ?_
    have hx : x ∈ A.filter (page.isElement · p) := hxy.subset (by simp)
    have hy : y ∈ A.filter (page.isElement · p) := hxy.subset (by simp)
    exact h.others x y (hxy.trans List.filter_sublist) (hother hx) (hother hy)

end HeadOrder

/-! ## After the scripts were gathered -/

theorem HeadOrder.isGathered_of_tag {el : Element} (h : el.tag ≠ "script") : HeadOrder.isGathered el = false := by
  simp [HeadOrder.isGathered, isRuntimeScript, isExtensionScript, extensionName?, h]

theorem tag_of_isRuntimeStyle {el : Element} (h : isRuntimeStyle el = true) : el.tag = "style" := by
  rw [isRuntimeStyle, Bool.and_eq_true, beq_iff_eq] at h
  exact h.1

namespace Extensions.Regathered

open HeadOrder (InOrder ViewerAlone isGathered isGathered_of_tag IsSlotting arrange isBlankText visible)

variable (h : Regathered page page')

include h

theorem element? (x : NodeId) : page'.element? x = page.element? x := Page.element?_congr (h.kind? x)

theorem isElement (x : NodeId) (p : Element → Bool) : page'.isElement x p = page.isElement x p :=
  Page.isElement_congr (h.element? x) p

variable (hpage : page.WellFormed)

include hpage

/-- The first child of a kind other than scripts is the same. -/
theorem find?_head {p : Element → Bool} (hp : ∀ el, p el = true → isGathered el = false) :
    (page'.children page'.head).find? (page'.isElement · p)
      = (page.children page.head).find? (page.isElement · p) := by
  have hsame : (page'.isElement · p) = (page.isElement · p) := funext fun x => h.isElement x p
  rw [h.frame.head, hsame, ← List.head?_filter, ← List.head?_filter,
    h.gathered.filter_eq (hpage.linked.nodup _) hp]

/-- A settled style sheet stays settled when scripts are gathered. -/
theorem runtimeCss {s : Settings.RuntimeCss} {fetch : Fetch} (hsettled : RuntimeCss.Settled s fetch page) :
    RuntimeCss.Settled s fetch page' := by
  have hplaceholder : RuntimeCss.placeholder? page' = RuntimeCss.placeholder? page :=
    h.find?_head hpage fun el hel => isGathered_of_tag (by rw [tag_of_isRuntimeStyle hel]; decide)
  refine hsettled.congr hplaceholder (fun style hfound => ?_) fun n hn hlink => ?_
  · have hparent : page.parent? style = some page.head :=
      (hpage.linked.mem_children_iff _ _).mp (List.mem_of_find?_eq_some hfound)
    exact ⟨h.element? style, h.children style (hpage.head_child hparent).1,
      hpage.textContent_congr_of_child h.wellFormed (fun x _ => Page.text?_congr (h.kind? x)) h.children hparent⟩
  · rw [h.frame.head]
    exact ⟨h.gathered.perm.mem_iff.mpr hn, (h.isElement _ _).trans hlink⟩

/-- Gathering scripts leaves the body alone. -/
theorem sameBody : page.SameBody page' where
  wellFormed := h.wellFormed
  root := h.frame.root
  body := h.frame.body
  children x hx := by
    refine h.children x ?_
    rintro rfl
    rcases hx with heq | habove
    · exact hpage.head_ne_body heq
    · exact hpage.body_ne_root (hpage.above_head_iff.mp habove)
  element? x _ := h.element? x
  tag? x _ := by rw [Page.tag?, h.element?]; rfl

/-- Gathering is undone by ordering. -/
theorem children_headOrder {slot : NodeId → HeadSlot} (horder : InOrder page slot)
    (hviewer : ViewerAlone page (page.children page.head)) (x : NodeId) :
    (HeadOrder.run page').children x = page.children x := by
  have hwell := h.wellFormed
  have hnodup := hpage.linked.nodup page.head
  by_cases hx : x = page.head
  · subst hx
    have hslot : IsSlotting page (page'.children page.head) slot :=
      h.gathered.isSlotting hnodup hviewer horder.slotting
    have hslot' : IsSlotting page' (page'.children page'.head) slot := by
      rw [h.frame.head]
      exact (HeadOrder.isSlotting_congr h.kind?).mpr hslot
    have hvisible : visible page' (page'.children page.head) = page'.children page.head := by
      refine List.filter_eq_self.mpr fun y hy => ?_
      have hblank := horder.visible y (h.gathered.perm.mem_iff.mp hy)
      rw [isBlankText, h.kind?]
      rw [isBlankText] at hblank
      rw [hblank]
      rfl
    calc (HeadOrder.run page').children page.head
        = arrange page' slot (page'.children page.head) := by
          have hrun := HeadOrder.children_head_run hwell.linked hwell.has_head hslot'
          rwa [h.frame.head, hvisible] at hrun
      _ = arrange page slot (page'.children page.head) := HeadOrder.arrange_congr_kinds h.kind?
      _ = arrange page slot (page.children page.head) :=
          h.gathered.arrange_eq hnodup hviewer horder.slotting
      _ = page.children page.head := horder.arranged
  · rw [HeadOrder.children_run hwell.linked hwell.has_head, h.frame.head, if_neg hx, h.children x hx]

end Extensions.Regathered

/-! ## The default order -/

/-- The default order has nothing to do for the page, but for gathering the scripts and ordering them again. -/
structure Settled (r : Resources) (page : Page) : Prop where
  boilerplate : Boilerplate.Settled page
  viewport : (page.elementsWhere page.head Viewport.isViewport).length = 1
  extensions : Extensions.Complete {} r.spec page
  rendering : page.hasAttribute page.root layoutMarker = true
  runtimeCss : RuntimeCss.Settled {} r.fetch page
  heroImages : HeroImages.Settled {} page
  identifier : page.attribute? page.root "transformed" = some "self;v=1"
  headOrder : ∃ slot, HeadOrder.InOrder page slot
  viewerAlone : HeadOrder.ViewerAlone page (page.children page.head)

/-- A default run, pass by pass. -/
theorem page_tune (r : Resources) (page : Page) : (tune {} r page).work.page
    = HeadOrder.run (Identifier.run (HeroImages.run {} (RuntimeCss.run {} r.fetch (Rendering.run {}
        (Extensions.run {} r.spec (Viewport.run (Boilerplate.run page))).page).page).page).page) := by
  have horder : Pass.defaultOrder {} = [.boilerplate, .viewport, .extensions, .rendering, .runtimeCss, .heroImages,
      .identifier, .headOrder] := by decide
  have hpipeline : Pipeline.ofSettings {} = .ok ⟨Pass.defaultOrder {}, []⟩ := rfl
  simp only [tune, hpipeline, horder, Pipeline.run, Pipeline.runPasses, Pass.run]

/-- A settled page comes out of a default run with the same text. -/
theorem toHtml_tune_of_settled {r : Resources} (hpage : page.WellFormed) (h : Settled r page) :
    (tune {} r page).work.page.toHtml = page.toHtml := by
  have hregathered := Extensions.regathered_run hpage h.extensions rfl
  obtain ⟨slot, horder⟩ := h.headOrder
  rw [page_tune, Boilerplate.run_of_settled h.boilerplate, Viewport.run_of_single h.viewport]
  generalize (Extensions.run {} r.spec page).page = gathered at hregathered
  have hrendered : gathered.hasAttribute gathered.root layoutMarker = true := by
    rw [hregathered.frame.root, Page.hasAttribute, hregathered.isElement]
    exact h.rendering
  have hidentified : gathered.attribute? gathered.root "transformed" = some "self;v=1" := by
    rw [hregathered.frame.root, Page.attribute?, hregathered.element?]
    exact h.identifier
  rw [Rendering.run_of_marked hrendered, RuntimeCss.run_of_settled (hregathered.runtimeCss hpage h.runtimeCss),
    HeroImages.run_of_settled (h.heroImages.congr (hregathered.sameBody hpage) hpage), Identifier.run,
    Page.setAttribute_eq_self hidentified]
  -- what is left is the order of the head
  have hwell := hregathered.wellFormed
  have hframe : page.SameFrame (HeadOrder.run gathered) := hregathered.frame.trans HeadOrder.run_sameFrame
  have htree : (HeadOrder.run gathered).treeOf page.root = page.treeOf page.root :=
    hpage.linked.treeOf_congr (HeadOrder.run_linked hwell.linked hwell.has_head) (S := fun _ => True)
      (fun _ _ _ _ => trivial) (fun x _ => HeadOrder.kind?_run.trans (hregathered.kind? x))
      (fun x _ => hregathered.children_headOrder hpage horder h.viewerAlone x) trivial
  rw [Page.toHtml, Page.toHtml, Page.toDocument, Page.toDocument, hframe.doctype, hframe.root, htree]

end AmpTuner
