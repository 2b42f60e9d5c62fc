import AmpTuner.Proofs.HeroImages.Preloads
import AmpTuner.Proofs.Rendering.Evolving

/-!
# What the passes behind rendering leave to do

Nothing: each of them has nothing left to do once it has run, and none of them undoes what another has done.

* **`RuntimeCss.settled_run`**, **`HeadOrder.inOrder_run`**: what a pass has done, it has no need to do again.
* **`RuntimeCss.evolves_run`**, **`HeroImages.evolves_run`**, **`HeadOrder.…`**: what it does to the page.
-/

namespace AmpTuner

open Markup (Element)
open Vocabulary

variable {lost : Element → Prop} {page page' page'' : Page} {id x n : NodeId} {el : Element}

/-! ## The style sheet of the runtime -/

namespace RuntimeCss

variable {s : Settings.RuntimeCss} {fetch : Fetch} {style : NodeId} {css : String}

theorem placeholder?_eq_head? :
    placeholder? page = ((page.children page.head).filter (page.isElement · isRuntimeStyle)).head? :=
  List.head?_filter.symm

/-- The placeholder is a style in the head. -/
theorem of_placeholder? (h : page.WellFormed) (hfound : placeholder? page = some style) :
    page.parent? style = some page.head ∧ ∃ el, page.element? style = some el ∧ el.tag = "style"
      ∧ isRuntimeStyle el = true := by
  have hstyle := List.find?_some hfound
  obtain ⟨el, hel, hruntime⟩ := Page.isElement_iff.mp hstyle
  exact ⟨(h.linked.mem_children_iff _ _).mp (List.mem_of_find?_eq_some hfound), el, hel,
    tag_of_isRuntimeStyle hruntime, hruntime⟩

/-- The page with the style sheet in its place. -/
def inlined (s : Settings.RuntimeCss) (page : Page) (style : NodeId) (css : String) : Page :=
  (page.setTextContent style css).setAttribute style versionAttribute (s.version.getD "latest")

/-- The page with the style sheet linked. -/
def linked (s : Settings.RuntimeCss) (page : Page) (style : NodeId) : Page :=
  page.attachNew (.element (.make "link" [("rel", "stylesheet"), ("href", url s)])) page.head
    (insertAfter page.next style)

/-- The pass does nothing, writes the style sheet into its placeholder, or links to it. -/
theorem run_cases (s : Settings.RuntimeCss) (fetch : Fetch) (page : Page) :
    ((run s fetch page).page = page ∧ Settled s fetch page)
      ∨ (∃ style css, placeholder? page = some style ∧ download fetch (url s) = .ok css
        ∧ (run s fetch page).page = inlined s page style css)
      ∨ ∃ style reason, placeholder? page = some style ∧ download fetch (url s) = .error reason
        ∧ (run s fetch page).page = linked s page style := by
  rw [page_run]
  cases hfound : placeholder? page with
  | none => exact .inl ⟨rfl, .absent hfound⟩
  | some style =>
    dsimp only
    split
    · next hdone =>
      refine .inl ⟨rfl, ?_⟩
      rcases hdone with ⟨hversion, htext⟩ | ⟨n, hn, hlink⟩
      · exact .inlined hfound hversion htext
      · exact .linked hn hlink
    · cases hfetch : download fetch (url s) with
      | ok css => exact .inr (.inl ⟨style, css, rfl, rfl, rfl⟩)
      | error reason => exact .inr (.inr ⟨style, reason, rfl, rfl, rfl⟩)

section Writes

variable (h : page.WellFormed) (hliteral : page.HeadLiteral) (hfound : placeholder? page = some style)

include h hliteral hfound

theorem evolves_setTextContent_style (css : String) :
    Evolves lost page (page.setTextContent style css) fun x => x := by
  obtain ⟨hparent, el, hel, htag, -⟩ := of_placeholder? h hfound
  exact evolves_setTextContent h hliteral hparent (by rw [Page.tag?, hel, ← htag]; rfl) css

/-- The version may be written on the placeholder. -/
theorem evolves_setVersion (css : String) :
    Evolves lost (page.setTextContent style css) (inlined s page style css) fun x => x := by
  have hset : Evolves lost page (page.setTextContent style css) fun x => x :=
    evolves_setTextContent_style h hliteral hfound css
  obtain ⟨-, el, hel, htag, -⟩ := of_placeholder? h hfound
  refine evolves_setAttribute hset.wellFormed hset.literal (by decide) ?_
  rw [Page.tag?, Page.element?_congr (Page.kind?_setTextContent_of_has (Page.has_of_element? hel) css), hel,
    Option.map_some, htag]
  decide

theorem evolves_inlined (css : String) :
    Evolves (fun _ => False) page (inlined s page style css) fun x => x :=
  (evolves_setTextContent_style h hliteral hfound css).trans (evolves_setVersion h hliteral hfound css)
    fun _ _ _ hnone => hnone

omit hfound in
theorem evolves_linked : Evolves lost page (linked s page style) fun x => x :=
  evolves_attachNew h hliteral (Element.distinct_make _ _) (.make (by decide) (by simp [paddingNames]))
    h.tag?_head (by decide) h.head_ne_root (isPlacement_insertAfter _ style)

/-- What was put in place is found there. -/
theorem settled_inlined (hfetch : download fetch (url s) = .ok css) :
    Settled s fetch (inlined s page style css) := by
  obtain ⟨hparent, el, hel, htag, -⟩ := of_placeholder? h hfound
  have hhas := Page.has_of_element? hel
  have hset : Evolves (fun _ => False) page (page.setTextContent style css) fun x => x :=
    evolves_setTextContent_style h hliteral hfound css
  have hversion : Evolves (fun _ => False) (page.setTextContent style css) (inlined s page style css) fun x => x :=
    evolves_setVersion h hliteral hfound css
  have hboth : Evolves (fun _ => False) page (inlined s page style css) fun x => x :=
    evolves_inlined h hliteral hfound css
  have hlinks : (page.setTextContent style css).SameLinks (inlined s page style css) :=
    Page.mapElement_sameLinks _
  have hchildren : (page.setTextContent style css).children page.head = page.children page.head := by
    rw [h.linked.children_setTextContent css hhas, if_neg (h.head_child hparent).1.symm]
  have hplaceholder : placeholder? (inlined s page style css) = some style := by
    rw [← hfound, placeholder?_eq_head?, placeholder?_eq_head?, hboth.head, hlinks.children, hchildren]
    exact congrArg List.head? (List.filter_congr fun x hx =>
      hboth.isElement_eq (fun _ _ hres => hres.isRuntimeStyle) (h.linked.has_child hx))
  have hkept : (page.setTextContent style css).element? style = some el := by
    rw [Page.element?_congr (Page.kind?_setTextContent_of_has hhas css), hel]
  have hwritten : (inlined s page style css).element? style
      = some (el.set versionAttribute (s.version.getD "latest")) := by
    rw [inlined, Page.setAttribute, Page.element?_mapElement, if_pos rfl, hkept]
    rfl
  by_cases hempty : css = ""
  · subst hempty
    refine .empty hplaceholder hfetch ?_ ?_
    · rw [hlinks.children, h.linked.children_setTextContent "" hhas, if_pos rfl]
      rfl
    · rw [Page.attribute?, hwritten, Option.bind_some, Markup.Element.attribute?_set, if_pos rfl]
  · refine .inlined hplaceholder ?_ ?_
    · rw [Page.hasAttribute, Page.isElement, hwritten, Option.any_some, Markup.Element.hasAttribute_set_self]
    · have hraw : Markup.isRawText el.tag = true := by
        rw [htag]
        decide
      rwa [hversion.textContent hset.wellFormed hset.literal ?_ hkept hraw hwritten (hlinks.children style),
        h.textContent_setTextContent hel (h.head_child hparent).2.2]
      rw [hset.head, ← hset.wellFormed.linked.mem_children_iff, hchildren]
      exact (h.linked.mem_children_iff _ _).mpr hparent

end Writes

/-- The pass loses nothing. -/
theorem evolves_run (h : page.WellFormed) (hliteral : page.HeadLiteral) (s : Settings.RuntimeCss)
    (fetch : Fetch) : Evolves (fun _ => False) page (run s fetch page).page fun x => x := by
  rcases run_cases s fetch page with ⟨heq, -⟩ | ⟨style, css, hfound, -, heq⟩ | ⟨style, -, -, -, heq⟩ <;>
    rw [heq]
  · exact .refl h hliteral
  · exact evolves_inlined h hliteral hfound css
  · exact evolves_linked h hliteral

/-- What is linked without a version is a style sheet of the runtime. -/
theorem settled_run (h : page.WellFormed) (hliteral : page.HeadLiteral) (fetch : Fetch) :
    Settled {} fetch (run {} fetch page).page := by
  rcases run_cases {} fetch page with ⟨heq, hdone⟩ | ⟨style, css, hfound, hfetch, heq⟩ | ⟨style, -, -, -, heq⟩ <;>
    rw [heq]
  · exact hdone
  · exact settled_inlined h hliteral hfound hfetch
  · refine .linked (n := page.next) ?_ ?_
    · have hframe : page.SameFrame (linked {} page style) := Page.attachNew_sameFrame
      rw [hframe.head, linked, h.linked.children_attachNew h.has_head, if_pos rfl,
        ((isPlacement_insertAfter page.next style).perm _).mem_iff]
      exact List.mem_cons_self
    · rw [linked, Page.isElement, Page.element?, Page.kind?_attachNew, if_pos rfl]
      show isRuntimeStylesheet _ = true
      decide +kernel

/-- Children that are put behind those of the head, and writes elsewhere, do not undo the pass. -/
theorem Settled.evolve (hsettled : Settled s fetch page) (h : page.WellFormed) (hliteral : page.HeadLiteral)
    (hevolves : Evolves lost page page' fun x => x)
    (hhead : ∃ added, page'.children page.head = page.children page.head ++ added
      ∧ ∀ n ∈ added, page'.isElement n isRuntimeStyle = false)
    (hstyles : ∀ x, page.tag? x = some "style" →
      page'.kind? x = page.kind? x ∧ page'.children x = page.children x) : Settled s fetch page' := by
  obtain ⟨added, hchildren, hadded⟩ := hhead
  have hold {x : NodeId} (hx : x ∈ page.children page.head) {p : Element → Bool}
      (hp : ∀ el el', Resembles el el' → p el' = p el) : page'.isElement x p = page.isElement x p :=
    hevolves.isElement_eq hp (h.linked.has_child hx)
  have hplaceholder : placeholder? page' = placeholder? page := by
    have hnone : added.filter (page'.isElement · isRuntimeStyle) = [] :=
      List.filter_eq_nil_iff.mpr fun n hn => by rw [hadded n hn]; decide
    rw [placeholder?_eq_head?, placeholder?_eq_head?, hevolves.head, hchildren, List.filter_append, hnone,
      List.append_nil]
    exact congrArg List.head? (List.filter_congr fun x hx => hold hx fun _ _ hres => hres.isRuntimeStyle)
  refine hsettled.congr hplaceholder (fun style hfound => ?_) fun n hn hlink => ?_
  · obtain ⟨hparent, el, hel, htag, -⟩ := of_placeholder? h hfound
    obtain ⟨hkind, hsame⟩ := hstyles style (by rw [Page.tag?, hel, ← htag]; rfl)
    have helement := Page.element?_congr hkind
    have hraw : Markup.isRawText el.tag = true := by
      rw [htag]
      decide
    exact ⟨helement, hsame, hevolves.textContent h hliteral hparent hel hraw (helement.trans hel) hsame⟩
  · rw [hevolves.head, hchildren, hold hn fun _ _ hres => hres.isRuntimeStylesheet]
    exact ⟨List.mem_append_left _ hn, hlink⟩

end RuntimeCss

/-! ## Hero images -/

/-- Tags stay where every node stands for itself. -/
theorem Evolves.tag? (h : Evolves lost page page' fun x => x) {tag : String} (hx : page.tag? x = some tag) :
    page'.tag? x = some tag := by
  obtain ⟨el, hel, rfl⟩ := Option.map_eq_some_iff.mp hx
  obtain ⟨el', hel', hres⟩ := h.resembles x el hel
  rw [Page.tag?, hel', ← hres.tag]
  rfl

namespace HeroImages

/-- An attribute is copied under its target. -/
theorem fst_mem_of_copied {image : Element} {name target : String} {p : String × String}
    (hp : p ∈ copied image name target) : p.1 = target := by
  rw [copied, Option.mem_toList, Option.map_eq_some_iff] at hp
  obtain ⟨value, -, rfl⟩ := hp
  rfl

/-- A link that preloads has the attributes of padding. -/
theorem preloadAttributes_names (image : Element) (source : String) :
    ∀ p ∈ preloadAttributes image source, p.1 ∈ paddingNames := by
  intro p hp
  rw [preloadAttributes, List.mem_append] at hp
  rcases hp with hp | hp
  · have hall : ∀ name ∈ ["rel", "as", "href"], name ∈ paddingNames := by decide
    refine hall p.1 ?_
    simp only [List.mem_cons, List.not_mem_nil, or_false] at hp
    rcases hp with rfl | rfl | rfl <;> simp
  · split at hp
    · rcases List.mem_append.mp hp with hp | hp <;> rw [fst_mem_of_copied hp] <;> decide
    · cases hp

/-- A rendering has the attributes of padding. -/
theorem renderedAttributes_names (image : Element) :
    ∀ p ∈ renderedAttributes image, p.1 ∈ paddingNames := by
  intro p hp
  rw [renderedAttributes, List.mem_append] at hp
  rcases hp with hp | hp
  · obtain ⟨name, hname, hp⟩ := List.mem_flatMap.mp hp
    have hall : ∀ name ∈ ["src", "srcset", "sizes", "alt", "referrerpolicy"], name ∈ paddingNames := by decide
    rw [fst_mem_of_copied hp]
    exact hall name hname
  · have hall : ∀ p ∈ [("decoding", "async"), ("class", "i-amphtml-fill-content i-amphtml-replaced-content")],
        p.1 ∈ paddingNames := by decide
    exact hall p hp

section Steps

variable (h : page.WellFormed) (hliteral : page.HeadLiteral)

include h hliteral

/-- Link and rendering are padding. -/
theorem evolves_add (htag : page.tag? id = some "amp-img") (image : Element) (source : String) :
    Evolves (fun _ => False) page (add page id (.make "link" (preloadAttributes image source))
      (.make "img" (renderedAttributes image))) fun x => x := by
  have hlink : Evolves (fun _ => False) page (addLink page (.make "link" (preloadAttributes image source)))
      fun x => x :=
    evolves_attachNew h hliteral (Element.distinct_make _ _) (.make (by decide) (preloadAttributes_names image source))
      h.tag?_head (by decide) h.head_ne_root (isPlacement_append _)
  rw [add]
  generalize addLink page (.make "link" (preloadAttributes image source)) = linked at hlink
  have htag' : linked.tag? id = some "amp-img" := hlink.tag? htag
  have himg : Evolves (fun _ => False) linked (linked.attachNew (.element (.make "img" (renderedAttributes image))) id
      (· ++ [linked.next])) fun x => x :=
    evolves_attachNew hlink.wellFormed hlink.literal (Element.distinct_make _ _)
      (.make (by decide) (renderedAttributes_names image)) htag' (by decide)
      (fun heq => hlink.wellFormed.not_isFixed_of_tag? htag' (by decide) (.inl heq)) (isPlacement_append _)
  generalize linked.attachNew _ id _ = rendered at himg ⊢
  have hmark : Evolves (fun _ => False) rendered (rendered.setAttribute id renderedMarker "") fun x => x :=
    evolves_setAttribute himg.wellFormed himg.literal (by decide) (by rw [himg.tag? htag']; decide)
  exact (hlink.trans himg fun _ _ _ hnone => hnone).trans hmark fun _ _ _ hnone => hnone

/-- One hero image loses nothing. -/
theorem evolves_preload (htag : page.tag? id = some "amp-img") :
    Evolves (fun _ => False) page (preload page id) fun x => x := by
  obtain heq | ⟨image, source, heq⟩ := preload_eq_or page id
  · rw [heq]
    exact .refl h hliteral
  · rw [heq]
    exact evolves_add h hliteral htag image source

/-- Any number of hero images loses nothing. By induction on them. -/
theorem evolves_foldl {ids : List NodeId} (htags : ∀ id ∈ ids, page.tag? id = some "amp-img") :
    Evolves (fun _ => False) page (ids.foldl preload page) fun x => x := by
  induction ids generalizing page with
  | nil => exact .refl h hliteral
  | cons id ids ih =>
    obtain ⟨hid, hids⟩ := List.forall_mem_cons.mp htags
    have hstep := evolves_preload h hliteral hid
    have htags' : ∀ id' ∈ ids, (preload page id).tag? id' = some "amp-img" := fun id' hid' => hstep.tag? (hids id' hid')
    exact hstep.trans (ih hstep.wellFormed hstep.literal htags') fun _ _ _ hnone => hnone

theorem evolves_run (s : Settings.HeroImages) : Evolves (fun _ => False) page (run s page).page fun x => x :=
  evolves_foldl h hliteral fun _ hid => tag?_of_mem_heroes (List.mem_of_mem_take hid)

/-- Only links come into the head, and no style changes. -/
theorem runtimeCss_run {s : Settings.HeroImages} {s' : Settings.RuntimeCss} {fetch : Fetch}
    (hsettled : RuntimeCss.Settled s' fetch page) : RuntimeCss.Settled s' fetch (run s page).page := by
  obtain ⟨added, hadds, -⟩ := exists_adds_run h s
  refine hsettled.evolve h hliteral (evolves_run h hliteral s) ⟨added.map (·.link), hadds.head, fun n hn => ?_⟩
    fun x htag => ?_
  · obtain ⟨a, ha, rfl⟩ := List.mem_map.mp hn
    obtain ⟨_, hmade⟩ := hadds.made a ha
    obtain ⟨el, hel, hlink⟩ := hmade.link
    rw [Page.isElement, hel, Option.any_some, isRuntimeStyle, hlink.tag]
    rfl
  · have himage : x ∉ added.map (·.image) := fun hx => by
      rw [hadds.tag?_of_mem hx] at htag
      exact absurd (Option.some.inj htag) (by decide)
    have hhas := Page.has_of_tag? htag
    refine ⟨hadds.kind? x hhas himage, hadds.children x hhas himage ?_⟩
    rintro rfl
    rw [h.tag?_head] at htag
    exact absurd (Option.some.inj htag) (by decide)

end Steps

end HeroImages

/-! ## The mark of the root -/

namespace Identifier

variable (h : page.WellFormed) (hliteral : page.HeadLiteral)

include h

/-- The mark is not in the body. -/
theorem sameBody_run : page.SameBody (run page) := by
  have hlinks : page.SameLinks (run page) := Page.mapElement_sameLinks _
  have hframe : page.SameFrame (run page) := Page.mapElement_sameFrame _
  have hset (el : Element) : (el.set "transformed" "self;v=1").tag = el.tag := rfl
  exact
    { wellFormed := run_wellFormed h
      root := hframe.root
      body := hframe.body
      children := fun x _ => hlinks.children x
      element? := fun x hx => Page.element?_congr (Page.kind?_mapElement_of_ne _ fun heq =>
        h.not_above_root (heq ▸ hx))
      tag? := fun x _ => Page.tag?_mapElement hset page.root x }

theorem attribute?_run : (run page).attribute? page.root "transformed" = some "self;v=1" := by
  obtain ⟨el, hel, -⟩ := Option.map_eq_some_iff.mp h.tag?_root
  rw [Page.attribute?, run, Page.setAttribute, Page.element?_mapElement, if_pos rfl, hel, Option.map_some,
    Option.bind_some, Markup.Element.attribute?_set, if_pos rfl]

include hliteral

theorem evolves_run : Evolves lost page (run page) fun x => x := Rendering.evolves_markRoot h hliteral (by decide)

/-- A settled style sheet stays settled under the mark. -/
theorem runtimeCss_run {s : Settings.RuntimeCss} {fetch : Fetch} (hsettled : RuntimeCss.Settled s fetch page) :
    RuntimeCss.Settled s fetch (run page) := by
  have hlinks : page.SameLinks (run page) := Page.mapElement_sameLinks _
  have hevolves : Evolves (fun _ => False) page (run page) fun x => x := evolves_run h hliteral
  refine hsettled.evolve h hliteral hevolves ⟨[], by rw [hlinks.children, List.append_nil], by simp⟩ fun x htag =>
    ⟨Page.kind?_mapElement_of_ne _ ?_, hlinks.children x⟩
  rintro rfl
  rw [h.tag?_root] at htag
  exact absurd (Option.some.inj htag) (by decide)

end Identifier

/-! ## The order of the head -/

namespace HeadOrder

variable (h : page.WellFormed)

include h

theorem children_run_of_ne (hx : x ≠ page.head) : (run page).children x = page.children x := by
  rw [children_run h.linked h.has_head, if_neg hx]

/-- Blank texts go, and nothing else does. -/
theorem parent?_run_of_element (hel : page.element? x = some el) : (run page).parent? x = page.parent? x := by
  rw [parent?_run h.linked, if_neg]
  rintro ⟨-, hblank⟩
  rw [isBlankText_of_element? hel] at hblank
  cases hblank

/-- Ordering the head loses nothing. -/
theorem evolves_run (hliteral : page.HeadLiteral) : Evolves lost page (run page) fun x => x := by
  have hframe : page.SameFrame (run page) := run_sameFrame
  have hback {x q : NodeId} (hq : (run page).parent? x = some q) : page.parent? x = some q := by
    rw [parent?_run h.linked] at hq
    split at hq
    · cases hq
    · exact hq
  have haugments : Augments page (run page) :=
    { toMaintains := .of_sameKinds (run_wellFormed h) hframe ⟨fun _ _ => kind?_run⟩
      kind? := fun x _ => .inl kind?_run
      padding := fun x el hnot hel => absurd (has_run.mp (Page.has_of_element? hel)) hnot
      back := fun x q _ hq => hback hq
      forward := fun x el q hel hq => (parent?_run_of_element h hel).trans hq
      raw := fun c q tag hnot hq => absurd (Page.has_of_parent? (hback hq)) hnot
      scripts := by
        intro x htag _
        refine children_run_of_ne h ?_
        rintro rfl
        rw [h.tag?_head] at htag
        exact absurd (Option.some.inj htag) (by decide)
      marks := fun name hmark => by
        rwa [Page.hasAttribute, Page.isElement_congr (Page.element?_congr kind?_run)] }
  exact haugments.evolves h hliteral

/-- Ordering the head leaves the body alone. -/
theorem sameBody_run : page.SameBody (run page) where
  wellFormed := run_wellFormed h
  root := run_sameFrame.root
  body := run_sameFrame.body
  children x hx := by
    refine children_run_of_ne h ?_
    rintro rfl
    rcases hx with heq | habove
    · exact h.head_ne_body heq
    · exact h.body_ne_root (h.above_head_iff.mp habove)
  element? x _ := Page.element?_congr kind?_run
  tag? x _ := Page.tag?_congr kind?_run

omit h in
theorem isElement_run (x : NodeId) (p : Element → Bool) : (run page).isElement x p = page.isElement x p :=
  Page.isElement_congr (Page.element?_congr kind?_run) p

/-- A settled style sheet stays settled when the head is ordered. -/
theorem runtimeCss_run (hliteral : page.HeadLiteral) {s : Settings.RuntimeCss} {fetch : Fetch}
    (hsettled : RuntimeCss.Settled s fetch page) : RuntimeCss.Settled s fetch (run page) := by
  have hevolves : Evolves (fun _ => False) page (run page) fun x => x := evolves_run h hliteral
  have hhead : (run page).head = page.head := run_sameFrame.head
  obtain ⟨slot, hslot, harranged⟩ := exists_slotting h.linked
  have hchildren : (run page).children page.head = arranged page := by
    rw [children_run h.linked h.has_head, if_pos rfl]
  have hplaceholder : RuntimeCss.placeholder? (run page) = RuntimeCss.placeholder? page := by
    have hsame : ((run page).isElement · isRuntimeStyle) = (page.isElement · isRuntimeStyle) :=
      funext fun x => isElement_run x _
    rw [RuntimeCss.placeholder?, hsame, hhead, hchildren, harranged]
    exact find?_arrange ofElement_eq_runtimeStyle hslot (h.linked.nodup _) (by decide) (by decide)
  refine hsettled.congr hplaceholder (fun style hfound => ?_) fun n hn hlink => ?_
  · obtain ⟨hparent, el, hel, htag, -⟩ := RuntimeCss.of_placeholder? h hfound
    have hsame := children_run_of_ne h (h.head_child hparent).1
    have helement : (run page).element? style = page.element? style := Page.element?_congr kind?_run
    have hraw : Markup.isRawText el.tag = true := by
      rw [htag]
      decide
    exact ⟨helement, hsame, hevolves.textContent h hliteral hparent hel hraw (helement.trans hel) hsame⟩
  · obtain ⟨el, hel, -⟩ := Page.isElement_iff.mp hlink
    rw [hhead, hchildren, mem_arranged h.linked, isElement_run]
    exact ⟨⟨hn, isBlankText_of_element? hel⟩, hlink⟩

/-- Where nothing was surplus behind the rest, the new order is the order that it would be given. -/
theorem inOrder_run
    (hboilerplate : (asking (run page) ((run page).children (run page).head) .boilerplateStyle).length ≤ 1)
    (hnoscript : (asking (run page) ((run page).children (run page).head) .noscript).length ≤ 1) :
    ∃ slot, InOrder (run page) slot := by
  have hkind (x : NodeId) : (run page).kind? x = page.kind? x := kind?_run
  have hhead : (run page).head = page.head := run_sameFrame.head
  obtain ⟨slot, hslot, harranged⟩ := exists_slotting h.linked
  obtain ⟨slot', hslot', -⟩ := exists_slotting (run_linked h.linked h.has_head)
  have hchildren : (run page).children (run page).head
      = arrange page slot (visible page (page.children page.head)) := by
    rw [hhead, children_run h.linked h.has_head, if_pos rfl, harranged]
  have hasking (s : HeadSlot) : (asking page (page.children page.head) s).length
      = (asking (run page) ((run page).children (run page).head) s).length := by
    have hsame : ((run page).isElement · (HeadSlot.ofElement · false == s))
        = (page.isElement · (HeadSlot.ofElement · false == s)) := funext fun x => isElement_run x _
    have hvisible : asking page (visible page (page.children page.head)) s
        = asking page (page.children page.head) s := by
      rw [asking, visible, List.filter_filter]
      refine List.filter_congr fun x _ => ?_
      cases hel : page.element? x with
      | none => rw [Page.isElement, hel, Option.any_none, Bool.false_and]
      | some el => rw [isBlankText_of_element? hel, Bool.not_false, Bool.and_true]
    have hperm : (arrange page slot (visible page (page.children page.head))).Perm
        (visible page (page.children page.head)) := perm_arrange (nodup_visible h.linked)
    rw [← hvisible, hchildren, asking, asking, hsame]
    exact (hperm.filter _).length_eq.symm
  rw [← hasking] at hboilerplate hnoscript
  rw [hchildren, isSlotting_congr hkind] at hslot'
  refine ⟨slot', by rwa [hchildren, isSlotting_congr hkind], ?_, fun x hx => ?_⟩
  · rw [hchildren, arrange_congr_kinds hkind]
    exact arrange_eq_self hslot (h.linked.nodup _) hboilerplate hnoscript hslot'
  · rw [hchildren] at hx
    have hvisible := (List.mem_filter.mp (mem_arrange.mp hx)).2
    rw [isBlankText, hkind]
    rw [isBlankText] at hvisible
    simpa using hvisible

end HeadOrder

end AmpTuner
