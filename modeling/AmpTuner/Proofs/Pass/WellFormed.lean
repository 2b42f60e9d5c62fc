import AmpTuner.Proofs.Page.Upkeep
import AmpTuner.Proofs.Page.Reloading
import AmpTuner.Proofs.Pass.HeadOrder
import AmpTuner.Proofs.Rendering.Boilerplate
import AmpTuner.Proofs.Extensions.Supply
import AmpTuner.Proofs.Viewport.Merging
import AmpTuner.Pipeline

/-!
# Passes keep pages well-formed

Every pass is a chain of writes, and each one is given nodes that it may be given: what is taken out stands
below the head or is no element, and what is put in is new or was taken out. So a page that was loaded stays
well-formed whatever passes run over it, and its tree can be loaded again.

* **`Pass.run_wellFormed`**: one pass, by a lemma for each.
* **`Urls.addTwin_eq`** and **`Urls.relocateChild_eq_or`** write one turn over the head out. What else is known
  of it rests on them.
* **`Pipeline.runPasses_wellFormed`**: any number of them, also when one is refused.
* **`sound_runPasses`** is the result for pages that were loaded.
-/

namespace AmpTuner

open Markup (Element)

variable {page : Page} {id x : NodeId}

/-! ## The mark of tuned pages -/

theorem Identifier.run_wellFormed (h : page.WellFormed) : (Identifier.run page).WellFormed := h.setAttribute

/-! ## The viewport -/

/-- Viewports are metas below the head. -/
theorem Viewport.of_mem_viewports (h : page.WellFormed)
    (hx : x ∈ page.elementsWhere page.head Viewport.isViewport) :
    page.Above page.head x ∧ page.tag? x = some "meta" := by
  obtain ⟨habove, hel⟩ := List.mem_filter.mp hx
  obtain ⟨el, hel, hviewport⟩ := Page.isElement_iff.mp hel
  rw [Viewport.isViewport, Bool.and_eq_true, beq_iff_eq] at hviewport
  exact ⟨h.linked.mem_descendants_iff.mp habove, by rw [Page.tag?, hel, ← hviewport.1]; rfl⟩

/-- Merging viewports keeps the page well formed. -/
theorem Viewport.merged_wellFormed (h : page.WellFormed) {first : NodeId} {more : List NodeId} {content : String}
    (hviewports : page.elementsWhere page.head Viewport.isViewport = first :: more) :
    (Viewport.merged page first more content).WellFormed := by
  have hlinks : page.SameLinks (page.setAttribute first "content" content) := Page.mapElement_sameLinks _
  refine (h.setAttribute : (page.setAttribute first "content" content).WellFormed).detachAll_head fun y hy => ?_
  rw [hlinks.above_iff]
  exact (Viewport.of_mem_viewports h (hviewports ▸ List.mem_cons_of_mem first hy)).1

/-- The viewport pass keeps the page well formed. -/
theorem Viewport.run_wellFormed (h : page.WellFormed) : (Viewport.run page).WellFormed := by
  rcases Viewport.run_cases page with ⟨-, place, hplace, heq⟩ | ⟨x, -, heq⟩
      | ⟨first, more, content, hviewports, heq⟩ <;>
    rw [heq]
  · exact (h.maintains_attachNew_head (Element.distinct_make _ _) hplace).wellFormed
  · exact h
  · exact Viewport.merged_wellFormed h hviewports

/-! ## The style sheet of the runtime -/

/-- The style sheet of the runtime keeps the page well formed. -/
theorem RuntimeCss.run_wellFormed (h : page.WellFormed) (s : Settings.RuntimeCss) (fetch : Fetch) :
    (RuntimeCss.run s fetch page).page.WellFormed := by
  simp only [RuntimeCss.run]
  split
  · exact h
  · next style hfound =>
    obtain ⟨hparent, el, hel⟩ := h.linked.mem_elementChildren_iff.mp (List.mem_of_find?_eq_some hfound)
    obtain ⟨_, _, hroot⟩ := h.head_child hparent
    split
    · exact h
    · split
      · next css _ =>
        have hset : page.Maintains (page.setTextContent style css) :=
          h.maintains_setTextContent (by rw [hel]; rfl) hroot
        exact hset.wellFormed.setAttribute
      · exact (h.maintains_attachNew_head (Element.distinct_make "link" _)
          (isPlacement_insertAfter _ style)).wellFormed

/-! ## Hero images -/

/-- The heroes are images of the dialect. -/
theorem HeroImages.tag?_of_mem_heroes (hx : x ∈ HeroImages.heroes page) : page.tag? x = some "amp-img" := by
  obtain ⟨el, hel, himage⟩ := Page.isElement_iff.mp (List.mem_filter.mp (List.mem_filter.mp hx).1).2
  rw [Bool.and_eq_true, beq_iff_eq] at himage
  rw [Page.tag?, hel, ← himage.1]
  rfl

/-- A new element behind the children of the head. -/
def HeroImages.addLink (page : Page) (link : Element) : Page :=
  page.attachNew (.element link) page.head (· ++ [page.next])

/-- The link in the head, the image in the image, and the mark. -/
def HeroImages.add (page : Page) (id : NodeId) (link img : Element) : Page :=
  ((addLink page link).attachNew (.element img) id (· ++ [(addLink page link).next])).setAttribute id renderedMarker ""

/-- For an image nothing is done, or a link and a rendering are added. -/
theorem HeroImages.preload_eq_or (page : Page) (id : NodeId) : preload page id = page
    ∨ ∃ image source, preload page id
      = add page id (.make "link" (preloadAttributes image source)) (.make "img" (renderedAttributes image)) := by
  unfold preload
  split
  · exact .inl rfl
  · next image _ =>
    split
    · exact .inl rfl
    · next source _ =>
      split
      · exact .inl rfl
      · exact .inr ⟨image, source, rfl⟩

/-- One hero image maintains the page. -/
theorem HeroImages.maintains_preload (h : page.WellFormed) (htag : page.tag? id = some "amp-img") :
    page.Maintains (HeroImages.preload page id) := by
  obtain heq | ⟨image, source, heq⟩ := HeroImages.preload_eq_or page id
  · exact heq.symm ▸ .refl h
  · rw [heq, HeroImages.add]
    have hlink : page.Maintains (HeroImages.addLink page (.make "link" (HeroImages.preloadAttributes image source))) :=
      h.maintains_attachNew_head (Element.distinct_make _ _) (isPlacement_append _)
    generalize HeroImages.addLink page (.make "link" (HeroImages.preloadAttributes image source)) = linked at hlink
    have hroot : id ≠ linked.root := fun heq =>
      hlink.wellFormed.not_isFixed_of_tag? (hlink.tag? id _ htag) (by decide) (.inl heq)
    have himage : linked.Maintains (linked.attachNew
        (.element (.make "img" (HeroImages.renderedAttributes image))) id (· ++ [linked.next])) :=
      hlink.wellFormed.maintains_attachNew (Element.distinct_make _ _) (hlink.isSome_element? htag) hroot
        (isPlacement_append _)
    exact (hlink.trans himage).trans himage.wellFormed.maintains_setAttribute

/-- Preloading keeps the page well formed. -/
theorem HeroImages.run_wellFormed (h : page.WellFormed) (s : Settings.HeroImages) :
    (HeroImages.run s page).page.WellFormed := by
  have hloop : page.Maintains (((HeroImages.heroes page).take s.most).foldl HeroImages.preload page) :=
    h.maintains_foldl fun p hp id hid => HeroImages.maintains_preload hp.wellFormed
      (hp.tag? id _ (HeroImages.tag?_of_mem_heroes (List.mem_of_mem_take hid)))
  exact hloop.wellFormed

/-! ## Minification -/

/-- Only texts and comments are touched, and only where nothing is preserved. -/
theorem Minify.minifyNode_cases (s : Settings.Minify) (page : Page) (id : NodeId) :
    Minify.minifyNode s page id = page ∨ page.element? id = none ∧ Minify.isPreserved page id = false
      ∧ (Minify.minifyNode s page id = page.detach id
        ∨ ∃ content, Minify.minifyNode s page id = page.setContent id content) := by
  rw [Minify.minifyNode]
  split
  · exact .inl rfl
  · next hplain =>
    rw [Bool.not_eq_true] at hplain
    split
    · next hkind =>
      split
      · exact .inr ⟨by rw [Page.element?, hkind]; rfl, hplain, .inl rfl⟩
      · exact .inl rfl
    · next hkind =>
      split
      · exact .inl rfl
      · refine .inr ⟨by rw [Page.element?, hkind]; rfl, hplain, ?_⟩
        split
        · exact .inl rfl
        · exact .inr ⟨_, rfl⟩
    · exact .inl rfl

/-- One turn of minification maintains the page. -/
theorem Minify.maintains_minifyNode (h : page.WellFormed) (s : Settings.Minify) (id : NodeId) :
    page.Maintains (Minify.minifyNode s page id) := by
  rcases Minify.minifyNode_cases s page id with heq | ⟨hel, -, heq | ⟨content, heq⟩⟩ <;> rw [heq]
  · exact .refl h
  · exact h.maintains_detachAll (List.forall_mem_singleton.mpr (h.ne_of_element?_eq_none hel))
  · exact h.maintains_setContent

theorem Minify.run_wellFormed (h : page.WellFormed) (s : Settings.Minify) : (Minify.run s page).WellFormed :=
  (h.maintains_foldl fun _ hp id _ => Minify.maintains_minifyNode hp.wellFormed s id).wellFormed

/-! ## Addresses -/

/-- The change that makes the copy of a script its twin. -/
def Urls.twinOf (stem : String) (el : Element) : Element :=
  (((el.set "src" (stem ++ ".mjs")).set "type" "module").set "crossorigin" "anonymous").erase "nomodule"

/-- The copy of a script before it has its place. -/
theorem Urls.maintains_copy (h : page.WellFormed) {el : Element} (hx : page.element? x = some el) :
    page.Maintains (page.copy x).1 ∧ (page.copy x).1.element? page.next = some el := by
  have hkind : (page.kind? x).getD (.text "") = .element el := by
    rw [Page.element?_eq_some_iff.mp hx]
    rfl
  rw [Page.copy, hkind]
  refine ⟨h.maintains_create fun el' hel' => ?_, Page.element?_eq_some_iff.mpr (Page.kind?_create_next _)⟩
  obtain rfl := NodeKind.element.inj hel'
  exact h.distinct x el hx

/-- The page with the copy of a script made into its twin. -/
def Urls.withTwin (page : Page) (script : NodeId) (stem : String) : Page :=
  ((page.copy script).1.mapElement page.next (twinOf stem)).setAttribute script "nomodule" ""

/-- Copied, changed and marked; only then does the twin get its place. -/
theorem Urls.addTwin_eq (page : Page) (id : NodeId) : addTwin page id
    = ((page.attribute? id "src").bind (Text.beforeEnd? ".js")).elim page fun stem =>
      (withTwin page id stem).insertChildAfter page.head page.next id := by
  rw [addTwin]
  cases (page.attribute? id "src").bind (Text.beforeEnd? ".js") <;> rfl

/-- A twin of a script maintains the page. -/
theorem Urls.maintains_addTwin (h : page.WellFormed) {el : Element} (hx : page.element? x = some el) :
    page.Maintains (Urls.addTwin page x) := by
  rw [Urls.addTwin_eq]
  cases (page.attribute? x "src").bind (Text.beforeEnd? ".js") with
  | none => exact .refl h
  | some stem =>
    obtain ⟨hcopy, htwin⟩ := Urls.maintains_copy h hx
    have hchanged : page.Maintains ((page.copy x).1.mapElement page.next (Urls.twinOf stem)) :=
      hcopy.trans (hcopy.wellFormed.maintains_mapElement (fun _ => rfl) fun _ hel => hel.set.set.set.erase)
    have hmarked : page.Maintains (Urls.withTwin page x stem) :=
      hchanged.trans hchanged.wellFormed.maintains_setAttribute
    have hhas : (Urls.withTwin page x stem).Has page.next :=
      (Page.has_mapElement _).mpr ((Page.has_mapElement _).mpr (Page.has_of_element? htwin))
    have hplaced := hmarked.wellFormed.maintains_attach_head hhas (hmarked.not_isFixed_next h)
      (isPlacement_insertAfter _ x)
    rw [hmarked.head] at hplaced
    exact hmarked.trans hplaced

/-- Addresses stand in one of two attributes. -/
theorem Urls.eq_of_addressName? {tag name : String} (h : Urls.addressName? tag = some name) :
    name = "src" ∨ name = "href" := by
  unfold Urls.addressName? at h
  split at h
  · exact .inl (Option.some.inj h).symm
  · exact .inr (Option.some.inj h).symm
  · cases h

/-- An address that is to move is written anew, and a script may get a twin. -/
theorem Urls.relocateChild_eq_or (s : Settings.Urls) (page : Page) (child : NodeId) :
    (Urls.relocateChild s page child = page
        ∧ ∀ el name, page.element? child = some el → Urls.addressName? el.tag = some name →
          (el.attribute? name).bind (Urls.relocate? · (Urls.base s)) = none)
      ∨ ∃ el name url, page.element? child = some el ∧ Urls.addressName? el.tag = some name
        ∧ (el.attribute? name).bind (Urls.relocate? · (Urls.base s)) = some url
        ∧ (Urls.relocateChild s page child = page.setAttribute child name url
          ∨ el.tag = "script"
            ∧ Urls.relocateChild s page child = Urls.addTwin (page.setAttribute child name url) child) := by
  rw [Urls.relocateChild]
  cases hel : page.element? child with
  | none => exact .inl ⟨rfl, fun _ _ hel' => nomatch hel'⟩
  | some el =>
    cases hname : Urls.addressName? el.tag with
    | none =>
      refine .inl ⟨by simp only [hname], fun el' name hel' hname' => ?_⟩
      obtain rfl := Option.some.inj hel'
      rw [hname] at hname'
      cases hname'
    | some name =>
      cases hurl : (el.attribute? name).bind (Urls.relocate? · (Urls.base s)) with
      | none =>
        refine .inl ⟨by simp only [hname, hurl], fun el' name' hel' hname' => ?_⟩
        obtain rfl := Option.some.inj hel'
        obtain rfl := Option.some.inj (hname.symm.trans hname')
        exact hurl
      | some url =>
        refine .inr ⟨el, name, url, rfl, hname, hurl, ?_⟩
        simp only [hname, hurl]
        split
        · next hclassic =>
          simp only [Urls.isClassicScript, Bool.and_eq_true, beq_iff_eq] at hclassic
          exact .inr ⟨hclassic.2.1.1, rfl⟩
        · exact .inl rfl

theorem Urls.element?_setAttribute_self {el : Element} (hel : page.element? x = some el) (name value : String) :
    (page.setAttribute x name value).element? x = some (el.set name value) := by
  rw [Page.setAttribute, Page.element?_mapElement, if_pos rfl, hel, Option.map_some]

/-- One turn of the loop over addresses maintains the page. -/
theorem Urls.maintains_relocateChild (h : page.WellFormed) (s : Settings.Urls) (child : NodeId) :
    page.Maintains (Urls.relocateChild s page child) := by
  rcases Urls.relocateChild_eq_or s page child with ⟨heq, -⟩ | ⟨el, name, url, hel, -, -, heq | ⟨-, heq⟩⟩ <;> rw [heq]
  · exact .refl h
  · exact h.maintains_setAttribute
  · have hset : page.Maintains (page.setAttribute child name url) := h.maintains_setAttribute
    exact hset.trans (Urls.maintains_addTwin hset.wellFormed (Urls.element?_setAttribute_self hel name url))

/-- Moving addresses keeps the page well formed. -/
theorem Urls.run_wellFormed (h : page.WellFormed) (s : Settings.Urls) : (Urls.run s page).page.WellFormed := by
  rw [Urls.run]
  split
  · exact h
  · have hmoved : page.Maintains ((page.elementChildren page.head).foldl (Urls.relocateChild s) page) :=
      h.maintains_foldl fun _ hp child _ => Urls.maintains_relocateChild hp.wellFormed s child
    show (if Urls.isSelfHosted s then _ else Urls.addPreconnect _).WellFormed
    split
    · exact hmoved.wellFormed
    · rw [Urls.addPreconnect]
      split
      · exact hmoved.wellFormed
      · exact (hmoved.wellFormed.maintains_attachNew_head (Element.distinct_make "link" _)
          (isPlacement_append _)).wellFormed

/-! ## Boilerplate -/

namespace Boilerplate

/-- A noscript with a boilerplate style in it, which has no place yet. -/
def withNoscript (page : Page) : Page :=
  ((page.createElement "noscript" []).1.createFilled "style" [("amp-boilerplate", "")]
    Vocabulary.noscriptCss).appendChild page.next (page.createElement "noscript" []).1.next

theorem withNoscript_sameKinds : page.SameKinds (withNoscript page) := by
  have hcreated : page.SameKinds (page.createElement "noscript" []).1 := Page.create_sameKinds _
  rw [withNoscript, Page.appendChild]
  exact (hcreated.trans Page.createFilled_sameKinds).trans Page.attach_sameKinds

theorem element?_createElement_noscript :
    (page.createElement "noscript" []).1.element? page.next = some (.make "noscript" []) :=
  Page.element?_eq_some_iff.mpr (Page.kind?_create_next _)

theorem element?_withNoscript :
    (withNoscript page).element? page.next = some (.make "noscript" []) := by
  rw [withNoscript, Page.appendChild]
  exact (Page.createFilled_sameKinds.trans Page.attach_sameKinds).element? element?_createElement_noscript

/-- Making the noscript maintains the page. -/
theorem maintains_withNoscript (h : page.WellFormed) : page.Maintains (withNoscript page) := by
  let created := (page.createElement "noscript" []).1
  let filled := created.createFilled "style" [("amp-boilerplate", "")] Vocabulary.noscriptCss
  have hcreated : page.Maintains created := h.maintains_createElement "noscript" []
  have hfilled : created.Maintains filled := hcreated.wellFormed.maintains_createFilled
  have hstyle : filled.element? created.next = some (.make "style" [("amp-boilerplate", "")]) :=
    Page.element?_createFilled
  have hnew : created.element? page.next = some (.make "noscript" []) := element?_createElement_noscript
  have hnoscript : filled.element? page.next = some (.make "noscript" []) :=
    Page.createFilled_sameKinds.element? hnew
  -- the noscript hangs from nothing, so the style goes under no node that is under the style
  have hdetached : filled.parent? page.next = none := by
    have hlinks : page.SameLinks created := Page.create_sameLinks _
    rw [hcreated.wellFormed.parent?_createFilled (Page.has_of_element? hnew), hlinks.parent?,
      Page.parent?_of_not_has Page.not_has_next]
  have hwell : (filled.attach page.next created.next (· ++ [created.next])).WellFormed := by
    refine hfilled.wellFormed.attach (by rw [hnoscript]; rfl) ?_ (Page.has_of_element? hstyle)
      (hfilled.not_isFixed_next hcreated.wellFormed) (isPlacement_append _) ?_
      (Page.not_above_of_parent?_eq_none hdetached)
    · exact fun heq => (hcreated.trans hfilled).not_isFixed_next h (.inl heq)
    · exact (Page.ne_next_of_has (Page.has_of_element? hnew)).symm
  rw [withNoscript, Page.appendChild]
  exact (hcreated.trans hfilled).trans (.of_sameKinds hwell Page.attach_sameFrame Page.attach_sameKinds)

/-- The pair: a style, and a noscript with another one in it. -/
theorem maintains_insertPair (h : page.WellFormed) : page.Maintains (insertPair page) := by
  let withStyle := page.createFilled "style" [("amp-boilerplate", "")] Vocabulary.boilerplateCss
  let joined := withNoscript withStyle
  let placed := joined.appendChild joined.head page.next
  have hstyle : page.Maintains withStyle := h.maintains_createFilled
  have hjoined : withStyle.Maintains joined := maintains_withNoscript hstyle.wellFormed
  have hstyleEl : joined.element? page.next = some (.make "style" [("amp-boilerplate", "")]) :=
    withNoscript_sameKinds.element? Page.element?_createFilled
  have hplaced : joined.Maintains placed :=
    hjoined.wellFormed.maintains_attach_head (Page.has_of_element? hstyleEl)
      ((hstyle.trans hjoined).not_isFixed_next h) (isPlacement_append _)
  have hnoscript : placed.element? withStyle.next = some (.make "noscript" []) :=
    Page.attach_sameKinds.element? element?_withNoscript
  have hlast : placed.Maintains (placed.appendChild placed.head withStyle.next) :=
    hplaced.wellFormed.maintains_attach_head (Page.has_of_element? hnoscript)
      ((hjoined.trans hplaced).not_isFixed_next hstyle.wellFormed) (isPlacement_append _)
  rw [hplaced.head] at hlast
  exact ((hstyle.trans hjoined).trans hplaced).trans hlast

/-- Seeing to the boilerplate keeps the page well formed. -/
theorem run_wellFormed (h : page.WellFormed) : (run page).WellFormed := by
  rw [run]
  split
  · exact h
  · split
    · exact h
    · have hgone : page.Maintains (page.detachAll (styles page ++ noscripts page)) := by
        refine h.maintains_detachAll_head fun y hy => ?_
        have hchild : y ∈ page.elementChildren page.head := by
          rcases List.mem_append.mp hy with hy | hy
          · exact (List.mem_filter.mp hy).1
          · exact (List.mem_filter.mp hy).1
        exact .of_parent? (h.linked.mem_elementChildren_iff.mp hchild).1
      exact (maintains_insertPair hgone.wellFormed).wellFormed

end Boilerplate

/-! ## Extensions -/

namespace Extensions

/-- Importing maintains the page. By induction on the required names. -/
theorem maintains_foldl_require (s : Settings.Extensions) (spec : Spec) (required : List String)
    (groups : List Group) (h : page.WellFormed) :
    page.Maintains (required.foldl (require s spec) (page, groups)).1 := by
  induction required generalizing page groups with
  | nil => exact .refl h
  | cons name required ih =>
    rw [List.foldl_cons]
    rcases require_cases s spec page groups name with ⟨_, heq⟩ | ⟨_, _, heq⟩ | ⟨e, _, _, heq⟩
    · rw [heq]
      exact ih _ h
    · rw [heq]
      exact ih _ h
    · rw [heq]
      have hcreated : page.Maintains (imported s page e) := h.maintains_createElement "script" _
      exact hcreated.trans (ih _ hcreated.wellFormed)

/-- Putting scripts into the head maintains the page. -/
theorem maintains_insertBlock (h : page.WellFormed) (anchor : Option NodeId) {nodes : List NodeId}
    (hnodes : ∀ n ∈ nodes, page.tag? n = some "script") :
    page.Maintains (insertBlock page anchor nodes) := by
  induction nodes generalizing page anchor with
  | nil => exact .refl h
  | cons node rest ih =>
    obtain ⟨hnode, hrest⟩ := List.forall_mem_cons.mp hnodes
    have hplaced : page.Maintains (page.attach page.head node (blockPlace node anchor)) :=
      h.maintains_attach_head (Page.has_of_tag? hnode) (h.not_isFixed_of_tag? hnode (by decide))
        (isPlacement_blockPlace node anchor)
    rw [insertBlock_cons]
    exact hplaced.trans (ih hplaced.wellFormed (some node) fun n hn => hplaced.tag? n _ (hrest n hn))

/-- Seeing to the extensions keeps the page well formed. -/
theorem run_wellFormed (h : page.WellFormed) (s : Settings.Extensions) (spec : Spec) :
    (run s spec page).page.WellFormed := by
  have hstocked : (searched s page).Maintains (stocked s spec page).1 :=
    maintains_foldl_require s spec _ _ (searched_wellFormed h)
  rw [page_run]
  exact (maintains_insertBlock hstocked.wellFormed _ fun n hn => tag?_of_mem_block h hn).wellFormed

end Extensions

/-! ## Rendering -/

/-- Rendering keeps the page well formed. -/
theorem Rendering.run_wellFormed (h : page.WellFormed) (s : Settings.Rendering) :
    (Rendering.run s page).page.WellFormed := by
  by_cases hmarked : page.hasAttribute page.root Vocabulary.layoutMarker = true
  · rw [run_of_marked hmarked]
    exact h
  · rw [Bool.not_eq_true] at hmarked
    have hfinished : (finished page).1.page.WellFormed :=
      ((finished_yields h).steady (marked_wellFormed h)).wellFormed
    rw [run_of_unmarked hmarked]
    generalize finished page = result at hfinished
    split
    · exact removeBoilerplate_wellFormed hfinished
    · exact hfinished

/-! ## All passes -/

/-- Every pass keeps the page well formed. -/
theorem Pass.run_wellFormed (h : page.WellFormed) {pass : Pass} {s : Settings} {r : Resources} {w : Work}
    (hrun : pass.run s r page = .ok w) : w.page.WellFormed := by
  cases pass with
  | boilerplate => exact Except.ok.inj hrun ▸ Boilerplate.run_wellFormed h
  | viewport => exact Except.ok.inj hrun ▸ Viewport.run_wellFormed h
  | extensions => exact Except.ok.inj hrun ▸ Extensions.run_wellFormed h s.extensions r.spec
  | rendering => exact Except.ok.inj hrun ▸ Rendering.run_wellFormed h s.rendering
  | runtimeCss => exact Except.ok.inj hrun ▸ RuntimeCss.run_wellFormed h s.runtimeCss r.fetch
  | heroImages => exact Except.ok.inj hrun ▸ HeroImages.run_wellFormed h s.heroImages
  | urls =>
    rw [Pass.run] at hrun
    split at hrun
    · cases hrun
    · exact Except.ok.inj hrun ▸ Urls.run_wellFormed h s.urls
  | identifier => exact Except.ok.inj hrun ▸ Identifier.run_wellFormed h
  | headOrder => exact Except.ok.inj hrun ▸ HeadOrder.run_wellFormed h
  | minify => exact Except.ok.inj hrun ▸ Minify.run_wellFormed h s.minify

/-- A pass that is refused leaves the page to the ones before it. -/
theorem Pipeline.runPasses_wellFormed (s : Settings) (r : Resources) {passes : List Pass} {w : Work}
    (h : w.page.WellFormed) : (runPasses s r passes w).work.page.WellFormed := by
  induction passes generalizing w with
  | nil => exact h
  | cons pass passes ih =>
    rw [runPasses]
    split
    · next done hdone =>
      have hdone' : done.page.WellFormed := Pass.run_wellFormed h hdone
      exact ih hdone'
    · exact h

/-- A whole run from the settings keeps the page well formed. -/
theorem tune_wellFormed (h : page.WellFormed) (s : Settings) (r : Resources) :
    (tune s r page).work.page.WellFormed := by
  rw [tune]
  split
  · exact Pipeline.runPasses_wellFormed s r h
  · exact h

/-- What holds of the structure of a page: its links agree, the root holds the head and the body, no
attribute is given twice, and its tree can be loaded again. -/
structure Page.Sound (page : Page) : Prop where
  mem_children_iff : ∀ p c, c ∈ page.children p ↔ page.parent? c = some p
  nodup : ∀ p, (page.children p).Nodup
  acyclic : ∀ id, ¬ page.Above id id
  children_root : page.children page.root = [page.head, page.body]
  distinct : ∀ id el, page.element? id = some el → (el.attributes.map (·.name)).Nodup
  reload : (Page.ofDocument page.toDocument).toDocument = page.toDocument

/-- A well-formed page is sound. -/
theorem Page.WellFormed.sound (h : page.WellFormed) : page.Sound where
  mem_children_iff := h.linked.mem_children_iff
  nodup := h.linked.nodup
  acyclic := h.linked.acyclic
  children_root := h.children_root
  distinct := h.distinct
  reload := h.toDocument_ofDocument_toDocument

/-- Whatever passes run over a page that was loaded, it stays sound, and also when one of them is refused. -/
theorem sound_runPasses (d : Markup.Document) (s : Settings) (r : Resources) (passes : List Pass)
    (issues : List Issue) :
    (Pipeline.runPasses s r passes ⟨Page.ofDocument d, issues⟩).work.page.Sound :=
  (Pipeline.runPasses_wellFormed s r (Page.ofDocument_wellFormed d)).sound

end AmpTuner
