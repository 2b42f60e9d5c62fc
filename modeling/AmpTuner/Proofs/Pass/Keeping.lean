import AmpTuner.Proofs.Pass.WellFormed

/-!
# Passes that leave the stylesheet alone

Every pass but rendering, and the order of the head, is a chain of writes that each keep the custom
stylesheet (`Page.Keeps`). The chains are followed here, pass by pass; loops keep it because one turn
does.

* What a pass takes out of the head is a script, a meta, a boilerplate style or a noscript, and what it
  puts in is new or one of these. No custom style is any of them in a tidy page.
-/

namespace AmpTuner

open Markup (Element)
open Page (Neutral IsFixed)
open Vocabulary (isCustomStyle)

namespace Page

variable {page : Page} {id x : NodeId}

/-! ## Children of the head -/

/-- A custom style has the tag of one. -/
theorem Tidy.not_mem_of_tag? (h : page.Tidy) {tag : String} (htag : page.tag? x = some tag)
    (hne : tag ≠ "style") : x ∉ page.customStyles := by
  intro hx
  obtain ⟨el, hel, hcustom, _⟩ := h.wellFormed.of_mem_customStyles hx
  rw [tag?, hel] at htag
  obtain rfl := Option.some.inj htag
  simp only [isCustomStyle, Bool.and_eq_true, beq_iff_eq] at hcustom
  exact hne hcustom.1

theorem isCustomStyle_eq_false {el : Element} (h : el.tag ≠ "style") : isCustomStyle el = false := by
  rw [isCustomStyle, beq_false_of_ne h, Bool.false_and]

/-- A new child of the head that is no style keeps the styles. -/
theorem Tidy.attachNew_head (h : page.Tidy) {el : Element} {place : List NodeId → List NodeId}
    (hdistinct : el.Distinct) (htag : el.tag ≠ "style") (hplace : IsPlacement page.next place) :
    page.Keeps (page.attachNew (.element el) page.head place) := by
  refine h.attachNew (fun el' hel' => ?_) h.wellFormed.isSome_element?_head h.wellFormed.head_ne_root
    (h.not_mem_of_tag? h.wellFormed.tag?_head (by decide)) hplace
  obtain rfl := NodeKind.element.inj hel'
  exact ⟨hdistinct, isCustomStyle_eq_false htag⟩

/-- Elements that are no custom styles may stand anywhere in the head. -/
theorem Tidy.attach_head (h : page.Tidy) {child : NodeId} {el : Element}
    {place : List NodeId → List NodeId} (hel : page.element? child = some el)
    (hcustom : isCustomStyle el = false) (hfixed : ¬ page.IsFixed child)
    (hplace : IsPlacement child place) : page.Keeps (page.attach page.head child place) :=
  h.attach hel hcustom h.wellFormed.has_head
    (h.not_mem_of_tag? h.wellFormed.tag?_head (by decide)) hplace
    (h.wellFormed.attach_head (has_of_element? hel) hfixed hplace)

/-- What keeps the stylesheet turn by turn keeps it over a whole loop. -/
theorem Tidy.keeps_foldl {α : Type} (h : page.Tidy) {step : Page → α → Page} {items : List α}
    (hstep : ∀ p : Page, page.Keeps p → p.Tidy → ∀ a ∈ items, p.Keeps (step p a)) :
    page.Keeps (items.foldl step page) := by
  -- what is left to do shrinks while the items that a turn may be given stay the same
  have run (todo : List α) (htodo : ∀ a ∈ todo, a ∈ items) (p : Page) (hp : page.Keeps p) :
      page.Keeps (todo.foldl step p) := by
    induction todo generalizing p with
    | nil => exact hp
    | cons a todo ih =>
      obtain ⟨ha, htodo⟩ := List.forall_mem_cons.mp htodo
      exact ih htodo _ (hp.trans (hstep p hp (hp.tidy h) a ha))
  exact run items (fun _ ha => ha) page (.refl h.wellFormed)

end Page

variable {page : Page}

/-! ## The mark of tuned pages -/

theorem Identifier.keeps (h : page.Tidy) : page.Keeps (Identifier.run page) :=
  h.setAttribute (by decide)

/-! ## The viewport -/

/-- The ones that go are metas below the head, so no fixed element and no style is among them. -/
theorem Viewport.merged_keeps (h : page.Tidy) {first : NodeId} {more : List NodeId} {content : String}
    (hviewports : page.elementsWhere page.head Viewport.isViewport = first :: more) :
    page.Keeps (Viewport.merged page first more content) := by
  have hmetas : ∀ y ∈ more, page.Above page.head y ∧ page.tag? y = some "meta" := fun y hy =>
    Viewport.of_mem_viewports h.wellFormed (hviewports ▸ List.mem_cons_of_mem first hy)
  have hset : page.Keeps (page.setAttribute first "content" content) := h.setAttribute (by decide)
  refine hset.trans ((hset.tidy h).detachAll_elements (fun y hy => ?_) (fun y hy => ?_))
  · have habove := (hmetas y hy).1
    rw [hset.head, hset.body]
    exact ⟨h.wellFormed.ne_head_of_above_head habove, h.wellFormed.ne_body_of_above_head habove⟩
  · obtain ⟨el, hel, htag⟩ := Option.map_eq_some_iff.mp (hset.tag? y _ (hmetas y hy).2)
    exact ⟨el, hel, Page.isCustomStyle_eq_false (by rw [htag]; decide)⟩

/-- Merging viewports keeps the custom styles. -/
theorem Viewport.keeps (h : page.Tidy) : page.Keeps (Viewport.run page) := by
  rcases Viewport.run_cases page with ⟨-, place, hplace, heq⟩ | ⟨x, -, heq⟩
      | ⟨first, more, content, hviewports, heq⟩ <;>
    rw [heq]
  · exact h.attachNew_head (Element.distinct_make _ _) (by decide) hplace
  · exact .refl h.wellFormed
  · exact Viewport.merged_keeps h hviewports

/-! ## The style sheet of the runtime -/

/-- The style sheet of the runtime keeps the custom styles. -/
theorem RuntimeCss.keeps (h : page.Tidy) (s : Settings.RuntimeCss) (fetch : Fetch) :
    page.Keeps (RuntimeCss.run s fetch page).page := by
  simp only [RuntimeCss.run]
  split
  · exact .refl h.wellFormed
  · next style hfound =>
    obtain ⟨hruntime, hmem⟩ := And.intro (List.find?_some hfound) (List.mem_of_find?_eq_some hfound)
    obtain ⟨hparent, el, hel⟩ := h.wellFormed.linked.mem_elementChildren_iff.mp hmem
    obtain ⟨hhead, hbody, hroot⟩ := h.wellFormed.head_child hparent
    -- the style that is written is a runtime style, which no custom style is
    have hstyle : style ∉ page.customStyles := by
      intro hs
      rw [h.notRuntime style hs] at hruntime
      cases hruntime
    split
    · exact .refl h.wellFormed
    · split
      · next css _ =>
        have hset : page.Keeps (page.setTextContent style css) :=
          h.setTextContent (by rw [hel]; rfl) hroot hhead hstyle
        exact hset.trans ((hset.tidy h).setAttribute (by decide))
      · exact h.attachNew_head (Element.distinct_make "link" _)
          (by rw [Element.tag_make]; decide) (isPlacement_insertAfter _ style)

/-! ## Hero images -/

/-- One hero image keeps the custom styles. -/
theorem HeroImages.preload_keeps (h : page.Tidy) (id : NodeId) (htag : page.tag? id = some "amp-img") :
    page.Keeps (HeroImages.preload page id) := by
  obtain heq | ⟨image, source, heq⟩ := HeroImages.preload_eq_or page id
  · exact heq.symm ▸ .refl h.wellFormed
  · rw [heq, HeroImages.add]
    have hlink : page.Keeps (HeroImages.addLink page (.make "link" (HeroImages.preloadAttributes image source))) :=
      h.attachNew_head (Element.distinct_make "link" _) (by rw [Element.tag_make]; decide) (isPlacement_append _)
    generalize HeroImages.addLink page (.make "link" (HeroImages.preloadAttributes image source)) = linked at hlink
    have hlinked := hlink.tidy h
    have htag' := hlink.tag? id _ htag
    obtain ⟨el, hel, _⟩ := Option.map_eq_some_iff.mp htag'
    have hroot : id ≠ linked.root := fun heq =>
      hlinked.wellFormed.not_isFixed_of_tag? htag' (by decide) (.inl heq)
    -- the element that is written is an image and so not the root, and what goes into it is one too
    have himg : ∀ el', NodeKind.element (.make "img" (HeroImages.renderedAttributes image))
        = .element el' → el'.Distinct ∧ isCustomStyle el' = false := by
      intro el' hel'
      obtain rfl := NodeKind.element.inj hel'
      exact ⟨Element.distinct_make _ _, Page.isCustomStyle_eq_false (by rw [Element.tag_make]; decide)⟩
    have himage := hlinked.attachNew himg (by rw [hel]; rfl) hroot
      (hlinked.not_mem_of_tag? htag' (by decide)) (isPlacement_append _)
    exact (hlink.trans himage).trans ((himage.tidy hlinked).setAttribute (by decide))

theorem HeroImages.keeps (h : page.Tidy) (s : Settings.HeroImages) :
    page.Keeps (HeroImages.run s page).page := by
  exact h.keeps_foldl fun p hkeeps hp id hid => HeroImages.preload_keeps hp id
    (hkeeps.tag? id _ (HeroImages.tag?_of_mem_heroes (List.mem_of_mem_take hid)))

/-! ## Minification -/

/-- What stands in a custom style is inside a style, and so preserved. -/
theorem Minify.parent?_ne (h : page.Tidy) {id : NodeId} (hplain : Minify.isPreserved page id = false) :
    ∀ s ∈ page.customStyles, page.parent? id ≠ some s := by
  intro s hs hparent
  obtain ⟨el, hel, hcustom, _⟩ := h.wellFormed.of_mem_customStyles hs
  simp only [isCustomStyle, Bool.and_eq_true, beq_iff_eq] at hcustom
  have hstyle : page.hasAncestor id "style" = true :=
    h.wellFormed.linked.hasAncestor_iff.mpr
      ⟨s, .of_parent? hparent, Page.isTag_iff.mpr ⟨el, hel, hcustom.1⟩⟩
  simp [Minify.isPreserved, Minify.preservedTags, hstyle] at hplain

/-- A text or a comment may go from where it is not preserved. -/
theorem Minify.detach_keeps (h : page.Tidy) {id : NodeId} (hel : page.element? id = none)
    (hplain : Minify.isPreserved page id = false) : page.Keeps (page.detach id) := by
  have hfixed : ∀ y ∈ [id], y ≠ page.head ∧ y ≠ page.body :=
    List.forall_mem_singleton.mpr (h.wellFormed.ne_of_element?_eq_none hel)
  refine h.detachAll hfixed (fun y hy => ?_) (fun y hy => ?_)
  · rw [List.mem_singleton.mp hy, Page.isElement, hel]
    rfl
  · rw [List.mem_singleton.mp hy]
    exact Minify.parent?_ne h hplain

/-- One turn of minification keeps the custom styles. -/
theorem Minify.minifyNode_keeps (s : Settings.Minify) (h : page.Tidy) (id : NodeId) :
    page.Keeps (Minify.minifyNode s page id) := by
  rcases Minify.minifyNode_cases s page id with heq | ⟨hel, hplain, heq | ⟨content, heq⟩⟩ <;> rw [heq]
  · exact .refl h.wellFormed
  · exact Minify.detach_keeps h hel hplain
  · exact h.setContent (Minify.parent?_ne h hplain)

theorem Minify.keeps (h : page.Tidy) (s : Settings.Minify) : page.Keeps (Minify.run s page) :=
  h.keeps_foldl fun _ _ hp id _ => Minify.minifyNode_keeps s hp id

/-! ## Addresses -/

/-- A twin of a script keeps the custom styles. -/
theorem Urls.addTwin_keeps (h : page.Tidy) {script : NodeId} (htag : page.tag? script = some "script") :
    page.Keeps (Urls.addTwin page script) := by
  obtain ⟨el, hel, heltag⟩ := Option.map_eq_some_iff.mp htag
  rw [Urls.addTwin_eq]
  cases (page.attribute? script "src").bind (Text.beforeEnd? ".js") with
  | none => exact .refl h.wellFormed
  | some stem =>
    have hneutral : Neutral (Urls.twinOf stem) :=
      (((Neutral.set _ (by decide)).comp (.set _ (by decide))).comp (.set _ (by decide))).comp
        (.erase (by decide))
    have hkind : (page.kind? script).getD (.text "") = .element el := by
      rw [Page.element?_eq_some_iff.mp hel]
      rfl
    have hcopy : page.Keeps (page.copy script).1 := by
      rw [Page.copy, hkind]
      refine h.create fun el' hel' => ?_
      obtain rfl := NodeKind.element.inj hel'
      exact h.wellFormed.distinct script el hel
    have htwin : (page.copy script).1.tag? page.next = some "script" := by
      rw [Page.tag?, (Urls.maintains_copy h.wellFormed hel).2]
      exact congrArg some heltag
    have hchanged : page.Keeps ((page.copy script).1.mapElement page.next (Urls.twinOf stem)) :=
      hcopy.trans ((hcopy.tidy h).mapElement hneutral)
    have hset : ((page.copy script).1.mapElement page.next (Urls.twinOf stem)).Keeps (Urls.withTwin page script stem) :=
      (hchanged.tidy h).setAttribute (by decide)
    obtain ⟨twin, htwin, htwinTag⟩ :=
      Option.map_eq_some_iff.mp (hset.tag? page.next _ ((Page.tag?_mapElement hneutral.tag _ _).trans htwin))
    have hmarked := hchanged.trans hset
    have hplaced := (hmarked.tidy h).attach_head htwin (Page.isCustomStyle_eq_false (by rw [htwinTag]; decide))
      (hmarked.not_isFixed_next h.wellFormed) (isPlacement_insertAfter _ script)
    rw [hmarked.head] at hplaced
    exact hmarked.trans hplaced

/-- Another address keeps the custom styles. -/
theorem Urls.relocateChild_keeps (s : Settings.Urls) (h : page.Tidy) (child : NodeId) :
    page.Keeps (Urls.relocateChild s page child) := by
  rcases Urls.relocateChild_eq_or s page child with ⟨heq, -⟩ | ⟨el, name, url, hel, hname, -, hcases⟩
  · rw [heq]
    exact .refl h.wellFormed
  -- an address stands in one of two attributes, and neither tells styles apart
  · have hmarker : name ∉ Page.styleMarkers := by
      rcases Urls.eq_of_addressName? hname with rfl | rfl <;> decide
    have hset : page.Keeps (page.setAttribute child name url) := h.setAttribute hmarker
    rcases hcases with heq | ⟨htag, heq⟩ <;> rw [heq]
    · exact hset
    · refine hset.trans (Urls.addTwin_keeps (hset.tidy h) (hset.tag? child _ ?_))
      rw [Page.tag?, hel, ← htag]
      rfl

/-- Moving addresses keeps the custom styles. -/
theorem Urls.keeps (h : page.Tidy) (s : Settings.Urls) : page.Keeps (Urls.run s page).page := by
  rw [Urls.run]
  split
  · exact .refl h.wellFormed
  · have hmoved : page.Keeps ((page.elementChildren page.head).foldl (Urls.relocateChild s) page) :=
      h.keeps_foldl fun _ _ hp child _ => Urls.relocateChild_keeps s hp child
    show page.Keeps (if Urls.isSelfHosted s then _ else Urls.addPreconnect _)
    split
    · exact hmoved
    · refine hmoved.trans ?_
      rw [Urls.addPreconnect]
      split
      · exact .refl hmoved.wellFormed
      · exact (hmoved.tidy h).attachNew_head (Element.distinct_make "link" _)
          (by rw [Element.tag_make]; decide) (isPlacement_append _)

/-! ## Boilerplate -/

/-- A new element that is no custom style and stands nowhere. -/
theorem Page.Tidy.createElement (h : page.Tidy) (tag : String) (given : List (String × String)) :
    page.Keeps (page.createElement tag given).1 := by
  refine h.create fun el hel => ?_
  obtain rfl := NodeKind.element.inj hel
  exact Element.distinct_make _ _

section CreateFilled

variable {tag : String} {given : List (String × String)} {content : String}

/-- Making an element with a text keeps the custom styles. -/
theorem Page.Tidy.createFilled (h : page.Tidy) :
    page.Keeps (page.createFilled tag given content) := by
  have hnew := h.createElement tag given
  have hlinks : page.SameLinks (page.createElement tag given).1 := create_sameLinks _
  have hel : (page.createElement tag given).1.element? page.next = some (.make tag given) :=
    element?_eq_some_iff.mpr (kind?_create_next _)
  have hfixed := hnew.not_isFixed_next h.wellFormed
  refine hnew.trans ((hnew.tidy h).setTextContent (by rw [hel]; rfl) ?_ ?_ ?_)
  · exact fun heq => hfixed (.inl heq)
  · exact fun heq => hfixed (.inr (.inl heq))
  · intro hstyle
    have hparent := ((mem_customStyles_iff hnew.wellFormed.linked).mp hstyle).1
    rw [hlinks.parent?, parent?_of_not_has not_has_next] at hparent
    cases hparent

end CreateFilled

/-- Making the noscript keeps the custom styles. -/
theorem Boilerplate.withNoscript_keeps (h : page.Tidy) : page.Keeps (Boilerplate.withNoscript page) := by
  let created := (page.createElement "noscript" []).1
  let filled := created.createFilled "style" [("amp-boilerplate", "")] Vocabulary.noscriptCss
  have hcreated : page.Keeps created := h.createElement "noscript" []
  have hfilled : created.Keeps filled := (hcreated.tidy h).createFilled
  have htidy : filled.Tidy := hfilled.tidy (hcreated.tidy h)
  have hstyle : filled.element? created.next = some (.make "style" [("amp-boilerplate", "")]) :=
    Page.element?_createFilled
  have hnoscript : filled.element? page.next = some (.make "noscript" []) :=
    Page.createFilled_sameKinds.element? Boilerplate.element?_createElement_noscript
  have htag : filled.tag? page.next = some "noscript" := by rw [Page.tag?, hnoscript]; rfl
  have hwell : (filled.attach page.next created.next (· ++ [created.next])).WellFormed :=
    (Boilerplate.maintains_withNoscript h.wellFormed).wellFormed
  have hattached : filled.Keeps (filled.attach page.next created.next (· ++ [created.next])) :=
    htidy.attach hstyle (by decide) (Page.has_of_element? hnoscript)
      (htidy.not_mem_of_tag? htag (by decide)) (isPlacement_append _) hwell
  rw [Boilerplate.withNoscript, Page.appendChild]
  exact (hcreated.trans hfilled).trans hattached

/-- The pair: a style, and a noscript with another one in it. -/
theorem Boilerplate.insertPair_keeps (h : page.Tidy) : page.Keeps (Boilerplate.insertPair page) := by
  let withStyle := page.createFilled "style" [("amp-boilerplate", "")] Vocabulary.boilerplateCss
  let joined := Boilerplate.withNoscript withStyle
  let placed := joined.appendChild joined.head page.next
  have hstyle : page.Keeps withStyle := h.createFilled
  have hjoined : withStyle.Keeps joined := Boilerplate.withNoscript_keeps (hstyle.tidy h)
  have hstyleEl : joined.element? page.next = some (.make "style" [("amp-boilerplate", "")]) :=
    Boilerplate.withNoscript_sameKinds.element? Page.element?_createFilled
  have htidy := (hstyle.trans hjoined).tidy h
  have hplaced : joined.Keeps placed :=
    htidy.attach_head hstyleEl (by decide) ((hstyle.trans hjoined).not_isFixed_next h.wellFormed)
      (isPlacement_append _)
  have hnoscript : placed.element? withStyle.next = some (.make "noscript" []) :=
    Page.attach_sameKinds.element? Boilerplate.element?_withNoscript
  have hlast : placed.Keeps (placed.appendChild placed.head withStyle.next) :=
    (hplaced.tidy htidy).attach_head hnoscript
      (Page.isCustomStyle_eq_false (by rw [Element.tag_make]; decide))
      ((hjoined.trans hplaced).not_isFixed_next hstyle.wellFormed) (isPlacement_append _)
  rw [hplaced.head] at hlast
  exact ((hstyle.trans hjoined).trans hplaced).trans hlast

/-- A boilerplate style that were custom too would not be tidy, and a noscript is no style. -/
theorem Boilerplate.isCustomStyle_eq_false (h : page.Tidy) {x : NodeId} {el : Element}
    (hparent : page.parent? x = some page.head) (hel : page.element? x = some el)
    (hx : page.isElement x Vocabulary.isBoilerplateStyle = true ∨ Boilerplate.isNoscript page x = true) :
    isCustomStyle el = false := by
  rcases hx with hboilerplate | hnoscript
  · by_contra hcustom
    have hstyle : x ∈ page.customStyles :=
      (Page.mem_customStyles_iff h.wellFormed.linked).mpr
        ⟨hparent, by rw [Page.isElement, hel]; exact Bool.not_eq_false _ ▸ hcustom⟩
    rw [h.notBoilerplate x hstyle] at hboilerplate
    cases hboilerplate
  · rw [Boilerplate.isNoscript, Bool.and_eq_true] at hnoscript
    obtain ⟨el', hel', htag⟩ := Page.isTag_iff.mp hnoscript.1
    rw [hel] at hel'
    obtain rfl := Option.some.inj hel'
    exact Page.isCustomStyle_eq_false (by rw [htag]; decide)

/-- Boilerplate may go from the head. -/
theorem Boilerplate.detachAll_keeps (h : page.Tidy) {ids : List NodeId}
    (hids : ∀ y ∈ ids, y ∈ page.elementChildren page.head
      ∧ (page.isElement y Vocabulary.isBoilerplateStyle = true ∨ Boilerplate.isNoscript page y = true)) :
    page.Keeps (page.detachAll ids) := by
  refine h.detachAll_elements (fun y hy => ?_) (fun y hy => ?_)
  all_goals
    obtain ⟨hchild, hgone⟩ := hids y hy
    obtain ⟨hparent, el, hel⟩ := h.wellFormed.linked.mem_elementChildren_iff.mp hchild
  · exact ⟨(h.wellFormed.head_child hparent).1, (h.wellFormed.head_child hparent).2.1⟩
  · exact ⟨el, hel, Boilerplate.isCustomStyle_eq_false h hparent hel hgone⟩

/-- Seeing to the boilerplate keeps the custom styles. -/
theorem Boilerplate.keeps (h : page.Tidy) : page.Keeps (Boilerplate.run page) := by
  rw [Boilerplate.run]
  split
  · exact .refl h.wellFormed
  · split
    · exact .refl h.wellFormed
    · have hgone : page.Keeps (page.detachAll (Boilerplate.styles page ++ Boilerplate.noscripts page)) := by
        refine Boilerplate.detachAll_keeps h fun y hy => ?_
        rcases List.mem_append.mp hy with hy | hy
        · exact ⟨(List.mem_filter.mp hy).1, .inl (List.mem_filter.mp hy).2⟩
        · exact ⟨(List.mem_filter.mp hy).1, .inr (List.mem_filter.mp hy).2⟩
      exact hgone.trans (Boilerplate.insertPair_keeps (hgone.tidy h))

/-! ## Extensions -/

namespace Extensions

/-- No marker of styles is a shorthand or spelled out. -/
theorem unbound_of_mem_styleMarkers {marker : String} (h : marker ∈ Page.styleMarkers) : Unbound marker := by
  have hall : ∀ marker ∈ Page.styleMarkers, Unbound marker := by decide
  exact hall marker h

theorem spellOut_neutral : Neutral spellOut where
  tag _ := tag_spellOut
  distinct _ := distinct_spellOut
  marker _ _ hmarker := hasAttribute_spellOut (unbound_of_mem_styleMarkers hmarker)

theorem spellOutAll_keeps (h : page.Tidy) : page.Keeps (spellOutAll page) :=
  h.keeps_foldl fun _ _ hp _ _ => hp.mapElement spellOut_neutral

/-- Taking scripts out keeps the custom styles. -/
theorem cleared_keeps (h : page.Tidy) : page.Keeps (cleared page) := by
  refine h.detachAll_elements (fun n hn => ?_) (fun n hn => ?_)
  · obtain ⟨hhead, hbody, _⟩ := h.wellFormed.head_child ((mem_taken_iff h.wellFormed.linked).mp hn).1
    exact ⟨hhead, hbody⟩
  · obtain ⟨el, hel, htag⟩ := Option.map_eq_some_iff.mp (tag?_of_mem_taken h.wellFormed.linked hn)
    exact ⟨el, hel, Page.isCustomStyle_eq_false (by rw [htag]; decide)⟩

/-- The page that is searched has the same custom styles. -/
theorem searched_keeps (h : page.Tidy) (s : Settings.Extensions) : page.Keeps (searched s page) := by
  have hcleared := cleared_keeps h
  rw [searched]
  split
  · exact hcleared.trans (spellOutAll_keeps (hcleared.tidy h))
  · exact hcleared

/-- One import keeps the custom styles. -/
theorem require_keeps (s : Settings.Extensions) (spec : Spec) (groups : List Group) (h : page.Tidy)
    (name : String) : page.Keeps (require s spec (page, groups) name).1 := by
  rcases require_cases s spec page groups name with ⟨_, heq⟩ | ⟨_, _, heq⟩ | ⟨e, _, _, heq⟩
  · rw [heq]
    exact .refl h.wellFormed
  · rw [heq]
    exact .refl h.wellFormed
  · rw [heq]
    exact h.createElement "script" _

/-- All imports keep the custom styles. -/
theorem foldl_require_keeps (s : Settings.Extensions) (spec : Spec) (required : List String)
    (groups : List Group) (h : page.Tidy) :
    page.Keeps (required.foldl (require s spec) (page, groups)).1 := by
  induction required generalizing page groups with
  | nil => exact .refl h.wellFormed
  | cons name required ih =>
    have hfirst := require_keeps s spec groups h name
    exact hfirst.trans (ih _ (hfirst.tidy h))

/-- Putting scripts into the head keeps the custom styles. -/
theorem insertBlock_keeps (h : page.Tidy) (anchor : Option NodeId) {nodes : List NodeId}
    (hnodes : ∀ n ∈ nodes, page.tag? n = some "script") :
    page.Keeps (insertBlock page anchor nodes) := by
  induction nodes generalizing page anchor with
  | nil => exact .refl h.wellFormed
  | cons node rest ih =>
    obtain ⟨hnode, hrest⟩ := List.forall_mem_cons.mp hnodes
    obtain ⟨el, hel, htag⟩ := Option.map_eq_some_iff.mp hnode
    have hplaced : page.Keeps (page.attach page.head node (blockPlace node anchor)) :=
      h.attach_head hel (Page.isCustomStyle_eq_false (by rw [htag]; decide))
        (h.wellFormed.not_isFixed_of_tag? hnode (by decide)) (isPlacement_blockPlace node anchor)
    rw [insertBlock_cons]
    exact hplaced.trans (ih (hplaced.tidy h) (some node) fun n hn => hplaced.tag? n _ (hrest n hn))

/-- Seeing to the extensions keeps the custom styles. -/
theorem keeps (h : page.Tidy) (s : Settings.Extensions) (spec : Spec) :
    page.Keeps (run s spec page).page := by
  have hsearched := searched_keeps h s
  have hstocked : page.Keeps (stocked s spec page).1 :=
    hsearched.trans (foldl_require_keeps s spec _ _ (hsearched.tidy h))
  rw [page_run]
  exact hstocked.trans (insertBlock_keeps (hstocked.tidy h) _ fun n hn => tag?_of_mem_block h.wellFormed hn)

end Extensions

end AmpTuner
