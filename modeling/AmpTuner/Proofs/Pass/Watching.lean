import AmpTuner.Proofs.Pass.HeadOrder
import AmpTuner.Proofs.Pass.Settling
import AmpTuner.Proofs.Rendering.Stylesheet

/-!
# What passes leave as it was

Most writes of the passes leave most elements of the head alone. Which elements matter, and what of them, is told by
a watch: a function that gives `none` of the other elements.

* **`Page.KeepsWatched`** is what a write promises: what is watched of every node is the same, and what is watched
  stands in the head, or in a noscript, if it stood there. There is one lemma for each write, named after it.
* **`Page.KeepsWatched.trans`** and **`Page.keepsWatched_foldl`** chain writes.
* **`LooksPast`** is a watch that sees nothing of what the passes behind the extensions create and write. What such a
  watch sees is kept by **`Viewport.keepsWatched_run`** to **`Minify.keepsWatched_run`**.
-/

namespace AmpTuner

open Markup (Element)
open Vocabulary

variable {α : Type} {watch : Element → Option α} {page page' page'' : Page} {id x q : NodeId} {el : Element}

namespace Page

/-- What is watched of a node. -/
def watched? (page : Page) (watch : Element → Option α) (x : NodeId) : Option α := (page.element? x).bind watch

/-- The places in which watched elements are looked for. -/
def IsOutlook (page : Page) (q : NodeId) : Prop := q = page.head ∨ page.tag? q = some "noscript"

/-- The page is maintained, and what is watched stays what it is and where it is. -/
structure KeepsWatched (watch : Element → Option α) (page page' : Page) : Prop extends Maintains page page' where
  watched? : ∀ x, page'.watched? watch x = page.watched? watch x
  parent? : ∀ x q, (page.watched? watch x).isSome → page.IsOutlook q →
    (page'.parent? x = some q ↔ page.parent? x = some q)

theorem watched?_congr (h : page'.kind? x = page.kind? x) : page'.watched? watch x = page.watched? watch x := by
  rw [watched?, element?_congr h, watched?]

/-- Only elements are watched. -/
theorem exists_element_of_watched? (hx : (page.watched? watch x).isSome) :
    ∃ el, page.element? x = some el ∧ (watch el).isSome := by
  obtain ⟨a, ha⟩ := Option.isSome_iff_exists.mp hx
  obtain ⟨el, hel, hwatch⟩ := Option.bind_eq_some_iff.mp ha
  exact ⟨el, hel, by rw [hwatch]; rfl⟩

theorem has_of_watched? (hx : (page.watched? watch x).isSome) : page.Has x := by
  obtain ⟨el, hel, -⟩ := exists_element_of_watched? hx
  exact has_of_element? hel

theorem watched?_of_not_has (hx : ¬ page.Has x) : page.watched? watch x = none := by
  rw [watched?, element?, (kind?_eq_none_iff page x).mpr hx]
  rfl

/-- The places that are looked at are the head and noscripts. -/
theorem IsOutlook.tag? (h : page.IsOutlook q) (hpage : page.WellFormed) :
    page.tag? q = some "head" ∨ page.tag? q = some "noscript" := by
  refine h.imp_left ?_
  rintro rfl
  exact hpage.tag?_head

namespace KeepsWatched

theorem refl (h : page.WellFormed) : page.KeepsWatched watch page where
  toMaintains := .refl h
  watched? _ := rfl
  parent? _ _ _ _ := .rfl

/-- Two changes that keep what is watched, one after the other. -/
theorem trans (h : page.KeepsWatched watch page') (h' : page'.KeepsWatched watch page'') :
    page.KeepsWatched watch page'' where
  toMaintains := h.toMaintains.trans h'.toMaintains
  watched? x := (h'.watched? x).trans (h.watched? x)
  parent? x q hx hq := by
    refine (h'.parent? x q (by rwa [h.watched?]) ?_).trans (h.parent? x q hx hq)
    exact hq.imp (fun heq => heq.trans h.head.symm) (h.tag? q _)

end KeepsWatched

/-! ## One lemma for each write -/

/-- The nodes that were there are what they were, and the new ones are not watched. -/
theorem Maintains.keepsWatched (h : page.Maintains page') (hkinds : page.SameKinds page')
    (hnew : ∀ x el, ¬ page.Has x → page'.element? x = some el → watch el = none)
    (hparent : ∀ x q, (page.watched? watch x).isSome → page.IsOutlook q →
      (page'.parent? x = some q ↔ page.parent? x = some q)) : page.KeepsWatched watch page' where
  toMaintains := h
  watched? x := by
    by_cases hx : page.Has x
    · exact watched?_congr (hkinds.kind? x hx)
    · rw [watched?_of_not_has hx]
      cases hel : page'.element? x with
      | none => rw [Page.watched?, hel, Option.bind_none]
      | some el => rw [Page.watched?, hel, Option.bind_some, hnew x el hx hel]
  parent? := hparent

section Writes

variable (h : page.WellFormed)

include h

/-- An element may be changed in what is not watched. -/
theorem keepsWatched_mapElement {f : Element → Element} (htag : ∀ el, (f el).tag = el.tag)
    (hdistinct : ∀ el, el.Distinct → (f el).Distinct)
    (hwatch : ∀ el, page.element? id = some el → watch (f el) = watch el) :
    page.KeepsWatched watch (page.mapElement id f) where
  toMaintains := h.maintains_mapElement htag hdistinct
  watched? x := by
    rw [watched?, watched?, element?_mapElement]
    split
    · next heq =>
      subst heq
      cases hel : page.element? x with
      | none => rfl
      | some el => exact hwatch el hel
    · rfl
  parent? x q _ _ := by rw [(mapElement_sameLinks f).parent?]

theorem keepsWatched_setAttribute {name value : String}
    (hwatch : ∀ el, page.element? id = some el → watch (el.set name value) = watch el) :
    page.KeepsWatched watch (page.setAttribute id name value) :=
  keepsWatched_mapElement h (fun _ => rfl) (fun _ hel => hel.set) hwatch

theorem keepsWatched_withCounters (budget : Css.Budget) (nextGenerated : Nat) :
    page.KeepsWatched watch { page with budget, nextGenerated } :=
  { KeepsWatched.refl h with wellFormed := h.withCounters budget nextGenerated }

theorem keepsWatched_setContent {content : String} : page.KeepsWatched watch (page.setContent id content) where
  toMaintains := h.maintains_setContent
  watched? x := by rw [watched?, element?_setContent, watched?]
  parent? x q _ _ := by rw [(setContent_sameLinks content).parent?]

/-- What is not watched may go from anywhere. -/
theorem keepsWatched_detachAll {ids : List NodeId} (hfixed : ∀ y ∈ ids, y ≠ page.head ∧ y ≠ page.body)
    (hids : ∀ y ∈ ids, page.watched? watch y = none) : page.KeepsWatched watch (page.detachAll ids) := by
  refine (h.maintains_detachAll hfixed).keepsWatched (detachAll_sameKinds ids) ?_ ?_
  · intro x el hnot hel
    exact absurd ((has_detachAll ids).mp (has_of_element? hel)) hnot
  · intro x q hx _
    rw [parent?_detachAll, if_neg]
    intro hmem
    rw [hids x hmem] at hx
    cases hx

/-- An element that is not watched may be added anywhere. -/
theorem keepsWatched_attachNew {parent : NodeId} {place : List NodeId → List NodeId} (hdistinct : el.Distinct)
    (hel : watch el = none) (hparent : (page.element? parent).isSome = true) (hroot : parent ≠ page.root)
    (hplace : IsPlacement page.next place) : page.KeepsWatched watch (page.attachNew (.element el) parent place) := by
  refine (h.maintains_attachNew hdistinct hparent hroot hplace).keepsWatched attachNew_sameKinds ?_ ?_
  · intro x el' hnot hel'
    obtain rfl : x = page.next := (has_attachNew.mp (has_of_element? hel')).resolve_left hnot
    rw [element?, kind?_attachNew, if_pos rfl] at hel'
    obtain rfl := Option.some.inj hel'
    exact hel
  · intro x q hx _
    rw [parent?_attachNew, if_neg (ne_next_of_has (has_of_watched? hx))]

theorem keepsWatched_attachNew_head {place : List NodeId → List NodeId} (hdistinct : el.Distinct)
    (hel : watch el = none) (hplace : IsPlacement page.next place) :
    page.KeepsWatched watch (page.attachNew (.element el) page.head place) :=
  keepsWatched_attachNew h hdistinct hel h.isSome_element?_head h.head_ne_root hplace

/-- What an element holds may give way to a text where nothing watched is looked for. -/
theorem keepsWatched_setTextContent (hid : (page.element? id).isSome = true) (hroot : id ≠ page.root)
    (houtlook : ¬ page.IsOutlook id) (content : String) : page.KeepsWatched watch (page.setTextContent id content) := by
  have hnew {x : NodeId} (hx : x ∈ page.textNodes content) : ¬ page.Has x := by
    rw [textNodes] at hx
    split at hx
    · cases hx
    · rw [List.mem_singleton.mp hx]
      exact not_has_next
  refine (h.maintains_setTextContent hid hroot).keepsWatched (setTextContent_sameKinds content) ?_ ?_
  · intro x el hnot hel
    have hmem := ((has_setTextContent content).mp (has_of_element? hel)).resolve_left hnot
    rw [element?, kind?_setTextContent, if_pos hmem] at hel
    cases hel
  · intro x q hx hq
    rw [h.linked.parent?_setTextContent, if_neg fun hmem => hnew hmem (has_of_watched? hx)]
    split
    · next hinside =>
      have hne : id ≠ q := by
        rintro rfl
        exact houtlook hq
      rw [hinside]
      simp [hne]
    · exact .rfl

/-- What keeps watched elements turn by turn keeps them over a whole loop. -/
theorem keepsWatched_foldl {β : Type} {step : Page → β → Page} {items : List β}
    (hstep : ∀ p : Page, page.KeepsWatched watch p → ∀ b ∈ items, p.KeepsWatched watch (step p b)) :
    page.KeepsWatched watch (items.foldl step page) := by
  have run (todo : List β) (htodo : ∀ b ∈ todo, b ∈ items) (p : Page) (hp : page.KeepsWatched watch p) :
      page.KeepsWatched watch (todo.foldl step p) := by
    induction todo generalizing p with
    | nil => exact hp
    | cons b todo ih =>
      obtain ⟨hb, htodo⟩ := List.forall_mem_cons.mp htodo
      exact ih htodo _ (hp.trans (hstep p hp b hb))
  exact run items (fun _ hb => hb) page (.refl h)

end Writes

end Page

/-! ## Passes that a watch does not see -/

/-- Tags of elements that passes create or change, besides those of custom elements. -/
def incidentalTags : List String := ["meta", "img", sizerTag]

/-- The watch sees nothing of what passes create, and of what they write at most that the boilerplate is gone. -/
structure LooksPast (watch : Element → Option α) : Prop where
  set : ∀ el name value, name ∈ touchedNames → name ≠ noBoilerplateMarker → watch (el.set name value) = watch el
  incidental : ∀ el : Element, el.tag ∈ incidentalTags ∨ Markup.isComponent el.tag = true → watch el = none
  customStyle : watch Page.customElement = none
  preload : ∀ image source, watch (.make "link" (HeroImages.preloadAttributes image source)) = none

section Passes

variable (h : page.WellFormed) (hwatch : LooksPast watch)

include h hwatch

open Page

/-- All viewports are metas below the head. -/
theorem Viewport.keepsWatched_merged {first : NodeId} {more : List NodeId} {content : String}
    (hviewports : page.elementsWhere page.head Viewport.isViewport = first :: more) :
    page.KeepsWatched watch (Viewport.merged page first more content) := by
  have hmeta {el : Element} (htag : el.tag = "meta") : watch el = none :=
    hwatch.incidental el (.inl (by rw [htag]; decide))
  have hmetas : ∀ y ∈ first :: more, page.Above page.head y ∧ page.tag? y = some "meta" := fun y hy =>
    Viewport.of_mem_viewports h (hviewports ▸ hy)
  have hset : page.KeepsWatched watch (page.setAttribute first "content" content) := by
    refine keepsWatched_setAttribute h fun el hel => ?_
    have htag := (hmetas first List.mem_cons_self).2
    rw [Page.tag?, hel] at htag
    have htag : el.tag = "meta" := Option.some.inj htag
    rw [hmeta htag, show watch (el.set "content" content) = none from hmeta htag]
  refine hset.trans (keepsWatched_detachAll hset.wellFormed (fun y hy => ?_) fun y hy => ?_)
  · have habove := (hmetas y (List.mem_cons_of_mem _ hy)).1
    rw [hset.head, hset.body]
    exact ⟨h.ne_head_of_above_head habove, h.ne_body_of_above_head habove⟩
  · obtain ⟨el, hel, htag⟩ :=
      Option.map_eq_some_iff.mp (hset.tag? y _ (hmetas y (List.mem_cons_of_mem _ hy)).2)
    rw [Page.watched?, hel, Option.bind_some, hmeta htag]

/-- Such a watch sees nothing of merging viewports. -/
theorem Viewport.keepsWatched_run : page.KeepsWatched watch (Viewport.run page) := by
  rcases Viewport.run_cases page with ⟨-, place, hplace, heq⟩ | ⟨x, -, heq⟩
      | ⟨first, more, content, hviewports, heq⟩ <;>
    rw [heq]
  · exact keepsWatched_attachNew_head h (Element.distinct_make _ _) (hwatch.incidental _ (.inl (by decide))) hplace
  · exact .refl h
  · exact Viewport.keepsWatched_merged h hwatch hviewports

/-- The style sheet goes into its place. -/
theorem RuntimeCss.keepsWatched_inlined {s : Settings.RuntimeCss} {style : NodeId}
    (hfound : RuntimeCss.placeholder? page = some style) (css : String) :
    page.KeepsWatched watch (RuntimeCss.inlined s page style css) := by
  obtain ⟨hparent, el, hel, htag, -⟩ := RuntimeCss.of_placeholder? h hfound
  have houtlook : ¬ page.IsOutlook style := by
    intro houtlook
    have hstyle : page.tag? style = some "style" := by rw [Page.tag?, hel, ← htag]; rfl
    rcases houtlook.tag? h with heq | heq <;>
    · rw [hstyle] at heq
      exact absurd (Option.some.inj heq) (by decide)
  have hset : page.KeepsWatched watch (page.setTextContent style css) :=
    keepsWatched_setTextContent h (by rw [hel]; rfl) (h.head_child hparent).2.2 houtlook css
  exact hset.trans (keepsWatched_setAttribute hset.wellFormed fun el _ => hwatch.set el _ _ (by decide) (by decide))

/-- It sees nothing of one hero image. -/
theorem HeroImages.keepsWatched_preload (htag : page.tag? id = some "amp-img") :
    page.KeepsWatched watch (HeroImages.preload page id) := by
  obtain heq | ⟨image, source, heq⟩ := HeroImages.preload_eq_or page id
  · exact heq.symm ▸ .refl h
  · rw [heq, HeroImages.add]
    have hlink : page.KeepsWatched watch
        (HeroImages.addLink page (.make "link" (HeroImages.preloadAttributes image source))) :=
      keepsWatched_attachNew_head h (Element.distinct_make "link" _) (hwatch.preload image source)
        (isPlacement_append _)
    have hroot := hlink.wellFormed.not_isFixed_of_tag? (hlink.tag? id _ htag) (by decide)
    have himage : watch (.make "img" (HeroImages.renderedAttributes image)) = none :=
      hwatch.incidental _ (.inl (by rw [Element.tag_make]; decide))
    have hrendered := hlink.trans (keepsWatched_attachNew hlink.wellFormed (Element.distinct_make "img" _) himage
      (hlink.isSome_element? htag) (fun heq => hroot (.inl heq)) (isPlacement_append _))
    exact hrendered.trans (keepsWatched_setAttribute hrendered.wellFormed fun el _ =>
      hwatch.set el _ _ (by decide) (by decide))

theorem HeroImages.keepsWatched_run (s : Settings.HeroImages) :
    page.KeepsWatched watch (HeroImages.run s page).page :=
  keepsWatched_foldl h fun _ hp id hid => HeroImages.keepsWatched_preload hp.wellFormed hwatch
    (hp.tag? id _ (HeroImages.tag?_of_mem_heroes (List.mem_of_mem_take hid)))

theorem Identifier.keepsWatched_run : page.KeepsWatched watch (Identifier.run page) :=
  keepsWatched_setAttribute h fun el _ => hwatch.set el _ _ (by decide) (by decide)

omit hwatch

/-- It sees nothing of the order of the head. -/
theorem HeadOrder.keepsWatched_run : page.KeepsWatched watch (HeadOrder.run page) := by
  refine (Maintains.of_sameKinds (HeadOrder.run_wellFormed h) HeadOrder.run_sameFrame
    ⟨fun _ _ => HeadOrder.kind?_run⟩).keepsWatched ⟨fun _ _ => HeadOrder.kind?_run⟩ ?_ ?_
  · intro x el hnot hel
    exact absurd (HeadOrder.has_run.mp (Page.has_of_element? hel)) hnot
  · intro x q hx _
    obtain ⟨el, hel, -⟩ := exists_element_of_watched? hx
    rw [HeadOrder.parent?_run_of_element h hel]

/-- It sees nothing of one turn of minification. -/
theorem Minify.keepsWatched_minifyNode (s : Settings.Minify) (id : NodeId) :
    page.KeepsWatched watch (Minify.minifyNode s page id) := by
  rcases Minify.minifyNode_cases s page id with heq | ⟨hel, -, heq | ⟨content, heq⟩⟩ <;> rw [heq]
  · exact .refl h
  · show page.KeepsWatched watch (page.detachAll [id])
    refine keepsWatched_detachAll h (List.forall_mem_singleton.mpr (h.ne_of_element?_eq_none hel)) ?_
    simp [Page.watched?, hel]
  · exact keepsWatched_setContent h

theorem Minify.keepsWatched_run (s : Settings.Minify) : page.KeepsWatched watch (Minify.run s page) :=
  keepsWatched_foldl h fun _ hp id _ => Minify.keepsWatched_minifyNode hp.wellFormed s id

end Passes

/-! ## Rendering -/

namespace Rendering

variable (h : page.WellFormed) (hwatch : LooksPast watch)

include h hwatch

/-- It sees nothing of rules that are appended. -/
theorem keepsWatched_appendCustomCss (css : String) : page.KeepsWatched watch (page.appendCustomCss css) := by
  have hkinds : page.SameKinds (page.appendCustomCss css) := Page.appendCustomCss_sameKinds css
  refine (Page.Maintains.of_sameKinds (h.appendCustomCss css) (Page.appendCustomCss_sameFrame css)
    hkinds).keepsWatched hkinds ?_ ?_
  · intro x el hnot hel
    rcases h.of_not_has_appendCustomCss css (Page.has_of_element? hel) hnot with ⟨-, hstyle⟩ | htext
    · obtain rfl := Option.some.inj (hel.symm.trans hstyle)
      exact hwatch.customStyle
    · rw [Page.element?, (h.kind?_of_mem_textNodes css htext).2] at hel
      cases hel
  · intro x q hx hq
    rw [h.parent?_appendCustomCss css (Page.has_of_watched? hx), and_iff_left]
    intro hcustom
    rcases hq.tag? h with htag | htag <;>
    · obtain ⟨el, hel, htag⟩ := Option.map_eq_some_iff.mp htag
      rw [h.tag_of_customStyle? hcustom hel] at htag
      exact absurd htag (by decide)

/-- A custom element is not watched, and nothing watched is looked for in it. -/
theorem Replaced.keepsWatched {elOld : Element} (hreplaced : Replaced page id el page')
    (hid : page.element? id = some elOld) (hcomponent : Markup.isComponent elOld.tag = true)
    (htag : el.tag = elOld.tag) : page.KeepsWatched watch page' := by
  refine (Page.Maintains.of_sameKinds hreplaced.wellFormed hreplaced.frame hreplaced.sameKinds).keepsWatched
    hreplaced.sameKinds ?_ ?_
  · intro x el' hnot hel'
    by_cases hx : x = page.next
    · subst hx
      obtain rfl := Option.some.inj (hel'.symm.trans hreplaced.element?_next)
      exact hwatch.incidental _ (.inr (htag ▸ hcomponent))
    · obtain ⟨spacer, hspacer, -, htags⟩ := hreplaced.added x (Page.has_of_element? hel') hnot hx
      obtain rfl := Option.some.inj (hel'.symm.trans hspacer)
      rcases htags with heq | ⟨heq, -⟩ <;> exact hwatch.incidental _ (.inl (by rw [heq]; decide))
  · intro x q hx hq
    have hxid : x ≠ id := by
      rintro rfl
      rw [Page.watched?, hid, Option.bind_some, hwatch.incidental _ (.inr hcomponent)] at hx
      cases hx
    have hqHas : page.Has q := (hq.tag? h).elim Page.has_of_tag? Page.has_of_tag?
    have hqid : q ≠ id := by
      rintro rfl
      rcases hq.tag? h with heq | heq <;>
      · rw [Page.tag?, hid, Option.map_some] at heq
        rw [Option.some.inj heq] at hcomponent
        exact absurd hcomponent (by decide)
    rw [hreplaced.parent? x (Page.has_of_watched? hx) hxid, Option.map_eq_some_iff]
    constructor
    · rintro ⟨p, hp, hheir⟩
      by_cases hpid : p = id
      · rw [hpid, heir_self] at hheir
        exact absurd (hheir ▸ hqHas) Page.not_has_next
      · rwa [← hheir, heir_of_ne hpid]
    · intro hp
      exact ⟨q, hp, heir_of_ne hqid⟩

/-- It sees nothing of an edit of rendering. -/
theorem Edit.keepsWatched (he : Edit page page') : page.KeepsWatched watch page' := by
  cases he with
  | count n => exact Page.keepsWatched_withCounters h page.budget n
  | @change id f hid hf =>
    refine Page.keepsWatched_mapElement h (fun el => hf.tag el) (fun _ hel => hf.distinct hel) fun el hel => ?_
    obtain ⟨el', hel', hcomponent⟩ := hid
    obtain rfl := Option.some.inj (hel.symm.trans hel')
    rw [hwatch.incidental el (.inr hcomponent), hwatch.incidental (f el) (.inr (by rwa [hf.tag]))]
  | @append css budget hroom =>
    have hcounted : page.KeepsWatched watch { page with budget } :=
      Page.keepsWatched_withCounters h budget page.nextGenerated
    exact hcounted.trans (keepsWatched_appendCustomCss hcounted.wellFormed hwatch css)
  | @apply id el hid hcomponent layout width height heightsConverted =>
    exact Replaced.keepsWatched h hwatch (replaced_applyLayout h hid hcomponent layout width height heightsConverted)
      hid hcomponent (tag_rendered _ _ _ el)

theorem Edits.keepsWatched (he : Edits page page') : page.KeepsWatched watch page' := by
  induction he with
  | refl => exact .refl h
  | tail _ hlast ih => exact ih.trans (Edit.keepsWatched ih.wellFormed hwatch hlast)

/-- All of rendering but the removal of the boilerplate. -/
theorem keepsWatched_finished : page.KeepsWatched watch (finished page).1.page := by
  have hmarked : page.KeepsWatched watch (marked page) :=
    Page.keepsWatched_setAttribute h fun el _ => hwatch.set el _ _ (by decide) (by decide)
  exact hmarked.trans (Edits.keepsWatched hmarked.wellFormed hwatch (finished_yields h).edits)

end Rendering

end AmpTuner
