import AmpTuner.Proofs.Rendering.Stylesheet
import AmpTuner.Proofs.Page.Readable

/-!
# Rendered pages and their markup

Rendering moves values of attributes into the stylesheet as they are, and a stylesheet is written without
references. So a value that holds an end tag closes the stylesheet before its end when the page is read
again. That is the only thing that can go wrong.

* **`Edit.nearlyReadable`**: every edit keeps all nodes readable, but for what the stylesheet holds.
* **`reread_run_iff`**: a rendered page comes back from its markup exactly when its stylesheet holds no end
  tag. **`not_reread_brokenSource`** is a page that does not.
-/

namespace AmpTuner

open Markup (Element isVoid isRawText holdsEndTag)
open Css (Budget)
open Vocabulary (isCustomStyle)

variable {page page' : Page} {id x : NodeId}

namespace Page

/-! ## Nodes after a write -/

/-- A node that is the same kind of node, over the same children or fewer, is as readable. -/
theorem NodeReadable.congr {excused excused' : Prop} (h : page.NodeReadable x excused)
    (hkind : page'.kind? x = page.kind? x) (hchildren : page.children x = [] → page'.children x = [])
    (hone : ∀ t content, page.children x = [t] → page.kind? t = some (.text content) →
      page'.children x = [] ∨ page'.children x = [t] ∧ page'.kind? t = page.kind? t)
    (himp : excused → excused') : page'.NodeReadable x excused' := by
  cases h.mono himp with
  | text htext hne => exact .text (hkind.trans htext) hne
  | comment hcomment h => exact .comment (hkind.trans hcomment) h
  | element hel hreadable hvoid hraw =>
    refine .element ((element?_congr hkind).trans hel) hreadable (fun htag => hchildren (hvoid htag)) fun htag => ?_
    rcases hraw htag with hnil | ⟨t, content, htext, hkind', hne, hend⟩
    · exact .inl (hchildren hnil)
    · rcases hone t content htext hkind' with hnil | ⟨hsame, hsameKind⟩
      · exact .inl hnil
      · exact .inr ⟨t, content, hsame, hsameKind.trans hkind', hne, hend⟩

/-- The budget and the counter are not written, so they do not matter. -/
theorem NearlyReadable.withCounters (h : page.NearlyReadable) (budget : Budget) (nextGenerated : Nat) :
    ({ page with budget, nextGenerated } : Page).NearlyReadable where
  wellFormed := h.wellFormed.withCounters budget nextGenerated
  doctype := h.doctype
  nodes x hx := (h.nodes x hx).congr rfl id (fun _ _ hone _ => .inr ⟨hone, rfl⟩) id

theorem customStyle?_congr (h : page'.customStyles = page.customStyles) :
    page'.customStyle? = page.customStyle? := by
  rw [customStyle?_eq, customStyle?_eq, h]

/-- A raw element is as literal with another element in its place that has the same tag. -/
theorem NodeReadable.mapElement {excused : Prop} (h : page.NodeReadable x excused) {f : Element → Element}
    (htag : ∀ el, (f el).tag = el.tag) (hreadable : ∀ el, el.Readable → (f el).Readable) :
    (page.mapElement id f).NodeReadable x excused := by
  have hchildren : (page.mapElement id f).children x = page.children x :=
    (mapElement_sameLinks f).children x
  have hplain {y : NodeId} {kind : NodeKind} (hkind : page.kind? y = some kind) (hnone : kind.element? = none) :
      (page.mapElement id f).kind? y = some kind := by
    rw [kind?_mapElement_of_element?_eq_none, hkind]
    rw [element?, hkind]
    exact hnone
  cases h with
  | text hkind hne => exact .text (hplain hkind rfl) hne
  | comment hkind hcomment => exact .comment (hplain hkind rfl) hcomment
  | @element el hel hel' hvoid hraw =>
    obtain ⟨el', hnew, hsame, hnewReadable⟩ :
        ∃ el', (page.mapElement id f).element? x = some el' ∧ el'.tag = el.tag ∧ el'.Readable := by
      rw [element?_mapElement, hel]
      split
      · exact ⟨f el, rfl, htag el, hreadable el hel'⟩
      · exact ⟨el, rfl, rfl, hel'⟩
    refine .element hnew hnewReadable (fun h => hchildren.trans (hvoid (hsame ▸ h))) fun h => ?_
    rw [hsame]
    rcases hraw (hsame ▸ h) with hnil | ⟨t, content, hone, hkind, hne, hend⟩
    · exact .inl (hchildren.trans hnil)
    · exact .inr ⟨t, content, hchildren.trans hone, hplain hkind rfl, hne, hend⟩

/-- A neutral change of an element that leaves it readable leaves the page nearly readable. -/
theorem NearlyReadable.mapElement (h : page.NearlyReadable) {f : Element → Element} (hf : Neutral f)
    (hreadable : ∀ el, el.Readable → (f el).Readable) : (page.mapElement id f).NearlyReadable where
  wellFormed := h.wellFormed.mapElement hf.tag hf.distinct
  doctype := h.doctype
  nodes x hx := by
    have hattached : page.Attached x := hx.imp_right (mapElement_sameLinks f).above_iff.mp
    rw [customStyle?_congr (customStyles_mapElement hf)]
    exact (h.nodes x hattached).mapElement hf.tag hreadable

/-- A readable node that is an element is a readable element. -/
theorem NodeReadable.readable {excused : Prop} (h : page.NodeReadable x excused) {el : Element}
    (hel : page.element? x = some el) : el.Readable := by
  cases h with
  | text hkind => rw [element?, hkind] at hel; cases hel
  | comment hkind => rw [element?, hkind] at hel; cases hel
  | element hel' hreadable =>
    obtain rfl := Option.some.inj (hel.symm.trans hel')
    exact hreadable

/-- The style that is made for the rules can be read back. -/
theorem readable_customElement : customElement.Readable := by
  have hstyle : Markup.IsTag "style" := ⟨Markup.isName_of_all (by decide) (by decide), by decide⟩
  refine .make hstyle ?_
  rw [List.forall_mem_singleton]
  exact Markup.isName_of_all (by decide) (by decide)

/-- Setting an attribute of the root that marks no style keeps the page nearly readable. -/
theorem NearlyReadable.setAttribute_root (h : page.NearlyReadable) {name value : String}
    (hmarker : name ∉ styleMarkers) (hname : Markup.IsName name) :
    (page.setAttribute page.root name value).NearlyReadable :=
  h.mapElement (.set value hmarker) fun _ hel => hel.set hname

/-- A stylesheet that was written holds one text, which is excused, or nothing. -/
theorem WellFormed.nodeReadable_customStyle (h : page.WellFormed) (css : String) {el : Element}
    (hstyle : (page.appendCustomCss css).customStyle? = some x)
    (hel : (page.appendCustomCss css).element? x = some el) (hreadable : el.Readable) :
    (page.appendCustomCss css).NodeReadable x ((page.appendCustomCss css).customStyle? = some x) := by
  have hchildren := h.children_customStyle_appendCustomCss css hstyle
  refine .element hel hreadable (fun hvoid => ?_) fun _ => ?_
  · rw [(h.appendCustomCss css).tag_of_customStyle? hstyle hel] at hvoid
    exact absurd hvoid (by decide)
  · rw [textNodes] at hchildren
    split at hchildren
    · exact .inl hchildren
    · next hne =>
      have hmem : page.withCustomStyle.1.next ∈ page.withCustomStyle.1.textNodes (page.customText ++ css) := by
        rw [textNodes, if_neg hne]
        exact List.mem_singleton.mpr rfl
      obtain ⟨hne', hkind⟩ := h.kind?_of_mem_textNodes css hmem
      exact .inr ⟨_, _, hchildren, hkind, hne', .inl hstyle⟩

/-- The stylesheet may hold anything now, and nothing else was touched. -/
theorem NearlyReadable.appendCustomCss (h : page.NearlyReadable) (css : String) :
    (page.appendCustomCss css).NearlyReadable where
  wellFormed := h.wellFormed.appendCustomCss css
  doctype := by
    rw [(appendCustomCss_sameFrame css).doctype]
    exact h.doctype
  nodes x hx := by
    have hwell := h.wellFormed.appendCustomCss css
    have hkinds : page.SameKinds (page.appendCustomCss css) := appendCustomCss_sameKinds css
    -- an old node is the stylesheet, the head, or has the children it had; a new one was made for the text
    by_cases hhas : page.Has x
    · have himage : page.Image (page.appendCustomCss css) fun x => x :=
        .of_parent? (appendCustomCss_sameFrame css).root fun x hx q hq =>
          ((h.wellFormed.parent?_appendCustomCss css hx).mp hq).1
      have hnode := h.nodes x (himage.attached h.wellFormed.linked hhas hx)
      by_cases hstyle : (page.appendCustomCss css).customStyle? = some x
      · obtain ⟨el, hel, _⟩ := hwell.of_mem_customStyles (mem_customStyles_of_customStyle? hstyle)
        have hel' : page.element? x = some el := by
          rw [← element?_congr (hkinds.kind? x hhas), hel]
        exact h.wellFormed.nodeReadable_customStyle css hstyle hel (hnode.readable hel')
      · have hother : page.customStyle? ≠ some x := fun heq => hstyle (by
          rw [h.wellFormed.customStyle?_appendCustomCss, heq]
          rfl)
        by_cases hhead : x = page.head
        · obtain ⟨el, hel, htag⟩ := Option.map_eq_some_iff.mp h.wellFormed.tag?_head
          rw [← hhead] at hel
          exact .of_plain (hkinds.element? hel) (hnode.readable hel) (by rw [htag]; decide) (by rw [htag]; decide)
        · have hchildren := h.wellFormed.children_appendCustomCss css hhas hhead hother
          refine hnode.congr (hkinds.kind? x hhas) (fun hnil => hchildren.trans hnil) ?_ fun heq =>
            absurd heq hother
          intro t content hone hkind
          exact .inr ⟨hchildren.trans hone, hkinds.kind? t (has_of_kind? hkind)⟩
    · rcases h.wellFormed.of_not_has_appendCustomCss css (hwell.has_of_attached hx) hhas with
        ⟨hstyle, hel⟩ | htext
      · exact h.wellFormed.nodeReadable_customStyle css hstyle hel readable_customElement
      · obtain ⟨hne, hkind⟩ := h.wellFormed.kind?_of_mem_textNodes css htext
        exact .text hkind hne

/-- Nodes that left the page are not asked any more. The stylesheet is no other one, unless it left. -/
theorem NearlyReadable.detachAll (h : page.NearlyReadable) {ids : List NodeId}
    (hids : ∀ y ∈ ids, page.parent? y = some page.head) : (page.detachAll ids).NearlyReadable where
  wellFormed := h.wellFormed.detachAll_head fun y hy => .of_parent? (hids y hy)
  doctype := by
    rw [(detachAll_sameFrame ids).doctype]
    exact h.doctype
  nodes x hx := by
    -- a node that went has no parent, so it is not on the page
    have hstays : x ∉ ids := by
      intro hmem
      have hnone : (page.detachAll ids).parent? x = none := by rw [parent?_detachAll, if_pos hmem]
      rcases hx with heq | habove
      · rw [(detachAll_sameFrame ids).root] at heq
        have hparent := hids x hmem
        rw [heq, h.wellFormed.parent?_root] at hparent
        cases hparent
      · exact not_above_of_parent?_eq_none hnone habove
    have hattached : page.Attached x := by
      rw [Attached, (detachAll_sameFrame ids).root] at hx
      exact hx.imp_right (Above.mono fun d p hp => parent?_of_detachAll hp)
    have hchildren := h.wellFormed.linked.children_detachAll (x := x) ids
    refine (h.nodes x hattached).congr (kind?_detachAll ids) (fun hnil => ?_) (fun t content hone _ => ?_)
      fun hstyle => ?_
    · rw [hchildren, hnil]
      rfl
    · rw [hchildren, hone]
      by_cases ht : t ∈ ids
      · exact .inl (by simp [ht])
      · exact .inr ⟨by simp [ht], kind?_detachAll ids⟩
    · rw [customStyle?_eq] at hstyle ⊢
      obtain ⟨rest, hrest⟩ : ∃ rest, page.customStyles = x :: rest := List.head?_eq_some_iff.mp hstyle
      rw [h.wellFormed.linked.customStyles_detachAll, hrest, List.filter_cons_of_pos (by simpa using hstays)]
      rfl

end Page

namespace Rendering

/-! ## Edits -/

/-- A custom element is neither void nor raw. -/
theorem isVoid_eq_false_of_isComponent {tag : String} (h : Markup.isComponent tag = true) :
    isVoid tag = false := by
  have hall : ∀ tag ∈ Markup.voidTags, Markup.isComponent tag = false := by decide
  rw [isVoid, ← Bool.not_eq_true, List.contains_iff_mem]
  intro hmem
  rw [hall tag hmem] at h
  cases h

/-- The content of a custom element is not raw text. -/
theorem isRawText_eq_false_of_isComponent {tag : String} (h : Markup.isComponent tag = true) :
    isRawText tag = false := by
  rw [isRawText, ← Bool.not_eq_true, Bool.or_eq_true, beq_iff_eq, beq_iff_eq]
  rintro (rfl | rfl)
  · exact absurd h (by decide)
  · exact absurd h (by decide)

/-- Replacing a custom element by a readable copy keeps the page nearly readable. -/
theorem Replaced.nearlyReadable {el elOld : Element} (h : Replaced page id el page')
    (hpage : page.NearlyReadable) (hid : page.element? id = some elOld)
    (hcomponent : Markup.isComponent elOld.tag = true) (htag : el.tag = elOld.tag)
    (hreadable : elOld.Readable → el.Readable) : page'.NearlyReadable where
  wellFormed := h.wellFormed
  doctype := by
    rw [h.frame.doctype]
    exact hpage.doctype
  nodes x hx := by
    have hroot : id ≠ page.root :=
      fun heq => hpage.wellFormed.not_isFixed_of_isComponent ⟨elOld, hid, hcomponent⟩ (.inl heq)
    have himage := h.image hpage.wellFormed
    rw [Page.customStyle?_congr (h.customStyles hpage.wellFormed hid hcomponent htag)]
    -- the nodes of the page are old ones other than `id`, the copy, and the spacer
    by_cases hhas : page.Has x
    · have hne : x ≠ id := fun heq => h.not_attached hroot (heq ▸ hx)
      have hattached := himage.attached hpage.wellFormed.linked hhas (by rwa [heir_of_ne hne])
      have hchildren := h.children x hhas hne
      refine (hpage.nodes x hattached).congr (h.sameKinds.kind? x hhas) (fun hnil => ?_)
        (fun t content hone hkind => ?_) fun hstyle => hstyle
      · rw [hchildren, hnil]
        rfl
      · have htid : t ≠ id := by
          rintro rfl
          rw [Page.element?, hkind] at hid
          cases hid
        refine .inr ⟨?_, h.sameKinds.kind? t (Page.has_of_kind? hkind)⟩
        rw [hchildren, hone, List.map_singleton, heir_of_ne htid]
    · by_cases hxn : x = page.next
      · -- the copy is on the page only if the element was
        have hhasId := Page.has_of_element? hid
        have hattached := himage.attached hpage.wellFormed.linked hhasId (by rw [heir_self, ← hxn]; exact hx)
        rw [hxn]
        exact .of_plain h.element?_next (hreadable ((hpage.nodes id hattached).readable hid))
          (htag ▸ isVoid_eq_false_of_isComponent hcomponent) (htag ▸ isRawText_eq_false_of_isComponent hcomponent)
      · obtain ⟨spacer, hspacer, hspacerReadable, hkind⟩ :=
          h.added x (h.wellFormed.has_of_attached hx) hhas hxn
        rcases hkind with htag | ⟨htag, hnil⟩
        · exact .of_plain hspacer hspacerReadable (by rw [htag]; decide) (by rw [htag]; decide)
        · refine .element hspacer hspacerReadable (fun _ => hnil) fun hraw => ?_
          rw [htag] at hraw
          exact absurd hraw (by decide)

/-- Each edit keeps the page nearly readable, by its four cases. -/
theorem Edit.nearlyReadable (h : page.NearlyReadable) (he : Edit page page') : page'.NearlyReadable := by
  cases he with
  | count n => exact h.withCounters page.budget n
  | change hid hf => exact h.mapElement hf.neutral fun _ => hf.readable
  | append hroom => exact (h.withCounters _ page.nextGenerated).appendCustomCss _
  | apply hid hcomponent layout width height heightsConverted =>
    exact (replaced_applyLayout h.wellFormed hid hcomponent layout width height heightsConverted).nearlyReadable h
      hid hcomponent (tag_rendered layout width height _) (readable_rendered layout width height)

theorem Edits.nearlyReadable (h : page.NearlyReadable) (he : Edits page page') : page'.NearlyReadable := by
  induction he with
  | refl => exact h
  | tail _ hstep ih => exact hstep.nearlyReadable ih

/-- Removing the boilerplate keeps the page nearly readable. -/
theorem removeBoilerplate_nearlyReadable (h : page.NearlyReadable) :
    (removeBoilerplate page).NearlyReadable := by
  have hset : (page.setAttribute page.root Vocabulary.noBoilerplateMarker "").NearlyReadable :=
    h.setAttribute_root (by decide) (Markup.isName_of_all (by decide) (by decide))
  refine hset.detachAll fun y hy => ?_
  exact (hset.wellFormed.linked.mem_elementChildren_iff.mp (List.mem_filter.mp hy).1).1

/-- After a whole run, at most the text in the custom style stands in the way of reading the page back. -/
theorem run_nearlyReadable (h : page.NearlyReadable) (s : Settings.Rendering) :
    (run s page).page.NearlyReadable := by
  by_cases hmarked : page.hasAttribute page.root Vocabulary.layoutMarker = true
  · rw [run_of_marked hmarked]
    exact h
  · rw [Bool.not_eq_true] at hmarked
    have hstart : (marked page).NearlyReadable :=
      h.setAttribute_root (by decide) (Markup.isName_of_all (by decide) (by decide))
    have hfinished := (finished_yields h.wellFormed).edits.nearlyReadable hstart
    rw [run_of_unmarked hmarked]
    generalize finished page = result at hfinished
    split
    · exact removeBoilerplate_nearlyReadable hfinished
    · exact hfinished

/-- A page that was read from markup and rendered comes back from its own markup, with nothing but texts
side by side merged, exactly when its stylesheet does not hold the end tag of a style. -/
theorem reread_run_iff {source : String} (h : Page.ofMarkup source = .ok page) (s : Settings.Rendering) :
    (∃ page', Page.ofMarkup (run s page).page.toHtml = .ok page'
        ∧ page'.toDocument = (run s page).page.toDocument.joined)
      ↔ holdsEndTag "style" (run s page).page.customText = false :=
  (run_nearlyReadable (Page.nearlyReadable_of_ofMarkup h) s).reread_iff

/-- An image whose only width goes into the stylesheet. -/
def sizedSource : String :=
  "<amp-img id=\"a\" srcset=\"x\" width=\"1\" height=\"1\" sizes=\"1px\"></amp-img>"

/-- On this page a rule is written and read back with the page. -/
theorem reread_sizedSource : ∃ page, Page.ofMarkup sizedSource = .ok page
    ∧ (run {} page).page.customText = "#a\x7bwidth:1px\x7d"
    ∧ ∃ page', Page.ofMarkup (run {} page).page.toHtml = .ok page'
      ∧ page'.toDocument = (run {} page).page.toDocument.joined := by
  have hrendered : (Page.ofMarkup sizedSource).toOption.any
      (fun page => (run {} page).page.customText == "#a\x7bwidth:1px\x7d") = true := by decide +kernel
  obtain ⟨page, hread, htext⟩ := Page.exists_of_toOption_any hrendered
  rw [beq_iff_eq] at htext
  refine ⟨page, hread, htext, (reread_run_iff hread {}).mpr ?_⟩
  rw [htext]
  decide +kernel

/-- An image whose width closes the stylesheet that it goes into. -/
def brokenSource : String :=
  "<html><head></head><body><amp-img id=\"a\" srcset=\"x\" width=\"1\" height=\"1\" "
    ++ "sizes=\"1px</style><b>\"></amp-img></body></html>"

/-- On this page the text of a rule ends the style, and what is read back is another page. -/
theorem not_reread_brokenSource : ∃ page, Page.ofMarkup brokenSource = .ok page
    ∧ ¬ ∃ page', Page.ofMarkup (run {} page).page.toHtml = .ok page'
      ∧ page'.toDocument = (run {} page).page.toDocument.joined := by
  have hrendered : (Page.ofMarkup brokenSource).toOption.any
      (fun page => holdsEndTag "style" (run {} page).page.customText) = true := by decide +kernel
  obtain ⟨page, hread, hholds⟩ := Page.exists_of_toOption_any hrendered
  have hnearly := Page.nearlyReadable_of_ofMarkup hread
  refine ⟨page, hread, fun hsame => ?_⟩
  rw [(run_nearlyReadable hnearly {}).reread_iff.mp hsame] at hholds
  cases hholds

end Rendering

end AmpTuner
