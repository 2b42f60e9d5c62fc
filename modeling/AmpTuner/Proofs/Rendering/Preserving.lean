import AmpTuner.Proofs.Rendering.Content
import AmpTuner.Proofs.Page.Rereading

/-!
# Rendering loses no content

Each edit of the loop, the marks on the root and the removal of the boilerplate keep the content of the
document. Only one of them moves nodes: where a custom element gives its place to a copy, all that was
below it is below the copy, in the same order and behind nothing but a spacer.

* **`filter_children_applyLayout`** is that statement for the children of the copy.
* **`Edit.content`** has one case for each edit.
* **`content_run`** is the whole pass.
-/

namespace AmpTuner.Rendering

open Markup (Element)
open Vocabulary
open Css (Length Budget)

variable {page page' : Page} {ρ : NodeId → NodeId} {id x : NodeId}

/-! ## Writes that move nothing -/

/-- A change of attributes that rendering owns does not show on the bare element. -/
theorem bare_of_isChange {f : Element → Element} (hf : IsChange f) {el : Element}
    (hcomponent : Markup.isComponent el.tag = true) : bare (f el) = bare el := by
  refine bare_of_component hcomponent (hf.tag el) ?_
  cases hf with
  | identify value => exact without_set (by decide) el value
  | drop hname =>
    refine without_erase ?_ el
    have hall : ∀ name ∈ convertibleNames, name ∈ ownNames := by decide
    exact hall _ hname

/-- Rendering does not show on the bare element. -/
theorem bare_rendered (layout : Layout) (width height : Length) {el : Element}
    (hcomponent : Markup.isComponent el.tag = true) : bare (rendered layout width height el) = bare el := by
  refine bare_of_component hcomponent (tag_rendered layout width height el) ?_
  have hall : ∀ name ∈ renderedNames, name ∈ ownNames := by decide
  exact rendered_of_set layout width height (P := fun el' => without ownNames el' = without ownNames el)
    (fun el' name value hname heq => (without_set (hall name hname) el' value).trans heq) rfl

/-- A child is on the page, and is not the root. -/
theorem not_root_of_mem_children (h : page.WellFormed) {c : NodeId} (hc : c ∈ page.children x) :
    page.Has c ∧ c ≠ page.root := by
  refine ⟨h.linked.has_child hc, ?_⟩
  rintro rfl
  have hparent := (h.linked.mem_children_iff _ _).mp hc
  rw [h.parent?_root] at hparent
  cases hparent

namespace KeepsKinds

variable (h : KeepsKinds page page' ρ)

include h

/-- Filtering by a test that custom elements fail commutes with following the nodes. -/
theorem filter_map {ids : List NodeId} (hids : ∀ c ∈ ids, page.Has c ∧ c ≠ page.root) {p : Element → Bool}
    (hp : ∀ {el}, Markup.isComponent el.tag = true → p el = false) :
    (ids.map ρ).filter (!page'.isElement · p) = (ids.filter (!page.isElement · p)).map ρ := by
  rw [List.filter_map]
  congr 1
  refine List.filter_congr fun c hc => ?_
  rw [Function.comp_apply, h.isElement_eq (hids c hc).1 (hids c hc).2 hp]

/-- Where the children of a node are those it had, none is lost. -/
theorem follows (hpage : page.WellFormed)
    (hchildren : ∀ x, Inner page x → page'.children (ρ x) = (page.children x).map ρ) :
    Follows page page' ρ where
  kinds := h
  children x hx := by
    rw [hchildren x hx, h.filter_map (fun c hc => not_root_of_mem_children hpage hc) isSizer_of_isComponent]

end KeepsKinds

/-- The page keeps its content where only the stylesheet comes to the children of the head. -/
theorem Follows.content (h : Follows page page' ρ) (hpage : page.WellFormed) (hsteady : Steady page page')
    (hbody : page'.body = page.body) (hmap : ρ page.body = page.body)
    (hhead : (page'.children page.head).filter (!page'.isElement · isCustomStyle)
      = ((page.children page.head).filter (!page.isElement · isCustomStyle)).map ρ) :
    contentOfDocument page'.toDocument = contentOfDocument page.toDocument := by
  obtain ⟨el, hel, htag⟩ := Option.map_eq_some_iff.mp hpage.tag?_root
  obtain ⟨headEl, hheadEl, hheadTag⟩ := Option.map_eq_some_iff.mp hpage.tag?_head
  have hstays (q : Page) (ids : List NodeId) : ids.filter (staysInHead q)
      = (ids.filter (!q.isElement · isCustomStyle)).filter (staysInHead q) := by
    rw [List.filter_filter]
    refine List.filter_congr fun c _ => ?_
    rw [staysInHead, isReplaceableNode]
    cases q.isElement c isCustomStyle <;> simp
  refine Preserves.content (ρ := ρ) ?_ hpage hsteady.wellFormed
  exact
    { toFollows := h
      doctype := hsteady.doctype
      root := hsteady.root
      head := hsteady.head
      body := hbody
      rootElement := by rw [hsteady.element? _ _ hel (by rw [htag]; decide), hel]
      headElement := by rw [hsteady.element? _ _ hheadEl (by rw [hheadTag]; decide), hheadEl]
      map_body := hmap
      headChildren := by
        rw [hstays page', hhead, hstays page, List.filter_map]
        congr 1
        refine List.filter_congr fun c hc => ?_
        exact h.staysInHead_eq hpage (List.mem_filter.mp hc).1 }

/-- The budget and the counter are no content. -/
theorem content_withCounters (h : page.WellFormed) (budget : Budget) (n : Nat) :
    contentOfDocument ({ page with budget, nextGenerated := n } : Page).toDocument
      = contentOfDocument page.toDocument := by
  have hkinds : KeepsKinds page { page with budget, nextGenerated := n } fun x => x := fun _ _ _ => rfl
  refine (hkinds.follows h fun x _ => (List.map_id _).symm).content h (steady_withCounters h budget n) rfl rfl ?_
  exact (List.map_id _).symm

/-- A change of a custom element's own attributes is no change of content. -/
theorem content_change (h : page.WellFormed) (hid : page.IsComponent id) {f : Element → Element}
    (hf : IsChange f) :
    contentOfDocument (page.mapElement id f).toDocument = contentOfDocument page.toDocument := by
  have hkinds : KeepsKinds page (page.mapElement id f) fun x => x := by
    intro x _ _
    rw [Page.kind?_mapElement]
    split
    · next hx =>
      obtain rfl : x = id := hx
      obtain ⟨el, hel, hcomponent⟩ := hid
      rw [Page.element?_eq_some_iff.mp hel]
      exact congrArg (some ∘ NodeKind.element) (bare_of_isChange hf hcomponent)
    · rfl
  have hlinks : page.SameLinks (page.mapElement id f) := Page.mapElement_sameLinks f
  refine (hkinds.follows h fun x _ => by rw [hlinks.children, List.map_id']).content h
    ((Edit.change hid hf).steady h) rfl rfl ?_
  rw [hlinks.children, List.map_id']
  refine List.filter_congr fun c hc => ?_
  have ⟨hhas, hroot⟩ := not_root_of_mem_children h hc
  rw [hkinds.isElement_eq hhas hroot isCustomStyle_of_isComponent]

/-! ## Appending to the stylesheet -/

/-- The head has its children, and behind them the stylesheet if that is new. -/
theorem children_head_appendCustomCss (h : page.WellFormed) (css : String) :
    (page.appendCustomCss css).children page.head
      = page.children page.head ++ if page.customStyle? = none then [page.next] else [] := by
  have hfound := h.customStyle?_withCustomStyle
  obtain ⟨el, hel, _, hhead, _⟩ :=
    h.withCustomStyle.of_mem_customStyles (Page.mem_customStyles_of_customStyle? hfound)
  rw [Page.withCustomStyle_sameFrame.head] at hhead
  rw [Page.appendCustomCss_eq, h.withCustomStyle.linked.children_setTextContent _ (Page.has_of_element? hel),
    if_neg hhead.symm]
  cases hstyle : page.customStyle? with
  | none => rw [Page.withCustomStyle_of_none hstyle, h.children_withNewStyle, if_pos rfl, if_pos rfl]
  | some style => rw [Page.withCustomStyle_of_some hstyle, if_neg (by simp), List.append_nil]

/-- Text at the end of the stylesheet is no change of content. -/
theorem content_appendCustomCss (h : page.WellFormed) (css : String) :
    contentOfDocument (page.appendCustomCss css).toDocument = contentOfDocument page.toDocument := by
  have hframe : page.SameFrame (page.appendCustomCss css) := Page.appendCustomCss_sameFrame css
  have hkind : page.SameKinds (page.appendCustomCss css) := Page.appendCustomCss_sameKinds css
  have hkinds : KeepsKinds page (page.appendCustomCss css) fun x => x := fun x hx _ => by rw [hkind.kind? x hx]
  refine (hkinds.follows h fun x hx => ?_).content h (steady_appendCustomCss h css) hframe.body rfl ?_
  · rw [h.children_appendCustomCss css hx.has hx.ne_head hx.ne_style, List.map_id']
  · have hold := hkinds.filter_map
      (fun c (hc : c ∈ page.children page.head) => not_root_of_mem_children h hc) isCustomStyle_of_isComponent
    rw [List.map_id', List.map_id'] at hold
    rw [children_head_appendCustomCss h, List.filter_append, hold, List.map_id']
    split
    -- the new child is the stylesheet
    · next hnone =>
      have hnew : page.next ∈ (page.appendCustomCss css).customStyles := by
        rw [h.customStyles_appendCustomCss, if_pos hnone]
        exact List.mem_singleton.mpr rfl
      rw [List.filter_cons_of_neg (by rw [(List.mem_filter.mp hnew).2]; simp), List.filter_nil, List.append_nil]
    · exact List.append_nil _

/-! ## Applying a layout -/

/-- An element with the slot of a sizer is one. -/
theorem isSizer_make {given : List (String × String)}
    (hslot : (Element.make sizerTag given).attribute? "slot" = some sizerSlot) :
    isSizer (.make sizerTag given) = true := by
  rw [isSizer, hslot, Element.tag_make]
  simp

/-- A spacer at the front is not seen among what is no spacer. -/
theorem filter_children_withSpacer (h : page.WellFormed) {clone : NodeId} (hclone : page.Has clone)
    (layout : Layout) (width height : Length) (heightsConverted : Bool) :
    ((withSpacer page clone layout width height heightsConverted).children clone).filter
        (!(withSpacer page clone layout width height heightsConverted).isElement · isSizer)
      = (page.children clone).filter (!page.isElement · isSizer) := by
  rcases withSpacer_cases h clone layout width height heightsConverted with heq | ⟨sized, hsized, heq⟩
  · rw [heq]
  · have hkind (x : NodeId) : (sized.prependChild clone page.next).isElement x isSizer = sized.isElement x isSizer :=
      Page.isElement_congr (Page.element?_congr Page.kind?_attach) _
    obtain ⟨given, hsizer, hslot⟩ := hsized.sizer
    have hself : sized.isElement page.next isSizer = true := Page.isElement_iff.mpr ⟨_, hsizer, isSizer_make hslot⟩
    rw [heq, hsized.children_prependChild h.linked hclone, List.filter_cons_of_neg (by rw [hkind, hself]; simp)]
    refine List.filter_congr fun c hc => ?_
    rw [hkind, Page.isElement_congr (Page.element?_congr (hsized.sameKinds.kind? c (h.linked.has_child hc)))]

/-- Taking the place of the element changes nothing below the copy. -/
theorem Waiting.children_replace_next {el : Element} (h : Waiting page id el page') (hpage : page.WellFormed)
    (hid : page.Has id) : (page'.replace id page.next).children page.next = page'.children page.next := by
  cases hp : page.parent? id with
  | none =>
    have hself : page'.parent? id = none := by rw [h.parent? id hid, hp]; rfl
    rw [Page.replace_of_parent?_eq_none hself]
  | some p =>
    have hpid : p ≠ id := fun heq => hpage.linked.acyclic id (.of_parent? (heq ▸ hp))
    have hself : page'.parent? id = some p := by
      rw [h.parent? id hid, hp, Option.map_some, heir_of_ne hpid]
    have hnext : page.next ≠ p := (Page.ne_next_of_has (hpage.linked.has_parent hp)).symm
    have hother {c : NodeId} (hc : c ∈ page'.children page.next) : c ≠ page.next ∧ c ≠ id := by
      have hparent := (h.wellFormed.linked.mem_children_iff _ _).mp hc
      constructor
      · rintro rfl
        exact h.wellFormed.linked.acyclic _ (.of_parent? hparent)
      · rintro rfl
        exact hnext (Option.some.inj (hparent.symm.trans hself))
    rw [h.wellFormed.linked.children_replace hself (Page.has_of_element? h.element?_next)
      (Page.ne_next_of_has hid).symm, List.filter_eq_self.mpr fun c hc => bne_iff_ne.mpr (hother hc).1]
    exact (List.map_congr_left fun c hc => if_neg (hother hc).2).trans (List.map_id _)

/-- Below the copy is what was below the element, but for the spacer. -/
theorem filter_children_applyLayout (h : page.WellFormed) {el : Element} (hid : page.element? id = some el)
    (hcomponent : Markup.isComponent el.tag = true) (layout : Layout) (width height : Length)
    (heightsConverted : Bool) :
    ((applyLayout page id layout width height heightsConverted).children page.next).filter
        (!(applyLayout page id layout width height heightsConverted).isElement · isSizer)
      = (page.children id).filter (!page.isElement · isSizer) := by
  have hhas : page.Has id := Page.has_of_element? hid
  have hmoved := moved_rendered h hid hcomponent layout width height
  have hspacer := filter_children_withSpacer hmoved.wellFormed (Page.has_of_element? hmoved.element?_next)
    layout width height heightsConverted
  have hwaiting := hmoved.waiting_withSpacer h layout width height heightsConverted
  rw [applyLayout_eq, hwaiting.children_replace_next h hhas]
  have hkind (q : Page) (x : NodeId) :
      (q.replace id page.next).isElement x isSizer = q.isElement x isSizer :=
    Page.isElement_congr (Page.element?_congr Page.kind?_replace) _
  simp only [hkind]
  rw [hspacer, hmoved.children, if_neg (Page.ne_next_of_has hhas).symm, if_pos rfl]
  refine List.filter_congr fun c hc => ?_
  rw [Page.isElement_congr (Page.element?_congr (hmoved.sameKinds.kind? c (h.linked.has_child hc)))]

/-- Replacing an element by its copy keeps all elements, bare as they are compared. -/
theorem Replaced.keepsKinds {el el' : Element} (h : Replaced page id el' page') (hid : page.element? id = some el)
    (hbare : bare el' = bare el) : KeepsKinds page page' (heir page id) := by
  intro x hx _
  by_cases hxid : x = id
  · rw [hxid, heir_self, Page.element?_eq_some_iff.mp h.element?_next, Page.element?_eq_some_iff.mp hid]
    exact congrArg (some ∘ NodeKind.element) hbare
  · rw [heir_of_ne hxid, h.sameKinds.kind? x hx]

/-- Applying a layout is no change of content. -/
theorem content_applyLayout (h : page.WellFormed) {el : Element} (hid : page.element? id = some el)
    (hcomponent : Markup.isComponent el.tag = true) (layout : Layout) (width height : Length)
    (heightsConverted : Bool) :
    contentOfDocument (applyLayout page id layout width height heightsConverted).toDocument
      = contentOfDocument page.toDocument := by
  have hsteady := (Edit.apply hid hcomponent layout width height heightsConverted).steady h
  have hreplaced := replaced_applyLayout h hid hcomponent layout width height heightsConverted
  have hspacer := filter_children_applyLayout h hid hcomponent layout width height heightsConverted
  generalize applyLayout page id layout width height heightsConverted = page' at hsteady hreplaced hspacer ⊢
  have hfixed : ¬ page.IsFixed id := h.not_isFixed_of_isComponent ⟨el, hid, hcomponent⟩
  have hkinds := hreplaced.keepsKinds hid (bare_rendered layout width height hcomponent)
  have hfollows : Follows page page' (heir page id) := by
    refine ⟨hkinds, fun x hx => ?_⟩
    by_cases hxid : x = id
    -- the copy has the children themselves, as none of them is the element
    · have hself : ∀ c ∈ page.children id, heir page id c = c := by
        intro c hc
        refine heir_of_ne ?_
        rintro rfl
        exact h.linked.acyclic c (.of_parent? ((h.linked.mem_children_iff _ _).mp hc))
      rw [hxid, heir_self, hspacer]
      refine ((List.map_congr_left fun c hc => ?_).trans (List.map_id _)).symm
      exact hself c (List.mem_filter.mp hc).1
    · rw [heir_of_ne hxid, hreplaced.children x hx.has hxid,
        hkinds.filter_map (fun c hc => not_root_of_mem_children h hc) isSizer_of_isComponent]
  refine hfollows.content h hsteady hreplaced.frame.body ?_ ?_
  · exact heir_of_ne fun heq => hfixed (.inr (.inr heq.symm))
  · have hhead : page.head ≠ id := fun heq => hfixed (.inr (.inl heq.symm))
    rw [hreplaced.children _ h.has_head hhead,
      hkinds.filter_map (fun c hc => not_root_of_mem_children h hc) isCustomStyle_of_isComponent]

/-! ## The pass -/

/-- No edit changes the content, by its four cases. -/
theorem Edit.content (h : page.WellFormed) (he : Edit page page') :
    contentOfDocument page'.toDocument = contentOfDocument page.toDocument := by
  cases he with
  | count n => exact content_withCounters h page.budget n
  | change hid hf => exact content_change h hid hf
  | @append css budget hroom =>
    have hcounted := h.withCounters budget page.nextGenerated
    exact (content_appendCustomCss hcounted css).trans (content_withCounters h budget page.nextGenerated)
  | apply hid hcomponent layout width height heightsConverted =>
    exact content_applyLayout h hid hcomponent layout width height heightsConverted

/-- Induction on the edits. -/
theorem Edits.content (h : page.WellFormed) (he : Edits page page') :
    contentOfDocument page'.toDocument = contentOfDocument page.toDocument := by
  induction he with
  | refl => rfl
  | tail hfirst hlast ih => exact (hlast.content (Edits.steady h hfirst).wellFormed).trans ih

/-- The marks of the root are none of its content. -/
theorem content_markRoot (h : page.WellFormed) {name : String} (hname : name ∈ [layoutMarker, noBoilerplateMarker]) :
    contentOfDocument (page.setAttribute page.root name "").toDocument = contentOfDocument page.toDocument := by
  have hlinks : page.SameLinks (page.setAttribute page.root name "") := Page.mapElement_sameLinks _
  have hkinds : KeepsKinds page (page.setAttribute page.root name "") fun x => x := by
    intro x _ hroot
    rw [Page.setAttribute, Page.kind?_mapElement_of_ne _ hroot]
  have hfollows := hkinds.follows h fun x _ => by rw [hlinks.children, List.map_id']
  have hpreserves : Preserves page (page.setAttribute page.root name "") fun x => x :=
    { toFollows := hfollows
      doctype := rfl
      root := rfl
      head := rfl
      body := rfl
      rootElement := by
        rw [Page.setAttribute, Page.element?_mapElement, if_pos rfl, Option.map_map]
        congr 1
        exact funext fun el => without_set hname el ""
      headElement := by rw [Page.setAttribute, Page.element?_mapElement, if_neg h.head_ne_root]
      map_body := rfl
      headChildren := by
        rw [hlinks.children, List.map_id']
        exact List.filter_congr fun c hc => hfollows.staysInHead_eq h hc }
  exact hpreserves.content h h.setAttribute

/-- What stays in the head is not among the boilerplate that goes. -/
theorem not_mem_boilerplateOf (hstays : staysInHead page x = true) : x ∉ boilerplateOf page := by
  intro hx
  have hboilerplate := (List.mem_filter.mp hx).2
  rw [staysInHead, isReplaceableNode, Bool.or_assoc, hboilerplate, Bool.or_true] at hstays
  simp at hstays

/-- Taking the boilerplate out is no change of content. -/
theorem content_detachBoilerplate (h : page.WellFormed) (h' : (page.detachAll (boilerplateOf page)).WellFormed) :
    contentOfDocument (page.detachAll (boilerplateOf page)).toDocument = contentOfDocument page.toDocument := by
  have hframe : page.SameFrame (page.detachAll (boilerplateOf page)) := Page.detachAll_sameFrame _
  have hkind (x : NodeId) : (page.detachAll (boilerplateOf page)).kind? x = page.kind? x := Page.kind?_detachAll _
  have hkinds : KeepsKinds page (page.detachAll (boilerplateOf page)) fun x => x := fun x _ _ => by rw [hkind]
  have hfollows : Follows page (page.detachAll (boilerplateOf page)) fun x => x := by
    refine hkinds.follows h fun x hx => ?_
    -- only the head has lost children
    rw [h.linked.children_detachAll, List.map_id', List.filter_eq_self]
    intro c hc
    rw [decide_eq_true_eq]
    intro hmem
    have hhead := (h.linked.mem_children_iff _ _).mp (List.mem_of_mem_filter (List.mem_of_mem_filter hmem))
    exact hx.ne_head (Option.some.inj (((h.linked.mem_children_iff _ _).mp hc).symm.trans hhead))
  have hpreserves : Preserves page (page.detachAll (boilerplateOf page)) fun x => x :=
    { toFollows := hfollows
      doctype := hframe.doctype
      root := hframe.root
      head := hframe.head
      body := hframe.body
      rootElement := by rw [Page.element?_congr (hkind _)]
      headElement := Page.element?_congr (hkind _)
      map_body := rfl
      headChildren := by
        rw [h.linked.children_detachAll, List.map_id', List.filter_filter]
        refine List.filter_congr fun c hc => ?_
        rw [hfollows.staysInHead_eq h hc]
        cases hstays : staysInHead page c with
        | false => rfl
        | true => simpa using not_mem_boilerplateOf hstays }
  exact hpreserves.content h h'

/-- Removing the boilerplate, with its mark, is no change of content. -/
theorem content_removeBoilerplate (h : page.WellFormed) :
    contentOfDocument (removeBoilerplate page).toDocument = contentOfDocument page.toDocument := by
  have hset : (page.setAttribute page.root noBoilerplateMarker "").WellFormed := h.setAttribute
  have hremoved := removeBoilerplate_wellFormed h
  rw [removeBoilerplate_eq] at hremoved ⊢
  have hmark : contentOfDocument (page.setAttribute page.root noBoilerplateMarker "").toDocument
      = contentOfDocument page.toDocument := content_markRoot h (by simp)
  exact (content_detachBoilerplate hset hremoved).trans hmark

/-- A run of the pass leaves the content of a well-formed page as it was. -/
theorem content_run (h : page.WellFormed) (s : Settings.Rendering) :
    contentOfDocument (run s page).page.toDocument = contentOfDocument page.toDocument := by
  cases hlayout : page.hasAttribute page.root layoutMarker with
  | true => rw [run_of_marked hlayout]
  | false =>
    have hyields := finished_yields h
    have hmarked := marked_wellFormed h
    have hmark : contentOfDocument (marked page).toDocument = contentOfDocument page.toDocument :=
      content_markRoot h List.mem_cons_self
    have hedits : contentOfDocument (finished page).1.page.toDocument
        = contentOfDocument (marked page).toDocument := Edits.content hmarked hyields.edits
    have hfinished := hedits.trans hmark
    have hremoved := content_removeBoilerplate (hyields.steady hmarked).wellFormed
    rw [run_of_unmarked hlayout]
    split
    · rw [Work.edit, hremoved, hfinished]
    · exact hfinished

/-- Whatever document is read, rendering loses nothing of it, and puts nothing in another place. -/
theorem content_run_of_ofMarkup {source : String} (h : Page.ofMarkup source = .ok page)
    (s : Settings.Rendering) :
    contentOfDocument (run s page).page.toDocument = contentOfDocument page.toDocument :=
  content_run (Page.wellFormed_of_ofMarkup h) s

/-- A custom element behind a text in another one, which gets a spacer in front of both. -/
def nestedSource : String := "<amp-x width=1 height=1 sizes=1>t<amp-y></amp-y></amp-x>"

/-- On this page the run makes three nodes and leaves the content. -/
theorem content_run_nestedSource : ∃ page, Page.ofMarkup nestedSource = .ok page
    ∧ (run {} page).page.nodes.size = page.nodes.size + 3
    ∧ contentOfDocument (run {} page).page.toDocument = contentOfDocument page.toDocument := by
  -- two copies and the spacer
  have hrendered : (Page.ofMarkup nestedSource).toOption.any
      (fun page => (run {} page).page.nodes.size == page.nodes.size + 3) = true := by decide +kernel
  obtain ⟨page, hread, hnodes⟩ := Page.exists_of_toOption_any hrendered
  rw [beq_iff_eq] at hnodes
  exact ⟨page, hread, hnodes, content_run_of_ofMarkup hread {}⟩

end AmpTuner.Rendering
