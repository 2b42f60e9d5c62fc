import AmpTuner.Proofs.Rendering.Edits
import AmpTuner.Proofs.Page.Tidy
import AmpTuner.Proofs.Page.Loading

/-!
# When the boilerplate goes

Rendering marks the page and takes the boilerplate out exactly when nothing was noted that keeps it, and
then every custom element outside templates has been rendered.

* **`Covered`** is the invariant of the loop: a custom element outside templates carries the marker or is
  still to come.
* **`Traced`** is what an edit has to say of its nodes for that to stay so (`Traced.covered`), although
  elements give their places to copies while the loop is going on.
* **`run_boilerplate`** puts both halves together.
-/

namespace AmpTuner.Rendering

open Markup (Element)
open Vocabulary (layoutMarker noBoilerplateMarker isBoilerplateStyle sizerTag)
open Css (Budget)

variable {page page' : Page} {id x y : NodeId} {ρ : NodeId → NodeId} {todo todo' : List NodeId}

/-- The node carries the mark of what was rendered. -/
def IsMarked (page : Page) (id : NodeId) : Prop := page.hasAttribute id layoutMarker = true

/-! ## Where nodes go -/

/-- `ρ` tells what became of the nodes. Every custom element on the page is one of them, and those that
are not the same nodes any more are marked. -/
structure Traced (page page' : Page) (ρ : NodeId → NodeId) : Prop extends page.Image page' ρ where
  tag? : ∀ x, page.Has x → page'.tag? (ρ x) = page.tag? x
  covers : ∀ y, page'.Attached y → page'.IsComponent y → ∃ x, page.Has x ∧ ρ x = y
  marked : ∀ x, IsMarked page x → IsMarked page' (ρ x)
  copied : ∀ x, page.Has x → ρ x ≠ x → IsMarked page' (ρ x)

theorem IsMarked.has (h : IsMarked page x) : page.Has x := by
  obtain ⟨el, hel, _⟩ := Page.isElement_iff.mp h
  exact Page.has_of_element? hel

theorem IsMarked.congr (h : IsMarked page x) (hkind : page'.kind? x = page.kind? x) : IsMarked page' x := by
  rw [IsMarked, Page.hasAttribute, Page.isElement_congr (Page.element?_congr hkind)]
  exact h

/-- Changes of one element that keep its tag and its marker. -/
theorem traced_mapElement {f : Element → Element} (htag : ∀ el, (f el).tag = el.tag)
    (hmarker : ∀ el, el.hasAttribute layoutMarker = true → (f el).hasAttribute layoutMarker = true) :
    Traced page (page.mapElement id f) fun x => x where
  toImage := .of_sameLinks rfl (Page.mapElement_sameLinks f)
  tag? x _ := Page.tag?_mapElement htag id x
  covers y _ hy := by
    obtain ⟨el, hel, _⟩ := hy
    exact ⟨y, (Page.has_mapElement f).mp (Page.has_of_element? hel), rfl⟩
  marked x hx := by
    obtain ⟨el, hel, hmarked⟩ := Page.isElement_iff.mp hx
    rw [IsMarked, Page.hasAttribute, Page.isElement, Page.element?_mapElement, hel]
    split
    · exact hmarker el hmarked
    · exact hmarked
  copied x _ hne := absurd rfl hne

/-- Counters move nothing. -/
theorem traced_withCounters (h : page.WellFormed) (budget : Budget) (n : Nat) :
    Traced page { page with budget, nextGenerated := n } fun x => x where
  toImage := .of_sameLinks rfl ⟨fun _ => rfl, fun _ => rfl⟩
  tag? _ _ := rfl
  covers y hy _ := ⟨y, (h.withCounters budget n).has_of_attached hy, rfl⟩
  marked _ hx := hx
  copied _ _ hne := absurd rfl hne

/-- The stylesheet and its text are no custom elements. -/
theorem traced_appendCustomCss (h : page.WellFormed) (css : String) :
    Traced page (page.appendCustomCss css) fun x => x where
  toImage := .of_parent? (Page.appendCustomCss_sameFrame css).root fun x hx q hq =>
    ((h.parent?_appendCustomCss css hx).mp hq).1
  tag? x hx := Page.tag?_congr ((Page.appendCustomCss_sameKinds css).kind? x hx)
  -- a new node would be the stylesheet or its text
  covers y _ hy := by
    by_contra hnone
    have hnew : ¬ page.Has y := fun hhas => hnone ⟨y, hhas, rfl⟩
    obtain ⟨el, hel, hcomponent⟩ := hy
    rcases h.of_not_has_appendCustomCss css (Page.has_of_element? hel) hnew with ⟨_, hstyle⟩ | htext
    · obtain rfl := Option.some.inj (hel.symm.trans hstyle)
      exact absurd hcomponent (by decide)
    · rw [Page.element?, (h.kind?_of_mem_textNodes css htext).2] at hel
      cases hel
  marked x hx := hx.congr ((Page.appendCustomCss_sameKinds css).kind? x hx.has)
  copied _ _ hne := absurd rfl hne

/-- What is put in for spacing is no custom element. -/
theorem not_isComponent_of_isSpacer (h : IsSpacer page x) : ¬ page.IsComponent x := by
  rintro ⟨el, hel, hcomponent⟩
  obtain ⟨el', hel', _, htag⟩ := h
  obtain rfl := Option.some.inj (hel.symm.trans hel')
  rcases htag with htag | ⟨htag, _⟩
  · rw [htag] at hcomponent
    exact absurd hcomponent (by decide)
  · rw [htag] at hcomponent
    exact absurd hcomponent (by decide)

/-- Where an element is replaced by its heir, the heir is marked. -/
theorem Replaced.traced {el elOld : Element} (h : Replaced page id el page') (hpage : page.WellFormed)
    (hid : page.element? id = some elOld) (hcomponent : Markup.isComponent elOld.tag = true)
    (htag : el.tag = elOld.tag) (hmarked : el.hasAttribute layoutMarker = true) :
    Traced page page' (heir page id) := by
  have hroot : id ≠ page.root :=
    fun heq => hpage.not_isFixed_of_isComponent ⟨elOld, hid, hcomponent⟩ (.inl heq)
  have hnext : IsMarked page' page.next := Page.isElement_iff.mpr ⟨el, h.element?_next, hmarked⟩
  exact
    { toImage := h.image hpage
      tag? := by
        intro x hx
        by_cases hxid : x = id
        · rw [hxid, heir_self, Page.tag?, h.element?_next, Page.tag?, hid, Option.map_some, Option.map_some, htag]
        · rw [heir_of_ne hxid, Page.tag?_congr (h.sameKinds.kind? x hx)]
      -- the element is off the page, the copy comes from it, and a spacer is no custom element
      covers := by
        intro y hy hyComponent
        by_cases hhas : page.Has y
        · refine ⟨y, hhas, heir_of_ne fun heq => ?_⟩
          exact h.not_attached hroot (heq ▸ hy)
        · by_cases hyn : y = page.next
          · exact ⟨id, Page.has_of_element? hid, by rw [heir_self, hyn]⟩
          · exact absurd hyComponent
              (not_isComponent_of_isSpacer (h.added y (h.wellFormed.has_of_attached hy) hhas hyn))
      marked := by
        intro x hx
        by_cases hxid : x = id
        · rw [hxid, heir_self]
          exact hnext
        · rw [heir_of_ne hxid]
          exact hx.congr (h.sameKinds.kind? x hx.has)
      copied := by
        intro x _ hne
        by_cases hxid : x = id
        · rw [hxid, heir_self]
          exact hnext
        · exact absurd (heir_of_ne hxid) hne }

/-! ## The invariant of the loop -/

/-- A custom element outside templates carries the marker or is still to come. -/
def Covered (page : Page) (todo : List NodeId) : Prop :=
  ∀ x, page.Attached x → page.IsComponent x → page.hasAncestor x "template" = false →
    IsMarked page x ∨ x ∈ todo

/-- What has become of a node is a custom element only if the node was. -/
theorem Traced.isComponent (h : Traced page page' ρ) (hx : page.Has x) (hcomponent : page'.IsComponent (ρ x)) :
    page.IsComponent x := by
  obtain ⟨el, hel, hcomponent⟩ := hcomponent
  have htag := h.tag? x hx
  rw [Page.tag?, hel] at htag
  obtain ⟨el', hel', heq⟩ := Option.map_eq_some_iff.mp htag.symm
  exact ⟨el', hel', heq ▸ hcomponent⟩

/-- What is covered stays so, if what is still to come stays on the list. -/
theorem Traced.covered (h : Traced page page' ρ) (hpage : page.WellFormed) (hpage' : page'.WellFormed)
    (hcovered : Covered page todo) (htodo : ∀ x ∈ todo, page.Has x → ρ x = x → x ∈ todo') :
    Covered page' todo' := by
  intro y hy hcomponent hfree
  obtain ⟨x, hx, rfl⟩ := h.covers y hy hcomponent
  have hxComponent : page.IsComponent x := h.isComponent hx hcomponent
  -- a template above the node would still be above what became of it
  have hxFree : page.hasAncestor x "template" = false := by
    rw [← Bool.not_eq_true, hpage.linked.hasAncestor_iff]
    rintro ⟨t, ht, htemplate⟩
    rw [← Bool.not_eq_true, hpage'.linked.hasAncestor_iff] at hfree
    refine hfree ⟨ρ t, h.toImage.above hpage hpage' hy ht, ?_⟩
    rw [Page.isTag, h.tag? t (hpage.linked.has_of_above ht)]
    exact htemplate
  rcases hcovered x (h.toImage.attached hpage.linked hx hy) hxComponent hxFree with hmarked | hmem
  · exact .inl (h.marked x hmarked)
  -- what was still to come is so still, unless it became a marked copy
  · by_cases hρ : ρ x = x
    · exact .inr (by rw [hρ]; exact htodo x hmem hx hρ)
    · exact .inl (h.copied x hx hρ)

/-- An edit leaves covered what was. -/
theorem Edit.covered (h : page.WellFormed) (he : Edit page page') (hcovered : Covered page todo) :
    Covered page' todo := by
  have hpage' := (he.steady h).wellFormed
  cases he with
  | count n =>
    exact (traced_withCounters h page.budget n).covered h hpage' hcovered fun x hx _ _ => hx
  | change hid hf =>
    exact (traced_mapElement hf.tag fun el hel => by rw [hf.hasAttribute_layoutMarker, hel]).covered h
      hpage' hcovered fun x hx _ _ => hx
  | @append css budget hroom =>
    have hcounted := h.withCounters budget page.nextGenerated
    have hcovered' : Covered { page with budget } todo :=
      (traced_withCounters h budget page.nextGenerated).covered h hcounted hcovered fun x hx _ _ => hx
    exact (traced_appendCustomCss hcounted css).covered hcounted hpage' hcovered' fun x hx _ _ => hx
  | @apply id el hid hcomponent layout width height heightsConverted =>
    exact ((replaced_applyLayout h hid hcomponent layout width height heightsConverted).traced h hid hcomponent
      (tag_rendered _ _ _ el) (hasAttribute_rendered _ _ _ el)).covered h hpage' hcovered fun x hx _ _ => hx

/-- Any number of edits leave covered what was. By induction on them. -/
theorem Edits.covered (h : page.WellFormed) (he : Edits page page') (hcovered : Covered page todo) :
    Covered page' todo := by
  induction he with
  | refl => exact hcovered
  | tail hfirst hlast ih => exact hlast.covered (Edits.steady h hfirst).wellFormed ih

/-- A turn that lets the boilerplate go has dealt with its element: it is off the page, carries the
marker, or stands in a template. -/
theorem renderNext_covered {w : Work} (h : w.page.WellFormed) (hid : w.page.IsComponent id) {free : Bool}
    (hfree : (renderNext (w, free) id).2 = true) (hcovered : Covered w.page (id :: todo)) :
    Covered (renderNext (w, free) id).1.page todo := by
  -- what leaves the page alone need only show that the element is not wanted any more
  have skip (hself : w.page.hasAncestor id "template" = false → IsMarked w.page id) : Covered w.page todo := by
    intro x hx hcomponent hxfree
    rcases hcovered x hx hcomponent hxfree with hmarked | hmem
    · exact .inl hmarked
    · rcases List.mem_cons.mp hmem with rfl | hmem
      · exact .inl (hself hxfree)
      · exact .inr hmem
  have ⟨el, hel, _⟩ := hid
  obtain ⟨_, hpage⟩ := checkExperiment_yields w id el
  simp only [renderNext, hel] at hfree ⊢
  by_cases htemplate : w.page.hasAncestor id "template" = true
  · rw [if_pos htemplate]
    refine skip fun hnot => ?_
    rw [htemplate] at hnot
    cases hnot
  · rw [if_neg htemplate] at hfree ⊢
    by_cases hmarked : el.hasAttribute layoutMarker = true
    · rw [if_pos hmarked, hpage]
      exact skip fun _ => Page.isElement_iff.mpr ⟨el, hel, hmarked⟩
    · rw [if_neg hmarked] at hfree ⊢
      rw [Bool.and_eq_true] at hfree
      have hchecked : (checkExperiment w id el).1.page.WellFormed := by rw [hpage]; exact h
      have hcomponent : (checkExperiment w id el).1.page.IsComponent id := by rw [hpage]; exact hid
      obtain ⟨before, p, heightsConverted, hedits, hresult⟩ :=
        (renderElement_yields hchecked hcomponent el).2 hfree.2
      rw [hpage] at hedits
      have hsteady := hedits.steady h
      obtain ⟨el', hel', hcomponent⟩ := hsteady.isComponent hid
      have hreplaced := replaced_applyLayout hsteady.wellFormed hel' hcomponent p.layout p.width p.height
        heightsConverted
      have htraced := hreplaced.traced hsteady.wellFormed hel' hcomponent (tag_rendered _ _ _ el')
        (hasAttribute_rendered _ _ _ el')
      rw [hresult]
      -- the element itself is gone: its heir is the copy, which is a new node
      refine htraced.covered hsteady.wellFormed hreplaced.wellFormed (hedits.covered h hcovered)
        fun x hx hhas hsame => ?_
      rcases List.mem_cons.mp hx with rfl | hx
      · rw [heir_self] at hsame
        exact absurd (hsame ▸ hhas) Page.not_has_next
      · exact hx

/-- The loop covers what is on its list, unless something vetoes. By induction on the list. -/
theorem foldl_renderNext_covered {ids : List NodeId} {w : Work} (h : w.page.WellFormed)
    (hids : ∀ id ∈ ids, w.page.IsComponent id) {free : Bool}
    (hfree : (ids.foldl renderNext (w, free)).2 = true) (hcovered : Covered w.page ids) :
    Covered (ids.foldl renderNext (w, free)).1.page [] := by
  induction ids generalizing w free with
  | nil => exact hcovered
  | cons id ids ih =>
    obtain ⟨hid, hids⟩ := List.forall_mem_cons.mp hids
    obtain ⟨_, hfirst, _⟩ := renderNext_yields h hid free
    have hsteady := hfirst.steady h
    have hids' : ∀ y ∈ ids, (renderNext (w, free) id).1.page.IsComponent y :=
      fun y hy => hsteady.isComponent (hids y hy)
    obtain ⟨done, _, hall⟩ := foldl_renderNext_yields hsteady.wellFormed hids' (renderNext (w, free) id).2
    rw [List.foldl_cons] at hfree ⊢
    have hfirstFree : (renderNext (w, free) id).2 = true := by
      rw [hall, Bool.and_eq_true] at hfree
      exact hfree.1
    exact ih hsteady.wellFormed hids' hfree (renderNext_covered h hid hfirstFree hcovered)

/-- At the start everything is still to come. -/
theorem covered_components (h : page.WellFormed) : Covered page page.components := by
  intro x hx hcomponent _
  refine .inr ((Page.mem_components_iff h.linked).mpr ⟨hx.resolve_left ?_, hcomponent⟩)
  exact fun heq => h.not_isFixed_of_isComponent hcomponent (.inl heq)

/-- In the end all custom elements are covered, unless something vetoes. -/
theorem finished_covered (h : page.WellFormed) (hfree : (finished page).2 = true) :
    Covered (finished page).1.page [] := by
  have hmarked := marked_wellFormed h
  rw [finished, Bool.and_eq_true] at hfree
  rw [finished, (noteDelaying_yields _).2]
  exact foldl_renderNext_covered hmarked
    (fun id hid => isComponent_of_mem_components hmarked.linked hid) hfree.1 (covered_components hmarked)

/-! ## The removal -/

/-- The boilerplate of the head. -/
def boilerplateOf (page : Page) : List NodeId :=
  (page.elementChildren page.head).filter fun id =>
    page.isElement id isBoilerplateStyle || Boilerplate.isNoscript page id

theorem removeBoilerplate_eq : removeBoilerplate page
    = (page.setAttribute page.root noBoilerplateMarker "").detachAll
        (boilerplateOf (page.setAttribute page.root noBoilerplateMarker "")) :=
  rfl

/-- Taking the boilerplate out keeps the page well formed. -/
theorem removeBoilerplate_wellFormed (h : page.WellFormed) : (removeBoilerplate page).WellFormed := by
  have hset : (page.setAttribute page.root noBoilerplateMarker "").WellFormed := h.setAttribute
  rw [removeBoilerplate_eq]
  exact hset.detachAll_head fun y hy =>
    .of_parent? (hset.linked.mem_elementChildren_iff.mp (List.mem_of_mem_filter hy)).1

/-- The root bears the marker. -/
theorem hasAttribute_root_removeBoilerplate (h : page.WellFormed) :
    (removeBoilerplate page).hasAttribute (removeBoilerplate page).root noBoilerplateMarker = true := by
  have hroot : (removeBoilerplate page).root = page.root := (Page.detachAll_sameFrame _).root
  obtain ⟨el, hel, _⟩ := Option.map_eq_some_iff.mp h.tag?_root
  rw [hroot, removeBoilerplate_eq]
  refine Page.isElement_iff.mpr ⟨el.set noBoilerplateMarker "", ?_, Element.hasAttribute_set_self⟩
  rw [Page.element?_congr (Page.kind?_detachAll _), Page.setAttribute, Page.element?_mapElement, if_pos rfl,
    hel]
  rfl

/-- Taking children away makes no noscript a boilerplate. -/
theorem isNoscript_of_detachAll {ids : List NodeId} (h : page.Linked)
    (hx : Boilerplate.isNoscript (page.detachAll ids) x = true) : Boilerplate.isNoscript page x = true := by
  have hel (y : NodeId) : (page.detachAll ids).element? y = page.element? y :=
    Page.element?_congr (Page.kind?_detachAll ids)
  rw [Boilerplate.isNoscript, Bool.and_eq_true, List.any_eq_true] at hx ⊢
  obtain ⟨htag, c, hc, hstyle⟩ := hx
  rw [Page.isElement_congr (hel c)] at hstyle
  refine ⟨by rwa [Page.isTag, Page.tag?, hel, ← Page.tag?] at htag, c, ?_, hstyle⟩
  -- a child that is left was a child before
  obtain ⟨hchild, hsome⟩ := List.mem_filter.mp hc
  rw [h.children_detachAll] at hchild
  exact List.mem_filter.mpr ⟨(List.mem_filter.mp hchild).1, by rwa [hel] at hsome⟩

/-- No boilerplate is left in the head. -/
theorem no_boilerplate_removeBoilerplate (h : page.WellFormed)
    (hx : x ∈ (removeBoilerplate page).children (removeBoilerplate page).head) :
    (removeBoilerplate page).isElement x isBoilerplateStyle = false
      ∧ Boilerplate.isNoscript (removeBoilerplate page) x = false := by
  have hset : (page.setAttribute page.root noBoilerplateMarker "").WellFormed := h.setAttribute
  have hhead : (removeBoilerplate page).head = (page.setAttribute page.root noBoilerplateMarker "").head :=
    (Page.detachAll_sameFrame _).head
  rw [hhead] at hx
  rw [removeBoilerplate_eq] at hx ⊢
  generalize page.setAttribute page.root noBoilerplateMarker "" = marked at hset hx ⊢
  rw [hset.linked.children_detachAll, List.mem_filter, decide_eq_true_eq] at hx
  obtain ⟨hchild, hkept⟩ := hx
  -- an element among the children that stayed is none of those that were to go
  have hnot : ∀ el, marked.element? x = some el →
      marked.isElement x isBoilerplateStyle = false ∧ Boilerplate.isNoscript marked x = false := by
    intro el hel
    have hmem : x ∈ marked.elementChildren marked.head := List.mem_filter.mpr ⟨hchild, by rw [hel]; rfl⟩
    rw [boilerplateOf, List.mem_filter, not_and, Bool.not_eq_true, Bool.or_eq_false_iff] at hkept
    exact hkept hmem
  have hel : (marked.detachAll (boilerplateOf marked)).element? x = marked.element? x :=
    Page.element?_congr (Page.kind?_detachAll _)
  constructor
  · rw [Page.isElement_congr hel, ← Bool.not_eq_true]
    intro hstyle
    obtain ⟨el, hel, _⟩ := Page.isElement_iff.mp hstyle
    rw [(hnot el hel).1] at hstyle
    cases hstyle
  · rw [← Bool.not_eq_true]
    intro hnoscript
    have hnoscript' := isNoscript_of_detachAll hset.linked hnoscript
    have htag := hnoscript'
    rw [Boilerplate.isNoscript, Bool.and_eq_true] at htag
    obtain ⟨el, hel, _⟩ := Page.isTag_iff.mp htag.1
    rw [(hnot el hel).2] at hnoscript'
    cases hnoscript'

/-- Detaching makes no custom element. -/
theorem traced_detachAll (ids : List NodeId) :
    Traced page (page.detachAll ids) fun x => x where
  toImage := .of_parent? (Page.detachAll_sameFrame ids).root fun _ _ _ hq => Page.parent?_of_detachAll hq
  tag? x _ := Page.tag?_congr (Page.kind?_detachAll ids)
  covers y _ hy := by
    obtain ⟨el, hel, _⟩ := hy
    exact ⟨y, (Page.has_detachAll ids).mp (Page.has_of_element? hel), rfl⟩
  marked _ hx := hx.congr (Page.kind?_detachAll ids)
  copied _ _ hne := absurd rfl hne

/-- Taking the boilerplate out leaves covered what was. -/
theorem covered_removeBoilerplate (h : page.WellFormed) (hcovered : Covered page []) :
    Covered (removeBoilerplate page) [] := by
  have hset : (page.setAttribute page.root noBoilerplateMarker "").WellFormed := h.setAttribute
  have hmarker : ∀ el : Element, el.hasAttribute layoutMarker = true →
      (el.set noBoilerplateMarker "").hasAttribute layoutMarker = true := by
    intro el hel
    rw [Element.hasAttribute_eq_isSome, Element.attribute?_set_of_ne (by decide),
      ← Element.hasAttribute_eq_isSome, hel]
  have hcovered' : Covered (page.setAttribute page.root noBoilerplateMarker "") [] :=
    (traced_mapElement (f := (·.set noBoilerplateMarker "")) (fun _ => rfl) hmarker).covered h hset hcovered
      (by simp)
  rw [removeBoilerplate_eq]
  exact (traced_detachAll _).covered hset (removeBoilerplate_wellFormed h) hcovered' (by simp)

/-! ## The whole run -/

/-- What a run over `page` has decided about the boilerplate: whether the root carries the marker, what
holds if it does, and what holds if not. -/
structure BoilerplateDecided (page : Page) (w : Work) : Prop where
  marked_iff : w.page.hasAttribute w.page.root noBoilerplateMarker = true
    ↔ ¬ ∃ i ∈ w.issues, i.kind = .rendering ∨ i.kind = .boilerplateRemoval
  gone : w.page.hasAttribute w.page.root noBoilerplateMarker = true →
    ∀ x ∈ w.page.children w.page.head,
      w.page.isElement x isBoilerplateStyle = false ∧ Boilerplate.isNoscript w.page x = false
  rendered : w.page.hasAttribute w.page.root noBoilerplateMarker = true →
    ∀ x ∈ w.page.components, w.page.hasAncestor x "template" = false →
      w.page.hasAttribute x layoutMarker = true
  kept : w.page.hasAttribute w.page.root noBoilerplateMarker = false →
    ∀ x ∈ page.children page.head, page.isElement x isBoilerplateStyle = true ∨ page.isTag x "noscript" = true →
      x ∈ w.page.children w.page.head ∧ w.page.element? x = page.element? x
        ∧ (Boilerplate.isNoscript page x = true → Boilerplate.isNoscript w.page x = true)

/-- The root carries nothing but what it carried, and the mark of the loop. -/
theorem hasAttribute_root_finished (h : page.WellFormed) (name : String) (hname : name ≠ layoutMarker) :
    (finished page).1.page.hasAttribute page.root name = page.hasAttribute page.root name := by
  have hsteady := (finished_yields h).steady (marked_wellFormed h)
  obtain ⟨el, hel, htag⟩ := Option.map_eq_some_iff.mp h.tag?_root
  have hmarked : (marked page).element? page.root = some (el.set layoutMarker "") := by
    rw [marked, Page.setAttribute, Page.element?_mapElement, if_pos rfl, hel]
    rfl
  have hplain : Markup.isComponent (el.set layoutMarker "").tag = false := by
    rw [Element.tag_set, htag]
    decide
  rw [Page.hasAttribute, Page.isElement, hsteady.element? _ _ hmarked hplain, Page.hasAttribute, Page.isElement,
    hel]
  show (el.set layoutMarker "").hasAttribute name = el.hasAttribute name
  rw [Element.hasAttribute_eq_isSome, Element.attribute?_set_of_ne hname, ← Element.hasAttribute_eq_isSome]

/-- Edits leave the boilerplate where it is. -/
theorem Steady.kept (h : Steady page page') (hpage : page.WellFormed) (hx : x ∈ page.children page.head)
    (hstyle : page.isElement x isBoilerplateStyle = true ∨ page.isTag x "noscript" = true) :
    x ∈ page'.children page'.head ∧ page'.element? x = page.element? x
      ∧ (Boilerplate.isNoscript page x = true → Boilerplate.isNoscript page' x = true) := by
  have hparent := (hpage.linked.mem_children_iff _ x).mp hx
  obtain ⟨headEl, hheadEl, hheadTag⟩ := Option.map_eq_some_iff.mp hpage.tag?_head
  have style {el : Element} (hstyle : isBoilerplateStyle el = true) : Markup.isComponent el.tag = false := by
    rw [isBoilerplateStyle, Bool.and_eq_true, beq_iff_eq] at hstyle
    rw [hstyle.1]
    decide
  obtain ⟨el, hel, hplain⟩ : ∃ el, page.element? x = some el ∧ Markup.isComponent el.tag = false := by
    rcases hstyle with hstyle | hnoscript
    · obtain ⟨el, hel, hstyle⟩ := Page.isElement_iff.mp hstyle
      exact ⟨el, hel, style hstyle⟩
    · obtain ⟨el, hel, htag⟩ := Page.isTag_iff.mp hnoscript
      exact ⟨el, hel, by rw [htag]; decide⟩
  have hel' := h.element? x el hel hplain
  -- the head is neither a custom element nor a style, so its children stay
  have hparent' := h.parent? x el page.head headEl hel hplain hparent hheadEl (by rw [hheadTag]; decide)
    (by rw [hheadTag]; decide)
  refine ⟨?_, hel'.trans hel.symm, fun hnoscript => ?_⟩
  · rw [h.wellFormed.linked.mem_children_iff, h.head]
    exact hparent'
  · rw [Boilerplate.isNoscript, Bool.and_eq_true, List.any_eq_true] at hnoscript ⊢
    obtain ⟨htag, c, hc, hcStyle⟩ := hnoscript
    obtain ⟨noscript, hnoscript, hnoscriptTag⟩ := Page.isTag_iff.mp htag
    obtain rfl := Option.some.inj (hel.symm.trans hnoscript)
    obtain ⟨cel, hcel, hcStyle⟩ := Page.isElement_iff.mp hcStyle
    have hcel' := h.element? c cel hcel (style hcStyle)
    have hcParent := (hpage.linked.mem_children_iff x c).mp (List.mem_of_mem_filter hc)
    have hcParent' := h.parent? c cel x el hcel (style hcStyle) hcParent hel hplain
      (by rw [hnoscriptTag]; decide)
    refine ⟨Page.isTag_iff.mpr ⟨el, hel', hnoscriptTag⟩, c, ?_, Page.isElement_iff.mpr ⟨cel, hcel', hcStyle⟩⟩
    refine List.mem_filter.mpr ⟨(h.wellFormed.linked.mem_children_iff x c).mpr hcParent', ?_⟩
    rw [hcel']
    rfl

/-- Changes that leave the kinds of styles alone make no noscript a boilerplate, and none stops being one. -/
theorem isNoscript_mapElement {f : Element → Element} (hf : Page.Neutral f) (id x : NodeId) :
    Boilerplate.isNoscript (page.mapElement id f) x = Boilerplate.isNoscript page x := by
  have hchildren : (page.mapElement id f).elementChildren x = page.elementChildren x := by
    rw [Page.elementChildren, (Page.mapElement_sameLinks f).children, Page.elementChildren]
    refine List.filter_congr fun c _ => ?_
    rw [Page.element?_mapElement]
    split
    · rw [Option.isSome_map]
    · rfl
  rw [Boilerplate.isNoscript, Page.isTag, Page.tag?_mapElement hf.tag, hchildren, Boilerplate.isNoscript, Page.isTag]
  congr 2
  exact funext (Page.isElement_mapElement hf.isBoilerplateStyle)

/-- Marking the root is no edit, but it leaves the boilerplate alone as well. -/
theorem kept_finished (h : page.WellFormed) (hx : x ∈ page.children page.head)
    (hstyle : page.isElement x isBoilerplateStyle = true ∨ page.isTag x "noscript" = true) :
    x ∈ (finished page).1.page.children (finished page).1.page.head
      ∧ (finished page).1.page.element? x = page.element? x
      ∧ (Boilerplate.isNoscript page x = true → Boilerplate.isNoscript (finished page).1.page x = true) := by
  have hsteady := (finished_yields h).steady (marked_wellFormed h)
  have hne : x ≠ page.root := fun heq =>
    h.not_isFixed_of_parent? ((h.linked.mem_children_iff _ x).mp hx) h.head_ne_root (.inl heq)
  have hel : (marked page).element? x = page.element? x := by
    rw [marked, Page.setAttribute, Page.element?_mapElement, if_neg hne]
  have hchildren : x ∈ (marked page).children (marked page).head := by
    rw [marked, Page.setAttribute, (Page.mapElement_sameLinks _).children]
    exact hx
  have hstyle' : (marked page).isElement x isBoilerplateStyle = true ∨ (marked page).isTag x "noscript" = true := by
    rw [Page.isElement_congr hel, Page.isTag, Page.tag?, hel]
    exact hstyle
  have hneutral : Page.Neutral fun el => el.set layoutMarker "" := .set "" (by decide)
  obtain ⟨hmem, hsame, hnoscript⟩ := hsteady.kept (marked_wellFormed h) hchildren hstyle'
  refine ⟨hmem, hsame.trans hel, fun hpage => hnoscript ?_⟩
  rw [marked, Page.setAttribute, isNoscript_mapElement hneutral]
  exact hpage

/-- Nothing keeps the boilerplate. -/
theorem decided_of_free {w : Work} (h : w.page.WellFormed) (hcovered : Covered w.page [])
    (hissues : ∀ i ∈ w.issues, ¬ Vetoes i) : BoilerplateDecided page (w.edit removeBoilerplate) := by
  have hcovered' := covered_removeBoilerplate h hcovered
  have hwell := removeBoilerplate_wellFormed h
  have hmarked := hasAttribute_root_removeBoilerplate h
  rw [Work.edit]
  exact
    { marked_iff := iff_of_true hmarked fun ⟨i, hi, hkind⟩ => hissues i hi hkind
      gone := fun _ x hx => no_boilerplate_removeBoilerplate h hx
      rendered := by
        intro _ x hx hxfree
        obtain ⟨habove, hcomponent⟩ := (Page.mem_components_iff hwell.linked).mp hx
        exact (hcovered' x (.inr habove) hcomponent hxfree).resolve_right (by simp)
      kept := fun hnot => by
        rw [hmarked] at hnot
        cases hnot }

/-- Something keeps it. -/
theorem decided_of_vetoed {w : Work} (hroot : w.page.hasAttribute w.page.root noBoilerplateMarker = false)
    (hissues : ∃ i ∈ w.issues, Vetoes i)
    (hkept : ∀ x ∈ page.children page.head,
      page.isElement x isBoilerplateStyle = true ∨ page.isTag x "noscript" = true →
      x ∈ w.page.children w.page.head ∧ w.page.element? x = page.element? x
        ∧ (Boilerplate.isNoscript page x = true → Boilerplate.isNoscript w.page x = true)) :
    BoilerplateDecided page w := by
  have hnot : ¬ w.page.hasAttribute w.page.root noBoilerplateMarker = true := by
    rw [hroot]
    simp
  exact
    { marked_iff := iff_of_false hnot (not_not_intro hissues)
      gone := fun hmarked => absurd hmarked hnot
      rendered := fun hmarked => absurd hmarked hnot
      kept := fun _ => hkept }

/-- The marker goes on exactly when nothing of the two kinds was noted, together with the removal of the
boilerplate and after all custom elements outside templates were rendered. -/
theorem run_boilerplate (h : page.WellFormed) (hlayout : page.hasAttribute page.root layoutMarker = false)
    (hboilerplate : page.hasAttribute page.root noBoilerplateMarker = false) {s : Settings.Rendering}
    (hs : s.removeBoilerplate = true) : BoilerplateDecided page (run s page) := by
  have hyields := finished_yields h
  have hsteady := hyields.steady (marked_wellFormed h)
  have hissues := hyields.free_iff rfl
  rw [run_of_unmarked hlayout, hs, Bool.and_true]
  split
  · next hfree =>
    exact decided_of_free hsteady.wellFormed (finished_covered h hfree) (hissues.mp hfree)
  · next hfree =>
    refine decided_of_vetoed ?_ ?_ fun x hx hstyle => kept_finished h hx hstyle
    · have hroot : (finished page).1.page.root = page.root := hsteady.root
      rw [hroot, hasAttribute_root_finished h _ (by decide), hboilerplate]
    · by_contra hnone
      exact hfree (hissues.mpr fun i hi hveto => hnone ⟨i, hi, hveto⟩)

/-- A page with its boilerplate and one image that can be rendered. -/
def hiddenDocument : Markup.Document :=
  ⟨none, [.element ⟨"head", []⟩ [.element ⟨"style", [⟨"amp-boilerplate", ""⟩]⟩ [],
      .element ⟨"noscript", []⟩ [.element ⟨"style", [⟨"amp-boilerplate", ""⟩]⟩ []]],
    .element ⟨"amp-img", [⟨"layout", "fill"⟩]⟩ []]⟩

/-- A page with hidden content, and a boilerplate to be taken out. -/
theorem boilerplateDecided_hiddenDocument :
    let page := Page.ofDocument hiddenDocument
    page.WellFormed ∧ page.hasAttribute page.root layoutMarker = false
      ∧ page.hasAttribute page.root noBoilerplateMarker = false
      ∧ (run {} page).page.hasAttribute (run {} page).page.root noBoilerplateMarker = true
      ∧ BoilerplateDecided page (run {} page) := by
  have h := Page.ofDocument_wellFormed hiddenDocument
  have hlayout : (Page.ofDocument hiddenDocument).hasAttribute (Page.ofDocument hiddenDocument).root
      layoutMarker = false := by decide
  have hboilerplate : (Page.ofDocument hiddenDocument).hasAttribute (Page.ofDocument hiddenDocument).root
      noBoilerplateMarker = false := by decide
  exact ⟨h, hlayout, hboilerplate, by decide +kernel, run_boilerplate h hlayout hboilerplate rfl⟩

end AmpTuner.Rendering
