import AmpTuner.Proofs.Pass.Evolving
import AmpTuner.Proofs.Rendering.Preserving

/-!
# What rendering leaves as it was

Rendering writes on custom elements, gives them spacers, appends rules to the custom stylesheet and may take the
boilerplate out. All the rest of the page evolves to itself.

* **`Edit.evolves`**: one step.
* **`Edits.evolves`**: all the steps of a run, of which each may give places to copies.
* **`evolves_run`**: the pass. Where it takes the boilerplate out, what is lost is inert.
-/

namespace AmpTuner.Rendering

open Markup (Element)
open Vocabulary
open Css (Length Budget)

variable {lost : Element → Prop} {page page' : Page} {id x y : NodeId} {el elOld : Element}

/-! ## Copies -/

/-- A rendered element is the same for every pass that recognises elements by what rendering does not touch. -/
theorem resembles_rendered (layout : Layout) (width height : Length) (el : Element) :
    Resembles el (rendered layout width height el) := by
  have hall : ∀ name ∈ renderedNames, name ∈ touchedNames := by decide
  exact rendered_of_set layout width height (P := Resembles el)
    (fun el' name value hname h => h.trans (.set (hall name hname) value)) (.refl el)

/-- The only new element that putting in a spacer makes is padding. -/
theorem isPadding_withSpacer (h : page.WellFormed) {clone : NodeId} {layout : Layout} {width height : Length}
    {heightsConverted : Bool} (hel : (withSpacer page clone layout width height heightsConverted).element? x = some el)
    (hnew : ¬ page.Has x) : IsPadding el := by
  have htags : sizerTag ∈ paddingTags ∧ "img" ∈ paddingTags := by decide
  have hnames : ∀ name ∈ spacerNames, name ∈ paddingNames := by decide
  rcases withSpacer_cases h clone layout width height heightsConverted with heq | ⟨sized, hsized, heq⟩
  · rw [heq] at hel
    exact absurd (Page.has_of_element? hel) hnew
  · rw [heq, Page.prependChild, Page.element?_congr Page.kind?_attach] at hel
    obtain ⟨tag, given, rfl, htag, hgiven⟩ := hsized.made x el hnew hel
    refine .make ?_ fun a ha => hnames a.1 (hgiven a ha)
    rcases htag with rfl | rfl
    · exact htags.1
    · exact htags.2

/-- The only new elements that a layout makes are the copy and its padding. -/
theorem isPadding_applyLayout (h : page.WellFormed) (hid : page.element? id = some elOld)
    (hcomponent : Markup.isComponent elOld.tag = true) {layout : Layout} {width height : Length}
    {heightsConverted : Bool} (hel : (applyLayout page id layout width height heightsConverted).element? x = some el)
    (hnew : ¬ page.Has x) (hne : x ≠ page.next) : IsPadding el := by
  have hmoved := moved_rendered h hid hcomponent layout width height
  rw [applyLayout_eq, Page.element?_congr Page.kind?_replace] at hel
  exact isPadding_withSpacer hmoved.wellFormed hel fun hhas => ((hmoved.has x).mp hhas).elim hnew hne

theorem isComponent_of_isRawText {tag : String} (h : Markup.isRawText tag = true) : Markup.isComponent tag = false := by
  rw [Markup.isRawText, Bool.or_eq_true, beq_iff_eq, beq_iff_eq] at h
  rcases h with rfl | rfl <;> decide

namespace Replaced

variable (h : Replaced page id el page') (hpage : page.WellFormed)
  (hid : page.element? id = some elOld) (hcomponent : Markup.isComponent elOld.tag = true)

omit h hpage in
include hid hcomponent in
/-- An element with a plain tag is not the custom element that was replaced. -/
theorem ne_of_plain {tag : String} (hx : page.tag? x = some tag) (hplain : Markup.isComponent tag = false) :
    x ≠ id := by
  rintro rfl
  rw [Page.tag?, hid] at hx
  obtain rfl : elOld.tag = tag := Option.some.inj hx
  rw [hplain] at hcomponent
  cases hcomponent

include h hpage

/-- What is above the copy was above the element. -/
theorem attached_heir (hx : page.Attached x) (hroot : id ≠ page.root) : page'.Attached (heir page id x) := by
  induction x using hpage.linked.up_induction with
  | step x ih =>
    rcases hx with rfl | hx
    · rw [heir_of_ne (Ne.symm hroot), ← h.frame.root]
      exact .inl rfl
    · obtain ⟨p, hp, hup⟩ := Page.above_iff.mp hx
      have hparent := ih p hp (hup.imp Eq.symm fun habove => habove)
      by_cases hxid : x = id
      · subst hxid
        have hpne : p ≠ x := fun heq => hpage.linked.acyclic x (.of_parent? (heq ▸ hp))
        rw [heir_of_ne hpne] at hparent
        rw [heir_self]
        exact .of_parent? (h.parent?_next.trans hp) hparent
      · rw [heir_of_ne hxid]
        refine .of_parent? ?_ hparent
        rw [h.parent? x (Page.has_of_parent? hp) hxid, hp]
        rfl

include hid hcomponent

omit h in
theorem not_isFixed : ¬ page.IsFixed id := hpage.not_isFixed_of_isComponent ⟨elOld, hid, hcomponent⟩

/-- All other nodes are in the head exactly if they were. -/
theorem parent?_head_iff (hx : page.Has x) (hne : x ≠ id) :
    page'.parent? x = some page.head ↔ page.parent? x = some page.head := by
  have hhead : page.head ≠ id := fun heq => not_isFixed hpage hid hcomponent (.inr (.inl heq.symm))
  rw [h.parent? x hx hne]
  constructor
  · intro hparent
    obtain ⟨p, hp, heir⟩ := Option.map_eq_some_iff.mp hparent
    by_cases hpid : p = id
    · rw [hpid, heir_self] at heir
      exact absurd heir.symm (Page.ne_next_of_has hpage.has_head)
    · rwa [← heir, heir_of_ne hpid]
  · intro hparent
    rw [hparent, Option.map_some, heir_of_ne hhead]

variable (hliteral : page.HeadLiteral)

include hliteral

/-- The children of a raw element are texts, none of which has given its place to a copy. -/
theorem children_of_raw {tag : String} (hparent : page.parent? x = some page.head) (htag : page.tag? x = some tag)
    (hraw : Markup.isRawText tag = true) : page'.children x = page.children x := by
  rw [h.children x (Page.has_of_tag? htag) (ne_of_plain hid hcomponent htag (isComponent_of_isRawText hraw))]
  refine (List.map_congr_left fun c hc => heir_of_ne ?_).trans (List.map_id _)
  rintro rfl
  rw [hliteral x c tag hparent htag hraw ((hpage.linked.mem_children_iff x c).mp hc)] at hid
  cases hid

/-- The literal elements of the head are the same ones. -/
theorem headLiteral (htag : el.tag = elOld.tag) : page'.HeadLiteral := by
  intro x c tag hx hxtag hraw hc
  rw [h.frame.head] at hx
  have hplain := isComponent_of_isRawText hraw
  -- neither the copy nor a spacer is raw
  have hhas : page.Has x := by
    by_contra hnot
    by_cases hxn : x = page.next
    · rw [hxn, Page.tag?, h.element?_next] at hxtag
      obtain rfl : el.tag = tag := Option.some.inj hxtag
      rw [htag, hcomponent] at hplain
      cases hplain
    · obtain ⟨spacer, hspacer, -, htags⟩ := h.added x (Page.has_of_tag? hxtag) hnot hxn
      rw [Page.tag?, hspacer] at hxtag
      obtain rfl : spacer.tag = tag := Option.some.inj hxtag
      rcases htags with heq | ⟨heq, -⟩ <;> rw [heq] at hraw <;> exact absurd hraw (by decide)
  rw [Page.tag?_congr (h.sameKinds.kind? x hhas)] at hxtag
  have hparent := (h.parent?_head_iff hpage hid hcomponent hhas (ne_of_plain hid hcomponent hxtag hplain)).mp hx
  rw [← h.wellFormed.linked.mem_children_iff, h.children_of_raw hpage hid hcomponent hliteral hparent hxtag hraw,
    hpage.linked.mem_children_iff] at hc
  rw [Page.element?_congr (h.sameKinds.kind? c (Page.has_of_parent? hc))]
  exact hliteral x c tag hparent hxtag hraw hc

/-- The copy is what becomes of the element, and what is new besides is padding. -/
theorem evolves (hres : Resembles elOld el)
    (hpadding : ∀ x el', page'.element? x = some el' → ¬ page.Has x → x ≠ page.next → IsPadding el') :
    Evolves lost page page' (heir page id) where
  toImage := h.image hpage
  wellFormed := h.wellFormed
  literal := h.headLiteral hpage hid hcomponent hliteral hres.tag
  head := h.frame.head
  has x hx := by
    by_cases hxid : x = id
    · rw [hxid, heir_self]
      exact Page.has_of_element? h.element?_next
    · rw [heir_of_ne hxid]
      exact h.sameKinds.has hx
  fixed x el' hel' hplain := heir_of_ne (ne_of_plain hid hcomponent (by rw [Page.tag?, hel']; rfl) hplain)
  resembles x el' hel' := by
    by_cases hxid : x = id
    · subst hxid
      obtain rfl := Option.some.inj (hel'.symm.trans hid)
      exact ⟨el, by rw [heir_self, h.element?_next], hres⟩
    · exact ⟨el', by rw [heir_of_ne hxid, h.sameKinds.element? hel'], .refl el'⟩
  text x hx _ := h.sameKinds.kind? x hx
  script x el' hel' _ := h.sameKinds.element? hel'
  headScript x hparent htag := by
    refine ⟨?_, h.children_of_raw hpage hid hcomponent hliteral hparent htag (by decide)⟩
    exact (h.parent?_head_iff hpage hid hcomponent (Page.has_of_tag? htag)
      (ne_of_plain hid hcomponent htag (by decide))).mpr hparent
  stays x _ _ hx :=
    .inl (h.attached_heir hpage hx fun heq => not_isFixed hpage hid hcomponent (.inl heq))
  origin y el' hel' hy := by
    by_cases hhas : page.Has y
    · refine .inl ⟨y, ?_, heir_of_ne fun heq => ?_⟩
      · rw [← Page.element?_congr (h.sameKinds.kind? y hhas), hel']
        rfl
      · exact h.not_attached (fun heq => not_isFixed hpage hid hcomponent (.inl heq)) (heq ▸ hy)
    · by_cases hyn : y = page.next
      · exact .inl ⟨id, by rw [hid]; rfl, by rw [heir_self, hyn]⟩
      · exact .inr (hpadding y el' hel' hhas hyn)
  marks name hmark := by
    rwa [Page.hasAttribute, Page.isElement_congr (Page.element?_congr (h.sameKinds.kind? _ hpage.has_root))]

end Replaced

/-! ## Steps -/

theorem isPadding_customElement : IsPadding Page.customElement := .make (by decide) (by decide)

/-- Making sure of a custom style is an evolution, in which at most padding is added. -/
theorem evolves_withCustomStyle (hpage : page.WellFormed) (hliteral : page.HeadLiteral) :
    Evolves lost page page.withCustomStyle.1 fun x => x := by
  cases hstyle : page.customStyle? with
  | some style =>
    rw [Page.withCustomStyle_of_some hstyle]
    exact .refl hpage hliteral
  | none =>
    have hdistinct : Page.customElement.Distinct := Element.distinct_make _ _
    have hraw : Markup.isRawText "head" = false := by decide
    rw [Page.withCustomStyle_of_none hstyle]
    show Evolves lost page page.withNewStyle _
    rw [Page.withNewStyle]
    exact evolves_attachNew hpage hliteral hdistinct isPadding_customElement hpage.tag?_head hraw
      hpage.head_ne_root (isPlacement_append page.next)

/-- Writing text at the end of the stylesheet is an evolution, in which nothing is lost. -/
theorem evolves_appendCustomCss (hpage : page.WellFormed) (hliteral : page.HeadLiteral) (css : String) :
    Evolves (fun _ => False) page (page.appendCustomCss css) fun x => x := by
  have hfirst : Evolves (fun _ => False) page page.withCustomStyle.1 fun x => x :=
    evolves_withCustomStyle hpage hliteral
  have hmem := Page.mem_customStyles_of_customStyle? hpage.customStyle?_withCustomStyle
  obtain ⟨el, hel, -⟩ := hfirst.wellFormed.of_mem_customStyles hmem
  have htag : page.withCustomStyle.1.tag? page.withCustomStyle.2 = some "style" := by
    rw [Page.tag?, hel, Option.map_some,
      hfirst.wellFormed.tag_of_customStyle? hpage.customStyle?_withCustomStyle hel]
  rw [Page.appendCustomCss_eq]
  exact hfirst.trans (evolves_setTextContent hfirst.wellFormed hfirst.literal
    ((Page.mem_customStyles_iff hfirst.wellFormed.linked).mp hmem).1 htag _) fun _ _ _ => id

/-- A change of attributes leaves an element that resembles the one before. -/
theorem resembles_of_isChange {f : Element → Element} (hf : IsChange f) (el : Element) : Resembles el (f el) := by
  have hall : ∀ name ∈ convertibleNames, name ∈ touchedNames := by decide
  cases hf with
  | identify value => exact .set (by decide) value
  | drop hname => exact .erase (hall _ hname)

/-- Each edit is an evolution in which nothing is lost, by its four cases. -/
theorem Edit.evolves (h : page.WellFormed) (hliteral : page.HeadLiteral) (he : Edit page page') :
    ∃ ρ, Evolves (fun _ => False) page page' ρ := by
  cases he with
  | count n => exact ⟨_, evolves_withCounters h hliteral page.budget n⟩
  | @change id f hid hf =>
    obtain ⟨el, hel, hcomponent⟩ := hid
    have hnotRoot : id ≠ page.root := fun heq => h.not_isFixed_of_isComponent ⟨el, hel, hcomponent⟩ (.inl heq)
    refine ⟨_, evolves_mapElement h hliteral (resembles_of_isChange hf) (fun el hel => hf.distinct hel) ?_
      fun heq => absurd heq hnotRoot⟩
    intro htag
    rw [Page.tag?, hel] at htag
    have hscript : el.tag = "script" := Option.some.inj htag
    rw [hscript] at hcomponent
    exact absurd hcomponent (by decide)
  | @append css budget hroom =>
    have hcounted : Evolves (fun _ => False) page { page with budget } fun x => x :=
      evolves_withCounters h hliteral budget page.nextGenerated
    exact ⟨_, hcounted.trans (evolves_appendCustomCss hcounted.wellFormed hcounted.literal css) fun _ _ _ => id⟩
  | @apply id el hid hcomponent layout width height heightsConverted =>
    exact ⟨_, (replaced_applyLayout h hid hcomponent layout width height heightsConverted).evolves h hid hcomponent
      hliteral (resembles_rendered layout width height el)
      fun x el' hel' hnew hne => isPadding_applyLayout h hid hcomponent hel' hnew hne⟩

/-- Any number of edits is, by induction on them. -/
theorem Edits.evolves (h : page.WellFormed) (hliteral : page.HeadLiteral) (he : Edits page page') :
    ∃ ρ, Evolves (fun _ => False) page page' ρ := by
  induction he with
  | refl => exact ⟨_, .refl h hliteral⟩
  | tail _ hlast ih =>
    obtain ⟨ρ, hfirst⟩ := ih
    obtain ⟨σ, hlast⟩ := hlast.evolves hfirst.wellFormed hfirst.literal
    exact ⟨σ ∘ ρ, hfirst.trans hlast fun _ _ _ => id⟩

/-! ## The boilerplate goes -/

/-- No script is among what goes as boilerplate. -/
theorem not_mem_boilerplateOf_of_script (h : page.WellFormed) (htag : page.tag? x = some "script") :
    x ∉ boilerplateOf page := by
  intro hx
  rw [mem_boilerplateOf_iff, Boilerplate.mem_styles_iff h.linked, Boilerplate.mem_noscripts_iff h.linked] at hx
  rcases hx with ⟨-, hstyle⟩ | ⟨-, ⟨el, hel, heq⟩, -⟩
  · obtain ⟨el, hel, hstyle⟩ := Page.isElement_iff.mp hstyle
    rw [Page.tag?, hel] at htag
    have hscript : el.tag = "script" := Option.some.inj htag
    rw [isBoilerplateStyle, hscript, Bool.and_eq_true] at hstyle
    exact absurd hstyle.1 (by decide)
  · rw [Page.tag?, hel, Option.map_some, heq] at htag
    exact absurd (Option.some.inj htag) (by decide)

/-- Taking the boilerplate out is an evolution that loses inert elements only, if the boilerplate is inert. -/
theorem evolves_detachBoilerplate {spec : Spec} (h : page.WellFormed) (hliteral : page.HeadLiteral)
    (hinert : InertBoilerplate spec page) :
    Evolves (Inert spec) page (page.detachAll (boilerplateOf page)) fun x => x := by
  have hinHead {b : NodeId} (hb : b ∈ boilerplateOf page) : page.parent? b = some page.head :=
    parent?_of_mem_boilerplateOf h.linked hb
  have hframe : page.SameFrame (page.detachAll (boilerplateOf page)) := Page.detachAll_sameFrame _
  exact
    { toImage := .of_parent? hframe.root fun _ _ _ hq => Page.parent?_of_detachAll hq
      wellFormed := h.detachAll_head fun _ hb => .of_parent? (hinHead hb)
      literal := hliteral.of_kinds hframe.head (fun _ => Page.kind?_detachAll _) fun _ _ hq =>
        Page.parent?_of_detachAll hq
      head := hframe.head
      has := fun x hx => (Page.has_detachAll _).mpr hx
      fixed := fun _ _ _ _ => rfl
      resembles := fun x el hel => ⟨el, by rw [Page.element?_congr (Page.kind?_detachAll _), hel], .refl el⟩
      text := fun x _ _ => Page.kind?_detachAll _
      script := fun x el hel _ => by rw [Page.element?_congr (Page.kind?_detachAll _), hel]
      headScript := by
        intro x hparent htag
        refine ⟨by rw [Page.parent?_detachAll, if_neg (not_mem_boilerplateOf_of_script h htag), hparent], ?_⟩
        rw [h.linked.children_detachAll]
        refine List.filter_eq_self.mpr fun c hc => ?_
        -- what goes is a child of the head and of nothing else
        rw [decide_eq_true_eq]
        intro hmem
        rw [h.linked.mem_children_iff, hinHead hmem] at hc
        exact (h.head_child hparent).1 (Option.some.inj hc).symm
      stays := by
        intro x el hel hx
        by_cases hgone : ∃ b ∈ boilerplateOf page, x = b ∨ page.Above b x
        · obtain ⟨b, hb, hbelow⟩ := hgone
          exact .inr (hinert b x el hb hbelow hel)
        · refine .inl (hx.imp (fun heq => heq.trans hframe.root.symm) fun habove => ?_)
          rw [hframe.root]
          exact Page.above_detachAll _ habove fun b hb =>
            ⟨fun heq => hgone ⟨b, hb, .inl heq.symm⟩, fun hbelow => hgone ⟨b, hb, .inr hbelow⟩⟩
      origin := fun y el hel _ => .inl ⟨y, by
        rw [← Page.element?_congr (Page.kind?_detachAll (boilerplateOf page)), hel]
        rfl, rfl⟩
      marks := fun name hmark => by
        rwa [Page.hasAttribute, Page.isElement_congr (Page.element?_congr (Page.kind?_detachAll _))] }

/-! ## The pass -/

/-- Setting one of the marks on the root is an evolution in which nothing is lost. -/
theorem evolves_markRoot (h : page.WellFormed) (hliteral : page.HeadLiteral) {name value : String}
    (hname : name ∈ touchedNames) : Evolves lost page (page.setAttribute page.root name value) fun x => x := by
  refine evolves_setAttribute h hliteral hname fun htag => ?_
  rw [h.tag?_root] at htag
  exact absurd (Option.some.inj htag) (by decide)

/-- The loop ends on a marked page, and loses nothing on the way. -/
theorem evolves_finished (h : page.WellFormed) (hliteral : page.HeadLiteral) :
    (finished page).1.page.hasAttribute page.root layoutMarker = true
      ∧ ∃ ρ, Evolves (fun _ => False) page (finished page).1.page ρ := by
  have hmarked : Evolves (fun _ => False) page (marked page) fun x => x := evolves_markRoot h hliteral (by decide)
  have hroot : (marked page).hasAttribute page.root layoutMarker = true := by
    obtain ⟨el, hel, -⟩ := Option.map_eq_some_iff.mp h.tag?_root
    have hel' : (marked page).element? page.root = some (el.set layoutMarker "") := by
      rw [marked, Page.setAttribute, Page.element?_mapElement, if_pos rfl, hel]
      rfl
    rw [Page.hasAttribute, Page.isElement, hel', Option.any_some, Markup.Element.hasAttribute_set_self]
  obtain ⟨ρ, hedits⟩ := (finished_yields h).edits.evolves hmarked.wellFormed hmarked.literal
  refine ⟨?_, _, hmarked.trans hedits fun _ _ _ => id⟩
  rw [← hmarked.root] at hroot ⊢
  exact hedits.marks layoutMarker hroot

/-- Removing the boilerplate, with its mark, loses inert elements only. -/
theorem evolves_removeBoilerplate {spec : Spec} (hspec : spec.Quiet) (h : page.WellFormed)
    (hliteral : page.HeadLiteral) (hinert : InertBoilerplate spec page) :
    Evolves (Inert spec) page (removeBoilerplate page) fun x => x := by
  have hmarked : Evolves (fun _ => False) page (page.setAttribute page.root noBoilerplateMarker "") fun x => x :=
    evolves_markRoot h hliteral (by decide)
  rw [removeBoilerplate_eq]
  exact (hmarked.mono fun _ hnone => hnone.elim).trans
    (evolves_detachBoilerplate hmarked.wellFormed hmarked.literal
      (hmarked.inertBoilerplate h hspec (fun _ hnone => hnone.elim) hinert))
    fun el el' hres => (hres.inert_iff hspec).mp

/-- The page is marked as rendered. It is also marked as one without boilerplate, or nothing is lost. -/
theorem evolves_run {spec : Spec} (hspec : spec.Quiet) (h : page.WellFormed) (hliteral : page.HeadLiteral)
    (hinert : InertBoilerplate spec page) (s : Settings.Rendering) :
    (run s page).page.hasAttribute page.root layoutMarker = true
      ∧ ((∃ ρ, Evolves (fun _ => False) page (run s page).page ρ)
        ∨ (run s page).page.hasAttribute (run s page).page.root noBoilerplateMarker = true
          ∧ ∃ ρ, Evolves (Inert spec) page (run s page).page ρ) := by
  by_cases hmarked : page.hasAttribute page.root layoutMarker = true
  · rw [run_of_marked hmarked]
    exact ⟨hmarked, .inl ⟨_, .refl h hliteral⟩⟩
  · rw [run_of_unmarked (Bool.eq_false_iff.mpr hmarked)]
    obtain ⟨hrendered, ρ, hfinished⟩ := evolves_finished h hliteral
    generalize finished page = state at hrendered hfinished ⊢
    split
    · have hremoved := evolves_removeBoilerplate hspec hfinished.wellFormed hfinished.literal
        (hfinished.inertBoilerplate h hspec (fun _ hnone => hnone.elim) hinert)
      have hboth := (hfinished.mono fun _ hnone => hnone.elim).trans hremoved fun el el' hres =>
        (hres.inert_iff hspec).mp
      rw [← hfinished.root] at hrendered ⊢
      exact ⟨hremoved.marks layoutMarker hrendered,
        .inr ⟨hasAttribute_root_removeBoilerplate hfinished.wellFormed, _, hboth⟩⟩
    · exact ⟨hrendered, .inl ⟨ρ, hfinished⟩⟩

end AmpTuner.Rendering
