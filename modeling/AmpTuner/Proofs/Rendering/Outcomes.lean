import AmpTuner.Proofs.Page.Readable
import AmpTuner.Proofs.Pass.Sparing
import AmpTuner.Proofs.Rendering.Turns

/-!
# Rendered or rejected

Every custom element of a page is rendered completely or keeps what it was, and the issues of the run say which. The
removal of the boilerplate takes nothing else away.

* **`Settles`** is what a run leaves of the elements and in the accounts, **`exists_settles_run`** that there always is
  such a record, from which the results about single elements are read off.
* **`Outcome`** are the ways in which rendering can end for an element, and **`exists_outcome_run`** says that it ends
  in one of them for every custom element of a document that was read, with no other errors of this kind.
-/

namespace AmpTuner.Rendering

open Markup (Element)
open Vocabulary (layoutMarker noBoilerplateMarker)

variable {page : Page} {x b : NodeId} {w : Work} {el : Element} {ρ : NodeId → NodeId} {turn : NodeId → Turn}

/-! ## The removal of the boilerplate -/

/-- Removing the boilerplate moves no node. -/
theorem traced_removeBoilerplate (h : page.WellFormed) : Traced page (removeBoilerplate page) fun x => x := by
  have hmarker : ∀ el : Element, el.hasAttribute layoutMarker = true →
      (el.set noBoilerplateMarker "").hasAttribute layoutMarker = true := by
    intro el hel
    rw [Element.hasAttribute_set, hel]
    rfl
  have hset : Traced page (page.setAttribute page.root noBoilerplateMarker "") fun x => x :=
    traced_mapElement (fun _ => rfl) hmarker
  have hwell : (page.setAttribute page.root noBoilerplateMarker "").WellFormed := h.setAttribute
  rw [removeBoilerplate_eq]
  exact hset.trans (traced_detachAll _) hwell.linked fun x hx => (Page.has_mapElement _).mpr hx

theorem element?_removeBoilerplate (hne : x ≠ page.root) : (removeBoilerplate page).element? x = page.element? x := by
  rw [removeBoilerplate_eq, Page.element?_congr (Page.kind?_detachAll _), Page.setAttribute, Page.element?_mapElement,
    if_neg hne]

/-- The boilerplate that goes was there in the beginning. -/
theorem mem_boilerplateOf_of_finished (h : page.WellFormed) (hliteral : page.HeadLiteral)
    (hb : b ∈ boilerplateOf ((finished page).1.page.setAttribute (finished page).1.page.root noBoilerplateMarker "")) :
    b ∈ boilerplateOf page := by
  obtain ⟨-, ρ, hfinished⟩ := evolves_finished h hliteral
  have hset : Evolves (fun _ => False) (finished page).1.page
      ((finished page).1.page.setAttribute (finished page).1.page.root noBoilerplateMarker "") fun x => x :=
    evolves_markRoot hfinished.wellFormed hfinished.literal (by decide)
  have hboth := hfinished.trans hset fun _ _ _ => id
  rw [mem_boilerplateOf_iff] at hb ⊢
  exact hb.imp (hboth.mem_styles_iff h fun _ hnone => hnone.elim).mp
    (hboth.mem_noscripts_iff h fun _ hnone => hnone.elim).mp

/-! ## The record of a run -/

/-- What a run leaves of the custom elements, by the turns that they had, and where the nodes of the page went. The text
of the stylesheet is accounted for unless the boilerplate goes, which may take the stylesheet with it. -/
structure Settles (page : Page) (w : Work) (ρ : NodeId → NodeId) (turn : NodeId → Turn) : Prop where
  traced : Traced page w.page ρ
  injective : ∀ x y, page.Has x → page.Has y → ρ x = ρ y → x = y
  left : ∀ x ∈ page.components, w.page.element? (ρ x) = some (turn x).left
  ends : ∀ x ∈ page.components, ∀ el, page.element? x = some el → Ends (IsDue page x el) el w.issues (turn x)
  used : w.page.budget.used = page.budget.used + Stored.bytes (page.components.flatMap fun x => (turn x).stored)
  text : (∃ i ∈ w.issues, Vetoes i) →
    w.page.customText = page.customText ++ Stored.text (page.components.flatMap fun x => (turn x).stored)
  layoutIssues : layoutIssues w.issues = page.components.flatMap fun x => (turn x).noted
  stays : page.HeadLiteral → ∀ x ∈ page.components, w.page.Attached (ρ x) ∨ ∃ b ∈ boilerplateOf page, page.Above b x

/-- A custom element is on the page, and is not the root. -/
theorem of_mem_components (h : page.WellFormed) (hx : x ∈ page.components) :
    ∃ el, page.element? x = some el ∧ Markup.isComponent el.tag = true ∧ page.Attached x ∧ x ≠ page.root := by
  obtain ⟨habove, el, hel, hcomponent⟩ := (Page.mem_components_iff h.linked).mp hx
  exact ⟨el, hel, hcomponent, .inr habove, fun heq => h.not_isFixed_of_isComponent ⟨el, hel, hcomponent⟩ (.inl heq)⟩

/-- No custom element is among the boilerplate that goes. -/
theorem not_mem_boilerplateOf_of_mem_components (h : page.WellFormed) (hx : x ∈ page.components) :
    x ∉ boilerplateOf page := by
  intro hboilerplate
  obtain ⟨plain, hplain, hnot⟩ := exists_element_of_mem_boilerplateOf h.linked hboilerplate
  obtain ⟨el, hel, hcomponent, -⟩ := of_mem_components h hx
  obtain rfl := Option.some.inj (hplain.symm.trans hel)
  rw [hnot] at hcomponent
  cases hcomponent

/-- Boilerplate is not dealt with, so that it still is the node that it was. -/
theorem eq_self_of_mem_boilerplateOf (h : page.WellFormed)
    (htracked : Tracked (page.root :: page.components) page w.page ρ) (hb : b ∈ boilerplateOf page) : ρ b = b := by
  obtain ⟨el, hel, -⟩ := exists_element_of_mem_boilerplateOf h.linked hb
  refine (htracked.others b (Page.has_of_element? hel) fun hmem => ?_).1
  rcases List.mem_cons.mp hmem with heq | hmem
  · exact (h.head_child (parent?_of_mem_boilerplateOf h.linked hb)).2.2 heq
  · exact not_mem_boilerplateOf_of_mem_components h hmem hb

/-- Above a custom element that the removal takes away there is boilerplate, and it was there in the beginning. -/
theorem attached_removeBoilerplate (h : page.WellFormed) (hliteral : page.HeadLiteral)
    (htracked : Tracked (page.root :: page.components) page (finished page).1.page ρ) (hx : x ∈ page.components) :
    (removeBoilerplate (finished page).1.page).Attached (ρ x) ∨ ∃ b ∈ boilerplateOf page, page.Above b x := by
  obtain ⟨el, hel, -, hattached, -⟩ := of_mem_components h hx
  have hhas := Page.has_of_element? hel
  have hstays := htracked.stays hliteral x (by rw [hel]; rfl) hattached
  have hroot : (removeBoilerplate (finished page).1.page).root = (finished page).1.page.root :=
    (traced_removeBoilerplate htracked.wellFormed).root
  let marked := (finished page).1.page.setAttribute (finished page).1.page.root noBoilerplateMarker ""
  have hlinks : (finished page).1.page.SameLinks marked := Page.mapElement_sameLinks _
  by_cases hgone : ∃ b ∈ boilerplateOf marked, b = ρ x ∨ marked.Above b (ρ x)
  · obtain ⟨b, hb, hbelow⟩ := hgone
    have hold := mem_boilerplateOf_of_finished h hliteral hb
    obtain ⟨bel, hbel, -⟩ := exists_element_of_mem_boilerplateOf h.linked hold
    have hself := eq_self_of_mem_boilerplateOf h htracked hold
    have hmapped {a : NodeId} (ha : page.Has a) (heq : ρ a = b) : a = b :=
      htracked.injective a b ha (Page.has_of_element? hbel) (heq.trans hself.symm)
    rcases hbelow with heq | hbelow
    · obtain rfl := hmapped hhas heq.symm
      exact absurd hold (not_mem_boilerplateOf_of_mem_components h hx)
    · obtain ⟨a, ha, heq⟩ := htracked.toImage.exists_above h.linked hhas (hlinks.above_iff.mp hbelow)
      obtain rfl := hmapped (h.linked.has_of_above ha) heq
      exact .inr ⟨a, hold, ha⟩
  · refine .inl (hstays.imp (fun heq => heq.trans hroot.symm) fun habove => ?_)
    rw [hroot, removeBoilerplate_eq]
    exact Page.above_detachAll _ (hlinks.above_iff.mpr habove) fun b hb =>
      ⟨fun heq => hgone ⟨b, hb, .inl heq⟩, fun hbelow => hgone ⟨b, hb, .inr hbelow⟩⟩

section Record

variable (h : page.WellFormed) (htracked : Tracked (page.root :: page.components) page w.page ρ)
  (hturns : TakesAll page.components ⟨page, []⟩ w ρ turn)

include h htracked hturns

/-- A run that keeps the boilerplate leaves what the turns have left. -/
theorem settles_kept : Settles page w ρ turn where
  traced := htracked.toTraced
  injective := htracked.injective
  left := hturns.left
  ends := hturns.ends
  used := hturns.used
  text _ := hturns.text
  layoutIssues := hturns.layoutIssues
  stays hliteral x hx := by
    obtain ⟨el, hel, -, hattached, -⟩ := of_mem_components h hx
    exact .inl (htracked.stays hliteral x (by rw [hel]; rfl) hattached)

/-- A run that removes the boilerplate leaves what the turns have left, apart from what was inside the boilerplate. -/
theorem settles_removed (hissues : ∀ i ∈ w.issues, ¬ Vetoes i)
    (hstays : page.HeadLiteral → ∀ x ∈ page.components,
      (removeBoilerplate w.page).Attached (ρ x) ∨ ∃ b ∈ boilerplateOf page, page.Above b x) :
    Settles page (w.edit removeBoilerplate) ρ turn where
  traced := htracked.toTraced.trans (traced_removeBoilerplate htracked.wellFormed) htracked.wellFormed.linked
    htracked.has
  injective := htracked.injective
  left x hx := by
    obtain ⟨el, hel, -, -, hne⟩ := of_mem_components h hx
    have hne' : ρ x ≠ w.page.root := by
      rw [htracked.root]
      exact fun heq => hne (htracked.map_root x (Page.has_of_element? hel) heq)
    rw [Work.edit, element?_removeBoilerplate hne']
    exact hturns.left x hx
  ends := hturns.ends
  used := by
    have hframe : w.page.SameFrame (removeBoilerplate w.page) :=
      (Page.mapElement_sameFrame _).trans (Page.detachAll_sameFrame _)
    rw [Work.edit, hframe.budget]
    exact hturns.used
  text hveto := by
    obtain ⟨i, hi, hveto⟩ := hveto
    exact absurd hveto (hissues i hi)
  layoutIssues := hturns.layoutIssues
  stays := hstays

end Record

/-- Every run over an unmarked page settles the custom elements, by one turn for each. -/
theorem exists_settles_run (h : page.WellFormed) (hroot : page.hasAttribute page.root layoutMarker = false)
    (s : Settings.Rendering) : ∃ ρ turn, Settles page (run s page) ρ turn := by
  obtain ⟨ρ, turn, htracked, hturns⟩ := exists_turns_finished h
  have hissues := (finished_yields h).free_iff rfl
  have hstays (hliteral : page.HeadLiteral) (x : NodeId) (hx : x ∈ page.components) :=
    attached_removeBoilerplate h hliteral htracked hx
  refine ⟨ρ, turn, ?_⟩
  rw [run_of_unmarked hroot]
  generalize finished page = state at htracked hturns hissues hstays ⊢
  split
  · next hfree =>
    rw [Bool.and_eq_true] at hfree
    exact settles_removed h htracked hturns (hissues.mp hfree.1) hstays
  · exact settles_kept h htracked hturns

/-! ## Single elements -/

/-- How rendering can end for an element, with what it leaves and what it notes of it. There is a reason against every
element that is rejected, and none against one that is rendered. -/
inductive Outcome (due : Prop) (el : Element) : Element → List Issue → Prop
  | kept (h : ¬ due) : Outcome due el el []
  | rejected {issue : Issue} (h : due) (hreason : Rejects el issue) : Outcome due el el [issue]
  | rendered {layout : Layout} {keyword : String} {el' : Element} (h : due) (hdecides : Decides el layout)
      (hreasons : ∀ issue, ¬ Rejects el issue) (hkeyword : Layout.Keyword keyword layout) (htag : el'.tag = el.tag)
      (hmarker : el'.attribute? "i-amphtml-layout" = some keyword)
      (hclass : el'.hasClass ("i-amphtml-layout-" ++ keyword) = true)
      (hsized : layout ≠ .nodisplay → layout ≠ .container → el'.hasClass "i-amphtml-layout-size-defined" = true) :
      Outcome due el el' []

/-- The end of a turn is one of the outcomes that the specification knows. -/
theorem Ends.outcome {due : Prop} {issues : List Issue} {t : Turn} (h : Ends due el issues t) :
    Outcome due el t.left t.noted := by
  cases h with
  | passed h => exact .kept h
  | rejected h hplan => exact .rejected h (rejects_of_plan hplan)
  | @rendered p el' stored h hplan hconverted =>
    obtain ⟨hdecides, hreasons⟩ := decides_of_plan hplan
    exact .rendered h hdecides hreasons (Layout.keyword_iff.mpr rfl) ((tag_rendered _ _ _ el').trans hconverted.tag)
      (attribute?_rendered_marker ..) (hasClass_rendered ..)
      fun hdisplayed hcontainer =>
        hasClass_rendered_sizeDefined _ _ _ el' (Layout.isSizeDefined_iff.mpr ⟨hdisplayed, hcontainer⟩)

/-- In a document that was read and is not marked, rendering ends for every custom element in one of these ways. What
it notes of elements that it rejects is all that the run notes of this kind, in document order. What is rendered in the
boilerplate may go with it, and no other custom element leaves the page or comes to it. -/
theorem exists_outcome_run {source : String} (hpage : Page.ofMarkup source = .ok page)
    (hroot : page.hasAttribute page.root layoutMarker = false) (s : Settings.Rendering) :
    ∃ (ρ : NodeId → NodeId) (noted : NodeId → List Issue), Traced page (run s page).page ρ
      ∧ (∀ x y, page.Has x → page.Has y → ρ x = ρ y → x = y)
      ∧ layoutIssues (run s page).issues = page.components.flatMap noted
      ∧ ∀ x ∈ page.components, ∃ el el', page.element? x = some el ∧ (run s page).page.element? (ρ x) = some el'
        ∧ Outcome (IsDue page x el) el el' (noted x)
        ∧ ((run s page).page.Attached (ρ x) ∨ ∃ b ∈ boilerplateOf page, page.Above b x) := by
  have hwell := Page.wellFormed_of_ofMarkup hpage
  have hliteral := (Page.nearlyReadable_of_ofMarkup hpage).headLiteral
  obtain ⟨ρ, turn, hsettles⟩ := exists_settles_run hwell hroot s
  refine ⟨ρ, fun x => (turn x).noted, hsettles.traced, hsettles.injective, hsettles.layoutIssues, fun x hx => ?_⟩
  obtain ⟨el, hel, -⟩ := of_mem_components hwell hx
  exact ⟨el, (turn x).left, hel, hsettles.left x hx, (hsettles.ends x hx el hel).outcome, hsettles.stays hliteral x hx⟩

/-- An element with blanks and capitals in its layout, which takes its dimensions from its tag, and one that names a
layout that there is not. -/
def mixedSource : String := "<amp-audio layout=' Fixed '></amp-audio><amp-b layout=x></amp-b>"

/-- On this page one element is rejected and another one is rendered. -/
theorem exists_outcome_mixedSource : ∃ page, Page.ofMarkup mixedSource = .ok page
    ∧ page.hasAttribute page.root layoutMarker = false
    ∧ layoutIssues (run {} page).issues = [.unsupportedLayout "amp-b" "x"]
    ∧ ∃ (ρ : NodeId → NodeId) (noted : NodeId → List Issue), Traced page (run {} page).page ρ
      ∧ (∀ x y, page.Has x → page.Has y → ρ x = ρ y → x = y)
      ∧ layoutIssues (run {} page).issues = page.components.flatMap noted
      ∧ ∀ x ∈ page.components, ∃ el el', page.element? x = some el ∧ (run {} page).page.element? (ρ x) = some el'
        ∧ Outcome (IsDue page x el) el el' (noted x)
        ∧ ((run {} page).page.Attached (ρ x) ∨ ∃ b ∈ boilerplateOf page, page.Above b x) := by
  have hread : (Page.ofMarkup mixedSource).toOption.any (fun page => !page.hasAttribute page.root layoutMarker
      && layoutIssues (run {} page).issues == [.unsupportedLayout "amp-b" "x"]) = true := by decide +kernel
  obtain ⟨page, hpage, hfacts⟩ := Page.exists_of_toOption_any hread
  rw [Bool.and_eq_true, Bool.not_eq_true', beq_iff_eq] at hfacts
  exact ⟨page, hpage, hfacts.1, hfacts.2, exists_outcome_run hpage hfacts.1 {}⟩

end AmpTuner.Rendering
