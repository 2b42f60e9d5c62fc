import AmpTuner.Proofs.Rendering.Preserving
import AmpTuner.Proofs.Rendering.Stylesheet

/-!
# What rendering does to the text of the stylesheet

Only appending rules changes the text of the custom stylesheet, even where there are custom elements in it.

* **`textsBelow`** are the texts that make up the text content of an element, and **`textsBelow_map`** says when
  they are the same for what became of it.
* **`exists_children_applyLayout`**: in front of what the element had, the copy has nodes that are new.
* **`customText_mapElement`**, **`customText_withCounters`**, **`customText_applyLayout`**: one lemma for each write.
-/

namespace AmpTuner

open Markup (Element)
open Vocabulary (sizerTag sizerSlot)
open Css (Length)

variable {page page' : Page} {id x : NodeId} {el : Element}

namespace Page

/-! ## Texts below a node -/

/-- The contents of the texts below a node, in order. -/
def textsBelow (page : Page) (x : NodeId) : List String := (page.preorder x).filterMap page.text?

/-- The texts below a node are those of each child, with what is below it, in order. -/
theorem Linked.textsBelow_eq (h : page.Linked) :
    page.textsBelow x = (page.children x).flatMap fun c => (page.text? c).toList ++ page.textsBelow c := by
  rw [textsBelow, h.preorder_eq, List.filterMap_flatMap]
  refine List.flatMap_congr fun c _ => ?_
  rw [List.filterMap_cons, textsBelow]
  cases page.text? c <;> rfl

theorem Linked.textContent_eq_textsBelow (h : page.Linked) :
    page.textContent x = (page.text? x).getD (String.join (page.textsBelow x)) := by
  rw [textContent_eq, h.descendants_eq_preorder, textsBelow]

/-- What is put in front of the children may be any nodes without a text in them. -/
theorem textsBelow_map {ρ : NodeId → NodeId} (h : page.Linked) (h' : page'.Linked)
    (htext : ∀ x, page.Has x → page'.text? (ρ x) = page.text? x)
    (hchildren : ∀ x, page.Has x → ∃ silent, page'.children (ρ x) = silent ++ (page.children x).map ρ
      ∧ ∀ s ∈ silent, page'.text? s = none ∧ page'.textsBelow s = [])
    (hx : page.Has x) : page'.textsBelow (ρ x) = page.textsBelow x := by
  induction x using h.down_induction with
  | step x ih =>
    obtain ⟨silent, heq, hsilent⟩ := hchildren x hx
    have hnone : (silent.flatMap fun c => (page'.text? c).toList ++ page'.textsBelow c) = [] := by
      refine List.flatMap_eq_nil_iff.mpr fun s hs => ?_
      obtain ⟨htext, hbelow⟩ := hsilent s hs
      rw [htext, hbelow]
      rfl
    rw [h'.textsBelow_eq, h.textsBelow_eq, heq, List.flatMap_append, hnone, List.nil_append, List.flatMap_map]
    refine List.flatMap_congr fun c hc => ?_
    have hhas := h.has_child hc
    rw [htext c hhas, ih c ((h.mem_children_iff x c).mp hc) hhas]

/-- The custom stylesheet reads the same where it is the same node with the same text in it. -/
theorem customText_congr (hstyle : page'.customStyle? = page.customStyle?)
    (htext : ∀ s, page.customStyle? = some s → page'.textContent s = page.textContent s) :
    page'.customText = page.customText := by
  rw [customText, customText, hstyle]
  cases h : page.customStyle? with
  | none => rfl
  | some s => exact htext s h

/-- A change of an element changes no text. -/
theorem text?_mapElement {f : Element → Element} : (page.mapElement id f).text? x = page.text? x := by
  cases hel : page.element? x with
  | none => exact text?_congr (kind?_mapElement_of_element?_eq_none hel)
  | some el =>
    obtain ⟨el', hel'⟩ : ∃ el', (page.mapElement id f).element? x = some el' := by
      rw [element?_mapElement, hel]
      split <;> exact ⟨_, rfl⟩
    rw [text?_of_element? hel, text?_of_element? hel']

/-- A neutral change of an element leaves the custom text. -/
theorem WellFormed.customText_mapElement (h : page.WellFormed) {f : Element → Element} (hf : Neutral f) :
    (page.mapElement id f).customText = page.customText := by
  have hlinks : page.SameLinks (page.mapElement id f) := mapElement_sameLinks f
  have hstyles : (page.mapElement id f).customStyle? = page.customStyle? := by
    rw [customStyle?_eq, customStyles_mapElement hf, ← customStyle?_eq]
  refine customText_congr hstyles fun s hs => ?_
  obtain ⟨hparent, -⟩ := (mem_customStyles_iff h.linked).mp (mem_customStyles_of_customStyle? hs)
  exact h.textContent_congr_of_child (h.mapElement hf.tag fun el => hf.distinct el) (fun _ _ => text?_mapElement)
    (fun y _ => hlinks.children y) hparent

/-- The text says nothing of the budget. -/
theorem WellFormed.customText_withCounters (h : page.WellFormed) (budget : Css.Budget) (n : Nat) :
    ({ page with budget, nextGenerated := n } : Page).customText = page.customText := by
  refine customText_congr rfl fun s hs => ?_
  obtain ⟨hparent, -⟩ := (mem_customStyles_iff h.linked).mp (mem_customStyles_of_customStyle? hs)
  exact h.textContent_congr_of_child (h.withCounters budget n) (fun _ _ => rfl) (fun _ _ => rfl) hparent

end Page

namespace Rendering

/-! ## The copy of an element -/

/-- The spacer of the layout comes in front of the children, and is new. -/
theorem exists_children_withSpacer (h : page.WellFormed) {clone : NodeId} (hclone : page.Has clone)
    (layout : Layout) (width height : Length) (heightsConverted : Bool) :
    ∃ spacers, (withSpacer page clone layout width height heightsConverted).children clone
        = spacers ++ page.children clone ∧ ∀ s ∈ spacers, ¬ page.Has s := by
  rcases withSpacer_cases h clone layout width height heightsConverted with heq | ⟨sized, hsized, heq⟩
  · rw [heq]
    exact ⟨[], rfl, by simp⟩
  · rw [heq]
    refine ⟨[page.next], hsized.children_prependChild h.linked hclone, fun s hs => ?_⟩
    rw [List.mem_singleton.mp hs]
    exact Page.not_has_next

/-- The copy has the element's children, behind spacers. -/
theorem exists_children_applyLayout (h : page.WellFormed) (hid : page.element? id = some el)
    (hcomponent : Markup.isComponent el.tag = true) (layout : Layout) (width height : Length)
    (heightsConverted : Bool) :
    ∃ spacers, (applyLayout page id layout width height heightsConverted).children page.next
        = spacers ++ page.children id ∧ ∀ s ∈ spacers, ¬ page.Has s := by
  have hhas : page.Has id := Page.has_of_element? hid
  have hmoved := moved_rendered h hid hcomponent layout width height
  have hwaiting := hmoved.waiting_withSpacer h layout width height heightsConverted
  obtain ⟨spacers, hchildren, hnew⟩ := exists_children_withSpacer hmoved.wellFormed
    (Page.has_of_element? hmoved.element?_next) layout width height heightsConverted
  refine ⟨spacers, ?_, fun s hs hold => hnew s hs ((hmoved.has s).mpr (.inl hold))⟩
  rw [applyLayout_eq, hwaiting.children_replace_next h hhas, hchildren, hmoved.children,
    if_neg (Page.ne_next_of_has hhas).symm, if_pos rfl]

namespace Replaced

variable (h : Replaced page id el page') (hpage : page.WellFormed)

include h hpage

/-- What is below a spacer is new, too, and so no text. -/
theorem textsBelow_spacer (hx : ¬ page.Has x) (hne : x ≠ page.next) : page'.textsBelow x = [] := by
  induction x using h.wellFormed.linked.down_induction with
  | step x ih =>
    rw [h.wellFormed.linked.textsBelow_eq]
    refine List.flatMap_eq_nil_iff.mpr fun c hc => ?_
    have hparent := (h.wellFormed.linked.mem_children_iff x c).mp hc
    have hcNew : ¬ page.Has c := by
      intro hhas
      by_cases hcid : c = id
      · rw [hcid, h.parent?_self] at hparent
        cases hparent
      · rw [h.parent? c hhas hcid] at hparent
        obtain ⟨p, hp, heir⟩ := Option.map_eq_some_iff.mp hparent
        by_cases hpid : p = id
        · rw [hpid, heir_self] at heir
          exact hne heir.symm
        · rw [heir_of_ne hpid] at heir
          exact hx (heir ▸ hpage.linked.has_parent hp)
    have hcNe : c ≠ page.next := by
      rintro rfl
      rw [h.parent?_next] at hparent
      exact hx (hpage.linked.has_parent hparent)
    obtain ⟨spacer, hspacer, -⟩ := h.added c (Page.has_of_parent? hparent) hcNew hcNe
    rw [Page.text?_of_element? hspacer, ih c hparent hcNew hcNe]
    rfl

/-- The texts below what became of a node are the ones that were below it. -/
theorem textsBelow_heir (hid : (page.element? id).isSome = true)
    (hnext : ∃ spacers, page'.children page.next = spacers ++ page.children id ∧ ∀ s ∈ spacers, ¬ page.Has s)
    (hx : page.Has x) : page'.textsBelow (heir page id x) = page.textsBelow x := by
  obtain ⟨elOld, hel⟩ := Option.isSome_iff_exists.mp hid
  refine Page.textsBelow_map hpage.linked h.wellFormed.linked (fun y hy => ?_) (fun y hy => ?_) hx
  · by_cases hyid : y = id
    · rw [hyid, heir_self, Page.text?_of_element? h.element?_next, Page.text?_of_element? hel]
    · rw [heir_of_ne hyid, Page.text?_congr (h.sameKinds.kind? y hy)]
  · by_cases hyid : y = id
    · obtain ⟨spacers, hchildren, hnew⟩ := hnext
      have hmap : (page.children id).map (heir page id) = page.children id := by
        refine (List.map_congr_left fun c hc => heir_of_ne ?_).trans (List.map_id _)
        rintro rfl
        exact hpage.linked.acyclic c (.of_parent? ((hpage.linked.mem_children_iff c c).mp hc))
      refine ⟨spacers, by rw [hyid, heir_self, hmap, hchildren], fun s hs => ?_⟩
      have hparent := (h.wellFormed.linked.mem_children_iff page.next s).mp
        (by rw [hchildren]; exact List.mem_append_left _ hs)
      have hne : s ≠ page.next := fun heq => h.wellFormed.linked.acyclic s (.of_parent? (heq ▸ hparent))
      obtain ⟨spacer, hspacer, -⟩ := h.added s (Page.has_of_parent? hparent) (hnew s hs) hne
      exact ⟨Page.text?_of_element? hspacer, h.textsBelow_spacer hpage (hnew s hs) hne⟩
    · exact ⟨[], by rw [heir_of_ne hyid, h.children y hy hyid]; rfl, by simp⟩

end Replaced

/-- Applying a layout leaves the custom text. -/
theorem customText_applyLayout (h : page.WellFormed) (hid : page.element? id = some el)
    (hcomponent : Markup.isComponent el.tag = true) (layout : Layout) (width height : Length)
    (heightsConverted : Bool) :
    (applyLayout page id layout width height heightsConverted).customText = page.customText := by
  have hreplaced := replaced_applyLayout h hid hcomponent layout width height heightsConverted
  have hnext := exists_children_applyLayout h hid hcomponent layout width height heightsConverted
  have hstyles := hreplaced.customStyles h hid hcomponent (tag_rendered layout width height el)
  refine Page.customText_congr (by rw [Page.customStyle?_eq, hstyles, ← Page.customStyle?_eq]) fun s hs => ?_
  obtain ⟨sel, hsel, hcustom, -⟩ := h.of_mem_customStyles (Page.mem_customStyles_of_customStyle? hs)
  -- the stylesheet is no custom element
  have hne : s ≠ id := by
    rintro rfl
    obtain rfl := Option.some.inj (hid.symm.trans hsel)
    exact tag_ne_style hcomponent (h.tag_of_customStyle? hs hid)
  have hbelow := hreplaced.textsBelow_heir h (by rw [hid]; rfl) hnext (Page.has_of_element? hsel)
  rw [heir_of_ne hne] at hbelow
  rw [hreplaced.wellFormed.linked.textContent_eq_textsBelow, h.linked.textContent_eq_textsBelow, hbelow,
    Page.text?_congr (hreplaced.sameKinds.kind? s (Page.has_of_element? hsel))]

end Rendering

end AmpTuner
