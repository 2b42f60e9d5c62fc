import AmpTuner.Proofs.Rendering.Edits
import AmpTuner.Proofs.Pass.Keeping

/-!
# Rendering and the custom stylesheet

Of the edits that rendering makes, only appending rules changes the custom stylesheet, and it takes from
the budget what it writes.

* **`Balanced`** says that the budget shows the size of the stylesheet, up to the limit.
* **`Edit.balanced`** is the step, and **`run_balanced`** the run.
-/

namespace AmpTuner

open Markup (Element)
open Vocabulary (isCustomStyle isRuntimeStyle isBoilerplateStyle)
open Css (Budget)

variable {page page' : Page} {id x : NodeId}

namespace Rendering

/-! ## Edits that leave the stylesheet alone -/

/-- No attribute that is changed marks a style. -/
theorem IsChange.neutral {f : Element → Element} (hf : IsChange f) : Page.Neutral f := by
  cases hf with
  | identify value => exact .set value (by decide)
  | drop hname =>
    refine .erase fun hmem => ?_
    have hapart : ∀ name ∈ convertibleNames, name ∉ Page.styleMarkers := by decide
    exact hapart _ hname hmem

/-- A custom element is no style. -/
theorem tag_ne_style {el : Element} (h : Markup.isComponent el.tag = true) : el.tag ≠ "style" := by
  intro htag
  rw [htag] at h
  exact absurd h (by decide)

/-- Replacing a custom element leaves the custom styles. -/
theorem Replaced.customStyles {el elOld : Element} (h : Replaced page id el page') (hpage : page.WellFormed)
    (hid : page.element? id = some elOld) (hcomponent : Markup.isComponent elOld.tag = true)
    (htag : el.tag = elOld.tag) : page'.customStyles = page.customStyles := by
  have hself : page.isElement id isCustomStyle = false := by
    rw [Page.isElement, hid]
    exact Page.isCustomStyle_eq_false (tag_ne_style hcomponent)
  have hcopy : page'.isElement page.next isCustomStyle = false := by
    rw [Page.isElement, h.element?_next]
    exact Page.isCustomStyle_eq_false (htag ▸ tag_ne_style hcomponent)
  have hhead : page.head ≠ id := by
    rintro rfl
    exact hpage.not_isFixed_of_isComponent ⟨elOld, hid, hcomponent⟩ (.inr (.inl rfl))
  rw [Page.customStyles, h.frame.head, h.children _ hpage.has_head hhead, Page.customStyles]
  have hmem : ∀ c ∈ page.children page.head, page.Has c := fun c hc => hpage.linked.has_child hc
  generalize page.children page.head = cs at hmem ⊢
  -- neither the element nor its copy is a style, and every other child is the same node
  induction cs with
  | nil => rfl
  | cons c cs ih =>
    obtain ⟨hc, hcs⟩ := List.forall_mem_cons.mp hmem
    rw [List.map_cons, List.filter_cons, List.filter_cons, ih hcs]
    by_cases hcid : c = id
    · rw [hcid, heir_self, hcopy, hself]
      rfl
    · rw [heir_of_ne hcid, Page.isElement_congr (Page.element?_congr (h.sameKinds.kind? c hc))]

/-- Replacing a custom element of a tidy page keeps its styles. -/
theorem Replaced.keeps {el elOld : Element} (h : Replaced page id el page') (hpage : page.Tidy)
    (hid : page.element? id = some elOld) (hcomponent : Markup.isComponent elOld.tag = true)
    (htag : el.tag = elOld.tag) : page.Keeps page' := by
  refine hpage.keeps_of_kinds h.frame h.sameKinds.kind? ?_ ?_ h.wellFormed
  · rw [← h.customStyles hpage.wellFormed hid hcomponent htag, Page.customStyles, h.frame.head]
  · intro s hs
    obtain ⟨el', hel', hcustom, _⟩ := hpage.wellFormed.of_mem_customStyles hs
    have hne : s ≠ id := by
      rintro rfl
      obtain rfl := Option.some.inj (hid.symm.trans hel')
      rw [Page.isCustomStyle_eq_false (tag_ne_style hcomponent)] at hcustom
      cases hcustom
    -- a custom style holds no elements, so no link in it leads to the copy
    have hmap : (page.children s).map (heir page id) = (page.children s).map fun c => c :=
      List.map_congr_left fun c hc => heir_of_ne fun heq => by
        have hnone := hpage.texts s hs c hc
        rw [heq, hid] at hnone
        cases hnone
    rw [h.children s (Page.has_of_element? hel') hne, hmap, List.map_id']

end Rendering

/-! ## The balance -/

/-- The budget shows the size of the stylesheet up to the limit, and the stylesheet has not grown over the
limit unless it was that large before. -/
structure Page.Balanced (most : Nat) (page : Page) : Prop where
  tidy : page.Tidy
  limit : page.budget.limit = Css.maxCustomBytes
  used : page.budget.used = min Css.maxCustomBytes page.customBytes
  bounded : page.customBytes ≤ max Css.maxCustomBytes most

namespace Page.Balanced

variable {most : Nat}

/-- A write that leaves the stylesheet alone keeps the balance. -/
theorem keeps (h : page.Balanced most) (hkeeps : page.Keeps page') : page'.Balanced most := by
  have hbytes : page'.customBytes = page.customBytes := by
    rw [customBytes_eq, customBytes_eq, hkeeps.customText h.tidy]
  exact
    { tidy := hkeeps.tidy h.tidy
      limit := by rw [hkeeps.budget]; exact h.limit
      used := by rw [hkeeps.budget, hbytes]; exact h.used
      bounded := by rw [hbytes]; exact h.bounded }

/-- The stylesheet says nothing of generated identifiers. -/
theorem withNextGenerated (h : page.Balanced most) (n : Nat) :
    ({ page with nextGenerated := n } : Page).Balanced most := by
  have htidy : ({ page with nextGenerated := n } : Page).Tidy := h.tidy.withCounters page.budget n
  have hbytes : ({ page with nextGenerated := n } : Page).customBytes = page.customBytes := by
    have hsame := h.tidy.customText_withCounters page.budget n
    rw [customBytes_eq, customBytes_eq, ← hsame]
  exact ⟨htidy, h.limit, by rw [hbytes]; exact h.used, by rw [hbytes]; exact h.bounded⟩

/-- Rules go into the stylesheet only as far as the budget has room for them. When a stylesheet over the
limit was loaded, there is room for none. -/
theorem append (h : page.Balanced most) {css : String} {budget : Budget}
    (hroom : page.budget.allocate? css.utf8ByteSize = some budget) :
    ({ page with budget }.appendCustomCss css).Balanced most := by
  obtain ⟨hfits, hlimit, hused⟩ := Css.Budget.allocate?_eq_some hroom
  have htidy : ({ page with budget } : Page).Tidy := h.tidy.withCounters budget page.nextGenerated
  have hbudget : ({ page with budget }.appendCustomCss css).budget = budget :=
    (Page.appendCustomCss_sameFrame css).budget
  have hbytes : ({ page with budget }.appendCustomCss css).customBytes
      = page.customBytes + css.utf8ByteSize := by
    have hsame := h.tidy.customText_withCounters budget page.nextGenerated
    rw [customBytes_eq, htidy.wellFormed.customText_appendCustomCss, String.utf8ByteSize_append, hsame,
      ← customBytes_eq]
  -- the rest is arithmetic: over the limit nothing is left, so what fits is empty
  have hleft := page.budget.used_add_remaining
  have hpageLimit := h.limit
  have hpageUsed := h.used
  have hbounded := h.bounded
  exact
    { tidy := htidy.appendCustomCss css
      limit := by rw [hbudget, hlimit, h.limit]
      used := by rw [hbudget, hbytes, hused]; omega
      bounded := by rw [hbytes]; omega }

end Page.Balanced

namespace Rendering

variable {most : Nat}

/-- Each edit keeps the balance between the budget and the text, by its four cases. -/
theorem Edit.balanced (h : page.Balanced most) (he : Edit page page') : page'.Balanced most := by
  cases he with
  | count n => exact h.withNextGenerated n
  | change hid hf => exact h.keeps (h.tidy.mapElement hf.neutral)
  | append hroom => exact h.append hroom
  | apply hid hcomponent layout width height heightsConverted =>
    exact h.keeps ((replaced_applyLayout h.tidy.wellFormed hid hcomponent layout width height
      heightsConverted).keeps h.tidy hid hcomponent (tag_rendered layout width height _))

theorem Edits.balanced (h : page.Balanced most) (he : Edits page page') : page'.Balanced most := by
  induction he with
  | refl => exact h
  | tail _ hstep ih => exact hstep.balanced ih

/-- Removing the boilerplate keeps the styles of a tidy page. -/
theorem removeBoilerplate_keeps (h : page.Tidy) : page.Keeps (removeBoilerplate page) := by
  have hset : page.Keeps (page.setAttribute page.root Vocabulary.noBoilerplateMarker "") :=
    h.setAttribute (by decide)
  refine hset.trans (Boilerplate.detachAll_keeps (hset.tidy h) fun y hy => ?_)
  obtain ⟨hchild, hgone⟩ := List.mem_filter.mp hy
  exact ⟨hchild, Bool.or_eq_true .. ▸ hgone⟩

/-- A run of the pass keeps the balance. -/
theorem run_balanced (h : page.Balanced most) (s : Settings.Rendering) :
    (run s page).page.Balanced most := by
  by_cases hmarked : page.hasAttribute page.root Vocabulary.layoutMarker = true
  · rw [run_of_marked hmarked]
    exact h
  · rw [Bool.not_eq_true] at hmarked
    have hstart : (marked page).Balanced most := h.keeps (h.tidy.setAttribute (by decide))
    have hfinished := (finished_yields h.tidy.wellFormed).edits.balanced hstart
    rw [run_of_unmarked hmarked]
    generalize finished page = result at hfinished
    split
    · exact hfinished.keeps (removeBoilerplate_keeps hfinished.tidy)
    · exact hfinished

end Rendering

end AmpTuner
