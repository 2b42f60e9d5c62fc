import AmpTuner.Proofs.Page.Tidy
import AmpTuner.Proofs.HeadOrder.Arrangement

/-!
# The order of the head and its custom styles

Ordering the head takes all children out and puts them back in their slots. The custom styles come back
in the order they had: the first one has a slot to itself, the others go with the rest, right behind
that slot, and sorting a slot is stable.

* **`arranged_customStyles`**: the list of custom styles is the same before and after.
* **`keeps`**: the pass is one of those that leave the stylesheet alone.
-/

namespace AmpTuner.HeadOrder

open Markup (Element)
open Vocabulary (isCustomStyle isRuntimeStyle isBoilerplateStyle)

variable {page : Page} {slot : NodeId → HeadSlot} {x y : NodeId}

/-! ## Where custom styles are placed -/

/-- A custom style asks for the slot of custom styles, if it is nothing else. -/
theorem ofElement_of_isCustomStyle {el : Element} (hcustom : isCustomStyle el = true)
    (hruntime : isRuntimeStyle el = false) (hboilerplate : isBoilerplateStyle el = false)
    (afterCustom : Bool) : HeadSlot.ofElement el afterCustom = .customStyle := by
  have htag : el.tag = "style" := by
    simp only [isCustomStyle, Bool.and_eq_true, beq_iff_eq] at hcustom
    exact hcustom.1
  simp [HeadSlot.ofElement, htag, HeadSlot.ofStyle, hruntime, hboilerplate, hcustom]

/-- Ordering the head keeps the page well formed. -/
theorem run_wellFormed (h : page.WellFormed) : (run page).WellFormed := by
  have hchildren (x : NodeId) := children_run (x := x) h.linked h.has_head
  refine h.of_kinds run_sameFrame (fun _ => kind?_run) (run_linked h.linked h.has_head) ?_ ?_ ?_
  · rw [parent?_run h.linked, h.parent?_root, ite_self]
  · rw [hchildren, if_neg h.head_ne_root.symm, h.children_root]
  · intro x hx
    rw [hchildren, if_neg, h.leaf x hx]
    -- the head is an element
    rintro rfl
    have hsome := h.isSome_element?_head
    rw [hx] at hsome
    cases hsome

section Tidy

variable (h : page.Tidy)

include h

/-- On a tidy page all custom styles ask for that slot. -/
theorem asks_of_mem_customStyles (hx : x ∈ page.customStyles) : Asks page x .customStyle := by
  obtain ⟨el, hel, hcustom⟩ := Page.isElement_iff.mp (List.mem_filter.mp hx).2
  have hruntime := h.notRuntime x hx
  have hboilerplate := h.notBoilerplate x hx
  rw [isElement_of_element? hel] at hruntime hboilerplate
  exact asks_iff.mpr ⟨el, hel, ofElement_of_isCustomStyle hcustom hruntime hboilerplate _⟩

/-- Custom styles are not sorted among each other. -/
theorem keyOf_of_mem_customStyles (hx : x ∈ page.customStyles) : keyOf page x = {} := by
  obtain ⟨el, hel, hasked⟩ := asks_iff.mp (asks_of_mem_customStyles h hx)
  have hsorted : ¬ (HeadSlot.ofElement el false).isSorted = true := by
    rw [hasked]
    decide
  exact keyOf_of_not_isSorted hel hsorted

/-- Of two custom styles, the one that stands in front in the new order did so before. -/
theorem pair_sublist_of_arrange (hslot : IsSlotting page (page.children page.head) slot)
    (hx : x ∈ page.customStyles) (hy : y ∈ page.customStyles)
    (hxy : [x, y].Sublist (arrange page slot (visible page (page.children page.head)))) :
    [x, y].Sublist (page.children page.head) := by
  have hlinked := h.wellFormed.linked
  have hnodup := hlinked.nodup page.head
  have hvisible := nodup_visible hlinked
  have hne : x ≠ y := fun heq => by simpa [heq] using hxy.nodup (nodup_arrange hvisible)
  -- each has the slot of the stylesheet, or the one in front has it
  have taken {z : NodeId} (hz : z ∈ page.customStyles) : slot z = .customStyle
      ∨ slot z = .other ∧ ∃ w, [w, z].Sublist (page.children page.head) ∧ slot w = .customStyle := by
    obtain ⟨before, after, hnodes⟩ := List.append_of_mem (List.mem_filter.mp hz).1
    rw [hnodes] at hslot hnodup
    refine (hslot.taken rfl (asks_of_mem_customStyles h hz)).imp_right fun ⟨hother, w, hw, hcustom⟩ => ?_
    rw [hnodes]
    exact ⟨hother, w, (mem_before_iff hnodup).mp hw, hcustom⟩
  have eq_of_slot {w z : NodeId} (hw : w ∈ page.children page.head) (hz : z ∈ page.children page.head)
      (hslotW : slot w = .customStyle) (hslotZ : slot z = .customStyle) : w = z :=
    hslot.eq_of_isSingle hw hz (hslotW.trans hslotZ.symm) (by rw [hslotW]; rfl)
  have hle := List.pairwise_iff_forall_sublist.mp pairwise_rank hxy
  have hxC := (List.mem_filter.mp hx).1
  have hyC := (List.mem_filter.mp hy).1
  rcases taken hx with hslotX | ⟨hslotX, _⟩
  · rcases taken hy with hslotY | ⟨_, w, hwy, hslotW⟩
    · exact absurd (eq_of_slot hxC hyC hslotX hslotY) hne
    · rwa [eq_of_slot hxC (hwy.subset List.mem_cons_self) hslotX hslotW]
  · rcases taken hy with hslotY | ⟨hslotY, _⟩
    · rw [hslotX, hslotY] at hle
      exact absurd hle (by decide)
    -- both are with the rest, where neither has a key
    · have hfilter := hxy.filter (slot · == .other)
      rw [filter_arrange] at hfilter
      have hpair : [x, y].Sublist (inSlot page slot (visible page (page.children page.head)) .other) := by
        simpa [hslotX, hslotY] using hfilter
      refine (pair_sublist_of_inSlot hvisible hpair ?_).trans List.filter_sublist
      rw [keyOf_of_mem_customStyles h hx, keyOf_of_mem_customStyles h hy]

/-- The custom styles stand in the new order as they did in the old one. -/
theorem arranged_customStyles :
    (arranged page).filter (page.isElement · isCustomStyle) = page.customStyles := by
  have hnodup := h.wellFormed.linked.nodup page.head
  obtain ⟨slot, hslot, harranged⟩ := exists_slotting h.wellFormed.linked
  have hmem {x : NodeId} (hx : x ∈ (arranged page).filter (page.isElement · isCustomStyle)) :
      x ∈ page.customStyles := by
    obtain ⟨hx, hcustom⟩ := List.mem_filter.mp hx
    exact List.mem_filter.mpr ⟨((mem_arranged h.wellFormed.linked).mp hx).1, hcustom⟩
  have hperm : ((arranged page).filter (page.isElement · isCustomStyle)).Perm page.customStyles := by
    refine (List.perm_ext_iff_of_nodup ((nodup_arranged h.wellFormed.linked).filter _)
      (hnodup.filter _)).mpr fun x => ⟨hmem, fun hx => ?_⟩
    obtain ⟨hxC, hcustom⟩ := List.mem_filter.mp hx
    obtain ⟨el, hel, _⟩ := Page.isElement_iff.mp hcustom
    have hplace : x ∈ arranged page :=
      (mem_arranged h.wellFormed.linked).mpr ⟨hxC, isBlankText_of_element? hel⟩
    exact List.mem_filter.mpr ⟨hplace, hcustom⟩
  -- both lists hold the same styles, and in both they stand as they stood in the head
  have hnew : ((arranged page).filter (page.isElement · isCustomStyle)).Pairwise
      fun x y => [x, y].Sublist (page.children page.head) := by
    rw [List.pairwise_iff_forall_sublist]
    intro x y hxy
    refine pair_sublist_of_arrange h hslot (hmem (hxy.subset (by simp))) (hmem (hxy.subset (by simp))) ?_
    exact harranged ▸ hxy.trans List.filter_sublist
  have hold : page.customStyles.Pairwise fun x y => [x, y].Sublist (page.children page.head) := by
    rw [List.pairwise_iff_forall_sublist]
    exact fun hxy => hxy.trans List.filter_sublist
  exact hperm.eq_of_pairwise (fun x y _ _ hxy hyx => absurd hyx (not_pair_sublist_swap hnodup hxy)) hnew hold

/-- Ordering the head keeps the custom styles. -/
theorem keeps : page.Keeps (run page) := by
  have hchildren (x : NodeId) := children_run (x := x) h.wellFormed.linked h.wellFormed.has_head
  refine h.keeps_of_kinds run_sameFrame (fun _ _ => kind?_run) ?_ ?_ (run_wellFormed h.wellFormed)
  · rw [hchildren, if_pos rfl, ← arranged_customStyles h]
    exact List.filter_congr fun c _ => Page.isElement_congr (Page.element?_congr kind?_run) _
  · intro s hs
    obtain ⟨_, _, _, hne, _⟩ := h.wellFormed.of_mem_customStyles hs
    rw [hchildren, if_neg hne]

end Tidy

end AmpTuner.HeadOrder
