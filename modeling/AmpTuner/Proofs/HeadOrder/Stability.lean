import AmpTuner.Proofs.HeadOrder.Rerun
import Mathlib.Data.String.Basic

/-!
# What ordering the head leaves in order

The sort is stable and most children have no key to be sorted by, so that two children of one slot stay
in the order they had. A key is given out before a child may have to go with the rest, though: a second
runtime script takes its key along, and is sorted behind what has none.

For style sheets the order decides which rule wins. A link goes in front of the custom style or with the
rest behind it, by where it stood. The link to a second runtime style sheet is surplus and goes with the
rest from wherever it stood.

* **`pair_sublist_arrange`** and **`pair_sublist_arrange_of_rank_lt`** say which pairs stand in order.
* **`InCascade`** and **`IsSlotting.inCascade_cases`**: the slots that style sheets can have.
* **`pair_sublist_of_inCascade`** and **`InCascade.swapped_of_asks`**: style sheets stay in order, but for the surplus
  link.
* **`stable_run`** is the result for the pass.
-/

namespace AmpTuner.HeadOrder

open Markup (Element)

variable {page : Page} {slot : NodeId → HeadSlot} {nodes before after : List NodeId} {x y : NodeId}

/-! ## Pairs in the new order -/

/-- Of two nodes in one slot, the first stays in front unless its key is the larger one. -/
theorem pair_sublist_arrange (hxy : [x, y].Sublist nodes) (hslot : slot x = slot y)
    (hle : keyLe page x y = true) : [x, y].Sublist (arrange page slot nodes) := by
  have hfilter : [x, y].Sublist (nodes.filter (slot · == slot x)) := by
    simpa [hslot] using hxy.filter (slot · == slot x)
  have hsorted : [x, y].Sublist (inSlot page slot nodes (slot x)) :=
    List.pair_sublist_mergeSort keyLe_trans keyLe_total hle hfilter
  rw [← filter_arrange] at hsorted
  exact hsorted.trans List.filter_sublist

/-- A node of an earlier slot stands in front, wherever it stood. -/
theorem pair_sublist_arrange_of_rank_lt (hx : x ∈ nodes) (hy : y ∈ nodes)
    (hlt : (slot x).rank < (slot y).rank) : [x, y].Sublist (arrange page slot nodes) := by
  have hne : x ≠ y := fun heq => by rw [heq] at hlt; omega
  rcases pair_sublist_or (mem_arrange.mpr hx) (mem_arrange.mpr hy) hne with hxy | hyx
  · exact hxy
  · have hle : (slot y).rank ≤ (slot x).rank := List.pairwise_iff_forall_sublist.mp pairwise_rank hyx
    omega

/-- Nodes of one slot come out in the order of their keys. -/
theorem keyLe_of_pair_sublist_arrange (hxy : [x, y].Sublist (arrange page slot nodes))
    (hslot : slot x = slot y) : keyLe page x y = true := by
  have hfilter : [x, y].Sublist ((arrange page slot nodes).filter (slot · == slot x)) := by
    simpa [hslot] using hxy.filter (slot · == slot x)
  rw [filter_arrange] at hfilter
  exact List.pairwise_iff_forall_sublist.mp pairwise_inSlot hfilter

theorem Key.default_le (a : Key) : Key.le {} a = true := by
  by_cases hlt : "" < a.name
  · simp [Key.le, hlt]
  · have hempty : ¬ a.name < "" := by
      rw [String.lt_iff_toList_lt]
      exact List.not_lt_nil _
    have heq : "" = a.name := String.le_antisymm (String.not_lt.mp hempty) (String.not_lt.mp hlt)
    simp [Key.le, ← heq]

/-- A child that is not sorted has no key, and neither has one that went with the rest, unless it is a
second runtime script. -/
theorem IsSlotting.keyOf_eq (h : IsSlotting page nodes slot) (hx : x ∈ nodes)
    (hsorted : (slot x).isSorted = false) (hruntime : ¬ Asks page x .runtimeScript) :
    keyOf page x = {} := by
  cases hel : page.element? x with
  | none => rw [keyOf, hel]
  | some el =>
    refine keyOf_of_not_isSorted hel fun hasked : (HeadSlot.ofElement el false).isSorted = true => ?_
    obtain ⟨hearly, hother⟩ := HeadSlot.ne_of_isSorted hasked
    have hne : HeadSlot.ofElement el false ≠ .runtimeScript := fun heq =>
      hruntime (asks_iff.mpr ⟨el, hel, heq⟩)
    obtain ⟨before, after, -, hslot⟩ := h.exists_split hx
    have hgot : slotBehind page slot before x = HeadSlot.ofElement el false :=
      (slotBehind_eq_iff hother).mpr
        ⟨el, hel, (HeadSlot.ofElement_eq_iff hearly hother _).mpr rfl, .of_isSorted hasked hne⟩
    rw [hslot, hgot, hasked] at hsorted
    cases hsorted

/-! ## Style sheets -/

/-- A link to a style sheet. -/
def isStylesheetLink (el : Element) : Bool := el.tag == "link" && (el.tokens "rel").contains "stylesheet"

/-- The child is a style sheet whose rules compete with the custom ones: a link that is not placed as the
runtime style sheet, or the custom style itself. -/
def InCascade (page : Page) (slot : NodeId → HeadSlot) (x : NodeId) : Prop :=
  slot x = .customStyle ∨ page.isElement x isStylesheetLink = true ∧ slot x ≠ .runtimeStylesheet

/-- What a link to a style sheet asks for depends on the runtime and on the custom style. -/
theorem ofElement_of_isStylesheetLink {el : Element} (hlink : isStylesheetLink el = true)
    (afterCustom : Bool) : HeadSlot.ofElement el afterCustom
      = if Vocabulary.isRuntimeStylesheet el then .runtimeStylesheet
        else if afterCustom then .other else .earlyStylesheet := by
  unfold isStylesheetLink at hlink
  rw [Bool.and_eq_true, beq_iff_eq] at hlink
  simp only [HeadSlot.ofElement, hlink.1, HeadSlot.ofLink, hlink.2, if_true]

/-- A style sheet is the custom one, in front of it, behind it, or surplus. -/
theorem IsSlotting.inCascade_cases (h : IsSlotting page (before ++ x :: after) slot)
    (hx : InCascade page slot x) :
    slot x = .customStyle
      ∨ slot x = .earlyStylesheet ∧ (∀ y ∈ before, slot y ≠ .customStyle)
      ∨ slot x = .other ∧ ((∃ y ∈ before, slot y = .customStyle) ∨ Asks page x .runtimeStylesheet) := by
  rcases hx with hcustom | ⟨hlink, hslot⟩
  · exact .inl hcustom
  obtain ⟨el, hel, hlink⟩ := Page.isElement_iff.mp hlink
  have hasked := ofElement_of_isStylesheetLink hlink
  by_cases hruntime : Vocabulary.isRuntimeStylesheet el = true
  · have hasks : Asks page x .runtimeStylesheet :=
      asks_iff.mpr ⟨el, hel, by rw [hasked, if_pos hruntime]⟩
    obtain ⟨hother, -⟩ := (h.taken rfl hasks).resolve_left hslot
    exact .inr (.inr ⟨hother, .inr hasks⟩)
  simp only [if_neg hruntime] at hasked
  have hbehind := h before x after rfl
  by_cases hcustom : ∃ y ∈ before, slot y = .customStyle
  · refine .inr (.inr ⟨?_, .inl hcustom⟩)
    by_contra hother
    obtain ⟨el', hel', hgot, -⟩ := (slotBehind_eq_iff hother).mp hbehind.symm
    obtain rfl := Option.some.inj (hel.symm.trans hel')
    obtain ⟨y, hy, hslotY⟩ := hcustom
    have hflag : before.any (slot · == .customStyle) = true :=
      List.any_eq_true.mpr ⟨y, hy, beq_iff_eq.mpr hslotY⟩
    rw [hasked, hflag] at hgot
    exact hother hgot.symm
  · push Not at hcustom
    refine .inr (.inl ⟨?_, hcustom⟩)
    have hflag : before.any (slot · == .customStyle) = false :=
      List.any_eq_false.mpr fun y hy heq => hcustom y hy (beq_iff_eq.mp heq)
    -- there is always room in front of the custom style
    have hgot : slotBehind page slot before x = .earlyStylesheet := by
      refine (slotBehind_eq_iff (by decide)).mpr ⟨el, hel, ?_, ?_, ?_⟩
      · rw [hasked, hflag]
        rfl
      · exact fun hsingle => by cases hsingle
      · exact fun heq => by cases heq
    exact hbehind.trans hgot

theorem pair_sublist_visible (hxy : [x, y].Sublist nodes) (hx : isBlankText page x = false)
    (hy : isBlankText page y = false) : [x, y].Sublist (visible page nodes) := by
  simpa [visible, hx, hy] using hxy.filter (!isBlankText page ·)

/-- Outside the sorted slots the nodes of one slot stay in order. -/
theorem IsSlotting.pair_sublist_of_slot_eq (h : IsSlotting page nodes slot) (hxy : [x, y].Sublist nodes)
    (hx : x ∈ arrange page slot (visible page nodes)) (hy : y ∈ arrange page slot (visible page nodes))
    (hsame : slot x = slot y) (hsorted : (slot x).isSorted = false) (hruntime : ¬ Asks page x .runtimeScript) :
    [x, y].Sublist (arrange page slot (visible page nodes)) := by
  have hvisible {z : NodeId} (hz : z ∈ arrange page slot (visible page nodes)) : isBlankText page z = false :=
    (Bool.not_eq_true' _).mp (List.mem_filter.mp (mem_arrange.mp hz)).2
  refine pair_sublist_arrange (pair_sublist_visible hxy (hvisible hx) (hvisible hy)) hsame ?_
  rw [keyLe, h.keyOf_eq (hxy.subset (by simp)) hsorted hruntime]
  exact Key.default_le _

section Cascade

variable (h : IsSlotting page nodes slot)

include h

/-- A style sheet is an element, and no script. -/
theorem InCascade.exists_element? (hx : InCascade page slot x) (hmem : x ∈ nodes) :
    ∃ el, page.element? x = some el ∧ ¬ (HeadSlot.ofElement el false).isSorted = true := by
  rcases hx with hcustom | ⟨hlink, -⟩
  · obtain ⟨el, hel, hasked⟩ := asks_iff.mp (h.asks hmem rfl hcustom)
    exact ⟨el, hel, by rw [hasked]; decide⟩
  · obtain ⟨el, hel, hlink⟩ := Page.isElement_iff.mp hlink
    refine ⟨el, hel, ?_⟩
    rw [ofElement_of_isStylesheetLink hlink]
    split <;> decide

theorem InCascade.slot_cases (hx : InCascade page slot x) (hmem : x ∈ nodes) :
    slot x = .customStyle ∨ slot x = .earlyStylesheet ∨ slot x = .other := by
  obtain ⟨before, after, rfl⟩ := List.append_of_mem hmem
  exact (h.inCascade_cases hx).imp_right fun hcases => hcases.imp And.left And.left

/-- A second runtime style sheet goes with the rest. -/
theorem InCascade.other_of_asks (hx : InCascade page slot x) (hmem : x ∈ nodes)
    (hasks : Asks page x .runtimeStylesheet) : slot x = .other := by
  obtain ⟨before, after, rfl⟩ := List.append_of_mem hmem
  refine ((h.taken rfl hasks).resolve_left fun hslot => ?_).1
  rcases hx with hcustom | ⟨-, hne⟩
  · rw [hslot] at hcustom
    cases hcustom
  · exact hne hslot

/-- Style sheets are not left out. -/
theorem InCascade.pair_sublist_visible (hx : InCascade page slot x) (hy : InCascade page slot y)
    (hxy : [x, y].Sublist nodes) : [x, y].Sublist (visible page nodes) := by
  obtain ⟨_, helX, -⟩ := hx.exists_element? h (hxy.subset (by simp))
  obtain ⟨_, helY, -⟩ := hy.exists_element? h (hxy.subset (by simp))
  exact HeadOrder.pair_sublist_visible hxy (isBlankText_of_element? helX) (isBlankText_of_element? helY)

/-- A second runtime style sheet makes way for a style sheet that has a slot. -/
theorem InCascade.swapped_of_asks (hx : InCascade page slot x) (hy : InCascade page slot y)
    (hxy : [x, y].Sublist nodes) (hasks : Asks page x .runtimeStylesheet) (hother : slot y ≠ .other) :
    [y, x].Sublist (arrange page slot (visible page nodes)) := by
  have hvisible := hx.pair_sublist_visible h hy hxy
  refine pair_sublist_arrange_of_rank_lt (hvisible.subset (by simp)) (hvisible.subset (by simp)) ?_
  rw [hx.other_of_asks h (hxy.subset (by simp)) hasks]
  rcases hy.slot_cases h (hxy.subset (by simp)) with hslotY | hslotY | hslotY
  · rw [hslotY]
    decide
  · rw [hslotY]
    decide
  · exact absurd hslotY hother

variable (hnodup : nodes.Nodup)

include hnodup

/-- Behind the custom style, a style sheet goes with the rest. -/
theorem other_of_inCascade (hxy : [x, y].Sublist nodes) (hx : slot x = .customStyle)
    (hy : InCascade page slot y) : slot y = .other := by
  have hmemX : x ∈ nodes := hxy.subset (by simp)
  have hmemY : y ∈ nodes := hxy.subset (by simp)
  have hne : x ≠ y := fun heq => by simpa [heq] using hxy.nodup hnodup
  obtain ⟨before, after, rfl⟩ := List.append_of_mem hmemY
  have hbefore : x ∈ before := (mem_before_iff hnodup).mpr hxy
  rcases h.inCascade_cases hy with hslot | ⟨-, hnone⟩ | ⟨hslot, -⟩
  · exact absurd (h.eq_of_isSingle hmemX hmemY (hx.trans hslot.symm) (by rw [hx]; rfl)) hne
  · exact absurd hx (hnone x hbefore)
  · exact hslot

/-- Two style sheets of which the first does not have to make way: they have one slot, or the first has
the earlier one. -/
theorem slot_of_inCascade (hxy : [x, y].Sublist nodes) (hx : InCascade page slot x)
    (hy : InCascade page slot y) (hstays : Asks page x .runtimeStylesheet → slot y = .other) :
    slot x = slot y ∨ (slot x).rank < (slot y).rank := by
  have hslotsY := hy.slot_cases h (hxy.subset (by simp))
  obtain ⟨before, after, rfl⟩ := List.append_of_mem (hxy.subset (by simp : x ∈ [x, y]))
  rcases h.inCascade_cases hx with hslotX | ⟨hslotX, -⟩ | ⟨hslotX, hlate⟩
  · rw [hslotX, other_of_inCascade h hnodup hxy hslotX hy]
    exact .inr (by decide)
  · rw [hslotX]
    rcases hslotsY with hslotY | hslotY | hslotY <;> rw [hslotY] <;> decide
  -- with the rest there is what follows the custom style, and what is surplus
  · left
    rw [hslotX]
    rcases hlate with ⟨z, hz, hcustom⟩ | hasks
    · have hzy : [z, y].Sublist (before ++ x :: after) :=
        (List.singleton_sublist.mpr hz).append
          (List.singleton_sublist.mpr (List.mem_cons_of_mem x (mem_after_of_pair_sublist hnodup hxy)))
      exact (other_of_inCascade h hnodup hzy hcustom hy).symm
    · exact (hstays hasks).symm

/-- And so they stay in order. -/
theorem pair_sublist_of_inCascade (hxy : [x, y].Sublist nodes) (hx : InCascade page slot x)
    (hy : InCascade page slot y) (hstays : Asks page x .runtimeStylesheet → slot y = .other) :
    [x, y].Sublist (arrange page slot (visible page nodes)) := by
  have hvisible := hx.pair_sublist_visible h hy hxy
  rcases slot_of_inCascade h hnodup hxy hx hy hstays with hsame | hlt
  · obtain ⟨el, hel, hsorted⟩ := hx.exists_element? h (hxy.subset (by simp))
    refine pair_sublist_arrange hvisible hsame ?_
    rw [keyLe, keyOf_of_not_isSorted hel hsorted]
    exact Key.default_le _
  · exact pair_sublist_arrange_of_rank_lt (hvisible.subset (by simp)) (hvisible.subset (by simp)) hlt

end Cascade

/-! ## The pass -/

/-- What stays in order when the children of the head have these slots. -/
structure Stable (page : Page) (slot : NodeId → HeadSlot) (page' : Page) : Prop where
  inSlot : ∀ x y, [x, y].Sublist (page.children page.head) → x ∈ page'.children page.head →
    y ∈ page'.children page.head → slot x = slot y → (slot x).isSorted = false →
    ¬ Asks page x .runtimeScript → [x, y].Sublist (page'.children page.head)
  cascade : ∀ x y, [x, y].Sublist (page.children page.head) → InCascade page slot x →
    InCascade page slot y → (Asks page x .runtimeStylesheet → slot y = .other) →
    [x, y].Sublist (page'.children page.head)
  /-- A second runtime style sheet goes behind every style sheet that has a slot. -/
  surplus : ∀ x y, [x, y].Sublist (page.children page.head) → InCascade page slot x →
    InCascade page slot y → Asks page x .runtimeStylesheet → slot y ≠ .other →
    [y, x].Sublist (page'.children page.head)

/-- Outside the sorted slots the pass keeps the children in order, but for second runtime scripts, and it
keeps style sheets in order but for second runtime style sheets. -/
theorem stable_run (h : page.Linked) (hhead : page.Has page.head) :
    (∃ slot, IsSlotting page (page.children page.head) slot)
      ∧ ∀ slot, IsSlotting page (page.children page.head) slot → Stable page slot (run page) := by
  have hnodup := h.nodup page.head
  refine ⟨exists_isSlotting hnodup, fun slot hslot => ?_⟩
  have hchildren := children_head_run h hhead hslot
  refine { inSlot := ?_, cascade := ?_, surplus := ?_ } <;> rw [hchildren]
  · intro x y hxy hx hy hsame hsorted hruntime
    exact hslot.pair_sublist_of_slot_eq hxy hx hy hsame hsorted hruntime
  · intro x y hxy hx hy hstays
    exact pair_sublist_of_inCascade hslot hnodup hxy hx hy hstays
  · intro x y hxy hx hy hasks hother
    exact hx.swapped_of_asks hslot hy hxy hasks hother

/-- A head whose second runtime script and second runtime style sheet each stand in front of something
that they end up behind. -/
def doubledRuntime : Markup.Document :=
  ⟨none, [.element ⟨"head", []⟩
    [.element ⟨"script", [⟨"src", "/v0.js"⟩]⟩ [],
      .element ⟨"script", [⟨"src", "/again/v0.js"⟩]⟩ [],
      .element ⟨"title", []⟩ [],
      .element ⟨"link", [⟨"rel", "stylesheet"⟩, ⟨"href", "/v0.css"⟩]⟩ [],
      .element ⟨"link", [⟨"rel", "stylesheet"⟩, ⟨"href", "/again/v0.css"⟩]⟩ [],
      .element ⟨"link", [⟨"rel", "stylesheet"⟩, ⟨"href", "early.css"⟩]⟩ [],
      .element ⟨"style", [⟨"amp-custom", ""⟩]⟩ []]]⟩

/-- A head with all that keeps its order, and the one script that does not. -/
theorem stable_doubledRuntime :
    let page := Page.ofDocument doubledRuntime
    page.Linked ∧ page.Has page.head
      ∧ (∃ slot, IsSlotting page (page.children page.head) slot)
      ∧ ∀ slot, IsSlotting page (page.children page.head) slot → Stable page slot (run page) := by
  have h := Page.ofDocument_wellFormed doubledRuntime
  exact ⟨h.linked, h.has_head, stable_run h.linked h.has_head⟩

/-- Neither half holds without its exception: the second runtime script ends up behind the title, and the
second runtime style sheet behind the early one. -/
theorem reordered_doubledRuntime :
    let page := Page.ofDocument doubledRuntime
    ∃ slot, IsSlotting page (page.children page.head) slot
      ∧ ¬ (∀ x y, [x, y].Sublist (page.children page.head) → x ∈ (run page).children page.head →
        y ∈ (run page).children page.head → slot x = slot y → (slot x).isSorted = false →
        [x, y].Sublist ((run page).children page.head))
      ∧ ¬ (∀ x y, [x, y].Sublist (page.children page.head) → InCascade page slot x →
        InCascade page slot y → [x, y].Sublist ((run page).children page.head)) := by
  intro page
  have h := Page.ofDocument_wellFormed doubledRuntime
  obtain ⟨slot, hslot⟩ : ∃ slot, IsSlotting page (page.children page.head) slot :=
    exists_isSlotting (h.linked.nodup page.head)
  have hplaced {p : Placement} (hp : p ∈ (page.children page.head).foldl (place page) []) :
      slot p.node = p.slot := hslot.slot_of_mem_foldl_place (fun x hx => h.linked.has_child hx) hp
  have hscript : slot ⟨4⟩ = .other :=
    hplaced (p := ⟨.other, ⟨"/again/v0.js", 1⟩, ⟨4⟩⟩) (by decide +kernel)
  have htitle : slot ⟨5⟩ = .other := hplaced (p := ⟨.other, {}, ⟨5⟩⟩) (by decide +kernel)
  have hsecond : slot ⟨7⟩ = .other := hplaced (p := ⟨.other, {}, ⟨7⟩⟩) (by decide +kernel)
  have hearly : slot ⟨8⟩ = .earlyStylesheet :=
    hplaced (p := ⟨.earlyStylesheet, {}, ⟨8⟩⟩) (by decide +kernel)
  refine ⟨slot, hslot, ?_⟩
  rw [children_head_run h.linked h.has_head hslot]
  constructor
  · intro hstable
    have hpair := hstable ⟨4⟩ ⟨5⟩ (by decide +kernel) (mem_arrange.mpr (by decide +kernel))
      (mem_arrange.mpr (by decide +kernel)) (hscript.trans htitle.symm) (by rw [hscript]; rfl)
    have hle := keyLe_of_pair_sublist_arrange hpair (hscript.trans htitle.symm)
    exact absurd hle (by decide +kernel)
  · intro hstable
    have hpair := hstable ⟨7⟩ ⟨8⟩ (by decide +kernel) (.inr ⟨by decide +kernel, by rw [hsecond]; decide⟩)
      (.inr ⟨by decide +kernel, by rw [hearly]; decide⟩)
    have hle : (slot ⟨7⟩).rank ≤ (slot ⟨8⟩).rank := List.pairwise_iff_forall_sublist.mp pairwise_rank hpair
    rw [hsecond, hearly] at hle
    exact absurd hle (by decide)

end AmpTuner.HeadOrder
