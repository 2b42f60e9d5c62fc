import AmpTuner.Proofs.HeadOrder.Arrangement

/-!
# Ordering the head twice

The second run meets the children in the order of the first one. A child that was surplus then is surplus
again when the holder of its slot stands in front of it, and it does unless the slot comes behind the rest.
The two slots that do are those of the boilerplate: of two boilerplate styles, or two noscripts, the one
that had to go with the rest stands in front the next time and takes the slot from the other.

* **`arrange_eq_self`**: otherwise the slots are the same in the new order, which stays.
* **`arrange_ne_self`**: with two of a kind there the orders differ.
* **`children_run_run_iff`** puts both together.
-/

namespace AmpTuner.HeadOrder

open Markup (Element)

variable {page : Page} {slot slot' : NodeId → HeadSlot} {nodes before after : List NodeId}
  {x y : NodeId} {s : HeadSlot}

/-- The nodes that ask for the slot. -/
def asking (page : Page) (nodes : List NodeId) (s : HeadSlot) : List NodeId :=
  nodes.filter (page.isElement · (HeadSlot.ofElement · false == s))

theorem mem_asking : x ∈ asking page nodes s ↔ x ∈ nodes ∧ Asks page x s :=
  List.mem_filter

theorem nodup_asking (h : nodes.Nodup) : (asking page nodes s).Nodup := h.filter _

/-! ## Where nodes stand in the new order -/

section Order

variable (horder : arrange page slot nodes = before ++ x :: after)

include horder

theorem rank_le_of_mem_before (hy : y ∈ before) : (slot y).rank ≤ (slot x).rank := by
  have hpairwise : (before ++ x :: after).Pairwise fun x y => (slot x).rank ≤ (slot y).rank :=
    horder ▸ pairwise_rank
  exact (List.pairwise_append.mp hpairwise).2.2 y hy x List.mem_cons_self

/-- Who has an earlier slot stands in front. -/
theorem mem_before_of_rank_lt (hy : y ∈ nodes) (hlt : (slot y).rank < (slot x).rank) : y ∈ before := by
  have hpairwise : (before ++ x :: after).Pairwise fun x y => (slot x).rank ≤ (slot y).rank :=
    horder ▸ pairwise_rank
  have hmem : y ∈ before ++ x :: after := horder ▸ mem_arrange.mpr hy
  rcases List.mem_append.mp hmem with hbefore | hafter
  · exact hbefore
  · rcases List.mem_cons.mp hafter with rfl | hafter
    · exact absurd hlt (Nat.lt_irrefl _)
    · have hle := (List.pairwise_cons.mp (List.pairwise_append.mp hpairwise).2.1).1 y hafter
      omega

end Order

/-- The new order depends on the slots of the nodes alone. -/
theorem arrange_congr (h : ∀ x ∈ nodes, slot' x = slot x) :
    arrange page slot' nodes = arrange page slot nodes := by
  refine List.flatMap_congr fun s _ => ?_
  rw [inSlot, inSlot]
  congr 1
  exact List.filter_congr fun x hx => by rw [h x hx]

/-- What is in the order of its slots stays as it is. -/
theorem arrange_arrange : arrange page slot (arrange page slot nodes) = arrange page slot nodes := by
  conv_lhs => rw [arrange]
  refine List.flatMap_congr fun s _ => ?_
  rw [inSlot, filter_arrange]
  exact List.mergeSort_of_pairwise pairwise_inSlot

/-! ## The slots in the new order -/

theorem rank_other_lt {slot : HeadSlot} (h : ¬ slot.rank < HeadSlot.other.rank) (hother : slot ≠ .other) :
    slot = .boilerplateStyle ∨ slot = .noscript := by
  cases slot <;> first | exact .inl rfl | exact .inr rfl | exact absurd rfl hother | exact absurd (by decide) h

/-- Without a surplus of boilerplate no two nodes ask for one slot behind the rest. -/
theorem eq_of_asks_behind {y : NodeId} {s : HeadSlot} (hnodup : nodes.Nodup)
    (hboilerplate : (asking page nodes .boilerplateStyle).length ≤ 1)
    (hnoscript : (asking page nodes .noscript).length ≤ 1) (hrank : ¬ s.rank < HeadSlot.other.rank)
    (hother : s ≠ .other) (hx : x ∈ asking page nodes s) (hy : y ∈ asking page nodes s) : x = y := by
  have hone : (asking page nodes s).length ≤ 1 := by
    rcases rank_other_lt hrank hother with rfl | rfl
    · exact hboilerplate
    · exact hnoscript
  exact (length_le_one_iff (nodup_asking hnodup)).mp hone x hx y hy

section NewOrder

variable (h : IsSlotting page nodes slot) (hnodup : nodes.Nodup)

include h

theorem mem_visible_of_slot (hx : x ∈ nodes) (hother : slot x ≠ .other) : x ∈ visible page nodes :=
  List.mem_filter.mpr ⟨hx, by rw [h.isBlankText_eq_false hx hother]; rfl⟩

include hnodup

/-- The holder of a slot gets it again. -/
theorem slotBehind_of_ne_other (horder : arrange page slot (visible page nodes) = before ++ x :: after)
    (hother : slot x ≠ .other) : slotBehind page slot before x = slot x := by
  have hmem {y : NodeId} (hy : y ∈ before ++ x :: after) : y ∈ nodes :=
    (List.mem_filter.mp (mem_arrange.mp (horder ▸ hy))).1
  have hx : x ∈ nodes := hmem (by simp)
  have hfront : x ∉ before := not_mem_front_of_nodup (horder ▸ nodup_arrange (hnodup.filter _))
  obtain ⟨earlier, _, _, hslot⟩ := h.exists_split hx
  obtain ⟨el, hel, hasked, _⟩ := (slotBehind_eq_iff hother).mp hslot.symm
  refine (slotBehind_eq_iff hother).mpr
    ⟨el, hel, ?_, h.hasRoom_slot hx hfront fun y hy => hmem (List.mem_append_left _ hy)⟩
  rcases HeadSlot.ofElement_cases el with hconst | ⟨hfalse, htrue⟩
  · rw [hconst] at hasked ⊢
    exact hasked
  -- a style sheet that came before the custom one still does
  · have hearly : slot x = .earlyStylesheet := by
      cases hflag : earlier.any (slot · == .customStyle) <;> rw [hflag] at hasked
      · rw [← hasked, hfalse]
      · exact absurd (hasked.symm.trans htrue) hother
    have hnone : before.any (slot · == .customStyle) = false := by
      rw [List.any_eq_false]
      intro y hy hcustom
      have hle := rank_le_of_mem_before horder hy
      rw [beq_iff_eq.mp hcustom, hearly] at hle
      exact absurd hle (by decide)
    rw [hnone, hfalse, hearly]

/-- What went with the rest goes there again, if no boilerplate was surplus. -/
theorem slotBehind_of_eq_other (hboilerplate : (asking page nodes .boilerplateStyle).length ≤ 1)
    (hnoscript : (asking page nodes .noscript).length ≤ 1)
    (horder : arrange page slot (visible page nodes) = before ++ x :: after) (hother : slot x = .other) :
    slotBehind page slot before x = .other := by
  have hmem : x ∈ arrange page slot (visible page nodes) := by
    rw [horder]
    simp
  have hx : x ∈ nodes := (List.mem_filter.mp (mem_arrange.mp hmem)).1
  obtain ⟨earlier, later, hnodes, hslot⟩ := h.exists_split hx
  -- the holders of the slots in front of the rest stand before it now, too
  have hbefore {y : NodeId} (hy : y ∈ earlier) (hrank : (slot y).rank < HeadSlot.other.rank) :
      y ∈ before := by
    have hne : slot y ≠ .other := fun heq => Nat.lt_irrefl _ (heq ▸ hrank)
    refine mem_before_of_rank_lt horder (mem_visible_of_slot h ?_ hne) (hother ▸ hrank)
    rw [hnodes]
    exact List.mem_append_left _ hy
  by_contra hne
  obtain ⟨el, hel, hasked, hroom⟩ := (slotBehind_eq_iff hne).mp rfl
  generalize slotBehind page slot before x = s at hne hasked hroom
  -- so there would have been room for it the first time
  refine hne (((slotBehind_eq_iff hne).mpr ⟨el, hel, ?_, hroom.mono fun hcontested y hy hslotY => ?_⟩).symm.trans
    (hslot.symm.trans hother))
  · rcases HeadSlot.ofElement_cases el with hconst | ⟨hfalse, htrue⟩
    · rw [hconst] at hasked ⊢
      exact hasked
    · cases hflag : before.any (slot · == .customStyle) with
      | true =>
        rw [hflag, htrue] at hasked
        exact absurd hasked.symm hne
      | false =>
        have hnone : earlier.any (slot · == .customStyle) = false := by
          rw [List.any_eq_false] at hflag ⊢
          intro y hy hcustom
          exact hflag y (hbefore hy (by rw [beq_iff_eq.mp hcustom]; decide)) hcustom
        rwa [hnone, ← hflag]
  · by_cases hrank : s.rank < HeadSlot.other.rank
    · exact hbefore hy (hslotY ▸ hrank)
    -- both ask for a slot behind the rest
    · have hearly : s ≠ .earlyStylesheet := (HeadSlot.ne_of_isContested hcontested).1
      have hy' : y ∈ nodes := by
        rw [hnodes]
        exact List.mem_append_left _ hy
      obtain rfl := eq_of_asks_behind hnodup hboilerplate hnoscript hrank hne
        (mem_asking.mpr ⟨hx, asks_of_ofElement hearly hne hel hasked⟩)
        (mem_asking.mpr ⟨hy', h.asks_of_ne hearly hne hy' hslotY⟩)
      exact absurd hy (not_mem_front_of_nodup (hnodes ▸ hnodup))

/-- Without a surplus of boilerplate all nodes have the same slots in the new order, so that it stays. -/
theorem arrange_eq_self (hboilerplate : (asking page nodes .boilerplateStyle).length ≤ 1)
    (hnoscript : (asking page nodes .noscript).length ≤ 1)
    (h' : IsSlotting page (arrange page slot (visible page nodes)) slot') :
    arrange page slot' (arrange page slot (visible page nodes))
      = arrange page slot (visible page nodes) := by
  have hsame : IsSlotting page (arrange page slot (visible page nodes)) slot := by
    intro before x after horder
    by_cases hother : slot x = .other
    · rw [hother, slotBehind_of_eq_other h hnodup hboilerplate hnoscript horder hother]
    · rw [slotBehind_of_ne_other h hnodup horder hother]
  rw [arrange_congr (hsame.unique h'), arrange_arrange]

/-- Of two nodes that ask for a slot behind the rest, one holds it and the other stands in front. -/
theorem exists_holder (hsingle : s.isSingle = true) (htwo : ¬ (asking page nodes s).length ≤ 1) :
    ∃ x y, x ∈ nodes ∧ y ∈ nodes ∧ slot x = s ∧ slot y = .other ∧ Asks page x s ∧ Asks page y s := by
  rw [length_le_one_iff (nodup_asking hnodup)] at htwo
  push Not at htwo
  obtain ⟨a, ha, b, hb, hne⟩ := htwo
  obtain ⟨ha, hasksA⟩ := mem_asking.mp ha
  obtain ⟨hb, hasksB⟩ := mem_asking.mp hb
  have taken {z : NodeId} (hz : z ∈ nodes) (hasks : Asks page z s) :
      slot z = s ∨ slot z = .other ∧ ∃ y ∈ nodes, slot y = s := by
    obtain ⟨before, after, rfl⟩ := List.append_of_mem hz
    exact (h.taken hsingle hasks).imp_right fun ⟨hother, y, hy, hslot⟩ =>
      ⟨hother, y, List.mem_append_left _ hy, hslot⟩
  rcases taken ha hasksA with hslotA | ⟨hotherA, y, hy, hslotY⟩
  -- the slot has room for one of the two
  · rcases taken hb hasksB with hslotB | ⟨hotherB, _⟩
    · exact absurd (h.eq_of_isSingle ha hb (hslotA.trans hslotB.symm) (hslotA ▸ hsingle)) hne
    · exact ⟨a, b, ha, hb, hslotA, hotherB, hasksA, hasksB⟩
  · exact ⟨y, a, hy, ha, hslotY, hotherA, h.asks hy hsingle hslotY, hasksA⟩

/-- And then the holder of the slot loses it to the other. -/
theorem arrange_ne_self (h' : IsSlotting page (arrange page slot (visible page nodes)) slot')
    (hsingle : s.isSingle = true) (hrank : HeadSlot.other.rank < s.rank)
    (htwo : ¬ (asking page nodes s).length ≤ 1) :
    arrange page slot' (arrange page slot (visible page nodes))
      ≠ arrange page slot (visible page nodes) := by
  intro hself
  obtain ⟨x, y, hx, hy, hslotX, hslotY, hasksX, hasksY⟩ := exists_holder h hnodup hsingle htwo
  have hvisible {z : NodeId} (hz : z ∈ nodes) (hasks : Asks page z s) : z ∈ visible page nodes := by
    obtain ⟨el, hel, _⟩ := asks_iff.mp hasks
    exact List.mem_filter.mpr ⟨hz, by rw [isBlankText_of_element? hel]; rfl⟩
  have hmemX : x ∈ arrange page slot (visible page nodes) := mem_arrange.mpr (hvisible hx hasksX)
  obtain ⟨before, after, horder⟩ := List.append_of_mem hmemX
  have hmem : y ∈ before :=
    mem_before_of_rank_lt horder (hvisible hy hasksY) (by rw [hslotX, hslotY]; exact hrank)
  obtain ⟨front, middle, rfl⟩ := List.append_of_mem hmem
  -- somebody in front of the holder has the slot the next time
  have hheld : ∃ z ∈ front ++ y :: middle, slot' z = s := by
    have hsplit : IsSlotting page (front ++ y :: (middle ++ x :: after)) slot' := by
      simpa [horder] using h'
    rcases hsplit.taken hsingle hasksY with hslot | ⟨_, z, hz, hslot⟩
    · exact ⟨y, by simp, hslot⟩
    · exact ⟨z, List.mem_append_left _ hz, hslot⟩
  obtain ⟨z, hz, hslotZ⟩ := hheld
  rw [horder] at h' hself
  have hOrderNodup : (front ++ y :: middle ++ x :: after).Nodup := horder ▸ nodup_arrange (hnodup.filter _)
  have hlost : slot' x = .other := by
    refine ((h'.taken hsingle hasksX).resolve_left fun hslot => ?_).1
    obtain rfl := h'.eq_of_isSingle (List.mem_append_left _ hz) (by simp) (hslotZ.trans hslot.symm)
      (hslotZ ▸ hsingle)
    exact not_mem_front_of_nodup hOrderNodup hz
  have hle := rank_le_of_mem_before hself hz
  rw [hslotZ, hlost] at hle
  omega

end NewOrder

/-! ## The pass -/

section Kinds

variable {page' : Page} (hkind : ∀ x, page'.kind? x = page.kind? x)

include hkind

/-- The rule reads a page through its elements. -/
theorem isSlotting_congr : IsSlotting page' nodes slot ↔ IsSlotting page nodes slot := by
  have hbehind (before : List NodeId) (x : NodeId) :
      slotBehind page' slot before x = slotBehind page slot before x := by
    simp only [slotBehind, Page.isElement, fun y => Page.element?_congr (hkind y)]
    rfl
  simp only [IsSlotting, hbehind]

/-- The new order depends on what the nodes are, and not on their links. -/
theorem arrange_congr_kinds : arrange page' slot nodes = arrange page slot nodes := by
  have hkey : keyLe page' = keyLe page := by
    funext x y
    simp only [keyLe, keyOf, fun z => Page.element?_congr (hkind z)]
  refine List.flatMap_congr fun s _ => ?_
  rw [inSlot, inSlot, hkey]

end Kinds

section Linked

variable (h : page.Linked) (hhead : page.Has page.head)

include h hhead

/-- A second run changes nothing exactly when no boilerplate style and no noscript was surplus. -/
theorem children_run_run_iff :
    (run (run page)).children page.head = (run page).children page.head
      ↔ (asking page (page.children page.head) .boilerplateStyle).length ≤ 1
        ∧ (asking page (page.children page.head) .noscript).length ≤ 1 := by
  have hkind (x : NodeId) : (run page).kind? x = page.kind? x := kind?_run
  have hsameHead : (run page).head = page.head := run_sameFrame.head
  have hlinked := run_linked h hhead
  obtain ⟨slot, hslot, harranged⟩ := exists_slotting h
  obtain ⟨slot', hslot', harranged'⟩ := exists_slotting hlinked
  have hfirst : (run page).children page.head = arranged page := by
    rw [children_run h hhead, if_pos rfl]
  have hvisible : visible (run page) (arranged page) = arranged page := by
    refine List.filter_eq_self.mpr fun x hx => ?_
    rw [isBlankText, hkind, ← isBlankText, ((mem_arranged h).mp hx).2]
    rfl
  have hsecond : (run (run page)).children page.head = arrange page slot' (arranged page) := by
    have hhas : (run page).Has (run page).head := by rw [hsameHead, has_run]; exact hhead
    rw [← hsameHead, children_run hlinked hhas, if_pos rfl, harranged', hsameHead, hfirst, hvisible,
      arrange_congr_kinds hkind]
  rw [hsameHead, hfirst, isSlotting_congr hkind] at hslot'
  have hnodup := h.nodup page.head
  rw [hsecond, hfirst, harranged]
  rw [harranged] at hslot'
  constructor
  · intro hself
    by_contra hnot
    rw [not_and_or] at hnot
    rcases hnot with htwo | htwo
    · exact arrange_ne_self hslot hnodup hslot' rfl (by decide) htwo hself
    · exact arrange_ne_self hslot hnodup hslot' rfl (by decide) htwo hself
  · rintro ⟨hboilerplate, hnoscript⟩
    exact arrange_eq_self hslot hnodup hboilerplate hnoscript hslot'

end Linked

/-- A boilerplate style and its noscript in front of everything else. -/
def hiddenHead : Markup.Document :=
  ⟨none, [.element ⟨"head", []⟩
    [.element ⟨"noscript", []⟩ [],
      .element ⟨"style", [⟨"amp-boilerplate", ""⟩]⟩ [],
      .element ⟨"link", [⟨"rel", "stylesheet"⟩, ⟨"href", "early.css"⟩]⟩ [],
      .element ⟨"style", [⟨"amp-custom", ""⟩]⟩ []]]⟩

/-- Though the boilerplate stood in front of everything, the second run changes nothing. -/
theorem children_run_run_hiddenHead :
    let page := Page.ofDocument hiddenHead
    page.Linked ∧ page.Has page.head
      ∧ (run (run page)).children page.head = (run page).children page.head := by
  have h := Page.ofDocument_wellFormed hiddenHead
  exact ⟨h.linked, h.has_head, (children_run_run_iff h.linked h.has_head).mpr ⟨by decide +kernel, by decide +kernel⟩⟩

/-- Two noscripts change places with each run. -/
def twoNoscripts : Markup.Document :=
  ⟨none, [.element ⟨"head", []⟩
    [.element ⟨"noscript", []⟩ [.text "a"], .element ⟨"noscript", []⟩ [.text "b"]]]⟩

/-- With two noscripts the second run changes the order again. -/
theorem children_run_run_ne_twoNoscripts :
    let page := Page.ofDocument twoNoscripts
    page.Linked ∧ page.Has page.head
      ∧ (run (run page)).children page.head ≠ (run page).children page.head := by
  have h := Page.ofDocument_wellFormed twoNoscripts
  exact ⟨h.linked, h.has_head, by decide +kernel⟩

end AmpTuner.HeadOrder
