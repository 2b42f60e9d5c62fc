import AmpTuner.Proofs.Page.Moves
import AmpTuner.Pass.HeadOrder
import Mathlib.Data.List.Induction

/-!
# The slots of the head

The loop over the head gives each child a slot that depends on the slots given before. Here is the rule
by itself: a node has the slot that it asks for, unless what came before has left no room there.

* **`slotBehind`** is the slot of one node behind others, and **`IsSlotting`** says that all nodes of a
  list have theirs by that rule.
* **`exists_isSlotting`** and **`IsSlotting.unique`**: a list without repetitions has one slotting.
* **`foldl_place`**: the placements that the loop collects are those of the slotting.
-/

namespace AmpTuner

open Markup (Element)
open Vocabulary (isModuleScript)

/-! ## What elements ask for -/

namespace HeadSlot

/-- The place of the slot in the head. -/
def rank (slot : HeadSlot) : Nat := all.idxOf slot

theorem mem_all (slot : HeadSlot) : slot ∈ all := by
  cases slot <;> decide

theorem pairwise_all : all.Pairwise (·.rank < ·.rank) := by
  decide

/-- Whether the stylesheet has its place already matters to nothing but a style sheet of a page, which
goes with the rest behind it. -/
theorem ofElement_cases (el : Element) :
    (∀ afterCustom, ofElement el afterCustom = ofElement el false)
      ∨ ofElement el false = .earlyStylesheet ∧ ofElement el true = .other := by
  by_cases hlink : el.tag = "link"
  · have heq (afterCustom : Bool) : ofElement el afterCustom = ofLink el afterCustom := by
      simp [ofElement, hlink]
    simp only [heq, ofLink]
    split
    · exact .inl fun _ => rfl
    · split
      · exact .inr ⟨rfl, rfl⟩
      · exact .inl fun _ => rfl
  · refine .inl fun afterCustom => ?_
    unfold ofElement
    split <;> first | rfl | exact absurd ‹_› hlink

/-- An element asks for a slot with room for one child, or for a sorted one, whatever came before. -/
theorem ofElement_eq_iff {el : Element} {slot : HeadSlot} (hearly : slot ≠ .earlyStylesheet)
    (hother : slot ≠ .other) (afterCustom : Bool) :
    ofElement el afterCustom = slot ↔ ofElement el false = slot := by
  rcases ofElement_cases el with h | ⟨hfalse, htrue⟩
  · rw [h]
  · cases afterCustom
    · rfl
    · rw [hfalse, htrue]
      exact iff_of_false hother.symm hearly.symm

/-- Whether a slot is sorted does not depend on what came before. -/
theorem isSorted_ofElement (el : Element) (afterCustom : Bool) :
    (ofElement el afterCustom).isSorted = (ofElement el false).isSorted := by
  rcases ofElement_cases el with h | ⟨hfalse, htrue⟩
  · rw [h]
  · cases afterCustom
    · rfl
    · rw [hfalse, htrue]
      rfl

theorem ne_of_isSingle {slot : HeadSlot} (h : slot.isSingle = true) :
    slot ≠ .earlyStylesheet ∧ slot ≠ .other ∧ slot ≠ .runtimeScript := by
  cases slot <;> first | decide | cases h

theorem ne_of_isSorted {slot : HeadSlot} (h : slot.isSorted = true) :
    slot ≠ .earlyStylesheet ∧ slot ≠ .other := by
  cases slot <;> first | decide | cases h

theorem isSingle_of_isSorted {slot : HeadSlot} (h : slot.isSorted = true) : slot.isSingle = false := by
  cases slot <;> first | rfl | cases h

/-- Not everybody who asks for the slot gets it. -/
def IsContested (slot : HeadSlot) : Prop := slot.isSingle = true ∨ slot = .runtimeScript

theorem ne_of_isContested {slot : HeadSlot} (h : slot.IsContested) : slot ≠ .earlyStylesheet ∧ slot ≠ .other := by
  rcases h with hsingle | rfl
  · exact ⟨(ne_of_isSingle hsingle).1, (ne_of_isSingle hsingle).2.1⟩
  · decide

end HeadSlot

namespace HeadOrder

variable {page : Page} {slot slot' : NodeId → HeadSlot} {nodes before after : List NodeId}
  {x y : NodeId}

/-! ## The rule -/

/-- The slot of a node behind those before it: what is no element goes with the rest, and so does an
element when the one place of its slot is taken, or the one that its variant of the runtime has. -/
def slotBehind (page : Page) (slot : NodeId → HeadSlot) (before : List NodeId) (x : NodeId) : HeadSlot :=
  match page.element? x with
  | none => .other
  | some el =>
    let asked := HeadSlot.ofElement el (before.any (slot · == .customStyle))
    if (asked.isSingle && before.any (slot · == asked)) || (asked == .runtimeScript && before.any
      fun y => slot y == .runtimeScript && page.isElement y isModuleScript == isModuleScript el)
    then .other else asked

/-- Every node of the list has the slot that is left to it by those before it. -/
def IsSlotting (page : Page) (nodes : List NodeId) (slot : NodeId → HeadSlot) : Prop :=
  ∀ before x after, nodes = before ++ x :: after → slot x = slotBehind page slot before x

/-- Both scripts are modules, or both are not. -/
def SameVariant (page : Page) (x y : NodeId) : Prop :=
  page.isElement x isModuleScript = page.isElement y isModuleScript

/-- There is room for `x` in the slot behind the nodes. -/
structure HasRoom (page : Page) (slot : NodeId → HeadSlot) (before : List NodeId) (x : NodeId)
    (s : HeadSlot) : Prop where
  single : s.isSingle = true → ∀ y ∈ before, slot y ≠ s
  runtime : s = .runtimeScript → ∀ y ∈ before, slot y = .runtimeScript → ¬ SameVariant page y x

/-- With fewer nodes in front there is room, too. -/
theorem HasRoom.mono {s : HeadSlot} {front : List NodeId} (h : HasRoom page slot before x s)
    (hsub : s.IsContested → ∀ y ∈ front, slot y = s → y ∈ before) : HasRoom page slot front x s where
  single hsingle y hy hslot := h.single hsingle y (hsub (.inl hsingle) y hy hslot) hslot
  runtime hruntime y hy hslot :=
    h.runtime hruntime y (hsub (.inr hruntime) y hy (hslot.trans hruntime.symm)) hslot

/-- A sorted slot has room for everybody, but that of the runtime. -/
theorem HasRoom.of_isSorted {s : HeadSlot} (hsorted : s.isSorted = true) (hruntime : s ≠ .runtimeScript) :
    HasRoom page slot before x s where
  single hsingle := by
    rw [HeadSlot.isSingle_of_isSorted hsorted] at hsingle
    cases hsingle
  runtime heq := absurd heq hruntime

theorem isElement_of_element? {el : Element} (hx : page.element? x = some el) (p : Element → Bool) :
    page.isElement x p = p el := by
  rw [Page.isElement, hx, Option.any_some]

/-- A slot other than the last resort goes to who asks for it and finds room. -/
theorem slotBehind_eq_iff {s : HeadSlot} (hs : s ≠ .other) :
    slotBehind page slot before x = s ↔ ∃ el, page.element? x = some el
      ∧ HeadSlot.ofElement el (before.any (slot · == .customStyle)) = s
      ∧ HasRoom page slot before x s := by
  rw [slotBehind]
  cases hx : page.element? x with
  | none => simp [hs.symm]
  | some el =>
    simp only [Option.some.injEq, exists_eq_left']
    set asked := HeadSlot.ofElement el (before.any (slot · == .customStyle)) with hasked
    -- the test of the rule is that there is no room
    have hsurplus : ((asked.isSingle && before.any (slot · == asked))
          || (asked == .runtimeScript && before.any fun y =>
            slot y == .runtimeScript && page.isElement y isModuleScript == isModuleScript el)) = true
        ↔ ¬ HasRoom page slot before x asked := by
      rw [← Bool.not_eq_false, not_iff_not]
      simp only [Bool.or_eq_false_iff, Bool.and_eq_false_imp, List.any_eq_false, beq_iff_eq]
      refine ⟨fun h => ⟨h.1, fun hrun y hy hslot hvariant => ?_⟩, fun h => ⟨h.single, ?_⟩⟩
      · refine h.2 hrun y hy ?_
        rw [SameVariant, isElement_of_element? hx] at hvariant
        simp [hslot, hvariant]
      · intro hrun y hy hboth
        rw [Bool.and_eq_true, beq_iff_eq, beq_iff_eq] at hboth
        refine h.runtime hrun y hy hboth.1 ?_
        rw [SameVariant, isElement_of_element? hx]
        exact hboth.2
    split
    · next hfull =>
      refine iff_of_false hs.symm ?_
      rintro ⟨rfl, hroom⟩
      exact hsurplus.mp hfull hroom
    · next hfree =>
      refine ⟨?_, fun h => h.1⟩
      rintro rfl
      exact ⟨rfl, not_not.mp (mt hsurplus.mpr hfree)⟩

theorem slotBehind_of_element?_eq_none (hx : page.element? x = none) :
    slotBehind page slot before x = .other := by
  rw [slotBehind, hx]

/-- Only the slots of those before count. -/
theorem slotBehind_congr (h : ∀ y ∈ before, slot' y = slot y) :
    slotBehind page slot' before x = slotBehind page slot before x := by
  have hany (p : NodeId → HeadSlot → Bool) :
      (before.any fun y => p y (slot' y)) = before.any fun y => p y (slot y) :=
    any_congr_of_mem fun y hy => by rw [h y hy]
  have htaken (s : HeadSlot) : before.any (slot' · == s) = before.any (slot · == s) :=
    hany fun _ t => t == s
  have hvariant (el : Element) :
      (before.any fun y => slot' y == .runtimeScript
          && page.isElement y isModuleScript == isModuleScript el)
        = before.any fun y => slot y == .runtimeScript
          && page.isElement y isModuleScript == isModuleScript el :=
    hany fun y t => t == .runtimeScript && page.isElement y isModuleScript == isModuleScript el
  simp only [slotBehind, htaken, hvariant]

namespace IsSlotting

/-- A slotting is about the nodes of the list alone. -/
theorem congr (h : IsSlotting page nodes slot) (heq : ∀ y ∈ nodes, slot' y = slot y) :
    IsSlotting page nodes slot' := by
  intro before x after hnodes
  subst hnodes
  rw [heq x (by simp), slotBehind_congr fun y hy => heq y (List.mem_append_left _ hy)]
  exact h before x after rfl

/-- A list is slotted node by node. -/
theorem append_singleton_iff : IsSlotting page (nodes ++ [x]) slot
    ↔ IsSlotting page nodes slot ∧ slot x = slotBehind page slot nodes x := by
  constructor
  · intro h
    refine ⟨fun before y after hnodes => ?_, h nodes x [] rfl⟩
    exact h before y (after ++ [x]) (by rw [hnodes]; simp)
  · rintro ⟨h, hx⟩ before y after hnodes
    -- the last node is `x`, and any other stands in front of it
    rcases List.eq_nil_or_concat after with rfl | ⟨after, z, rfl⟩
    · obtain ⟨rfl, hxy⟩ := List.append_inj' hnodes rfl
      obtain rfl : x = y := by simpa using hxy
      exact hx
    · refine h before y after ?_
      rw [List.concat_eq_append, ← List.cons_append, ← List.append_assoc] at hnodes
      exact (List.append_inj' hnodes rfl).1

/-- There is no choice. -/
theorem unique (h : IsSlotting page nodes slot) (h' : IsSlotting page nodes slot') :
    ∀ x ∈ nodes, slot' x = slot x := by
  induction nodes using List.reverseRecOn with
  | nil => simp
  | append_singleton nodes z ih =>
    obtain ⟨h, hz⟩ := append_singleton_iff.mp h
    obtain ⟨h', hz'⟩ := append_singleton_iff.mp h'
    have hnodes := ih h h'
    intro x hx
    rcases List.mem_append.mp hx with hx | hx
    · exact hnodes x hx
    · rw [List.mem_singleton.mp hx, hz', hz, slotBehind_congr hnodes]

theorem exists_split (h : IsSlotting page nodes slot) (hx : x ∈ nodes) :
    ∃ before after, nodes = before ++ x :: after ∧ slot x = slotBehind page slot before x := by
  obtain ⟨before, after, hnodes⟩ := List.append_of_mem hx
  exact ⟨before, after, hnodes, h before x after hnodes⟩

/-- Who has a slot asked for it. -/
theorem asked (h : IsSlotting page nodes slot) (hx : x ∈ nodes) (hother : slot x ≠ .other) :
    ∃ el afterCustom, page.element? x = some el ∧ HeadSlot.ofElement el afterCustom = slot x := by
  obtain ⟨before, _, _, hslot⟩ := h.exists_split hx
  obtain ⟨el, hel, hasked, _⟩ := (slotBehind_eq_iff hother).mp hslot.symm
  exact ⟨el, _, hel, hasked⟩

/-- Of two nodes in a list, the later one found room behind the earlier one. -/
theorem hasRoom (h : IsSlotting page nodes slot) (hx : x ∈ nodes) (hy : y ∈ nodes) (hne : x ≠ y)
    (hslot : slot x = slot y) (hother : slot x ≠ .other) :
    ∃ a b before, a ∈ before ∧ slot a = slot x ∧ HasRoom page slot before b (slot x)
      ∧ (a = x ∧ b = y ∨ a = y ∧ b = x) := by
  obtain ⟨before, after, hnodes, hslotX⟩ := h.exists_split hx
  obtain ⟨_, _, _, hroomX⟩ := (slotBehind_eq_iff hother).mp hslotX.symm
  rw [hnodes] at hy
  rcases List.mem_append.mp hy with hbefore | hafter
  · exact ⟨y, x, before, hbefore, hslot.symm, hroomX, .inr ⟨rfl, rfl⟩⟩
  · have hmem : y ∈ after := (List.mem_cons.mp hafter).resolve_left (Ne.symm hne)
    obtain ⟨between, rest, hafter⟩ := List.append_of_mem hmem
    have hslotY := h (before ++ x :: between) y rest (by rw [hnodes, hafter]; simp)
    obtain ⟨_, _, _, hroomY⟩ := (slotBehind_eq_iff (hslot ▸ hother)).mp hslotY.symm
    exact ⟨x, y, _, by simp, rfl, hslot ▸ hroomY, .inl ⟨rfl, rfl⟩⟩

/-- A slot with room for one child has no more. -/
theorem eq_of_isSingle (h : IsSlotting page nodes slot) (hx : x ∈ nodes) (hy : y ∈ nodes)
    (hslot : slot x = slot y) (hsingle : (slot x).isSingle = true) : x = y := by
  by_contra hne
  obtain ⟨a, b, before, ha, hslotA, hroom, _⟩ :=
    h.hasRoom hx hy hne hslot (HeadSlot.ne_of_isSingle hsingle).2.1
  exact hroom.single hsingle a ha hslotA

/-- The runtime has one place for each variant. -/
theorem eq_of_sameVariant (h : IsSlotting page nodes slot) (hx : x ∈ nodes) (hy : y ∈ nodes)
    (hslotX : slot x = .runtimeScript) (hslotY : slot y = .runtimeScript)
    (hvariant : SameVariant page x y) : x = y := by
  by_contra hne
  obtain ⟨a, b, before, ha, hslotA, hroom, hab⟩ :=
    h.hasRoom hx hy hne (hslotX.trans hslotY.symm) (by rw [hslotX]; decide)
  rw [hslotX] at hslotA hroom
  refine hroom.runtime rfl a ha hslotA ?_
  rcases hab with ⟨rfl, rfl⟩ | ⟨rfl, rfl⟩
  · exact hvariant
  · exact hvariant.symm

/-- There is room in the slot of a node, whoever of the others comes first. -/
theorem hasRoom_slot (h : IsSlotting page nodes slot) (hx : x ∈ nodes) (hself : x ∉ before)
    (hbefore : ∀ y ∈ before, y ∈ nodes) : HasRoom page slot before x (slot x) where
  single hsingle y hy hslot := by
    obtain rfl := h.eq_of_isSingle hx (hbefore y hy) hslot.symm hsingle
    exact hself hy
  runtime hruntime y hy hslot hvariant := by
    obtain rfl := h.eq_of_sameVariant hx (hbefore y hy) hruntime hslot hvariant.symm
    exact hself hy

end IsSlotting

/-- Induction on the nodes from the front; the slot of each new node is set once those before it have
theirs. -/
theorem exists_isSlotting (hnodup : nodes.Nodup) : ∃ slot, IsSlotting page nodes slot := by
  induction nodes using List.reverseRecOn with
  | nil => exact ⟨fun _ => .other, fun before x after h => by simp at h⟩
  | append_singleton nodes x ih =>
    obtain ⟨hnodes, -, hdisjoint⟩ := List.nodup_append.mp hnodup
    obtain ⟨slot, h⟩ := ih hnodes
    let slot' : NodeId → HeadSlot := fun y => if y = x then slotBehind page slot nodes x else slot y
    have hsame : ∀ y ∈ nodes, slot' y = slot y := fun y hy =>
      if_neg (hdisjoint y hy x (by simp))
    refine ⟨slot', IsSlotting.append_singleton_iff.mpr ⟨h.congr hsame, ?_⟩⟩
    rw [slotBehind_congr hsame]
    exact if_pos rfl

/-! ## Asking for a single slot -/

/-- The element asks for the slot, for one that does not depend on what came before. -/
def Asks (page : Page) (x : NodeId) (s : HeadSlot) : Prop :=
  page.isElement x (HeadSlot.ofElement · false == s) = true

theorem asks_iff : Asks page x s ↔ ∃ el, page.element? x = some el ∧ HeadSlot.ofElement el false = s := by
  rw [Asks, Page.isElement_iff]
  simp only [beq_iff_eq]

theorem asks_of_ofElement {el : Element} {afterCustom : Bool} (hearly : s ≠ .earlyStylesheet) (hother : s ≠ .other)
    (hel : page.element? x = some el) (hasked : HeadSlot.ofElement el afterCustom = s) : Asks page x s :=
  asks_iff.mpr ⟨el, hel, (HeadSlot.ofElement_eq_iff hearly hother _).mp hasked⟩

theorem IsSlotting.asks_of_ne (h : IsSlotting page nodes slot) (hearly : s ≠ .earlyStylesheet) (hother : s ≠ .other)
    (hx : x ∈ nodes) (hslot : slot x = s) : Asks page x s := by
  obtain ⟨el, afterCustom, hel, hasked⟩ := h.asked hx (hslot ▸ hother)
  exact asks_of_ofElement hearly hother hel (hasked.trans hslot)

theorem IsSlotting.asks (h : IsSlotting page nodes slot) (hx : x ∈ nodes) (hsingle : s.isSingle = true)
    (hslot : slot x = s) : Asks page x s :=
  h.asks_of_ne (HeadSlot.ne_of_isSingle hsingle).1 (HeadSlot.ne_of_isSingle hsingle).2.1 hx hslot

/-- Who asks for a single slot gets it, or it is taken. -/
theorem IsSlotting.taken (h : IsSlotting page (before ++ x :: after) slot) (hsingle : s.isSingle = true)
    (hasks : Asks page x s) : slot x = s ∨ slot x = .other ∧ ∃ y ∈ before, slot y = s := by
  obtain ⟨hearly, hother, hruntime⟩ := HeadSlot.ne_of_isSingle hsingle
  obtain ⟨el, hel, hasked⟩ := asks_iff.mp hasks
  have hslot := h before x after rfl
  have hasked' (afterCustom : Bool) : HeadSlot.ofElement el afterCustom = s :=
    (HeadSlot.ofElement_eq_iff hearly hother _).mpr hasked
  by_cases hroom : ∀ y ∈ before, slot y ≠ s
  · refine .inl (hslot.trans ((slotBehind_eq_iff hother).mpr ⟨el, hel, hasked' _, ?_⟩))
    exact ⟨fun _ => hroom, fun heq => absurd heq hruntime⟩
  · push Not at hroom
    obtain ⟨y, hy, hyslot⟩ := hroom
    refine .inr ⟨?_, y, hy, hyslot⟩
    -- any other slot would have been asked for
    by_contra hne
    obtain ⟨el', hel', hgot, hroom⟩ := (slotBehind_eq_iff hne).mp hslot.symm
    obtain rfl := Option.some.inj (hel.symm.trans hel')
    rw [hasked'] at hgot
    rw [← hgot] at hroom
    exact hroom.single hsingle y hy hyslot

/-! ## The loop -/

/-- Blank text gets no place. -/
def isBlankText (page : Page) (x : NodeId) : Bool :=
  match page.kind? x with
  | some (.text content) => Text.isAllBlank content
  | _ => false

/-- The nodes that get a place. -/
def visible (page : Page) (nodes : List NodeId) : List NodeId := nodes.filter (!isBlankText page ·)

/-- By what the node is sorted in its slot. -/
def keyOf (page : Page) (x : NodeId) : Key :=
  match page.element? x with
  | some el => if (HeadSlot.ofElement el false).isSorted then scriptKey el else {}
  | none => {}

/-- In a sorted slot the key is that of the script. -/
theorem keyOf_of_isSorted {el : Element} (hx : page.element? x = some el) {afterCustom : Bool}
    (hsorted : (HeadSlot.ofElement el afterCustom).isSorted = true) : keyOf page x = scriptKey el := by
  rw [HeadSlot.isSorted_ofElement] at hsorted
  rw [keyOf, hx]
  exact if_pos hsorted

/-- Elsewhere the key is empty, so that the order stays. -/
theorem keyOf_of_not_isSorted {el : Element} (hx : page.element? x = some el) {afterCustom : Bool}
    (hsorted : ¬ (HeadSlot.ofElement el afterCustom).isSorted = true) : keyOf page x = {} := by
  rw [HeadSlot.isSorted_ofElement] at hsorted
  rw [keyOf, hx]
  exact if_neg hsorted

/-- Where a node goes, by its slot and key. -/
def placement (page : Page) (slot : NodeId → HeadSlot) (x : NodeId) : Placement :=
  ⟨slot x, keyOf page x, x⟩

/-- The placements of all nodes that are not blank text. -/
def placements (page : Page) (slot : NodeId → HeadSlot) (nodes : List NodeId) : List Placement :=
  (visible page nodes).map (placement page slot)

/-- A blank text is no element. -/
theorem element?_of_isBlankText (h : isBlankText page x = true) : page.element? x = none := by
  rw [isBlankText] at h
  split at h
  · next hkind => rw [Page.element?, hkind]; rfl
  · cases h

/-- An element is no blank text. -/
theorem isBlankText_of_element? {el : Element} (hx : page.element? x = some el) :
    isBlankText page x = false := by
  rw [Bool.eq_false_iff]
  intro hblank
  rw [element?_of_isBlankText hblank] at hx
  cases hx

/-- Of the nodes without a place none has a slot but the last resort. -/
theorem IsSlotting.isBlankText_eq_false (h : IsSlotting page nodes slot) (hx : x ∈ nodes)
    (hslot : slot x ≠ .other) : isBlankText page x = false := by
  obtain ⟨el, _, hel, _⟩ := h.asked hx hslot
  exact isBlankText_of_element? hel

/-- What is asked of the placements in a slot is asked of the nodes that have the slot. -/
theorem IsSlotting.any_placements (h : IsSlotting page nodes slot) {s : HeadSlot} (hs : s ≠ .other)
    (p : Placement → Bool) :
    ((placements page slot nodes).any fun q => q.slot == s && p q)
      = nodes.any fun y => slot y == s && p (placement page slot y) := by
  rw [placements, List.any_map, visible, List.any_filter]
  refine any_congr_of_mem fun y hy => ?_
  by_cases hslot : slot y = s
  · rw [h.isBlankText_eq_false hy (hslot ▸ hs)]
    rfl
  · have hfalse : (slot y == s) = false := by simpa using hslot
    simp [placement, hfalse]

/-- The loop finds a slot taken when the rule does. -/
theorem IsSlotting.placeElement_placements (h : IsSlotting page nodes slot) {el : Element}
    (hel : page.element? x = some el) : placeElement (placements page slot nodes) x el
      = ⟨slotBehind page slot nodes x, keyOf page x, x⟩ := by
  have hany {s : HeadSlot} (hs : s ≠ .other) :
      (placements page slot nodes).any (·.slot == s) = nodes.any (slot · == s) := by
    simpa using h.any_placements hs fun _ => true
  rw [placeElement, hany (by decide), slotBehind, hel]
  dsimp only
  generalize hasked : HeadSlot.ofElement el (nodes.any (slot · == .customStyle)) = asked
  have hkey : (if asked.isSorted then scriptKey el else {}) = keyOf page x := by
    split
    · next hsorted => exact (keyOf_of_isSorted hel (hasked ▸ hsorted)).symm
    · next hsorted => exact (keyOf_of_not_isSorted hel (hasked ▸ hsorted)).symm
  have hsingle : (asked.isSingle && (placements page slot nodes).any (·.slot == asked))
      = (asked.isSingle && nodes.any (slot · == asked)) := by
    by_cases hother : asked = .other
    · rw [hother]
      rfl
    · rw [hany hother]
  -- in the slot of the runtime the key of a node tells whether it is a module
  have hruntime : (asked == .runtimeScript && (placements page slot nodes).any fun q =>
        q.slot == .runtimeScript && q.key.variant == (keyOf page x).variant)
      = (asked == .runtimeScript && nodes.any fun y =>
        slot y == .runtimeScript && page.isElement y isModuleScript == isModuleScript el) := by
    by_cases hrun : asked = .runtimeScript
    · have hkeyX : keyOf page x = scriptKey el := by
        rw [← hkey, hrun]
        rfl
      rw [hrun, h.any_placements (by decide)]
      congr 1
      refine any_congr_of_mem fun y hy => ?_
      by_cases hslot : slot y = .runtimeScript
      · obtain ⟨ely, afterCustom, hely, haskedY⟩ := h.asked hy (by rw [hslot]; decide)
        have hkeyY : keyOf page y = scriptKey ely :=
          keyOf_of_isSorted hely (by rw [haskedY, hslot]; rfl)
        simp only [placement, hkeyX, hkeyY, isElement_of_element? hely, scriptKey]
        cases isModuleScript ely <;> cases isModuleScript el <;> rfl
      · have hfalse : (slot y == HeadSlot.runtimeScript) = false := by simpa using hslot
        simp [hfalse]
    · have hfalse : (asked == HeadSlot.runtimeScript) = false := by simpa using hrun
      simp [hfalse]
  rw [hkey, isSurplus, hsingle, hruntime]

/-- One turn of the loop places the next node by the rule. -/
theorem IsSlotting.place_placements (h : IsSlotting page nodes slot) (hhas : page.Has x)
    (hx : slot x = slotBehind page slot nodes x) :
    place page (placements page slot nodes) x = placements page slot (nodes ++ [x]) := by
  have hskip (hblank : isBlankText page x = true) :
      placements page slot (nodes ++ [x]) = placements page slot nodes := by
    simp [placements, visible, List.filter_append, hblank]
  have hplace (hblank : isBlankText page x = false) :
      placements page slot (nodes ++ [x]) = placements page slot nodes ++ [placement page slot x] := by
    simp [placements, visible, List.filter_append, hblank]
  have hrest (hnone : page.element? x = none) : placement page slot x = ⟨.other, {}, x⟩ := by
    rw [placement, hx, slotBehind_of_element?_eq_none hnone, keyOf, hnone]
  rw [place]
  split
  · next el hkind =>
    have hel : page.element? x = some el := Page.element?_eq_some_iff.mpr hkind
    rw [hplace (by rw [isBlankText, hkind]), h.placeElement_placements hel, ← hx, placement]
  · next content hkind =>
    have hnone : page.element? x = none := by rw [Page.element?, hkind]; rfl
    split
    · next hblank => rw [hskip (by rw [isBlankText, hkind]; exact hblank)]
    · next hblank =>
      rw [hplace (by rw [isBlankText, hkind]; exact Bool.eq_false_iff.mpr hblank), hrest hnone]
  · next content hkind =>
    rw [hplace (by rw [isBlankText, hkind]), hrest (by rw [Page.element?, hkind]; rfl)]
  · next hkind => exact absurd hhas ((page.kind?_eq_none_iff x).mp hkind)

/-- The loop gives every node that gets a place the slot of the rule. -/
theorem IsSlotting.foldl_place (h : IsSlotting page nodes slot) (hhas : ∀ x ∈ nodes, page.Has x) :
    nodes.foldl (place page) [] = placements page slot nodes := by
  induction nodes using List.reverseRecOn with
  | nil => rfl
  | append_singleton nodes x ih =>
    obtain ⟨h, hx⟩ := IsSlotting.append_singleton_iff.mp h
    rw [List.foldl_append, ih h fun y hy => hhas y (List.mem_append_left _ hy)]
    exact h.place_placements (hhas x (by simp)) hx

/-- The slots of a page can be read off its placements. -/
theorem IsSlotting.slot_of_mem_foldl_place (h : IsSlotting page nodes slot) (hhas : ∀ x ∈ nodes, page.Has x)
    {p : Placement} (hp : p ∈ nodes.foldl (place page) []) : slot p.node = p.slot := by
  rw [h.foldl_place hhas] at hp
  obtain ⟨x, -, rfl⟩ := List.mem_map.mp hp
  rfl

end HeadOrder

end AmpTuner
