import AmpTuner.Proofs.HeadOrder.Stability

/-!
# Heads whose scripts were gathered

The runtime and the extension scripts of a head can be taken out and put back in one block, which breaks
the order of the head. Ordering it once more gives the first order again.

* **`IsSlotting.of_perm`**: in another order the nodes have the same slots, unless two that want one slot
  have changed places.
* **`arrange_perm`**: and then they are arranged in the same way, unless two of one slot and one key have.
* **`Gathered`** says what gathering does to a list, and **`Gathered.arrange_eq`** that it does neither. The
  one exception is a script of the viewer that declares an extension, beside another script of the viewer.
-/

namespace AmpTuner.HeadOrder

open Markup (Element)
open Vocabulary

variable {page : Page} {slot : NodeId → HeadSlot} {A B : List NodeId} {x y : NodeId} {s : HeadSlot}
  {el : Element} {name : String} {afterCustom : Bool}

/-! ## The same nodes in another order -/

/-- Keys that come no later than each other are equal. -/
theorem Key.le_antisymm {a b : Key} (hab : a.le b = true) (hba : b.le a = true) : a = b := by
  rcases Key.before_or_eq hab with hlt | heq
  · rcases Key.before_or_eq hba with hgt | heq
    -- neither the names nor the variants can be smaller both ways
    · rcases hlt with hlt | ⟨hname, hlt⟩
      · rcases hgt with hgt | ⟨hname, _⟩
        · exact absurd (String.lt_trans hlt hgt) (String.lt_irrefl _)
        · rw [hname] at hlt
          exact absurd hlt (String.lt_irrefl _)
      · rcases hgt with hgt | ⟨_, hgt⟩
        · rw [hname] at hgt
          exact absurd hgt (String.lt_irrefl _)
        · omega
    · exact heq.symm
  · exact heq

/-- The nodes of a slot come out in the same order if nodes of equal keys were in the same order. -/
theorem inSlot_perm (hnodup : A.Nodup) (hperm : B.Perm A)
    (hties : ∀ x y, [x, y].Sublist A → slot x = slot y → keyOf page x = keyOf page y → [x, y].Sublist B) :
    inSlot page slot B s = inSlot page slot A s := by
  have hnodupB : B.Nodup := hperm.nodup_iff.mpr hnodup
  -- both are sorted, and ties stand in the order of `B`
  let before (x y : NodeId) : Prop := keyLe page x y = true ∧ (keyOf page x = keyOf page y → [x, y].Sublist B)
  refine @List.Perm.eq_of_pairwise _ before _ _ ?_ ?_ ?_ ?_
  · intro x y _ _ hxy hyx
    have hkey : keyOf page x = keyOf page y := Key.le_antisymm hxy.1 hyx.1
    exact absurd (hyx.2 hkey.symm) (not_pair_sublist_swap hnodupB (hxy.2 hkey))
  · rw [List.pairwise_iff_forall_sublist]
    intro x y hxy
    refine ⟨List.pairwise_iff_forall_sublist.mp pairwise_inSlot hxy, fun hkey => ?_⟩
    exact pair_sublist_of_inSlot hnodupB hxy hkey
  · rw [List.pairwise_iff_forall_sublist]
    intro x y hxy
    have hx := mem_inSlot.mp (hxy.subset (by simp : x ∈ [x, y]))
    have hy := mem_inSlot.mp (hxy.subset (by simp : y ∈ [x, y]))
    refine ⟨List.pairwise_iff_forall_sublist.mp pairwise_inSlot hxy, fun hkey => ?_⟩
    apply hties x y (pair_sublist_of_inSlot hnodup hxy hkey) _ hkey
    rw [hx.2, hy.2]
  · have hfilter : (B.filter (slot · == s)).Perm (A.filter (slot · == s)) := hperm.filter _
    exact ((List.mergeSort_perm _ _).trans hfilter).trans (List.mergeSort_perm _ _).symm

/-- The arrangement depends on the order of the nodes only where two have one slot and one key. -/
theorem arrange_perm (hnodup : A.Nodup) (hperm : B.Perm A)
    (hties : ∀ x y, [x, y].Sublist A → slot x = slot y → keyOf page x = keyOf page y → [x, y].Sublist B) :
    arrange page slot B = arrange page slot A :=
  List.flatMap_congr fun _ _ => inSlot_perm hnodup hperm hties

/-- Whether the custom style comes in front of a style sheet is the same in both orders. -/
theorem IsSlotting.any_customStyle_eq {front back before after : List NodeId}
    (hfront : IsSlotting page (front ++ x :: back) slot) (hnodup : (front ++ x :: back).Nodup)
    (hperm : (before ++ x :: after).Perm (front ++ x :: back))
    (hcascade : ∀ y, Asks page y .customStyle →
      ([y, x].Sublist (before ++ x :: after) ↔ [y, x].Sublist (front ++ x :: back))) :
    before.any (slot · == .customStyle) = front.any (slot · == .customStyle) := by
  have hnodup' : (before ++ x :: after).Nodup := hperm.nodup_iff.mpr hnodup
  rw [Bool.eq_iff_iff, List.any_eq_true, List.any_eq_true]
  refine exists_congr fun y => and_congr_left fun hcustom => ?_
  rw [mem_before_iff hnodup', mem_before_iff hnodup]
  -- who is in one of the two lists in front of `x` has the slot, and so asked for it
  have hasks (hy : y ∈ front ++ x :: back) : Asks page y .customStyle := hfront.asks hy rfl (beq_iff_eq.mp hcustom)
  constructor <;> intro hyx
  · exact (hcascade y (hasks (hperm.subset (hyx.subset List.mem_cons_self)))).mp hyx
  · exact (hcascade y (hasks (hyx.subset List.mem_cons_self))).mpr hyx

/-- Nodes have the same slots in another order, if those that want one slot are in the same order, and the
style sheets are on the same side of the custom one. -/
theorem IsSlotting.of_perm (h : IsSlotting page A slot) (hnodup : A.Nodup) (hperm : B.Perm A)
    (hrivals : ∀ x y s, s.IsContested → Asks page x s → Asks page y s → [x, y].Sublist A → [x, y].Sublist B)
    (hcascade : ∀ x y, Asks page x .customStyle → Asks page y .earlyStylesheet →
      ([x, y].Sublist B ↔ [x, y].Sublist A)) : IsSlotting page B slot := by
  have hnodupB : B.Nodup := hperm.nodup_iff.mpr hnodup
  intro before x after hB
  subst hB
  obtain ⟨front, back, hA⟩ := List.append_of_mem (hperm.mem_iff.mp (by simp : x ∈ before ++ x :: after))
  subst hA
  have hslot := h front x back rfl
  have hasked {el : Element} (hel : page.element? x = some el) :
      HeadSlot.ofElement el (before.any (slot · == .customStyle))
        = HeadSlot.ofElement el (front.any (slot · == .customStyle)) := by
    rcases HeadSlot.ofElement_cases el with hconst | ⟨hfalse, -⟩
    · rw [hconst, hconst (front.any (slot · == .customStyle))]
    · have hearly : Asks page x .earlyStylesheet := asks_iff.mpr ⟨el, hel, hfalse⟩
      rw [h.any_customStyle_eq hnodup hperm fun y hy => hcascade y x hy hearly]
  by_cases hother : slot x = .other
  · by_contra hgot
    rw [hother] at hgot
    obtain ⟨el, hel, hgets, hroom⟩ := (slotBehind_eq_iff (Ne.symm hgot)).mp rfl
    generalize slotBehind page slot before x = s at hgot hgets hroom
    -- the first time it asked for the same slot, and nobody who wants that has come in front of it
    refine hgot (hother.symm.trans (hslot.trans ((slotBehind_eq_iff (Ne.symm hgot)).mpr
      ⟨el, hel, (hasked hel).symm.trans hgets, hroom.mono fun hcontested y hy hslotY => ?_⟩)))
    have hearly : s ≠ .earlyStylesheet := (HeadSlot.ne_of_isContested hcontested).1
    have hasksX : Asks page x s := asks_of_ofElement hearly (Ne.symm hgot) hel hgets
    have hasksY : Asks page y s := h.asks_of_ne hearly (Ne.symm hgot) (List.mem_append_left _ hy) hslotY
    exact (mem_before_iff hnodupB).mpr (hrivals y x s hcontested hasksY hasksX ((mem_before_iff hnodup).mp hy))
  · obtain ⟨el, hel, hgets, -⟩ := (slotBehind_eq_iff hother).mp hslot.symm
    have hmem (y : NodeId) (hy : y ∈ before) : y ∈ front ++ x :: back := hperm.subset (List.mem_append_left _ hy)
    exact ((slotBehind_eq_iff hother).mpr ⟨el, hel, (hasked hel).trans hgets,
      h.hasRoom_slot (by simp) (not_mem_front_of_nodup hnodupB) hmem⟩).symm

/-! ## The scripts that are gathered -/

/-- The runtime, and the scripts that declare an extension. -/
def isGathered (el : Element) : Bool := isRuntimeScript el || isExtensionScript el

theorem ofElement_of_tag_script (htag : el.tag = "script") (afterCustom : Bool) :
    HeadSlot.ofElement el afterCustom = HeadSlot.ofScript el := by
  simp [HeadSlot.ofElement, htag]

/-- A runtime script asks for the slot of the runtime. -/
theorem ofElement_of_isRuntimeScript (h : isRuntimeScript el = true) (afterCustom : Bool) :
    HeadSlot.ofElement el afterCustom = .runtimeScript := by
  have htag : el.tag = "script" := by
    unfold isRuntimeScript at h
    simp only [Bool.and_eq_true, beq_iff_eq] at h
    exact h.1.1
  rw [ofElement_of_tag_script htag, HeadSlot.ofScript, if_pos h]

theorem isRuntimeScript_of_extensionName? (h : extensionName? el = some name) :
    isRuntimeScript el = false := by
  simp [isRuntimeScript, isExtensionScript, h]

/-- An extension script goes with the others of its extension, unless it is one of the viewer. -/
theorem ofElement_of_extensionName? (h : extensionName? el = some name) (afterCustom : Bool) :
    HeadSlot.ofElement el afterCustom = .viewerScript
      ∨ (HeadSlot.ofElement el afterCustom = .renderDelayingScript
          ∨ HeadSlot.ofElement el afterCustom = .extensionScript) ∧ (scriptKey el).name = name := by
  have htag : el.tag = "script" := by
    unfold extensionName? at h
    split at h
    · next htag => exact beq_iff_eq.mp htag
    · cases h
  rw [ofElement_of_tag_script htag, HeadSlot.ofScript,
    if_neg (by rw [isRuntimeScript_of_extensionName? h]; decide)]
  split
  · exact .inl rfl
  · rw [h]
    refine .inr ⟨?_, by simp [scriptKey, h]⟩
    cases hdelaying : isRenderDelaying name with
    | true => simp
    | false => simp

/-- The other children are not sorted. -/
theorem isSorted_of_not_isGathered (h : isGathered el = false) (afterCustom : Bool) :
    (HeadSlot.ofElement el afterCustom).isSorted = false := by
  unfold isGathered isExtensionScript at h
  rw [Bool.or_eq_false_iff, Option.isSome_eq_false_iff, Option.isNone_iff_eq_none] at h
  obtain ⟨hruntime, hname⟩ := h
  unfold HeadSlot.ofElement
  split
  · unfold HeadSlot.ofMeta
    repeat' split
    all_goals rfl
  · unfold HeadSlot.ofLink
    dsimp only
    repeat' split
    all_goals rfl
  · unfold HeadSlot.ofScript
    rw [hruntime, hname]
    dsimp only
    repeat' split
    all_goals first | rfl | contradiction
  · unfold HeadSlot.ofStyle
    repeat' split
    all_goals rfl
  · rfl
  · rfl

/-- The address of the runtime is not empty, so that a second runtime script is sorted behind whatever else
went with the rest. -/
theorem scriptKey_name_ne_of_isRuntimeScript (h : isRuntimeScript el = true) : (scriptKey el).name ≠ "" := by
  unfold isRuntimeScript isExtensionScript at h
  simp only [Bool.and_eq_true, Bool.not_eq_true', Option.isSome_eq_false_iff, Option.isNone_iff_eq_none,
    Option.any_eq_true] at h
  obtain ⟨⟨-, hname⟩, src, hsrc, hpath⟩ := h
  have hkey : (scriptKey el).name = src := by simp [scriptKey, hname, hsrc]
  rw [hkey]
  rintro rfl
  exact absurd hpath (by decide)

/-! ## Gathering -/

/-- The nodes of `A` in an order in which the scripts are gathered: the other nodes, the runtime scripts and
the scripts of each extension are in the order of `A`. -/
structure Gathered (page : Page) (A B : List NodeId) : Prop where
  perm : B.Perm A
  others : ∀ x y, [x, y].Sublist A → page.isElement x isGathered = false →
    page.isElement y isGathered = false → [x, y].Sublist B
  runtime : ∀ x y, [x, y].Sublist A → page.isElement x isRuntimeScript = true →
    page.isElement y isRuntimeScript = true → [x, y].Sublist B
  extension : ∀ x y name, [x, y].Sublist A → (page.element? x).bind extensionName? = some name →
    (page.element? y).bind extensionName? = some name → [x, y].Sublist B

/-- Of two scripts of the viewer none declares an extension. -/
def ViewerAlone (page : Page) (nodes : List NodeId) : Prop :=
  ∀ x ∈ nodes, ∀ y ∈ nodes, x ≠ y → Asks page x .viewerScript → Asks page y .viewerScript →
    page.isElement x isExtensionScript = false

instance (page : Page) (nodes : List NodeId) : Decidable (ViewerAlone page nodes) :=
  inferInstanceAs (Decidable (∀ x ∈ nodes, ∀ y ∈ nodes, x ≠ y →
    page.isElement x (HeadSlot.ofElement · false == .viewerScript) = true →
    page.isElement y (HeadSlot.ofElement · false == .viewerScript) = true →
    page.isElement x isExtensionScript = false))

/-- What is gathered is the runtime or declares an extension. -/
theorem isGathered_cases (h : page.isElement x isGathered = true) : page.isElement x isRuntimeScript = true
    ∨ ∃ name, (page.element? x).bind extensionName? = some name := by
  obtain ⟨el, hel, hgathered⟩ := Page.isElement_iff.mp h
  unfold isGathered isExtensionScript at hgathered
  rw [Bool.or_eq_true, Option.isSome_iff_exists] at hgathered
  rcases hgathered with hruntime | ⟨name, hname⟩
  · exact .inl (Page.isElement_iff.mpr ⟨el, hel, hruntime⟩)
  · exact .inr ⟨name, by rw [hel, Option.bind_some, hname]⟩

theorem asks_of_isRuntimeScript (h : page.isElement x isRuntimeScript = true) :
    Asks page x .runtimeScript := by
  obtain ⟨el, hel, hruntime⟩ := Page.isElement_iff.mp h
  exact asks_iff.mpr ⟨el, hel, ofElement_of_isRuntimeScript hruntime false⟩

/-- A node asks for one slot only. -/
theorem Asks.eq {s' : HeadSlot} (h : Asks page x s) (h' : Asks page x s') : s = s' := by
  obtain ⟨el, hel, hasked⟩ := asks_iff.mp h
  obtain ⟨el', hel', hasked'⟩ := asks_iff.mp h'
  obtain rfl := Option.some.inj (hel.symm.trans hel')
  exact hasked.symm.trans hasked'

/-- Who is gathered asks for a sorted slot, or for that of the viewer. -/
theorem isGathered_eq_false_of_asks (h : Asks page x s) (hsorted : s.isSorted = false)
    (hviewer : s ≠ .viewerScript) : page.isElement x isGathered = false := by
  rw [← Bool.not_eq_true]
  intro hgathered
  obtain ⟨el, hel, hasked⟩ := asks_iff.mp h
  rcases isGathered_cases hgathered with hruntime | ⟨name, hname⟩
  · obtain rfl := h.eq (asks_of_isRuntimeScript hruntime)
    cases hsorted
  · rw [hel, Option.bind_some] at hname
    rcases ofElement_of_extensionName? hname false with hslot | ⟨hslot | hslot, -⟩
    · exact hviewer (hasked.symm.trans hslot)
    · rw [← hasked, hslot] at hsorted
      cases hsorted
    · rw [← hasked, hslot] at hsorted
      cases hsorted

/-- Only runtime scripts ask for that slot. -/
theorem isRuntimeScript_of_asks (h : Asks page x .runtimeScript) :
    page.isElement x isRuntimeScript = true := by
  obtain ⟨el, hel, hasked⟩ := asks_iff.mp h
  have hgathered : page.isElement x isGathered = true := by
    rw [isElement_of_element? hel, ← Bool.not_eq_false]
    intro hnot
    have hsorted := isSorted_of_not_isGathered hnot false
    rw [hasked] at hsorted
    cases hsorted
  rcases isGathered_cases hgathered with hruntime | ⟨name, hname⟩
  · exact hruntime
  · rw [hel, Option.bind_some] at hname
    rcases ofElement_of_extensionName? hname false with hslot | ⟨hslot | hslot, -⟩
    all_goals
      rw [hasked] at hslot
      cases hslot

/-- To declare an extension is to be an extension script. -/
theorem isExtensionScript_of_bind (h : (page.element? x).bind extensionName? = some name) :
    page.isElement x isExtensionScript = true := by
  obtain ⟨el, hel, hname⟩ := Option.bind_eq_some_iff.mp h
  refine Page.isElement_iff.mpr ⟨el, hel, ?_⟩
  unfold isExtensionScript
  rw [hname]
  rfl

/-- The slot and the key that a node has by its kind. -/
inductive Standing (page : Page) (slot : NodeId → HeadSlot) (x : NodeId) : Prop where
  | other (hx : page.isElement x isGathered = false) (hkey : keyOf page x = {})
      (hslot : (slot x).isSorted = false)
  | runtime (hx : page.isElement x isRuntimeScript = true) (hkey : (keyOf page x).name ≠ "")
      (hslot : slot x = .runtimeScript ∨ slot x = .other)
  | extension {name : String} (hx : (page.element? x).bind extensionName? = some name)
      (hkey : (keyOf page x).name = name) (hslot : slot x = .renderDelayingScript ∨ slot x = .extensionScript)

/-- An extension script has a sorted slot and its extension for a key, unless it is the viewer's. -/
theorem IsSlotting.slot_of_extension (hslot : IsSlotting page A slot) (hnodup : A.Nodup)
    (hviewer : ViewerAlone page A) (hx : x ∈ A)
    (hname : (page.element? x).bind extensionName? = some name) :
    slot x = .viewerScript
      ∨ (slot x = .renderDelayingScript ∨ slot x = .extensionScript) ∧ (keyOf page x).name = name := by
  obtain ⟨el, hel, helName⟩ := Option.bind_eq_some_iff.mp hname
  obtain ⟨before, after, rfl⟩ := List.append_of_mem hx
  rcases ofElement_of_extensionName? helName false with hasked | ⟨hasked, hkey⟩
  · left
    have hasks : Asks page x .viewerScript := asks_iff.mpr ⟨el, hel, hasked⟩
    refine (hslot.taken rfl hasks).resolve_right ?_
    rintro ⟨-, y, hy, hslotY⟩
    have hmem : y ∈ before ++ x :: after := List.mem_append_left _ hy
    have hne : x ≠ y := by
      rintro rfl
      exact not_mem_front_of_nodup hnodup hy
    have hextension := isExtensionScript_of_bind hname
    rw [hviewer x hx y hmem hne hasks (hslot.asks hmem rfl hslotY)] at hextension
    cases hextension
  · right
    have hsorted : (HeadSlot.ofElement el false).isSorted = true := by
      rcases hasked with hasked | hasked <;> rw [hasked] <;> rfl
    have hruntime : HeadSlot.ofElement el false ≠ .runtimeScript := by
      rcases hasked with hasked | hasked <;> rw [hasked] <;> decide
    obtain ⟨hearly, hother⟩ := HeadSlot.ne_of_isSorted hsorted
    have hgot : slotBehind page slot before x = HeadSlot.ofElement el false :=
      (slotBehind_eq_iff hother).mpr
        ⟨el, hel, (HeadSlot.ofElement_eq_iff hearly hother _).mpr rfl, .of_isSorted hsorted hruntime⟩
    rw [hslot before x after rfl, hgot, keyOf_of_isSorted hel hsorted]
    exact ⟨hasked, hkey⟩

/-- A node that shares its slot is one of three kinds, which have different slots or keys. -/
theorem IsSlotting.standing (hslot : IsSlotting page A slot) (hnodup : A.Nodup)
    (hviewer : ViewerAlone page A) (hx : x ∈ A) (hviewerX : slot x ≠ .viewerScript) : Standing page slot x := by
  cases hgathered : page.isElement x isGathered with
  | false =>
    refine .other hgathered ?_ ?_
    · cases hel : page.element? x with
      | none => rw [keyOf, hel]
      | some el =>
        rw [isElement_of_element? hel] at hgathered
        exact keyOf_of_not_isSorted hel (by rw [isSorted_of_not_isGathered hgathered false]; decide)
    · by_cases hother : slot x = .other
      · rw [hother]
        rfl
      · obtain ⟨el, afterCustom, hel, hasked⟩ := hslot.asked hx hother
        rw [isElement_of_element? hel] at hgathered
        rw [← hasked]
        exact isSorted_of_not_isGathered hgathered afterCustom
  | true =>
    rcases isGathered_cases hgathered with hruntime | ⟨name, hname⟩
    · obtain ⟨el, hel, helRuntime⟩ := Page.isElement_iff.mp hruntime
      refine .runtime hruntime ?_ ?_
      · rw [keyOf_of_isSorted hel (by rw [ofElement_of_isRuntimeScript helRuntime false]; rfl)]
        exact scriptKey_name_ne_of_isRuntimeScript helRuntime
      · by_cases hother : slot x = .other
        · exact .inr hother
        · obtain ⟨el', afterCustom, hel', hasked⟩ := hslot.asked hx hother
          obtain rfl := Option.some.inj (hel.symm.trans hel')
          exact .inl (hasked.symm.trans (ofElement_of_isRuntimeScript helRuntime afterCustom))
    · rcases hslot.slot_of_extension hnodup hviewer hx hname with hslotX | ⟨hslotX, hkey⟩
      · exact absurd hslotX hviewerX
      · exact .extension hname hkey hslotX

namespace Gathered

variable (h : Gathered page A B) (hnodup : A.Nodup) (hviewer : ViewerAlone page A)

include h hnodup hviewer

/-- Two nodes that want one slot with one place are both gathered, or none is. -/
theorem pair_sublist_of_asks (hs : s.IsContested) (hx : Asks page x s)
    (hy : Asks page y s) (hxy : [x, y].Sublist A) : [x, y].Sublist B := by
  have hne : x ≠ y := fun heq => by simpa [heq] using hxy.nodup hnodup
  have hmemX : x ∈ A := hxy.subset (by simp)
  have hmemY : y ∈ A := hxy.subset (by simp)
  rcases hs with hsingle | rfl
  · have hsorted : s.isSorted = false := by
      cases s <;> first | rfl | cases hsingle
    by_cases hs : s = .viewerScript
    · subst hs
      -- one that is gathered would declare an extension
      have hnot {z w : NodeId} (hz : z ∈ A) (hw : w ∈ A) (hne : z ≠ w) (hasks : Asks page z .viewerScript)
          (hasks' : Asks page w .viewerScript) : page.isElement z isGathered = false := by
        rw [← Bool.not_eq_true]
        intro hgathered
        rcases isGathered_cases hgathered with hruntime | ⟨name, hname⟩
        · cases hasks.eq (asks_of_isRuntimeScript hruntime)
        · have hextension := isExtensionScript_of_bind hname
          rw [hviewer z hz w hw hne hasks hasks'] at hextension
          cases hextension
      exact h.others x y hxy (hnot hmemX hmemY hne hx hy) (hnot hmemY hmemX hne.symm hy hx)
    · exact h.others x y hxy (isGathered_eq_false_of_asks hx hsorted hs)
        (isGathered_eq_false_of_asks hy hsorted hs)
  · exact h.runtime x y hxy (isRuntimeScript_of_asks hx) (isRuntimeScript_of_asks hy)

/-- The slots are the same. -/
theorem isSlotting (hslot : IsSlotting page A slot) : IsSlotting page B slot := by
  have hnodupB : B.Nodup := h.perm.nodup_iff.mpr hnodup
  refine hslot.of_perm hnodup h.perm (fun x y s hs hx hy hxy => ?_) fun x y hx hy => ⟨fun hxy => ?_, fun hxy => ?_⟩
  · exact h.pair_sublist_of_asks hnodup hviewer hs hx hy hxy
  · have hmemX : x ∈ A := h.perm.mem_iff.mp (hxy.subset (by simp))
    have hmemY : y ∈ A := h.perm.mem_iff.mp (hxy.subset (by simp))
    have hne : x ≠ y := fun heq => by simpa [heq] using hxy.nodup hnodupB
    rcases pair_sublist_or hmemX hmemY hne with hA | hA
    · exact hA
    · have hB := h.others y x hA (isGathered_eq_false_of_asks hy rfl (by decide))
        (isGathered_eq_false_of_asks hx rfl (by decide))
      exact absurd hB (not_pair_sublist_swap hnodupB hxy)
  · exact h.others x y hxy (isGathered_eq_false_of_asks hx rfl (by decide))
      (isGathered_eq_false_of_asks hy rfl (by decide))

/-- Two nodes of one slot and one key are in the same order. -/
theorem pair_sublist_of_slot (hslot : IsSlotting page A slot) (hxy : [x, y].Sublist A)
    (hsame : slot x = slot y) (hkey : keyOf page x = keyOf page y) : [x, y].Sublist B := by
  have hmemX : x ∈ A := hxy.subset (by simp)
  have hmemY : y ∈ A := hxy.subset (by simp)
  -- a slot with one place is not shared
  have hviewerX : slot x ≠ .viewerScript := fun hx => by
    obtain rfl := hslot.eq_of_isSingle hmemX hmemY hsame (by rw [hx]; rfl)
    simpa using hxy.nodup hnodup
  have hx : Standing page slot x := hslot.standing hnodup hviewer hmemX hviewerX
  have hy : Standing page slot y := hslot.standing hnodup hviewer hmemY (hsame ▸ hviewerX)
  cases hx with
  | other hx hkeyX hslotX =>
    cases hy with
    | other hy => exact h.others x y hxy hx hy
    | runtime hy hkeyY => exact absurd (by rw [← hkey, hkeyX]) hkeyY
    | extension hy _ hslotY =>
      rw [hsame] at hslotX
      rcases hslotY with hslotY | hslotY <;> rw [hslotY] at hslotX <;> cases hslotX
  | runtime hx hkeyX hslotX =>
    cases hy with
    | other hy hkeyY => exact absurd (by rw [hkey, hkeyY]) hkeyX
    | runtime hy => exact h.runtime x y hxy hx hy
    | extension hy _ hslotY =>
      rw [hsame] at hslotX
      rcases hslotX with hslotX | hslotX <;> rcases hslotY with hslotY | hslotY <;>
        exact absurd (hslotX.symm.trans hslotY) (by decide)
  | extension hx hkeyX hslotX =>
    rw [hsame] at hslotX
    cases hy with
    | other hy _ hslotY => rcases hslotX with hslotX | hslotX <;> rw [hslotX] at hslotY <;> cases hslotY
    | runtime hy _ hslotY =>
      rcases hslotX with hslotX | hslotX <;> rcases hslotY with hslotY | hslotY <;>
        exact absurd (hslotX.symm.trans hslotY) (by decide)
    | extension hy hkeyY =>
      rw [hkey, hkeyY] at hkeyX
      exact h.extension x y _ hxy hx (hkeyX ▸ hy)

/-- The order of the head is the same whether the scripts are gathered first or not. -/
theorem arrange_eq (hslot : IsSlotting page A slot) : arrange page slot B = arrange page slot A :=
  arrange_perm hnodup h.perm fun _ _ hxy hsame hkey =>
    h.pair_sublist_of_slot hnodup hviewer hslot hxy hsame hkey

end Gathered

end AmpTuner.HeadOrder
