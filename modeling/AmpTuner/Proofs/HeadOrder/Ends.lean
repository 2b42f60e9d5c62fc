import AmpTuner.Proofs.HeadOrder.Rerun
import AmpTuner.Pass.Boilerplate

/-!
# The first and the last child of the head

The slot of the character set is the first one and that of the noscript the last one. Both have room for
one child, which is the first that asks. Any noscript does, so that the one of the boilerplate comes last
only if no other stood in front of it.

* **`head?_arrange`** and **`getLast?_arrange`**: who has the first or the last slot for itself stands at
  that end.
* **`IsSlotting.slot_of_find?`**: the first to ask for a single slot has it, and **`find?_arrange`**: it is the first
  in the new order as well.
* **`ends_run`** is the result for the pass.
-/

namespace AmpTuner.HeadOrder

open Markup (Element)
open Vocabulary (isRuntimeStyle)

variable {page : Page} {slot : NodeId → HeadSlot} {nodes : List NodeId} {x y : NodeId} {s : HeadSlot}

/-! ## The ends of the new order -/

/-- A node whose slot is before those of all others comes first. -/
theorem head?_arrange (hx : x ∈ nodes) (hlt : ∀ y ∈ nodes, y ≠ x → (slot x).rank < (slot y).rank) :
    (arrange page slot nodes).head? = some x := by
  have hmem : x ∈ arrange page slot nodes := mem_arrange.mpr hx
  obtain ⟨first, rest, horder⟩ := List.exists_cons_of_ne_nil (List.ne_nil_of_mem hmem)
  have hfirst : first ∈ nodes := mem_arrange.mp (horder ▸ List.mem_cons_self)
  rw [horder, List.head?_cons]
  by_contra hne
  have hless := hlt first hfirst fun heq => hne (by rw [heq])
  -- `x` would stand in front of the first one
  have hfront : x ∈ [] := mem_before_of_rank_lt horder hx hless
  cases hfront

/-- A node whose slot is behind those of all others comes last. -/
theorem getLast?_arrange (hx : x ∈ nodes) (hlt : ∀ y ∈ nodes, y ≠ x → (slot y).rank < (slot x).rank) :
    (arrange page slot nodes).getLast? = some x := by
  have hmem : x ∈ arrange page slot nodes := mem_arrange.mpr hx
  rcases List.eq_nil_or_concat (arrange page slot nodes) with hnil | ⟨init, last, horder⟩
  · rw [hnil] at hmem
    cases hmem
  rw [List.concat_eq_append] at horder
  rw [horder, List.getLast?_concat]
  by_contra hne
  have hlast : last ∈ nodes := mem_arrange.mp (horder ▸ List.mem_concat_self)
  have hless := hlt last hlast fun heq => hne (by rw [heq])
  -- `x` would stand in front of the last one
  rw [horder] at hmem
  have hinit : x ∈ init := (List.mem_append.mp hmem).resolve_right fun hsame =>
    hne (by rw [List.mem_singleton.mp hsame])
  have hle := rank_le_of_mem_before horder hinit
  omega

/-! ## Who has the slots -/

section First

variable {p : Element → Bool} (hp : ∀ el, (HeadSlot.ofElement el false == s) = p el)
  (hfind : nodes.find? (fun y => page.isElement y p) = some x)

include hp hfind

/-- A single slot is of the first that asks for it. -/
theorem IsSlotting.slot_of_find? (h : IsSlotting page nodes slot) (hsingle : s.isSingle = true) :
    slot x = s := by
  obtain rfl : (HeadSlot.ofElement · false == s) = p := funext hp
  obtain ⟨hasks, before, after, hnodes, hbefore⟩ := List.find?_eq_some_iff_append.mp hfind
  subst hnodes
  refine (h.taken hsingle hasks).resolve_right ?_
  rintro ⟨-, y, hy, hslot⟩
  have hasksY : Asks page y s := h.asks (List.mem_append_left _ hy) hsingle hslot
  have hnot := hbefore y hy
  rw [show page.isElement y (HeadSlot.ofElement · false == s) = true from hasksY] at hnot
  cases hnot

/-- And nobody else has it. -/
theorem IsSlotting.slot_ne_of_find? (h : IsSlotting page nodes slot) (hsingle : s.isSingle = true) :
    ∀ y ∈ visible page nodes, y ≠ x → slot y ≠ s := by
  intro y hy hne hslot
  have hslotX := h.slot_of_find? hp hfind hsingle
  refine hne (h.eq_of_isSingle (List.mem_filter.mp hy).1 (List.mem_of_find?_eq_some hfind) ?_ ?_)
  · rw [hslot, hslotX]
  · rw [hslot]
    exact hsingle

omit hp in
/-- A node that is looked for by its element is arranged. -/
theorem mem_visible_of_find? : x ∈ visible page nodes := by
  obtain ⟨hx, -⟩ := List.find?_eq_some_iff_append.mp hfind
  obtain ⟨el, hel, -⟩ := Page.isElement_iff.mp hx
  refine List.mem_filter.mpr ⟨List.mem_of_find?_eq_some hfind, ?_⟩
  rw [isBlankText_of_element? hel]
  rfl

end First

/-- The first that asks for a single slot in front of the rest is still the first in the new order. -/
theorem find?_arrange {p : Element → Bool} (hp : ∀ el, (HeadSlot.ofElement el false == s) = p el)
    (h : IsSlotting page nodes slot) (hnodup : nodes.Nodup) (hsingle : s.isSingle = true)
    (hrank : s.rank < HeadSlot.other.rank) :
    (arrange page slot (visible page nodes)).find? (page.isElement · p) = nodes.find? (page.isElement · p) := by
  cases hfind : nodes.find? (page.isElement · p) with
  | none =>
    rw [List.find?_eq_none] at hfind ⊢
    exact fun y hy => hfind y (List.mem_filter.mp (mem_arrange.mp hy)).1
  | some x =>
    have hslotX := h.slot_of_find? hp hfind hsingle
    obtain ⟨hasksX, -⟩ := List.find?_eq_some_iff_append.mp hfind
    obtain ⟨before, after, horder⟩ :=
      List.append_of_mem (mem_arrange.mpr (mem_visible_of_find? hfind) : x ∈ arrange page slot (visible page nodes))
    refine List.find?_eq_some_iff_append.mpr ⟨hasksX, before, after, horder, fun y hy => ?_⟩
    rw [Bool.not_eq_true', Bool.eq_false_iff]
    intro hasks
    have hyNodes : y ∈ visible page nodes :=
      mem_arrange.mp (horder ▸ List.mem_append_left _ hy : y ∈ arrange page slot (visible page nodes))
    have hne : y ≠ x := by
      rintro rfl
      exact not_mem_front_of_nodup (horder ▸ nodup_arrange (hnodup.filter _)) hy
    -- another one that asks for the slot is surplus, and so with the rest
    have hother : slot y = .other := by
      obtain ⟨front, back, hsplit⟩ := List.append_of_mem (List.mem_filter.mp hyNodes).1
      have hasksY : Asks page y s := by
        rw [Asks, funext hp]
        exact hasks
      exact (((hsplit ▸ h).taken hsingle hasksY).resolve_left
        (h.slot_ne_of_find? hp hfind hsingle y hyNodes hne)).1
    have hle := rank_le_of_mem_before horder hy
    rw [hother, hslotX] at hle
    omega

theorem rank_charset_lt (h : s ≠ .charset) : HeadSlot.charset.rank < s.rank := by
  cases s <;> first | exact absurd rfl h | decide

theorem rank_lt_noscript (h : s ≠ .noscript) : s.rank < HeadSlot.noscript.rank := by
  cases s <;> first | exact absurd rfl h | decide

/-- A declaration of the charset. -/
def isCharset (el : Element) : Bool := el.tag == "meta" && el.hasAttribute "charset"

/-- Any noscript, whatever is in it. -/
def isNoscript (el : Element) : Bool := el.tag == "noscript"

theorem ofElement_eq_charset (el : Element) :
    (HeadSlot.ofElement el false == .charset) = isCharset el := by
  unfold HeadSlot.ofElement isCharset HeadSlot.ofMeta HeadSlot.ofLink HeadSlot.ofScript HeadSlot.ofStyle
  grind

theorem ofElement_eq_runtimeStyle (el : Element) :
    (HeadSlot.ofElement el false == .runtimeStyle) = isRuntimeStyle el := by
  unfold HeadSlot.ofElement isRuntimeStyle HeadSlot.ofMeta HeadSlot.ofLink HeadSlot.ofScript HeadSlot.ofStyle
  grind [isRuntimeStyle]

theorem ofElement_eq_noscript (el : Element) :
    (HeadSlot.ofElement el false == .noscript) = isNoscript el := by
  unfold HeadSlot.ofElement isNoscript HeadSlot.ofMeta HeadSlot.ofLink HeadSlot.ofScript HeadSlot.ofStyle
  grind

/-! ## The pass -/

section Linked

variable (h : page.Linked) (hhead : page.Has page.head)

include h hhead

/-- A noscript with a boilerplate in it stays one. -/
theorem isNoscript_run (hx : x ≠ page.head) :
    Boilerplate.isNoscript (run page) x = Boilerplate.isNoscript page x := by
  have helement (y : NodeId) : (run page).element? y = page.element? y := Page.element?_congr kind?_run
  have hchildren : (run page).children x = page.children x := by rw [children_run h hhead, if_neg hx]
  have htag : (run page).tag? x = page.tag? x := Page.tag?_congr kind?_run
  simp only [Boilerplate.isNoscript, Page.isTag, htag, Page.elementChildren, Page.isElement, helement,
    hchildren]

/-- What stands at the ends of the head of the second page. -/
structure Ends (page page' : Page) : Prop where
  charset : ∀ x, (page.children page.head).find? (page.isElement · isCharset) = some x →
    (page'.children page.head).head? = some x
  noscript : ∀ x, (page.children page.head).find? (page.isElement · isNoscript) = some x →
    (page'.children page.head).getLast? = some x
  /-- The noscript of the boilerplate is last if it was the first noscript, and only then. -/
  boilerplate : (∃ x ∈ page.children page.head, Boilerplate.isNoscript page x = true) →
    ((∃ x, (page'.children page.head).getLast? = some x ∧ Boilerplate.isNoscript page' x = true)
      ↔ ∃ x, (page.children page.head).find? (page.isElement · isNoscript) = some x
        ∧ Boilerplate.isNoscript page x = true)

/-- The pass puts the first charset in front and the first noscript at the end. -/
theorem ends_run : Ends page (run page) := by
  obtain ⟨slot, hslot⟩ : ∃ slot, IsSlotting page (page.children page.head) slot :=
    exists_isSlotting (h.nodup page.head)
  have hchildren := children_head_run h hhead hslot
  have hlast : ∀ x, (page.children page.head).find? (page.isElement · isNoscript) = some x →
      ((run page).children page.head).getLast? = some x := by
    intro x hfind
    rw [hchildren]
    refine getLast?_arrange (mem_visible_of_find? hfind) fun y hy hne => ?_
    rw [hslot.slot_of_find? ofElement_eq_noscript hfind rfl]
    exact rank_lt_noscript (hslot.slot_ne_of_find? ofElement_eq_noscript hfind rfl y hy hne)
  refine { charset := ?_, noscript := hlast, boilerplate := ?_ }
  · intro x hfind
    rw [hchildren]
    refine head?_arrange (mem_visible_of_find? hfind) fun y hy hne => ?_
    rw [hslot.slot_of_find? ofElement_eq_charset hfind rfl]
    exact rank_charset_lt (hslot.slot_ne_of_find? ofElement_eq_charset hfind rfl y hy hne)
  · rintro ⟨z, hz, hboilerplate⟩
    -- there is a first noscript, and it is the last child afterwards
    have htag : page.isElement z isNoscript = true := by
      rw [Boilerplate.isNoscript, Bool.and_eq_true, Page.isTag_eq_isElement] at hboilerplate
      exact hboilerplate.1
    have hsome : ((page.children page.head).find? (page.isElement · isNoscript)).isSome = true :=
      List.find?_isSome.mpr ⟨z, hz, htag⟩
    obtain ⟨x, hfind⟩ := Option.isSome_iff_exists.mp hsome
    have hx : x ≠ page.head := by
      rintro rfl
      exact h.acyclic _ (.of_parent? ((h.mem_children_iff _ _).mp (List.mem_of_find?_eq_some hfind)))
    rw [hlast x hfind, hfind]
    simp only [Option.some.injEq, exists_eq_left', isNoscript_run h hhead hx]

end Linked

/-- The noscript of the boilerplate stands behind another one. -/
def shadowedNoscript : Markup.Document :=
  ⟨none, [.element ⟨"head", []⟩
    [.element ⟨"noscript", []⟩ [],
      .element ⟨"noscript", []⟩ [.element ⟨"style", [⟨"amp-boilerplate", ""⟩]⟩ []],
      .element ⟨"meta", [⟨"charset", "utf-8"⟩]⟩ []]]⟩

/-- The charset comes first though it was last, and the boilerplate noscript does not come last. -/
theorem ends_shadowedNoscript :
    let page := Page.ofDocument shadowedNoscript
    page.Linked ∧ page.Has page.head ∧ Ends page (run page) := by
  have h := Page.ofDocument_wellFormed shadowedNoscript
  exact ⟨h.linked, h.has_head, ends_run h.linked h.has_head⟩

/-- So it is not the last child when the pass has run. -/
theorem getLast?_shadowedNoscript :
    let page := Page.ofDocument shadowedNoscript
    (page.children page.head).any (Boilerplate.isNoscript page) = true
      ∧ ((run page).children page.head).getLast?.any (Boilerplate.isNoscript (run page)) = false := by
  decide +kernel

end AmpTuner.HeadOrder
