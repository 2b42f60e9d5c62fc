import AmpTuner.Proofs.Page.Upkeep

/-!
# Writes that leave the stylesheet alone

Most writes of the passes do not touch the custom stylesheet. `Keeps` is what they promise instead: the
same custom styles in the same order with the same texts, under the same budget. It holds of a page
whose custom styles are nothing else besides and hold nothing but text (`Tidy`), and keeps it so.

* **`Neutral`** is for changes of elements: the attributes that tell styles apart stay.
* **`Keeps.trans`** chains writes; there is one lemma for each write, named after it.
* **`Keeps.customText`**: the stylesheet reads the same after it all.
-/

namespace AmpTuner.Page

open Markup (Element)
open Vocabulary (isCustomStyle isRuntimeStyle isBoilerplateStyle)

variable {page page' page'' : Page} {id x : NodeId}

/-! ## Attributes that tell styles apart -/

/-- The attributes by which styles of the head are told apart. -/
def styleMarkers : List String := "amp-custom" :: "amp-runtime" :: Vocabulary.boilerplateAttributes

/-- The change does not make one kind of style into another. -/
structure Neutral (f : Element → Element) : Prop where
  tag : ∀ el, (f el).tag = el.tag
  distinct : ∀ el, el.Distinct → (f el).Distinct
  marker : ∀ el, ∀ name ∈ styleMarkers, (f el).hasAttribute name = el.hasAttribute name

namespace Neutral

variable {f g : Element → Element}

theorem comp (hf : Neutral f) (hg : Neutral g) : Neutral fun el => g (f el) where
  tag el := (hg.tag _).trans (hf.tag el)
  distinct el hel := hg.distinct _ (hf.distinct el hel)
  marker el name hname := (hg.marker _ name hname).trans (hf.marker el name hname)

/-- Setting an attribute that marks no style is neutral. -/
theorem set {name : String} (value : String) (hname : name ∉ styleMarkers) :
    Neutral fun el => el.set name value where
  tag _ := rfl
  distinct _ hel := hel.set
  marker el marker hmarker := by
    have hne : marker ≠ name := fun heq => hname (heq ▸ hmarker)
    rw [Element.hasAttribute_eq_isSome, Element.hasAttribute_eq_isSome,
      Element.attribute?_set_of_ne hne]

/-- Erasing an attribute that marks no style is neutral. -/
theorem erase {name : String} (hname : name ∉ styleMarkers) : Neutral fun el => el.erase name where
  tag _ := rfl
  distinct _ hel := hel.erase
  marker _ _ hmarker :=
    Element.hasAttribute_erase_of_ne fun heq => hname (heq ▸ hmarker)

variable (hf : Neutral f) (el : Element)

include hf

theorem isCustomStyle : isCustomStyle (f el) = isCustomStyle el := by
  rw [Vocabulary.isCustomStyle, Vocabulary.isCustomStyle, hf.tag, hf.marker el _ (by decide)]

theorem isRuntimeStyle : Vocabulary.isRuntimeStyle (f el) = Vocabulary.isRuntimeStyle el := by
  rw [Vocabulary.isRuntimeStyle, Vocabulary.isRuntimeStyle, hf.tag, hf.marker el _ (by decide)]

/-- A neutral change makes no boilerplate style and unmakes none. -/
theorem isBoilerplateStyle :
    Vocabulary.isBoilerplateStyle (f el) = Vocabulary.isBoilerplateStyle el := by
  rw [Vocabulary.isBoilerplateStyle, Vocabulary.isBoilerplateStyle, hf.tag]
  have hall := hf.marker el
  simp only [styleMarkers, Vocabulary.boilerplateAttributes, List.forall_mem_cons] at hall
  simp only [Vocabulary.boilerplateAttributes, List.any_cons, List.any_nil, hall]

end Neutral

/-! ## Changing elements -/

/-- A test that a change does not affect has the same answer everywhere. -/
theorem isElement_mapElement {f : Element → Element} {p : Element → Bool} (hp : ∀ el, p (f el) = p el)
    (x : NodeId) : (page.mapElement id f).isElement x p = page.isElement x p := by
  rw [isElement, element?_mapElement, isElement]
  split
  · rw [Option.any_map]
    congr 1
    exact funext hp
  · rfl

theorem customStyles_mapElement {f : Element → Element} (hf : Neutral f) :
    (page.mapElement id f).customStyles = page.customStyles :=
  customStyles_congr rfl ((mapElement_sameLinks f).children _)
    fun c _ => isElement_mapElement hf.isCustomStyle c

/-- What is no element is not changed. -/
theorem kind?_mapElement_of_element?_eq_none {f : Element → Element} (hx : page.element? x = none) :
    (page.mapElement id f).kind? x = page.kind? x := by
  rw [kind?_mapElement]
  split
  · rw [element?] at hx
    cases hkind : page.kind? x with
    | none => rfl
    | some kind =>
      cases kind with
      | element el => rw [hkind] at hx; cases hx
      | text content => rfl
      | comment content => rfl
  · rfl

/-! ## Pages with tidy styles -/

/-- No custom style is a runtime or boilerplate style too, and all that is in one is text. -/
structure Tidy (page : Page) : Prop where
  wellFormed : page.WellFormed
  notRuntime : ∀ s ∈ page.customStyles, page.isElement s isRuntimeStyle = false
  notBoilerplate : ∀ s ∈ page.customStyles, page.isElement s isBoilerplateStyle = false
  texts : ∀ s ∈ page.customStyles, ∀ c ∈ page.children s, page.element? c = none

/-- The stylesheet reads the same where the custom styles hold the same. -/
theorem Tidy.customText_congr (h : page.Tidy) (h' : page'.Tidy) (hstyles : page'.customStyles = page.customStyles)
    (hchildren : ∀ s ∈ page.customStyles, page'.children s = page.children s)
    (hkind : ∀ s ∈ page.customStyles, ∀ c ∈ page.children s, page'.kind? c = page.kind? c) :
    page'.customText = page.customText := by
  rw [Page.customText, Page.customText, customStyle?_eq, customStyle?_eq, hstyles]
  cases hstyle : page.customStyles.head? with
  | none => rfl
  | some s =>
    have hs : s ∈ page.customStyles := List.mem_of_head? hstyle
    have hs' : s ∈ page'.customStyles := hstyles ▸ hs
    obtain ⟨el, hel, _⟩ := h.wellFormed.of_mem_customStyles hs
    obtain ⟨el', hel', _⟩ := h'.wellFormed.of_mem_customStyles hs'
    -- a tidy style is read off its children, one by one
    show page'.textContent s = page.textContent s
    rw [h'.wellFormed.textContent_of_texts hel' (h'.texts s hs'),
      h.wellFormed.textContent_of_texts hel (h.texts s hs), hchildren s hs]
    congr 1
    exact List.filterMap_congr fun c hc => text?_congr (hkind s hs c hc)

/-- The custom styles, what they hold and the budget are the same on both pages. -/
structure SameStyles (page page' : Page) : Prop where
  budget : page'.budget = page.budget
  styles : page'.customStyles = page.customStyles
  runtime : ∀ s ∈ page.customStyles, page'.isElement s isRuntimeStyle = page.isElement s isRuntimeStyle
  boilerplate : ∀ s ∈ page.customStyles,
    page'.isElement s isBoilerplateStyle = page.isElement s isBoilerplateStyle
  children : ∀ s ∈ page.customStyles, page'.children s = page.children s
  kind? : ∀ s ∈ page.customStyles, ∀ c ∈ page.children s, page'.kind? c = page.kind? c

/-- Besides, the page is maintained. -/
structure Keeps (page page' : Page) : Prop extends SameStyles page page', Maintains page page'

namespace Keeps

/-- Nothing is done to the styles. -/
theorem refl (h : page.WellFormed) : page.Keeps page where
  budget := rfl
  styles := rfl
  runtime _ _ := rfl
  boilerplate _ _ := rfl
  children _ _ := rfl
  kind? _ _ _ _ := rfl
  wellFormed := h
  root := rfl
  head := rfl
  body := rfl
  tag? _ _ htag := htag

/-- Two changes that keep the styles, one after the other. -/
theorem trans (h : page.Keeps page') (h' : page'.Keeps page'') : page.Keeps page'' where
  budget := h'.budget.trans h.budget
  styles := h'.styles.trans h.styles
  runtime s hs := (h'.runtime s (h.styles ▸ hs)).trans (h.runtime s hs)
  boilerplate s hs := (h'.boilerplate s (h.styles ▸ hs)).trans (h.boilerplate s hs)
  children s hs := (h'.children s (h.styles ▸ hs)).trans (h.children s hs)
  kind? s hs c hc :=
    (h'.kind? s (h.styles ▸ hs) c (h.children s hs ▸ hc)).trans (h.kind? s hs c hc)
  wellFormed := h'.wellFormed
  root := h'.root.trans h.root
  head := h'.head.trans h.head
  body := h'.body.trans h.body
  tag? x tag htag := h'.tag? x tag (h.tag? x tag htag)

/-- A page stays tidy under changes that keep its styles. -/
theorem tidy (h : page.Keeps page') (hpage : page.Tidy) : page'.Tidy where
  wellFormed := h.wellFormed
  notRuntime s hs := by
    rw [h.styles] at hs
    rw [h.runtime s hs]
    exact hpage.notRuntime s hs
  notBoilerplate s hs := by
    rw [h.styles] at hs
    rw [h.boilerplate s hs]
    exact hpage.notBoilerplate s hs
  texts s hs c hc := by
    rw [h.styles] at hs
    rw [h.children s hs] at hc
    rw [element?_congr (h.kind? s hs c hc)]
    exact hpage.texts s hs c hc

theorem customText (h : page.Keeps page') (hpage : page.Tidy) : page'.customText = page.customText :=
  hpage.customText_congr (h.tidy hpage) h.styles h.children h.kind?

end Keeps

/-! ## One lemma for each write -/

namespace Tidy

variable (h : page.Tidy)

include h

/-- An element does not stand in a custom style. -/
theorem parent?_ne {el : Element} (hx : page.element? x = some el) {s : NodeId}
    (hs : s ∈ page.customStyles) : page.parent? x ≠ some s := by
  intro hp
  have hnone := h.texts s hs x ((h.wellFormed.linked.mem_children_iff s x).mpr hp)
  rw [hx] at hnone
  cases hnone

/-- A neutral change keeps the styles. -/
theorem mapElement {f : Element → Element} (hf : Neutral f) : page.Keeps (page.mapElement id f) := by
  have hlinks : page.SameLinks (page.mapElement id f) := mapElement_sameLinks f
  exact
    { budget := rfl
      styles := customStyles_mapElement hf
      runtime := fun s _ => isElement_mapElement hf.isRuntimeStyle s
      boilerplate := fun s _ => isElement_mapElement hf.isBoilerplateStyle s
      children := fun s _ => hlinks.children s
      kind? := fun s hs c hc => kind?_mapElement_of_element?_eq_none (h.texts s hs c hc)
      wellFormed := h.wellFormed.mapElement hf.tag hf.distinct
      root := rfl
      head := rfl
      body := rfl
      tag? := fun y tag htag => (tag?_mapElement hf.tag _ y).trans htag }

theorem setAttribute {name value : String} (hname : name ∉ styleMarkers) :
    page.Keeps (page.setAttribute id name value) :=
  h.mapElement (.set value hname)

/-- Writes that leave the kinds and the styles' children keep the rest. -/
theorem keeps_of_kinds (hframe : page.SameFrame page') (hkind : ∀ y, page.Has y → page'.kind? y = page.kind? y)
    (hhead : (page'.children page.head).filter (page'.isElement · isCustomStyle) = page.customStyles)
    (hchildren : ∀ s ∈ page.customStyles, page'.children s = page.children s)
    (hwell : page'.WellFormed) : page.Keeps page' := by
  have hhas {s : NodeId} (hs : s ∈ page.customStyles) : page.Has s := by
    obtain ⟨el, hel, _⟩ := h.wellFormed.of_mem_customStyles hs
    exact has_of_element? hel
  exact
    { budget := hframe.budget
      styles := by rw [customStyles, hframe.head]; exact hhead
      runtime := fun s hs => isElement_congr (element?_congr (hkind s (hhas hs))) _
      boilerplate := fun s hs => isElement_congr (element?_congr (hkind s (hhas hs))) _
      children := hchildren
      kind? := fun s _ c hc => hkind c (h.wellFormed.linked.has_child hc)
      wellFormed := hwell
      root := hframe.root
      head := hframe.head
      body := hframe.body
      tag? := fun y tag htag => (tag?_congr (hkind y (has_of_tag? htag))).trans htag }

/-- A new node without a parent keeps the styles. -/
theorem create {kind : NodeKind} (hkind : ∀ el, kind = .element el → el.Distinct) :
    page.Keeps (page.create kind).1 := by
  have hlinks : page.SameLinks (page.create kind).1 := create_sameLinks kind
  refine h.keeps_of_kinds (create_sameFrame _) (fun y hy => kind?_create_of_has kind hy) ?_
    (fun s _ => hlinks.children s) (h.wellFormed.create hkind)
  rw [hlinks.children]
  exact List.filter_congr fun c hc => isElement_congr
    (element?_congr (kind?_create_of_has kind (h.wellFormed.linked.has_child hc))) _

/-- Nodes that are neither styles nor in them may be detached. -/
theorem detachAll {ids : List NodeId} (hfixed : ∀ y ∈ ids, y ≠ page.head ∧ y ≠ page.body)
    (hcustom : ∀ y ∈ ids, page.isElement y isCustomStyle = false)
    (hparent : ∀ y ∈ ids, ∀ s ∈ page.customStyles, page.parent? y ≠ some s) :
    page.Keeps (page.detachAll ids) := by
  refine h.keeps_of_kinds (detachAll_sameFrame ids) (fun y _ => kind?_detachAll ids) ?_ ?_
    (h.wellFormed.detachAll hfixed)
  · have hsame := h.wellFormed.linked.customStyles_detachAll ids
    rw [customStyles, (detachAll_sameFrame ids).head] at hsame
    rw [hsame]
    -- no custom style is among those that go
    refine List.filter_eq_self.mpr fun s hs => decide_eq_true fun hmem => ?_
    have hcustomStyle := ((mem_customStyles_iff h.wellFormed.linked).mp hs).2
    rw [hcustom s hmem] at hcustomStyle
    cases hcustomStyle
  · intro s hs
    rw [h.wellFormed.linked.children_detachAll]
    refine List.filter_eq_self.mpr fun c hc => ?_
    have hp := (h.wellFormed.linked.mem_children_iff s c).mp hc
    exact decide_eq_true fun hmem => hparent c hmem s hs hp

/-- Elements that are no custom styles may go. -/
theorem detachAll_elements {ids : List NodeId} (hfixed : ∀ y ∈ ids, y ≠ page.head ∧ y ≠ page.body)
    (hel : ∀ y ∈ ids, ∃ el, page.element? y = some el ∧ isCustomStyle el = false) :
    page.Keeps (page.detachAll ids) := by
  refine h.detachAll hfixed (fun y hy => ?_) (fun y hy s hs => ?_)
  · obtain ⟨el, hel, hcustom⟩ := hel y hy
    rw [isElement, hel]
    exact hcustom
  · obtain ⟨el, hel, _⟩ := hel y hy
    exact h.parent?_ne hel hs

section Attach

variable {parent child : NodeId} {place : List NodeId → List NodeId}

/-- An element that is no custom style may be attached outside of the styles. -/
theorem attach {el : Element} (hel : page.element? child = some el) (hcustom : isCustomStyle el = false)
    (hparent : page.Has parent) (hstyle : parent ∉ page.customStyles) (hplace : IsPlacement child place)
    (hwell : (page.attach parent child place).WellFormed) :
    page.Keeps (page.attach parent child place) := by
  have hchildren (y : NodeId) : (page.attach parent child place).children y
      = if y = parent then place ((page.children y).filter (· != child))
        else (page.children y).filter (· != child) :=
    h.wellFormed.linked.children_attach hparent
  have hchild : page.isElement child isCustomStyle = false := by
    rw [isElement, hel]
    exact hcustom
  -- the child is no custom style, so it is seen neither where it was nor where it goes
  have hwithout (L : List NodeId) : (L.filter (· != child)).filter (page.isElement · isCustomStyle)
      = L.filter (page.isElement · isCustomStyle) := by
    rw [List.filter_filter]
    refine List.filter_congr fun c _ => ?_
    by_cases hc : c = child
    · rw [hc, hchild, Bool.false_and]
    · simp [hc]
  refine h.keeps_of_kinds attach_sameFrame (fun y _ => kind?_attach) ?_ ?_ hwell
  · have hflag : (fun y => (page.attach parent child place).isElement y isCustomStyle)
        = fun y => page.isElement y isCustomStyle :=
      funext fun y => isElement_congr (element?_congr kind?_attach) _
    rw [hchildren, hflag]
    split
    · rw [hplace.filter_eq hchild, hwithout, customStyles]
    · rw [hwithout, customStyles]
  · intro s hs
    rw [hchildren, if_neg (fun heq : s = parent => hstyle (heq ▸ hs))]
    refine List.filter_eq_self.mpr fun c hc => ?_
    rw [bne_iff_ne]
    rintro rfl
    exact h.parent?_ne hel hs ((h.wellFormed.linked.mem_children_iff s c).mp hc)

/-- A new node that is no custom style may be attached outside of the styles. -/
theorem attachNew {kind : NodeKind} (hkind : ∀ el, kind = .element el → el.Distinct ∧ isCustomStyle el = false)
    (hparent : (page.element? parent).isSome = true) (hroot : parent ≠ page.root)
    (hstyle : parent ∉ page.customStyles) (hplace : IsPlacement page.next place) :
    page.Keeps (page.attachNew kind parent place) := by
  obtain ⟨el, hel⟩ := Option.isSome_iff_exists.mp hparent
  have hhas := has_of_element? hel
  have hwell := h.wellFormed.attachNew (fun el hel => (hkind el hel).1) hparent hroot hplace
  have hchildren (y : NodeId) : (page.attachNew kind parent place).children y
      = if y = parent then place (page.children y) else page.children y :=
    h.wellFormed.linked.children_attachNew hhas
  have hnew : (page.attachNew kind parent place).isElement page.next isCustomStyle = false := by
    rw [isElement, element?, kind?_attachNew, if_pos rfl]
    cases kind with
    | element el => exact (hkind el rfl).2
    | text content => rfl
    | comment content => rfl
  refine h.keeps_of_kinds attachNew_sameFrame ?_ ?_ ?_ hwell
  · intro y hy
    rw [kind?_attachNew, if_neg (ne_next_of_has hy)]
  · have hold : (page.children page.head).filter ((page.attachNew kind parent place).isElement · isCustomStyle)
        = page.customStyles := by
      refine List.filter_congr fun c hc => isElement_congr (element?_congr ?_) _
      rw [kind?_attachNew, if_neg (ne_next_of_has (h.wellFormed.linked.has_child hc))]
    rw [hchildren]
    split
    · rw [hplace.filter_eq hnew, hold]
    · exact hold
  · intro s hs
    rw [hchildren, if_neg (fun heq : s = parent => hstyle (heq ▸ hs))]

end Attach

/-- The content of anything but head and styles may be replaced by a text. -/
theorem setTextContent {content : String} (hid : (page.element? id).isSome = true)
    (hroot : id ≠ page.root) (hhead : id ≠ page.head) (hstyle : id ∉ page.customStyles) :
    page.Keeps (page.setTextContent id content) := by
  obtain ⟨el, hel⟩ := Option.isSome_iff_exists.mp hid
  have hhas := has_of_element? hel
  refine h.keeps_of_kinds (setTextContent_sameFrame content) ?_ ?_ ?_
    (h.wellFormed.setTextContent hid hroot)
  · exact fun y hy => kind?_setTextContent_of_has hy content
  · have hsame := h.wellFormed.customStyles_setTextContent hhas hhead content
    rw [customStyles, (setTextContent_sameFrame content).head] at hsame
    exact hsame
  · intro s hs
    rw [h.wellFormed.linked.children_setTextContent content hhas,
      if_neg (fun heq : s = id => hstyle (heq ▸ hs))]

/-- Texts outside of the styles may be written. -/
theorem setContent {content : String} (hparent : ∀ s ∈ page.customStyles, page.parent? id ≠ some s) :
    page.Keeps (page.setContent id content) := by
  have hlinks : page.SameLinks (page.setContent id content) := setContent_sameLinks content
  have hflag (p : Element → Bool) (y : NodeId) : (page.setContent id content).isElement y p = page.isElement y p :=
    isElement_congr (element?_setContent content) p
  exact
    { budget := rfl
      styles := customStyles_congr rfl (hlinks.children _) fun c _ => hflag _ c
      runtime := fun s _ => hflag _ s
      boilerplate := fun s _ => hflag _ s
      children := fun s _ => hlinks.children s
      kind? := by
        intro s hs c hc
        refine kind?_setContent_of_ne ?_
        rintro rfl
        exact hparent s hs ((h.wellFormed.linked.mem_children_iff s c).mp hc)
      wellFormed := h.wellFormed.setContent
      root := rfl
      head := rfl
      body := rfl
      tag? := fun y tag htag => by rwa [Page.tag?, element?_setContent] }

/-! ### Writing the stylesheet -/

theorem withCounters (budget : Css.Budget) (nextGenerated : Nat) :
    ({ page with budget, nextGenerated } : Page).Tidy :=
  ⟨h.wellFormed.withCounters budget nextGenerated, h.notRuntime, h.notBoilerplate, h.texts⟩

theorem customText_withCounters (budget : Css.Budget) (nextGenerated : Nat) :
    ({ page with budget, nextGenerated } : Page).customText = page.customText :=
  h.customText_congr (h.withCounters budget nextGenerated) rfl (fun _ _ => rfl) (fun _ _ _ _ => rfl)

/-- A stylesheet that appending made is a custom style and nothing else. -/
theorem mem_customStyles_appendCustomCss (css : String) {s : NodeId}
    (hs : s ∈ (page.appendCustomCss css).customStyles) :
    s ∈ page.customStyles ∨ (page.appendCustomCss css).element? s = some customElement := by
  by_cases hhas : page.Has s
  · rw [h.wellFormed.customStyles_appendCustomCss] at hs
    split at hs
    · exact absurd (List.mem_singleton.mp hs ▸ hhas) not_has_next
    · exact .inl hs
  · obtain ⟨el, hel, _⟩ := (h.wellFormed.appendCustomCss css).of_mem_customStyles hs
    rcases h.wellFormed.of_not_has_appendCustomCss css (has_of_element? hel) hhas with hnew | htext
    · exact .inr hnew.2
    · rw [element?, (h.wellFormed.kind?_of_mem_textNodes css htext).2] at hel
      cases hel

/-- Adding to the custom style keeps the page tidy. -/
theorem appendCustomCss (css : String) : (page.appendCustomCss css).Tidy := by
  have hkinds : page.SameKinds (page.appendCustomCss css) := appendCustomCss_sameKinds css
  have hflag {p : Element → Bool} (hnew : p customElement = false)
      (hold : ∀ s ∈ page.customStyles, page.isElement s p = false) :
      ∀ s ∈ (page.appendCustomCss css).customStyles, (page.appendCustomCss css).isElement s p = false := by
    intro s hs
    rcases h.mem_customStyles_appendCustomCss css hs with hs | hel
    · obtain ⟨el, hel, _⟩ := h.wellFormed.of_mem_customStyles hs
      rw [isElement_congr (element?_congr (hkinds.kind? s (has_of_element? hel)))]
      exact hold s hs
    · rw [isElement, hel]
      exact hnew
  refine ⟨h.wellFormed.appendCustomCss css, hflag rfl h.notRuntime, hflag rfl h.notBoilerplate, ?_⟩
  -- the first style holds what was written, and the others hold what they held
  intro s hs c hc
  by_cases hstyle : (page.appendCustomCss css).customStyle? = some s
  · rw [h.wellFormed.children_customStyle_appendCustomCss css hstyle] at hc
    rw [element?, (h.wellFormed.kind?_of_mem_textNodes css hc).2]
    rfl
  · rw [h.wellFormed.customStyle?_appendCustomCss] at hstyle
    rw [h.wellFormed.customStyles_appendCustomCss] at hs
    cases hnone : page.customStyle? with
    | none =>
      rw [hnone, if_pos rfl, List.mem_singleton] at hs
      rw [hnone, hs] at hstyle
      exact absurd rfl hstyle
    | some style =>
      rw [hnone, if_neg (by simp)] at hs
      obtain ⟨el, hel, _, hhead, _⟩ := h.wellFormed.of_mem_customStyles hs
      rw [h.wellFormed.children_appendCustomCss css (has_of_element? hel) hhead
        (by rw [hnone]; rw [hnone] at hstyle; exact hstyle)] at hc
      rw [element?_congr (hkinds.kind? c (h.wellFormed.linked.has_child hc))]
      exact h.texts s hs c hc

end Tidy

end AmpTuner.Page
