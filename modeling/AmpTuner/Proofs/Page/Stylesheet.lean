import AmpTuner.Proofs.Page.WellFormed
import AmpTuner.Proofs.Page.Preorder
import AmpTuner.Amp.Vocabulary

/-!
# The custom stylesheet

The custom stylesheet is the first of the custom styles among the children of the head. Here is which
they are after a move, what text a style holds, and what appending rules does to a page.

* **`customStyles`** lists them all. A move that neither brings nor takes one leaves the list alone, in
  whatever order the other children stand.
* **`textContent_setTextContent`**: what was written is what is read.
* **`appendCustomCss_eq`** splits appending into two steps, finding or making the stylesheet
  (`withCustomStyle`) and writing its text. What follows is about the two together, and about every node.
-/

namespace AmpTuner.Page

open Markup (Element)
open Vocabulary (isCustomStyle)

variable {page page' : Page} {id x : NodeId}

/-! ## Texts -/

/-- The content of a text node. -/
def text? (page : Page) (id : NodeId) : Option String :=
  match page.kind? id with
  | some (.text content) => some content
  | _ => none

theorem text?_congr {x' : NodeId} (h : page'.kind? x' = page.kind? x) :
    page'.text? x' = page.text? x := by
  rw [text?, text?, h]

theorem textContent_of_element {el : Element} (h : page.element? x = some el) :
    page.textContent x = String.join ((page.descendants x).filterMap page.text?) := by
  rw [textContent, element?_eq_some_iff.mp h]
  rfl

/-- A text has nothing below it. -/
theorem WellFormed.descendants_of_texts (h : page.WellFormed)
    (htexts : ∀ c ∈ page.children x, page.element? c = none) :
    page.descendants x = page.children x := by
  rw [h.linked.descendants_eq_preorder, h.linked.preorder_eq]
  have single (c : NodeId) (hc : c ∈ page.children x) : c :: page.preorder c = [c] := by
    rw [h.linked.preorder_eq, h.leaf c (htexts c hc)]
    rfl
  rw [List.flatMap_congr single]
  exact List.flatMap_singleton' _

theorem WellFormed.textContent_of_texts (h : page.WellFormed) {el : Element}
    (hel : page.element? x = some el) (htexts : ∀ c ∈ page.children x, page.element? c = none) :
    page.textContent x = String.join ((page.children x).filterMap page.text?) := by
  rw [textContent_of_element hel, h.descendants_of_texts htexts]

/-- A text is no element. -/
theorem element?_eq_none_of_text? {content : String} (h : page.text? x = some content) :
    page.element? x = none := by
  rw [text?] at h
  split at h
  · next hkind => rw [element?, hkind]; rfl
  · cases h

theorem text?_eq_some_iff {content : String} :
    page.text? x = some content ↔ page.kind? x = some (.text content) := by
  rw [text?]
  constructor
  · intro h
    split at h
    · next hkind => rw [hkind, Option.some.inj h]
    · cases h
  · intro h
    rw [h]

theorem text?_of_element? {el : Element} (h : page.element? x = some el) : page.text? x = none := by
  rw [text?, element?_eq_some_iff.mp h]

theorem text?_of_comment {content : String} (h : page.kind? x = some (.comment content)) : page.text? x = none := by
  rw [text?, h]

/-- The text of a node: its own, or that of all texts below it. -/
theorem textContent_eq : page.textContent x
    = (page.text? x).getD (String.join ((page.descendants x).filterMap page.text?)) := by
  rw [textContent]
  split
  · next content hkind => rw [text?_eq_some_iff.mpr hkind]; rfl
  · next hkind =>
    have hnone : page.text? x = none := by
      rw [text?]
      split
      · next content htext => exact absurd htext (hkind content)
      · rfl
    rw [hnone]
    rfl

/-- A child of the head has the same text in a page whose texts are the same and stand where they stood, but
for the head. -/
theorem WellFormed.textContent_congr_of_child (h : page.WellFormed) (h' : page'.WellFormed)
    (htext : ∀ x, page.Has x → page'.text? x = page.text? x)
    (hchildren : ∀ x, x ≠ page.head → page'.children x = page.children x) (hn : page.parent? id = some page.head) :
    page'.textContent id = page.textContent id := by
  have hdescendants : page'.descendants id = page.descendants id := by
    rw [h.linked.descendants_eq_preorder, h'.linked.descendants_eq_preorder]
    refine h.linked.preorder_congr h'.linked (S := fun a => a ≠ page.head ∧ ¬ page.Above a page.head) ?_
      (fun a ha => hchildren a ha.1) ⟨(h.head_child hn).1, fun habove => h.linked.acyclic _ (habove.child hn)⟩
    rintro a c ⟨hne, hnot⟩ hc
    refine ⟨fun heq => hnot (heq ▸ .of_parent? hc), fun habove => hnot (.trans (.of_parent? hc) habove)⟩
  have htexts : (page.descendants id).filterMap page'.text? = (page.descendants id).filterMap page.text? := by
    refine List.filterMap_congr fun c hc => htext c ?_
    obtain ⟨q, hq, -⟩ := above_iff.mp (h.linked.mem_descendants_iff.mp hc)
    exact has_of_parent? hq
  rw [textContent_eq, textContent_eq, htext id (has_of_parent? hn), hdescendants, htexts]

/-! ## Text content that was set -/

/-- Setting a text keeps what every old node is. -/
theorem kind?_setTextContent_of_has (hx : page.Has x) (content : String) :
    (page.setTextContent id content).kind? x = page.kind? x := by
  rw [kind?_setTextContent, if_neg]
  rw [textNodes]
  split
  · simp
  · simpa using ne_next_of_has hx

theorem setTextContent_sameKinds (content : String) : page.SameKinds (page.setTextContent id content) :=
  ⟨fun _ hx => kind?_setTextContent_of_has hx content⟩

/-- The children after the write: the new text, unless it is empty. -/
theorem WellFormed.text?_textNodes (h : page.WellFormed) (hid : page.Has id) (content : String) :
    ((page.setTextContent id content).children id).filterMap (page.setTextContent id content).text?
      = if content.isEmpty then [] else [content] := by
  rw [h.linked.children_setTextContent content hid, if_pos rfl, textNodes]
  split
  · rfl
  · next hne =>
    have hkind : (page.setTextContent id content).text? page.next = some content := by
      rw [text?_eq_some_iff, kind?_setTextContent, textNodes, if_neg hne]
      simp
    rw [List.filterMap_cons, hkind]
    rfl

/-- The text that was written is read. -/
theorem WellFormed.textContent_setTextContent (h : page.WellFormed) {el : Element}
    (hid : page.element? id = some el) (hroot : id ≠ page.root) (content : String) :
    (page.setTextContent id content).textContent id = content := by
  have hhas := has_of_element? hid
  have hset : (page.setTextContent id content).WellFormed :=
    h.setTextContent (by rw [hid]; rfl) hroot
  have hel : (page.setTextContent id content).element? id = some el := by
    rw [element?_congr (kind?_setTextContent_of_has hhas content), hid]
  rw [hset.textContent_of_texts hel, h.text?_textNodes hhas]
  · split
    · next hempty => simpa using hempty.symm
    · simp [String.join]
  · intro c hc
    rw [h.linked.children_setTextContent content hhas, if_pos rfl] at hc
    rw [element?, kind?_setTextContent, if_pos hc]
    rfl

/-! ## The styles in the head -/

/-- The custom styles among the children of the head. -/
def customStyles (page : Page) : List NodeId :=
  (page.children page.head).filter (page.isElement · isCustomStyle)

theorem mem_customStyles_iff (h : page.Linked) :
    x ∈ page.customStyles
      ↔ page.parent? x = some page.head ∧ page.isElement x isCustomStyle = true := by
  rw [customStyles, List.mem_filter, h.mem_children_iff]

/-- The first of them is the one that counts. -/
theorem customStyle?_eq : page.customStyle? = page.customStyles.head? := by
  rw [customStyle?, elementChildren, List.find?_filter, customStyles, List.head?_filter]
  -- both look for a style with the attribute, one by its tag and attributes, one by its element
  congr 1
  funext id
  cases hel : page.element? id with
  | none => simp [isElement, hel]
  | some el =>
    simp only [isElement, isTag, tag?, hasAttribute, isCustomStyle, hel, Option.map_some,
      Option.any_some, Option.isSome_some, true_and, Bool.decide_eq_true]
    rfl

/-- What the custom stylesheet holds. -/
def customText (page : Page) : String :=
  match page.customStyle? with
  | none => ""
  | some style => page.textContent style

theorem customBytes_eq : page.customBytes = page.customText.utf8ByteSize := by
  rw [customBytes, customText]
  cases page.customStyle? <;> rfl

theorem customText_of_customStyle? {style : NodeId} (h : page.customStyle? = some style) :
    page.customText = page.textContent style := by
  rw [customText, h]

theorem mem_customStyles_of_customStyle? {style : NodeId} (h : page.customStyle? = some style) :
    style ∈ page.customStyles :=
  List.mem_of_head? (customStyle?_eq ▸ h)

/-- A custom style is an element below the head. -/
theorem WellFormed.of_mem_customStyles (h : page.WellFormed) (hx : x ∈ page.customStyles) :
    ∃ el, page.element? x = some el ∧ isCustomStyle el = true ∧ x ≠ page.head ∧ x ≠ page.root := by
  obtain ⟨hparent, hel⟩ := (mem_customStyles_iff h.linked).mp hx
  obtain ⟨el, hel, hcustom⟩ := isElement_iff.mp hel
  refine ⟨el, hel, hcustom, ?_, ?_⟩
  · rintro rfl
    exact h.linked.acyclic page.head (.of_parent? hparent)
  · rintro rfl
    rw [h.parent?_root] at hparent
    cases hparent

/-- The custom style is a style. -/
theorem WellFormed.tag_of_customStyle? (h : page.WellFormed) {style : NodeId} {el : Element}
    (hstyle : page.customStyle? = some style) (hel : page.element? style = some el) : el.tag = "style" := by
  obtain ⟨el', hel', hcustom, _⟩ := h.of_mem_customStyles (mem_customStyles_of_customStyle? hstyle)
  obtain rfl := Option.some.inj (hel.symm.trans hel')
  simp only [isCustomStyle, Bool.and_eq_true, beq_iff_eq] at hcustom
  exact hcustom.1

/-! ## Which styles there are after a write -/

/-- The list depends on the children of the head and on what they are. -/
theorem customStyles_congr (hhead : page'.head = page.head)
    (hchildren : page'.children page.head = page.children page.head)
    (hkind : ∀ c ∈ page.children page.head, page'.isElement c isCustomStyle = page.isElement c isCustomStyle) :
    page'.customStyles = page.customStyles := by
  rw [customStyles, customStyles, hhead, hchildren]
  exact List.filter_congr hkind

theorem isElement_congr {x' : NodeId} (h : page'.element? x' = page.element? x) (p : Element → Bool) :
    page'.isElement x' p = page.isElement x p := by
  rw [isElement, isElement, h]

/-- Writing a text outside the head makes no custom style come or go. -/
theorem WellFormed.customStyles_setTextContent (h : page.WellFormed) (hid : page.Has id)
    (hhead : id ≠ page.head) (content : String) :
    (page.setTextContent id content).customStyles = page.customStyles := by
  refine customStyles_congr (setTextContent_sameFrame content).head ?_ ?_
  · rw [h.linked.children_setTextContent content hid, if_neg hhead.symm]
  · intro c hc
    exact isElement_congr (element?_congr
      (kind?_setTextContent_of_has (h.linked.has_child hc) content)) _

/-- Of the custom styles, those that are detached are gone. -/
theorem Linked.customStyles_detachAll (h : page.Linked) (ids : List NodeId) :
    (page.detachAll ids).customStyles = page.customStyles.filter (· ∉ ids) := by
  have hflag (c : NodeId) : (page.detachAll ids).isElement c isCustomStyle = page.isElement c isCustomStyle :=
    isElement_congr (element?_congr (kind?_detachAll ids)) _
  rw [customStyles, (detachAll_sameFrame ids).head, h.children_detachAll, customStyles, List.filter_filter,
    List.filter_filter]
  refine List.filter_congr fun c _ => ?_
  rw [hflag, Bool.and_comm]

/-! ## Appending rules -/

/-- The element of a custom stylesheet that the page did not have. -/
def customElement : Element := .make "style" [("amp-custom", "")]

theorem withCustomStyle_of_some {style : NodeId} (h : page.customStyle? = some style) :
    page.withCustomStyle = (page, style) := by
  rw [withCustomStyle, h]

/-- The page with a new, empty stylesheet at the end of its head. -/
def withNewStyle (page : Page) : Page :=
  page.attachNew (.element customElement) page.head (· ++ [page.next])

theorem withCustomStyle_of_none (h : page.customStyle? = none) :
    page.withCustomStyle = (page.withNewStyle, page.next) := by
  rw [withCustomStyle, h]
  rfl

theorem element?_withNewStyle : page.withNewStyle.element? page.next = some customElement := by
  rw [element?_eq_some_iff, withNewStyle, kind?_attachNew, if_pos rfl]

theorem kind?_withNewStyle_of_has (h : page.Has x) : page.withNewStyle.kind? x = page.kind? x := by
  rw [withNewStyle, kind?_attachNew, if_neg (ne_next_of_has h)]

theorem withNewStyle_sameFrame : page.SameFrame page.withNewStyle := attachNew_sameFrame

theorem WellFormed.children_withNewStyle (h : page.WellFormed) :
    page.withNewStyle.children x
      = if x = page.head then page.children x ++ [page.next] else page.children x := by
  rw [withNewStyle, h.linked.children_attachNew h.has_head]

/-- Adding to the style is writing its text anew. -/
theorem appendCustomCss_eq (css : String) :
    page.appendCustomCss css
      = page.withCustomStyle.1.setTextContent page.withCustomStyle.2
          (page.withCustomStyle.1.textContent page.withCustomStyle.2 ++ css) :=
  rfl

theorem withCustomStyle_sameFrame : page.SameFrame page.withCustomStyle.1 := by
  cases h : page.customStyle? with
  | none => rw [withCustomStyle_of_none h]; exact withNewStyle_sameFrame
  | some style => rw [withCustomStyle_of_some h]; exact .refl _

theorem appendCustomCss_sameFrame (css : String) : page.SameFrame (page.appendCustomCss css) :=
  withCustomStyle_sameFrame.trans (setTextContent_sameFrame _)

theorem withCustomStyle_sameKinds : page.SameKinds page.withCustomStyle.1 := by
  cases hstyle : page.customStyle? with
  | none => rw [withCustomStyle_of_none hstyle]; exact ⟨fun _ hx => kind?_withNewStyle_of_has hx⟩
  | some style => rw [withCustomStyle_of_some hstyle]; exact .refl _

theorem appendCustomCss_sameKinds (css : String) : page.SameKinds (page.appendCustomCss css) :=
  withCustomStyle_sameKinds.trans (setTextContent_sameKinds _)

namespace WellFormed

variable (h : page.WellFormed)

include h

theorem withNewStyle : page.withNewStyle.WellFormed := by
  refine h.attachNew (fun el hel => ?_) h.isSome_element?_head h.head_ne_root (isPlacement_append _)
  obtain rfl := NodeKind.element.inj hel
  exact Element.distinct_make _ _

theorem withCustomStyle : page.withCustomStyle.1.WellFormed := by
  cases hstyle : page.customStyle? with
  | none => rw [withCustomStyle_of_none hstyle]; exact h.withNewStyle
  | some style => rwa [withCustomStyle_of_some hstyle]

/-- The new stylesheet is the only one. -/
theorem customStyles_withCustomStyle : page.withCustomStyle.1.customStyles
    = if page.customStyle? = none then [page.next] else page.customStyles := by
  cases hstyle : page.customStyle? with
  | none =>
    -- no child that was there is a custom style, so the new one is the whole list
    have hnone : page.customStyles = [] := by rwa [customStyle?_eq, List.head?_eq_none_iff] at hstyle
    have hnew : page.withNewStyle.isElement page.next isCustomStyle = true := by
      rw [isElement, element?_withNewStyle]
      rfl
    have hold : (page.children page.head).filter (page.withNewStyle.isElement · isCustomStyle)
        = page.customStyles :=
      List.filter_congr fun c hc => isElement_congr
        (element?_congr (kind?_withNewStyle_of_has (h.linked.has_child hc))) _
    rw [withCustomStyle_of_none hstyle, if_pos rfl, customStyles, withNewStyle_sameFrame.head,
      h.children_withNewStyle, if_pos rfl, List.filter_append, hold, hnone, List.nil_append]
    exact List.filter_cons_of_pos hnew
  | some style =>
    rw [withCustomStyle_of_some hstyle, if_neg (by simp)]

/-- The style that was seen to is the one that counts. -/
theorem customStyle?_withCustomStyle :
    page.withCustomStyle.1.customStyle? = some page.withCustomStyle.2 := by
  rw [customStyle?_eq, h.customStyles_withCustomStyle]
  cases hstyle : page.customStyle? with
  | none => rw [withCustomStyle_of_none hstyle, if_pos rfl]; rfl
  | some style => rw [withCustomStyle_of_some hstyle, if_neg (by simp), ← customStyle?_eq, hstyle]

/-- A new style has no text yet. -/
theorem customText_withCustomStyle : page.withCustomStyle.1.customText = page.customText := by
  cases hstyle : page.customStyle? with
  | none =>
    -- a new stylesheet is empty, which reads as no stylesheet does
    have hchildren : page.withNewStyle.children page.next = [] := by
      rw [h.children_withNewStyle, if_neg (ne_next_of_has h.has_head).symm,
        children_of_not_has not_has_next]
    have hempty : page.withNewStyle.textContent page.next = "" := by
      rw [h.withNewStyle.textContent_of_texts element?_withNewStyle (by simp [hchildren]), hchildren]
      rfl
    rw [customText_of_customStyle? h.customStyle?_withCustomStyle, withCustomStyle_of_none hstyle,
      hempty, customText, hstyle]
  | some style => rw [withCustomStyle_of_some hstyle]

/-- Adding to the style keeps the page well formed. -/
theorem appendCustomCss (css : String) : (page.appendCustomCss css).WellFormed := by
  have hstyle := mem_customStyles_of_customStyle? h.customStyle?_withCustomStyle
  obtain ⟨el, hel, _, _, hroot⟩ := h.withCustomStyle.of_mem_customStyles hstyle
  rw [appendCustomCss_eq]
  exact h.withCustomStyle.setTextContent (by rw [hel]; rfl) hroot

/-- Adding to the style makes one where there is none. -/
theorem customStyles_appendCustomCss (css : String) : (page.appendCustomCss css).customStyles
    = if page.customStyle? = none then [page.next] else page.customStyles := by
  have hstyle := mem_customStyles_of_customStyle? h.customStyle?_withCustomStyle
  obtain ⟨el, hel, _, hhead, _⟩ := h.withCustomStyle.of_mem_customStyles hstyle
  rw [appendCustomCss_eq, h.withCustomStyle.customStyles_setTextContent (has_of_element? hel) hhead,
    h.customStyles_withCustomStyle]

/-- What is added stands behind what was there. -/
theorem customText_appendCustomCss (css : String) :
    (page.appendCustomCss css).customText = page.customText ++ css := by
  have hfound := h.customStyle?_withCustomStyle
  obtain ⟨el, hel, _, hhead, hroot⟩ :=
    h.withCustomStyle.of_mem_customStyles (mem_customStyles_of_customStyle? hfound)
  -- writing its text does not change which style is the first
  have hkept : (page.appendCustomCss css).customStyle? = some page.withCustomStyle.2 := by
    rw [customStyle?_eq, appendCustomCss_eq,
      h.withCustomStyle.customStyles_setTextContent (has_of_element? hel) hhead, ← customStyle?_eq,
      hfound]
  rw [customText_of_customStyle? hkept, appendCustomCss_eq,
    h.withCustomStyle.textContent_setTextContent hel hroot, ← customText_of_customStyle? hfound,
    h.customText_withCustomStyle]

/-! ### What else appending does -/

/-- The stylesheet is the one there was, or it is new. -/
theorem customStyle?_appendCustomCss (css : String) :
    (page.appendCustomCss css).customStyle? = some (page.customStyle?.getD page.next) := by
  rw [customStyle?_eq, h.customStyles_appendCustomCss, customStyle?_eq]
  cases hstyles : page.customStyles with
  | nil => rfl
  | cons style rest => rfl

/-- Only what stood in the stylesheet loses its place. -/
theorem parent?_appendCustomCss (css : String) (hx : page.Has x) {p : NodeId} :
    (page.appendCustomCss css).parent? x = some p
      ↔ page.parent? x = some p ∧ page.customStyle? ≠ some p := by
  have hne {content : String} : x ∉ page.withCustomStyle.1.textNodes content := by
    rw [textNodes]
    split
    · simp
    · simpa using ne_next_of_has (withCustomStyle_sameKinds.has hx)
  rw [appendCustomCss_eq, h.withCustomStyle.linked.parent?_setTextContent, if_neg hne]
  cases hstyle : page.customStyle? with
  | none =>
    -- the stylesheet is new, so nothing stands in it
    have hnot : page.parent? x ≠ some page.next := fun hp => not_has_next (h.linked.has_parent hp)
    have hparent : page.withNewStyle.parent? x = page.parent? x := by
      rw [Page.withNewStyle, parent?_attachNew, if_neg (ne_next_of_has hx)]
    rw [withCustomStyle_of_none hstyle, hparent, if_neg hnot]
    simp
  | some style =>
    rw [withCustomStyle_of_some hstyle]
    by_cases hp : page.parent? x = some style
    · rw [if_pos hp, hp]
      simp
    · rw [if_neg hp]
      refine ⟨fun hxp => ⟨hxp, fun heq => hp ?_⟩, fun hxp => hxp.1⟩
      rw [hxp, heq]

/-- Outside head and style, no children change. -/
theorem children_appendCustomCss (css : String) (hx : page.Has x) (hhead : x ≠ page.head)
    (hstyle : page.customStyle? ≠ some x) :
    (page.appendCustomCss css).children x = page.children x := by
  have hfound := h.customStyle?_withCustomStyle
  obtain ⟨el, hel, _⟩ := h.withCustomStyle.of_mem_customStyles (mem_customStyles_of_customStyle? hfound)
  rw [appendCustomCss_eq, h.withCustomStyle.linked.children_setTextContent _ (has_of_element? hel)]
  cases hnone : page.customStyle? with
  | none =>
    rw [withCustomStyle_of_none hnone, if_neg (ne_next_of_has hx), h.children_withNewStyle, if_neg hhead]
  | some style =>
    have hne : x ≠ style := fun heq => hstyle (heq ▸ hnone)
    rw [withCustomStyle_of_some hnone, if_neg hne]

/-- The stylesheet holds its text in one node, or nothing. -/
theorem children_customStyle_appendCustomCss (css : String) {style : NodeId}
    (hstyle : (page.appendCustomCss css).customStyle? = some style) :
    (page.appendCustomCss css).children style
      = page.withCustomStyle.1.textNodes (page.customText ++ css) := by
  have hfound := h.customStyle?_withCustomStyle
  obtain ⟨el, hel, _, hhead, _⟩ :=
    h.withCustomStyle.of_mem_customStyles (mem_customStyles_of_customStyle? hfound)
  rw [appendCustomCss_eq, customStyle?_eq,
    h.withCustomStyle.customStyles_setTextContent (has_of_element? hel) hhead, ← customStyle?_eq,
    hfound] at hstyle
  obtain rfl := Option.some.inj hstyle
  rw [appendCustomCss_eq, h.withCustomStyle.linked.children_setTextContent _ (has_of_element? hel),
    if_pos rfl, ← customText_of_customStyle? hfound, h.customText_withCustomStyle]

/-- The new text of the style is the whole of its text. -/
theorem kind?_of_mem_textNodes (css : String) {t : NodeId}
    (ht : t ∈ page.withCustomStyle.1.textNodes (page.customText ++ css)) :
    page.customText ++ css ≠ ""
      ∧ (page.appendCustomCss css).kind? t = some (.text (page.customText ++ css)) := by
  -- an empty text gets no node
  have hne : page.customText ++ css ≠ "" := by
    rintro hempty
    rw [textNodes, hempty] at ht
    simp at ht
  refine ⟨hne, ?_⟩
  rw [appendCustomCss_eq, kind?_setTextContent, ← customText_of_customStyle? h.customStyle?_withCustomStyle,
    h.customText_withCustomStyle, if_pos ht]

/-- A node that is new is the stylesheet or its text. -/
theorem of_not_has_appendCustomCss (css : String) {x : NodeId} (hx : (page.appendCustomCss css).Has x)
    (hnew : ¬ page.Has x) :
    (page.appendCustomCss css).customStyle? = some x
        ∧ (page.appendCustomCss css).element? x = some customElement
      ∨ x ∈ page.withCustomStyle.1.textNodes (page.customText ++ css) := by
  rw [appendCustomCss_eq, has_setTextContent, ← customText_of_customStyle? h.customStyle?_withCustomStyle,
    h.customText_withCustomStyle] at hx
  rcases hx with hx | hx
  · left
    cases hnone : page.customStyle? with
    | none =>
      rw [withCustomStyle_of_none hnone, Page.withNewStyle, has_attachNew] at hx
      obtain rfl := hx.resolve_left hnew
      refine ⟨by rw [h.customStyle?_appendCustomCss, hnone]; rfl, ?_⟩
      rw [appendCustomCss_eq, withCustomStyle_of_none hnone, (setTextContent_sameKinds _).element?
        element?_withNewStyle]
    | some style =>
      rw [withCustomStyle_of_some hnone] at hx
      exact absurd hx hnew
  · exact .inr hx

end WellFormed

end AmpTuner.Page
