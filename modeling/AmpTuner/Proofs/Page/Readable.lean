import AmpTuner.Proofs.Page.Rereading
import AmpTuner.Proofs.Page.Attached
import AmpTuner.Proofs.Page.Stylesheet

/-!
# Readable pages, node by node

A tree is readable when each of its nodes is, and what that asks of a node (`NodeReadable`) is about the
node and the kinds of its children alone. Passes can be checked against it one write at a time.

* **`readable_iff`**: the tree of a page is readable exactly when all nodes on the page are.
* A page is `NearlyReadable` when its stylesheet alone may hold an end tag, as rules are written into it
  without looking. **`NearlyReadable.reread_iff`** shows that such a page comes back from its markup exactly
  when the stylesheet does not use that licence.
-/

namespace AmpTuner.Page

open Markup (Element Tree Document IsComment holdsEndTag isVoid isRawText)

variable {page page' : Page} {id x : NodeId} {excused : Prop}

/-- The element holds nothing, or one text that does not hold its end tag unless `excused`. -/
def IsLiteral (page : Page) (x : NodeId) (tag : String) (excused : Prop) : Prop :=
  page.children x = [] ∨ ∃ t content, page.children x = [t] ∧ page.kind? t = some (.text content)
    ∧ content ≠ "" ∧ (excused ∨ holdsEndTag tag content = false)

/-- What the tree of a page being readable asks of a node. -/
inductive NodeReadable (page : Page) (x : NodeId) (excused : Prop) : Prop where
  | text {content : String} (hkind : page.kind? x = some (.text content)) (hne : content ≠ "")
  | comment {content : String} (hkind : page.kind? x = some (.comment content)) (h : IsComment content)
  | element {el : Element} (hel : page.element? x = some el) (hreadable : el.Readable)
      (hvoid : isVoid el.tag = true → page.children x = [])
      (hraw : isRawText el.tag = true → page.IsLiteral x el.tag excused)

theorem IsLiteral.mono {tag : String} {excused' : Prop} (h : page.IsLiteral x tag excused)
    (himp : excused → excused') : page.IsLiteral x tag excused' :=
  h.imp_right fun ⟨t, content, hchildren, hkind, hne, hend⟩ =>
    ⟨t, content, hchildren, hkind, hne, hend.imp_left himp⟩

theorem NodeReadable.mono {excused' : Prop} (h : page.NodeReadable x excused) (himp : excused → excused') :
    page.NodeReadable x excused' := by
  cases h with
  | text hkind hne => exact .text hkind hne
  | comment hkind h => exact .comment hkind h
  | element hel hreadable hvoid hraw =>
    exact .element hel hreadable hvoid fun htag => (hraw htag).mono himp

/-- An element that is neither void nor raw may hold anything. -/
theorem NodeReadable.of_plain {el : Element} (hel : page.element? x = some el) (hreadable : el.Readable)
    (hvoid : isVoid el.tag = false) (hraw : isRawText el.tag = false) : page.NodeReadable x excused :=
  .element hel hreadable (fun h => by rw [hvoid] at h; cases h) (fun h => by rw [hraw] at h; cases h)

/-! ## The tree of a readable page -/

/-- The tree of a node is readable if all attached nodes are. -/
theorem WellFormed.readable_treeOf (h : page.WellFormed)
    (hnodes : ∀ x, page.Attached x → page.NodeReadable x False) (hx : page.Attached x) :
    (page.treeOf x).Readable := by
  induction x using h.linked.down_induction with
  | step x ih =>
    cases hnodes x hx with
    | text hkind hne =>
      rw [h.linked.treeOf_text hkind]
      exact .text hne
    | comment hkind hcomment =>
      rw [h.linked.treeOf_comment hkind]
      exact .comment hcomment
    | @element el hel hreadable hvoid hraw =>
      rw [h.linked.treeOf_element (element?_eq_some_iff.mp hel)]
      -- a raw element holds its one text, a void one nothing, and any other holds readable trees
      cases htag : isRawText el.tag with
      | true =>
        rcases hraw htag with hnil | ⟨t, content, hone, hkind, hne, hend⟩
        · rw [hnil]
          exact .empty hreadable
        · rw [hone, List.map_singleton, h.linked.treeOf_text hkind]
          exact .literal hreadable htag hne (hend.resolve_left id)
      | false =>
        cases hvoidTag : isVoid el.tag with
        | true =>
          rw [hvoid hvoidTag]
          exact .empty hreadable
        | false =>
          refine .element hreadable hvoidTag htag fun child hchild => ?_
          obtain ⟨c, hc, rfl⟩ := List.mem_map.mp hchild
          have hparent := (h.linked.mem_children_iff x c).mp hc
          exact ih c hparent (.of_parent? hparent hx)

/-- A text of a tree is a text of the page. -/
theorem WellFormed.kind?_of_treeOf_text (h : page.WellFormed) {content : String}
    (htree : page.treeOf x = .text content) (hne : content ≠ "") : page.kind? x = some (.text content) := by
  cases hkind : page.kind? x with
  | none =>
    rw [h.linked.treeOf_eq, treeWithin, hkind] at htree
    exact absurd (Tree.text.inj htree).symm hne
  | some kind =>
    cases kind with
    | element el => rw [h.linked.treeOf_element hkind] at htree; cases htree
    | text content' => rw [h.linked.treeOf_text hkind] at htree; rw [Tree.text.inj htree]
    | comment content' => rw [h.linked.treeOf_comment hkind] at htree; cases htree

/-- A node whose tree is readable is so itself. -/
theorem WellFormed.nodeReadable_of_treeOf (h : page.WellFormed) (hhas : page.Has x)
    (htree : (page.treeOf x).Readable) : page.NodeReadable x False := by
  cases hkind : page.kind? x with
  | none => exact absurd hhas ((page.kind?_eq_none_iff x).mp hkind)
  | some kind =>
    cases kind with
    | text content =>
      rw [h.linked.treeOf_text hkind] at htree
      cases htree with
      | text hne => exact .text hkind hne
    | comment content =>
      rw [h.linked.treeOf_comment hkind] at htree
      cases htree with
      | comment hcomment => exact .comment hkind hcomment
    | element el =>
      have hel := element?_eq_some_iff.mpr hkind
      rw [h.linked.treeOf_element hkind] at htree
      -- each rule of the tree is read back as what it says of the children
      generalize hmap : (page.children x).map page.treeOf = trees at htree
      cases htree with
      | empty hreadable =>
        have hnil := List.map_eq_nil_iff.mp hmap
        exact .element hel hreadable (fun _ => hnil) (fun _ => .inl hnil)
      | @literal _ content hreadable hraw hne hend =>
        obtain ⟨t, hone, htext⟩ := List.map_eq_singleton_iff.mp hmap
        refine .element hel hreadable (fun hvoid => ?_) fun _ => ?_
        · rw [Markup.isVoid_eq_false_of_isRawText hraw] at hvoid
          cases hvoid
        · exact .inr ⟨t, content, hone, h.kind?_of_treeOf_text htext hne, hne, .inr hend⟩
      | element hreadable hvoid hraw _ => exact .of_plain hel hreadable hvoid hraw

/-- In a readable tree every subtree is readable. -/
theorem WellFormed.readable_treeOf_of_root (h : page.WellFormed) (hroot : (page.treeOf page.root).Readable)
    (hx : page.Attached x) : (page.treeOf x).Readable := by
  induction x using h.linked.up_induction with
  | step x ih =>
    rcases hx with rfl | habove
    · exact hroot
    · obtain ⟨p, hp, _⟩ := above_iff.mp habove
      have hparent := ih p hp (h.attached_of_parent? hp (.inr habove))
      obtain ⟨el, hel⟩ := Option.isSome_iff_exists.mp (h.isSome_element?_of_parent? hp)
      rw [h.linked.treeOf_element (element?_eq_some_iff.mp hel)] at hparent
      exact hparent.element_children.2 _
        (List.mem_map_of_mem ((h.linked.mem_children_iff p x).mpr hp))

/-- A page is readable exactly if its doctype and all its attached nodes are. -/
theorem WellFormed.readable_iff (h : page.WellFormed) : page.toDocument.Readable
    ↔ (∀ name, page.doctype = some name → Markup.IsDoctype name)
      ∧ ∀ x, page.Attached x → page.NodeReadable x False := by
  constructor
  · intro hread
    refine ⟨hread.doctype, fun x hx => h.nodeReadable_of_treeOf (h.has_of_attached hx) ?_⟩
    exact h.readable_treeOf_of_root (hread.nodes _ (List.mem_singleton.mpr rfl)) hx
  · rintro ⟨hdoctype, hnodes⟩
    refine ⟨hdoctype, ?_⟩
    rintro _ (_ | ⟨_, ⟨⟩⟩)
    exact h.readable_treeOf hnodes (.inl rfl)

/-! ## Pages with any stylesheet -/

/-- All attached nodes are readable, but for what is in the custom style. -/
structure NearlyReadable (page : Page) : Prop where
  wellFormed : page.WellFormed
  doctype : ∀ name, page.doctype = some name → Markup.IsDoctype name
  nodes : ∀ x, page.Attached x → page.NodeReadable x (page.customStyle? = some x)

theorem nearlyReadable_of_readable (h : page.WellFormed) (hread : page.toDocument.Readable) :
    page.NearlyReadable :=
  ⟨h, hread.doctype, fun x hx => ((h.readable_iff.mp hread).2 x hx).mono False.elim⟩

theorem nearlyReadable_of_ofMarkup {source : String} (h : ofMarkup source = .ok page) :
    page.NearlyReadable :=
  nearlyReadable_of_readable (wellFormed_of_ofMarkup h) (readable_toDocument_ofMarkup h)

/-- The tree with its texts merged holds every other node that the tree holds. -/
theorem joined_mem_joinedAll {tree : Tree} {trees : List Tree} (h : tree ∈ trees) (htext : tree.isText = false) :
    tree.joined ∈ Tree.joinedAll trees := by
  induction trees with
  | nil => cases h
  | cons first rest ih =>
    rw [Tree.joinedAll]
    -- merging touches the node in front and the one behind it, and both are texts then
    rcases Tree.pushFront_cases first.joined (Tree.joinedAll rest) with ⟨a, b, after, hfirst, hrest, heq⟩ | ⟨heq, _⟩
    · rw [heq]
      rcases List.mem_cons.mp h with rfl | h
      · cases tree with
        | text content => cases htext
        | element el children => cases hfirst
        | comment content => cases hfirst
      · have hmem := ih h
        rw [hrest] at hmem
        -- the text at the head of the rest is not the node that is looked for
        refine List.mem_cons_of_mem _ ((List.mem_cons.mp hmem).resolve_left fun hhead => ?_)
        cases tree with
        | text content => cases htext
        | element el children => cases hhead
        | comment content => cases hhead
    · rw [heq]
      rcases List.mem_cons.mp h with rfl | h
      · exact List.mem_cons_self
      · exact List.mem_cons_of_mem _ (ih h)

/-- Merging texts hides no element from the reader. -/
theorem WellFormed.readable_joined_treeOf (h : page.WellFormed) (hread : page.toDocument.joined.Readable)
    {el : Element} (hel : page.element? x = some el) (hx : page.Attached x) :
    (page.treeOf x).joined.Readable := by
  -- from the root down: an element is no text, so it stays a child of its parent's joined tree
  induction x using h.linked.up_induction generalizing el with
  | step x ih =>
    have htree := h.linked.treeOf_element (element?_eq_some_iff.mp hel)
    rcases hx with rfl | habove
    · refine hread.nodes _ (joined_mem_joinedAll (List.mem_singleton.mpr rfl) ?_)
      rw [htree]
      rfl
    · obtain ⟨p, hp, _⟩ := above_iff.mp habove
      obtain ⟨pel, hpel⟩ := Option.isSome_iff_exists.mp (h.isSome_element?_of_parent? hp)
      have hparent := ih p hp hpel (h.attached_of_parent? hp (.inr habove))
      rw [h.linked.treeOf_element (element?_eq_some_iff.mp hpel), Tree.joined] at hparent
      refine hparent.element_children.2 _ (joined_mem_joinedAll ?_ ?_)
      · exact List.mem_map_of_mem ((h.linked.mem_children_iff p x).mpr hp)
      · rw [htree]
        rfl

namespace NearlyReadable

variable (h : page.NearlyReadable)

include h

/-- The custom style is attached. -/
theorem attached_customStyle? {style : NodeId} (hstyle : page.customStyle? = some style) :
    page.Attached style := by
  obtain ⟨hparent, _⟩ :=
    (mem_customStyles_iff h.wellFormed.linked).mp (mem_customStyles_of_customStyle? hstyle)
  exact .of_parent? hparent (.of_parent? h.wellFormed.parent?_head (.inl rfl))

/-- A stylesheet of one text reads as that text. -/
theorem customText_of_children {style t : NodeId} {content : String} (hstyle : page.customStyle? = some style)
    (hchildren : page.children style = [t]) (hkind : page.kind? t = some (.text content)) :
    page.customText = content := by
  obtain ⟨el, hel, _⟩ := h.wellFormed.of_mem_customStyles (mem_customStyles_of_customStyle? hstyle)
  have htext : page.text? t = some content := text?_eq_some_iff.mpr hkind
  have htexts : ∀ c ∈ page.children style, page.element? c = none := by
    rw [hchildren, List.forall_mem_singleton]
    exact element?_eq_none_of_text? htext
  rw [customText_of_customStyle? hstyle, h.wellFormed.textContent_of_texts hel htexts, hchildren,
    List.filterMap_cons, htext]
  simp

/-- Without an end tag in the custom style a nearly readable page is readable. -/
theorem readable_of_clear (hclear : holdsEndTag "style" page.customText = false) :
    page.toDocument.Readable := by
  refine h.wellFormed.readable_iff.mpr ⟨h.doctype, fun x hx => ?_⟩
  cases h.nodes x hx with
  | text hkind hne => exact .text hkind hne
  | comment hkind hcomment => exact .comment hkind hcomment
  | element hel hreadable hvoid hraw =>
    refine .element hel hreadable hvoid fun htag => ?_
    -- only the stylesheet is excused, and its one text is what is clear
    rcases hraw htag with hnil | ⟨t, content, hone, hkind, hne, hend⟩
    · exact .inl hnil
    · refine .inr ⟨t, content, hone, hkind, hne, .inr ?_⟩
      rcases hend with hstyle | hend
      · rw [h.wellFormed.tag_of_customStyle? hstyle hel, ← h.customText_of_children hstyle hone hkind]
        exact hclear
      · exact hend

/-- If the joined document is readable, the custom style holds no end tag. -/
theorem clear_of_readable_joined (hread : page.toDocument.joined.Readable) :
    holdsEndTag "style" page.customText = false := by
  have hempty : holdsEndTag "style" "" = false := by decide +kernel
  -- the stylesheet is an element, so the joined tree still shows what it holds
  cases hstyle : page.customStyle? with
  | none =>
    rw [customText, hstyle]
    exact hempty
  | some style =>
    have hattached := h.attached_customStyle? hstyle
    obtain ⟨el, hel, _⟩ := h.wellFormed.of_mem_customStyles (mem_customStyles_of_customStyle? hstyle)
    have htag := h.wellFormed.tag_of_customStyle? hstyle hel
    have htree := h.wellFormed.readable_joined_treeOf hread hel hattached
    rw [h.wellFormed.linked.treeOf_element (element?_eq_some_iff.mp hel)] at htree
    cases h.nodes style hattached with
    | text hkind => rw [element?, hkind] at hel; cases hel
    | comment hkind => rw [element?, hkind] at hel; cases hel
    | element hel' _ _ hraw =>
      obtain rfl := Option.some.inj (hel.symm.trans hel')
      rcases hraw (by rw [htag]; decide) with hnil | ⟨t, content, hone, hkind, hne, _⟩
      · rw [customText_of_customStyle? hstyle, h.wellFormed.textContent_of_texts hel (by simp [hnil]), hnil]
        exact hempty
      · rw [h.customText_of_children hstyle hone hkind]
        rw [hone, List.map_singleton, h.wellFormed.linked.treeOf_text hkind] at htree
        cases htree with
        | literal _ _ _ hend => exact htag ▸ hend
        | element _ _ hplain _ =>
          rw [htag] at hplain
          cases hplain

/-- The page comes back from its markup exactly when its stylesheet does not hold an end tag. -/
theorem reread_iff : (∃ page', ofMarkup page.toHtml = .ok page' ∧ page'.toDocument = page.toDocument.joined)
    ↔ holdsEndTag "style" page.customText = false := by
  constructor
  · rintro ⟨page', hread, htree⟩
    exact h.clear_of_readable_joined (htree ▸ readable_toDocument_ofMarkup hread)
  · intro hclear
    exact h.wellFormed.reread (h.readable_of_clear hclear)

end NearlyReadable

end AmpTuner.Page
