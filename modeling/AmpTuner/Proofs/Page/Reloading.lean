import AmpTuner.Proofs.Page.Loading

/-!
# Loading the tree of a page

Loading a document merges what is given twice: the attributes of an element, the root, the head and the
body. In the tree of a well-formed page nothing is, so that loading it gives the same tree again.

* **`outline_toTree`**: a tree of root, head and body is its own outline.
* **`WellFormed.firstWins_treeOf`**: no attribute in the tree of a page is given twice.
* **`WellFormed.toDocument_ofDocument_toDocument`** puts both together.
-/

namespace AmpTuner

open Markup (Element Attribute Tree Document Outline)

namespace Markup

/-- Attributes of distinct names are all taken up. -/
theorem Element.foldl_addMissing (tag : String) (more found : List Attribute)
    (h : (Attribute.names (found ++ more)).Nodup) :
    (Element.mk tag found).addMissing more = ⟨tag, found ++ more⟩ := by
  -- `found` has been added already; a name that comes after it is not taken
  induction more generalizing found with
  | nil => rw [List.append_nil]; rfl
  | cons a more ih =>
    have hnew : a.name ∉ Attribute.names found := by
      intro hmem
      rw [Attribute.names, List.map_append, List.nodup_append] at h
      exact h.2.2 a.name hmem a.name (by simp) rfl
    have hset : (Element.mk tag found).set a.name a.value = ⟨tag, found ++ [a]⟩ := by
      rw [Element.set, Attribute.put_of_notMem hnew]
    have hhas : (Element.mk tag found).hasAttribute a.name = false := by
      rw [← Bool.not_eq_true, Element.hasAttribute_iff]
      exact hnew
    rw [Element.addMissing, List.foldl_cons, hhas, if_neg (by simp), hset]
    have := ih (found ++ [a]) (by rwa [List.append_assoc])
    rw [List.append_assoc] at this
    exact this

theorem Element.Distinct.addMissing_attributes {el : Element} (h : el.Distinct) :
    ({ tag := el.tag } : Element).addMissing el.attributes = el :=
  Element.foldl_addMissing el.tag el.attributes [] h

/-- Trees that stay as they are make a forest that does. -/
theorem Tree.firstWinsAll_eq_self {trees : List Tree} (h : ∀ tree ∈ trees, tree.firstWins = tree) :
    Tree.firstWinsAll trees = trees := by
  induction trees with
  | nil => rfl
  | cons tree trees ih =>
    obtain ⟨htree, htrees⟩ := List.forall_mem_cons.mp h
    rw [Tree.firstWinsAll, htree, ih htrees]

/-- The three fixed elements have their tags, and no attribute is given twice. -/
structure Outline.Settled (o : Outline) : Prop where
  root_tag : o.root.tag = "html"
  head_tag : o.head.tag = "head"
  body_tag : o.body.tag = "body"
  root : o.root.Distinct
  head : o.head.Distinct
  body : o.body.Distinct
  inHead : Tree.firstWinsAll o.inHead = o.inHead
  inBody : Tree.firstWinsAll o.inBody = o.inBody

/-- A tree of root, head and body is its own outline. -/
theorem outline_toTree {o : Outline} (h : o.Settled) (doctype : Option String) :
    (Document.mk doctype [o.toTree]).outline = o := by
  obtain ⟨root, head, body, inHead, inBody⟩ := o
  obtain ⟨hroot, hhead, hbody, hrootEl, hheadEl, hbodyEl, hinHead, hinBody⟩ := h
  have attributes {tag : String} {el : Element} (htag : el.tag = tag) (hel : el.Distinct) :
      ({ tag } : Element).addMissing el.attributes = el := by
    rw [← htag]
    exact hel.addMissing_attributes
  dsimp only at hroot hhead hbody hrootEl hheadEl hbodyEl hinHead hinBody
  -- the head is placed first, which leaves the body of the default outline, then the body
  have placeHead : ({ root } : Outline).placeTop (.element head inHead) = { root, head, inHead } := by
    rw [Outline.placeTop, if_neg (by simp [Tree.isBlankText]), hhead, if_pos (by decide),
      attributes hhead hheadEl, hinHead]
    rfl
  have placeBody : ({ root, head, inHead } : Outline).placeTop (.element body inBody)
      = { root, head, body, inHead, inBody } := by
    rw [Outline.placeTop, if_neg (by simp [Tree.isBlankText]), hbody, if_neg (by decide),
      if_pos (by decide), attributes hbody hbodyEl, hinBody]
    rfl
  rw [Document.outline, List.foldl_cons, List.foldl_nil, Outline.toTree, Outline.placeNode, hroot,
    if_pos (by decide), attributes hroot hrootEl, List.foldl_cons, List.foldl_cons, List.foldl_nil,
    placeHead, placeBody]

end Markup

namespace Page

variable {page : Page} {id : NodeId}

namespace WellFormed

variable (h : page.WellFormed)

include h

/-- Downwards, as the trees of the children make up the tree. -/
theorem firstWins_treeOf : (page.treeOf id).firstWins = page.treeOf id := by
  induction id using h.linked.down_induction with
  | step id ih =>
    cases hkind : page.kind? id with
    | none =>
      rw [h.linked.treeOf_eq, treeWithin, hkind]
      rfl
    | some kind =>
      cases kind with
      | element el =>
        have hel := h.distinct id el (element?_eq_some_iff.mpr hkind)
        have hchildren : Tree.firstWinsAll ((page.children id).map page.treeOf)
            = (page.children id).map page.treeOf :=
          Markup.Tree.firstWinsAll_eq_self fun tree htree => by
            obtain ⟨c, hc, rfl⟩ := List.mem_map.mp htree
            exact ih c ((h.linked.mem_children_iff id c).mp hc)
        rw [h.linked.treeOf_element hkind, Tree.firstWins, hel.addMissing_attributes, hchildren]
      | text content => rw [h.linked.treeOf_text hkind, Tree.firstWins]
      | comment content => rw [h.linked.treeOf_comment hkind, Tree.firstWins]

/-- The elements of the page and what stands in head and body. -/
theorem exists_settled : ∃ o : Outline, o.Settled ∧ page.treeOf page.root = o.toTree := by
  obtain ⟨root, hroot, hrootTag⟩ := Option.map_eq_some_iff.mp h.tag?_root
  obtain ⟨head, hhead, hheadTag⟩ := Option.map_eq_some_iff.mp h.tag?_head
  obtain ⟨body, hbody, hbodyTag⟩ := Option.map_eq_some_iff.mp h.tag?_body
  have trees (ids : List NodeId) : Tree.firstWinsAll (ids.map page.treeOf) = ids.map page.treeOf :=
    Markup.Tree.firstWinsAll_eq_self fun tree htree => by
      obtain ⟨c, _, rfl⟩ := List.mem_map.mp htree
      exact h.firstWins_treeOf
  let o : Outline :=
    { root, head, body, inHead := (page.children page.head).map page.treeOf,
      inBody := (page.children page.body).map page.treeOf }
  refine ⟨o, ⟨hrootTag, hheadTag, hbodyTag, h.distinct _ _ hroot, h.distinct _ _ hhead,
    h.distinct _ _ hbody, trees _, trees _⟩, ?_⟩
  rw [h.linked.treeOf_element (element?_eq_some_iff.mp hroot), h.children_root, List.map_cons,
    List.map_singleton, h.linked.treeOf_element (element?_eq_some_iff.mp hhead),
    h.linked.treeOf_element (element?_eq_some_iff.mp hbody)]
  rfl

/-- Loading the tree of the page gives a page with the same tree. -/
theorem toDocument_ofDocument_toDocument : (ofDocument page.toDocument).toDocument = page.toDocument := by
  obtain ⟨o, ho, htree⟩ := h.exists_settled
  have hdocument : page.toDocument = ⟨page.doctype, [o.toTree]⟩ := by rw [toDocument, htree]
  rw [toDocument_ofDocument, hdocument, Markup.outline_toTree ho]

end WellFormed

end Page

end AmpTuner
