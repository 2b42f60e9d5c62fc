import AmpTuner.Proofs.Page.Reloading
import AmpTuner.Proofs.Markup.Rereading
import AmpTuner.Page.Source

/-!
# Pages that survive their markup

A page is written and read back. The reader gives the tree with adjacent texts merged, and loading it
moves nothing, because everything stands in root, head and body already.

* **`Outline.Readable`**: loading keeps a readable tree so, part by part.
* **`WellFormed.reread`**: every well-formed page whose tree is readable comes back with its texts merged.
* **`readable_toDocument_ofMarkup`**: a page that was read is such a page, hence
  **`ofMarkup_toHtml_of_ofMarkup`**.
-/

namespace AmpTuner

open Markup (Element Attribute Tree Document Outline IsName)

namespace Markup

/-! ## Loading a readable tree -/

/-- Taking up attributes with names keeps an element readable. -/
theorem Element.Readable.addMissing {el : Element} (h : el.Readable) {given : List Attribute}
    (hgiven : ∀ a ∈ given, IsName a.name) : (el.addMissing given).Readable := by
  refine ⟨(tag_addMissing el given).symm ▸ h.tag, ?_, h.distinct.addMissing given⟩
  have hnames := h.names
  rw [Element.addMissing]
  clear h
  -- only the names count from here on, and each one comes from `el` or from `given`
  induction given generalizing el with
  | nil => exact hnames
  | cons a given ih =>
    obtain ⟨ha, hgiven⟩ := List.forall_mem_cons.mp hgiven
    refine ih hgiven ?_
    show ∀ b ∈ (if el.hasAttribute a.name then el else el.set a.name a.value).attributes, IsName b.name
    split
    · exact hnames
    · intro b hb
      rcases Attribute.mem_names_put.mp (List.mem_map_of_mem hb) with hb | hb
      · obtain ⟨c, hc, hname⟩ := List.mem_map.mp hb
        exact hname ▸ hnames c hc
      · exact hb ▸ ha

mutual

/-- A readable tree has no attribute twice, so nothing is dropped. -/
theorem Tree.Readable.firstWins {tree : Tree} (h : tree.Readable) : tree.firstWins = tree :=
  match tree with
  | .text _ => rfl
  | .comment _ => rfl
  | .element el children => by
    rw [Tree.firstWins]
    cases h with
    | empty hel => rw [hel.distinct.addMissing_attributes]; rfl
    | literal hel => rw [hel.distinct.addMissing_attributes]; rfl
    | element hel _ _ hchildren =>
      rw [hel.distinct.addMissing_attributes, Tree.firstWinsAll_of_readable children hchildren]

/-- Nothing is dropped in a readable forest. -/
theorem Tree.firstWinsAll_of_readable (trees : List Tree) (h : ∀ tree ∈ trees, tree.Readable) :
    Tree.firstWinsAll trees = trees :=
  match trees with
  | [] => rfl
  | _ :: rest => by
    obtain ⟨htree, hrest⟩ := List.forall_mem_cons.mp h
    rw [Tree.firstWinsAll, htree.firstWins, Tree.firstWinsAll_of_readable rest hrest]

end

namespace Outline

/-- The three fixed elements have their tags, and everything is readable. -/
structure Readable (o : Outline) : Prop where
  root_tag : o.root.tag = "html"
  head_tag : o.head.tag = "head"
  body_tag : o.body.tag = "body"
  root : o.root.Readable
  head : o.head.Readable
  body : o.body.Readable
  inHead : ∀ tree ∈ o.inHead, tree.Readable
  inBody : ∀ tree ∈ o.inBody, tree.Readable

variable {o : Outline}

/-- The bare page is readable. -/
theorem readable_empty : ({} : Outline).Readable := by
  have element {tag : String} (htag : IsTag tag) : (Element.mk tag []).Readable :=
    ⟨htag, by simp, List.nodup_nil⟩
  exact
    { root_tag := rfl, head_tag := rfl, body_tag := rfl
      root := element ⟨isName_of_all (by decide) (by decide), by decide⟩
      head := element ⟨isName_of_all (by decide) (by decide), by decide⟩
      body := element ⟨isName_of_all (by decide) (by decide), by decide⟩
      inHead := by simp, inBody := by simp }

/-- A readable outline makes a readable tree. -/
theorem Readable.toTree (h : o.Readable) : o.toTree.Readable := by
  have fixed {el : Element} {children : List Tree} (hel : el.Readable)
      (htag : el.tag = "html" ∨ el.tag = "head" ∨ el.tag = "body")
      (hchildren : ∀ child ∈ children, child.Readable) : (Tree.element el children).Readable := by
    refine .element hel ?_ ?_ hchildren
    · rcases htag with h | h | h <;> rw [h] <;> decide
    · rcases htag with h | h | h <;> rw [h] <;> decide
  refine fixed h.root (.inl h.root_tag) ?_
  intro child hchild
  rcases List.mem_pair.mp hchild with rfl | rfl
  · exact fixed h.head (.inr (.inl h.head_tag)) h.inHead
  · exact fixed h.body (.inr (.inr h.body_tag)) h.inBody

theorem Readable.addBody (h : o.Readable) {trees : List Tree} (htrees : ∀ tree ∈ trees, tree.Readable) :
    ({ o with inBody := o.inBody ++ trees } : Outline).Readable :=
  { h with inBody := List.forall_mem_append.mpr ⟨h.inBody, htrees⟩ }

/-- A child of a root is gathered. -/
theorem Readable.placeTop (h : o.Readable) {tree : Tree} (htree : tree.Readable) :
    (o.placeTop tree).Readable := by
  have hbody : ({ o with inBody := o.inBody ++ [tree.firstWins] } : Outline).Readable :=
    h.addBody (by simpa [htree.firstWins] using htree)
  unfold Outline.placeTop
  split
  · exact h
  · split
    · next el children _ =>
      obtain ⟨hel, hchildren⟩ := htree.element_children
      rw [Tree.firstWinsAll_of_readable children hchildren]
      split
      · exact { h with
          head_tag := (Element.tag_addMissing _ _).trans h.head_tag
          head := h.head.addMissing hel.names
          inHead := List.forall_mem_append.mpr ⟨h.inHead, hchildren⟩ }
      · split
        · exact { h with
            body_tag := (Element.tag_addMissing _ _).trans h.body_tag
            body := h.body.addMissing hel.names
            inBody := List.forall_mem_append.mpr ⟨h.inBody, hchildren⟩ }
        · exact hbody
    · exact hbody

/-- All children of a root are gathered. By induction on them. -/
theorem Readable.foldl_placeTop (h : o.Readable) {trees : List Tree}
    (htrees : ∀ tree ∈ trees, tree.Readable) : (trees.foldl Outline.placeTop o).Readable := by
  induction trees generalizing o with
  | nil => exact h
  | cons tree trees ih =>
    obtain ⟨htree, htrees⟩ := List.forall_mem_cons.mp htrees
    exact ih (h.placeTop htree) htrees

/-- A node of the document is gathered. -/
theorem Readable.placeNode (h : o.Readable) {tree : Tree} (htree : tree.Readable) :
    (o.placeNode tree).Readable := by
  unfold Outline.placeNode
  split
  · obtain ⟨hel, hchildren⟩ := htree.element_children
    split
    · have hroot : ({ o with root := o.root.addMissing _ } : Outline).Readable :=
        { h with
          root_tag := (Element.tag_addMissing _ _).trans h.root_tag
          root := h.root.addMissing hel.names }
      exact hroot.foldl_placeTop hchildren
    · exact h.placeTop htree
  · exact h.placeTop htree

end Outline

/-- A readable document has a readable outline. -/
theorem Document.Readable.outline {d : Document} (h : d.Readable) : d.outline.Readable := by
  obtain ⟨doctype, nodes⟩ := d
  have run (o : Outline) (ho : o.Readable) : (nodes.foldl Outline.placeNode o).Readable := by
    have hnodes := h.nodes
    clear h
    induction nodes generalizing o with
    | nil => exact ho
    | cons tree nodes ih =>
      obtain ⟨htree, hnodes⟩ := List.forall_mem_cons.mp hnodes
      exact ih _ (ho.placeNode htree) hnodes
  exact run {} Outline.readable_empty

/-- The outline with adjacent texts merged. -/
def Outline.joined (o : Outline) : Outline :=
  { o with inHead := Tree.joinedAll o.inHead, inBody := Tree.joinedAll o.inBody }

theorem Outline.Readable.joined {o : Outline} (h : o.Readable) : o.joined.Readable :=
  { h with
    inHead := Tree.readable_joinedAll _ h.inHead
    inBody := Tree.readable_joinedAll _ h.inBody }

/-- A readable outline is settled: to gather its tree gives it again. -/
theorem Outline.Readable.settled {o : Outline} (h : o.Readable) : o.Settled where
  root_tag := h.root_tag
  head_tag := h.head_tag
  body_tag := h.body_tag
  root := h.root.distinct
  head := h.head.distinct
  body := h.body.distinct
  inHead := Tree.firstWinsAll_of_readable o.inHead h.inHead
  inBody := Tree.firstWinsAll_of_readable o.inBody h.inBody

end Markup

namespace Page

/-! ## Pages -/

variable {page : Page}

/-- The tree of a page is that of an outline. -/
theorem WellFormed.exists_outline (h : page.WellFormed) (hread : page.toDocument.Readable) :
    ∃ o : Outline, o.Readable ∧ page.treeOf page.root = o.toTree := by
  obtain ⟨o, hsettled, htree⟩ := h.exists_settled
  have hreadable : o.toTree.Readable := htree ▸ hread.nodes _ (List.mem_singleton.mpr rfl)
  obtain ⟨hrootEl, hparts⟩ := hreadable.element_children
  obtain ⟨hheadEl, hinHead⟩ := (hparts _ (.head _)).element_children
  obtain ⟨hbodyEl, hinBody⟩ := (hparts _ (.tail _ (.head _))).element_children
  exact ⟨o, ⟨hsettled.root_tag, hsettled.head_tag, hsettled.body_tag, hrootEl, hheadEl, hbodyEl, hinHead,
    hinBody⟩, htree⟩

/-- A readable page is read back from its own text, with adjacent texts made one. -/
theorem WellFormed.reread (h : page.WellFormed) (hread : page.toDocument.Readable) :
    ∃ page', ofMarkup page.toHtml = .ok page' ∧ page'.toDocument = page.toDocument.joined := by
  obtain ⟨o, ho, htree⟩ := h.exists_outline hread
  -- only texts are merged, so the three fixed elements stay and their contents are joined
  have hjoined : page.toDocument.joined = ⟨page.doctype, [o.joined.toTree]⟩ := by
    rw [Document.joined, toDocument, htree]
    rfl
  have hread' := Markup.read_toHtml_joined hread
  refine ⟨ofDocument page.toDocument.joined, ?_, ?_⟩
  · rw [ofMarkup, toHtml, hread']
  · rw [toDocument_ofDocument, hjoined, Markup.outline_toTree ho.joined.settled]

/-- A readable document is loaded as a readable page. -/
theorem readable_toDocument_ofDocument {d : Document} (h : d.Readable) :
    (ofDocument d).toDocument.Readable := by
  rw [toDocument_ofDocument]
  refine ⟨h.doctype, ?_⟩
  rintro _ (_ | ⟨_, ⟨⟩⟩)
  exact h.outline.toTree

/-- Reading a page is reading a document and loading it. -/
theorem exists_of_ofMarkup {source : String} (h : ofMarkup source = .ok page) :
    ∃ d, Markup.read source = .ok d ∧ page = ofDocument d := by
  rw [ofMarkup] at h
  split at h
  · next d hread => exact ⟨d, hread, (Except.ok.inj h).symm⟩
  · cases h

/-- Whether a source is accepted can be computed, and what its page is like as well. -/
theorem exists_of_toOption_any {source : String} {p : Page → Bool}
    (h : (ofMarkup source).toOption.any p = true) : ∃ page, ofMarkup source = .ok page ∧ p page = true := by
  cases hread : ofMarkup source with
  | ok page => exact ⟨page, rfl, by rwa [hread] at h⟩
  | error fault =>
    rw [hread] at h
    cases h

theorem wellFormed_of_ofMarkup {source : String} (h : ofMarkup source = .ok page) :
    page.WellFormed := by
  obtain ⟨d, _, rfl⟩ := exists_of_ofMarkup h
  exact ofDocument_wellFormed d

theorem readable_toDocument_ofMarkup {source : String} (h : ofMarkup source = .ok page) :
    page.toDocument.Readable := by
  obtain ⟨d, hread, rfl⟩ := exists_of_ofMarkup h
  exact readable_toDocument_ofDocument (Markup.readable_of_read hread)

/-- Reader and writer agree: a page that was read from markup is read again from its own markup, with
the same document type, the same markup and the same tree but for texts side by side. -/
theorem ofMarkup_toHtml_of_ofMarkup {source : String} (h : ofMarkup source = .ok page) :
    ∃ page', ofMarkup page.toHtml = .ok page' ∧ page'.toHtml = page.toHtml
      ∧ page'.doctype = page.doctype ∧ page'.toDocument = page.toDocument.joined := by
  obtain ⟨page', hpage', htree⟩ := (wellFormed_of_ofMarkup h).reread (readable_toDocument_ofMarkup h)
  refine ⟨page', hpage', ?_, ?_, htree⟩
  · rw [toHtml, toHtml, htree, Markup.toHtml_joined]
  · exact congrArg Document.doctype htree

/-- A document type, an attribute without quotes, references, a comment, a void element and a script that is
cut off. -/
def mixedSource : String :=
  "<!DOCTYPE html><p class=a title='b&quot;'>x &amp; y<!-- c --><br/><script>if(a<b)"

/-- That source, read, written and read again. -/
theorem ofMarkup_toHtml_mixedSource : ∃ page page', ofMarkup mixedSource = .ok page
    ∧ ofMarkup page.toHtml = .ok page' ∧ page'.toHtml = page.toHtml ∧ page'.doctype = page.doctype
    ∧ page'.toDocument = page.toDocument.joined := by
  have haccepted : (ofMarkup mixedSource).toOption.any (fun _ => true) = true := by decide +kernel
  obtain ⟨page, hread, _⟩ := exists_of_toOption_any haccepted
  obtain ⟨page', hpage', hagree⟩ := ofMarkup_toHtml_of_ofMarkup hread
  exact ⟨page, page', hread, hpage', hagree⟩

end Page

end AmpTuner
