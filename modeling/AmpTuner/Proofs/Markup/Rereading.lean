import AmpTuner.Proofs.Markup.Written
import AmpTuner.Proofs.Markup.Reading

/-!
# Reading back what was written

* **the builder**: the tokens of a tree put that tree behind what the builder holds
  (`foldl_step_tokens`), whatever is open.
* **`read_toHtml`**: a readable document without two texts side by side is read back as it is.
* **`read_toHtml_joined`**: any readable document is read back with adjacent texts merged.
-/

namespace AmpTuner.Markup

namespace Builder

/-- Trees that are added while nothing is open come to the top. -/
theorem foldl_add_top (b : Builder) (h : b.pending = []) (trees : List Tree) :
    trees.foldl add b = { b with top := trees.reverse ++ b.top } := by
  -- the builder keeps earlier trees in reverse, at the top and in an open element alike
  induction trees generalizing b with
  | nil => rfl
  | cons tree trees ih =>
    obtain ⟨doctype, top, pending⟩ := b
    obtain rfl : pending = [] := h
    rw [List.foldl_cons, ih _ rfl]
    simp [add]

/-- Trees that are added while an element is open become its children. -/
theorem foldl_add_pending (doctype : Option String) (top : List Tree) (o : OpenElement)
    (outer : List OpenElement) (trees : List Tree) :
    trees.foldl add ⟨doctype, top, o :: outer⟩
      = ⟨doctype, top, { o with earlier := trees.reverse ++ o.earlier } :: outer⟩ := by
  induction trees generalizing o with
  | nil => rfl
  | cons tree trees ih =>
    rw [List.foldl_cons]
    show trees.foldl add ⟨doctype, top, { o with earlier := tree :: o.earlier } :: outer⟩ = _
    rw [ih]
    simp

/-- A closing tag of the innermost open element closes just that. -/
theorem closeTag_innermost (doctype : Option String) (top : List Tree) (o : OpenElement)
    (outer : List OpenElement) :
    closeTag ⟨doctype, top, o :: outer⟩ o.element.tag
      = (⟨doctype, top, outer⟩ : Builder).add (.element o.element o.earlier.reverse) := by
  rw [closeTag, List.findIdx?_cons, if_pos (by simp)]
  rfl

mutual

/-- The tokens of a readable tree build that tree again. By induction on the tree. -/
theorem foldl_step_tokens (tree : Tree) (h : tree.Readable) (b : Builder) :
    tree.tokens.foldl step b = b.add tree :=
  match tree with
  | .text content => rfl
  | .comment content => rfl
  | .element el children => by
    rw [Tree.tokens]
    split
    · next hvoid =>
      rw [h.children_of_isVoid hvoid]
      rfl
    · split
      · next hraw =>
        -- the content comes with its element in one token
        rcases h.children_of_isRawText hraw with rfl | ⟨content, rfl, hne, _⟩
        · rfl
        · have hcontent : content.isEmpty = false := by simpa using hne
          show b.add (.element el (if (content ++ "").isEmpty then [] else [.text (content ++ "")])) = _
          rw [String.append_empty, hcontent]
          rfl
      · next hraw =>
        -- the element is opened, takes its children and is the innermost one when its end tag comes
        obtain ⟨doctype, top, outer⟩ := b
        rw [List.foldl_cons, List.foldl_append, foldl_step_tokensAll children h.element_children.2]
        show step (children.foldl add ⟨doctype, top, ⟨el, []⟩ :: outer⟩) (.closing el.tag) = _
        rw [foldl_add_pending]
        show closeTag ⟨doctype, top, ⟨el, children.reverse ++ []⟩ :: outer⟩ el.tag = _
        rw [closeTag_innermost, List.append_nil, List.reverse_reverse]

/-- The tokens of a readable forest build that forest again. -/
theorem foldl_step_tokensAll (trees : List Tree) (h : ∀ tree ∈ trees, tree.Readable) (b : Builder) :
    (Tree.tokensAll trees).foldl step b = trees.foldl add b :=
  match trees with
  | [] => rfl
  | tree :: rest => by
    obtain ⟨htree, hrest⟩ := List.forall_mem_cons.mp h
    rw [Tree.tokensAll, List.foldl_append, foldl_step_tokens tree htree,
      foldl_step_tokensAll rest hrest, List.foldl_cons]

end

end Builder

/-- The tokens of a document. -/
def Document.tokens (d : Document) : List Token :=
  d.doctype.toList.map .doctype ++ Tree.tokensAll d.nodes

/-- A written document is scanned into its own tokens. -/
theorem Document.Readable.all_toHtml {d : Document} (h : d.Readable) (hparted : d.Parted) :
    Token.all d.toHtml.toList = .ok d.tokens := by
  obtain ⟨doctype, nodes⟩ := d
  have hnodes := Tree.all_tokensAll nodes h.nodes hparted.nodes hparted.apart [] (.inl rfl)
  have hempty : Token.all [] = .ok [] := by rw [Token.all]
  have hnodes : Token.all (Tree.writeAll false nodes).toList = .ok (Tree.tokensAll nodes) := by
    simpa [hempty, Except.map] using hnodes
  rw [Document.toHtml, String.toList_append]
  cases doctype with
  | none => simpa [doctypeHtml, Document.tokens] using hnodes
  | some name =>
    rw [Token.all_doctype (h.doctype name rfl), hnodes]
    rfl

/-- A readable document is built again from its tokens. -/
theorem ofTokens_tokens {d : Document} (h : d.Readable) : Document.ofTokens d.tokens = d := by
  obtain ⟨doctype, nodes⟩ := d
  -- the document type leaves the builder empty, so all trees end up at the top
  have hstart : (doctype.toList.map Token.doctype).foldl Builder.step {} = { doctype } := by
    cases doctype <;> rfl
  rw [Document.ofTokens, Document.tokens, List.foldl_append, hstart,
    Builder.foldl_step_tokensAll nodes h.nodes, Builder.foldl_add_top _ rfl]
  show Document.mk doctype (nodes.reverse ++ []).reverse = _
  rw [List.append_nil, List.reverse_reverse]

theorem read_toHtml {d : Document} (h : d.Readable) (hparted : d.Parted) : read d.toHtml = .ok d := by
  rw [read, h.all_toHtml hparted]
  show Except.ok (Document.ofTokens d.tokens) = _
  rw [ofTokens_tokens h]

theorem read_toHtml_joined {d : Document} (h : d.Readable) : read d.toHtml = .ok d.joined := by
  rw [← toHtml_joined, read_toHtml h.joined d.parted_joined]

end AmpTuner.Markup
