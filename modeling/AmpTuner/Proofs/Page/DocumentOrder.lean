import AmpTuner.Proofs.Page.Operations

/-!
# Document order

The walk over a stack, the recursion from node to node and the writer meet the nodes of a page in the
same order.

* **`Lists`** is the recursive listing. It gives what the walk over a stack gives in any page, whether or
  not its links agree (`walks_iff_lists`): what is on the stack is listed node by node, each with all that
  is below it before the next.
* **`Appends`** is the writer with the node that each piece of markup comes from, `Writes` its text alone
  (`Writes.appends`). It leaves out what is below a text, a comment or a void element, and so meets the
  texts that are **`ShownIn`** the node it began at.
* **`InDocumentOrder`** puts together what both say of the nodes below one node and of its text content.
-/

namespace AmpTuner.Page

open Markup (Element)

variable {page : Page} {s x : NodeId} {ids stack listed : List NodeId}

/-! ## The listing -/

/-- The recursive listing: a node, what is below it, and then the nodes behind it. -/
inductive Lists (page : Page) : List NodeId → List NodeId → Prop
  | done : page.Lists [] []
  | node {id : NodeId} {rest below listed : List NodeId} (hbelow : page.Lists (page.children id) below)
      (hrest : page.Lists rest listed) : page.Lists (id :: rest) (id :: (below ++ listed))

/-- Nodes in front of a stack are listed before it. -/
theorem Lists.walks_append (h : page.Lists ids listed) {more : List NodeId} (hstack : page.Walks stack more) :
    page.Walks (ids ++ stack) (listed ++ more) := by
  induction h generalizing stack more with
  | done => exact hstack
  | node _ _ ihbelow ihrest =>
    rw [List.cons_append, List.cons_append, List.append_assoc]
    exact .step (ihbelow (ihrest hstack))

/-- The listing of two stacks is that of one behind that of the other. -/
theorem Lists.exists_split {front back : List NodeId} (h : page.Lists (front ++ back) listed) :
    ∃ before after, listed = before ++ after ∧ page.Lists front before ∧ page.Lists back after := by
  induction front generalizing listed with
  | nil => exact ⟨[], listed, rfl, .done, h⟩
  | cons id front ih =>
    cases h with
    | @node _ _ below _ hbelow hrest =>
      obtain ⟨before, after, rfl, hfront, hback⟩ := ih hrest
      exact ⟨id :: (below ++ before), after, by simp, .node hbelow hfront, hback⟩

/-- The walk over a stack and the recursion list the same. -/
theorem walks_iff_lists : page.Walks stack listed ↔ page.Lists stack listed := by
  constructor
  · intro h
    induction h with
    | done => exact .done
    | step _ ih =>
      -- the children went in front of the stack, so the listing splits where theirs ends
      obtain ⟨below, after, rfl, hbelow, hrest⟩ := ih.exists_split
      exact .node hbelow hrest
  · intro h
    simpa using h.walks_append .done

/-- A walk comes to one listing only. -/
theorem Walks.unique {listed' : List NodeId} (h : page.Walks stack listed) (h' : page.Walks stack listed') :
    listed = listed' := by
  induction h generalizing listed' with
  | done =>
    cases h'
    rfl
  | step _ ih =>
    cases h' with
    | step h' => rw [ih h']

/-- On a linked page, the walk comes to the descendants. -/
theorem Linked.walks_iff (h : page.Linked) :
    page.Walks (page.children s) listed ↔ listed = page.descendants s := by
  constructor
  · exact fun hlisted => hlisted.unique (h.walks s)
  · rintro rfl
    exact h.walks s

/-! ## The writer, piece by piece -/

/-- The recursion that writes nodes, with the node that each piece of markup comes from. -/
inductive Appends (page : Page) : Bool → List NodeId → List (NodeId × String) → Prop
  | done {raw : Bool} : page.Appends raw [] []
  | text {raw : Bool} {id : NodeId} {rest : List NodeId} {pieces : List (NodeId × String)} {content : String}
      (hid : page.kind? id = some (.text content)) (hrest : page.Appends raw rest pieces) :
      page.Appends raw (id :: rest) ((id, if raw then content else Markup.escapeText content) :: pieces)
  | comment {raw : Bool} {id : NodeId} {rest : List NodeId} {pieces : List (NodeId × String)} {content : String}
      (hid : page.kind? id = some (.comment content)) (hrest : page.Appends raw rest pieces) :
      page.Appends raw (id :: rest) ((id, "<!--" ++ content ++ "-->") :: pieces)
  | void {raw : Bool} {id : NodeId} {rest : List NodeId} {pieces : List (NodeId × String)} {el : Element}
      (hid : page.kind? id = some (.element el)) (hvoid : Markup.isVoid el.tag = true)
      (hrest : page.Appends raw rest pieces) : page.Appends raw (id :: rest) ((id, el.startTag) :: pieces)
  | element {raw : Bool} {id : NodeId} {rest : List NodeId} {inner pieces : List (NodeId × String)} {el : Element}
      (hid : page.kind? id = some (.element el)) (hvoid : Markup.isVoid el.tag = false)
      (hchildren : page.Appends (Markup.isRawText el.tag) (page.children id) inner)
      (hrest : page.Appends raw rest pieces) :
      page.Appends raw (id :: rest) ((id, el.startTag) :: (inner ++ (id, el.endTag) :: pieces))

/-- What is written is made of such pieces. -/
theorem Writes.appends {raw : Bool} {written : String} (h : page.Writes raw ids written) :
    ∃ pieces, page.Appends raw ids pieces ∧ written = String.join (pieces.map (·.2)) := by
  induction h with
  | done => exact ⟨[], .done, rfl⟩
  | text hid _ ih =>
    obtain ⟨pieces, hpieces, rfl⟩ := ih
    exact ⟨_, .text hid hpieces, by simp [String.join_cons]⟩
  | comment hid _ ih =>
    obtain ⟨pieces, hpieces, rfl⟩ := ih
    exact ⟨_, .comment hid hpieces, by simp [String.join_cons]⟩
  | void hid hvoid _ ih =>
    obtain ⟨pieces, hpieces, rfl⟩ := ih
    exact ⟨_, .void hid hvoid hpieces, by simp [String.join_cons]⟩
  | element hid hvoid _ _ ihChildren ih =>
    obtain ⟨inner, hinner, rfl⟩ := ihChildren
    obtain ⟨pieces, hpieces, rfl⟩ := ih
    exact ⟨_, .element hid hvoid hinner hpieces, by simp [String.join_cons, String.join_append, String.append_assoc]⟩

/-! ## The texts that are written -/

/-- The texts among the nodes that pieces come from. -/
def writtenTexts (page : Page) (pieces : List (NodeId × String)) : List NodeId :=
  (pieces.map (·.1)).filter fun x => (page.text? x).isSome

/-- Whether the writer goes on to the children. -/
def Opens (page : Page) (id : NodeId) : Prop :=
  ∃ el, page.element? id = some el ∧ Markup.isVoid el.tag = false

/-- The writer that begins at `s` comes to `x`, which is below it. -/
def ShownIn (page : Page) (s x : NodeId) : Prop :=
  Relation.TransGen (fun p c => page.parent? c = some p ∧ page.Opens p) s x

/-- What is shown in a node is one of its children, or shown in one of them. -/
theorem shownIn_iff : page.ShownIn s x
    ↔ page.Opens s ∧ ∃ c, page.parent? c = some s ∧ (x = c ∨ page.ShownIn c x) := by
  rw [ShownIn, Relation.TransGen.head'_iff]
  simp only [Relation.reflTransGen_iff_eq_or_transGen, ShownIn]
  exact ⟨fun ⟨c, ⟨hc, hopens⟩, hx⟩ => ⟨hopens, c, hc, hx⟩, fun ⟨hopens, c, hc, hx⟩ => ⟨c, ⟨hc, hopens⟩, hx⟩⟩

theorem not_shownIn (hs : ¬ page.Opens s) : ¬ page.ShownIn s x := fun hx => hs (shownIn_iff.mp hx).1

theorem not_opens_of_element?_eq_none (hid : page.element? s = none) : ¬ page.Opens s := by
  rintro ⟨el, hel, -⟩
  cases hid.symm.trans hel

/-- Void elements are not opened. -/
theorem not_opens_of_void {el : Element} (hid : page.element? s = some el) (hvoid : Markup.isVoid el.tag = true) :
    ¬ page.Opens s := by
  rintro ⟨el', hel', hopen⟩
  obtain rfl := Option.some.inj (hid.symm.trans hel')
  exact Bool.false_ne_true (hopen.symm.trans hvoid)

theorem writtenTexts_cons_of_text {content piece : String} {pieces : List (NodeId × String)}
    (hid : page.text? s = some content) : page.writtenTexts ((s, piece) :: pieces) = s :: page.writtenTexts pieces :=
  List.filter_cons_of_pos (by rw [hid]; rfl)

theorem writtenTexts_cons_of_none {piece : String} {pieces : List (NodeId × String)} (hid : page.text? s = none) :
    page.writtenTexts ((s, piece) :: pieces) = page.writtenTexts pieces :=
  List.filter_cons_of_neg (by rw [hid]; exact Bool.false_ne_true)

theorem writtenTexts_append (front back : List (NodeId × String)) :
    page.writtenTexts (front ++ back) = page.writtenTexts front ++ page.writtenTexts back := by
  simp only [writtenTexts, List.map_append, List.filter_append]

theorem ne_of_text?_eq_none (hs : page.text? s = none) (hx : (page.text? x).isSome = true) : x ≠ s := by
  rintro rfl
  rw [hs] at hx
  cases hx

/-- The writer meets the texts in the order of the listing. -/
theorem Appends.writtenTexts_sublist {raw : Bool} {pieces : List (NodeId × String)}
    (h : page.Appends raw ids pieces) (hlisted : page.Lists ids listed) :
    (page.writtenTexts pieces).Sublist listed := by
  induction h generalizing listed with
  | done => exact List.nil_sublist _
  | @text raw id rest pieces content hid _ ih =>
    cases hlisted with
    | node _ hrest =>
      rw [writtenTexts_cons_of_text (text?_eq_some_iff.mpr hid)]
      exact ((ih hrest).trans (List.sublist_append_right _ _)).cons_cons id
  | @comment raw id rest pieces content hid _ ih =>
    cases hlisted with
    | node _ hrest =>
      rw [writtenTexts_cons_of_none (text?_of_comment hid)]
      exact ((ih hrest).trans (List.sublist_append_right _ _)).cons id
  | @void raw id rest pieces el hid _ _ ih =>
    have hnone : page.text? id = none := text?_of_element? (element?_eq_some_iff.mpr hid)
    cases hlisted with
    | node _ hrest =>
      rw [writtenTexts_cons_of_none hnone]
      exact ((ih hrest).trans (List.sublist_append_right _ _)).cons id
  | @element raw id rest inner pieces el hid _ _ _ ihChildren ih =>
    have hnone : page.text? id = none := text?_of_element? (element?_eq_some_iff.mpr hid)
    cases hlisted with
    | node hbelow hrest =>
      rw [writtenTexts_cons_of_none hnone, writtenTexts_append, writtenTexts_cons_of_none hnone]
      exact ((ihChildren hbelow).append (ih hrest)).cons id

/-- From each node the writer comes to what is shown in it. -/
theorem Linked.mem_writtenTexts_iff (h : page.Linked) {raw : Bool} {pieces : List (NodeId × String)}
    (happends : page.Appends raw ids pieces) : x ∈ page.writtenTexts pieces
      ↔ (page.text? x).isSome = true ∧ ∃ c ∈ ids, x = c ∨ page.ShownIn c x := by
  induction happends with
  | done => simp [writtenTexts]
  | @text raw id rest pieces content hid _ ih =>
    have htext : page.text? id = some content := text?_eq_some_iff.mpr hid
    have hclosed : ¬ page.ShownIn id x := not_shownIn (not_opens_of_element?_eq_none (element?_eq_none_of_text? htext))
    rw [writtenTexts_cons_of_text htext, List.mem_cons, ih]
    simp only [List.exists_mem_cons_iff, hclosed, or_false]
    rw [and_or_left]
    refine or_congr_left ⟨fun hx => ⟨?_, hx⟩, And.right⟩
    rw [hx, htext]
    rfl
  | @comment raw id rest pieces content hid _ ih =>
    have hnone : page.text? id = none := text?_of_comment hid
    have hclosed : ¬ page.ShownIn id x := not_shownIn (not_opens_of_element?_eq_none (by rw [element?, hid]; rfl))
    rw [writtenTexts_cons_of_none hnone, ih]
    refine and_congr_right fun hx => ?_
    simp only [List.exists_mem_cons_iff, ne_of_text?_eq_none hnone hx, hclosed, or_self, false_or]
  | @void raw id rest pieces el hid hvoid _ ih =>
    have hel : page.element? id = some el := element?_eq_some_iff.mpr hid
    have hclosed : ¬ page.ShownIn id x := not_shownIn (not_opens_of_void hel hvoid)
    rw [writtenTexts_cons_of_none (text?_of_element? hel), ih]
    refine and_congr_right fun hx => ?_
    simp only [List.exists_mem_cons_iff, ne_of_text?_eq_none (text?_of_element? hel) hx, hclosed, or_self, false_or]
  | @element raw id rest inner pieces el hid hvoid _ _ ihChildren ih =>
    have hel : page.element? id = some el := element?_eq_some_iff.mpr hid
    have hnone : page.text? id = none := text?_of_element? hel
    -- what is shown in the element is reached over one of its children
    have hshown : page.ShownIn id x ↔ ∃ c ∈ page.children id, x = c ∨ page.ShownIn c x := by
      simp only [shownIn_iff (s := id), h.mem_children_iff]
      exact and_iff_right ⟨el, hel, hvoid⟩
    rw [writtenTexts_cons_of_none hnone, writtenTexts_append, writtenTexts_cons_of_none hnone, List.mem_append,
      ihChildren, ih, ← and_or_left]
    refine and_congr_right fun hx => ?_
    rw [List.exists_mem_cons_iff, hshown, or_iff_right (ne_of_text?_eq_none hnone hx)]

/-! ## The nodes below one node -/

/-- The markup of `s` is put together from `pieces`. Its texts come in document order, each that is shown
in `s`, and where all are shown they make up the text content. -/
structure WrittenFrom (page : Page) (s : NodeId) (pieces : List (NodeId × String)) : Prop where
  appends : page.Appends (((page.parent? s).bind page.tag?).any Markup.isRawText) [s] pieces
  nodeHtml : page.nodeHtml s = String.join (pieces.map (·.2))
  sublist : (page.writtenTexts pieces).Sublist (page.descendants s)
  mem_iff : ∀ x, x ∈ page.writtenTexts pieces ↔ (page.text? x).isSome = true ∧ page.ShownIn s x
  textContent : (∀ x ∈ page.descendants s, (page.text? x).isSome = true → page.ShownIn s x) →
    page.textContent s = String.join ((page.writtenTexts pieces).filterMap page.text?)

/-- What is listed below `s` is what the walk over a stack lists and what the recursion lists: the nodes
below it, each once. The text content follows this order, and so does the markup. -/
structure InDocumentOrder (page : Page) (s : NodeId) : Prop where
  walks_iff : ∀ listed, page.Walks (page.children s) listed ↔ listed = page.descendants s
  lists_iff : ∀ listed, page.Lists (page.children s) listed ↔ listed = page.descendants s
  nodup : (page.descendants s).Nodup
  mem_iff : ∀ x, x ∈ page.descendants s ↔ page.Above s x
  textContent : page.text? s = none →
    page.textContent s = String.join ((page.descendants s).filterMap page.text?)
  written : page.text? s = none → ∃ pieces, page.WrittenFrom s pieces

/-- A part in the same order that has all nodes with a property is what the test for it leaves. -/
theorem eq_filter_of_sublist {part : List NodeId} {p : NodeId → Bool} (hnodup : listed.Nodup)
    (hpart : part.Sublist listed) (hp : ∀ x ∈ part, p x = true) (hall : ∀ x ∈ listed, p x = true → x ∈ part) :
    part = listed.filter p := by
  have hsub : part.Sublist (listed.filter p) := by
    rw [← List.filter_eq_self.mpr hp]
    exact hpart.filter p
  refine hsub.eq_of_length_le (List.subperm_of_subset (hnodup.filter p) fun x hx => ?_).length_le
  obtain ⟨hx, hpx⟩ := List.mem_filter.mp hx
  exact hall x hx hpx

namespace Linked

theorem lists_iff (h : page.Linked) : page.Lists (page.children s) listed ↔ listed = page.descendants s :=
  walks_iff_lists.symm.trans h.walks_iff

theorem nodup_descendants (h : page.Linked) : (page.descendants s).Nodup := by
  rw [h.descendants_eq_preorder]
  exact h.nodup_preorder

/-- The inside of every node can be written. -/
theorem exists_writtenFrom (h : page.Linked) (hs : page.Has s) (htext : page.text? s = none) :
    ∃ pieces, page.WrittenFrom s pieces := by
  obtain ⟨pieces, happends, hwritten⟩ :=
    ((h.unfolds hs).writes (((page.parent? s).bind page.tag?).any Markup.isRawText)).appends
  have hmem (x : NodeId) : x ∈ page.writtenTexts pieces ↔ (page.text? x).isSome = true ∧ page.ShownIn s x := by
    rw [h.mem_writtenTexts_iff happends]
    refine and_congr_right fun hx => ?_
    simp only [List.mem_singleton, exists_eq_left, ne_of_text?_eq_none htext hx, false_or]
  -- `s` comes first in the listing that begins with it, but it is no text
  have hsub : (page.writtenTexts pieces).Sublist (page.descendants s) := by
    have hlisted := happends.writtenTexts_sublist (.node (h.lists_iff.mpr rfl) .done)
    rw [List.append_nil] at hlisted
    rcases List.sublist_cons_iff.mp hlisted with hsub | ⟨rest, heq, -⟩
    · exact hsub
    · have hself : s ∈ page.writtenTexts pieces := heq ▸ List.mem_cons_self
      exact absurd rfl (ne_of_text?_eq_none htext ((hmem s).mp hself).1)
  refine ⟨pieces, happends, ?_, hsub, hmem, fun hshown => ?_⟩
  · rw [Page.nodeHtml, ← hwritten, Markup.Tree.writeAll, Markup.Tree.writeAll, String.append_empty]
  · have hall : page.writtenTexts pieces = (page.descendants s).filter fun x => (page.text? x).isSome :=
      eq_filter_of_sublist h.nodup_descendants hsub (fun x hx => ((hmem x).mp hx).1)
        fun x hx htext => (hmem x).mpr ⟨htext, hshown x hx htext⟩
    rw [textContent_eq, htext, hall, List.filterMap_filter, Option.getD_none]
    congr 1
    refine List.filterMap_congr fun x _ => ?_
    cases page.text? x <;> rfl

/-- Walk, recursion and writer meet the nodes below a node in one order. -/
theorem inDocumentOrder (h : page.Linked) (hs : page.Has s) : page.InDocumentOrder s where
  walks_iff _ := h.walks_iff
  lists_iff _ := h.lists_iff
  nodup := h.nodup_descendants
  mem_iff _ := h.mem_descendants_iff
  textContent htext := by
    rw [textContent_eq, htext]
    rfl
  written htext := h.exists_writtenFrom hs htext

end Linked

/-- A line break, which is void, and a comment, each over a text that is listed but not written. -/
theorem inDocumentOrder_insertTree :
    let loaded := ofDocument { nodes := [.element { tag := "div" }
      [.text "a", .element { tag := "br" } [.text "b"], .comment "c", .element { tag := "p" } [.text "d"]]] }
    let page := (loaded.insertTree ⟨7⟩ (.text "e")).1
    page.Linked ∧ page.Has ⟨3⟩ ∧ page.InDocumentOrder ⟨3⟩ ∧ page.textContent ⟨3⟩ = "abed"
      ∧ page.nodeHtml ⟨3⟩ = "<div>a<br><!--c--><p>d</p></div>" := by
  intro loaded page
  have hloaded : loaded.Linked := (ofDocument_wellFormed _).linked
  have hcomment : 7 < loaded.nodes.size := by decide +kernel
  have h : page.Linked := (hloaded.sprouts_insertTree loaded ⟨7⟩ hcomment (.text "e")).linked
  have hs : 3 < page.nodes.size := by decide +kernel
  exact ⟨h, hs, h.inDocumentOrder hs, by decide +kernel, by decide +kernel⟩

end AmpTuner.Page
