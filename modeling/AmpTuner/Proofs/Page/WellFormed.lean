import AmpTuner.Proofs.Page.Moves
import AmpTuner.Proofs.Markup.Attributes

/-!
# Well-formed pages

What holds of every page besides the agreement of its links: the root is an `html` element that has
no parent and holds exactly one head and one body, only elements have children, and no element gives
an attribute name twice.

Each write keeps all of this as long as it leaves the three fixed elements where they are. The lemmas
are named after the writes, and the passes are checked against them and never against the fields.
-/

namespace AmpTuner.Page

open Markup (Element)

/-- What every loaded page is, and stays: linked, with root, head and body in their places, children below elements
only, and no attribute of an element twice. -/
structure WellFormed (page : Page) : Prop where
  linked : page.Linked
  tag?_root : page.tag? page.root = some "html"
  tag?_head : page.tag? page.head = some "head"
  tag?_body : page.tag? page.body = some "body"
  parent?_root : page.parent? page.root = none
  children_root : page.children page.root = [page.head, page.body]
  leaf : ∀ id, page.element? id = none → page.children id = []
  distinct : ∀ id el, page.element? id = some el → el.Distinct

/-- The node is the root, the head or the body. -/
def IsFixed (page : Page) (id : NodeId) : Prop := id = page.root ∨ id = page.head ∨ id = page.body

variable {page page' : Page} {id x : NodeId}

theorem tag?_congr {x' : NodeId} (h : page'.kind? x' = page.kind? x) :
    page'.tag? x' = page.tag? x := by
  rw [tag?, tag?, element?_congr h]

theorem has_of_tag? {tag : String} (h : page.tag? x = some tag) : page.Has x := by
  obtain ⟨el, hel, _⟩ := Option.map_eq_some_iff.mp h
  exact has_of_element? hel

/-- A change that keeps the tags of elements keeps the tags of nodes. -/
theorem tag?_mapElement {f : Element → Element} (hf : ∀ el, (f el).tag = el.tag) (id x : NodeId) :
    (page.mapElement id f).tag? x = page.tag? x := by
  rw [tag?, element?_mapElement]
  split
  · rw [Option.map_map, tag?]
    congr 1
    exact funext fun el => hf el
  · rfl

namespace WellFormed

/-! ## The fixed elements -/

section Fixed

variable (h : page.WellFormed)

include h

theorem has_root : page.Has page.root := has_of_tag? h.tag?_root
theorem has_head : page.Has page.head := has_of_tag? h.tag?_head
theorem has_body : page.Has page.body := has_of_tag? h.tag?_body

theorem has_of_isFixed (hid : page.IsFixed id) : page.Has id := by
  rcases hid with rfl | rfl | rfl
  · exact h.has_root
  · exact h.has_head
  · exact h.has_body

theorem parent?_eq_root_iff : page.parent? x = some page.root ↔ x = page.head ∨ x = page.body := by
  rw [← h.linked.mem_children_iff, h.children_root]
  simp

theorem parent?_head : page.parent? page.head = some page.root :=
  h.parent?_eq_root_iff.mpr (.inl rfl)

theorem parent?_body : page.parent? page.body = some page.root :=
  h.parent?_eq_root_iff.mpr (.inr rfl)

theorem head_ne_body : page.head ≠ page.body := by
  have hnodup := h.linked.nodup page.root
  rw [h.children_root] at hnodup
  simpa using hnodup

/-- The head is not the root. -/
theorem head_ne_root : page.head ≠ page.root := by
  intro heq
  have hparent := h.parent?_head
  rw [heq, h.parent?_root] at hparent
  cases hparent

/-- The body is not the root. -/
theorem body_ne_root : page.body ≠ page.root := by
  intro heq
  have hparent := h.parent?_body
  rw [heq, h.parent?_root] at hparent
  cases hparent

theorem not_above_root : ¬ page.Above x page.root := not_above_of_parent?_eq_none h.parent?_root

theorem above_head_iff : page.Above x page.head ↔ x = page.root := by
  rw [above_of_parent? h.parent?_head]
  simp [h.not_above_root]

theorem above_body_iff : page.Above x page.body ↔ x = page.root := by
  rw [above_of_parent? h.parent?_body]
  simp [h.not_above_root]

theorem ne_head_of_above_head (hx : page.Above page.head x) : x ≠ page.head := by
  rintro rfl
  exact h.linked.acyclic _ hx

theorem ne_body_of_above_head (hx : page.Above page.head x) : x ≠ page.body := by
  rintro rfl
  exact h.head_ne_root (h.above_body_iff.mp hx)

/-- What is below the head or the body is not fixed. -/
theorem not_isFixed_of_parent? {a c : NodeId} (hc : page.parent? c = some a) (ha : a ≠ page.root) :
    ¬ page.IsFixed c := by
  rintro (rfl | rfl | rfl)
  · rw [h.parent?_root] at hc
    cases hc
  · exact ha (Option.some.inj (hc.symm.trans h.parent?_head))
  · exact ha (Option.some.inj (hc.symm.trans h.parent?_body))

/-- What is no element is neither head nor body. -/
theorem ne_of_element?_eq_none (hx : page.element? x = none) : x ≠ page.head ∧ x ≠ page.body := by
  have hne {y : NodeId} {tag : String} (htag : page.tag? y = some tag) : x ≠ y := by
    rintro rfl
    rw [tag?, hx] at htag
    cases htag
  exact ⟨hne h.tag?_head, hne h.tag?_body⟩

/-- A child of the head is neither head nor body nor root. -/
theorem head_child (hx : page.parent? x = some page.head) :
    x ≠ page.head ∧ x ≠ page.body ∧ x ≠ page.root := by
  have hfixed := h.not_isFixed_of_parent? hx h.head_ne_root
  exact ⟨fun heq => hfixed (.inr (.inl heq)), fun heq => hfixed (.inr (.inr heq)),
    fun heq => hfixed (.inl heq)⟩

/-- The fixed elements are known by their tags. -/
theorem not_isFixed_of_tag? {tag : String} (hx : page.tag? x = some tag)
    (htag : tag ∉ ["html", "head", "body"]) : ¬ page.IsFixed x := by
  have hne {y : NodeId} {fixed : String} (hy : page.tag? y = some fixed)
      (hfixed : fixed ∈ ["html", "head", "body"]) : x ≠ y := by
    rintro rfl
    exact htag (Option.some.inj (hx.symm.trans hy) ▸ hfixed)
  rintro (heq | heq | heq)
  · exact hne h.tag?_root (by decide) heq
  · exact hne h.tag?_head (by decide) heq
  · exact hne h.tag?_body (by decide) heq

theorem isSome_element?_head : (page.element? page.head).isSome = true := by
  obtain ⟨el, hel, _⟩ := Option.map_eq_some_iff.mp h.tag?_head
  rw [hel]
  rfl

/-- Only elements have children. -/
theorem isSome_element?_of_parent? {p : NodeId} (hp : page.parent? x = some p) :
    (page.element? p).isSome = true := by
  rw [Option.isSome_iff_ne_none]
  -- a leaf has no children, so nothing has it as its parent
  intro hnone
  have hmem := (h.linked.mem_children_iff p x).mpr hp
  rw [h.leaf p hnone] at hmem
  simp at hmem

end Fixed

/-! ## Kinds -/

/-- Writes that leave the kinds of all nodes keep what the kinds say. -/
theorem of_kinds (h : page.WellFormed) (hframe : page.SameFrame page')
    (hkind : ∀ x, page'.kind? x = page.kind? x) (hlinked : page'.Linked)
    (hroot : page'.parent? page.root = none)
    (hchildren : page'.children page.root = [page.head, page.body])
    (hleaf : ∀ x, page.element? x = none → page'.children x = []) : page'.WellFormed where
  linked := hlinked
  tag?_root := by rw [hframe.root, tag?_congr (hkind _)]; exact h.tag?_root
  tag?_head := by rw [hframe.head, tag?_congr (hkind _)]; exact h.tag?_head
  tag?_body := by rw [hframe.body, tag?_congr (hkind _)]; exact h.tag?_body
  parent?_root := by rw [hframe.root]; exact hroot
  children_root := by rw [hframe.root, hframe.head, hframe.body]; exact hchildren
  leaf id hid := hleaf id (by rw [← element?_congr (hkind id)]; exact hid)
  distinct id el hel := h.distinct id el (by rw [← element?_congr (hkind id)]; exact hel)

/-- Writes that leave the links keep what the links say. -/
theorem of_sameLinks (h : page.WellFormed) (hframe : page.SameFrame page')
    (hlinks : page.SameLinks page')
    (htag : ∀ x tag, page.tag? x = some tag → page'.tag? x = some tag)
    (hdistinct : ∀ x el, page'.element? x = some el → el.Distinct) : page'.WellFormed where
  linked := hlinks.linked h.linked
  tag?_root := by rw [hframe.root]; exact htag _ _ h.tag?_root
  tag?_head := by rw [hframe.head]; exact htag _ _ h.tag?_head
  tag?_body := by rw [hframe.body]; exact htag _ _ h.tag?_body
  parent?_root := by rw [hframe.root, hlinks.parent?]; exact h.parent?_root
  children_root := by
    rw [hframe.root, hframe.head, hframe.body, hlinks.children]
    exact h.children_root
  leaf id hid := by
    rw [hlinks.children]
    -- what was an element still has its tag
    refine h.leaf id (Option.eq_none_iff_forall_ne_some.mpr fun el hel => ?_)
    have htag := htag id el.tag (by rw [tag?, hel]; rfl)
    rw [tag?, hid] at htag
    cases htag
  distinct := hdistinct

/-- A change that keeps tags and distinct names keeps a page well formed. -/
theorem mapElement (h : page.WellFormed) {f : Element → Element} (htag : ∀ el, (f el).tag = el.tag)
    (hdistinct : ∀ el, el.Distinct → (f el).Distinct) : (page.mapElement id f).WellFormed := by
  refine h.of_sameLinks (mapElement_sameFrame f) (mapElement_sameLinks f) ?_ ?_
  · exact fun x tag hx => (tag?_mapElement htag _ x).trans hx
  · intro x el hx
    rw [element?_mapElement] at hx
    split at hx
    · obtain ⟨old, hold, rfl⟩ := Option.map_eq_some_iff.mp hx
      exact hdistinct old (h.distinct x old hold)
    · exact h.distinct x el hx

theorem setAttribute (h : page.WellFormed) {name value : String} :
    (page.setAttribute id name value).WellFormed :=
  h.mapElement (fun _ => rfl) (fun _ hel => hel.set)

/-- Writing a text keeps a page well formed. -/
theorem setContent (h : page.WellFormed) {content : String} :
    (page.setContent id content).WellFormed := by
  refine h.of_sameLinks (setContent_sameFrame _) (setContent_sameLinks _) ?_ ?_
  · intro x tag hx
    rw [tag?, element?_setContent]
    exact hx
  · intro x el hx
    rw [element?_setContent] at hx
    exact h.distinct x el hx

/-- A new node keeps a page well formed. -/
theorem create (h : page.WellFormed) {kind : NodeKind}
    (hkind : ∀ el, kind = .element el → el.Distinct) : (page.create kind).1.WellFormed := by
  refine h.of_sameLinks (create_sameFrame _) (create_sameLinks _) ?_ ?_
  · intro x tag hx
    rw [tag?_congr (kind?_create_of_has kind (has_of_tag? hx))]
    exact hx
  · intro x el hx
    rw [element?_eq_some_iff, kind?_create] at hx
    split at hx
    · exact hkind el (Option.some.inj hx)
    · exact h.distinct x el (element?_eq_some_iff.mpr hx)

/-- Links and kinds do not depend on the two counters of a page. -/
theorem withCounters (h : page.WellFormed) (budget : Css.Budget) (nextGenerated : Nat) :
    ({ page with budget, nextGenerated } : Page).WellFormed :=
  ⟨⟨h.linked.mem_children_iff, h.linked.nodup, h.linked.acyclic⟩, h.tag?_root, h.tag?_head, h.tag?_body,
    h.parent?_root, h.children_root, h.leaf, h.distinct⟩

/-! ## Moves -/

/-- Detaching all but head and body keeps a page well formed. -/
theorem detachAll (h : page.WellFormed) {ids : List NodeId}
    (hids : ∀ y ∈ ids, y ≠ page.head ∧ y ≠ page.body) : (page.detachAll ids).WellFormed := by
  refine h.of_kinds (detachAll_sameFrame ids) (fun _ => kind?_detachAll ids) (h.linked.detachAll ids)
    ?_ ?_ ?_
  · rw [parent?_detachAll, h.parent?_root, ite_self]
  · rw [h.linked.children_detachAll, h.children_root]
    have hhead : page.head ∉ ids := fun hmem => (hids _ hmem).1 rfl
    have hbody : page.body ∉ ids := fun hmem => (hids _ hmem).2 rfl
    simp [hhead, hbody]
  · intro x hx
    rw [h.linked.children_detachAll, h.leaf x hx]
    rfl

/-- Anything below the head may be taken out. -/
theorem detachAll_head (h : page.WellFormed) {ids : List NodeId} (hids : ∀ y ∈ ids, page.Above page.head y) :
    (page.detachAll ids).WellFormed := by
  refine h.detachAll fun y hy => ?_
  exact ⟨h.ne_head_of_above_head (hids y hy), h.ne_body_of_above_head (hids y hy)⟩

section Attach

variable {parent child : NodeId} {place : List NodeId → List NodeId}

/-- Attaching keeps a page well formed, where it makes no loop and no third child of the root. -/
theorem attach (h : page.WellFormed) (hparent : (page.element? parent).isSome = true)
    (hroot : parent ≠ page.root) (hchild : page.Has child) (hfixed : ¬ page.IsFixed child)
    (hplace : IsPlacement child place) (hne : child ≠ parent) (hloop : ¬ page.Above child parent) :
    (page.attach parent child place).WellFormed := by
  obtain ⟨el, hel⟩ := Option.isSome_iff_exists.mp hparent
  have hhas : page.Has parent := has_of_element? hel
  refine h.of_kinds attach_sameFrame (fun _ => kind?_attach)
    (h.linked.attach hhas hchild hplace hne hloop) ?_ ?_ ?_
  · rw [parent?_attach hchild, if_neg fun heq => hfixed (.inl heq.symm)]
    exact h.parent?_root
  · rw [h.linked.children_attach hhas, if_neg hroot.symm, h.children_root]
    have hhead : page.head ≠ child := fun heq => hfixed (.inr (.inl heq.symm))
    have hbody : page.body ≠ child := fun heq => hfixed (.inr (.inr heq.symm))
    simp [hhead, hbody]
  -- the parent is an element, so no leaf gets a child
  · intro x hx
    rw [h.linked.children_attach hhas, h.leaf x hx, if_neg]
    · rfl
    · rintro rfl
      rw [hel] at hx
      cases hx

/-- Attaching a new node anywhere but to the root keeps a page well formed. -/
theorem attachNew (h : page.WellFormed) {kind : NodeKind}
    (hkind : ∀ el, kind = .element el → el.Distinct)
    (hparent : (page.element? parent).isSome = true) (hroot : parent ≠ page.root)
    (hplace : IsPlacement page.next place) : (page.attachNew kind parent place).WellFormed := by
  obtain ⟨el, hel⟩ := Option.isSome_iff_exists.mp hparent
  have hhas : page.Has parent := has_of_element? hel
  have hframe : page.SameFrame (page.create kind).1 := create_sameFrame kind
  rw [Page.attachNew]
  refine (h.create hkind).attach ?_ (by rw [hframe.root]; exact hroot)
    ((has_create _).mpr (.inr rfl)) ?_ hplace (ne_next_of_has hhas).symm ?_
  · rw [element?_congr (kind?_create_of_has kind hhas)]
    exact hparent
  · rw [IsFixed, hframe.root, hframe.head, hframe.body]
    exact fun hfixed => not_has_next (h.has_of_isFixed hfixed)
  -- nothing hangs from a node that has just been made
  · rw [(create_sameLinks kind).above_iff]
    exact h.linked.not_above_next

end Attach

/-- Anything but a fixed element may be put into the head. -/
theorem attach_head (h : page.WellFormed) {child : NodeId} {place : List NodeId → List NodeId}
    (hchild : page.Has child) (hfixed : ¬ page.IsFixed child) (hplace : IsPlacement child place) :
    (page.attach page.head child place).WellFormed := by
  refine h.attach h.isSome_element?_head h.head_ne_root hchild hfixed hplace ?_ ?_
  · exact fun heq => hfixed (.inr (.inl heq))
  · exact fun habove => hfixed (.inl (h.above_head_iff.mp habove))

/-- Moving children keeps a page well formed, if neither end is the root and it makes no loop. -/
theorem moveChildren (h : page.WellFormed) {source target : NodeId}
    (htarget : (page.element? target).isSome = true) (hne : source ≠ target)
    (hsource : source ≠ page.root) (hroot : target ≠ page.root)
    (hloop : ¬ page.Above source target) : (page.moveChildren source target).WellFormed := by
  obtain ⟨el, hel⟩ := Option.isSome_iff_exists.mp htarget
  have hhas : page.Has target := has_of_element? hel
  refine h.of_kinds moveChildren_sameFrame (fun _ => kind?_moveChildren)
    (h.linked.moveChildren hhas hne hloop) ?_ ?_ ?_
  · rw [h.linked.parent?_moveChildren, h.parent?_root]
    simp
  · rw [children_moveChildren hhas hne, if_neg hsource.symm, if_neg hroot.symm]
    exact h.children_root
  · intro x hx
    rw [children_moveChildren hhas hne]
    split
    · rfl
    · rw [if_neg, h.leaf x hx]
      rintro rfl
      rw [hel] at hx
      cases hx

/-- Replacing keeps a page well formed, if it makes no loop and neither node is fixed. -/
theorem replace (h : page.WellFormed) {old new : NodeId} (hold : ¬ page.IsFixed old)
    (hnew : page.Has new) (hfixed : ¬ page.IsFixed new) (hne : new ≠ old)
    (hloop : ∀ p, page.parent? old = some p → new ≠ p ∧ ¬ page.Above new p) :
    (page.replace old new).WellFormed := by
  cases hp : page.parent? old with
  | none => rw [replace_of_parent?_eq_none hp]; exact h
  | some p =>
    have hloop := hloop p hp
    refine h.of_kinds replace_sameFrame (fun _ => kind?_replace)
      (h.linked.replace hp hnew hloop.1 hloop.2) ?_ ?_ ?_
    · have hroot : page.root ≠ new := fun heq => hfixed (.inl heq.symm)
      rw [parent?_replace hp hnew, h.parent?_root, if_neg hroot, ite_self]
    · rw [h.linked.children_replace hp hnew hne, h.children_root]
      simp only [IsFixed, not_or] at hold hfixed
      simp [Ne.symm hold.2.1, Ne.symm hold.2.2, Ne.symm hfixed.2.1, Ne.symm hfixed.2.2]
    · intro x hx
      rw [h.linked.children_replace hp hnew hne, h.leaf x hx]
      rfl

/-- Replacing the content of an element by a text keeps a page well formed, if it is not the root. -/
theorem setTextContent (h : page.WellFormed) {content : String}
    (hid : (page.element? id).isSome = true) (hroot : id ≠ page.root) :
    (page.setTextContent id content).WellFormed := by
  -- the head and the body are children of the root alone
  have hchildren : ∀ y ∈ page.children id, y ≠ page.head ∧ y ≠ page.body := by
    intro y hy
    have hparent := (h.linked.mem_children_iff id y).mp hy
    constructor
    · rintro rfl
      exact hroot (Option.some.inj (hparent.symm.trans h.parent?_head))
    · rintro rfl
      exact hroot (Option.some.inj (hparent.symm.trans h.parent?_body))
  have hdetached := h.detachAll hchildren
  have hframe : page.SameFrame (page.detachAll (page.children id)) := detachAll_sameFrame _
  rw [setTextContent_eq]
  split
  · exact hdetached
  · refine hdetached.attachNew (fun el hel => by cases hel) ?_ (by rw [hframe.root]; exact hroot) ?_
    · rw [element?_congr (kind?_detachAll _)]
      exact hid
    · rw [next_detachAll]
      exact isPlacement_append _

end WellFormed

end AmpTuner.Page
