import AmpTuner.Proofs.Page.WellFormed
import AmpTuner.Proofs.Page.Preorder

/-!
# What is on the page after a change

A change may take nodes off the page and put copies in their place. `Image` says that it did no more to
what is above a node: every link up from where a node has gone comes from a link up from the node.

* **`Image.attached`**: what is on the page after the change was on it before.
* **`Image.above`**: and the nodes that were above it are above it still, or what became of them is.
* **`Linked.filter_preorder_attachNew`**: a new node leaves the others in their order.
* **`mem_components_iff`** puts the custom elements of a page in these terms.
-/

namespace AmpTuner.Page

open Markup (Element)

variable {page page' page'' : Page} {ρ σ : NodeId → NodeId} {id x t q : NodeId}

/-- The node is the root or below it. -/
def Attached (page : Page) (id : NodeId) : Prop := id = page.root ∨ page.Above page.root id

/-- What has an attached parent is attached. -/
theorem Attached.of_parent? {p : NodeId} (hp : page.parent? x = some p) (h : page.Attached p) :
    page.Attached x := by
  rcases h with rfl | h
  · exact .inr (.of_parent? hp)
  · exact .inr (h.child hp)

/-- What is above an attached node is attached. -/
theorem WellFormed.attached_of_parent? (h : page.WellFormed) {p : NodeId}
    (hp : page.parent? x = some p) (hx : page.Attached x) : page.Attached p := by
  rcases hx with rfl | hx
  · rw [h.parent?_root] at hp
    cases hp
  · rcases (above_of_parent? hp).mp hx with hroot | hx
    · exact .inl hroot.symm
    · exact .inr hx

/-- What is attached is a node of the page. -/
theorem WellFormed.has_of_attached (h : page.WellFormed) (hx : page.Attached x) : page.Has x := by
  rcases hx with rfl | hx
  · exact h.has_root
  · obtain ⟨p, hp, _⟩ := above_iff.mp hx
    exact has_of_parent? hp

/-- `ρ` tells what became of the nodes of `page`, and links up come from links up. -/
structure Image (page page' : Page) (ρ : NodeId → NodeId) : Prop where
  root : page'.root = page.root
  map_root : ∀ x, page.Has x → ρ x = page.root → x = page.root
  parent? : ∀ x, page.Has x → ∀ q, page'.parent? (ρ x) = some q → ∃ p, page.parent? x = some p ∧ ρ p = q

namespace Image

/-- The change left every node where it was, or took it away. -/
theorem of_parent? (hroot : page'.root = page.root)
    (hparent : ∀ x, page.Has x → ∀ q, page'.parent? x = some q → page.parent? x = some q) :
    page.Image page' (fun x => x) :=
  ⟨hroot, fun _ _ h => h, fun x hx q hq => ⟨q, hparent x hx q hq, rfl⟩⟩

theorem of_sameLinks (hroot : page'.root = page.root) (h : page.SameLinks page') :
    page.Image page' (fun x => x) :=
  .of_parent? hroot fun x _ q hq => by rw [← h.parent?, hq]

/-- What is above the image of a node is the image of what is above the node. -/
theorem exists_above (h : page.Image page' ρ) (hlinked : page.Linked) (hx : page.Has x)
    (hq : page'.Above q (ρ x)) : ∃ p, page.Above p x ∧ ρ p = q := by
  generalize hy : ρ x = y at hq
  induction hq generalizing x with
  | single hd =>
    obtain ⟨p, hp, hpq⟩ := h.parent? x hx q (by rw [hy, hd])
    exact ⟨p, .of_parent? hp, hpq⟩
  | tail _ hd ih =>
    obtain ⟨p, hp, hpq⟩ := h.parent? x hx _ (by rw [hy, hd])
    obtain ⟨a, ha, haq⟩ := ih (hlinked.has_parent hp) hpq
    exact ⟨a, ha.child hp, haq⟩

/-- A node whose image is attached was attached. -/
theorem attached (h : page.Image page' ρ) (hlinked : page.Linked) (hx : page.Has x)
    (hattached : page'.Attached (ρ x)) : page.Attached x := by
  rw [Attached, h.root] at hattached
  -- whatever stands at the root was the root, so the way up ends where it ended before
  rcases hattached with hroot | habove
  · exact .inl (h.map_root x hx hroot)
  · obtain ⟨p, hp, hroot⟩ := h.exists_above hlinked hx habove
    obtain rfl := h.map_root p (hlinked.has_of_above hp) hroot
    exact .inr hp

/-- A node that is still on the page has kept its parent. -/
theorem parent?_map (h : page.Image page' ρ) (hpage : page.WellFormed) (hx : page'.Attached (ρ x)) {p : NodeId}
    (hp : page.parent? x = some p) : page'.parent? (ρ x) = some (ρ p) := by
  have hhas : page.Has x := has_of_parent? hp
  rcases hx with hroot | habove
  · rw [h.root] at hroot
    rw [h.map_root x hhas hroot, hpage.parent?_root] at hp
    cases hp
  · obtain ⟨q, hq, _⟩ := above_iff.mp habove
    obtain ⟨p', hp', hpq⟩ := h.parent? x hhas q hq
    rw [hp] at hp'
    rw [hq, Option.some.inj hp', hpq]

/-- Induction up from the node; being attached carries the way up. -/
theorem above (h : page.Image page' ρ) (hpage : page.WellFormed) (hpage' : page'.WellFormed)
    (hattached : page'.Attached (ρ x)) (ht : page.Above t x) : page'.Above (ρ t) (ρ x) := by
  induction ht with
  | single hd => exact .of_parent? (h.parent?_map hpage hattached hd)
  | tail _ hd ih =>
    have hparent := h.parent?_map hpage hattached hd
    exact (ih (hpage'.attached_of_parent? hparent hattached)).child hparent

end Image

/-! ## A new node -/

/-- A node that is new stands in the listing and changes nothing else of it. -/
theorem Linked.filter_preorder_attachNew (h : page.Linked) {kind : NodeKind} {parent : NodeId}
    {place : List NodeId → List NodeId} (h' : (page.attachNew kind parent place).Linked)
    (hparent : page.Has parent) (hplace : IsPlacement page.next place) :
    ((page.attachNew kind parent place).preorder x).filter (· != page.next) = page.preorder x := by
  have hnew : (page.attachNew kind parent place).preorder page.next = [] := by
    rw [h'.preorder_eq, h.children_attachNew hparent, if_neg (ne_next_of_has hparent).symm,
      children_of_not_has not_has_next]
    rfl
  induction x using h.down_induction with
  | step x ih =>
    have hold : ∀ c ∈ page.children x,
        (c :: (page.attachNew kind parent place).preorder c).filter (· != page.next) = c :: page.preorder c := by
      intro c hc
      have hparent := (h.mem_children_iff x c).mp hc
      rw [List.filter_cons_of_pos (by simpa using ne_next_of_has (has_of_parent? hparent)), ih c hparent]
    rw [h'.preorder_eq, h.preorder_eq, h.children_attachNew hparent, List.filter_flatMap]
    split
    · obtain ⟨before, after, hsplit, hput⟩ := hplace (page.children x)
      rw [hput, List.flatMap_append, List.flatMap_cons, hnew, List.filter_cons_of_neg (by simp), List.filter_nil,
        List.nil_append, ← List.flatMap_append, ← hsplit]
      exact List.flatMap_congr hold
    · exact List.flatMap_congr hold

/-! ## Custom elements -/

/-- The node is a custom element. -/
def IsComponent (page : Page) (id : NodeId) : Prop :=
  ∃ el, page.element? id = some el ∧ Markup.isComponent el.tag = true

theorem mem_components_iff (h : page.Linked) :
    x ∈ page.components ↔ page.Above page.root x ∧ page.IsComponent x := by
  rw [components, elementsWhere, List.mem_filter, h.mem_descendants_iff, isElement_iff, IsComponent]

/-- A component stays one as long as it keeps its tag. -/
theorem IsComponent.of_tag? (h : page.IsComponent x)
    (htag : ∀ tag, page.tag? x = some tag → page'.tag? x = some tag) : page'.IsComponent x := by
  obtain ⟨el, hel, hcomponent⟩ := h
  obtain ⟨el', hel', heq⟩ := Option.map_eq_some_iff.mp (htag el.tag (by rw [tag?, hel]; rfl))
  exact ⟨el', hel', heq ▸ hcomponent⟩

/-- A plain element is not a component. -/
theorem IsComponent.ne_of_element? {el : Element} (h : page.IsComponent id) (hel : page.element? x = some el)
    (hplain : Markup.isComponent el.tag = false) : x ≠ id := by
  rintro rfl
  obtain ⟨el', hel', hcomponent⟩ := h
  obtain rfl := Option.some.inj (hel.symm.trans hel')
  rw [hplain] at hcomponent
  cases hcomponent

/-- Neither the root nor head nor body is a component. -/
theorem WellFormed.not_isFixed_of_isComponent (h : page.WellFormed) (hx : page.IsComponent x) :
    ¬ page.IsFixed x := by
  obtain ⟨el, hel, hcomponent⟩ := hx
  have hall : ∀ tag ∈ ["html", "head", "body"], Markup.isComponent tag = false := by decide
  refine h.not_isFixed_of_tag? (by rw [tag?, hel]; rfl) fun hmem => ?_
  rw [hall el.tag hmem] at hcomponent
  cases hcomponent

end AmpTuner.Page
