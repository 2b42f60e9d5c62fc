import AmpTuner.Proofs.Rendering.Evolving

/-!
# What becomes of each node

While rendering goes through the custom elements, an element that was dealt with may have given its place to a copy.
All the others are still the nodes that they were.

* **`Tracked`** says so of the writes that deal with the elements `ids`: only these get successors, which are new
  nodes, no two the same one.
* **`Tracked.trans`** puts writes together, and there is one lemma for each of them.
* **`hasAncestor_template_eq`**: a template above a node stays above what becomes of it, although appending rules
  takes nodes out of the stylesheet.
-/

namespace AmpTuner.Rendering

open Markup (Element)
open Vocabulary (layoutMarker)
open Css (Budget Length)

variable {page page' page'' : Page} {id x : NodeId} {ids ids' : List NodeId} {ρ σ : NodeId → NodeId} {el : Element}

/-- `ρ` tells what became of the nodes after the elements `ids` were dealt with. -/
structure Tracked (ids : List NodeId) (page page' : Page) (ρ : NodeId → NodeId) : Prop
    extends Traced page page' ρ where
  wellFormed : page'.WellFormed
  grows : ∀ x, page.Has x → page'.Has x
  has : ∀ x, page.Has x → page'.Has (ρ x)
  others : ∀ x, page.Has x → x ∉ ids → ρ x = x ∧ page'.kind? x = page.kind? x
  moved : ∀ x, page.Has x → ρ x = x ∨ ¬ page.Has (ρ x)
  injective : ∀ x y, page.Has x → page.Has y → ρ x = ρ y → x = y
  template : ∀ x, page.Has x → page'.hasAncestor (ρ x) "template" = page.hasAncestor x "template"
  literal : page.HeadLiteral → page'.HeadLiteral
  stays : page.HeadLiteral → ∀ x, (page.element? x).isSome = true → page.Attached x → page'.Attached (ρ x)

/-! ## Templates -/

/-- What is above a node now was above it, so that only a template that was above it could be missing. -/
theorem hasAncestor_template_eq (h : page.Linked) (h' : page'.Linked) (himage : page.Image page' ρ)
    (htag : ∀ x, page.Has x → page'.tag? (ρ x) = page.tag? x) (hx : page.Has x)
    (hup : ∀ t, page.Above t x → page.tag? t = some "template" → page'.Above (ρ t) (ρ x)) :
    page'.hasAncestor (ρ x) "template" = page.hasAncestor x "template" := by
  rw [Bool.eq_iff_iff, h.hasAncestor_iff, h'.hasAncestor_iff]
  constructor
  · rintro ⟨q, hq, htemplate⟩
    obtain ⟨t, ht, rfl⟩ := himage.exists_above h hx hq
    rw [Page.isTag, htag t (h.has_of_above ht)] at htemplate
    exact ⟨t, ht, htemplate⟩
  · rintro ⟨t, ht, htemplate⟩
    refine ⟨ρ t, hup t ht (eq_of_beq htemplate), ?_⟩
    rw [Page.isTag, htag t (h.has_of_above ht)]
    exact htemplate

/-- Above the stylesheet there is no template. -/
theorem above_appendCustomCss (h : page.WellFormed) (css : String) {t : NodeId} (ht : page.Above t x)
    (htag : page.tag? t = some "template") : (page.appendCustomCss css).Above t x := by
  have kept {p d : NodeId} (hd : page.parent? d = some p) (hne : page.customStyle? ≠ some p) :
      (page.appendCustomCss css).parent? d = some p :=
    (h.parent?_appendCustomCss css (Page.has_of_parent? hd)).mpr ⟨hd, hne⟩
  have hstyle {s : NodeId} (hs : page.customStyle? = some s) :
      page.parent? s = some page.head ∧ page.tag? s = some "style" := by
    obtain ⟨sel, hsel, -⟩ := h.of_mem_customStyles (Page.mem_customStyles_of_customStyle? hs)
    refine ⟨((Page.mem_customStyles_iff h.linked).mp (Page.mem_customStyles_of_customStyle? hs)).1, ?_⟩
    rw [Page.tag?, hsel, Option.map_some, h.tag_of_customStyle? hs hsel]
  induction ht with
  | single hd =>
    refine .of_parent? (kept hd fun hs => ?_)
    rw [(hstyle hs).2] at htag
    exact absurd (Option.some.inj htag) (by decide)
  | tail hup hd ih =>
    refine ih.child (kept hd fun hs => ?_)
    -- above the stylesheet are the head and the root
    rcases (Page.above_of_parent? (hstyle hs).1).mp hup with rfl | hup
    · rw [h.tag?_head] at htag
      exact absurd (Option.some.inj htag) (by decide)
    · rw [h.above_head_iff.mp hup, h.tag?_root] at htag
      exact absurd (Option.some.inj htag) (by decide)

/-- What is above an element is above its copy. -/
theorem Replaced.above_heir (h : Replaced page id el page') (hpage : page.WellFormed) {t : NodeId}
    (ht : page.Above t x) : page'.Above (heir page id t) (heir page id x) := by
  have hparent {d p : NodeId} (hd : page.parent? d = some p) :
      page'.parent? (heir page id d) = some (heir page id p) := by
    by_cases hdid : d = id
    · subst hdid
      have hne : p ≠ d := fun heq => hpage.linked.acyclic d (.of_parent? (heq ▸ hd))
      rw [heir_self, heir_of_ne hne, h.parent?_next, hd]
    · rw [heir_of_ne hdid, h.parent? d (Page.has_of_parent? hd) hdid, hd]
      rfl
  induction ht with
  | single hd => exact .of_parent? (hparent hd)
  | tail _ hd ih => exact ih.child (hparent hd)

/-- The copy is a new node, so that it is nobody else. -/
theorem eq_of_heir_eq {y : NodeId} (hx : page.Has x) (hy : page.Has y) (heq : heir page id x = heir page id y) :
    x = y := by
  by_cases hxid : x = id
  · by_cases hyid : y = id
    · rw [hxid, hyid]
    · rw [hxid, heir_self, heir_of_ne hyid] at heq
      exact absurd heq.symm (Page.ne_next_of_has hy)
  · by_cases hyid : y = id
    · rw [hyid, heir_self, heir_of_ne hxid] at heq
      exact absurd heq (Page.ne_next_of_has hx)
    · rwa [heir_of_ne hxid, heir_of_ne hyid] at heq

/-! ## One write after the other -/

/-- Nodes that are traced through two changes are traced through both together. -/
theorem Traced.trans (h : Traced page page' ρ) (h' : Traced page' page'' σ) (hpage' : page'.Linked)
    (hhas : ∀ x, page.Has x → page'.Has (ρ x)) : Traced page page'' (σ ∘ ρ) where
  toImage := h.toImage.trans h'.toImage hhas
  tag? x hx := (h'.tag? _ (hhas x hx)).trans (h.tag? x hx)
  covers y hy hcomponent := by
    obtain ⟨x', hx', rfl⟩ := h'.covers y hy hcomponent
    obtain ⟨x, hx, rfl⟩ := h.covers x' (h'.toImage.attached hpage' hx' hy) (h'.isComponent hx' hcomponent)
    exact ⟨x, hx, rfl⟩
  marked x hx := h'.marked _ (h.marked x hx)
  copied x hx hne := by
    by_cases hρ : ρ x = x
    · rw [Function.comp_apply, hρ] at hne ⊢
      exact h'.copied x (hρ ▸ hhas x hx) hne
    · exact h'.marked _ (h.copied x hx hρ)

namespace Tracked

theorem mono (h : Tracked ids page page' ρ) (hsub : ids ⊆ ids') : Tracked ids' page page' ρ :=
  { h with others := fun x hx hnot => h.others x hx fun hmem => hnot (hsub hmem) }

theorem element? (h : Tracked ids page page' ρ) (hx : page.Has x) (hnot : x ∉ ids) :
    page'.element? x = page.element? x :=
  Page.element?_congr (h.others x hx hnot).2

/-- Elements stay elements. -/
theorem isSome_element? (h : Tracked ids page page' ρ) (hx : (page.element? x).isSome = true) :
    (page'.element? (ρ x)).isSome = true := by
  obtain ⟨el, hel⟩ := Option.isSome_iff_exists.mp hx
  have htag := h.tag? x (Page.has_of_element? hel)
  rw [Page.tag?, Page.tag?, hel] at htag
  obtain ⟨el', hel', -⟩ := Option.map_eq_some_iff.mp htag
  rw [hel']
  rfl

/-- Nodes that are tracked through two changes are tracked through both together. -/
theorem trans (h : Tracked ids page page' ρ) (h' : Tracked ids page' page'' σ) :
    Tracked ids page page'' (σ ∘ ρ) where
  toTraced := h.toTraced.trans h'.toTraced h.wellFormed.linked h.has
  wellFormed := h'.wellFormed
  grows x hx := h'.grows x (h.grows x hx)
  has x hx := h'.has _ (h.has x hx)
  others x hx hnot := by
    obtain ⟨hρ, hkind⟩ := h.others x hx hnot
    obtain ⟨hσ, hkind'⟩ := h'.others x (hρ ▸ h.has x hx) hnot
    exact ⟨by rw [Function.comp_apply, hρ, hσ], hkind'.trans hkind⟩
  moved x hx := by
    rw [Function.comp_apply]
    rcases h'.moved (ρ x) (h.has x hx) with hsame | hnew
    · rw [hsame]
      exact h.moved x hx
    · exact .inr fun hhas => hnew (h.grows _ hhas)
  injective x y hx hy heq := h.injective x y hx hy (h'.injective _ _ (h.has x hx) (h.has y hy) heq)
  template x hx := (h'.template _ (h.has x hx)).trans (h.template x hx)
  literal hliteral := h'.literal (h.literal hliteral)
  stays hliteral x hx hattached :=
    h'.stays (h.literal hliteral) _ (h.isSome_element? hx) (h.stays hliteral x hx hattached)

/-- What is to be shown of a write that gives no node a successor. -/
theorem of_same (htraced : Traced page page' fun x => x) (hpage : page.WellFormed) (hpage' : page'.WellFormed)
    (hgrows : ∀ x, page.Has x → page'.Has x) (hothers : ∀ x, page.Has x → x ∉ ids → page'.kind? x = page.kind? x)
    (hup : ∀ t x, page.Above t x → page.tag? t = some "template" → page'.Above t x)
    (hliteral : page.HeadLiteral → page'.HeadLiteral)
    (hstays : page.HeadLiteral → ∀ x, (page.element? x).isSome = true → page.Attached x → page'.Attached x) :
    Tracked ids page page' fun x => x where
  toTraced := htraced
  wellFormed := hpage'
  grows := hgrows
  has := hgrows
  others x hx hnot := ⟨rfl, hothers x hx hnot⟩
  moved _ _ := .inl rfl
  injective _ _ _ _ heq := heq
  template x hx :=
    hasAncestor_template_eq hpage.linked hpage'.linked htraced.toImage htraced.tag? hx fun t ht htag => hup t x ht htag
  literal := hliteral
  stays := hstays

/-- The write leaves all links as they were. -/
theorem of_sameLinks (htraced : Traced page page' fun x => x) (hpage : page.WellFormed) (hpage' : page'.WellFormed)
    (hlinks : page.SameLinks page') (hhead : page'.head = page.head)
    (hgrows : ∀ x, page.Has x → page'.Has x) (hothers : ∀ x, page.Has x → x ∉ ids → page'.kind? x = page.kind? x) :
    Tracked ids page page' fun x => x := by
  refine .of_same htraced hpage hpage' hgrows hothers (fun t x ht _ => hlinks.above_iff.mpr ht) ?_ fun _ x _ hx => ?_
  · intro hliteral x c tag hx htag hraw hc
    rw [hlinks.parent?] at hx hc
    have htagOld : page.tag? x = some tag := by rw [← htraced.tag? x (Page.has_of_parent? hx), htag]
    have hnone := hliteral x c tag (hhead ▸ hx) htagOld hraw hc
    have htagOf := htraced.tag? c (Page.has_of_parent? hc)
    rw [Page.tag?, Page.tag?, hnone] at htagOf
    exact Option.map_eq_none_iff.mp htagOf
  · rw [Page.Attached, htraced.root]
    exact hx.imp_right hlinks.above_iff.mpr

end Tracked

/-! ## The writes -/

theorem tracked_refl (h : page.WellFormed) : Tracked ids page page fun x => x :=
  .of_sameLinks (traced_withCounters h page.budget page.nextGenerated) h h (.refl page) rfl (fun _ hx => hx)
    fun _ _ _ => rfl

theorem tracked_withCounters (h : page.WellFormed) (budget : Budget) (n : Nat) :
    Tracked ids page { page with budget, nextGenerated := n } fun x => x :=
  .of_sameLinks (traced_withCounters h budget n) h (h.withCounters budget n) ⟨fun _ => rfl, fun _ => rfl⟩ rfl
    (fun _ hx => hx) fun _ _ _ => rfl

/-- A change of attributes moves no node and concerns one element. -/
theorem tracked_mapElement (h : page.WellFormed) {f : Element → Element} (hf : IsChange f) :
    Tracked [id] page (page.mapElement id f) fun x => x := by
  have htraced : Traced page (page.mapElement id f) fun x => x :=
    traced_mapElement hf.tag fun el hel => by rw [hf.hasAttribute_layoutMarker, hel]
  refine .of_sameLinks htraced h (h.mapElement hf.tag fun _ => hf.distinct) (Page.mapElement_sameLinks f) rfl
    (fun x hx => (Page.has_mapElement f).mpr hx) fun x _ hnot => ?_
  exact Page.kind?_mapElement_of_ne f (by simpa using hnot)

/-- Text at the end of the stylesheet moves no node, and concerns no element but a new style. -/
theorem tracked_appendCustomCss (h : page.WellFormed) (css : String) :
    Tracked ids page (page.appendCustomCss css) fun x => x := by
  have hkinds : page.SameKinds (page.appendCustomCss css) := Page.appendCustomCss_sameKinds css
  refine .of_same (traced_appendCustomCss h css) h (h.appendCustomCss css) (fun x hx => hkinds.has hx)
    (fun x hx _ => hkinds.kind? x hx) (fun t x ht htag => above_appendCustomCss h css ht htag)
    (fun hliteral => (evolves_appendCustomCss h hliteral css).literal) fun hliteral x hx hattached => ?_
  obtain ⟨el, hel⟩ := Option.isSome_iff_exists.mp hx
  exact ((evolves_appendCustomCss h hliteral css).stays x el hel hattached).resolve_right id

/-- A layout moves one element to its copy and concerns no other. -/
theorem tracked_applyLayout (h : page.WellFormed) (hid : page.element? id = some el)
    (hcomponent : Markup.isComponent el.tag = true) (layout : Layout) (width height : Length)
    (heightsConverted : Bool) :
    Tracked [id] page (applyLayout page id layout width height heightsConverted) (heir page id) := by
  have hreplaced := replaced_applyLayout h hid hcomponent layout width height heightsConverted
  have htag := tag_rendered layout width height el
  have htraced := hreplaced.traced h hid hcomponent htag (hasAttribute_rendered layout width height el)
  exact
    { toTraced := htraced
      wellFormed := hreplaced.wellFormed
      grows := fun x hx => hreplaced.sameKinds.has hx
      has := by
        intro x hx
        by_cases hxid : x = id
        · rw [hxid, heir_self]
          exact Page.has_of_element? hreplaced.element?_next
        · rw [heir_of_ne hxid]
          exact hreplaced.sameKinds.has hx
      others := fun x hx hnot => ⟨heir_of_ne (by simpa using hnot), hreplaced.sameKinds.kind? x hx⟩
      moved := by
        intro x _
        by_cases hxid : x = id
        · rw [hxid, heir_self]
          exact .inr Page.not_has_next
        · exact .inl (heir_of_ne hxid)
      injective := fun x y hx hy => eq_of_heir_eq hx hy
      template := fun x hx => hasAncestor_template_eq h.linked hreplaced.wellFormed.linked htraced.toImage htraced.tag?
        hx fun t ht _ => hreplaced.above_heir h ht
      literal := fun hliteral => hreplaced.headLiteral h hid hcomponent hliteral htag
      stays := fun _ x _ hx => hreplaced.attached_heir h hx fun heq =>
        h.not_isFixed_of_isComponent ⟨el, hid, hcomponent⟩ (.inl heq) }

end AmpTuner.Rendering
