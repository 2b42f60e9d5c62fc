import AmpTuner.Proofs.Pass.Resembling
import AmpTuner.Proofs.Rendering.Boilerplate
import AmpTuner.Proofs.Pass.WellFormed
import AmpTuner.Proofs.Page.Attached

/-!
# What a page evolves to

The passes that come behind the extensions move, copy, mark and add elements. What they leave as it was is what
the passes in front of them look at.

* **`Evolves`** says of a change that the elements on the page are the ones that were on it, or what became of them,
  and padding. `lost` are the elements that may have gone.
* **`Evolves.trans`** puts changes together.
* **`Evolves.viewport_iff`**, **`Evolves.mem_styles_iff`**, **`Evolves.mem_noscripts_iff`**: the viewports and the
  boilerplate are the same.
* **`Augments`** is what is to be shown of a change that moves no element and takes none away.
* **`evolves_mapElement`**, **`evolves_attachNew`**, **`evolves_setTextContent`**: the writes of which such changes
  consist.
-/

namespace AmpTuner

open Markup (Element)
open Vocabulary

variable {lost : Element → Prop} {page page' page'' : Page} {ρ σ : NodeId → NodeId} {id x y p : NodeId}
  {el el' : Element}

/-- Scripts and styles in the head hold texts. -/
def Page.HeadLiteral (page : Page) : Prop :=
  ∀ x c tag, page.parent? x = some page.head → page.tag? x = some tag → Markup.isRawText tag = true →
    page.parent? c = some x → page.element? c = none

/-- Where no node has got another parent, the head has not got anything. -/
theorem Page.HeadLiteral.of_kinds (h : page.HeadLiteral) (hhead : page'.head = page.head)
    (hkind : ∀ x, page'.kind? x = page.kind? x)
    (hback : ∀ x q, page'.parent? x = some q → page.parent? x = some q) : page'.HeadLiteral := by
  intro x c tag hx htag hraw hc
  rw [hhead] at hx
  rw [Page.tag?_congr (hkind x)] at htag
  rw [Page.element?_congr (hkind c)]
  exact h x c tag (hback x _ hx) htag hraw (hback c x hc)

theorem isComponent_of_isBoilerplateStyle (h : isBoilerplateStyle el = true) : Markup.isComponent el.tag = false := by
  rw [isBoilerplateStyle, Bool.and_eq_true, beq_iff_eq] at h
  rw [h.1]
  decide

theorem Page.WellFormed.attached_of_parent?_head (h : page.WellFormed) (hx : page.parent? x = some page.head) :
    page.Attached x :=
  .inr (.child (.of_parent? h.parent?_head) hx)

/-- The boilerplate styles are children of the head. -/
theorem Boilerplate.mem_styles_iff (h : page.Linked) : x ∈ styles page
    ↔ page.parent? x = some page.head ∧ page.isElement x isBoilerplateStyle = true := by
  rw [styles, List.mem_filter, h.mem_elementChildren_iff, and_assoc]
  refine and_congr_right fun _ => and_iff_right_of_imp fun hstyle => ?_
  obtain ⟨el, hel, -⟩ := Page.isElement_iff.mp hstyle
  exact ⟨el, hel⟩

/-- The boilerplate noscripts are children of the head with such a style inside. -/
theorem Boilerplate.mem_noscripts_iff (h : page.Linked) : x ∈ noscripts page
    ↔ page.parent? x = some page.head ∧ (∃ el, page.element? x = some el ∧ el.tag = "noscript")
      ∧ ∃ c, page.parent? c = some x ∧ page.isElement c isBoilerplateStyle = true := by
  have hany : (page.elementChildren x).any (page.isElement · isBoilerplateStyle) = true
      ↔ ∃ c, page.parent? c = some x ∧ page.isElement c isBoilerplateStyle = true := by
    rw [List.any_eq_true]
    refine exists_congr fun c => and_congr_left fun hstyle => ?_
    obtain ⟨el, hel, -⟩ := Page.isElement_iff.mp hstyle
    rw [h.mem_elementChildren_iff]
    exact and_iff_left ⟨el, hel⟩
  rw [noscripts, List.mem_filter, h.mem_elementChildren_iff, isNoscript, Bool.and_eq_true, Page.isTag_iff, hany,
    and_assoc]
  refine and_congr_right fun _ => and_iff_right_of_imp ?_
  rintro ⟨⟨el, hel, -⟩, -⟩
  exact ⟨el, hel⟩

theorem mem_boilerplateOf_iff :
    x ∈ Rendering.boilerplateOf page ↔ x ∈ Boilerplate.styles page ∨ x ∈ Boilerplate.noscripts page := by
  rw [Rendering.boilerplateOf, Boilerplate.styles, Boilerplate.noscripts, List.mem_filter, List.mem_filter,
    List.mem_filter, Bool.or_eq_true, and_or_left]

theorem parent?_of_mem_boilerplateOf (h : page.Linked) (hx : x ∈ Rendering.boilerplateOf page) :
    page.parent? x = some page.head :=
  ((h.mem_elementChildren_iff).mp (List.mem_filter.mp hx).1).1

/-- The boilerplate consists of plain elements. -/
theorem exists_element_of_mem_boilerplateOf (h : page.Linked) (hx : x ∈ Rendering.boilerplateOf page) :
    ∃ el, page.element? x = some el ∧ Markup.isComponent el.tag = false := by
  rw [mem_boilerplateOf_iff, Boilerplate.mem_styles_iff h, Boilerplate.mem_noscripts_iff h] at hx
  rcases hx with ⟨-, hstyle⟩ | ⟨-, ⟨el, hel, htag⟩, -⟩
  · obtain ⟨el, hel, hstyle⟩ := Page.isElement_iff.mp hstyle
    exact ⟨el, hel, isComponent_of_isBoilerplateStyle hstyle⟩
  · exact ⟨el, hel, by rw [htag]; decide⟩

/-- Nothing in the boilerplate requires an extension or declares a viewport. -/
def InertBoilerplate (spec : Spec) (page : Page) : Prop :=
  ∀ b x el, b ∈ Rendering.boilerplateOf page → x = b ∨ page.Above b x → page.element? x = some el → Inert spec el

/-- `ρ` tells what became of the nodes: other elements are padding, and none has gone but those of `lost`. -/
structure Evolves (lost : Element → Prop) (page page' : Page) (ρ : NodeId → NodeId) : Prop
    extends page.Image page' ρ where
  wellFormed : page'.WellFormed
  literal : page'.HeadLiteral
  head : page'.head = page.head
  has : ∀ x, page.Has x → page'.Has (ρ x)
  fixed : ∀ x el, page.element? x = some el → Markup.isComponent el.tag = false → ρ x = x
  resembles : ∀ x el, page.element? x = some el → ∃ el', page'.element? (ρ x) = some el' ∧ Resembles el el'
  text : ∀ x, page.Has x → page.element? x = none → page'.kind? x = page.kind? x
  script : ∀ x el, page.element? x = some el → el.tag = "script" → page'.element? x = some el
  headScript : ∀ x, page.parent? x = some page.head → page.tag? x = some "script" →
    page'.parent? x = some page.head ∧ page'.children x = page.children x
  stays : ∀ x el, page.element? x = some el → page.Attached x → page'.Attached (ρ x) ∨ lost el
  origin : ∀ y el, page'.element? y = some el → page'.Attached y →
    (∃ x, (page.element? x).isSome ∧ ρ x = y) ∨ IsPadding el
  marks : ∀ name, page.hasAttribute page.root name = true → page'.hasAttribute page.root name = true

/-- An image of an image is an image. -/
theorem Page.Image.trans (h : page.Image page' ρ) (h' : page'.Image page'' σ)
    (hhas : ∀ x, page.Has x → page'.Has (ρ x)) : page.Image page'' (σ ∘ ρ) where
  root := h'.root.trans h.root
  map_root x hx hroot := by
    refine h.map_root x hx ?_
    rw [← h.root] at hroot ⊢
    exact h'.map_root _ (hhas x hx) hroot
  parent? x hx q hq := by
    obtain ⟨p', hp', hpq⟩ := h'.parent? _ (hhas x hx) q hq
    obtain ⟨p, hp, rfl⟩ := h.parent? x hx p' hp'
    exact ⟨p, hp, hpq⟩

namespace Evolves

/-- Nothing has become of the page. -/
theorem refl (hpage : page.WellFormed) (hliteral : page.HeadLiteral) : Evolves lost page page fun x => x where
  toImage := .of_sameLinks rfl (.refl page)
  wellFormed := hpage
  literal := hliteral
  head := rfl
  has _ hx := hx
  fixed _ _ _ _ := rfl
  resembles _ el hel := ⟨el, hel, .refl el⟩
  text _ _ _ := rfl
  script _ _ hel _ := hel
  headScript _ hx _ := ⟨hx, rfl⟩
  stays _ _ _ hx := .inl hx
  origin y el hel _ := .inl ⟨y, by rw [hel]; rfl, rfl⟩
  marks _ hmark := hmark

theorem mono {lost' : Element → Prop} (h : Evolves lost page page' ρ) (himp : ∀ el, lost el → lost' el) :
    Evolves lost' page page' ρ :=
  { h with stays := fun x el hel hx => (h.stays x el hel hx).imp_right (himp el) }

section Single

variable (h : Evolves lost page page' ρ)

include h

/-- Custom elements become custom elements, and no others do. -/
theorem eq_of_plain (hx : (page.element? x).isSome) (hel' : page'.element? (ρ x) = some el')
    (hplain : Markup.isComponent el'.tag = false) : ρ x = x := by
  obtain ⟨el, hel⟩ := Option.isSome_iff_exists.mp hx
  obtain ⟨el'', hel'', hres⟩ := h.resembles x el hel
  obtain rfl := Option.some.inj (hel'.symm.trans hel'')
  exact h.fixed x el hel (hres.tag ▸ hplain)

/-- A plain element that is no padding was there before, at the same place in the page. -/
theorem origin_plain (hel' : page'.element? y = some el') (hy : page'.Attached y)
    (hplain : Markup.isComponent el'.tag = false) (hpadding : ¬ IsPadding el') :
    ρ y = y ∧ ∃ el, page.element? y = some el ∧ Resembles el el' := by
  obtain ⟨x, hx, rfl⟩ := (h.origin y el' hel' hy).resolve_right hpadding
  have hself := h.eq_of_plain hx hel' hplain
  obtain ⟨el, hel⟩ := Option.isSome_iff_exists.mp hx
  obtain ⟨el'', hel'', hres⟩ := h.resembles x el hel
  obtain rfl := Option.some.inj (hel'.symm.trans hel'')
  rw [hself]
  exact ⟨hself, el, hel, hres⟩

variable (hpage : page.WellFormed)

include hpage

theorem map_head : ρ page.head = page.head := by
  obtain ⟨el, hel, htag⟩ := Option.map_eq_some_iff.mp hpage.tag?_head
  exact h.fixed _ el hel (by rw [htag]; decide)

/-- What is above in the new page and no custom element has been above before. -/
theorem above_of_plain (hx : page.Has x) (hel' : page'.element? y = some el')
    (hplain : Markup.isComponent el'.tag = false) (habove : page'.Above y (ρ x)) : page.Above y x := by
  obtain ⟨a, ha, hay⟩ := h.toImage.exists_above hpage.linked hx habove
  have hsome : (page.element? a).isSome := by
    obtain ⟨c, hc⟩ := Page.exists_child_of_above ha
    exact hpage.isSome_element?_of_parent? hc
  subst hay
  rw [h.eq_of_plain hsome hel' hplain]
  exact ha

/-- A plain parent was the parent before. -/
theorem parent?_of_plain (hx : page.Has x) (hel' : page'.element? p = some el')
    (hplain : Markup.isComponent el'.tag = false) (hp : page'.parent? (ρ x) = some p) :
    page.parent? x = some p := by
  obtain ⟨a, ha, hap⟩ := h.toImage.parent? x hx p hp
  have hsome : (page.element? a).isSome := hpage.isSome_element?_of_parent? ha
  subst hap
  rwa [h.eq_of_plain hsome hel' hplain]

/-- A child of the head was one before. -/
theorem parent?_head (hx : page.Has x) (hp : page'.parent? (ρ x) = some page.head) :
    page.parent? x = some page.head := by
  have hhead := h.wellFormed.tag?_head
  rw [h.head] at hhead
  obtain ⟨el, hel, htag⟩ := Option.map_eq_some_iff.mp hhead
  exact h.parent?_of_plain hpage hx hel (by rw [htag]; decide) hp

omit hpage in
theorem attached_of_parent?_head (hp : page'.parent? y = some page.head) : page'.Attached y :=
  h.wellFormed.attached_of_parent?_head (by rwa [h.head])

/-- What is in the head was there before, and is there still if it is attached. -/
theorem above_head_iff (hx : page.Has x) (hattached : page'.Attached (ρ x)) :
    page'.Above page.head (ρ x) ↔ page.Above page.head x := by
  constructor
  · intro habove
    have hhead := h.wellFormed.tag?_head
    rw [h.head] at hhead
    obtain ⟨el, hel, htag⟩ := Option.map_eq_some_iff.mp hhead
    exact h.above_of_plain hpage hx hel (by rw [htag]; decide) habove
  · intro habove
    have hmapped := h.toImage.above hpage h.wellFormed hattached habove
    rwa [h.map_head hpage] at hmapped

/-! ## Scripts of the head -/

/-- The scripts of the head are the same, with the same attributes. -/
theorem headScript_iff (htag : el.tag = "script") :
    (page'.parent? x = some page.head ∧ page'.element? x = some el)
      ↔ page.parent? x = some page.head ∧ page.element? x = some el := by
  constructor
  · rintro ⟨hparent, hel⟩
    have hattached := h.attached_of_parent?_head hparent
    have hpadding : ¬ IsPadding el := fun hpadding => hpadding.tag_ne (by decide) htag
    obtain ⟨hself, old, hold, hres⟩ := h.origin_plain hel hattached (by rw [htag]; decide) hpadding
    refine ⟨h.parent?_head hpage (Page.has_of_element? hold) (by rwa [hself]), ?_⟩
    -- a script has not been written on
    rw [← hel, h.script x old hold (hres.tag ▸ htag), hold]
  · rintro ⟨hparent, hel⟩
    exact ⟨(h.headScript x hparent (by rw [Page.tag?, hel, ← htag]; rfl)).1, h.script x el hel htag⟩

/-! ## Viewports -/

/-- The viewports of the head are the same, if none was lost. -/
theorem viewport_iff (hlost : ∀ el, lost el → Viewport.isViewport el = false) :
    (page'.Above page.head x ∧ page'.isElement x Viewport.isViewport = true)
      ↔ page.Above page.head x ∧ page.isElement x Viewport.isViewport = true := by
  have hplain {el : Element} (hel : Viewport.isViewport el = true) :
      Markup.isComponent el.tag = false ∧ ¬ IsPadding el := by
    rw [Viewport.isViewport, Bool.and_eq_true, beq_iff_eq] at hel
    refine ⟨by rw [hel.1]; decide, fun hpadding => hpadding.tag_ne (by decide) hel.1⟩
  have habove {page : Page} (hpage : page.WellFormed) (hx : page.Above page.head x) : page.Attached x :=
    .inr (.trans (.of_parent? hpage.parent?_head) hx)
  constructor
  · rintro ⟨hx, hviewport⟩
    obtain ⟨el', hel', hviewport⟩ := Page.isElement_iff.mp hviewport
    have hattached : page'.Attached x := habove h.wellFormed (by rwa [h.head])
    obtain ⟨hself, el, hel, hres⟩ :=
      h.origin_plain hel' hattached (hplain hviewport).1 (hplain hviewport).2
    refine ⟨(h.above_head_iff hpage (Page.has_of_element? hel) (by rwa [hself])).mp (by rwa [hself]), ?_⟩
    exact Page.isElement_iff.mpr ⟨el, hel, hres.isViewport ▸ hviewport⟩
  · rintro ⟨hx, hviewport⟩
    obtain ⟨el, hel, hviewport⟩ := Page.isElement_iff.mp hviewport
    have hself := h.fixed x el hel (hplain hviewport).1
    have hattached := (h.stays x el hel (habove hpage hx)).resolve_right fun hgone => by
      rw [hlost el hgone] at hviewport
      cases hviewport
    have hmapped := (h.above_head_iff hpage (Page.has_of_element? hel) hattached).mpr hx
    obtain ⟨el', hel', hres⟩ := h.resembles x el hel
    rw [hself] at hmapped hel'
    exact ⟨hmapped, Page.isElement_iff.mpr ⟨el', hel', hres.isViewport.trans hviewport⟩⟩

/-! ## The boilerplate -/

/-- The boilerplate styles are the same, if none was lost. -/
theorem mem_styles_iff (hlost : ∀ el, lost el → isBoilerplateStyle el = false) :
    x ∈ Boilerplate.styles page' ↔ x ∈ Boilerplate.styles page := by
  rw [Boilerplate.mem_styles_iff h.wellFormed.linked, Boilerplate.mem_styles_iff hpage.linked, h.head]
  constructor
  · rintro ⟨hparent, hstyle⟩
    obtain ⟨el', hel', hstyle⟩ := Page.isElement_iff.mp hstyle
    obtain ⟨hself, el, hel, hres⟩ := h.origin_plain hel' (h.attached_of_parent?_head hparent)
      (isComponent_of_isBoilerplateStyle hstyle) fun hpadding => by
        rw [hpadding.isBoilerplateStyle] at hstyle
        cases hstyle
    refine ⟨h.parent?_head hpage (Page.has_of_element? hel) (by rwa [hself]), ?_⟩
    exact Page.isElement_iff.mpr ⟨el, hel, hres.isBoilerplateStyle ▸ hstyle⟩
  · rintro ⟨hparent, hstyle⟩
    obtain ⟨el, hel, hstyle⟩ := Page.isElement_iff.mp hstyle
    have hself := h.fixed x el hel (isComponent_of_isBoilerplateStyle hstyle)
    have hattached := (h.stays x el hel (hpage.attached_of_parent?_head hparent)).resolve_right fun hgone => by
      rw [hlost el hgone] at hstyle
      cases hstyle
    have hparent' := h.toImage.parent?_map hpage hattached hparent
    obtain ⟨el', hel', hres⟩ := h.resembles x el hel
    rw [hself] at hel' hparent'
    rw [h.map_head hpage] at hparent'
    exact ⟨hparent', Page.isElement_iff.mpr ⟨el', hel', hres.isBoilerplateStyle.trans hstyle⟩⟩

/-- A noscript of the head has a boilerplate style among its children if it had one. -/
theorem mem_noscripts_iff (hlost : ∀ el, lost el → isBoilerplateStyle el = false ∧ el.tag ≠ "noscript") :
    x ∈ Boilerplate.noscripts page' ↔ x ∈ Boilerplate.noscripts page := by
  have hnoscript : Markup.isComponent "noscript" = false := by decide
  rw [Boilerplate.mem_noscripts_iff h.wellFormed.linked, Boilerplate.mem_noscripts_iff hpage.linked, h.head]
  constructor
  · rintro ⟨hparent, ⟨el', hel', htag⟩, c, hc, hstyle⟩
    have hattached := h.attached_of_parent?_head hparent
    obtain ⟨cel', hcel', hstyle⟩ := Page.isElement_iff.mp hstyle
    obtain ⟨hself, el, hel, hres⟩ := h.origin_plain hel' hattached (htag ▸ hnoscript) fun hpadding =>
      hpadding.tag_ne (by decide) htag
    obtain ⟨hcself, cel, hcel, hcres⟩ := h.origin_plain hcel' (.of_parent? hc hattached)
      (isComponent_of_isBoilerplateStyle hstyle) fun hpadding => by
        rw [hpadding.isBoilerplateStyle] at hstyle
        cases hstyle
    refine ⟨h.parent?_head hpage (Page.has_of_element? hel) (by rwa [hself]), ⟨el, hel, hres.tag ▸ htag⟩, c, ?_, ?_⟩
    · exact h.parent?_of_plain hpage (Page.has_of_element? hcel) hel' (htag ▸ hnoscript) (by rwa [hcself])
    · exact Page.isElement_iff.mpr ⟨cel, hcel, hcres.isBoilerplateStyle ▸ hstyle⟩
  · rintro ⟨hparent, ⟨el, hel, htag⟩, c, hc, hstyle⟩
    have hattached := hpage.attached_of_parent?_head hparent
    obtain ⟨cel, hcel, hstyle⟩ := Page.isElement_iff.mp hstyle
    have hself := h.fixed x el hel (htag ▸ hnoscript)
    have hcself := h.fixed c cel hcel (isComponent_of_isBoilerplateStyle hstyle)
    have hattached' := (h.stays x el hel hattached).resolve_right fun hgone => (hlost el hgone).2 htag
    have hcattached' := (h.stays c cel hcel (.of_parent? hc hattached)).resolve_right fun hgone => by
      rw [(hlost cel hgone).1] at hstyle
      cases hstyle
    have hparent' := h.toImage.parent?_map hpage hattached' hparent
    have hc' := h.toImage.parent?_map hpage hcattached' hc
    obtain ⟨el', hel', hres⟩ := h.resembles x el hel
    obtain ⟨cel', hcel', hcres⟩ := h.resembles c cel hcel
    rw [hself] at hel' hparent' hc'
    rw [hcself] at hcel' hc'
    rw [h.map_head hpage] at hparent'
    exact ⟨hparent', ⟨el', hel', hres.tag.trans htag⟩, c, hc',
      Page.isElement_iff.mpr ⟨cel', hcel', hcres.isBoilerplateStyle.trans hstyle⟩⟩

/-- What a script or style of the head holds is written in the same way. -/
theorem textContent (hliteral : page.HeadLiteral) (hparent : page.parent? x = some page.head)
    (hel : page.element? x = some el) (hraw : Markup.isRawText el.tag = true) (hel' : page'.element? x = some el')
    (hchildren : page'.children x = page.children x) : page'.textContent x = page.textContent x := by
  have htexts (c : NodeId) (hc : c ∈ page.children x) :
      page.element? c = none ∧ page'.kind? c = page.kind? c := by
    have hnone := hliteral x c el.tag hparent (by rw [Page.tag?, hel]; rfl) hraw
      ((hpage.linked.mem_children_iff x c).mp hc)
    exact ⟨hnone, h.text c (hpage.linked.has_child hc) hnone⟩
  rw [hpage.textContent_of_texts hel fun c hc => (htexts c hc).1, h.wellFormed.textContent_of_texts hel',
    hchildren]
  · exact congrArg String.join (List.filterMap_congr fun c hc => Page.text?_congr (htexts c hc).2)
  · intro c hc
    rw [hchildren] at hc
    rw [Page.element?_congr (htexts c hc).2, (htexts c hc).1]

/-- An inert boilerplate stays inert. -/
theorem inertBoilerplate {spec : Spec} (hspec : spec.Quiet)
    (hlost : ∀ el, lost el → isBoilerplateStyle el = false ∧ el.tag ≠ "noscript")
    (hinert : InertBoilerplate spec page) : InertBoilerplate spec page' := by
  intro b y el' hb hy hel'
  have hbOld : b ∈ Rendering.boilerplateOf page := by
    rw [mem_boilerplateOf_iff] at hb ⊢
    rwa [h.mem_styles_iff hpage fun el hel => (hlost el hel).1, h.mem_noscripts_iff hpage hlost] at hb
  obtain ⟨bel', hbel', hplain⟩ := exists_element_of_mem_boilerplateOf h.wellFormed.linked hb
  obtain ⟨bel, hbel, hplainOld⟩ := exists_element_of_mem_boilerplateOf hpage.linked hbOld
  have hattached : page'.Attached y := by
    have hbase := h.wellFormed.attached_of_parent?_head (parent?_of_mem_boilerplateOf h.wellFormed.linked hb)
    rcases hy with rfl | hy
    · exact hbase
    · exact hbase.elim (fun hroot => .inr (hroot ▸ hy)) fun hroot => .inr (hroot.trans hy)
  rcases h.origin y el' hel' hattached with ⟨x, hx, rfl⟩ | hpadding
  · obtain ⟨el, hel⟩ := Option.isSome_iff_exists.mp hx
    obtain ⟨el'', hel'', hres⟩ := h.resembles x el hel
    obtain rfl := Option.some.inj (hel'.symm.trans hel'')
    refine (hres.inert_iff hspec).mpr (hinert b x el hbOld ?_ hel)
    refine hy.imp (fun heq => ?_) (h.above_of_plain hpage (Page.has_of_element? hel) hbel' hplain)
    rw [← heq, h.eq_of_plain hx (heq ▸ hbel') hplain]
  · exact hpadding.inert hspec

end Single

/-- Where every node is its own successor, a test that does not look at what passes write is passed as before. -/
theorem isElement_eq (h : Evolves lost page page' fun x => x) {p : Element → Bool}
    (hp : ∀ el el', Resembles el el' → p el' = p el) (hx : page.Has x) :
    page'.isElement x p = page.isElement x p := by
  cases hel : page.element? x with
  | none => exact Page.isElement_congr (Page.element?_congr (h.text x hx hel)) p
  | some el =>
    obtain ⟨el', hel', hres⟩ := h.resembles x el hel
    rw [Page.isElement, Page.isElement, hel, hel']
    exact hp el el' hres

/-! ## One change after another -/

/-- One change after another. -/
theorem trans (h : Evolves lost page page' ρ) (h' : Evolves lost page' page'' σ)
    (hlost : ∀ el el', Resembles el el' → lost el' → lost el) : Evolves lost page page'' (σ ∘ ρ) where
  toImage := h.toImage.trans h'.toImage h.has
  wellFormed := h'.wellFormed
  literal := h'.literal
  head := h'.head.trans h.head
  has x hx := h'.has _ (h.has x hx)
  fixed x el hel hplain := by
    have hself := h.fixed x el hel hplain
    obtain ⟨el', hel', hres⟩ := h.resembles x el hel
    show σ (ρ x) = x
    rw [hself] at hel' ⊢
    exact h'.fixed x el' hel' (hres.tag ▸ hplain)
  resembles x el hel := by
    obtain ⟨el', hel', hres⟩ := h.resembles x el hel
    obtain ⟨el'', hel'', hres'⟩ := h'.resembles _ el' hel'
    exact ⟨el'', hel'', hres.trans hres'⟩
  text x hx hnone := by
    have hkind := h.text x hx hnone
    have hhas : page'.Has x := (Page.has_congr hkind).mpr hx
    rw [h'.text x hhas (by rw [Page.element?_congr hkind, hnone]), hkind]
  script x el hel htag := h'.script x el (h.script x el hel htag) htag
  headScript x hparent htag := by
    obtain ⟨el, hel, hscript⟩ := Option.map_eq_some_iff.mp htag
    have hel' := h.script x el hel hscript
    obtain ⟨hparent', hchildren⟩ := h.headScript x hparent htag
    obtain ⟨hparent'', hchildren'⟩ := h'.headScript x (by rwa [h.head]) (by rw [Page.tag?, hel', ← hscript]; rfl)
    exact ⟨by rwa [h.head] at hparent'', hchildren'.trans hchildren⟩
  stays x el hel hx := by
    obtain ⟨el', hel', hres⟩ := h.resembles x el hel
    rcases h.stays x el hel hx with hattached | hgone
    · exact (h'.stays _ el' hel' hattached).imp_right (hlost el el' hres)
    · exact .inr hgone
  origin y el hel hy := by
    rcases h'.origin y el hel hy with ⟨x', hx', rfl⟩ | hpadding
    · obtain ⟨el', hel'⟩ := Option.isSome_iff_exists.mp hx'
      obtain ⟨el'', hel'', hres⟩ := h'.resembles x' el' hel'
      obtain rfl := Option.some.inj (hel.symm.trans hel'')
      have hattached := h'.toImage.attached h.wellFormed.linked (Page.has_of_element? hel') hy
      rcases h.origin x' el' hel' hattached with ⟨x, hx, rfl⟩ | hpadding
      · exact .inl ⟨x, hx, rfl⟩
      · exact .inr (hpadding.of_resembles hres)
    · exact .inr hpadding
  marks name hmark := by
    have hmark' := h'.marks name (by rw [h.root]; exact h.marks name hmark)
    rwa [h.root] at hmark'

end Evolves

/-! ## Changes that leave nodes where they are -/

/-- Elements are written on and padding is added. No element goes, and none gets another parent. -/
structure Augments (page page' : Page) : Prop extends page.Maintains page' where
  kind? : ∀ x, page.Has x → page'.kind? x = page.kind? x
    ∨ ∃ el el', page.element? x = some el ∧ el.tag ≠ "script" ∧ page'.element? x = some el' ∧ Resembles el el'
  padding : ∀ x el, ¬ page.Has x → page'.element? x = some el → page'.Attached x → IsPadding el
  back : ∀ x q, page.Has x → page'.parent? x = some q → page.parent? x = some q
  forward : ∀ x el q, page.element? x = some el → page.parent? x = some q → page'.parent? x = some q
  raw : ∀ c q tag, ¬ page.Has c → page'.parent? c = some q → page'.tag? q = some tag →
    Markup.isRawText tag = true → page'.element? c = none
  scripts : ∀ x, page.tag? x = some "script" → page.parent? x = some page.head → page'.children x = page.children x
  marks : ∀ name, page.hasAttribute page.root name = true → page'.hasAttribute page.root name = true

namespace Augments

variable (h : Augments page page')

include h

theorem has (hx : page.Has x) : page'.Has x := by
  rcases h.kind? x hx with hsame | ⟨-, el', -, -, hel', -⟩
  · exact (Page.has_congr hsame).mpr hx
  · exact Page.has_of_element? hel'

/-- What is no element stays none. -/
theorem element?_eq_none_iff (hx : page.Has x) : page'.element? x = none ↔ page.element? x = none := by
  rcases h.kind? x hx with hsame | ⟨el, el', hel, -, hel', -⟩
  · rw [Page.element?_congr hsame]
  · rw [hel, hel']
    simp

/-- An element is still there, with something written on it at most. -/
theorem exists_resembles (hel : page.element? x = some el) : ∃ el', page'.element? x = some el' ∧ Resembles el el' := by
  rcases h.kind? x (Page.has_of_element? hel) with hsame | ⟨old, el', hold, -, hel', hres⟩
  · exact ⟨el, by rw [Page.element?_congr hsame, hel], .refl el⟩
  · obtain rfl := Option.some.inj (hel.symm.trans hold)
    exact ⟨el', hel', hres⟩

/-- Nothing is written on scripts. -/
theorem element?_of_script (hel : page.element? x = some el) (htag : el.tag = "script") :
    page'.element? x = some el := by
  rcases h.kind? x (Page.has_of_element? hel) with hsame | ⟨old, -, hold, hne, -⟩
  · rw [Page.element?_congr hsame, hel]
  · obtain rfl := Option.some.inj (hel.symm.trans hold)
    exact absurd htag hne

variable (hpage : page.WellFormed)

include hpage

/-- What is attached stays attached. -/
theorem attached (hel : page.element? x = some el) (hx : page.Attached x) : page'.Attached x := by
  induction x using hpage.linked.up_induction generalizing el with
  | step x ih =>
    rcases hx with rfl | hx
    · exact .inl h.root.symm
    · obtain ⟨q, hq, hroot⟩ := Page.above_iff.mp hx
      obtain ⟨qel, hqel⟩ := Option.isSome_iff_exists.mp (hpage.isSome_element?_of_parent? hq)
      exact .of_parent? (h.forward x el q hel hq) (ih q hq hqel (hroot.imp Eq.symm id))

/-- Literal content of the head stays literal. -/
theorem headLiteral (hliteral : page.HeadLiteral) : page'.HeadLiteral := by
  intro x c tag hx htag hraw hc
  by_cases hhas : page.Has c
  · have hcOld := h.back c x hhas hc
    obtain ⟨el, hel⟩ := Option.isSome_iff_exists.mp (hpage.isSome_element?_of_parent? hcOld)
    have htagOld : page.tag? x = some el.tag := by rw [Page.tag?, hel, Option.map_some]
    obtain rfl := Option.some.inj (htag.symm.trans (h.tag? x el.tag htagOld))
    rw [h.element?_eq_none_iff hhas]
    exact hliteral x c el.tag (h.head ▸ h.back x _ (hpage.linked.has_parent hcOld) hx) htagOld hraw hcOld
  · exact h.raw c x tag hhas hc htag hraw

/-- Such a change is one in which every node stands for itself and none is lost. -/
theorem evolves (hliteral : page.HeadLiteral) : Evolves lost page page' fun x => x where
  toImage := .of_parent? h.root fun x hx q => h.back x q hx
  wellFormed := h.wellFormed
  literal := h.headLiteral hpage hliteral
  head := h.head
  has _ := h.has
  fixed _ _ _ _ := rfl
  resembles _ _ := h.exists_resembles
  text x hx hnone := by
    rcases h.kind? x hx with hsame | ⟨el, -, hel, -⟩
    · exact hsame
    · rw [hnone] at hel
      cases hel
  script _ _ := h.element?_of_script
  headScript x hx htag := by
    obtain ⟨el, hel, -⟩ := Option.map_eq_some_iff.mp htag
    exact ⟨h.forward x el _ hel hx, h.scripts x htag hx⟩
  stays _ _ hel hx := .inl (h.attached hpage hel hx)
  origin y el hel hy := by
    by_cases hhas : page.Has y
    · refine .inl ⟨y, ?_, rfl⟩
      rw [Option.isSome_iff_ne_none, Ne, ← h.element?_eq_none_iff hhas, hel]
      simp
    · exact .inr (h.padding y el hhas hel hy)
  marks := h.marks

end Augments

section Writes

variable (hpage : page.WellFormed) (hliteral : page.HeadLiteral)

include hpage hliteral

/-- An element may be written on. -/
theorem evolves_mapElement {f : Element → Element} (hres : ∀ el, Resembles el (f el))
    (hdistinct : ∀ el, el.Distinct → (f el).Distinct) (hscript : page.tag? id ≠ some "script")
    (hmarks : id = page.root → ∀ el name, el.hasAttribute name = true → (f el).hasAttribute name = true) :
    Evolves lost page (page.mapElement id f) fun x => x := by
  have hlinks : page.SameLinks (page.mapElement id f) := Page.mapElement_sameLinks f
  have haugments : Augments page (page.mapElement id f) :=
    { toMaintains := hpage.maintains_mapElement (fun el => (hres el).tag) hdistinct
      kind? := by
        intro x _
        by_cases hx : x = id
        · subst hx
          cases hel : page.element? x with
          | none => exact .inl (Page.kind?_mapElement_of_element?_eq_none hel)
          | some el =>
            refine .inr ⟨el, f el, rfl, fun htag => ?_, ?_, hres el⟩
            · exact hscript (by rw [Page.tag?, hel, ← htag]; rfl)
            · rw [Page.element?_mapElement, if_pos rfl, hel]
              rfl
        · exact .inl (Page.kind?_mapElement_of_ne f hx)
      padding := fun x el hnot hel => absurd ((Page.has_mapElement f).mp (Page.has_of_element? hel)) hnot
      back := fun x q _ hq => (hlinks.parent? x).symm.trans hq
      forward := fun x _ q _ hq => (hlinks.parent? x).trans hq
      raw := fun c q _ hnot hq => absurd (Page.has_of_parent? ((hlinks.parent? c).symm.trans hq)) hnot
      scripts := fun x _ _ => hlinks.children x
      marks := by
        intro name hmark
        obtain ⟨el, hel, hmark⟩ := Page.isElement_iff.mp hmark
        rw [Page.hasAttribute, Page.isElement_iff, Page.element?_mapElement, hel]
        split
        · next heq => exact ⟨f el, rfl, hmarks heq.symm el name hmark⟩
        · exact ⟨el, rfl, hmark⟩ }
  exact haugments.evolves hpage hliteral

/-- An attribute may be set of which no pass takes notice. -/
theorem evolves_setAttribute {name value : String} (hname : name ∈ touchedNames)
    (hscript : page.tag? id ≠ some "script") :
    Evolves lost page (page.setAttribute id name value) fun x => x :=
  evolves_mapElement hpage hliteral (fun _ => .set hname value) (fun _ hel => hel.set) hscript
    fun _ el other hmark => by rw [Markup.Element.hasAttribute_set, hmark, Bool.true_or]

/-- The budget and the counter are no part of what a page looks like. -/
theorem evolves_withCounters (budget : Css.Budget) (n : Nat) :
    Evolves lost page { page with budget, nextGenerated := n } fun x => x :=
  { Evolves.refl hpage hliteral with wellFormed := hpage.withCounters budget n }

/-- Padding may be added to elements without literal content. -/
theorem evolves_attachNew {parent : NodeId} {place : List NodeId → List NodeId} (hel : el.Distinct)
    (hpadding : IsPadding el) {parentTag : String} (hparent : page.tag? parent = some parentTag)
    (hraw : Markup.isRawText parentTag = false) (hroot : parent ≠ page.root) (hplace : IsPlacement page.next place) :
    Evolves lost page (page.attachNew (.element el) parent place) fun x => x := by
  have hsome : (page.element? parent).isSome = true := by
    obtain ⟨pel, hpel, -⟩ := Option.map_eq_some_iff.mp hparent
    rw [hpel]
    rfl
  have hnext {x : NodeId} (hx : page.Has x) : x ≠ page.next := Page.ne_next_of_has hx
  have hnew {x : NodeId} (hnot : ¬ page.Has x) (hx : (page.attachNew (.element el) parent place).Has x) :
      x = page.next := (Page.has_attachNew.mp hx).resolve_left hnot
  have haugments : Augments page (page.attachNew (.element el) parent place) :=
    { toMaintains := hpage.maintains_attachNew hel hsome hroot hplace
      kind? := fun x hx => .inl (Page.attachNew_sameKinds.kind? x hx)
      padding := by
        intro x el' hnot hel' _
        obtain rfl := hnew hnot (Page.has_of_element? hel')
        rw [Page.element?, Page.kind?_attachNew, if_pos rfl] at hel'
        obtain rfl := Option.some.inj hel'
        exact hpadding
      back := fun x q hx hq => by rwa [Page.parent?_attachNew, if_neg (hnext hx)] at hq
      forward := fun x _ q hel' hq => by rwa [Page.parent?_attachNew, if_neg (hnext (Page.has_of_element? hel'))]
      raw := by
        intro c q tag hnot hq htag hrawTag
        -- the new node stands in an element that is not raw
        obtain rfl := hnew hnot (Page.has_of_parent? hq)
        rw [Page.parent?_attachNew, if_pos rfl] at hq
        obtain rfl := Option.some.inj hq
        rw [Page.tag?_congr (Page.attachNew_sameKinds.kind? _ (Page.has_of_tag? hparent)), hparent] at htag
        rw [← Option.some.inj htag, hraw] at hrawTag
        cases hrawTag
      scripts := by
        intro x htag _
        have hne : x ≠ parent := by
          rintro rfl
          rw [hparent] at htag
          rw [Option.some.inj htag] at hraw
          exact absurd hraw (by decide)
        rw [hpage.linked.children_attachNew (Page.has_of_tag? hparent), if_neg hne]
      marks := fun name hmark => by
        rwa [Page.hasAttribute,
          Page.isElement_congr (Page.element?_congr (Page.attachNew_sameKinds.kind? _ hpage.has_root))] }
  exact haugments.evolves hpage hliteral

/-- What a style of the head holds is text, before and after. -/
theorem evolves_setTextContent (hid : page.parent? id = some page.head) (htag : page.tag? id = some "style")
    (content : String) : Evolves lost page (page.setTextContent id content) fun x => x := by
  have hhas : page.Has id := Page.has_of_tag? htag
  have hsome : (page.element? id).isSome = true := by
    obtain ⟨el, hel, -⟩ := Option.map_eq_some_iff.mp htag
    rw [hel]
    rfl
  have htext {x : NodeId} (hx : x ∈ page.textNodes content) : (page.setTextContent id content).element? x = none := by
    rw [Page.element?, Page.kind?_setTextContent, if_pos hx]
    rfl
  have hnew {x : NodeId} (hnot : ¬ page.Has x) (hx : (page.setTextContent id content).Has x) :
      x ∈ page.textNodes content := ((Page.has_setTextContent content).mp hx).resolve_left hnot
  have hold {x : NodeId} (hx : page.Has x) : x ∉ page.textNodes content := by
    rw [Page.textNodes]
    split
    · simp
    · simpa using Page.ne_next_of_has hx
  have haugments : Augments page (page.setTextContent id content) :=
    { toMaintains := hpage.maintains_setTextContent hsome (hpage.head_child hid).2.2
      kind? := fun x hx => .inl (Page.kind?_setTextContent_of_has hx content)
      padding := by
        intro x el hnot hel
        rw [htext (hnew hnot (Page.has_of_element? hel))] at hel
        cases hel
      back := by
        intro x q hx hq
        rw [hpage.linked.parent?_setTextContent, if_neg (hold hx)] at hq
        split at hq
        · cases hq
        · exact hq
      forward := by
        intro x el q hel hq
        rw [hpage.linked.parent?_setTextContent, if_neg (hold (Page.has_of_element? hel)), if_neg, hq]
        -- only texts have gone
        intro hchild
        rw [hliteral id x "style" hid htag (by decide) hchild] at hel
        cases hel
      raw := fun c q _ hnot hq _ _ => htext (hnew hnot (Page.has_of_parent? hq))
      scripts := by
        intro x hscript _
        rw [hpage.linked.children_setTextContent content hhas, if_neg]
        rintro rfl
        rw [htag] at hscript
        exact absurd (Option.some.inj hscript) (by decide)
      marks := fun name hmark => by
        rwa [Page.hasAttribute,
          Page.isElement_congr (Page.element?_congr (Page.kind?_setTextContent_of_has hpage.has_root content))] }
  exact haugments.evolves hpage hliteral

end Writes

end AmpTuner
