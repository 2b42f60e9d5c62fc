import AmpTuner.Proofs.Pass.Settled
import AmpTuner.Proofs.Pass.Evolving
import AmpTuner.Proofs.Page.Readable
import AmpTuner.Proofs.Viewport.Merging

/-!
# What the passes on viewports and scripts leave alone

The passes that see to the viewport and to the scripts come between the one that sees to the boilerplate and those
that look at all of the page. They are not to undo what was done before them.

* **`Spares`** says of a change that it is one of viewports and of new scripts in the head. The boilerplate is the
  same after it (`Spares.mem_styles_iff`, `Spares.mem_noscripts_iff`), and so is what is in it.
* **`Viewport.spares_run_and_length`**: the pass on viewports leaves one of them and the rest alone.
-/

namespace AmpTuner

open Markup (Element)
open Vocabulary

variable {spec : Spec} {page page' : Page} {id x n q : NodeId} {el : Element}

/-! ## Literal heads -/

/-- What was read has literal content where it should. -/
theorem Page.NearlyReadable.headLiteral (h : page.NearlyReadable) : page.HeadLiteral := by
  intro x c tag hx htag hraw hc
  obtain ⟨el, hel, rfl⟩ := Option.map_eq_some_iff.mp htag
  cases h.nodes x (h.wellFormed.attached_of_parent?_head hx) with
  | text hkind => rw [Page.element?, hkind] at hel; cases hel
  | comment hkind => rw [Page.element?, hkind] at hel; cases hel
  | element hel' _ _ hliteral =>
    obtain rfl := Option.some.inj (hel.symm.trans hel')
    have hchild := (h.wellFormed.linked.mem_children_iff x c).mpr hc
    rcases hliteral hraw with hnil | ⟨t, content, hone, hkind, -⟩
    · rw [hnil] at hchild
      cases hchild
    · rw [hone, List.mem_singleton] at hchild
      rw [hchild, Page.element?, hkind]
      rfl

/-- What is below a script or a style of the head is no element. -/
theorem Page.HeadLiteral.element?_of_above (hliteral : page.HeadLiteral) (h : page.WellFormed) {tag : String}
    (hx : page.parent? x = some page.head) (htag : page.tag? x = some tag) (hraw : Markup.isRawText tag = true)
    (hn : page.Above x n) : page.element? n = none := by
  induction n using h.linked.up_induction with
  | step n ih =>
    obtain ⟨q, hq, hup⟩ := Page.above_iff.mp hn
    rcases hup with rfl | hup
    · exact hliteral x n tag hx htag hraw hq
    -- a text has nothing below it
    · have hsome := h.isSome_element?_of_parent? hq
      rw [ih q hq hup] at hsome
      cases hsome

/-! ## Changes of viewports and scripts -/

/-- What stands somewhere stood there and is as it was, but for viewports, or it is a new meta or a new script in
the head. Other elements stand where they stood. -/
structure Spares (page page' : Page) : Prop where
  wellFormed : page'.WellFormed
  root : page'.root = page.root
  head : page'.head = page.head
  origin : ∀ x q, page'.parent? x = some q →
    (page.parent? x = some q ∧ ∀ el', page'.element? x = some el' →
      page.element? x = some el' ∨ el'.tag = "meta" ∧ page.isElement x Viewport.isViewport = true)
    ∨ ¬ page.Has x ∧ q = page.head ∧ (page'.tag? x = some "meta" ∨ page'.tag? x = some "script")
  kept : ∀ x el, page.element? x = some el → el.tag ≠ "meta" → el.tag ≠ "script" →
    page'.element? x = some el ∧ page'.parent? x = page.parent? x

namespace Spares

/-- Nothing has moved. -/
theorem refl (h : page.WellFormed) : Spares page page where
  wellFormed := h
  root := rfl
  head := rfl
  origin _ _ hq := .inl ⟨hq, fun _ => .inl⟩
  kept _ _ hel _ _ := ⟨hel, rfl⟩

variable (h : Spares page page') (hpage : page.WellFormed)

include h

/-- Elements other than metas and scripts stand where they stood. -/
theorem of_plain {el' : Element} (hel' : page'.element? x = some el') (hq : page'.parent? x = some q)
    (hmeta : el'.tag ≠ "meta") (hscript : el'.tag ≠ "script") :
    page.element? x = some el' ∧ page.parent? x = some q := by
  rcases h.origin x q hq with ⟨hparent, hold⟩ | ⟨-, -, htag⟩
  · exact ⟨(hold el' hel').resolve_right fun hchanged => hmeta hchanged.1, hparent⟩
  · rw [Page.tag?, hel'] at htag
    rcases htag with htag | htag
    · exact absurd (Option.some.inj htag) hmeta
    · exact absurd (Option.some.inj htag) hscript

/-- What an element that is neither meta nor script is, and where it stands, is the same on both pages. -/
theorem parent?_and_element?_iff (hmeta : el.tag ≠ "meta") (hscript : el.tag ≠ "script") :
    (page'.parent? x = some q ∧ page'.element? x = some el)
      ↔ page.parent? x = some q ∧ page.element? x = some el := by
  constructor
  · rintro ⟨hq, hel⟩
    exact (h.of_plain hel hq hmeta hscript).symm
  · rintro ⟨hq, hel⟩
    obtain ⟨hel', hparent⟩ := h.kept x el hel hmeta hscript
    exact ⟨hparent.trans hq, hel'⟩

include hpage

/-- The boilerplate styles are the same. -/
theorem mem_styles_iff : x ∈ Boilerplate.styles page' ↔ x ∈ Boilerplate.styles page := by
  rw [Boilerplate.mem_styles_iff h.wellFormed.linked, Boilerplate.mem_styles_iff hpage.linked, h.head,
    Page.isElement_iff, Page.isElement_iff]
  simp only [← exists_and_left, ← and_assoc]
  refine exists_congr fun el => and_congr_left fun hstyle => ?_
  rw [isBoilerplateStyle, Bool.and_eq_true, beq_iff_eq] at hstyle
  exact h.parent?_and_element?_iff (by rw [hstyle.1]; decide) (by rw [hstyle.1]; decide)

/-- The boilerplate noscripts are the same. -/
theorem mem_noscripts_iff : x ∈ Boilerplate.noscripts page' ↔ x ∈ Boilerplate.noscripts page := by
  have hstyle {el : Element} (hel : isBoilerplateStyle el = true) : el.tag = "style" := by
    rw [isBoilerplateStyle, Bool.and_eq_true, beq_iff_eq] at hel
    exact hel.1
  rw [Boilerplate.mem_noscripts_iff h.wellFormed.linked, Boilerplate.mem_noscripts_iff hpage.linked, h.head]
  constructor
  · rintro ⟨hparent, ⟨el, hel, htag⟩, c, hc, hboilerplate⟩
    obtain ⟨cel, hcel, hboilerplate⟩ := Page.isElement_iff.mp hboilerplate
    obtain ⟨hel, hparent⟩ := h.of_plain hel hparent (by rw [htag]; decide) (by rw [htag]; decide)
    obtain ⟨hcel, hc⟩ := h.of_plain hcel hc (by rw [hstyle hboilerplate]; decide) (by rw [hstyle hboilerplate]; decide)
    exact ⟨hparent, ⟨el, hel, htag⟩, c, hc, Page.isElement_iff.mpr ⟨cel, hcel, hboilerplate⟩⟩
  · rintro ⟨hparent, ⟨el, hel, htag⟩, c, hc, hboilerplate⟩
    obtain ⟨cel, hcel, hboilerplate⟩ := Page.isElement_iff.mp hboilerplate
    obtain ⟨hel', hparent'⟩ := h.kept x el hel (by rw [htag]; decide) (by rw [htag]; decide)
    obtain ⟨hcel', hc'⟩ := h.kept c cel hcel (by rw [hstyle hboilerplate]; decide) (by rw [hstyle hboilerplate]; decide)
    exact ⟨hparent'.trans hparent, ⟨el, hel', htag⟩, c, hc'.trans hc,
      Page.isElement_iff.mpr ⟨cel, hcel', hboilerplate⟩⟩

theorem hasAttribute_root (name : String) : page'.hasAttribute page'.root name = page.hasAttribute page.root name := by
  obtain ⟨el, hel, htag⟩ := Option.map_eq_some_iff.mp hpage.tag?_root
  have hel' := (h.kept page.root el hel (by rw [htag]; decide) (by rw [htag]; decide)).1
  rw [h.root, Page.hasAttribute, Page.hasAttribute, Page.isElement_congr (hel'.trans hel.symm)]

omit hpage in
/-- The parent of a node is the same, but for those that are new in the head. -/
theorem parent?_of_ne_head (hq : page'.parent? x = some q) (hne : q ≠ page.head) : page.parent? x = some q :=
  ((h.origin x q hq).resolve_right fun hnew => hne hnew.2.1).1

/-- Literal content of the head stays literal. -/
theorem headLiteral (hliteral : page.HeadLiteral) : page'.HeadLiteral := by
  intro x c tag hx htag hraw hc
  rw [h.head] at hx
  have hne : x ≠ page.head := fun heq => (h.wellFormed.head_child (h.head ▸ hx)).1 (heq.trans h.head.symm)
  obtain ⟨hcOld, hchanged⟩ := (h.origin c x hc).resolve_right fun hnew => hne hnew.2.1
  -- so what holds something is not new
  obtain ⟨hxOld, hsame⟩ := (h.origin x page.head hx).resolve_right fun hnew =>
    hnew.1 (hpage.linked.has_parent hcOld)
  obtain ⟨el, hel, rfl⟩ := Option.map_eq_some_iff.mp htag
  have helOld := (hsame el hel).resolve_right fun hmeta => by
    rw [hmeta.1] at hraw
    exact absurd hraw (by decide)
  have hnone := hliteral x c el.tag hxOld (by rw [Page.tag?, helOld]; rfl) hraw hcOld
  cases hcel : page'.element? c with
  | none => rfl
  | some cel =>
    rcases hchanged cel hcel with hold | ⟨-, hviewport⟩
    · rw [hnone] at hold
      cases hold
    · rw [Page.isElement, hnone] at hviewport
      cases hviewport

/-- An inert boilerplate stays inert. -/
theorem inertBoilerplate (hinert : InertBoilerplate spec page) : InertBoilerplate spec page' := by
  intro b y el' hb hy hel'
  have hparent := parent?_of_mem_boilerplateOf h.wellFormed.linked hb
  have hbOld : b ∈ Rendering.boilerplateOf page := by
    rw [mem_boilerplateOf_iff] at hb ⊢
    rwa [h.mem_styles_iff hpage, h.mem_noscripts_iff hpage] at hb
  have hbHas := Page.has_of_parent? (parent?_of_mem_boilerplateOf hpage.linked hbOld)
  -- what is in the boilerplate was in it, for the head is above and nothing new is put elsewhere
  have habove {y : NodeId} (hy : page'.Above b y) : page.Above b y
      ∧ ∃ q, page'.parent? y = some q ∧ q ≠ page.head := by
    induction y using h.wellFormed.linked.up_induction with
    | step y ih =>
      obtain ⟨q, hq, hup⟩ := Page.above_iff.mp hy
      have hne : q ≠ page.head := by
        rintro rfl
        rcases hup with rfl | hup
        · exact (h.wellFormed.head_child hparent).1 h.head.symm
        · rw [← h.head] at hup
          exact h.wellFormed.linked.acyclic _ (hup.child hparent)
      refine ⟨(Page.above_of_parent? (h.parent?_of_ne_head hq hne)).mpr ?_, q, hq, hne⟩
      exact hup.imp_right fun hup => (ih q hq hup).1
  have hstands : ∃ q, page'.parent? y = some q ∧ (y = b ∨ page.Above b y)
      ∧ (page.Has y ∨ q ≠ page.head) := by
    rcases hy with rfl | hy
    · exact ⟨_, hparent, .inl rfl, .inl hbHas⟩
    · obtain ⟨hold, q, hq, hne⟩ := habove hy
      exact ⟨q, hq, .inr hold, .inr hne⟩
  obtain ⟨q, hq, hold, hnotNew⟩ := hstands
  obtain ⟨-, hchanged⟩ := (h.origin y q hq).resolve_right fun hnew =>
    hnotNew.elim hnew.1 fun hne => hne hnew.2.1
  rcases hchanged el' hel' with hel | ⟨-, hviewport⟩
  · exact hinert b y el' hbOld hold hel
  · obtain ⟨el, hel, hviewport⟩ := Page.isElement_iff.mp hviewport
    rw [(hinert b y el hbOld hold hel).viewport] at hviewport
    cases hviewport

end Spares

/-! ## The boilerplate -/

namespace Boilerplate

theorem nodup_styles (h : page.Linked) : (styles page).Nodup := ((h.nodup _).filter _).filter _

theorem nodup_noscripts (h : page.Linked) : (noscripts page).Nodup := ((h.nodup _).filter _).filter _

/-- Where the boilerplate is the same and so are the markers of the root, there is as little to do. -/
theorem Settled.congr (hsettled : Settled page) (h : page.Linked) (h' : page'.Linked)
    (hstyles : ∀ x, x ∈ styles page' ↔ x ∈ styles page) (hnoscripts : ∀ x, x ∈ noscripts page' ↔ x ∈ noscripts page)
    (hmarks : ∀ name, page.hasAttribute page.root name = true → page'.hasAttribute page'.root name = true) :
    Settled page' := by
  rcases hsettled with hmark | hother | ⟨hone, hone'⟩
  · exact .inl (hmarks _ hmark)
  · obtain ⟨name, hname, hmark⟩ := List.any_eq_true.mp hother
    exact .inr (.inl (List.any_eq_true.mpr ⟨name, hname, hmarks name hmark⟩))
  · exact .inr (.inr ⟨(length_eq_of_mem_iff (nodup_styles h) (nodup_styles h') hstyles).trans hone,
      (length_eq_of_mem_iff (nodup_noscripts h) (nodup_noscripts h') hnoscripts).trans hone'⟩)

end Boilerplate

theorem Spares.boilerplate (h : Spares page page') (hpage : page.WellFormed)
    (hsettled : Boilerplate.Settled page) : Boilerplate.Settled page' :=
  hsettled.congr hpage.linked h.wellFormed.linked (fun _ => h.mem_styles_iff hpage)
    (fun _ => h.mem_noscripts_iff hpage) fun name hmark => (h.hasAttribute_root hpage name).trans hmark

/-! ## The viewport -/

namespace Viewport

section Default

variable (h : page.WellFormed) {place : List NodeId → List NodeId} (hplace : IsPlacement page.next place)

include h hplace

/-- A default viewport is a new meta. -/
theorem spares_default : Spares page (page.attachNew (.element defaultElement) page.head place) := by
  have hkinds : page.SameKinds (page.attachNew (.element defaultElement) page.head place) := Page.attachNew_sameKinds
  have hframe : page.SameFrame (page.attachNew (.element defaultElement) page.head place) := Page.attachNew_sameFrame
  have hparent {x : NodeId} (hx : x ≠ page.next) :
      (page.attachNew (.element defaultElement) page.head place).parent? x = page.parent? x := by
    rw [Page.parent?_attachNew, if_neg hx]
  exact
    { wellFormed := (h.maintains_attachNew_head (Element.distinct_make _ _) hplace).wellFormed
      root := hframe.root
      head := hframe.head
      origin := fun x q hq => by
        by_cases hx : x = page.next
        · subst hx
          rw [Page.parent?_attachNew, if_pos rfl] at hq
          refine .inr ⟨Page.not_has_next, (Option.some.inj hq).symm, .inl ?_⟩
          rw [Page.tag?, Page.element?, Page.kind?_attachNew, if_pos rfl]
          rfl
        · rw [hparent hx] at hq
          refine .inl ⟨hq, fun el' hel' => .inl ?_⟩
          rwa [Page.element?_congr (hkinds.kind? x (Page.has_of_parent? hq))] at hel'
      kept := fun x el hel _ _ =>
        ⟨hkinds.element? hel, hparent (Page.ne_next_of_has (Page.has_of_element? hel))⟩ }

end Default

section Merged

variable {first : NodeId} {more : List NodeId} {content : String}
variable (h : page.WellFormed) (hviewports : page.elementsWhere page.head isViewport = first :: more)

include h hviewports

/-- Merging changes one viewport and takes the others out. -/
theorem spares_merged : Spares page (merged page first more content) := by
  have hframe : page.SameFrame (merged page first more content) := merged_sameFrame
  have hfirst : first ∈ page.elementsWhere page.head isViewport := hviewports ▸ List.mem_cons_self
  obtain ⟨fel, hfel, htag⟩ := Option.map_eq_some_iff.mp (of_mem_viewports h hfirst).2
  have hmore {x : NodeId} (hx : x ∈ more) : page.tag? x = some "meta" :=
    (of_mem_viewports h (hviewports ▸ List.mem_cons_of_mem _ hx)).2
  exact
    { wellFormed := merged_wellFormed h hviewports
      root := hframe.root
      head := hframe.head
      origin := fun x q hq => by
        rw [parent?_merged] at hq
        split at hq
        · cases hq
        · refine .inl ⟨hq, fun el' hel' => ?_⟩
          by_cases hx : x = first
          · subst hx
            rw [element?_merged_first hfel] at hel'
            obtain rfl := Option.some.inj hel'
            exact .inr ⟨htag, ((mem_viewports_iff h.linked).mp hfirst).2⟩
          · rw [Page.element?_congr (kind?_merged hx)] at hel'
            exact .inl hel'
      kept := fun x el hel hmeta _ => by
        have hx : x ≠ first := by
          rintro rfl
          rw [hfel] at hel
          exact hmeta (Option.some.inj hel ▸ htag)
        refine ⟨by rw [Page.element?_congr (kind?_merged hx), hel], ?_⟩
        rw [parent?_merged, if_neg]
        intro hmem
        have htag := hmore hmem
        rw [Page.tag?, hel] at htag
        exact hmeta (Option.some.inj htag) }

end Merged

/-- The pass changes nothing but viewports. -/
theorem spares_run (h : page.WellFormed) : Spares page (run page) := by
  rcases run_cases page with ⟨-, place, hplace, heq⟩ | ⟨x, -, heq⟩
      | ⟨first, more, content, hviewports, heq⟩ <;> rw [heq]
  · exact spares_default h hplace
  · exact .refl h
  · exact spares_merged h hviewports

/-- After the pass there is one viewport. -/
theorem spares_run_and_length (h : page.WellFormed) : Spares page (run page)
    ∧ ((run page).elementsWhere (run page).head isViewport).length = 1 := by
  obtain ⟨x, hx⟩ := exists_viewport_run h.linked h.has_head
  have hspares := spares_run h
  refine ⟨hspares, length_viewports_eq_one (x := x) hspares.wellFormed.linked fun y => ?_⟩
  rw [hspares.head, hx]

end Viewport

end AmpTuner
