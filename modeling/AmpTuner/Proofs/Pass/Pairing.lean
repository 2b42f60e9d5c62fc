import AmpTuner.Proofs.Pass.Sparing

/-!
# The pair of the boilerplate

Where the boilerplate is not complete the pass puts the canonical pair in its place.

* **`Paired`** says of a page that the pair has come to its head, and nothing else. **`paired_insertPair`** shows it:
  the noscript is made with a style in it (**`Joined`**), and then both get their places (**`Joined.paired`**).
* **`Paired.mem_styles_iff`** and **`Paired.mem_noscripts_iff`**: where there was none the pair is the boilerplate.
* **`settled_run`**: the pass leaves nothing for another run of it to do. Nor does it for the passes behind it
  (**`inertBoilerplate_run`**): nothing in the boilerplate requires an extension or declares a viewport.
-/

namespace AmpTuner.Boilerplate

open Markup (Element)
open Vocabulary

variable {spec : Spec} {page page' : Page} {x q : NodeId} {el : Element}

/-! ## The pair -/

/-- The pair has come to the head of the page, and nothing else. -/
structure Paired (page page' : Page) (style noscript inner : NodeId) : Prop where
  maintains : page.Maintains page'
  kinds : page.SameKinds page'
  new : ¬ page.Has style ∧ ¬ page.Has noscript ∧ ¬ page.Has inner
  styleAt : page'.element? style = some (.make "style" [("amp-boilerplate", "")])
    ∧ page'.parent? style = some page.head
  noscriptAt : page'.element? noscript = some (.make "noscript" []) ∧ page'.parent? noscript = some page.head
  innerAt : page'.element? inner = some (.make "style" [("amp-boilerplate", "")])
    ∧ page'.parent? inner = some noscript
  parent? : ∀ x, page.Has x → page'.parent? x = page.parent? x
  origin : ∀ x, ¬ page.Has x → x = style ∨ x = noscript ∨ x = inner ∨ page'.element? x = none

section Pair

variable {tag : String} {given : List (String × String)} {content : String}

/-- Of the new nodes only one is an element. -/
theorem element?_createFilled_of_ne (hx : ¬ page.Has x) (hne : x ≠ page.next) :
    (page.createFilled tag given content).element? x = none := by
  have hnone : (page.createElement tag given).1.kind? x = none := by
    rw [Page.createElement, Page.kind?_create, if_neg hne]
    exact (page.kind?_eq_none_iff x).mpr hx
  rw [Page.createFilled, Page.element?, Page.kind?_setTextContent, hnone]
  split <;> rfl

/-- The noscript is new, with a new style in it, and has no place yet. Nothing else that is new is an element. -/
structure Joined (page joined : Page) (inner : NodeId) : Prop where
  kinds : page.SameKinds joined
  new : ¬ page.Has inner ∧ inner ≠ page.next
  noscriptAt : joined.element? page.next = some (.make "noscript" [])
  innerAt : joined.element? inner = some (.make "style" [("amp-boilerplate", "")])
    ∧ joined.parent? inner = some page.next
  parent? : ∀ x, page.Has x → joined.parent? x = page.parent? x
  origin : ∀ x, ¬ page.Has x → x = page.next ∨ x = inner ∨ joined.element? x = none

/-- The noscript is made with a style inside. -/
theorem exists_joined_withNoscript (h : page.WellFormed) : ∃ inner, Joined page (withNoscript page) inner := by
  have hjoinedKinds : page.SameKinds (withNoscript page) := withNoscript_sameKinds
  have hnoscriptAt : (withNoscript page).element? page.next = some (.make "noscript" []) := element?_withNoscript
  rw [withNoscript] at hjoinedKinds hnoscriptAt ⊢
  generalize noscriptCss = css at hjoinedKinds hnoscriptAt ⊢
  have hcreated : page.Maintains (page.createElement "noscript" []).1 := h.maintains_createElement "noscript" []
  have hkinds : page.SameKinds (page.createElement "noscript" []).1 := Page.create_sameKinds _
  have hlinks : page.SameLinks (page.createElement "noscript" []).1 := Page.create_sameLinks _
  have hnoscript : (page.createElement "noscript" []).1.Has page.next := (Page.has_create _).mpr (.inr rfl)
  have hold (x : NodeId) (hx : ¬ page.Has x) (hne : x ≠ page.next) :
      ¬ (page.createElement "noscript" []).1.Has x := fun hhas =>
    ((Page.has_create _).mp hhas).elim hx hne
  generalize (page.createElement "noscript" []).1 = created
    at hcreated hkinds hlinks hnoscript hold hjoinedKinds hnoscriptAt ⊢
  have hinner : (created.createFilled "style" [("amp-boilerplate", "")] css).element? created.next
      = some (.make "style" [("amp-boilerplate", "")]) := Page.element?_createFilled
  have hparent (x : NodeId) : ((created.createFilled "style" [("amp-boilerplate", "")] css).appendChild page.next
      created.next).parent? x = if x = created.next then some page.next
        else (created.createFilled "style" [("amp-boilerplate", "")] css).parent? x :=
    Page.parent?_attach (Page.has_of_element? hinner)
  have hkind (x : NodeId) : ((created.createFilled "style" [("amp-boilerplate", "")] css).appendChild page.next
      created.next).kind? x = (created.createFilled "style" [("amp-boilerplate", "")] css).kind? x :=
    Page.kind?_attach
  refine ⟨created.next, ?_⟩
  exact
    { kinds := hjoinedKinds
      new := ⟨fun hhas => Page.not_has_next (hkinds.has hhas), (Page.ne_next_of_has hnoscript).symm⟩
      noscriptAt := hnoscriptAt
      innerAt := ⟨by rw [Page.element?_congr (hkind _), hinner], by rw [hparent, if_pos rfl]⟩
      parent? := fun x hx => by
        have hhas := hkinds.has hx
        rw [hparent, if_neg (Page.ne_next_of_has hhas), hcreated.wellFormed.parent?_createFilled hhas,
          hlinks.parent?]
      origin := fun x hx => by
        by_cases hnext : x = page.next
        · exact .inl hnext
        · refine .inr (or_iff_not_imp_left.mpr fun hother => ?_)
          rw [Page.element?_congr (hkind x)]
          exact element?_createFilled_of_ne (hold x hx hnext) hother }

/-- The pair is made first, and then appended to the head. -/
theorem insertPair_eq (page : Page) : insertPair page
    = ((withNoscript (page.createFilled "style" [("amp-boilerplate", "")] boilerplateCss)).appendChild
        (withNoscript (page.createFilled "style" [("amp-boilerplate", "")] boilerplateCss)).head page.next).appendChild
        (withNoscript (page.createFilled "style" [("amp-boilerplate", "")] boilerplateCss)).head
        (page.createFilled "style" [("amp-boilerplate", "")] boilerplateCss).next := by
  unfold insertPair
  generalize boilerplateCss = css
  rfl

/-- The parents after two nodes have been appended. -/
theorem parent?_appendChild_appendChild {p a b : NodeId} (ha : page.Has a) (hb : page.Has b) :
    ((page.appendChild p a).appendChild p b).parent? x
      = if x = b then some p else if x = a then some p else page.parent? x := by
  have hfirst : (page.appendChild p a).parent? x = if x = a then some p else page.parent? x := Page.parent?_attach ha
  rw [← hfirst]
  exact Page.parent?_attach (Page.has_attach.mpr hb)

/-- Behind a new style the noscript gets its place, too. -/
theorem Joined.paired {styled joined : Page} {inner : NodeId} (h : Joined styled joined inner)
    (hkinds : page.SameKinds styled)
    (hstyle : styled.element? page.next = some (.make "style" [("amp-boilerplate", "")]))
    (hparent : ∀ x, page.Has x → styled.parent? x = page.parent? x)
    (hother : ∀ x, ¬ page.Has x → x ≠ page.next → styled.element? x = none)
    (hplaced : page.Maintains ((joined.appendChild page.head page.next).appendChild page.head styled.next)) :
    Paired page ((joined.appendChild page.head page.next).appendChild page.head styled.next) page.next styled.next
      inner := by
  have hstyleHas : styled.Has page.next := Page.has_of_element? hstyle
  have hat (x : NodeId) : ((joined.appendChild page.head page.next).appendChild page.head styled.next).parent? x
      = if x = styled.next then some page.head else if x = page.next then some page.head else joined.parent? x :=
    parent?_appendChild_appendChild (h.kinds.has hstyleHas) (Page.has_of_element? h.noscriptAt)
  have hkind (x : NodeId) :
      ((joined.appendChild page.head page.next).appendChild page.head styled.next).kind? x = joined.kind? x :=
    Page.kind?_attach.trans Page.kind?_attach
  have hlast : joined.SameKinds ((joined.appendChild page.head page.next).appendChild page.head styled.next) :=
    ⟨fun x _ => hkind x⟩
  have hinnerNe : inner ≠ page.next := fun heq => h.new.1 (heq ▸ hstyleHas)
  exact
    { maintains := hplaced
      kinds := (hkinds.trans h.kinds).trans hlast
      new := ⟨Page.not_has_next, fun hhas => Page.not_has_next (hkinds.has hhas), fun hhas => h.new.1 (hkinds.has hhas)⟩
      styleAt := ⟨(h.kinds.trans hlast).element? hstyle,
        by rw [hat, if_neg (Page.ne_next_of_has hstyleHas), if_pos rfl]⟩
      noscriptAt := ⟨hlast.element? h.noscriptAt, by rw [hat, if_pos rfl]⟩
      innerAt := ⟨hlast.element? h.innerAt.1, by rw [hat, if_neg h.new.2, if_neg hinnerNe, h.innerAt.2]⟩
      parent? := fun x hx => by
        have hhas := hkinds.has hx
        rw [hat, if_neg (Page.ne_next_of_has hhas), if_neg (Page.ne_next_of_has hx), h.parent? x hhas, hparent x hx]
      origin := fun x hx => by
        rw [Page.element?_congr (hkind x)]
        by_cases hfirst : x = page.next
        · exact .inl hfirst
        · refine .inr ?_
          by_cases hhas : styled.Has x
          · rw [Page.element?_congr (h.kinds.kind? x hhas)]
            exact .inr (.inr (hother x hx hfirst))
          · exact h.origin x hhas }

/-- The pair stands at the end of the head. -/
theorem paired_insertPair (h : page.WellFormed) :
    ∃ style noscript inner, Paired page (insertPair page) style noscript inner := by
  have hstyled : page.Maintains (page.createFilled "style" [("amp-boilerplate", "")] boilerplateCss) :=
    h.maintains_createFilled
  obtain ⟨inner, hjoined⟩ := exists_joined_withNoscript hstyled.wellFormed
  have hplaced : page.Maintains (insertPair page) := maintains_insertPair h
  rw [insertPair_eq, (maintains_withNoscript hstyled.wellFormed).head.trans hstyled.head] at hplaced ⊢
  exact ⟨_, _, inner, hjoined.paired Page.createFilled_sameKinds Page.element?_createFilled
    (fun x hx => h.parent?_createFilled hx) (fun x hx hne => element?_createFilled_of_ne hx hne) hplaced⟩

end Pair

namespace Paired

variable {style noscript inner : NodeId} (h : Paired page page' style noscript inner) (hpage : page.WellFormed)

include h

/-- The new elements are the three of the pair. -/
theorem cases_of_new (hx : ¬ page.Has x) (hel : page'.element? x = some el) :
    x = style ∨ x = noscript ∨ x = inner := by
  rcases h.origin x hx with hstyle | hnoscript | hinner | hnone
  · exact .inl hstyle
  · exact .inr (.inl hnoscript)
  · exact .inr (.inr hinner)
  · rw [hnone] at hel
    cases hel

/-- The three new elements stand in the head and in the noscript. -/
theorem parent?_of_new (hx : ¬ page.Has x) (hel : page'.element? x = some el) (hq : page'.parent? x = some q) :
    q = page.head ∧ (x = style ∨ x = noscript) ∨ q = noscript ∧ x = inner := by
  rcases h.cases_of_new hx hel with rfl | rfl | rfl
  · rw [h.styleAt.2] at hq
    exact .inl ⟨(Option.some.inj hq).symm, .inl rfl⟩
  · rw [h.noscriptAt.2] at hq
    exact .inl ⟨(Option.some.inj hq).symm, .inr rfl⟩
  · rw [h.innerAt.2] at hq
    exact .inr ⟨(Option.some.inj hq).symm, rfl⟩

/-- The new elements require nothing. -/
theorem inert_of_new (hspec : spec.Quiet) (hx : ¬ page.Has x) (hel : page'.element? x = some el) :
    Inert spec el := by
  have hstyle : Inert spec (.make "style" [("amp-boilerplate", "")]) :=
    inert_of_names hspec (by decide) (by decide)
  have hnoscript : Inert spec (.make "noscript" []) := inert_of_names hspec (by decide) (by decide)
  rcases h.cases_of_new hx hel with rfl | rfl | rfl
  · exact Option.some.inj (h.styleAt.1.symm.trans hel) ▸ hstyle
  · exact Option.some.inj (h.noscriptAt.1.symm.trans hel) ▸ hnoscript
  · exact Option.some.inj (h.innerAt.1.symm.trans hel) ▸ hstyle

include hpage

omit hpage in
/-- What stands in an old node is old, but for the pair in the head. -/
theorem parent?_of_ne_head (hq : page'.parent? x = some q) (hel : page'.element? x = some el) (hqHas : page.Has q)
    (hne : q ≠ page.head) : page.parent? x = some q := by
  by_cases hx : page.Has x
  · rwa [h.parent? x hx] at hq
  · rcases h.parent?_of_new hx hel hq with ⟨hhead, -⟩ | ⟨hnoscript, -⟩
    · exact absurd hhead hne
    · exact absurd (hnoscript ▸ hqHas) h.new.2.1

/-- Literal content of the head stays literal. -/
theorem headLiteral (hliteral : page.HeadLiteral) : page'.HeadLiteral := by
  intro x c tag hx htag hraw hc
  cases hel : page'.element? c with
  | none => rfl
  | some el =>
    exfalso
    by_cases hcHas : page.Has c
    · have hcOld := (h.parent? c hcHas).symm.trans hc
      have hxHas := hpage.linked.has_parent hcOld
      rw [h.maintains.head, h.parent? x hxHas] at hx
      rw [Page.tag?_congr (h.kinds.kind? x hxHas)] at htag
      rw [Page.element?_congr (h.kinds.kind? c hcHas), hliteral x c tag hx htag hraw hcOld] at hel
      cases hel
    -- the head and the noscript hold more than texts
    · rcases h.parent?_of_new hcHas hel hc with ⟨rfl, -⟩ | ⟨rfl, -⟩
      · exact (h.maintains.wellFormed.head_child hx).1 h.maintains.head.symm
      · rw [Page.tag?, h.noscriptAt.1] at htag
        obtain rfl : "noscript" = tag := Option.some.inj htag
        exact absurd hraw (by decide)

section Only

variable (hstyles : ∀ x, x ∉ styles page) (hnoscripts : ∀ x, x ∉ noscripts page)

include hstyles

/-- Where there was no boilerplate style, the new one is the only one. -/
theorem mem_styles_iff : x ∈ styles page' ↔ x = style := by
  rw [Boilerplate.mem_styles_iff h.maintains.wellFormed.linked, h.maintains.head]
  constructor
  · rintro ⟨hparent, hboilerplate⟩
    obtain ⟨el, hel, hboilerplate⟩ := Page.isElement_iff.mp hboilerplate
    by_cases hx : page.Has x
    · rw [h.parent? x hx] at hparent
      rw [Page.element?_congr (h.kinds.kind? x hx)] at hel
      exact absurd ((Boilerplate.mem_styles_iff hpage.linked).mpr
        ⟨hparent, Page.isElement_iff.mpr ⟨el, hel, hboilerplate⟩⟩) (hstyles x)
    · rcases h.parent?_of_new hx hel hparent with ⟨-, rfl | rfl⟩ | ⟨hnoscript, -⟩
      · rfl
      · obtain rfl := Option.some.inj (h.noscriptAt.1.symm.trans hel)
        exact absurd hboilerplate (by decide)
      · exact absurd (hnoscript ▸ hpage.has_head) h.new.2.1
  · rintro rfl
    exact ⟨h.styleAt.2, by rw [Page.isElement, h.styleAt.1]; decide⟩

omit hstyles

include hnoscripts

/-- Where there was no boilerplate noscript, the new one is the only one. -/
theorem mem_noscripts_iff : x ∈ noscripts page' ↔ x = noscript := by
  rw [Boilerplate.mem_noscripts_iff h.maintains.wellFormed.linked, h.maintains.head]
  constructor
  · rintro ⟨hparent, ⟨el, hel, htag⟩, c, hc, hboilerplate⟩
    obtain ⟨cel, hcel, hboilerplate⟩ := Page.isElement_iff.mp hboilerplate
    by_cases hx : page.Has x
    · rw [h.parent? x hx] at hparent
      have hcOld := h.parent?_of_ne_head hc hcel hx (hpage.head_child hparent).1
      rw [Page.element?_congr (h.kinds.kind? x hx)] at hel
      rw [Page.element?_congr (h.kinds.kind? c (Page.has_of_parent? hcOld))] at hcel
      exact absurd ((Boilerplate.mem_noscripts_iff hpage.linked).mpr
        ⟨hparent, ⟨el, hel, htag⟩, c, hcOld, Page.isElement_iff.mpr ⟨cel, hcel, hboilerplate⟩⟩) (hnoscripts x)
    · rcases h.parent?_of_new hx hel hparent with ⟨-, rfl | rfl⟩ | ⟨hnoscript, -⟩
      · obtain rfl := Option.some.inj (h.styleAt.1.symm.trans hel)
        exact absurd htag (by decide)
      · rfl
      · exact absurd (hnoscript ▸ hpage.has_head) h.new.2.1
  · rintro rfl
    exact ⟨h.noscriptAt.2, ⟨_, h.noscriptAt.1, rfl⟩, inner, h.innerAt.2, by rw [Page.isElement, h.innerAt.1]; decide⟩

include hstyles

/-- With the pair the boilerplate is settled. -/
theorem settled : Settled page' := by
  have hlinked := h.maintains.wellFormed.linked
  refine .inr (.inr ⟨?_, ?_⟩)
  · exact length_eq_of_mem_iff (List.nodup_singleton style) (nodup_styles hlinked) fun x => by
      rw [h.mem_styles_iff hpage hstyles, List.mem_singleton]
  · exact length_eq_of_mem_iff (List.nodup_singleton noscript) (nodup_noscripts hlinked) fun x => by
      rw [h.mem_noscripts_iff hpage hnoscripts, List.mem_singleton]

/-- All that is below the pair is new with it. -/
theorem inertBoilerplate (hspec : spec.Quiet) : InertBoilerplate spec page' := by
  intro b y el hb hy hel
  have hbNew : ¬ page.Has b := by
    rw [mem_boilerplateOf_iff, h.mem_styles_iff hpage hstyles, h.mem_noscripts_iff hpage hnoscripts] at hb
    rcases hb with rfl | rfl
    · exact h.new.1
    · exact h.new.2.1
  refine h.inert_of_new hspec ?_ hel
  rcases hy with rfl | habove
  · exact hbNew
  · clear hel
    induction y using h.maintains.wellFormed.linked.up_induction with
    | step y ih =>
      obtain ⟨q, hq, hup⟩ := Page.above_iff.mp habove
      intro hyHas
      have hqHas := hpage.linked.has_parent ((h.parent? y hyHas).symm.trans hq)
      rcases hup with rfl | hup
      · exact hbNew hqHas
      · exact ih q hq hup hqHas

end Only

end Paired

/-! ## The pass -/

/-- Either the page is as it was, or the pair is new and there was no other. -/
theorem run_cases (h : page.WellFormed) :
    (run page = page ∧ Settled page) ∨ ∃ base style noscript inner, Paired base (run page) style noscript inner
      ∧ base.WellFormed ∧ (∀ x, x ∉ styles base) ∧ (∀ x, x ∉ noscripts base) ∧ base.head = page.head
      ∧ (∀ x, base.kind? x = page.kind? x)
      ∧ ∀ x q, base.parent? x = some q → page.parent? x = some q := by
  rw [run]
  split
  · next hmark =>
    rw [Bool.or_eq_true] at hmark
    exact .inl ⟨rfl, hmark.elim .inl fun hother => .inr (.inl hother)⟩
  · split
    · next hcomplete =>
      rw [Bool.and_eq_true, decide_eq_true_eq, decide_eq_true_eq] at hcomplete
      exact .inl ⟨rfl, .inr (.inr hcomplete)⟩
    · have hinHead {b : NodeId} (hb : b ∈ styles page ++ noscripts page) : page.parent? b = some page.head :=
        parent?_of_mem_boilerplateOf h.linked (mem_boilerplateOf_iff.mpr (List.mem_append.mp hb))
      have hbase : (page.detachAll (styles page ++ noscripts page)).WellFormed :=
        h.detachAll_head fun _ hb => .of_parent? (hinHead hb)
      obtain ⟨style, noscript, inner, hpaired⟩ := paired_insertPair hbase
      have hkind (x : NodeId) : (page.detachAll (styles page ++ noscripts page)).kind? x = page.kind? x :=
        Page.kind?_detachAll _
      have hhead : (page.detachAll (styles page ++ noscripts page)).head = page.head :=
        (Page.detachAll_sameFrame _).head
      have hgone (x : NodeId) (hx : x ∈ styles page ++ noscripts page) :
          (page.detachAll (styles page ++ noscripts page)).parent? x = none := by
        rw [Page.parent?_detachAll, if_pos hx]
      have hback (x q : NodeId) (hq : (page.detachAll (styles page ++ noscripts page)).parent? x = some q) :
          page.parent? x = some q := Page.parent?_of_detachAll hq
      generalize hdetached : page.detachAll (styles page ++ noscripts page) = base at *
      refine .inr ⟨base, style, noscript, inner, hpaired, hbase, fun x hx => ?_, fun x hx => ?_, hhead, hkind, hback⟩
      · obtain ⟨hparent, hboilerplate⟩ := (mem_styles_iff hbase.linked).mp hx
        rw [Page.isElement_congr (Page.element?_congr (hkind x))] at hboilerplate
        rw [hhead] at hparent
        rw [hgone x (List.mem_append_left _ ((mem_styles_iff h.linked).mpr ⟨hback x _ hparent, hboilerplate⟩))]
          at hparent
        cases hparent
      · obtain ⟨hparent, ⟨el, hel, htag⟩, c, hc, hboilerplate⟩ := (mem_noscripts_iff hbase.linked).mp hx
        rw [Page.isElement_congr (Page.element?_congr (hkind c))] at hboilerplate
        rw [Page.element?_congr (hkind x)] at hel
        rw [hhead] at hparent
        rw [hgone x (List.mem_append_right _ ((mem_noscripts_iff h.linked).mpr
          ⟨hback x _ hparent, ⟨el, hel, htag⟩, c, hback c _ hc, hboilerplate⟩))] at hparent
        cases hparent

theorem settled_run (h : page.WellFormed) : Settled (run page) := by
  rcases run_cases h with ⟨heq, hsettled⟩ | ⟨base, style, noscript, inner, hpaired, hbase, hstyles, hnoscripts, -⟩
  · rwa [heq]
  · exact hpaired.settled hbase hstyles hnoscripts

theorem headLiteral_run (h : page.WellFormed) (hliteral : page.HeadLiteral) : (run page).HeadLiteral := by
  rcases run_cases h with ⟨heq, -⟩ | ⟨base, style, noscript, inner, hpaired, hbase, -, -, hhead, hkind, hback⟩
  · rwa [heq]
  · exact hpaired.headLiteral hbase (hliteral.of_kinds hhead hkind hback)

/-- After the pass an inert boilerplate is still inert. -/
theorem inertBoilerplate_run (h : page.WellFormed) (hspec : spec.Quiet) (hinert : InertBoilerplate spec page) :
    InertBoilerplate spec (run page) := by
  rcases run_cases h with ⟨heq, -⟩ | ⟨base, style, noscript, inner, hpaired, hbase, hstyles, hnoscripts, -⟩
  · rwa [heq]
  · exact hpaired.inertBoilerplate hbase hstyles hnoscripts hspec

end AmpTuner.Boilerplate
