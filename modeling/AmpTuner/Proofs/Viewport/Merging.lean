import AmpTuner.Proofs.HeadOrder.Arrangement
import AmpTuner.Proofs.Markup.Attributes
import AmpTuner.Proofs.Page.DocumentOrder
import AmpTuner.Proofs.Viewport.Declarations

/-!
# One viewport

The pass on viewports leaves one of them below the head, wherever they stood there.

* **`Found`** says of a list that it is the viewports below the head in document order. This is the
  list that the pass goes by (`found_iff`).
* **`Supplies`** and **`Unites`** tell what becomes of a page that had none or several. A page with one
  stays as it is.
* **`not_above_first`** is why the first of several stays: being the first, it is below none of the
  others, which are taken out with all that is below them.
* **`run_cases`** tells the three outcomes apart, and **`leavesOne_run`** puts them together.
-/

namespace AmpTuner

open Markup (Element)

variable {page page' : Page} {x first : NodeId} {ids more : List NodeId} {content : String} {el : Element}

theorem length_eq_of_mem_iff {L L' : List NodeId} (hL : L.Nodup) (hL' : L'.Nodup) (h : ∀ x, x ∈ L' ↔ x ∈ L) :
    L'.length = L.length :=
  ((List.perm_ext_iff_of_nodup hL' hL).mpr h).length_eq

namespace Viewport

/-! ## The viewports below the head -/

/-- A meta that is named viewport, in letters of either case. -/
def IsViewport (page : Page) (x : NodeId) : Prop := ∃ el name, page.element? x = some el ∧ el.tag = "meta"
  ∧ el.attribute? "name" = some name ∧ name.toLower = "viewport"

theorem toLower_viewport : "viewport".toLower = "viewport" := by decide +kernel

/-- The name in lower case, letter by letter. -/
theorem isViewport_eq : isViewport = fun el => el.tag == "meta"
    && (el.attribute? "name").any fun name => name.toList.map Char.toLower == "viewport".toList := by
  funext el
  rw [isViewport]
  congr 2
  funext name
  rw [Text.sameIgnoringCase, toLower_viewport, Bool.eq_iff_iff, beq_iff_eq, beq_iff_eq, ← Text.toList_toLower,
    String.toList_inj, eq_comm]

/-- The test for viewports is the specification's. -/
theorem isElement_isViewport_iff : page.isElement x isViewport = true ↔ IsViewport page x := by
  rw [Page.isElement_iff]
  refine exists_congr fun el => ?_
  rw [isViewport, Bool.and_eq_true, beq_iff_eq, Option.any_eq_true]
  simp only [Text.sameIgnoringCase, toLower_viewport, beq_iff_eq, exists_and_left]
  exact and_congr_right fun _ => and_congr_right fun _ => exists_congr fun name =>
    and_congr_right fun _ => eq_comm

theorem mem_viewports_iff (h : page.Linked) : x ∈ page.elementsWhere page.head isViewport
    ↔ page.Above page.head x ∧ page.isElement x isViewport = true := by
  rw [Page.elementsWhere, List.mem_filter, h.mem_descendants_iff]

theorem nodup_viewports (h : page.Linked) : (page.elementsWhere page.head isViewport).Nodup := by
  rw [Page.elementsWhere, h.descendants_eq_preorder]
  exact h.nodup_preorder.filter _

/-- Where the viewports are the same there are as many. -/
theorem length_viewports_congr (h : page.Linked) (h' : page'.Linked)
    (hviewports : ∀ x, (page'.Above page'.head x ∧ page'.isElement x isViewport = true)
      ↔ page.Above page.head x ∧ page.isElement x isViewport = true) :
    (page'.elementsWhere page'.head isViewport).length = (page.elementsWhere page.head isViewport).length :=
  length_eq_of_mem_iff (nodup_viewports h) (nodup_viewports h') fun x => by
    rw [mem_viewports_iff h', mem_viewports_iff h, hviewports]

/-- A page with exactly one viewport has one that is found. -/
theorem length_viewports_eq_one (h : page.Linked)
    (honly : ∀ y, (page.Above page.head y ∧ page.isElement y isViewport = true) ↔ y = x) :
    (page.elementsWhere page.head isViewport).length = 1 :=
  length_eq_of_mem_iff (List.nodup_singleton x) (nodup_viewports h) fun y => by
    rw [mem_viewports_iff h, honly, List.mem_singleton]

/-- The viewports below the head, in document order. -/
structure Found (page : Page) (ids : List NodeId) : Prop where
  sublist : ids.Sublist (page.descendants page.head)
  mem_iff : ∀ x, x ∈ ids ↔ page.Above page.head x ∧ IsViewport page x

/-- The nodes of the specification are those that the search finds, in its order. -/
theorem found_iff (h : page.Linked) : Found page ids ↔ page.elementsWhere page.head isViewport = ids := by
  constructor
  · rintro ⟨hsub, hmem⟩
    refine (Page.eq_filter_of_sublist h.nodup_descendants hsub (fun x hx => ?_) fun x hx hviewport => ?_).symm
    · exact isElement_isViewport_iff.mpr ((hmem x).mp hx).2
    · exact (hmem x).mpr ⟨h.mem_descendants_iff.mp hx, isElement_isViewport_iff.mp hviewport⟩
  · rintro rfl
    exact ⟨List.filter_sublist, fun x => by rw [mem_viewports_iff h, isElement_isViewport_iff]⟩

/-! ## A page without one -/

/-- The viewport of a page that had none. -/
def defaultElement : Element := .make "meta" [("name", "viewport"), ("content", "width=device-width")]

theorem defaultElement_eq :
    defaultElement = ⟨"meta", [⟨"name", "viewport"⟩, ⟨"content", "width=device-width"⟩]⟩ := by
  decide +kernel

/-- A meta that tells the character set. -/
def IsCharset (page : Page) (x : NodeId) : Prop :=
  ∃ el, page.element? x = some el ∧ el.tag = "meta" ∧ el.hasAttribute "charset" = true

theorem isElement_isCharset_iff : page.isElement x isCharset = true ↔ IsCharset page x := by
  rw [Page.isElement_iff]
  exact exists_congr fun el => by rw [isCharset, Bool.and_eq_true, beq_iff_eq]

/-- The viewport goes behind the first child of the head that tells the character set. -/
theorem insertDefault_of_charset {charset : NodeId} {front back : List NodeId}
    (hsplit : page.children page.head = front ++ charset :: back) (hcharset : IsCharset page charset)
    (hfront : ∀ y ∈ front, ¬ IsCharset page y) :
    insertDefault page = page.attachNew (.element defaultElement) page.head (insertAfter page.next charset) := by
  have hfind : (page.elementChildren page.head).find? (page.isElement · isCharset) = some charset := by
    rw [Page.find?_elementChildren, hsplit, List.find?_eq_some_iff_append]
    refine ⟨isElement_isCharset_iff.mpr hcharset, front, back, rfl, fun y hy => ?_⟩
    rw [Bool.not_eq_true', Bool.eq_false_iff, Ne, isElement_isCharset_iff]
    exact hfront y hy
  rw [insertDefault, hfind]
  rfl

/-- Without such a child it goes to the front of the head. -/
theorem insertDefault_of_none (hnone : ∀ y ∈ page.children page.head, ¬ IsCharset page y) :
    insertDefault page = page.attachNew (.element defaultElement) page.head (page.next :: ·) := by
  have hfind : (page.elementChildren page.head).find? (page.isElement · isCharset) = none := by
    rw [Page.find?_elementChildren, List.find?_eq_none]
    exact fun y hy => by rw [isElement_isCharset_iff]; exact hnone y hy
  rw [insertDefault, hfind]
  rfl

/-- Either a child of the head is the first that tells the character set, or none does. -/
theorem insertDefault_eq (page : Page) : ∃ place, IsPlacement page.next place
    ∧ insertDefault page = page.attachNew (.element defaultElement) page.head place := by
  rw [insertDefault]
  cases (page.elementChildren page.head).find? (page.isElement · isCharset) with
  | none => exact ⟨_, isPlacement_cons _, rfl⟩
  | some charset => exact ⟨_, isPlacement_insertAfter _ charset, rfl⟩

/-- A page that had no viewport got one: behind the first child of the head that tells the character set,
and without one in front of all children. -/
structure Supplies (page page' : Page) : Prop where
  frame : page.SameFrame page'
  kind?_new : page'.kind? page.next
    = some (.element ⟨"meta", [⟨"name", "viewport"⟩, ⟨"content", "width=device-width"⟩]⟩)
  parent?_new : page'.parent? page.next = some page.head
  after_charset : ∀ front charset back, page.children page.head = front ++ charset :: back →
    IsCharset page charset → (∀ y ∈ front, ¬ IsCharset page y) →
    page'.children page.head = front ++ charset :: page.next :: back
  first : (∀ y ∈ page.children page.head, ¬ IsCharset page y) →
    page'.children page.head = page.next :: page.children page.head
  children : ∀ x, x ≠ page.head → page'.children x = page.children x
  kind? : ∀ x, x ≠ page.next → page'.kind? x = page.kind? x
  parent? : ∀ x, x ≠ page.next → page'.parent? x = page.parent? x

section Default

variable (h : page.Linked) (hhead : page.Has page.head)

include h hhead

/-- Both cases supply the viewport where the specification wants it. -/
theorem supplies_insertDefault : Supplies page (insertDefault page) := by
  have hchildren {place : List NodeId → List NodeId}
      (heq : insertDefault page = page.attachNew (.element defaultElement) page.head place) :
      (insertDefault page).children page.head = place (page.children page.head) := by
    rw [heq, h.children_attachNew hhead, if_pos rfl]
  obtain ⟨place, -, heq⟩ := insertDefault_eq page
  exact {
    frame := by rw [heq]; exact Page.attachNew_sameFrame
    kind?_new := by
      rw [heq, Page.kind?_attachNew, if_pos rfl, defaultElement_eq]
    parent?_new := by rw [heq, Page.parent?_attachNew, if_pos rfl]
    after_charset := fun front charset back hsplit hcharset hfront => by
      rw [hchildren (insertDefault_of_charset hsplit hcharset hfront), hsplit,
        insertAfter_append_cons fun hmem => hfront charset hmem hcharset]
    first := fun hnone => hchildren (insertDefault_of_none hnone)
    children := fun x hx => by rw [heq, h.children_attachNew hhead, if_neg hx]
    kind? := fun x hx => by rw [heq, Page.kind?_attachNew, if_neg hx]
    parent? := fun x hx => by rw [heq, Page.parent?_attachNew, if_neg hx] }

/-- The viewport that was put in is the only one. -/
theorem viewport_default {place : List NodeId → List NodeId} (hplace : IsPlacement page.next place)
    (hnone : page.elementsWhere page.head isViewport = []) (y : NodeId) :
    ((page.attachNew (.element defaultElement) page.head place).Above page.head y
      ∧ (page.attachNew (.element defaultElement) page.head place).isElement y isViewport = true)
        ↔ y = page.next := by
  constructor
  · rintro ⟨habove, hviewport⟩
    by_contra hne
    have hhas : page.Has y := by
      obtain ⟨el, hel, -⟩ := Page.isElement_iff.mp hviewport
      exact (Page.has_attachNew.mp (Page.has_of_element? hel)).resolve_right hne
    rw [(h.sprouts_attachNew _ hhead hplace).above_iff h hhas] at habove
    have hkind : (page.attachNew (.element defaultElement) page.head place).kind? y = page.kind? y := by
      rw [Page.kind?_attachNew, if_neg hne]
    rw [Page.isElement_congr (Page.element?_congr hkind)] at hviewport
    have hmem := (mem_viewports_iff h).mpr ⟨habove, hviewport⟩
    rw [hnone] at hmem
    cases hmem
  · rintro rfl
    refine ⟨.of_parent? (by rw [Page.parent?_attachNew, if_pos rfl]), ?_⟩
    rw [Page.isElement, Page.element?, Page.kind?_attachNew, if_pos rfl]
    show isViewport defaultElement = true
    decide +kernel

end Default

/-! ## A page with several -/

/-- The first of several viewports with what they say together, and without the others. -/
def merged (page : Page) (first : NodeId) (more : List NodeId) (content : String) : Page :=
  (page.setAttribute first "content" content).detachAll more

section Merged

theorem parent?_merged : (merged page first more content).parent? x = if x ∈ more then none else page.parent? x := by
  have hlinks : page.SameLinks (page.setAttribute first "content" content) := Page.mapElement_sameLinks _
  rw [merged, Page.parent?_detachAll, hlinks.parent?]

theorem kind?_merged (hx : x ≠ first) : (merged page first more content).kind? x = page.kind? x := by
  rw [merged, Page.kind?_detachAll]
  exact Page.kind?_mapElement_of_ne _ hx

/-- The first viewport gets the merged content. -/
theorem element?_merged_first (hel : page.element? first = some el) :
    (merged page first more content).element? first = some (el.set "content" content) := by
  rw [merged, Page.element?_congr (Page.kind?_detachAll more), Page.setAttribute, Page.element?_mapElement, if_pos rfl,
    hel]
  rfl

theorem merged_sameFrame : page.SameFrame (merged page first more content) :=
  (Page.mapElement_sameFrame _).trans (Page.detachAll_sameFrame more)

variable (h : page.Linked)

include h

theorem children_merged : (merged page first more content).children x = (page.children x).filter (· ∉ more) := by
  have hlinks : page.SameLinks (page.setAttribute first "content" content) := Page.mapElement_sameLinks _
  rw [merged, (hlinks.linked h).children_detachAll more, hlinks.children]

variable (hviewports : page.elementsWhere page.head isViewport = first :: more)

include hviewports

/-- The first one is in front of the others and so not below them. -/
theorem not_above_first : ∀ y ∈ more, y ≠ first ∧ ¬ page.Above y first := by
  have hnodup := nodup_viewports h
  rw [hviewports] at hnodup
  have hviewport {x : NodeId} (hx : x ∈ first :: more) : page.Above page.head x ∧ page.isElement x isViewport = true :=
    (mem_viewports_iff h).mp (hviewports ▸ hx)
  intro y hy
  refine ⟨fun heq => (List.nodup_cons.mp hnodup).1 (heq ▸ hy), fun habove => ?_⟩
  -- a viewport above the first one would have been listed in front of it
  have hlisted := h.pair_sublist_preorder (hviewport (List.mem_cons_of_mem _ hy)).1 habove
  rw [← h.descendants_eq_preorder] at hlisted
  have hpair : [y, first].Sublist (first :: more) := by
    have hkept := hlisted.filter (page.isElement · isViewport)
    rwa [← Page.elementsWhere, hviewports, List.filter_eq_self.mpr] at hkept
    simpa using ⟨(hviewport (List.mem_cons_of_mem _ hy)).2, (hviewport List.mem_cons_self).2⟩
  exact HeadOrder.not_pair_sublist_swap hnodup hpair ((List.singleton_sublist.mpr hy).cons_cons first)

/-- The first viewport is the only one left. -/
theorem viewport_merged (y : NodeId) : ((merged page first more content).Above page.head y
    ∧ (merged page first more content).isElement y isViewport = true) ↔ y = first := by
  have hfirst : first ∈ page.elementsWhere page.head isViewport := hviewports ▸ List.mem_cons_self
  obtain ⟨habove, hviewport⟩ := (mem_viewports_iff h).mp hfirst
  constructor
  · rintro ⟨habove', hviewport'⟩
    by_contra hne
    rw [Page.isElement_congr (Page.element?_congr (kind?_merged hne))] at hviewport'
    have hold : page.Above page.head y := habove'.mono fun d p hp => by
      rw [parent?_merged] at hp
      split at hp
      · cases hp
      · exact hp
    have hmem : y ∈ first :: more := hviewports ▸ (mem_viewports_iff h).mpr ⟨hold, hviewport'⟩
    refine Page.not_above_of_parent?_eq_none ?_ habove'
    rw [parent?_merged, if_pos ((List.mem_cons.mp hmem).resolve_left hne)]
  · rintro rfl
    have hlinks : page.SameLinks (page.setAttribute y "content" content) := Page.mapElement_sameLinks _
    refine ⟨Page.above_detachAll more (hlinks.above_iff.mpr habove) fun n hn => ?_, ?_⟩
    · rw [hlinks.above_iff]
      exact not_above_first h hviewports n hn
    · obtain ⟨el, hel, hviewport⟩ := Page.isElement_iff.mp hviewport
      refine Page.isElement_iff.mpr ⟨_, element?_merged_first hel, ?_⟩
      rwa [isViewport, Element.attribute?_set_of_ne (by decide), show (el.set "content" content).tag = el.tag from rfl,
        ← isViewport]

end Merged

/-- What a viewport says; nothing, if it has no content. -/
def contentOf (page : Page) (x : NodeId) : String := (page.attribute? x "content").getD ""

/-- The first of several viewports says what all of them said, and the others are taken out. -/
structure Unites (page page' : Page) (first : NodeId) (more : List NodeId) : Prop where
  frame : page.SameFrame page'
  stays : page'.Above page'.head first ∧ IsViewport page' first
  content : ∃ content, page'.element? first = (page.element? first).map (·.set "content" content)
    ∧ contentOf page' first = content
    ∧ ∃ given back, List.Forall₂ Reads ((first :: more).map (contentOf page)) given ∧ Reads content back
      ∧ SumsUp given.flatten back
  kind? : ∀ x, x ≠ first → page'.kind? x = page.kind? x
  parent? : ∀ x, page'.parent? x = if x ∈ more then none else page.parent? x
  children : ∀ x, page'.children x = (page.children x).filter (· ∉ more)

/-- Merging unites the viewports as the specification says, their contents read by its own relation. -/
theorem unites_merged (h : page.Linked) (hviewports : page.elementsWhere page.head isViewport = first :: more) :
    Unites page (merged page first more (merge ((first :: more).map (contentOf page)))) first more where
  frame := merged_sameFrame
  stays := by
    rw [merged_sameFrame.head, ← isElement_isViewport_iff]
    exact (viewport_merged h hviewports first).mpr rfl
  content := by
    have hfirst : first ∈ page.elementsWhere page.head isViewport := hviewports ▸ List.mem_cons_self
    obtain ⟨el, hel, -⟩ := Page.isElement_iff.mp ((mem_viewports_iff h).mp hfirst).2
    refine ⟨_, ?_, ?_, exists_reads_merge _⟩
    · rw [element?_merged_first hel, hel]
      rfl
    · rw [contentOf, Page.attribute?, element?_merged_first hel, Option.bind_some, Element.attribute?_set, if_pos rfl,
        Option.getD_some]
  kind? _ hx := kind?_merged hx
  parent? _ := parent?_merged
  children _ := children_merged h

/-! ## The pass -/

/-- One viewport is below the head, and how it came there from what was found. -/
structure LeavesOne (page page' : Page) : Prop where
  one : ∃ x, ∀ y, (page'.Above page'.head y ∧ IsViewport page' y) ↔ y = x
  none : Found page [] → Supplies page page'
  single : ∀ x, Found page [x] → page' = page
  several : ∀ first second more, Found page (first :: second :: more) → Unites page page' first (second :: more)

/-- The page gets the default, is left as it is, or has its viewports merged. -/
theorem run_cases (page : Page) :
    (page.elementsWhere page.head isViewport = [] ∧ ∃ place, IsPlacement page.next place
        ∧ run page = page.attachNew (.element defaultElement) page.head place)
      ∨ (∃ x, page.elementsWhere page.head isViewport = [x] ∧ run page = page)
      ∨ ∃ first more content, page.elementsWhere page.head isViewport = first :: more
        ∧ run page = merged page first more content := by
  rw [run]
  split
  · next hnone => exact .inl ⟨hnone, insertDefault_eq page⟩
  · next x hone => exact .inr (.inl ⟨x, hone, rfl⟩)
  · next first more _ hviewports => exact .inr (.inr ⟨first, more, _, hviewports, rfl⟩)

/-- After a run there is exactly one viewport below the head. -/
theorem exists_viewport_run (h : page.Linked) (hhead : page.Has page.head) :
    ∃ x, ∀ y, ((run page).Above page.head y ∧ (run page).isElement y isViewport = true) ↔ y = x := by
  rcases run_cases page with ⟨hnone, place, hplace, heq⟩ | ⟨x, hone, heq⟩ | ⟨first, more, content, hviewports, heq⟩
  · rw [heq]
    exact ⟨page.next, viewport_default h hhead hplace hnone⟩
  · rw [heq]
    exact ⟨x, fun y => by rw [← mem_viewports_iff h, hone, List.mem_singleton]⟩
  · rw [heq]
    exact ⟨first, viewport_merged h hviewports⟩

/-- A run leaves the fixed elements. -/
theorem run_sameFrame : page.SameFrame (run page) := by
  rcases run_cases page with ⟨-, place, -, heq⟩ | ⟨x, -, heq⟩ | ⟨first, more, content, -, heq⟩ <;> rw [heq]
  · exact Page.attachNew_sameFrame
  · exact .refl page
  · exact merged_sameFrame

/-- Whatever was found below the head, the pass leaves one viewport there. -/
theorem leavesOne_run (h : page.Linked) (hhead : page.Has page.head) : LeavesOne page (run page) where
  one := by
    obtain ⟨x, hx⟩ := exists_viewport_run h hhead
    exact ⟨x, fun y => by rw [run_sameFrame.head, ← isElement_isViewport_iff, hx]⟩
  none hfound := by
    rw [run, (found_iff h).mp hfound]
    exact supplies_insertDefault h hhead
  single x hfound := by rw [run, (found_iff h).mp hfound]
  several first second more hfound := by
    have hviewports := (found_iff h).mp hfound
    rw [run, hviewports]
    exact unites_merged h hviewports

/-- Two viewports, one written in capitals and one that is not a child of the head. -/
theorem leavesOne_run_nested :
    let page := Page.ofDocument { nodes := [.element { tag := "head" } [
      .element ⟨"meta", [⟨"name", "Viewport"⟩, ⟨"content", " Width = 1,, a=b=c"⟩]⟩ [],
      .element { tag := "noscript" } [
        .element ⟨"meta", [⟨"name", "viewport"⟩, ⟨"content", "width=2,=x,user-scalable"⟩]⟩ []]]] }
    page.Linked ∧ page.Has page.head ∧ LeavesOne page (run page) ∧ Found page [⟨3⟩, ⟨5⟩]
      ∧ Unites page (run page) ⟨3⟩ [⟨5⟩] := by
  intro page
  have hwell : page.WellFormed := Page.ofDocument_wellFormed _
  have hone : LeavesOne page (run page) := leavesOne_run hwell.linked hwell.has_head
  have hviewports : page.elementsWhere page.head isViewport = [⟨3⟩, ⟨5⟩] := by
    rw [isViewport_eq]
    decide +kernel
  have hfound : Found page [⟨3⟩, ⟨5⟩] := (found_iff hwell.linked).mpr hviewports
  exact ⟨hwell.linked, hwell.has_head, hone, hfound, hone.several ⟨3⟩ ⟨5⟩ [] hfound⟩

end Viewport

end AmpTuner
