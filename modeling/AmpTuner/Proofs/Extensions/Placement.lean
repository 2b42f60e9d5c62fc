import AmpTuner.Proofs.Extensions.Demand

/-!
# Where the scripts go

The pass takes the scripts out of the head and puts them back in one block behind an anchor, and does nothing
else to the page but spell out bound attributes.

* **`anchor?_stocked`**: the anchor may be looked up before the pass, though the pass does so after its other
  changes.
* **`Placed`** sums up what the pass does to a page, for any way of recognising viewports, and **`placed_run_iff`**
  says when it does so. For the way of the other passes, `not_placed_capitalViewport` is a page on which it does
  something else.
-/

namespace AmpTuner.Extensions

open Markup (Element)

variable {s : Settings.Extensions} {spec : Spec} {page page' : Page} {p : Element → Bool} {n : NodeId}
  {el : Element}

/-! ## The anchor -/

theorem isPlainViewport_written : isPlainViewport (written s el) = isPlainViewport el := by
  rw [isPlainViewport, isPlainViewport, tag_written, attribute?_written (by decide)]

theorem isCharset_written : Viewport.isCharset (written s el) = Viewport.isCharset el := by
  rw [Viewport.isCharset, Viewport.isCharset, tag_written, hasAttribute_written (by decide)]

section Run

variable (h : page.WellFormed)

include h

theorem isElement_stocked (hp : ∀ el, p (written s el) = p el) (hn : page.Has n) :
    (stocked s spec page).1.isElement n p = page.isElement n p := by
  have hrun : (run s spec page).page.isElement n p = page.isElement n p := isElement_run h hp hn
  rw [← hrun, Page.isElement, Page.isElement, element?_run]

/-- Writing out and importing do not show in the anchor. -/
theorem anchor?_stocked : anchor? (stocked s spec page).1 = anchorAmong isPlainViewport page (others page) := by
  have hhas (n : NodeId) (hn : n ∈ others page) : page.Has n := h.linked.has_child (List.mem_filter.mp hn).1
  rw [anchor?_eq, (stocked_sameFrame h).head, children_stocked h, if_pos rfl]
  exact anchorAmong_congr (fun n hn => isElement_stocked h (fun _ => isPlainViewport_written) (hhas n hn))
    fun n hn => isElement_stocked h (fun _ => isCharset_written) (hhas n hn)

/-- The children of the head after the pass. -/
theorem children_head_run (s : Settings.Extensions) (spec : Spec) : (run s spec page).page.children page.head
    = placeBlock (runtimeScripts page ++ nodesOf (retained s spec page))
        (anchorAmong isPlainViewport page (others page)) (others page) := by
  rw [children_run h, if_pos rfl, anchor?_stocked h]

end Run

/-! ## What the pass does to a page -/

/-- The scripts for the new extensions are new nodes, one for each of some required extensions that had no
script, in the order in which these are required. -/
structure AreImports (s : Settings.Extensions) (spec : Spec) (page page' : Page)
    (imports : List (String × NodeId)) : Prop where
  required : (imports.map (·.1)).Sublist (needs s spec page).1
  distinct : (imports.map (·.1)).Nodup
  absent : ∀ p ∈ imports, p.1 ∉ extensionNames page
  new : ∀ p ∈ imports, ¬ page.Has p.2
  script : ∀ p ∈ imports, ∃ e, Importable s spec p.1 e ∧ page'.element? p.2 = some (importElement s e)

/-- `page'` is `page` with its scripts in one block: the runtime scripts, then those of the extensions that stay,
one extension after the other as they are met first, and then the imports. The block stands behind the first
viewport, or else the first character set, or else the first of the other children of the head. Nothing else has
moved, and nothing has changed but shorthand that has been spelled out. -/
structure Placed (isViewport : Element → Bool) (s : Settings.Extensions) (spec : Spec) (page page' : Page) :
    Prop where
  frame : page.SameFrame page'
  linked : page'.Linked
  head : ∃ (kept : List String) (imports : List (String × NodeId)),
    kept.Sublist (extensionNames page) ∧ AreImports s spec page page' imports
      ∧ page'.children page.head = placeBlock
          (runtimeScripts page ++ (kept.flatMap (scriptsNamed (extensionScripts page)) ++ imports.map (·.2)))
          (anchorAmong isViewport page (others page)) (others page)
  children : ∀ x, x ≠ page.head → page'.children x = page.children x
  element : ∀ x el, page.element? x = some el → ∃ el', page'.element? x = some el' ∧ Respelled el el'
  unbound : s.renameBind = false → ∀ x, page.Has x → page'.kind? x = page.kind? x
  content : ∀ x, page.Has x → page.element? x = none → page'.kind? x = page.kind? x

/-- What the loop imports are scripts in the head of the page that comes out. -/
theorem areImports_of_imports {imports : List (String × NodeId)}
    (himports : Imports s spec (searched s page) (needs s spec page).2 (needs s spec page).1 imports
      (stocked s spec page).1 (stocked s spec page).2) :
    AreImports s spec page (run s spec page).page imports where
  required := himports.sublist
  distinct := himports.distinct
  absent p hp hmem := by
    have hgroup : hasGroup (needs s spec page).2 p.1 = true := by
      rw [hasGroup_iff_mem_outline, outline_needs, List.map_map]
      exact List.mem_map.mpr ⟨p.1, hmem, rfl⟩
    rw [himports.absent p hp] at hgroup
    cases hgroup
  new p hp hhas := himports.new p hp (has_searched.mpr hhas)
  script p hp := by
    rw [element?_run]
    exact himports.script p hp

section Placed

variable (h : page.WellFormed)

include h

/-- Every old element is at most respelled. -/
theorem respelled_run (hel : page.element? n = some el) :
    ∃ el', (run s spec page).page.element? n = some el' ∧ Respelled el el' := by
  have hhas := Page.has_of_element? hel
  rw [Page.element?_congr (kind?_run h hhas)]
  by_cases habove : (cleared page).Above page.root n
  · refine ⟨written s el, by rw [element?_searched h habove, hel]; rfl, ?_⟩
    rw [written]
    split
    · exact respelled_spellOut
    · exact .refl el
  · exact ⟨el, by rw [element?_searched_of_not_above h habove, hel], .refl el⟩

/-- A text or a comment is as it was. -/
theorem kind?_run_of_element?_eq_none (hn : page.Has n) (hnone : page.element? n = none) :
    (run s spec page).page.kind? n = page.kind? n := by
  have hmap (kind : NodeKind) (hkind : page.kind? n = some kind) (f : Element → Element) :
      kind.mapElement f = kind := by
    cases kind with
    | element el =>
      rw [Page.element?_eq_some_iff.mpr hkind] at hnone
      cases hnone
    | text content => rfl
    | comment content => rfl
  rw [kind?_run h hn]
  by_cases habove : (cleared page).Above page.root n
  · rw [kind?_searched h habove]
    cases hkind : page.kind? n with
    | none => rfl
    | some kind => rw [Option.map_some, hmap kind hkind]
  · exact kind?_searched_of_not_above h habove

/-- The pass puts the scripts into one block and leaves all else where it is. Viewports may be recognised in any
way that brings the block to the same place. -/
theorem placed_run_of_placeBlock {isViewport : Element → Bool}
    (hplace : placeBlock (runtimeScripts page ++ nodesOf (retained s spec page))
        (anchorAmong isViewport page (others page)) (others page)
      = placeBlock (runtimeScripts page ++ nodesOf (retained s spec page))
          (anchorAmong isPlainViewport page (others page)) (others page)) :
    Placed isViewport s spec page (run s spec page).page where
  frame := run_sameFrame h
  linked := (run_wellFormed h s spec).linked
  head := by
    obtain ⟨kept, imports, hkept, himports, hnodes⟩ := nodesOf_retained s spec h
    refine ⟨kept, imports, hkept, areImports_of_imports himports, ?_⟩
    rw [← hnodes, hplace, children_head_run h]
  children x hx := children_run_of_ne h hx
  element x el hel := respelled_run h hel
  unbound hrename x hx := kind?_run_of_has h hrename hx
  content x hx hnone := kind?_run_of_element?_eq_none h hx hnone

omit h in
/-- A script of the block is not one of the other children. -/
theorem not_mem_others_of_mem_block (hlinked : page.Linked) {kept : List String} {imports : List (String × NodeId)}
    (himports : AreImports s spec page page' imports)
    (hn : n ∈ runtimeScripts page ++ (kept.flatMap (scriptsNamed (extensionScripts page)) ++ imports.map (·.2))) :
    n ∉ others page := by
  intro hother
  obtain ⟨hchild, hfree⟩ := List.mem_filter.mp hother
  rw [decide_eq_true_eq] at hfree
  rcases List.mem_append.mp hn with hruntime | hn
  · exact hfree (List.mem_append_left _ hruntime)
  rcases List.mem_append.mp hn with hold | hnew
  · obtain ⟨x, -, hx⟩ := List.mem_flatMap.mp hold
    obtain ⟨p, hp, rfl⟩ := List.mem_map.mp hx
    exact hfree (List.mem_append_right _ (List.mem_map_of_mem (List.mem_filter.mp hp).1))
  · obtain ⟨p, hp, rfl⟩ := List.mem_map.mp hnew
    exact himports.new p hp (hlinked.has_child hchild)

/-- Where there is something to place, it shows which anchor was taken. -/
theorem anchor_of_placed {isViewport : Element → Bool}
    (hplaced : Placed isViewport s spec page (run s spec page).page)
    (hmoved : (run s spec page).page.children page.head ≠ others page) :
    anchorAmong isViewport page (others page) = anchorAmong isPlainViewport page (others page) := by
  obtain ⟨kept', imports', -, himports', hhead'⟩ := hplaced.head
  obtain ⟨kept, imports, hkept, himports, hnodes⟩ := nodesOf_retained s spec h
  have hhead := children_head_run h s spec
  rw [hnodes] at hhead
  cases ha : anchorAmong isViewport page (others page) with
  | none => rw [eq_nil_of_anchorAmong ha]; rfl
  | some a =>
    cases hb : anchorAmong isPlainViewport page (others page) with
    | none =>
      have hmem := mem_of_anchorAmong ha
      rw [eq_nil_of_anchorAmong hb] at hmem
      cases hmem
    | some b =>
      rw [ha] at hhead'
      rw [hb] at hhead
      refine congrArg some (placeBlock_inj ((h.linked.nodup page.head).filter _) (mem_of_anchorAmong hb)
        (mem_of_anchorAmong ha) ?_ (fun n hn => ?_) (fun n hn => ?_) (hhead.symm.trans hhead')).symm
      · intro hempty
        rw [hempty, placeBlock_nil] at hhead
        exact hmoved hhead
      · exact not_mem_others_of_mem_block h.linked (areImports_of_imports himports) hn
      · exact not_mem_others_of_mem_block h.linked himports' hn

/-- The pass puts the scripts behind the viewport exactly when its own test finds the same anchor, or when there is
nothing to put: in every page that is well-formed, as those are that are loaded, for every spec and with any
settings. -/
theorem placed_run_iff (s : Settings.Extensions) (spec : Spec) (isViewport : Element → Bool) :
    Placed isViewport s spec page (run s spec page).page
      ↔ (run s spec page).page.children page.head = others page
        ∨ anchorAmong isViewport page (others page) = anchorAmong isPlainViewport page (others page) := by
  constructor
  · intro hplaced
    by_cases hmoved : (run s spec page).page.children page.head = others page
    · exact .inl hmoved
    · exact .inr (anchor_of_placed h hplaced hmoved)
  · intro hsame
    refine placed_run_of_placeBlock h ?_
    rcases hsame with hunmoved | hanchor
    · rw [children_head_run h] at hunmoved
      rw [eq_nil_of_placeBlock ((h.linked.nodup _).filter _) (fun a ha => mem_of_anchorAmong ha) hunmoved,
        placeBlock_nil, placeBlock_nil]
    · rw [hanchor]

end Placed

/-- A page with a runtime script, a declaration of its character set and a viewport of the given name. -/
def viewportDocument (name : String) : Markup.Document :=
  ⟨none, [.element ⟨"head", []⟩ [.element ⟨"script", [⟨"src", "https://cdn.ampproject.org/v0.js"⟩]⟩ [],
    .element ⟨"meta", [⟨"charset", "utf-8"⟩]⟩ [], .element ⟨"meta", [⟨"name", name⟩]⟩ []]]⟩

/-- A head with a viewport and scripts on either side of it. -/
theorem placed_plainViewport :
    let page := Page.ofDocument (viewportDocument "viewport")
    page.WellFormed ∧ Placed Viewport.isViewport {} {} page (run {} {} page).page := by
  have h := Page.ofDocument_wellFormed (viewportDocument "viewport")
  exact ⟨h, (placed_run_iff h {} {} Viewport.isViewport).mpr (.inr (by decide +kernel))⟩

/-- The name of a viewport may be written with capital letters. -/
theorem isViewport_capital : Viewport.isViewport ⟨"meta", [⟨"name", "Viewport"⟩]⟩ = true := by
  have hname : "viewport".toLower = "Viewport".toLower := by
    rw [← String.toList_inj]
    show ("viewport".map Char.toLower).toList = ("Viewport".map Char.toLower).toList
    rw [String.toList_map, String.toList_map]
    decide
  have hattribute : (⟨"meta", [⟨"name", "Viewport"⟩]⟩ : Element).attribute? "name" = some "Viewport" := by decide
  rw [Viewport.isViewport, hattribute, Option.any_some, Text.sameIgnoringCase, hname, beq_self_eq_true,
    beq_self_eq_true, Bool.and_true]

/-- The viewport that the other passes recognise is passed over, and the script goes in front of it. -/
theorem not_placed_capitalViewport :
    let page := Page.ofDocument (viewportDocument "Viewport")
    ¬ Placed Viewport.isViewport {} {} page (run {} {} page).page := by
  intro page hplaced
  have h := Page.ofDocument_wellFormed (viewportDocument "Viewport")
  have hscript : ⟨3⟩ ∈ runtimeScripts page := by decide +kernel
  have hothers : others page = [⟨4⟩, ⟨5⟩] := by decide +kernel
  have hmoved : (run {} {} page).page.children page.head ≠ others page := by
    intro hsame
    have hmem : ⟨3⟩ ∈ (run {} {} page).page.children page.head :=
      (mem_children_run h).mpr (.inr (List.mem_append_left _ hscript))
    rw [hsame, hothers] at hmem
    exact absurd hmem (by decide)
  have hplain : anchorAmong isPlainViewport page (others page) = some ⟨4⟩ := by decide +kernel
  have hviewport : page.isElement ⟨5⟩ Viewport.isViewport = true :=
    Page.isElement_iff.mpr ⟨_, by decide +kernel, isViewport_capital⟩
  have hcharset : page.isElement ⟨4⟩ Viewport.isViewport = false := by decide +kernel
  have hfirst : (others page).find? (page.isElement · Viewport.isViewport) = some ⟨5⟩ := by
    rw [hothers, List.find?_cons_of_neg (p := (page.isElement · Viewport.isViewport)) (by rw [hcharset]; decide),
      List.find?_cons_of_pos (p := (page.isElement · Viewport.isViewport)) hviewport]
  have hanchor := anchor_of_placed h hplaced hmoved
  rw [hplain, anchorAmong, hfirst] at hanchor
  exact absurd hanchor (by decide)

end AmpTuner.Extensions
