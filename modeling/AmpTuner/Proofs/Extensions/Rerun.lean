import AmpTuner.Proofs.Extensions.Completion
import AmpTuner.Proofs.Extensions.Placement

/-!
# A second run

What the pass has done it does not do again. The second run finds the scripts where the first one has put them, takes
them out and puts them back.

* **`outline_groupScripts_scriptsOf`**: groups that are written out one behind the other are found again, in order.
* **`complete_run`**: nothing is missing after the first run, and nothing is there to be dropped.
* **`children_head_run_run`** and **`kind?_run_run`**: so the head stays as it is, and every other node.
* **`toHtml_run_run`** is the result. It asks the spec to name its extensions, since a script without a name is not
  known for one again.
-/

namespace AmpTuner.Extensions

open Markup (Element)
open Vocabulary (extensionName? isRuntimeScript isExtensionScript)
open HeadOrder (isGathered)

variable {s : Settings.Extensions} {spec : Spec} {page : Page} {groups : List Group} {n : NodeId}

/-! ## Groups are found again -/

/-- The scripts of the last group join it. -/
theorem foldl_addScript_last {g : Group} (hname : hasGroup groups g.name = false) (nodes : List NodeId) :
    (nodes.map (g.name, ·)).foldl (fun groups s => addScript s.1 s.2 false groups) (groups ++ [g])
      = groups ++ [{ g with nodes := g.nodes ++ nodes }] := by
  induction nodes generalizing g with
  | nil => rw [List.append_nil]; rfl
  | cons n nodes ih =>
    have hadd : addScript g.name n false [g] = [{ g with nodes := g.nodes ++ [n] }] := by
      rw [addScript, if_pos rfl, Bool.or_false]
    have hrest := ih (g := { g with nodes := g.nodes ++ [n] }) hname
    rw [List.map_cons, List.foldl_cons, addScript_append hname, hadd, hrest, List.append_assoc]
    rfl

/-- The scripts of the groups, one group behind the other. -/
def scriptsOf (groups : List Group) : List (String × NodeId) := groups.flatMap fun g => g.nodes.map (g.name, ·)

/-- Group by group: its first script begins a group, which the others join. -/
theorem outline_groupScripts_scriptsOf (hfilled : Filled groups) (hdistinct : (groups.map (·.name)).Nodup) :
    outline (groupScripts (scriptsOf groups)) = outline groups := by
  have run (before groups : List Group) (hfilled : Filled groups)
      (hdistinct : ((before ++ groups).map (·.name)).Nodup) :
      outline ((scriptsOf groups).foldl (fun groups s => addScript s.1 s.2 false groups) before)
        = outline (before ++ groups) := by
    induction groups generalizing before with
    | nil => rw [List.append_nil]; rfl
    | cons g groups ih =>
      obtain ⟨hg, hfilled⟩ := List.forall_mem_cons.mp hfilled
      obtain ⟨n, nodes, hnodes⟩ := List.exists_cons_of_ne_nil hg
      have hname : hasGroup before g.name = false := by
        rw [Bool.eq_false_iff]
        intro hgroup
        obtain ⟨g', hg', heq⟩ := hasGroup_iff.mp hgroup
        rw [List.map_append, List.map_cons] at hdistinct
        exact (List.nodup_append.mp hdistinct).2.2 _ (List.mem_map_of_mem hg') _ List.mem_cons_self heq
      have hjoined : (g.nodes.map (g.name, ·)).foldl (fun groups s => addScript s.1 s.2 false groups) before
          = before ++ [⟨g.name, g.nodes, false⟩] := by
        rw [hnodes, List.map_cons, List.foldl_cons, addScript_of_not_hasGroup hname]
        exact foldl_addScript_last (g := ⟨g.name, [n], false⟩) hname nodes
      rw [scriptsOf, List.flatMap_cons, List.foldl_append, hjoined, ← scriptsOf, ih _ hfilled]
      · simp [outline]
      · simpa using hdistinct
  exact run [] groups hfilled hdistinct

/-- The groups that are kept have different names. -/
theorem nodup_names_retained (h : page.WellFormed) : ((retained s spec page).map (·.name)).Nodup := by
  obtain ⟨kept, imports, hkept, -, himports, houtline⟩ := outline_retained s spec h
  have hnames : (retained s spec page).map (·.name) = kept ++ imports.map (·.1) := by
    have hfst := congrArg (List.map Prod.fst) houtline
    simpa [outline, Function.comp_def] using hfst
  have hold : (extensionNames page).Nodup := by
    rw [extensionNames, ← names_groupScripts]
    exact (Partition.groupScripts _).distinct
  rw [hnames]
  refine List.nodup_append.mpr ⟨hold.sublist hkept, himports.distinct, ?_⟩
  -- an import is for an extension that had no group
  rintro name hname y hy rfl
  obtain ⟨p, hp, rfl⟩ := List.mem_map.mp hy
  have hgroup : hasGroup (needs s spec page).2 p.1 = true := by
    rw [hasGroup_iff_mem_outline, outline_needs, List.map_map]
    exact List.mem_map.mpr ⟨p.1, hkept.subset hname, rfl⟩
  rw [himports.absent p hp] at hgroup
  cases hgroup

/-! ## The head after the first run -/

section Run

variable (h : page.WellFormed) (hnamed : spec.extension? "" = none)

include h

/-- The other children are not in the block. -/
theorem not_mem_block_of_mem_others (hn : n ∈ others page) :
    n ∉ runtimeScripts page ++ nodesOf (retained s spec page) := by
  intro hblock
  obtain ⟨hchild, hfree⟩ := List.mem_filter.mp hn
  have hparent := parent?_cleared_iff.mpr ⟨(h.linked.mem_children_iff _ _).mp hchild, of_decide_eq_true hfree⟩
  rw [parent?_cleared_of_mem_block h hblock] at hparent
  cases hparent

/-- What is read off the scripts of the head is read off the block. -/
theorem filterMap_head_run {α : Type} {f : NodeId → Option α}
    (hf : ∀ n, (run s spec page).page.isElement n isGathered = false → f n = none) :
    ((run s spec page).page.children page.head).filterMap f
      = (runtimeScripts page ++ nodesOf (retained s spec page)).filterMap f := by
  obtain ⟨front, back, hothers, hchildren⟩ := exists_children_head_run h s spec
  have hnone {L : List NodeId} (hL : ∀ n ∈ L, n ∈ others page) : L.filterMap f = [] := by
    refine List.filterMap_eq_nil_iff.mpr fun n hn => hf n ?_
    obtain ⟨hchild, hfree⟩ := List.mem_filter.mp (hL n hn)
    exact not_script_of_not_mem_taken h s spec hchild (of_decide_eq_true hfree)
  rw [hchildren, List.filterMap_append, List.filterMap_append,
    hnone fun n hn => hothers ▸ List.mem_append_left back hn,
    hnone fun n hn => hothers ▸ List.mem_append_right front hn, List.nil_append, List.append_nil]

include hnamed

/-- Every node of the groups declares the extension of its group. -/
theorem extensionName?_run_of_mem {g : Group} (hg : g ∈ retained s spec page) (hn : n ∈ g.nodes) :
    ((run s spec page).page.element? n).bind extensionName? = some g.name := by
  have hheld : Holds (retained s spec page) g.name n := ⟨g, hg, rfl, hn⟩
  obtain ⟨el, hel, hname⟩ := extensionName?_of_holds_retained h hheld (ne_empty_of_holds h hnamed hheld)
  rw [hel, Option.bind_some, hname]

/-- The scripts that a second run finds, in their order. -/
theorem extensionScripts_run : extensionScripts (run s spec page).page = scriptsOf (retained s spec page) := by
  have hchildren : extensionScripts (run s spec page).page
      = ((run s spec page).page.children page.head).filterMap fun n =>
          (((run s spec page).page.element? n).bind extensionName?).map (·, n) := by
    rw [extensionScripts, Page.elementChildren, head_run h, List.filterMap_filter]
    refine List.filterMap_congr fun n _ => ?_
    cases (run s spec page).page.element? n <;> rfl
  have hgroups : (nodesOf (retained s spec page)).filterMap (fun n =>
      (((run s spec page).page.element? n).bind extensionName?).map (·, n)) = scriptsOf (retained s spec page) := by
    rw [nodesOf, List.filterMap_flatMap, scriptsOf]
    refine List.flatMap_congr fun g hg => ?_
    rw [← List.filterMap_eq_map]
    exact List.filterMap_congr fun n hn => by rw [extensionName?_run_of_mem h hnamed hg hn]; rfl
  rw [hchildren, filterMap_head_run h, List.filterMap_append, hgroups]
  · refine (congrArg (· ++ _) (List.filterMap_eq_nil_iff.mpr fun n hn => ?_)).trans (List.nil_append _)
    -- a runtime script declares no extension
    obtain ⟨-, el, hel, hruntime⟩ := (mem_runtimeScripts_iff h.linked).mp hn
    rw [element?_run_of_mem_taken h (List.mem_append_left _ hn), hel, Option.bind_some]
    cases hname : extensionName? el with
    | none => rfl
    | some x =>
      rw [HeadOrder.isRuntimeScript_of_extensionName? hname] at hruntime
      cases hruntime
  · intro n hn
    cases hel : (run s spec page).page.element? n with
    | none => rfl
    | some el =>
      rw [Page.isElement, hel, Option.any_some, isGathered, Bool.or_eq_false_iff, isExtensionScript,
        Option.isSome_eq_false_iff, Option.isNone_iff_eq_none] at hn
      rw [Option.bind_some, hn.2]
      rfl

/-- A second run finds the same runtime scripts. -/
theorem runtimeScripts_run : runtimeScripts (run s spec page).page = runtimeScripts page := by
  have hchildren : runtimeScripts (run s spec page).page = ((run s spec page).page.children page.head).filterMap
      (Option.guard ((run s spec page).page.isElement · isRuntimeScript)) := by
    rw [runtimeScripts, Page.elementChildren, head_run h, List.filter_filter, List.filterMap_eq_filter]
    refine List.filter_congr fun n _ => ?_
    rw [Page.isElement]
    cases (run s spec page).page.element? n <;> simp
  rw [hchildren, filterMap_head_run h, List.filterMap_eq_filter, List.filter_append, List.filter_eq_self.mpr,
    List.filter_eq_nil_iff.mpr, List.append_nil]
  -- the scripts of the groups declare their extensions
  · intro n hn
    obtain ⟨g, hg, hmem⟩ := List.mem_flatMap.mp hn
    obtain ⟨el, hel, hname⟩ := Option.bind_eq_some_iff.mp (extensionName?_run_of_mem h hnamed hg hmem)
    rw [Page.isElement, hel, Option.any_some, HeadOrder.isRuntimeScript_of_extensionName? hname]
    decide
  · intro n hn
    obtain ⟨-, el, hel, hruntime⟩ := (mem_runtimeScripts_iff h.linked).mp hn
    rw [Page.isElement, element?_run_of_mem_taken h (List.mem_append_left _ hn), hel, Option.any_some, hruntime]
  · intro n hn
    rw [Option.guard_eq_none_iff, Page.isElement]
    cases hel : (run s spec page).page.element? n with
    | none => rfl
    | some el =>
      rw [Page.isElement, hel, Option.any_some, isGathered, Bool.or_eq_false_iff] at hn
      rw [Option.any_some, hn.1]

/-- A second run finds the same other children. -/
theorem others_run : others (run s spec page).page = others page := by
  obtain ⟨front, back, hothers, hchildren⟩ := exists_children_head_run h s spec
  have hkept {L : List NodeId} (hL : ∀ n ∈ L, n ∈ others page) :
      L.filter (· ∉ taken (run s spec page).page) = L := by
    refine List.filter_eq_self.mpr fun n hn => decide_eq_true fun htaken => ?_
    exact not_mem_block_of_mem_others h (hL n hn) (mem_block_of_mem_taken_run h htaken)
  have hblock : (runtimeScripts page ++ nodesOf (retained s spec page)).filter
      (· ∉ taken (run s spec page).page) = [] := by
    refine List.filter_eq_nil_iff.mpr fun n hn => ?_
    rw [decide_eq_true_eq, not_not]
    exact (mem_taken_run_iff h hnamed).mpr hn
  rw [others, head_run h, hchildren, List.filter_append, List.filter_append, hblock, List.nil_append,
    hkept fun n hn => hothers ▸ List.mem_append_left back hn,
    hkept fun n hn => hothers ▸ List.mem_append_right front hn, hothers]

/-! ## The second run -/

theorem complete_run : Complete s spec (run s spec page).page :=
  complete_of_sameDemand h (run_wellFormed h s spec) hnamed (sameDemand_run h hnamed) fun _ _ => Iff.rfl

/-- The same scripts go back in the same order. -/
theorem nodesOf_retained_run :
    nodesOf (retained s spec (run s spec page).page) = nodesOf (retained s spec page) := by
  have hcomplete : Complete s spec (run s spec page).page := complete_run h hnamed
  rw [nodesOf_eq_outline, nodesOf_eq_outline, hcomplete.outline_retained, extensionScripts_run h hnamed,
    outline_groupScripts_scriptsOf (filled_retained h) (nodup_names_retained h)]

/-- A second run leaves the head as it is. -/
theorem children_head_run_run : (run s spec (run s spec page).page).page.children page.head
    = (run s spec page).page.children page.head := by
  have hhas (n : NodeId) (hn : n ∈ others page) : page.Has n := h.linked.has_child (List.mem_filter.mp hn).1
  have hanchor : anchorAmong isPlainViewport (run s spec page).page (others page)
      = anchorAmong isPlainViewport page (others page) :=
    anchorAmong_congr (fun n hn => isElement_run h (fun _ => isPlainViewport_written) (hhas n hn))
      fun n hn => isElement_run h (fun _ => isCharset_written) (hhas n hn)
  have hsecond := children_head_run (run_wellFormed h s spec) s spec
  rw [head_run h, runtimeScripts_run h hnamed, nodesOf_retained_run h hnamed, others_run h hnamed, hanchor] at hsecond
  rw [hsecond, children_head_run h]

/-- The second run creates nothing and spells nothing out. -/
theorem kind?_run_run : (run s spec (run s spec page).page).page.kind? n = (run s spec page).page.kind? n := by
  have hwell := run_wellFormed h s spec
  rw [page_run, kind?_insertBlock, (complete_run h hnamed).stocked_page]
  by_cases habove : (cleared (run s spec page).page).Above (run s spec page).page.root n
  · rw [kind?_searched hwell habove]
    -- in reach everything is written out already
    rw [above_cleared_iff hwell, inReach_run_iff h hnamed, ← above_cleared_iff h] at habove
    obtain ⟨p, hp, -⟩ := Page.above_iff.mp habove
    have hhas : page.Has n := Page.has_of_parent? (parent?_cleared_iff.mp hp).1
    rw [kind?_run h hhas, kind?_searched h habove, Option.map_map]
    refine congrArg (Option.map · _) (funext fun kind => ?_)
    cases kind with
    | element el => exact congrArg NodeKind.element written_written
    | text content => rfl
    | comment content => rfl
  · exact kind?_searched_of_not_above hwell habove

end Run

/-- Twice is as good as once: for every page that is well-formed, as those are that are loaded, with any settings, and
for every spec that names its extensions. -/
theorem toHtml_run_run (h : page.WellFormed) (s : Settings.Extensions) (spec : Spec)
    (hnamed : ∀ rule ∈ spec.tags, ∀ e ∈ rule.extension, e.name ≠ "") :
    (run s spec (run s spec page).page).page.toHtml = (run s spec page).page.toHtml := by
  have hnone : spec.extension? "" = none := by
    refine List.findSome?_eq_none_iff.mpr fun rule hrule => Option.filter_eq_none_iff.mpr fun e he => ?_
    simpa using hnamed rule hrule e he
  have hwell := run_wellFormed h s spec
  have hframe : (run s spec page).page.SameFrame (run s spec (run s spec page).page).page := run_sameFrame hwell
  have hchildren (x : NodeId) : (run s spec (run s spec page).page).page.children x
      = (run s spec page).page.children x := by
    by_cases hx : x = page.head
    · rw [hx, children_head_run_run h hnone]
    · exact children_run_of_ne hwell ((head_run h).symm ▸ hx)
  have htree : (run s spec (run s spec page).page).page.treeOf (run s spec page).page.root
      = (run s spec page).page.treeOf (run s spec page).page.root :=
    hwell.linked.treeOf_congr (run_wellFormed hwell s spec).linked (S := fun _ => True) (fun _ _ _ _ => trivial)
      (fun _ _ => kind?_run_run h hnone) (fun x _ => hchildren x) trivial
  rw [Page.toHtml, Page.toHtml, Page.toDocument, Page.toDocument, hframe.doctype, hframe.root, htree]

/-- A head in which the first run has everything to do, and a form with shorthand. -/
def scatteredScripts : Markup.Document :=
  ⟨none, [.element ⟨"head", []⟩
      [.element ⟨"script", [⟨"custom-element", "amp-bind"⟩]⟩ [],
        .element ⟨"meta", [⟨"charset", "utf-8"⟩]⟩ [],
        .element ⟨"script", [⟨"custom-element", "amp-carousel"⟩]⟩ [],
        .element ⟨"meta", [⟨"name", "viewport"⟩]⟩ [],
        .element ⟨"script", [⟨"src", "https://cdn.ampproject.org/v0.js"⟩]⟩ []],
    .element ⟨"body", []⟩ [.element ⟨"form", [⟨"bind-hidden", "x"⟩]⟩ []]]⟩

/-- A page on which the first run has everything to do: to drop, to keep, to import and to gather. -/
theorem toHtml_run_run_scatteredScripts :
    let page := Page.ofDocument scatteredScripts
    let s : Settings.Extensions := { renameBind := true }
    page.WellFormed ∧ (∀ rule ∈ formSpec.tags, ∀ e ∈ rule.extension, e.name ≠ "")
      ∧ (run s formSpec (run s formSpec page).page).page.toHtml = (run s formSpec page).page.toHtml := by
  have h := Page.ofDocument_wellFormed scatteredScripts
  have hnamed : ∀ rule ∈ formSpec.tags, ∀ e ∈ rule.extension, e.name ≠ "" := by decide
  exact ⟨h, hnamed, toHtml_run_run h { renameBind := true } formSpec hnamed⟩

end AmpTuner.Extensions
