import AmpTuner.Proofs.Extensions.Supply
import AmpTuner.Proofs.HeadOrder.Regrouping
import Mathlib.Data.List.Flatten

/-!
# Which scripts are put back

The scripts that go back into the head, in their order: of the old ones those of the extensions that stay, one
extension after the other as they are met first, and then the imports, one for each extension.

* **`outline`** is what a list of groups says besides its marks; marking does not show in it, and a script for
  an extension that has none is one entry more.
* **`Imports`** is what the loop over the required names does to a page and its groups, told by the list of the
  new scripts; `exists_imports` goes through the loop name by name.
* **`outline_retained`** puts the two together, **`nodesOf_retained`** says the same of the nodes, and no node goes
  back twice (`nodup_run_block`).
-/

namespace AmpTuner.Extensions

open Markup (Element)
open Vocabulary (extensionName? isExtensionScript)

variable {s : Settings.Extensions} {spec : Spec} {page page' : Page} {groups groups' : List Group}
  {scripts : List (String × NodeId)} {required : List String} {imports : List (String × NodeId)}
  {name x : String} {n : NodeId} {used : Bool}

/-! ## Groups without their marks -/

/-- The groups without their marks: each extension with its scripts. -/
def outline (groups : List Group) : List (String × List NodeId) := groups.map fun g => (g.name, g.nodes)

theorem nodesOf_eq_outline : nodesOf groups = (outline groups).flatMap (·.2) := by
  rw [nodesOf, outline, List.flatMap_map]

theorem hasGroup_iff_mem_outline : hasGroup groups x = true ↔ x ∈ (outline groups).map (·.1) := by
  simp [hasGroup, outline]

theorem outline_markUsed : outline (markUsed groups name) = outline groups := by
  rw [outline, markUsed_eq, List.map_map]
  exact List.map_congr_left fun g _ => by rw [Function.comp_apply, mark_name, mark_nodes]

/-- A script for an extension without a group comes last. -/
theorem outline_addScript (hname : hasGroup groups name = false) :
    outline (addScript name n used groups) = outline groups ++ [(name, [n])] := by
  rw [addScript_of_not_hasGroup hname, outline, List.map_append]
  rfl

/-- Groups stand in the order in which their extensions are met first. -/
theorem names_groupScripts : (groupScripts scripts).map (·.name) = Spec.distinct (scripts.map (·.1)) := by
  have run (groups : List Group) (found : List String) (h : groups.map (·.name) = found) :
      (scripts.foldl (fun groups s => addScript s.1 s.2 false groups) groups).map (·.name)
        = (scripts.map (·.1)).foldl
            (fun found name => if found.contains name then found else found ++ [name]) found := by
    induction scripts generalizing groups found with
    | nil => exact h
    | cons p scripts ih =>
      refine ih _ _ ?_
      simp only [names_addScript, h, List.contains_eq_mem, decide_eq_true_eq]
  exact run [] [] rfl

/-- Grouping gives each name its scripts, names in the order of their first scripts. -/
theorem outline_groupScripts : outline (groupScripts scripts)
    = (Spec.distinct (scripts.map (·.1))).map fun name => (name, scriptsNamed scripts name) := by
  rw [← names_groupScripts, List.map_map, outline]
  exact List.map_congr_left fun g hg => by rw [Function.comp_apply, (Partition.groupScripts scripts).nodes g hg]

/-- What the search has grouped are the extensions of the head; the search marks them only. -/
theorem outline_needs : outline (needs s spec page).2
    = (Spec.distinct ((extensionScripts page).map (·.1))).map fun name =>
        (name, scriptsNamed (extensionScripts page) name) :=
  requirements_groups (motive := fun groups => outline groups = _) outline_groupScripts
    fun _ _ h => outline_markUsed.trans h

/-! ## The loop over the required names -/

/-- What the loop over the required names does: it creates a script for each of some names that had none, and
puts these scripts behind the others. -/
structure Imports (s : Settings.Extensions) (spec : Spec) (page : Page) (groups : List Group)
    (required : List String) (imports : List (String × NodeId)) (page' : Page) (groups' : List Group) : Prop where
  outline : outline groups' = outline groups ++ imports.map fun p => (p.1, [p.2])
  sublist : (imports.map (·.1)).Sublist required
  distinct : (imports.map (·.1)).Nodup
  absent : ∀ p ∈ imports, hasGroup groups p.1 = false
  kinds : page.SameKinds page'
  has : ∀ n, page'.Has n ↔ page.Has n ∨ n ∈ imports.map (·.2)
  nodup : (imports.map (·.2)).Nodup
  new : ∀ p ∈ imports, ¬ page.Has p.2
  script : ∀ p ∈ imports, ∃ e, Importable s spec p.1 e ∧ page'.element? p.2 = some (importElement s e)

namespace Imports

/-- Before the loop nothing is imported. -/
theorem nil : Imports s spec page groups [] [] page groups where
  outline := (List.append_nil _).symm
  sublist := .slnil
  distinct := List.nodup_nil
  absent _ hp := by cases hp
  kinds := .refl page
  has n := by simp
  nodup := List.nodup_nil
  new _ hp := by cases hp
  script _ hp := by cases hp

/-- A name that has a group or may not be imported adds nothing. -/
theorem pass {groups₁ : List Group} (h : Imports s spec page groups₁ required imports page' groups')
    (hgroups : Extensions.outline groups₁ = Extensions.outline groups) (name : String) :
    Imports s spec page groups (name :: required) imports page' groups' where
  outline := by rw [h.outline, hgroups]
  sublist := h.sublist.cons name
  distinct := h.distinct
  absent p hp := by
    rw [Bool.eq_false_iff, Ne, hasGroup_iff_mem_outline, ← hgroups, ← hasGroup_iff_mem_outline, h.absent p hp]
    decide
  kinds := h.kinds
  has := h.has
  nodup := h.nodup
  new := h.new
  script := h.script

/-- A name that is imported is the first of the imports. -/
theorem create {e : Extension} (hname : hasGroup groups name = false) (he : Importable s spec name e)
    (h : Imports s spec (imported s page e) (addScript name page.next true groups) required imports page' groups') :
    Imports s spec page groups (name :: required) ((name, page.next) :: imports) page' groups' := by
  have hhas (n : NodeId) : (imported s page e).Has n ↔ page.Has n ∨ n = page.next := Page.has_create _
  -- the imports to come are of other names and other nodes
  have hother {p : String × NodeId} (hp : p ∈ imports) :
      (hasGroup groups p.1 = false ∧ p.1 ≠ name) ∧ ¬ page.Has p.2 ∧ p.2 ≠ page.next := by
    have habsent := Bool.eq_false_iff.mp (h.absent p hp)
    rw [Ne, hasGroup_addScript, not_or, Bool.not_eq_true] at habsent
    have hnew := h.new p hp
    rw [hhas, not_or] at hnew
    exact ⟨⟨habsent.1, Ne.symm habsent.2⟩, hnew⟩
  exact
    { outline := by rw [h.outline, outline_addScript hname, List.append_assoc]; rfl
      sublist := h.sublist.cons_cons name
      distinct := by
        refine List.nodup_cons.mpr ⟨fun hmem => ?_, h.distinct⟩
        obtain ⟨p, hp, heq⟩ := List.mem_map.mp hmem
        exact (hother hp).1.2 heq
      absent := List.forall_mem_cons.mpr ⟨hname, fun p hp => (hother hp).1.1⟩
      kinds := (Page.create_sameKinds _).trans h.kinds
      has := fun n => by rw [h.has, hhas, or_assoc, List.map_cons, List.mem_cons]
      nodup := by
        refine List.nodup_cons.mpr ⟨fun hmem => ?_, h.nodup⟩
        obtain ⟨p, hp, heq⟩ := List.mem_map.mp hmem
        exact (hother hp).2.2 heq
      new := List.forall_mem_cons.mpr ⟨Page.not_has_next, fun p hp => (hother hp).2.1⟩
      script := List.forall_mem_cons.mpr ⟨⟨e, he, h.kinds.element?
        (Page.element?_eq_some_iff.mpr (Page.kind?_create_next _))⟩, h.script⟩ }

end Imports

/-- Name by name: the scripts that are created are those that are put behind the others. -/
theorem exists_imports (s : Settings.Extensions) (spec : Spec) (page : Page) (groups : List Group)
    (required : List String) : ∃ imports, Imports s spec page groups required imports
      (required.foldl (require s spec) (page, groups)).1 (required.foldl (require s spec) (page, groups)).2 := by
  induction required generalizing page groups with
  | nil => exact ⟨[], .nil⟩
  | cons name required ih =>
    rw [List.foldl_cons]
    rcases require_cases s spec page groups name with ⟨-, heq⟩ | ⟨-, -, heq⟩ | ⟨e, hname, he, heq⟩ <;> rw [heq]
    · obtain ⟨imports, himports⟩ := ih page (markUsed groups name)
      exact ⟨imports, himports.pass outline_markUsed name⟩
    · obtain ⟨imports, himports⟩ := ih page groups
      exact ⟨imports, himports.pass rfl name⟩
    · obtain ⟨imports, himports⟩ := ih (imported s page e) (addScript name page.next true groups)
      exact ⟨(name, page.next) :: imports, .create hname he himports⟩

/-! ## What goes back -/

/-- The extensions that have scripts in the head, in the order in which they are met first. -/
def extensionNames (page : Page) : List String := Spec.distinct ((extensionScripts page).map (·.1))

theorem isNeeded_of_mem_needs (h : page.WellFormed) {g : Group} (hg : g ∈ (stocked s spec page).2)
    (hname : g.name ∈ (needs s spec page).1) (kept : List String) : isNeeded kept g = true := by
  rw [isNeeded, (stocked_spec s spec h).marked g.name hname g hg rfl, Bool.true_or]

/-- Where the nodes of groups go by their names, so do the names. -/
theorem map_name_of_outline {names : List String} {nodes : String → List NodeId}
    (h : outline groups = names.map fun name => (name, nodes name)) : groups.map (·.name) = names := by
  have hfst := congrArg (List.map Prod.fst) h
  simpa [outline, List.map_map, Function.comp_def] using hfst

/-- Where the nodes of groups go by their names, so do those of the groups that are kept. -/
theorem outline_filter_of_outline {names : List String} {nodes : String → List NodeId}
    (h : outline groups = names.map fun name => (name, nodes name)) (p : Group → Bool) :
    outline (groups.filter p) = ((groups.filter p).map (·.name)).map fun name => (name, nodes name) := by
  rw [outline, List.map_map]
  refine List.map_congr_left fun g hg => ?_
  have hmem : (g.name, g.nodes) ∈ names.map fun name => (name, nodes name) :=
    h ▸ List.mem_map_of_mem (List.mem_filter.mp hg).1
  obtain ⟨name, -, heq⟩ := List.mem_map.mp hmem
  obtain ⟨rfl, hnodes⟩ := Prod.mk.inj heq
  rw [Function.comp_apply, hnodes]

/-- Of the old extensions some go back, each with all its scripts, and behind them all imports. -/
theorem outline_retained (s : Settings.Extensions) (spec : Spec) (h : page.WellFormed) : ∃ kept imports,
    kept.Sublist (extensionNames page) ∧ (s.removeUnused = false → kept = extensionNames page)
      ∧ Imports s spec (searched s page) (needs s spec page).2 (needs s spec page).1 imports
          (stocked s spec page).1 (stocked s spec page).2
      ∧ outline (retained s spec page)
          = (kept.map fun name => (name, scriptsNamed (extensionScripts page) name))
            ++ imports.map fun p => (p.1, [p.2]) := by
  obtain ⟨imports, himports⟩ :=
    exists_imports s spec (searched s page) (needs s spec page).2 (needs s spec page).1
  have hstocked : outline (stocked s spec page).2
      = ((extensionNames page).map fun name => (name, scriptsNamed (extensionScripts page) name))
        ++ imports.map fun p => (p.1, [p.2]) := himports.outline.trans (by rw [outline_needs, extensionNames])
  cases hremove : s.removeUnused with
  | false =>
    refine ⟨extensionNames page, imports, .refl _, fun _ => rfl, himports, ?_⟩
    rw [retained, hremove, if_neg (by decide), hstocked]
  | true =>
    obtain ⟨old, new, hsplit, hold, hnew⟩ := List.map_eq_append_iff.mp hstocked
    have hkept : (retained s spec page) = old.filter (isNeeded (keptAlone (stocked s spec page).2)) ++ new := by
      rw [retained, hremove, if_pos rfl, dropUnused]
      nth_rewrite 2 [hsplit]
      rw [List.filter_append]
      congr 1
      -- an import is there because it is required
      refine List.filter_eq_self.mpr fun g hg => ?_
      have hname : g.name ∈ (needs s spec page).1 := by
        refine himports.sublist.subset ?_
        have hmem : (g.name, g.nodes) ∈ imports.map fun p => (p.1, [p.2]) := hnew ▸ List.mem_map_of_mem hg
        obtain ⟨p, hp, heq⟩ := List.mem_map.mp hmem
        exact List.mem_map.mpr ⟨p, hp, congrArg Prod.fst heq⟩
      exact isNeeded_of_mem_needs h (hsplit ▸ List.mem_append_right old hg) hname _
    refine ⟨(old.filter (isNeeded (keptAlone (stocked s spec page).2))).map (·.name), imports, ?_,
      by simp, himports, ?_⟩
    · rw [← map_name_of_outline hold]
      exact List.filter_sublist.map _
    · rw [hkept, outline, List.map_append, hnew, ← outline_filter_of_outline hold, outline]

/-- What goes back are the scripts of some of the old names, in order, and behind them the imports. -/
theorem nodesOf_retained (s : Settings.Extensions) (spec : Spec) (h : page.WellFormed) :
    ∃ (kept : List String) (imports : List (String × NodeId)), kept.Sublist (extensionNames page)
    ∧ Imports s spec (searched s page) (needs s spec page).2 (needs s spec page).1 imports
        (stocked s spec page).1 (stocked s spec page).2
    ∧ nodesOf (retained s spec page)
        = kept.flatMap (scriptsNamed (extensionScripts page)) ++ imports.map (·.2) := by
  obtain ⟨kept, imports, hkept, -, himports, houtline⟩ := outline_retained s spec h
  refine ⟨kept, imports, hkept, himports, ?_⟩
  rw [nodesOf_eq_outline, houtline, List.flatMap_append, List.flatMap_map, List.flatMap_map, List.map_eq_flatMap]

/-- The extension scripts of the head, as children. -/
theorem map_snd_extensionScripts : (extensionScripts page).map (·.2)
    = (page.elementChildren page.head).filter (page.isElement · isExtensionScript) := by
  rw [extensionScripts, List.map_filterMap, ← List.filterMap_eq_filter]
  refine List.filterMap_congr fun n _ => ?_
  unfold Page.isElement
  cases hel : page.element? n with
  | none => simp [Option.guard, hel]
  | some el => cases hname : extensionName? el <;> simp [Option.guard, hel, isExtensionScript, hname]

/-- No script goes back twice. -/
theorem nodup_retained (h : page.WellFormed) : (nodesOf (retained s spec page)).Nodup := by
  have hchildren : (page.elementChildren page.head).Nodup := (h.linked.nodup page.head).filter _
  obtain ⟨kept, imports, hkept, himports, hnodes⟩ := nodesOf_retained s spec h
  have hpartition := Partition.groupScripts (extensionScripts page)
  -- the old scripts are among those that were taken out, and the new ones are new
  have hold : (kept.flatMap (scriptsNamed (extensionScripts page))).Sublist
      (nodesOf (groupScripts (extensionScripts page))) := by
    rw [nodesOf_eq_outline, outline_groupScripts, List.flatMap_map]
    exact hkept.flatMap _
  rw [hnodes]
  refine List.nodup_append.mpr ⟨(hpartition.nodup_nodesOf ?_).sublist hold, himports.nodup, ?_⟩
  · rw [map_snd_extensionScripts]
    exact hchildren.filter _
  · rintro n hn m hm rfl
    obtain ⟨x, hx⟩ := hpartition.mem_nodesOf.mp (hold.subset hn)
    obtain ⟨p, hp, heq⟩ := List.mem_map.mp hm
    have hparent := ((mem_extensionScripts_iff h.linked).mp hx).1
    exact himports.new p hp (heq ▸ has_searched.mpr (Page.has_of_parent? hparent))

/-- No script stands twice in the block. -/
theorem nodup_run_block (h : page.WellFormed) : (runtimeScripts page ++ nodesOf (retained s spec page)).Nodup := by
  have hchildren : (page.elementChildren page.head).Nodup := (h.linked.nodup page.head).filter _
  refine List.nodup_append.mpr ⟨hchildren.filter _, nodup_retained h, ?_⟩
  -- a runtime script declares no extension
  rintro n hn m hm rfl
  obtain ⟨hparent, el, hel, hruntime⟩ := (mem_runtimeScripts_iff h.linked).mp hn
  obtain ⟨x, hheld⟩ := mem_nodesOf_iff.mp hm
  rcases origin_of_holds_retained h hheld with hold | ⟨hnew, -⟩
  · obtain ⟨-, el', hel', hname⟩ := (mem_extensionScripts_iff h.linked).mp hold
    obtain rfl := Option.some.inj (hel.symm.trans hel')
    rw [HeadOrder.isRuntimeScript_of_extensionName? hname] at hruntime
    cases hruntime
  · exact hnew (Page.has_of_parent? hparent)

end AmpTuner.Extensions
