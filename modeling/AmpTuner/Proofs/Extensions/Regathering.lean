import AmpTuner.Proofs.Extensions.Demand

/-!
# Extension scripts when nothing is missing

Where every required extension has its scripts and no script is without use, the pass takes the scripts out of
the head and puts all of them back in one block.

* **`Complete`** is for pages that lack nothing and have nothing to spare, and **`regathered_run`** is what
  the pass does to them.
-/

namespace AmpTuner.Extensions

open Markup (Element)
open Vocabulary (extensionName? isRuntimeScript isExtensionScript)
open HeadOrder (Gathered isGathered)

variable {s : Settings.Extensions} {spec : Spec} {page : Page} {groups : List Group}
  {name x : String} {n m : NodeId}

/-! ## Nothing missing and nothing to spare -/

/-- Every required extension has a group, or may not be imported, and every group is needed if others go. -/
structure Complete (s : Settings.Extensions) (spec : Spec) (page : Page) : Prop where
  supplied : ∀ x ∈ (needs s spec page).1,
    hasGroup (needs s spec page).2 x = true ∨ ∀ e, ¬ Importable s spec x e
  needed : s.removeUnused = true →
    ∀ g ∈ (stocked s spec page).2, isNeeded (keptAlone (stocked s spec page).2) g = true

/-- There is nothing to mark without a group. -/
theorem markUsed_of_not_hasGroup (h : hasGroup groups name = false) : markUsed groups name = groups := by
  rw [markUsed_eq]
  refine (List.map_congr_left fun g hg => if_neg ?_).trans (List.map_id _)
  intro heq
  rw [hasGroup_iff.mpr ⟨g, hg, heq⟩] at h
  cases h

/-- Without imports the loop over the required names marks groups and nothing else. -/
theorem foldl_require_of_supplied {required : List String}
    (h : ∀ x ∈ required, hasGroup groups x = true ∨ ∀ e, ¬ Importable s spec x e) :
    required.foldl (require s spec) (page, groups) = (page, required.foldl markUsed groups) := by
  induction required generalizing groups with
  | nil => rfl
  | cons name required ih =>
    obtain ⟨hname, hrest⟩ := List.forall_mem_cons.mp h
    have hstep : require s spec (page, groups) name = (page, markUsed groups name) := by
      rcases require_cases s spec page groups name with ⟨_, heq⟩ | ⟨hnone, _, heq⟩ | ⟨e, hnone, he, _⟩
      · exact heq
      · rw [heq, markUsed_of_not_hasGroup hnone]
      · rw [hnone] at hname
        exact absurd he (hname.resolve_left (by decide) e)
    rw [List.foldl_cons, List.foldl_cons, hstep]
    exact ih fun x hx => by rw [hasGroup_markUsed]; exact hrest x hx

/-- Where nothing is imported, the groups are those of the scripts in the head, but for their marks. -/
theorem stocked_induction {motive : List Group → Prop}
    (hsupplied : ∀ x ∈ (needs s spec page).1, hasGroup (needs s spec page).2 x = true ∨ ∀ e, ¬ Importable s spec x e)
    (hscripts : motive (groupScripts (extensionScripts page)))
    (hmark : ∀ groups name, motive groups → motive (markUsed groups name)) : motive (stocked s spec page).2 := by
  have run (required : List String) (groups : List Group) (hgroups : motive groups) :
      motive (required.foldl markUsed groups) := by
    induction required generalizing groups with
    | nil => exact hgroups
    | cons name required ih => exact ih _ (hmark groups name hgroups)
  have hneeds : motive (needs s spec page).2 := requirements_groups hscripts hmark
  rw [stocked, foldl_require_of_supplied hsupplied]
  exact run _ _ hneeds

namespace Complete

variable (h : Complete s spec page)

include h

/-- Nothing is created. -/
theorem stocked_page : (stocked s spec page).1 = searched s page := by
  rw [stocked, foldl_require_of_supplied h.supplied]

/-- Nothing is dropped. -/
theorem retained_eq : retained s spec page = (stocked s spec page).2 := by
  rw [retained]
  split
  · next hremove => exact List.filter_eq_self.mpr (h.needed hremove)
  · rfl

theorem partition : Partition (extensionScripts page) (retained s spec page) := by
  rw [h.retained_eq]
  exact stocked_induction h.supplied (.groupScripts _) fun _ name hgroups => hgroups.markUsed name

theorem outline_retained : outline (retained s spec page) = outline (groupScripts (extensionScripts page)) := by
  rw [h.retained_eq]
  exact stocked_induction (motive := (outline · = _)) h.supplied rfl fun _ _ hgroups => outline_markUsed.trans hgroups

end Complete

/-! ## The page after the pass -/

/-- The scripts of a name, as children of the head. -/
theorem scriptsNamed_extensionScripts : scriptsNamed (extensionScripts page) name
    = (page.elementChildren page.head).filter fun n => (page.element? n).bind extensionName? == some name := by
  rw [scriptsNamed, extensionScripts, List.filter_filterMap, List.map_filterMap, ← List.filterMap_eq_filter]
  refine List.filterMap_congr fun n _ => ?_
  cases hname : (page.element? n).bind extensionName? with
  | none => simp [Option.guard, hname]
  | some other => by_cases heq : other = name <;> simp [Option.guard, Option.filter, hname, heq]

theorem pair_sublist_filter {xs : List NodeId} {p : NodeId → Bool} (hxy : [n, m].Sublist xs) (hn : p n = true)
    (hm : p m = true) : [n, m].Sublist (xs.filter p) := by
  simpa [hn, hm] using hxy.filter p

/-- The scripts of the head have been gathered, and nothing else has happened. -/
structure Regathered (page page' : Page) : Prop where
  wellFormed : page'.WellFormed
  frame : page.SameFrame page'
  kind? : ∀ x, page'.kind? x = page.kind? x
  parent? : ∀ x, page'.parent? x = page.parent? x
  children : ∀ x, x ≠ page.head → page'.children x = page.children x
  gathered : Gathered page (page.children page.head) (page'.children page.head)

section Run

variable (h : page.WellFormed) (hcomplete : Complete s spec page)

include h hcomplete

omit h in
/-- On a complete page the block is made of what was taken. -/
theorem mem_block_iff : n ∈ runtimeScripts page ++ nodesOf (retained s spec page) ↔ n ∈ taken page := by
  rw [taken, List.mem_append, List.mem_append, hcomplete.partition.mem_nodesOf, List.mem_map]
  refine or_congr_right ⟨?_, ?_⟩
  · rintro ⟨name, hn⟩
    exact ⟨(name, n), hn, rfl⟩
  · rintro ⟨⟨name, n⟩, hn, rfl⟩
    exact ⟨name, hn⟩

/-- Nothing leaves the head of a complete page and nothing comes in. -/
theorem parent?_run_of_complete : (run s spec page).page.parent? n = page.parent? n := by
  rw [parent?_run h]
  by_cases hn : n ∈ taken page
  · rw [if_pos ((mem_block_iff hcomplete).mpr hn), ((mem_taken_iff h.linked).mp hn).1]
  · rw [if_neg fun hmem => hn ((mem_block_iff hcomplete).mp hmem), cleared, Page.parent?_detachAll,
      if_neg hn]

omit h in
theorem kind?_run_of_complete (hrename : s.renameBind = false) :
    (run s spec page).page.kind? n = page.kind? n := by
  rw [page_run, kind?_insertBlock, hcomplete.stocked_page, searched, if_neg (by rw [hrename]; decide), kind?_cleared]

/-- The head of a complete page is only gathered. -/
theorem gathered_run :
    Gathered page (page.children page.head) ((run s spec page).page.children page.head) := by
  have hwell : (run s spec page).page.WellFormed := run_wellFormed h s spec
  have hnodup := h.linked.nodup page.head
  obtain ⟨front, back, hfilter, hrun⟩ := exists_children_head_run h s spec
  rw [others] at hfilter
  have hsome {x : NodeId} {p : Element → Bool} (hx : page.isElement x p = true) : (page.element? x).isSome = true := by
    obtain ⟨el, hel, -⟩ := Page.isElement_iff.mp hx
    rw [hel]
    rfl
  refine { perm := ?_, others := ?_, runtime := ?_, extension := ?_ }
  · refine (List.perm_ext_iff_of_nodup (hwell.linked.nodup _) hnodup).mpr fun n => ?_
    rw [hwell.linked.mem_children_iff, h.linked.mem_children_iff,
      parent?_run_of_complete h hcomplete]
  · intro x y hxy hx hy
    have hnot {z : NodeId} (hz : z ∈ page.children page.head) (hzg : page.isElement z isGathered = false) :
        decide (z ∉ taken page) = true := by
      rw [decide_eq_true_eq, mem_taken_iff_isGathered h.linked hz, hzg]
      decide
    have hkeptPair : [x, y].Sublist ((page.children page.head).filter (· ∉ taken page)) :=
      pair_sublist_filter hxy (hnot (hxy.subset (by simp)) hx) (hnot (hxy.subset (by simp)) hy)
    rw [hfilter] at hkeptPair
    rw [hrun]
    exact hkeptPair.trans ((List.Sublist.refl _).append (List.sublist_append_right _ _))
  · intro x y hxy hx hy
    have hpair : [x, y].Sublist (runtimeScripts page) :=
      pair_sublist_filter (pair_sublist_filter hxy (hsome hx) (hsome hy)) hx hy
    rw [hrun, List.append_assoc]
    exact (hpair.trans (List.sublist_append_left _ _)).trans (List.sublist_append_right _ _)
  · intro x y name hxy hx hy
    have hpair : [x, y].Sublist (scriptsNamed (extensionScripts page) name) := by
      rw [scriptsNamed_extensionScripts]
      refine pair_sublist_filter (pair_sublist_filter hxy ?_ ?_) (beq_iff_eq.mpr hx) (beq_iff_eq.mpr hy)
      · exact hsome (HeadOrder.isExtensionScript_of_bind hx)
      · exact hsome (HeadOrder.isExtensionScript_of_bind hy)
    have hmem : (name, x) ∈ extensionScripts page := by
      have hx' := hpair.subset (by simp : x ∈ [x, y])
      simpa [scriptsNamed] using hx'
    have hnodes := hcomplete.partition.sublist_nodesOf (hcomplete.partition.grouped _ hmem)
    rw [hrun, List.append_assoc (runtimeScripts page)]
    exact (((hpair.trans hnodes).trans (List.sublist_append_left _ _)).trans
      (List.sublist_append_right _ _)).trans (List.sublist_append_right _ _)

/-- The pass gathers the scripts of a page that lacks nothing and has nothing to spare. -/
theorem regathered_run (hrename : s.renameBind = false) : Regathered page (run s spec page).page where
  wellFormed := run_wellFormed h s spec
  frame := run_sameFrame h
  kind? _ := kind?_run_of_complete hcomplete hrename
  parent? _ := parent?_run_of_complete h hcomplete
  children _ hx := children_run_of_ne h hx
  gathered := gathered_run h hcomplete

end Run

end AmpTuner.Extensions
