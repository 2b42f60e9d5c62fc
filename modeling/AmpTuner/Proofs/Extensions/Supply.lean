import AmpTuner.Proofs.Extensions.Requirements
import AmpTuner.Proofs.Page.Loading

/-!
# Required extensions are supplied

Whatever an element in reach requires keeps its scripts, or gets one if it has none and one may be
created.

* **`Stocked`** is the invariant of the loop over the required names: the scripts that there were are
  there, the others are imports, no extension gets two of them, and the names done are marked.
  `Stocked.require` is one turn, `stocked_spec` the whole loop.
* **`mem_children_run`** lists the children of the head after the pass; those that are new among them
  are imports (`of_mem_children_run`).
* **`isScriptFor_run`**: a node is a script for the same extension before and after.
* **`supplied_run`** is the result. The pass looks for requirements below the root alone:
  `not_supplied_boundRoot` is a page that loses a script which its root requires.
-/

namespace AmpTuner.Extensions

open Markup (Element)
open Vocabulary (extensionName?)

variable {s : Settings.Extensions} {spec : Spec} {page page₀ : Page} {groups groups₀ : List Group}
  {done : List String} {name x : String} {n m : NodeId} {el : Element}

/-! ## Scripts and what they declare -/

/-- The extension that a script declares, be its name empty. -/
def declaredName? (el : Element) : Option String :=
  if el.tag == "script" then ["custom-element", "custom-template", "host-service"].findSome? el.attribute?
  else none

/-- The node is a script for the extension. -/
def IsScriptFor (page : Page) (x : String) (n : NodeId) : Prop :=
  (page.element? n).bind declaredName? = some x

instance (page : Page) (x : String) (n : NodeId) : Decidable (IsScriptFor page x n) :=
  inferInstanceAs (Decidable (_ = _))

/-- The name of an extension is a declared name. -/
theorem declaredName?_of_extensionName? (h : extensionName? el = some x) : declaredName? el = some x := by
  rw [extensionName?] at h
  rw [declaredName?]
  split at h
  · next htag => rw [if_pos htag, (Option.filter_eq_some_iff.mp h).1]
  · cases h

/-- What the head declares are scripts for those extensions. -/
theorem isScriptFor_of_mem_extensionScripts (h : page.Linked) (hn : (x, n) ∈ extensionScripts page) :
    n ∈ page.children page.head ∧ IsScriptFor page x n := by
  obtain ⟨hparent, el, hel, hname⟩ := (mem_extensionScripts_iff h).mp hn
  refine ⟨(h.mem_children_iff _ _).mpr hparent, ?_⟩
  rw [IsScriptFor, hel, Option.bind_some, declaredName?_of_extensionName? hname]

/-- Spelling out does not show in a declared name. -/
theorem declaredName?_written : declaredName? (written s el) = declaredName? el := by
  rw [declaredName?, declaredName?, tag_written]
  have helement : Unbound "custom-element" := by decide
  have htemplate : Unbound "custom-template" := by decide
  have hservice : Unbound "host-service" := by decide
  simp only [List.findSome?_cons, List.findSome?_nil, attribute?_written helement,
    attribute?_written htemplate, attribute?_written hservice]

theorem tag_importElement (s : Settings.Extensions) (e : Extension) : (importElement s e).tag = "script" :=
  Element.tag_make _ _

/-- An import declares its extension. -/
theorem declaredName?_importElement (s : Settings.Extensions) (e : Extension) :
    declaredName? (importElement s e) = some e.name := by
  have hattribute (other : String) : (importElement s e).attribute? other
      = if other = "src" then some (Vocabulary.extensionSource Vocabulary.cdnHost e.name
          (((s.versions.find? (·.1 == e.name)).map (·.2)).getD e.latest) false)
        else if other = e.kind.attributeName then some e.name
        else if other = "async" then some "" else none := by
    simp only [importElement, Element.make, Element.setAll, List.foldl_cons, List.foldl_nil,
      Element.attribute?_set]
    rfl
  rw [declaredName?, tag_importElement, if_pos (beq_self_eq_true _)]
  -- one of the three names is the one for the kind, and the ones before it are absent
  cases hkind : e.kind <;>
    simp [hattribute, hkind, ExtensionKind.attributeName]

theorem name_of_extension? {e : Extension} (h : spec.extension? name = some e) : e.name = name := by
  obtain ⟨rule, _, hrule⟩ := List.exists_of_findSome?_eq_some h
  exact eq_of_beq (Option.filter_eq_some_iff.mp hrule).2

/-- An import is a script for the extension under whose name it was looked up. -/
theorem isScriptFor_of_importElement {e : Extension} (he : Importable s spec x e)
    (hn : page.element? n = some (importElement s e)) : IsScriptFor page x n := by
  rw [IsScriptFor, hn, Option.bind_some, declaredName?_importElement, name_of_extension? he.extension?]

/-! ## The loop over the required names -/

/-- What holds of the page and the groups once the names in `done` have been seen to, starting from
`page₀` and `groups₀`. -/
structure Stocked (s : Settings.Extensions) (spec : Spec) (page₀ : Page) (groups₀ : List Group)
    (done : List String) (page : Page) (groups : List Group) : Prop where
  frame : page₀.SameFrame page
  links : page₀.SameLinks page
  kinds : page₀.SameKinds page
  wellFormed : page.WellFormed
  filled : Filled groups
  grouped : ∀ x, hasGroup groups₀ x = true → hasGroup groups x = true
  held : ∀ x n, Holds groups₀ x n → Holds groups x n
  /-- What was not there is an import, for an extension that had no script. -/
  origin : ∀ x n, Holds groups x n → Holds groups₀ x n
    ∨ ¬ page₀.Has n ∧ ∃ e, Importable s spec x e ∧ page.element? n = some (importElement s e)
  single : ∀ x n m, hasGroup groups₀ x = false → Holds groups x n → Holds groups x m → n = m
  marked : ∀ x ∈ done, Marked groups x
  found : ∀ x ∈ done, ∀ e, Importable s spec x e → hasGroup groups x = true

namespace Stocked

/-- The start of the loop. -/
theorem init (h : page.WellFormed) (hfilled : Filled groups) : Stocked s spec page groups [] page groups where
  frame := .refl page
  links := .refl page
  kinds := .refl page
  wellFormed := h
  filled := hfilled
  grouped _ hx := hx
  held _ _ hn := hn
  origin _ _ hn := .inl hn
  single x n _ hx hn _ := by
    rw [hn.hasGroup] at hx
    cases hx
  marked _ hx := by cases hx
  found _ hx := by cases hx

/-- A name that has a group is done by marking it. -/
theorem markUsed (h : Stocked s spec page₀ groups₀ done page groups) (hname : hasGroup groups name = true) :
    Stocked s spec page₀ groups₀ (done ++ [name]) page (markUsed groups name) where
  frame := h.frame
  links := h.links
  kinds := h.kinds
  wellFormed := h.wellFormed
  filled := h.filled.markUsed
  grouped x hx := by rw [hasGroup_markUsed]; exact h.grouped x hx
  held x n hn := holds_markUsed.mpr (h.held x n hn)
  origin x n hn := h.origin x n (holds_markUsed.mp hn)
  single x n m hx hn hm := h.single x n m hx (holds_markUsed.mp hn) (holds_markUsed.mp hm)
  marked := List.forall_mem_append.mpr
    ⟨fun x hx => (h.marked x hx).markUsed, List.forall_mem_singleton.mpr marked_markUsed_self⟩
  found := by
    simp only [hasGroup_markUsed]
    exact List.forall_mem_append.mpr ⟨h.found, List.forall_mem_singleton.mpr fun _ _ => hname⟩

/-- A name that must not be imported is passed over. -/
theorem pass (h : Stocked s spec page₀ groups₀ done page groups) (hname : hasGroup groups name = false)
    (hrefused : ∀ e, ¬ Importable s spec name e) :
    Stocked s spec page₀ groups₀ (done ++ [name]) page groups :=
  { h with
    marked := List.forall_mem_append.mpr
      ⟨h.marked, List.forall_mem_singleton.mpr (marked_of_not_hasGroup hname)⟩
    found := List.forall_mem_append.mpr
      ⟨h.found, List.forall_mem_singleton.mpr fun e he => absurd he (hrefused e)⟩ }

/-- Any other name is done by importing it. -/
theorem create (h : Stocked s spec page₀ groups₀ done page groups) (hname : hasGroup groups name = false)
    {e : Extension} (he : Importable s spec name e) : Stocked s spec page₀ groups₀ (done ++ [name])
      (imported s page e) (addScript name page.next true groups) where
  frame := h.frame.trans (Page.create_sameFrame _)
  links := h.links.trans (Page.create_sameLinks _)
  kinds := h.kinds.trans (Page.create_sameKinds _)
  wellFormed := h.wellFormed.create fun el hel => by
    obtain rfl := NodeKind.element.inj hel
    exact Element.distinct_make _ _
  filled := h.filled.addScript
  grouped x hx := hasGroup_addScript.mpr (.inl (h.grouped x hx))
  held x n hn := holds_addScript.mpr (.inl (h.held x n hn))
  origin x n hn := by
    rcases holds_addScript.mp hn with hn | ⟨rfl, rfl⟩
    · refine (h.origin x n hn).imp_right fun ⟨hnew, e', he', hel⟩ => ⟨hnew, e', he', ?_⟩
      exact (Page.create_sameKinds _).element? hel
    · refine .inr ⟨fun hhas => Page.not_has_next (h.kinds.has hhas), e, he, ?_⟩
      exact Page.element?_eq_some_iff.mpr (Page.kind?_create_next _)
  single x n m hx hn hm := by
    -- an extension without a group holds nothing, so the new node is the only one
    have alone {n : NodeId} (hn : Holds groups name n) : False := by
      rw [hn.hasGroup] at hname
      cases hname
    rcases holds_addScript.mp hn with hn | ⟨rfl, rfl⟩
    · rcases holds_addScript.mp hm with hm | ⟨rfl, rfl⟩
      · exact h.single x n m hx hn hm
      · exact (alone hn).elim
    · rcases holds_addScript.mp hm with hm | ⟨_, rfl⟩
      · exact (alone hm).elim
      · rfl
  marked := List.forall_mem_append.mpr ⟨fun x hx => (h.marked x hx).addScript,
    List.forall_mem_singleton.mpr (marked_of_not_hasGroup hname).addScript⟩
  found := List.forall_mem_append.mpr
    ⟨fun x hx e he => hasGroup_addScript.mpr (.inl (h.found x hx e he)),
      List.forall_mem_singleton.mpr fun _ _ => hasGroup_addScript.mpr (.inr rfl)⟩

/-- One turn of the loop. -/
theorem require (h : Stocked s spec page₀ groups₀ done page groups) (name : String) :
    Stocked s spec page₀ groups₀ (done ++ [name]) (require s spec (page, groups) name).1
      (require s spec (page, groups) name).2 := by
  rcases require_cases s spec page groups name with
    ⟨hname, heq⟩ | ⟨hname, hrefused, heq⟩ | ⟨e, hname, he, heq⟩
  · rw [heq]
    exact h.markUsed hname
  · rw [heq]
    exact h.pass hname hrefused
  · rw [heq]
    exact h.create hname he

/-- The whole loop. By induction on the required names. -/
theorem foldl (h : Stocked s spec page₀ groups₀ done page groups) (required : List String) :
    Stocked s spec page₀ groups₀ (done ++ required)
      (required.foldl (Extensions.require s spec) (page, groups)).1
      (required.foldl (Extensions.require s spec) (page, groups)).2 := by
  induction required generalizing done page groups with
  | nil => rwa [List.append_nil]
  | cons name required ih =>
    have hnext := ih (h.require name)
    rwa [List.append_assoc, List.singleton_append] at hnext

end Stocked

theorem holds_needs : Holds (needs s spec page).2 x n ↔ (x, n) ∈ extensionScripts page :=
  requirements_groups (motive := fun groups => Holds groups x n ↔ (x, n) ∈ extensionScripts page)
    holds_groupScripts fun _ _ h => holds_markUsed.trans h

theorem filled_needs : Filled (needs s spec page).2 :=
  requirements_groups (filled_groupScripts _) fun _ _ hgroups => hgroups.markUsed

theorem stocked_spec (s : Settings.Extensions) (spec : Spec) (h : page.WellFormed) :
    Stocked s spec (searched s page) (needs s spec page).2 (needs s spec page).1
      (stocked s spec page).1 (stocked s spec page).2 :=
  (Stocked.init (searched_wellFormed h) filled_needs).foldl (needs s spec page).1

/-! ## The head after the pass -/

theorem stocked_sameFrame (h : page.WellFormed) : page.SameFrame (stocked s spec page).1 :=
  searched_sameFrame.trans (stocked_spec s spec h).frame

theorem run_sameFrame (h : page.WellFormed) : page.SameFrame (run s spec page).page := by
  rw [page_run]
  exact (stocked_sameFrame h).trans (insertBlock_sameFrame _ _)

theorem head_run (h : page.WellFormed) : (run s spec page).page.head = page.head := (run_sameFrame h).head

/-- Dropping brings no script in. -/
theorem holds_of_holds_retained (h : Holds (retained s spec page) x n) : Holds (stocked s spec page).2 x n := by
  rw [retained] at h
  split at h
  · exact holds_of_holds_dropUnused h
  · exact h

/-- No kept group is empty. -/
theorem filled_retained (h : page.WellFormed) : Filled (retained s spec page) := by
  have hfilled := (stocked_spec s spec h).filled
  rw [retained]
  split
  · exact fun g hg => hfilled g (List.mem_filter.mp hg).1
  · exact hfilled

/-- Marked groups are not dropped. -/
theorem holds_retained (hmarked : Marked (stocked s spec page).2 x) (h : Holds (stocked s spec page).2 x n) :
    Holds (retained s spec page) x n := by
  rw [retained]
  split
  · exact hmarked.holds_dropUnused h
  · exact h

/-- A script that was taken out is nowhere touched. -/
theorem element?_stocked_of_mem_taken (h : page.WellFormed) (hn : n ∈ taken page)
    (hel : page.element? n = some el) : (stocked s spec page).1.element? n = some el := by
  refine (stocked_spec s spec h).kinds.element? ?_
  rw [element?_searched_of_not_above h (not_above_cleared hn), hel]

/-- The block consists of scripts. -/
theorem tag?_of_mem_block (h : page.WellFormed)
    (hn : n ∈ runtimeScripts page ++ nodesOf (retained s spec page)) :
    (stocked s spec page).1.tag? n = some "script" := by
  have old (hn : n ∈ taken page) : (stocked s spec page).1.tag? n = some "script" := by
    obtain ⟨el, hel, htag⟩ := Option.map_eq_some_iff.mp (tag?_of_mem_taken h.linked hn)
    rw [Page.tag?, element?_stocked_of_mem_taken h hn hel, ← htag]
    rfl
  rcases List.mem_append.mp hn with hn | hn
  · exact old (List.mem_append_left _ hn)
  · obtain ⟨x, hheld⟩ := mem_nodesOf_iff.mp hn
    rcases (stocked_spec s spec h).origin x n (holds_of_holds_retained hheld) with hold | ⟨_, e, _, hel⟩
    · exact old (mem_taken_of_mem_extensionScripts (holds_needs.mp hold))
    · rw [Page.tag?, hel]
      exact congrArg some (tag_importElement s e)

/-- The head after the pass: the children that were not taken, and the block. -/
theorem mem_children_run (h : page.WellFormed) : n ∈ (run s spec page).page.children page.head
    ↔ (n ∈ page.children page.head ∧ n ∉ taken page)
      ∨ n ∈ runtimeScripts page ++ nodesOf (retained s spec page) := by
  have hwell := (stocked_spec s spec h).wellFormed
  have hscript {m : NodeId} (hm : m ∈ runtimeScripts page ++ nodesOf (retained s spec page)) :
      (stocked s spec page).1.tag? m = some "script" := tag?_of_mem_block h hm
  have hblock := mem_children_insertBlock (n := n) hwell (anchor? (stocked s spec page).1)
    (fun m hm => Page.has_of_tag? (hscript hm))
    (fun m hm => hwell.not_isFixed_of_tag? (hscript hm) (by decide))
  rw [(stocked_sameFrame h).head, (stocked_spec s spec h).links.children, mem_children_searched h] at hblock
  rw [page_run]
  exact hblock

theorem element?_run (n : NodeId) :
    (run s spec page).page.element? n = (stocked s spec page).1.element? n := by
  rw [page_run]
  exact Page.element?_congr (kind?_insertBlock _ _)

/-- What goes back was a script of the head or is an import. -/
theorem origin_of_holds_retained (h : page.WellFormed) (hheld : Holds (retained s spec page) x n) :
    (x, n) ∈ extensionScripts page ∨ ¬ page.Has n ∧ ∃ e, Importable s spec x e
      ∧ (run s spec page).page.element? n = some (importElement s e) := by
  refine ((stocked_spec s spec h).origin x n (holds_of_holds_retained hheld)).imp holds_needs.mp ?_
  rintro ⟨hnew, e, he, hel⟩
  exact ⟨has_searched.not.mp hnew, e, he, (element?_run n).trans hel⟩

/-- What is new in the head is an import. -/
theorem of_mem_children_run (h : page.WellFormed) (hn : n ∈ (run s spec page).page.children page.head) :
    n ∈ page.children page.head ∨ ¬ page.Has n ∧ ∃ x e, Holds (stocked s spec page).2 x n
      ∧ Importable s spec x e ∧ (run s spec page).page.element? n = some (importElement s e) := by
  rcases (mem_children_run h).mp hn with ⟨hn, _⟩ | hn
  · exact .inl hn
  · rcases List.mem_append.mp hn with hn | hn
    · exact .inl ((h.linked.mem_children_iff _ _).mpr ((mem_runtimeScripts_iff h.linked).mp hn).1)
    · obtain ⟨x, hn⟩ := mem_nodesOf_iff.mp hn
      have hheld := holds_of_holds_retained hn
      rcases (stocked_spec s spec h).origin x n hheld with hold | ⟨hnew, e, he, hel⟩
      · exact .inl (isScriptFor_of_mem_extensionScripts h.linked (holds_needs.mp hold)).1
      · exact .inr ⟨has_searched.not.mp hnew, x, e, hheld, he, (element?_run n).trans hel⟩

/-- Creating and putting back changes no node that was there. -/
theorem kind?_run (h : page.WellFormed) (hn : page.Has n) :
    (run s spec page).page.kind? n = (searched s page).kind? n := by
  rw [page_run, kind?_insertBlock, (stocked_spec s spec h).kinds.kind? n (has_searched.mpr hn)]

/-- What is read of an element is the same before and after, if writing it out does not show in it. -/
theorem bind_element?_run {α : Type} {f : Element → Option α} (hf : ∀ el, f (written s el) = f el)
    (h : page.WellFormed) (hn : page.Has n) :
    ((run s spec page).page.element? n).bind f = (page.element? n).bind f := by
  rw [Page.element?_congr (kind?_run h hn)]
  by_cases habove : (cleared page).Above page.root n
  · rw [element?_searched h habove, Option.bind_map]
    exact congrArg _ (funext hf)
  · rw [element?_searched_of_not_above h habove]

/-- Spelling out, creating and moving turn no script into one for another extension. -/
theorem isScriptFor_run (h : page.WellFormed) (hn : page.Has n) :
    IsScriptFor (run s spec page).page x n ↔ IsScriptFor page x n := by
  rw [IsScriptFor, bind_element?_run (fun _ => declaredName?_written) h hn, IsScriptFor]

/-- What goes back is a script for the extension of its group. -/
theorem isScriptFor_of_holds_retained (h : page.WellFormed) (hheld : Holds (retained s spec page) x n) :
    IsScriptFor (run s spec page).page x n := by
  rcases origin_of_holds_retained h hheld with hold | ⟨-, e, he, hel⟩
  · obtain ⟨hchild, hscript⟩ := isScriptFor_of_mem_extensionScripts h.linked hold
    exact (isScriptFor_run h (h.linked.has_child hchild)).mpr hscript
  · exact isScriptFor_of_importElement he hel

/-- A child of the head that declares an extension and is taken out goes back if the extension is
required. -/
theorem mem_block_of_mem_taken (h : page.WellFormed) (hx : x ∈ (needs s spec page).1)
    (hn : n ∈ taken page) (hscript : IsScriptFor page x n) :
    n ∈ runtimeScripts page ++ nodesOf (retained s spec page) := by
  rcases List.mem_append.mp hn with hn | hn
  · exact List.mem_append_left _ hn
  · obtain ⟨⟨y, n⟩, hpair, rfl⟩ := List.mem_map.mp hn
    obtain rfl : y = x :=
      Option.some.inj ((isScriptFor_of_mem_extensionScripts h.linked hpair).2.symm.trans hscript)
    have hstocked := stocked_spec s spec h
    have hheld := hstocked.held y n (holds_needs.mpr hpair)
    exact List.mem_append_right _ (holds_retained (hstocked.marked y hx) hheld).mem_nodesOf

/-! ## The result -/

/-- The scripts for the extension that were children of the head still are; and if there was none, and
one may be imported, a new one is the only one. -/
structure Supplied (s : Settings.Extensions) (spec : Spec) (page page' : Page) (x : String) : Prop where
  kept : ∀ n ∈ page.children page.head, IsScriptFor page x n →
    n ∈ page'.children page'.head ∧ IsScriptFor page' x n
  added : ∀ e, (∀ n ∈ page.children page.head, ¬ IsScriptFor page x n) → s.addMissing = true →
    x ∉ s.ignored → spec.extension? x = some e →
      ∃ n, ¬ page.Has n ∧ page'.element? n = some (importElement s e)
        ∧ ∀ m, m ∈ page'.children page'.head ∧ IsScriptFor page' x m ↔ m = n

/-- A script for a required extension is kept. -/
theorem kept_of_mem_needs (h : page.WellFormed) (hx : x ∈ (needs s spec page).1)
    (hn : n ∈ page.children page.head) (hscript : IsScriptFor page x n) :
    n ∈ (run s spec page).page.children page.head ∧ IsScriptFor (run s spec page).page x n := by
  refine ⟨(mem_children_run h).mpr ?_, (isScriptFor_run h (h.linked.has_child hn)).mpr hscript⟩
  by_cases htaken : n ∈ taken page
  · exact .inr (mem_block_of_mem_taken h hx htaken hscript)
  · exact .inl ⟨hn, htaken⟩

/-- A required extension without a script gets one, and no second. -/
theorem added_of_mem_needs (h : page.WellFormed) (hx : x ∈ (needs s spec page).1) {e : Extension}
    (hnone : ∀ n ∈ page.children page.head, ¬ IsScriptFor page x n) (he : Importable s spec x e) :
    ∃ n, ¬ page.Has n ∧ (run s spec page).page.element? n = some (importElement s e)
      ∧ ∀ m, m ∈ (run s spec page).page.children page.head ∧ IsScriptFor (run s spec page).page x m
        ↔ m = n := by
  have hstocked := stocked_spec s spec h
  have hscripts {m : NodeId} : (x, m) ∉ extensionScripts page := fun hpair =>
    hnone m (isScriptFor_of_mem_extensionScripts h.linked hpair).1
      (isScriptFor_of_mem_extensionScripts h.linked hpair).2
  have hgroup : hasGroup (needs s spec page).2 x = false := by
    refine Bool.eq_false_iff.mpr fun hsome => ?_
    obtain ⟨m, hm⟩ := filled_needs.exists_holds hsome
    exact hscripts (holds_needs.mp hm)
  -- the group that the extension has in the end can only hold an import
  obtain ⟨n, hn⟩ := hstocked.filled.exists_holds (hstocked.found x hx e he)
  obtain ⟨hnew, e', he', hel⟩ :=
    (hstocked.origin x n hn).resolve_left fun hold => hscripts (holds_needs.mp hold)
  obtain rfl : e' = e := Option.some.inj (he'.extension?.symm.trans he.extension?)
  have hrun := (element?_run n).trans hel
  refine ⟨n, has_searched.not.mp hnew, hrun, fun m => ⟨?_, ?_⟩⟩
  · rintro ⟨hm, hscript⟩
    rcases of_mem_children_run h hm with hold | ⟨_, y, e', hheld, he', hel'⟩
    · exact absurd ((isScriptFor_run h (h.linked.has_child hold)).mp hscript) (hnone m hold)
    · obtain rfl : y = x := Option.some.inj ((isScriptFor_of_importElement he' hel').symm.trans hscript)
      exact hstocked.single y m n hgroup hheld hn
  · rintro rfl
    have hheld := holds_retained (hstocked.marked x hx) hn
    exact ⟨(mem_children_run h).mpr (.inr (List.mem_append_right _ hheld.mem_nodesOf)),
      isScriptFor_of_importElement he hrun⟩

/-- Every element in reach has what it requires: in every page that is well-formed, as those are that
are loaded, for every spec and with any settings. -/
theorem supplied_run (h : page.WellFormed) (s : Settings.Extensions) (spec : Spec) {e : NodeId}
    (he : InReach page e) (hel : page.element? e = some el) (hx : Requires s spec el x) :
    Supplied s spec page (run s spec page).page x := by
  have hneeded := mem_needs h he hel hx
  have hhead : (run s spec page).page.head = page.head := (run_sameFrame h).head
  constructor
  · intro n hn hscript
    rw [hhead]
    exact kept_of_mem_needs h hneeded hn hscript
  · intro ext hnone hadd hignored hext
    rw [hhead]
    exact added_of_mem_needs h hneeded hnone ⟨hadd, hignored, hext⟩

/-- A form with a bound attribute, in a document that has a script for the attribute but not for forms. -/
def boundForm : Markup.Document :=
  ⟨none, [.element ⟨"head", []⟩ [.element ⟨"script", [⟨"custom-element", "amp-bind"⟩]⟩ []],
    .element ⟨"body", []⟩ [.element ⟨"form", [⟨"[hidden]", "x"⟩]⟩ []]]⟩

/-- What the validator has to say of forms. -/
def formSpec : Spec where
  tags := [{ tag := "FORM", requires := ["amp-form"] },
    { tag := "SCRIPT", extension := some { name := "amp-form" } }]

/-- A form with a binding, whose scripts are partly there. -/
theorem supplied_boundForm :
    let page := Page.ofDocument boundForm
    let form : Element := ⟨"form", [⟨"[hidden]", "x"⟩]⟩
    page.WellFormed ∧ InReach page ⟨4⟩ ∧ page.element? ⟨4⟩ = some form
      ∧ Requires {} formSpec form "amp-bind" ∧ Requires {} formSpec form "amp-form"
      ∧ (⟨3⟩ ∈ page.children page.head ∧ IsScriptFor page "amp-bind" ⟨3⟩)
      ∧ (∀ n ∈ page.children page.head, ¬ IsScriptFor page "amp-form" n)
      ∧ Supplied {} formSpec page (run {} formSpec page).page "amp-bind"
      ∧ Supplied {} formSpec page (run {} formSpec page).page "amp-form" := by
  have h := Page.ofDocument_wellFormed boundForm
  have he : InReach (Page.ofDocument boundForm) ⟨4⟩ := (inReach_iff h.linked).mpr (by decide +kernel)
  have hel : (Page.ofDocument boundForm).element? ⟨4⟩ = some ⟨"form", [⟨"[hidden]", "x"⟩]⟩ := by decide +kernel
  have hbind : Requires {} formSpec ⟨"form", [⟨"[hidden]", "x"⟩]⟩ "amp-bind" :=
    .bound List.mem_cons_self (by decide)
  have hform : Requires {} formSpec ⟨"form", [⟨"[hidden]", "x"⟩]⟩ "amp-form" :=
    .tag List.mem_cons_self (by decide +kernel) List.mem_cons_self
  exact ⟨h, he, hel, hbind, hform, by decide +kernel, by decide +kernel,
    supplied_run h {} formSpec he hel hbind, supplied_run h {} formSpec he hel hform⟩

/-- A document whose root has the only bound attribute. -/
def boundRoot : Markup.Document :=
  ⟨none, [.element ⟨"html", [⟨"[class]", "x"⟩]⟩
    [.element ⟨"head", []⟩ [.element ⟨"script", [⟨"custom-element", "amp-bind"⟩]⟩ []]]]⟩

theorem not_supplied_boundRoot :
    let page := Page.ofDocument boundRoot
    let root : Element := ⟨"html", [⟨"[class]", "x"⟩]⟩
    page.element? page.root = some root ∧ Requires {} {} root "amp-bind"
      ∧ ¬ Supplied {} {} page (run {} {} page).page "amp-bind" := by
  refine ⟨by decide +kernel, .bound List.mem_cons_self (by decide), fun h => ?_⟩
  have hkept := h.kept ⟨3⟩ (by decide +kernel) (by decide +kernel)
  exact absurd hkept.1 (by decide +kernel)

end AmpTuner.Extensions
