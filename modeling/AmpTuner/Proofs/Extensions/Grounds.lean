import AmpTuner.Proofs.Extensions.Demand
import AmpTuner.Proofs.Extensions.Imports

/-!
# Nothing without grounds

Every script that the pass leaves in the head or puts there has its grounds, which can be seen in the page that the
pass returns.

* **`Required`** and **`Grounds`** read a page, one constructor for each ground. They know the rules of `Requires`
  and the list of protected extensions, and nothing of the stages of the pass.
* **`requires_of_mem_requiredBy`** is the converse of `Requires.mem_requiredBy`: an element requires nothing without
  a rule.
* **`grounds_of_holds_retained`**: what protects an extension along with a companion is decided before anything is
  dropped, and the companion is not dropped either.
* **`frugal_run`** is the result.
-/

namespace AmpTuner.Extensions

open Markup (Element)
open Markup.Attribute (names)

variable {s : Settings.Extensions} {spec : Spec} {page : Page} {name x : String} {n : NodeId} {el : Element}

/-! ## Requirements, rule by rule -/

/-- What the spec has for a tag comes from a rule of that tag. -/
theorem exists_rule_of_mem_extensionsForTag {tag : String} (h : x ∈ spec.extensionsForTag tag) :
    ∃ rule ∈ spec.tags, rule.tag.toLower = tag ∧ x ∈ rule.requires := by
  rw [Spec.extensionsForTag, mem_distinct, List.mem_flatMap] at h
  obtain ⟨rule, hrule, hx⟩ := h
  obtain ⟨hrule, htag⟩ := List.mem_filter.mp hrule
  exact ⟨rule, hrule, eq_of_beq htag, hx⟩

/-- What the spec has for an attribute comes from a rule of the tag or of all tags. -/
theorem requires_of_mem_extensionsForAttribute (hname : name ∈ names el.attributes)
    (h : x ∈ spec.extensionsForAttribute el.tag name) : Requires {} spec el x := by
  rw [Spec.extensionsForAttribute, mem_distinct, List.mem_flatMap] at h
  obtain ⟨attr, hattr, hx⟩ := h
  obtain ⟨hattr, heq⟩ := List.mem_filter.mp hattr
  have hcounted : attr.name = countedAs {} name := eq_of_beq heq
  rcases List.mem_append.mp hattr with hlocal | hglobal
  · obtain ⟨rule, hrule, hattr⟩ := List.mem_flatMap.mp hlocal
    obtain ⟨hrule, htag⟩ := List.mem_filter.mp hrule
    exact .tagAttribute hrule (eq_of_beq htag) hattr hname hcounted hx
  · exact .globalAttribute hglobal hname hcounted hx

/-- A template requires its own extension. -/
theorem requires_of_templateOf? (h : templateOf? el = some x) : Requires {} spec el x := by
  rw [templateOf?] at h
  obtain ⟨hx, hamp⟩ := Option.filter_eq_some_iff.mp h
  split at hx
  · next htag => exact .template htag hx hamp
  · next htag => exact .scriptTemplate htag hx hamp
  · cases hx

/-- An element requires nothing without a rule. -/
theorem requires_of_mem_requiredBy (h : x ∈ requiredBy spec el) : Requires {} spec el x := by
  simp only [requiredBy, List.mem_append, List.mem_flatMap] at h
  rcases h with ((htag | htemplate) | hmask) | ⟨a, ha, (hlightbox | hattr) | hbound⟩
  · obtain ⟨rule, hrule, htag, hx⟩ := exists_rule_of_mem_extensionsForTag htag
    exact .tag hrule htag hx
  · exact requires_of_templateOf? (Option.mem_toList.mp htemplate)
  · split at hmask
    · next hinput =>
      rw [Bool.and_eq_true, beq_iff_eq] at hinput
      rw [List.mem_singleton.mp hmask]
      exact .mask hinput.1 hinput.2
    · cases hmask
  · rw [impliedByAttribute] at hlightbox
    split at hlightbox
    · next hname =>
      rw [List.mem_singleton.mp hlightbox]
      exact .lightbox (Element.hasAttribute_iff.mpr (eq_of_beq hname ▸ List.mem_map_of_mem ha))
    · cases hlightbox
  · exact requires_of_mem_extensionsForAttribute (List.mem_map_of_mem ha) hattr
  · split at hbound
    · next hname =>
      rw [List.mem_singleton.mp hbound]
      exact .bound (List.mem_map_of_mem ha) hname
    · cases hbound

/-! ## Grounds -/

/-- The page requires the extension as it stands: an element below the root does, or a configuration in the head. -/
inductive Required (spec : Spec) (page : Page) (x : String) : Prop where
  | element {e : NodeId} {el : Element} (he : InReach page e) (hel : page.element? e = some el)
      (hx : Requires {} spec el x)
  | configured {n : NodeId} (hn : page.parent? n = some page.head) (hx : x ∈ (configuration page n).1)

/-- What a script for the extension may be in the head for. -/
inductive Grounds (spec : Spec) (page : Page) (x : String) : Prop where
  | required (h : Required spec page x)
  | borne (h : Borne page x)
  | alone (h : (x, none) ∈ protectedExtensions)
  | companion {c : String} {n : NodeId} (h : (x, some c) ∈ protectedExtensions)
      (hn : (c, n) ∈ extensionScripts page)

section Run

variable (h : page.WellFormed)

include h

/-- What was wanted is still required of the page that comes out. -/
theorem required_run (hwants : Wants s spec page x) : Required spec (run s spec page).page x := by
  cases hwants with
  | @configured n hn hfree hx =>
    have hconfiguration : configuration (run s spec page).page n = configuration page n := configuration_run h hn
    refine .configured ?_ (hconfiguration ▸ hx)
    rw [head_run h]
    have hchild : n ∈ (run s spec page).page.children page.head :=
      (mem_children_run h).mpr (.inl ⟨(h.linked.mem_children_iff _ _).mpr hn, hfree⟩)
    rwa [(run_wellFormed h s spec).linked.mem_children_iff] at hchild
  | element he hel hx =>
    refine .element (inReach_run h he) ?_ (requires_of_mem_requiredBy hx)
    rw [element?_run_of_inReach h he, hel]
    rfl

theorem borne_run (hborne : Borne page x) : Borne (run s spec page).page x := by
  obtain ⟨e, el, he, hel, hcomponent, htag⟩ := hborne
  exact ⟨e, written s el, inReach_run h he, by rw [element?_run_of_inReach h he, hel]; rfl, by rwa [tag_written],
    by rwa [tag_written]⟩

/-- A marked group has its grounds in the page that comes out. -/
theorem grounds_of_used {g : Group} (hg : g ∈ (stocked s spec page).2) (hused : g.used = true) :
    Grounds spec (run s spec page).page g.name := by
  rcases (used_stocked h hg).mp hused with hwants | hborne
  · exact .required (required_run h hwants)
  · exact .borne (borne_run h hborne)

/-- What stays on its own account has a script afterwards. -/
theorem exists_script_of_mem_keptAlone (hx : x ≠ "") (hkept : x ∈ keptAlone (stocked s spec page).2) :
    ∃ n, (x, n) ∈ extensionScripts (run s spec page).page := by
  obtain ⟨g, hg, halone, rfl⟩ := mem_keptAlone_iff.mp hkept
  have hretained : g ∈ retained s spec page := by
    rw [retained]
    split
    · refine List.mem_filter.mpr ⟨hg, isNeeded_iff.mpr (halone.imp_right fun hprotected => ?_)⟩
      exact ⟨none, hprotected, fun _ hmem => by cases hmem⟩
    · exact hg
  obtain ⟨n, hn⟩ := List.exists_mem_of_ne_nil _ (filled_retained h g hretained)
  exact ⟨n, (mem_extensionScripts_run_iff h hx).mpr ⟨g, hretained, rfl, hn⟩⟩

/-- Where unused scripts go, every script that stays has grounds to. -/
theorem grounds_of_holds_retained (hremove : s.removeUnused = true) (hheld : Holds (retained s spec page) x n) :
    Grounds spec (run s spec page).page x := by
  obtain ⟨g, hg, rfl, -⟩ := hheld
  rw [retained, if_pos hremove, dropUnused, List.mem_filter, isNeeded_iff] at hg
  rcases hg with ⟨hg, hused | ⟨companion, hprotected, hkept⟩⟩
  · exact grounds_of_used h hg hused
  · cases companion with
    | none => exact .alone hprotected
    | some c =>
      have hnamed : ∀ p ∈ protectedExtensions, p.2 ≠ some "" := by decide
      have hc : c ≠ "" := by
        rintro rfl
        exact hnamed _ hprotected rfl
      obtain ⟨m, hm⟩ := exists_script_of_mem_keptAlone h hc (hkept c rfl)
      exact .companion hprotected hm

end Run

/-! ## What the pass keeps and adds -/

/-- The node is a new script in the head, for an extension that is required, had no script, and may be imported. -/
structure Created (s : Settings.Extensions) (spec : Spec) (page page' : Page) (x : String) (n : NodeId) : Prop where
  new : ¬ page.Has n
  child : page'.parent? n = some page'.head
  required : Required spec page' x
  missing : ∀ m, (x, m) ∉ extensionScripts page
  script : ∃ e, Importable s spec x e ∧ page'.element? n = some (importElement s e)

/-- Scripts are kept and added on grounds only. -/
structure Frugal (s : Settings.Extensions) (spec : Spec) (page page' : Page) : Prop where
  grounds : s.removeUnused = true → ∀ p ∈ extensionScripts page', Grounds spec page' p.1
  /-- Nothing else is created, and no extension gets two scripts. -/
  created : ∃ imports : List (String × NodeId), (imports.map (·.1)).Nodup
    ∧ (∀ n, page'.Has n ↔ page.Has n ∨ n ∈ imports.map (·.2))
    ∧ ∀ p ∈ imports, Created s spec page page' p.1 p.2
  runtime : ∀ n ∈ runtimeScripts page, n ∈ runtimeScripts page'
  extension : s.removeUnused = false → ∀ p ∈ extensionScripts page, p ∈ extensionScripts page'
  unchanged : ∀ n ∈ taken page, page'.element? n = page.element? n

theorem has_run : (run s spec page).page.Has n ↔ (stocked s spec page).1.Has n := by
  rw [page_run, Page.has_congr (kind?_insertBlock _ _)]

section Run

variable (h : page.WellFormed)

include h

/-- Runtime scripts stay. -/
theorem mem_runtimeScripts_run (hn : n ∈ runtimeScripts page) : n ∈ runtimeScripts (run s spec page).page := by
  obtain ⟨-, el, hel, hruntime⟩ := (mem_runtimeScripts_iff h.linked).mp hn
  have hblock : n ∈ runtimeScripts page ++ nodesOf (retained s spec page) := List.mem_append_left _ hn
  refine (mem_runtimeScripts_iff (run_wellFormed h s spec).linked).mpr ⟨?_, el, ?_, hruntime⟩
  · rw [head_run h, parent?_run h, if_pos hblock]
  · rw [element?_run_of_mem_taken h (List.mem_append_left _ hn), hel]

/-- Where unused scripts may stay, all of them do. -/
theorem mem_extensionScripts_run (hkeep : s.removeUnused = false) (hn : (x, n) ∈ extensionScripts page) :
    (x, n) ∈ extensionScripts (run s spec page).page := by
  obtain ⟨-, el, -, hname⟩ := (mem_extensionScripts_iff h.linked).mp hn
  refine (mem_extensionScripts_run_iff h (ne_empty_of_extensionName? hname)).mpr ?_
  rw [retained, hkeep, if_neg (by decide)]
  exact (stocked_spec s spec h).held x n (holds_needs.mpr hn)

/-- Each imported script is new, and is there for a required extension that had none. -/
theorem created_run {imports : List (String × NodeId)} {kept : List (String × List NodeId)}
    (himports : Imports s spec (searched s page) (needs s spec page).2 (needs s spec page).1 imports
      (stocked s spec page).1 (stocked s spec page).2)
    (hretained : outline (retained s spec page) = kept ++ imports.map fun p => (p.1, [p.2]))
    {p : String × NodeId} (hp : p ∈ imports) : Created s spec page (run s spec page).page p.1 p.2 where
  new hhas := himports.new p hp (has_searched.mpr hhas)
  child := by
    have hnode : p.2 ∈ nodesOf (retained s spec page) := by
      rw [nodesOf_eq_outline, hretained, List.flatMap_append, List.flatMap_map]
      exact List.mem_append_right _ (List.mem_flatMap.mpr ⟨p, hp, List.mem_singleton_self _⟩)
    rw [head_run h, parent?_run h, if_pos (List.mem_append_right _ hnode)]
  required := required_run h ((mem_needs_iff h).mp (himports.sublist.subset (List.mem_map_of_mem hp)))
  missing m hm := by
    have hgroup : hasGroup (needs s spec page).2 p.1 = true := (holds_needs.mpr hm).hasGroup
    rw [himports.absent p hp] at hgroup
    cases hgroup
  script := by
    rw [element?_run]
    exact himports.script p hp

/-- The pass keeps and adds nothing that is not needed: in every page that is well-formed, as those are that are
loaded, for every spec and with any settings. -/
theorem frugal_run (s : Settings.Extensions) (spec : Spec) : Frugal s spec page (run s spec page).page where
  grounds hremove _ hp := grounds_of_holds_retained h hremove (holds_retained_of_mem h hp)
  created := by
    obtain ⟨kept, imports, -, -, himports, hretained⟩ := outline_retained s spec h
    refine ⟨imports, himports.distinct, fun n => ?_, fun p hp => created_run h himports hretained hp⟩
    rw [has_run, himports.has, has_searched]
  runtime _ hn := mem_runtimeScripts_run h hn
  extension hkeep _ hp := mem_extensionScripts_run h hkeep hp
  unchanged _ hn := element?_run_of_mem_taken h hn

end Run

/-- A form with a bound attribute. Of the scripts of its document only the one for bound attributes has its grounds:
no carousel is there, and nothing asks for the access that the third one extends. -/
def spareScripts : Markup.Document :=
  ⟨none, [.element ⟨"head", []⟩
      [.element ⟨"script", [⟨"custom-element", "amp-carousel"⟩]⟩ [],
        .element ⟨"script", [⟨"custom-element", "amp-bind"⟩]⟩ [],
        .element ⟨"script", [⟨"custom-element", "amp-access-laterpay"⟩]⟩ []],
    .element ⟨"body", []⟩ [.element ⟨"form", [⟨"[hidden]", "x"⟩]⟩ []]]⟩

/-- A page with a script that is protected, one that is a companion, and one too many. -/
theorem frugal_spareScripts :
    let page := Page.ofDocument spareScripts
    page.WellFormed ∧ Frugal {} formSpec page (run {} formSpec page).page
      ∧ (extensionScripts page).map (·.1) = ["amp-carousel", "amp-bind", "amp-access-laterpay"]
      ∧ (extensionScripts (run {} formSpec page).page).map (·.1) = ["amp-bind", "amp-form"] := by
  have h := Page.ofDocument_wellFormed spareScripts
  exact ⟨h, frugal_run h {} formSpec, by decide +kernel, by decide +kernel⟩

end AmpTuner.Extensions
