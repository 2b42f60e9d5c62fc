import AmpTuner.Proofs.Extensions.Block
import AmpTuner.Proofs.Pass.WellFormed

/-!
# What a page demands

Which extensions the pass looks for is decided by the page alone: by what its elements and configurations
require, and by the names that its custom elements bear.

* **`Wants`** and **`Borne`** are these two. **`mem_needs_iff`** and **`used_stocked`** say that the pass goes by
  nothing else.
* **`mem_taken_run_iff`**: the scripts of the head are, after the pass, those that it has put there.
* **`sameDemand_run`**: the pass leaves the demand as it was, since what is written out is not written out again.
-/

namespace AmpTuner.Extensions

open Markup (Element)
open Vocabulary (extensionName? isRuntimeScript isExtensionScript)
open HeadOrder (isGathered isRuntimeScript_of_extensionName?)

variable {s : Settings.Extensions} {spec : Spec} {page page' : Page} {groups : List Group} {P : String → Prop}
  {name x : String} {e n m : NodeId} {el : Element}

/-! ## In reach -/

theorem parent?_cleared_iff : (cleared page).parent? n = some m ↔ page.parent? n = some m ∧ n ∉ taken page := by
  rw [cleared, Page.parent?_detachAll]
  split <;> simp [*]

/-- Of the children of the head, those are taken that are gathered. -/
theorem mem_taken_iff_isGathered (h : page.Linked) (hn : n ∈ page.children page.head) :
    n ∈ taken page ↔ page.isElement n isGathered = true := by
  rw [mem_taken_iff h, Page.isElement_iff, and_iff_right ((h.mem_children_iff _ _).mp hn)]
  refine exists_congr fun el => and_congr_right fun _ => ?_
  rw [isGathered, Bool.or_eq_true, isExtensionScript, Option.isSome_iff_exists]

/-- What is in reach is what is still on the page without its scripts. -/
theorem above_cleared_iff (h : page.WellFormed) : (cleared page).Above page.root e ↔ InReach page e := by
  refine ⟨fun habove => ⟨habove.mono fun d p hp => (parent?_cleared_iff.mp hp).1, ?_⟩,
    fun hreach => above_cleared hreach.1 hreach.2⟩
  induction e using h.linked.up_induction with
  | step e ih =>
    obtain ⟨q, hq, hup⟩ := Page.above_iff.mp habove
    obtain ⟨hparent, hfree⟩ := parent?_cleared_iff.mp hq
    intro n hn
    refine ⟨fun heq => hfree (heq ▸ hn), fun hne => ?_⟩
    rcases hup with rfl | hup
    · -- the root is no script
      have htag := tag?_of_mem_taken h.linked hn
      rcases (Page.above_of_parent? hparent).mp hne with rfl | hroot
      · rw [h.tag?_root] at htag
        exact absurd (Option.some.inj htag) (by decide)
      · exact h.not_above_root hroot
    · rcases (Page.above_of_parent? hparent).mp hne with rfl | hne
      · exact not_above_cleared hn hup
      · exact (ih q hparent hup n hn).2 hne

theorem configuration_congr
    (hconfigures : (page'.element? n).bind configures? = (page.element? n).bind configures?)
    (htext : page'.textContent n = page.textContent n) : configuration page' n = configuration page n := by
  rw [configuration, configuration, hconfigures, htext]

/-- Only scripts configure. -/
theorem exists_script_of_configuration (hx : x ∈ (configuration page n).1) :
    ∃ el, page.element? n = some el ∧ el.tag = "script" := by
  rw [configuration] at hx
  split at hx
  · cases hx
  · next id hid =>
    obtain ⟨el, hel, hconfigures⟩ := Option.bind_eq_some_iff.mp hid
    rw [configures?] at hconfigures
    split at hconfigures
    · next hscript => exact ⟨el, hel, eq_of_beq (Bool.and_eq_true_iff.mp hscript).1⟩
    · cases hconfigures

/-! ## What writing out does not show in -/

/-- What is spelled out once stays as it is. -/
theorem written_written : written s (written s el) = written s el := by
  rw [written, written]
  split
  · exact spellOut_spellOut
  · rfl

theorem extensionName?_eq_filter : extensionName? el = (declaredName? el).filter (!·.isEmpty) := by
  rw [extensionName?, declaredName?]
  split <;> rfl

theorem ne_empty_of_extensionName? (h : extensionName? el = some x) : x ≠ "" := by
  rw [extensionName?_eq_filter] at h
  rintro rfl
  exact absurd (Option.filter_eq_some_iff.mp h).2 (by decide)

theorem extensionName?_written : extensionName? (written s el) = extensionName? el := by
  rw [extensionName?_eq_filter, declaredName?_written, ← extensionName?_eq_filter]

theorem isRuntimeScript_written : isRuntimeScript (written s el) = isRuntimeScript el := by
  rw [isRuntimeScript, isRuntimeScript, tag_written, isExtensionScript, extensionName?_written,
    attribute?_written (by decide)]
  rfl

theorem configures?_written : configures? (written s el) = configures? el := by
  rw [configures?, configures?, tag_written, attribute?_written (by decide), attribute?_written (by decide)]

/-- A change to elements does not show in the text of a node. -/
theorem text?_of_kind?_map {f : Element → Element} (h : page'.kind? n = (page.kind? n).map (·.mapElement f)) :
    page'.text? n = page.text? n := by
  rw [Page.text?, h, Page.text?]
  cases page.kind? n with
  | none => rfl
  | some kind => cases kind <;> rfl

theorem text?_searched (h : page.WellFormed) : (searched s page).text? n = page.text? n := by
  by_cases habove : (cleared page).Above page.root n
  · exact text?_of_kind?_map (kind?_searched h habove)
  · exact Page.text?_congr (kind?_searched_of_not_above h habove)

/-- A child of the head configures what it configured, on any page that differs in other respects. -/
theorem configuration_of_child (h : page.WellFormed) (h' : page'.WellFormed) (hn : page.parent? n = some page.head)
    (hconfigures : (page'.element? n).bind configures? = (page.element? n).bind configures?)
    (htext : ∀ x, page.Has x → page'.text? x = page.text? x)
    (hchildren : ∀ x, x ≠ page.head → page'.children x = page.children x) :
    configuration page' n = configuration page n :=
  configuration_congr hconfigures (h.textContent_congr_of_child h' htext hchildren hn)

/-- It has the same configurations. -/
theorem configuration_searched (h : page.WellFormed) (hn : page.parent? n = some page.head) :
    configuration (searched s page) n = configuration page n := by
  refine configuration_of_child h (searched_wellFormed h) hn ?_ (fun x _ => text?_searched h) fun x hx => ?_
  · by_cases habove : (cleared page).Above page.root n
    · rw [element?_searched h habove, Option.bind_map]
      exact congrArg _ (funext fun _ => configures?_written)
    · rw [element?_searched_of_not_above h habove]
  · rw [searched_sameLinks.children, children_cleared_of_ne h hx]

/-! ## What is required -/

/-- A configuration or an element requires the extension. -/
inductive Wants (s : Settings.Extensions) (spec : Spec) (page : Page) (x : String) : Prop where
  | configured {n : NodeId} (hn : page.parent? n = some page.head) (hfree : n ∉ taken page)
      (hx : x ∈ (configuration page n).1)
  | element {e : NodeId} {el : Element} (he : InReach page e) (hel : page.element? e = some el)
      (hx : x ∈ requiredBy spec (written s el))

/-- A custom element bears the name. -/
def Borne (page : Page) (x : String) : Prop :=
  ∃ e el, InReach page e ∧ page.element? e = some el ∧ Markup.isComponent el.tag = true ∧ el.tag = x

section Needs

variable (h : page.WellFormed)

include h

theorem element?_searched_of_inReach (he : InReach page e) :
    (searched s page).element? e = (page.element? e).map (written s) :=
  element?_searched h ((above_cleared_iff h).mpr he)

/-- The elements that are searched are those in reach, spelled out. -/
theorem mem_filterMap_element?_iff : el ∈ ((searched s page).descendants (searched s page).root).filterMap
    (searched s page).element? ↔ ∃ e old, InReach page e ∧ page.element? e = some old ∧ written s old = el := by
  rw [List.mem_filterMap]
  refine exists_congr fun e => ?_
  rw [(searched_wellFormed h).linked.mem_descendants_iff, searched_sameFrame.root, searched_sameLinks.above_iff,
    above_cleared_iff h, exists_and_left]
  refine and_congr_right fun he => ?_
  rw [element?_searched_of_inReach h he, Option.map_eq_some_iff]

/-- What the search collects is what the page wants, each name for a reason. -/
theorem mem_needs_iff : x ∈ (needs s spec page).1 ↔ Wants s spec page x := by
  have hchild {n : NodeId} (hn : n ∈ (searched s page).elementChildren (searched s page).head) :
      page.parent? n = some page.head ∧ n ∉ taken page := by
    rw [(searched_wellFormed h).linked.mem_elementChildren_iff, searched_sameFrame.head,
      searched_sameLinks.parent?, parent?_cleared_iff] at hn
    exact hn.1
  rw [needs, mem_requirements_iff_exists]
  simp only [mem_filterMap_element?_iff h]
  constructor
  · rintro (hx | ⟨el, ⟨e, old, he, hold, rfl⟩, hx⟩)
    · obtain ⟨entry, hentry, hx⟩ := List.mem_flatMap.mp hx
      obtain ⟨n, hn, rfl⟩ := List.mem_map.mp hentry
      obtain ⟨hparent, hfree⟩ := hchild hn
      exact .configured hparent hfree (configuration_searched h hparent ▸ hx)
    · exact .element he hold hx
  · intro hwants
    cases hwants with
    | @configured n hn hfree hx =>
      rw [← configuration_searched h hn (s := s)] at hx
      have hmem : n ∈ (searched s page).elementChildren (searched s page).head := by
        rw [(searched_wellFormed h).linked.mem_elementChildren_iff, searched_sameFrame.head,
          searched_sameLinks.parent?, parent?_cleared_iff]
        obtain ⟨el, hel, -⟩ := exists_script_of_configuration hx
        exact ⟨⟨hn, hfree⟩, el, hel⟩
      exact .inl (List.mem_flatMap.mpr ⟨_, List.mem_map_of_mem hmem, hx⟩)
    | element he hel hx => exact .inr ⟨_, ⟨_, _, he, hel, rfl⟩, hx⟩

end Needs

/-! ## What is marked -/

/-- Groups are marked for a reason. -/
def Justified (P : String → Prop) (groups : List Group) : Prop := ∀ g ∈ groups, g.used = true → P g.name

namespace Justified

theorem mono {Q : String → Prop} (h : Justified P groups) (himp : ∀ x, P x → Q x) : Justified Q groups :=
  fun g hg hused => himp _ (h g hg hused)

/-- A mark for which there is a reason is justified. -/
theorem markUsed (h : Justified P groups) (hname : P name) : Justified P (markUsed groups name) := by
  rw [markUsed_eq]
  refine List.forall_mem_map.mpr fun g hg hused => ?_
  rw [mark_name]
  rw [mark] at hused
  split at hused
  · next heq => exact heq ▸ hname
  · exact h g hg hused

/-- A script that comes in without a mark, or with a reason for it, leaves all marks justified. -/
theorem addScript {used : Bool} (h : Justified P groups) (hname : used = true → P name) :
    Justified P (addScript name n used groups) := by
  refine forall_mem_addScript h hname fun g heq hg hused => ?_
  rcases Bool.or_eq_true_iff.mp hused with hused | hused
  · exact hg hused
  · exact heq ▸ hname hused

theorem groupScripts (scripts : List (String × NodeId)) : Justified P (groupScripts scripts) :=
  List.foldlRecOn scripts _ (by simp [Justified]) fun _ h _ _ => h.addScript fun hused => by cases hused

/-- Elements mark for the names that they bear, and these alone. -/
theorem requirements {required : List String} (h : Justified P groups)
    (hborne : ∀ el ∈ (page.descendants page.root).filterMap page.element?,
      Markup.isComponent el.tag = true → P el.tag) : Justified P (requirements spec page required groups).2 := by
  rw [Extensions.requirements]
  generalize (page.descendants page.root).filterMap page.element? = els at hborne
  induction els generalizing required groups with
  | nil => exact h
  | cons el els ih =>
    obtain ⟨hel, hels⟩ := List.forall_mem_cons.mp hborne
    refine ih ?_ hels
    split
    · next hcomponent => exact h.markUsed (hel hcomponent)
    · exact h

/-- Every mark that the loop makes is for a required name. -/
theorem foldl_require {required : List String} (h : Justified P groups) (hrequired : ∀ x ∈ required, P x) :
    Justified P (required.foldl (require s spec) (page, groups)).2 := by
  induction required generalizing page groups with
  | nil => exact h
  | cons name required ih =>
    obtain ⟨hname, hrequired⟩ := List.forall_mem_cons.mp hrequired
    rw [List.foldl_cons]
    rcases require_cases s spec page groups name with ⟨-, heq⟩ | ⟨-, -, heq⟩ | ⟨e, -, -, heq⟩ <;> rw [heq]
    · exact ih (h.markUsed hname) hrequired
    · exact ih h hrequired
    · exact ih (h.addScript fun _ => hname) hrequired

end Justified

/-- What is marked when its element is met stays marked. -/
theorem marked_requirements {required : List String} (hel : el ∈ (page.descendants page.root).filterMap page.element?)
    (hcomponent : Markup.isComponent el.tag = true) : Marked (requirements spec page required groups).2 el.tag := by
  obtain ⟨front, back, hsplit⟩ := List.append_of_mem hel
  rw [requirements, hsplit, List.foldl_append, List.foldl_cons]
  refine List.foldlRecOn (motive := fun state : List String × List Group => Marked state.2 el.tag) back _ ?_
    fun state hmarked other _ => ?_
  · dsimp only
    rw [if_pos hcomponent]
    exact marked_markUsed_self
  · dsimp only
    split
    · exact hmarked.markUsed
    · exact hmarked

/-- A mark is never taken back. -/
theorem Marked.foldl_require {required : List String} (h : Marked groups x) :
    Marked (required.foldl (require s spec) (page, groups)).2 x := by
  induction required generalizing page groups with
  | nil => exact h
  | cons name required ih =>
    rw [List.foldl_cons]
    rcases require_cases s spec page groups name with ⟨-, heq⟩ | ⟨-, -, heq⟩ | ⟨e, -, -, heq⟩ <;> rw [heq]
    · exact ih h.markUsed
    · exact ih h
    · exact ih h.addScript

/-- A group is marked when its extension is required or a custom element bears its name. -/
theorem used_stocked (h : page.WellFormed) {g : Group} (hg : g ∈ (stocked s spec page).2) :
    g.used = true ↔ Wants s spec page g.name ∨ Borne page g.name := by
  constructor
  · have hneeds : Justified (Borne page) (needs s spec page).2 :=
      (Justified.groupScripts _).requirements fun el hel hcomponent => by
        obtain ⟨e, old, he, hold, rfl⟩ := (mem_filterMap_element?_iff h).mp hel
        rw [tag_written] at hcomponent ⊢
        exact ⟨e, old, he, hold, hcomponent, rfl⟩
    have hstocked : Justified (fun x => Wants s spec page x ∨ Borne page x) (stocked s spec page).2 :=
      (hneeds.mono fun x => .inr).foldl_require fun x hx => .inl ((mem_needs_iff h).mp hx)
    exact hstocked g hg
  · rintro (hwants | ⟨e, el, he, hel, hcomponent, htag⟩)
    · exact (stocked_spec s spec h).marked g.name ((mem_needs_iff h).mpr hwants) g hg rfl
    · have hmarked : Marked (needs s spec page).2 (written s el).tag :=
        marked_requirements ((mem_filterMap_element?_iff h).mpr ⟨e, el, he, hel, rfl⟩) (by rwa [tag_written])
      have hstocked : Marked (stocked s spec page).2 (written s el).tag := hmarked.foldl_require
      exact hstocked g hg (by rw [tag_written, htag])

/-! ## After the pass -/

/-- A declared name that is not empty is the name of an extension. -/
theorem extensionName?_of_declaredName? (h : declaredName? el = some x) (hx : x ≠ "") : extensionName? el = some x := by
  have hne : (!x.isEmpty) = true := by
    rw [Bool.not_eq_true', Bool.eq_false_iff, Ne, String.isEmpty_iff]
    exact hx
  rw [declaredName?] at h
  rw [extensionName?]
  split at h
  · next htag => rw [if_pos htag, h, Option.filter_some, if_pos hne]
  · cases h

section Run

variable (h : page.WellFormed) (hnamed : spec.extension? "" = none)

include h

/-- What does not depend on the spelling of bindings is true of an old element after the pass exactly if it was
before. -/
theorem isElement_run {p : Element → Bool} (hp : ∀ el, p (written s el) = p el) (hn : page.Has n) :
    (run s spec page).page.isElement n p = page.isElement n p := by
  have hany (o : Option Element) : o.any p = (o.bind fun el => some (p el)).getD false := by cases o <;> rfl
  have hwritten (el : Element) : some (p (written s el)) = some (p el) := congrArg some (hp el)
  rw [Page.isElement, Page.isElement, hany, hany, bind_element?_run hwritten h hn]

theorem tag?_run (hn : page.Has n) : (run s spec page).page.tag? n = page.tag? n := by
  have hmap (o : Option Element) : o.map (·.tag) = o.bind fun el => some el.tag := by cases o <;> rfl
  rw [Page.tag?, Page.tag?, hmap, hmap,
    bind_element?_run (f := fun el => some el.tag) (fun _ => congrArg some tag_written) h hn]

/-- The pass keeps the page well formed around its root, head and body, and every tag as it is. -/
theorem maintains_run : page.Maintains (run s spec page).page where
  wellFormed := run_wellFormed h s spec
  root := (run_sameFrame h).root
  head := (run_sameFrame h).head
  body := (run_sameFrame h).body
  tag? n tag htag := by rw [tag?_run h (Page.has_of_tag? htag), htag]

omit h in
/-- What is new after the pass is an import. -/
theorem exists_importElement_of_not_has (hel : (run s spec page).page.element? n = some el) (hn : ¬ page.Has n) :
    ∃ e, el = importElement s e := by
  obtain ⟨imports, himports⟩ := exists_imports s spec (searched s page) (needs s spec page).2 (needs s spec page).1
  rw [element?_run] at hel
  have hstocked : (stocked s spec page).1.Has n := Page.has_of_element? hel
  rcases (himports.has n).mp hstocked with hold | hnew
  · exact absurd (has_searched.mp hold) hn
  · obtain ⟨p, hp, rfl⟩ := List.mem_map.mp hnew
    obtain ⟨e, -, hscript⟩ := himports.script p hp
    exact ⟨e, Option.some.inj (hel.symm.trans hscript)⟩

/-- In reach every element is written out, and written out once. -/
theorem element?_run_of_inReach (he : InReach page e) :
    (run s spec page).page.element? e = (page.element? e).map (written s) := by
  obtain ⟨q, hq, -⟩ := Page.above_iff.mp he.1
  rw [Page.element?_congr (kind?_run h (Page.has_of_parent? hq)), element?_searched_of_inReach h he]

theorem text?_run (hn : page.Has n) : (run s spec page).page.text? n = page.text? n :=
  (Page.text?_congr (kind?_run h hn)).trans (text?_searched h)

/-- A script that is taken out is as it was. -/
theorem element?_run_of_mem_taken (hn : n ∈ taken page) :
    (run s spec page).page.element? n = page.element? n := by
  obtain ⟨-, el, hel, -⟩ := (mem_taken_iff h.linked).mp hn
  rw [element?_run, element?_stocked_of_mem_taken h hn hel, hel]

omit h in
/-- Where bound attributes are not renamed, nothing is. -/
theorem written_eq (hrename : s.renameBind = false) : written s el = el := by
  rw [written, if_neg (by rw [hrename]; decide)]

theorem kind?_run_of_has (hrename : s.renameBind = false) (hn : page.Has n) :
    (run s spec page).page.kind? n = page.kind? n := by
  rw [kind?_run h hn, searched, if_neg (by rw [hrename]; decide), kind?_cleared]

theorem extensionName?_of_holds_retained (hheld : Holds (retained s spec page) x n) (hx : x ≠ "") :
    ∃ el, (run s spec page).page.element? n = some el ∧ extensionName? el = some x := by
  obtain ⟨el, hel, hdeclared⟩ := Option.bind_eq_some_iff.mp (isScriptFor_of_holds_retained h hheld)
  exact ⟨el, hel, extensionName?_of_declaredName? hdeclared hx⟩

/-- What is taken out and does not go back was not in the head. -/
theorem not_script_of_not_mem_taken (s : Settings.Extensions) (spec : Spec) (hchild : n ∈ page.children page.head)
    (hfree : n ∉ taken page) :
    (run s spec page).page.isElement n isGathered = false := by
  have hwritten (el : Element) : isGathered (written s el) = isGathered el := by
    rw [isGathered, isGathered, isRuntimeScript_written, isExtensionScript, extensionName?_written]
    rfl
  rw [isElement_run h hwritten (h.linked.has_child hchild), ← Bool.not_eq_true,
    ← mem_taken_iff_isGathered h.linked hchild]
  exact hfree

/-- Every declaration after the pass comes from a kept group. -/
theorem holds_retained_of_mem (hscript : (x, n) ∈ extensionScripts (run s spec page).page) :
    Holds (retained s spec page) x n := by
  have hwell := run_wellFormed h s spec
  obtain ⟨hparent, el, hel, hname⟩ := (mem_extensionScripts_iff hwell.linked).mp hscript
  rw [← hwell.linked.mem_children_iff, head_run h, mem_children_run h] at hparent
  rcases hparent with ⟨hchild, hfree⟩ | hblock
  · have hnone := not_script_of_not_mem_taken h s spec hchild hfree
    rw [Page.isElement, hel, Option.any_some, isGathered, isExtensionScript, hname] at hnone
    simp at hnone
  · rcases List.mem_append.mp hblock with hruntime | hheld
    · obtain ⟨-, old, hold, hscript⟩ := (mem_runtimeScripts_iff h.linked).mp hruntime
      rw [element?_run_of_mem_taken h (List.mem_append_left _ hruntime), hold] at hel
      obtain rfl := Option.some.inj hel
      rw [isRuntimeScript_of_extensionName? hname] at hscript
      cases hscript
    -- the script declares the extension by whose name it is held
    · obtain ⟨y, hheld⟩ := mem_nodesOf_iff.mp hheld
      have hscript := isScriptFor_of_holds_retained h hheld
      rw [IsScriptFor, hel, Option.bind_some, declaredName?_of_extensionName? hname] at hscript
      obtain rfl := Option.some.inj hscript
      exact hheld

/-- What a second run would take is the block of the first. -/
theorem mem_block_of_mem_taken_run (htaken : n ∈ taken (run s spec page).page) :
    n ∈ runtimeScripts page ++ nodesOf (retained s spec page) := by
  have hwell := run_wellFormed h s spec
  have hchild : n ∈ (run s spec page).page.children page.head := by
    rw [← head_run h, hwell.linked.mem_children_iff]
    exact ((mem_taken_iff hwell.linked).mp htaken).1
  rcases (mem_children_run h).mp hchild with ⟨hold, hfree⟩ | hblock
  · have hscript := (mem_taken_iff_isGathered hwell.linked (head_run h ▸ hchild)).mp htaken
    rw [not_script_of_not_mem_taken h s spec hold hfree] at hscript
    cases hscript
  · exact hblock

/-- What was in reach stays in reach. -/
theorem inReach_run (he : InReach page e) : InReach (run s spec page).page e := by
  rw [← above_cleared_iff h] at he
  rw [← above_cleared_iff (run_wellFormed h s spec), (run_sameFrame h).root]
  refine he.mono fun d p hp => ?_
  have hblock : d ∉ runtimeScripts page ++ nodesOf (retained s spec page) := fun hmem => by
    rw [parent?_cleared_of_mem_block h hmem] at hp
    cases hp
  exact parent?_cleared_iff.mpr
    ⟨by rw [parent?_run h, if_neg hblock, hp], fun htaken => hblock (mem_block_of_mem_taken_run h htaken)⟩

/-- The declarations after the pass are those of the kept groups. -/
theorem mem_extensionScripts_run_iff (hx : x ≠ "") :
    (x, n) ∈ extensionScripts (run s spec page).page ↔ Holds (retained s spec page) x n := by
  have hwell := run_wellFormed h s spec
  refine ⟨holds_retained_of_mem h, fun hheld => (mem_extensionScripts_iff hwell.linked).mpr ⟨?_, ?_⟩⟩
  · rw [head_run h, parent?_run h, if_pos (List.mem_append_right _ hheld.mem_nodesOf)]
  · exact extensionName?_of_holds_retained h hheld hx

include hnamed

/-- If the spec names its extensions, no kept group is nameless. -/
theorem ne_empty_of_holds (hheld : Holds (retained s spec page) x n) : x ≠ "" := by
  rcases origin_of_holds_retained h hheld with hold | ⟨-, e, he, -⟩
  · obtain ⟨-, el, -, hname⟩ := (mem_extensionScripts_iff h.linked).mp hold
    exact ne_empty_of_extensionName? hname
  · rintro rfl
    exact absurd (hnamed.symm.trans he.extension?) (by simp)

theorem holds_retained_iff : Holds (retained s spec page) x n ↔ (x, n) ∈ extensionScripts (run s spec page).page :=
  ⟨fun hheld => (mem_extensionScripts_run_iff h (ne_empty_of_holds h hnamed hheld)).mpr hheld,
    holds_retained_of_mem h⟩

/-- A second run takes exactly the block of the first. -/
theorem mem_taken_run_iff :
    n ∈ taken (run s spec page).page ↔ n ∈ runtimeScripts page ++ nodesOf (retained s spec page) := by
  refine ⟨mem_block_of_mem_taken_run h, fun hblock => ?_⟩
  rw [mem_taken_iff (run_wellFormed h s spec).linked, head_run h]
  refine ⟨by rw [parent?_run h, if_pos hblock], ?_⟩
  rcases List.mem_append.mp hblock with hruntime | hheld
  · obtain ⟨-, el, hel, hscript⟩ := (mem_runtimeScripts_iff h.linked).mp hruntime
    exact ⟨el, by rw [element?_run_of_mem_taken h (List.mem_append_left _ hruntime), hel], .inl hscript⟩
  · obtain ⟨x, hheld⟩ := mem_nodesOf_iff.mp hheld
    obtain ⟨el, hel, hname⟩ := extensionName?_of_holds_retained h hheld (ne_empty_of_holds h hnamed hheld)
    exact ⟨el, hel, .inr ⟨x, hname⟩⟩

/-- Without the scripts, what is on the page is where it was. -/
theorem parent?_cleared_run : (cleared (run s spec page).page).parent? n = (cleared page).parent? n := by
  have hrun : (cleared (run s spec page).page).parent? n
      = if n ∈ taken (run s spec page).page then none else (run s spec page).page.parent? n := by
    rw [cleared, Page.parent?_detachAll]
  rw [hrun, parent?_run h]
  by_cases hn : n ∈ taken (run s spec page).page
  · rw [if_pos hn, parent?_cleared_of_mem_block h ((mem_taken_run_iff h hnamed).mp hn)]
  · rw [if_neg hn, if_neg fun hblock => hn ((mem_taken_run_iff h hnamed).mpr hblock)]

/-- The same elements are in reach before and after. -/
theorem inReach_run_iff : InReach (run s spec page).page e ↔ InReach page e := by
  refine ⟨fun he => ?_, inReach_run h⟩
  rw [← above_cleared_iff (run_wellFormed h s spec), (run_sameFrame h).root] at he
  rw [← above_cleared_iff h]
  exact he.mono fun d p hp => (parent?_cleared_run h hnamed).symm.trans hp

omit hnamed in
/-- The configurations in the head are the same before and after. -/
theorem configuration_run (hn : page.parent? n = some page.head) :
    configuration (run s spec page).page n = configuration page n :=
  configuration_of_child h (run_wellFormed h s spec) hn
    (bind_element?_run (fun _ => configures?_written) h (Page.has_of_parent? hn)) (fun _ hx => text?_run h hx)
    fun _ hx => children_run_of_ne h hx

end Run

/-- The pages want the same extensions, and their custom elements bear the same names. -/
structure SameDemand (s : Settings.Extensions) (spec : Spec) (page page' : Page) : Prop where
  wants : ∀ x, Wants s spec page' x ↔ Wants s spec page x
  borne : ∀ x, Borne page' x ↔ Borne page x

/-- The pass changes nothing of the demand that it meets. -/
theorem sameDemand_run (h : page.WellFormed) (hnamed : spec.extension? "" = none) :
    SameDemand s spec page (run s spec page).page := by
  -- a child of the head that is not taken is one before and after
  have hchild (n : NodeId) :
      ((run s spec page).page.parent? n = some page.head ∧ n ∉ taken (run s spec page).page)
        ↔ page.parent? n = some page.head ∧ n ∉ taken page := by
    rw [← parent?_cleared_iff, ← parent?_cleared_iff, parent?_cleared_run h hnamed]
  have helement {e : NodeId} {el : Element} (he : InReach page e)
      (hel : (run s spec page).page.element? e = some el) :
      ∃ old, page.element? e = some old ∧ written s old = el := by
    rw [element?_run_of_inReach h he] at hel
    exact Option.map_eq_some_iff.mp hel
  refine ⟨fun x => ⟨fun hwants => ?_, fun hwants => ?_⟩, fun x => ⟨?_, ?_⟩⟩
  · cases hwants with
    | configured hn hfree hx =>
      rw [head_run h] at hn
      obtain ⟨hn, hfree⟩ := (hchild _).mp ⟨hn, hfree⟩
      exact .configured hn hfree (configuration_run h hn ▸ hx)
    | element he hel hx =>
      rw [inReach_run_iff h hnamed] at he
      obtain ⟨old, hold, rfl⟩ := helement he hel
      exact .element he hold (by rwa [written_written] at hx)
  · cases hwants with
    | configured hn hfree hx =>
      obtain ⟨hn', hfree'⟩ := (hchild _).mpr ⟨hn, hfree⟩
      exact .configured (by rw [head_run h, hn']) hfree' ((configuration_run h hn).symm ▸ hx)
    | element he hel hx =>
      exact .element ((inReach_run_iff h hnamed).mpr he) (by rw [element?_run_of_inReach h he, hel]; rfl)
        (by rwa [written_written])
  · rintro ⟨e, el, he, hel, hcomponent, htag⟩
    rw [inReach_run_iff h hnamed] at he
    obtain ⟨old, hold, rfl⟩ := helement he hel
    rw [tag_written] at hcomponent htag
    exact ⟨e, old, he, hold, hcomponent, htag⟩
  · rintro ⟨e, el, he, hel, hcomponent, htag⟩
    exact ⟨e, written s el, (inReach_run_iff h hnamed).mpr he, by rw [element?_run_of_inReach h he, hel]; rfl,
      by rwa [tag_written], by rwa [tag_written]⟩

end AmpTuner.Extensions
