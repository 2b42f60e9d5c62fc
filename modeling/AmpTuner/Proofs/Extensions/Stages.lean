import AmpTuner.Proofs.Extensions.Binding
import AmpTuner.Proofs.Extensions.Groups

/-!
# The stages of the pass

The pass takes the scripts out of the head, spells bound attributes out, collects what is required,
creates what is missing, and puts all scripts back in one block. Each stage has a name here and a few
equations, so that what is proved of the pass never opens `run`.

* **`taken`** and **`cleared`**: the scripts, and the page without them.
* **`searched`**: the page in which requirements are looked for. Of the nodes, only the elements that
  are still on the page may have changed (`element?_searched`).
* **`require_cases`** says all that one required name can do.
* **`mem_children_insertBlock`**: putting back adds to the head what is put back.
-/

namespace AmpTuner.Extensions

open Markup (Element)
open Vocabulary (cdnHost extensionName? extensionSource isRuntimeScript)

variable {s : Settings.Extensions} {spec : Spec} {page : Page} {groups : List Group}
  {name x : String} {id n : NodeId} {el : Element}

/-! ## The scripts of the head -/

/-- The scripts that are taken out of the head. -/
def taken (page : Page) : List NodeId := runtimeScripts page ++ (extensionScripts page).map (·.2)

/-- Only scripts declare extensions. -/
theorem tag_of_extensionName? (h : extensionName? el = some name) : el.tag = "script" := by
  rw [extensionName?] at h
  split at h
  · next htag => exact eq_of_beq htag
  · cases h

/-- The runtime scripts are children of the head. -/
theorem mem_runtimeScripts_iff (h : page.Linked) :
    n ∈ runtimeScripts page ↔ page.parent? n = some page.head
      ∧ ∃ el, page.element? n = some el ∧ isRuntimeScript el = true := by
  rw [runtimeScripts, List.mem_filter, h.mem_elementChildren_iff, Page.isElement_iff]
  constructor
  · exact fun ⟨⟨hparent, _⟩, hel⟩ => ⟨hparent, hel⟩
  · exact fun ⟨hparent, el, hel, hruntime⟩ => ⟨⟨hparent, el, hel⟩, el, hel, hruntime⟩

/-- The extension scripts are children of the head that declare an extension. -/
theorem mem_extensionScripts_iff (h : page.Linked) :
    (x, n) ∈ extensionScripts page ↔ page.parent? n = some page.head
      ∧ ∃ el, page.element? n = some el ∧ extensionName? el = some x := by
  rw [extensionScripts, List.mem_filterMap]
  constructor
  · rintro ⟨id, hid, hentry⟩
    obtain ⟨name, hname, heq⟩ := Option.map_eq_some_iff.mp hentry
    obtain ⟨rfl, rfl⟩ := Prod.mk.inj heq
    exact ⟨(h.mem_elementChildren_iff.mp hid).1, Option.bind_eq_some_iff.mp hname⟩
  · rintro ⟨hparent, el, hel, hname⟩
    exact ⟨n, h.mem_elementChildren_iff.mpr ⟨hparent, el, hel⟩, by rw [hel, Option.bind_some, hname]; rfl⟩

/-- What is taken out are both. -/
theorem mem_taken_iff (h : page.Linked) :
    n ∈ taken page ↔ page.parent? n = some page.head ∧ ∃ el, page.element? n = some el
      ∧ (isRuntimeScript el = true ∨ ∃ x, extensionName? el = some x) := by
  have hextension : n ∈ (extensionScripts page).map (·.2) ↔ ∃ x, (x, n) ∈ extensionScripts page := by
    simp
  rw [taken, List.mem_append, hextension, mem_runtimeScripts_iff h]
  simp only [mem_extensionScripts_iff h]
  constructor
  · rintro (⟨hparent, el, hel, hruntime⟩ | ⟨x, hparent, el, hel, hname⟩)
    · exact ⟨hparent, el, hel, .inl hruntime⟩
    · exact ⟨hparent, el, hel, .inr ⟨x, hname⟩⟩
  · rintro ⟨hparent, el, hel, hruntime | ⟨x, hname⟩⟩
    · exact .inl ⟨hparent, el, hel, hruntime⟩
    · exact .inr ⟨x, hparent, el, hel, hname⟩

theorem mem_taken_of_mem_extensionScripts (hn : (x, n) ∈ extensionScripts page) : n ∈ taken page :=
  List.mem_append_right _ (List.mem_map.mpr ⟨(x, n), hn, rfl⟩)

/-- All that is taken are scripts. -/
theorem tag?_of_mem_taken (h : page.Linked) (hn : n ∈ taken page) : page.tag? n = some "script" := by
  obtain ⟨_, el, hel, hscript⟩ := (mem_taken_iff h).mp hn
  have htag : el.tag = "script" := by
    rcases hscript with hruntime | ⟨x, hname⟩
    · simp only [isRuntimeScript, Bool.and_eq_true, beq_iff_eq] at hruntime
      exact hruntime.1.1
    · exact tag_of_extensionName? hname
  rw [Page.tag?, hel, ← htag]
  rfl

/-! ## Without the scripts -/

/-- The page when its scripts have been taken out of the head. -/
def cleared (page : Page) : Page := page.detachAll (taken page)

theorem cleared_wellFormed (h : page.WellFormed) : (cleared page).WellFormed :=
  h.detachAll_head fun _ hy => .of_parent? ((mem_taken_iff h.linked).mp hy).1

theorem not_above_cleared (hn : n ∈ taken page) {a : NodeId} :
    ¬ (cleared page).Above a n :=
  Page.not_above_of_parent?_eq_none (by rw [cleared, Page.parent?_detachAll, if_pos hn])

/-- The node is below the root, and neither a script that is taken out nor inside one. -/
def InReach (page : Page) (e : NodeId) : Prop :=
  page.Above page.root e ∧ ∀ n ∈ taken page, n ≠ e ∧ ¬ page.Above n e

theorem inReach_iff (h : page.Linked) {e : NodeId} : InReach page e
    ↔ page.root ∈ page.ancestors e ∧ ∀ n ∈ taken page, n ≠ e ∧ n ∉ page.ancestors e := by
  simp only [InReach, h.mem_ancestors_iff]

theorem above_cleared {a e : NodeId} (h : page.Above a e)
    (hout : ∀ n ∈ taken page, n ≠ e ∧ ¬ page.Above n e) : (cleared page).Above a e :=
  Page.above_detachAll (taken page) h hout

/-! ## The page that is searched -/

/-- The page in which requirements are looked for. -/
def searched (s : Settings.Extensions) (page : Page) : Page :=
  if s.renameBind then spellOutAll (cleared page) else cleared page

/-- The element as it is read when requirements are looked for. -/
def written (s : Settings.Extensions) (el : Element) : Element := if s.renameBind then spellOut el else el

/-- The page that is searched has the same frame. -/
theorem searched_sameFrame : page.SameFrame (searched s page) := by
  have hcleared : page.SameFrame (cleared page) := Page.detachAll_sameFrame _
  rw [searched]
  split
  · exact hcleared.trans spellOutAll_sameFrame
  · exact hcleared

/-- It has the links of the page without its scripts. -/
theorem searched_sameLinks : (cleared page).SameLinks (searched s page) := by
  rw [searched]
  split
  · exact spellOutAll_sameLinks
  · exact .refl _

/-- It is well formed. -/
theorem searched_wellFormed (h : page.WellFormed) : (searched s page).WellFormed := by
  rw [searched]
  split
  · exact spellOutAll_wellFormed (cleared_wellFormed h)
  · exact cleared_wellFormed h

/-- It has the same nodes. -/
theorem has_searched : (searched s page).Has n ↔ page.Has n := by
  rw [searched]
  split
  · rw [has_spellOutAll, cleared, Page.has_detachAll]
  · rw [cleared, Page.has_detachAll]

theorem kind?_cleared : (cleared page).kind? n = page.kind? n := Page.kind?_detachAll _

theorem root_cleared : (cleared page).root = page.root := (Page.detachAll_sameFrame _).root

/-- What is searched is the page with every element written out; what is off the page is as it was. -/
theorem kind?_searched (h : page.WellFormed) (habove : (cleared page).Above page.root n) :
    (searched s page).kind? n = (page.kind? n).map (·.mapElement (written s)) := by
  have hlinked := (cleared_wellFormed h).linked
  cases hrename : s.renameBind with
  | true =>
    have hwritten : written s = spellOut := funext fun el => by rw [written, hrename, if_pos rfl]
    rw [searched, hrename, if_pos rfl, hwritten, kind?_spellOutAll hlinked (by rwa [root_cleared]),
      kind?_cleared]
  | false =>
    have hwritten : written s = id := funext fun el => by rw [written, hrename]; rfl
    have hsame (kind : NodeKind) : kind.mapElement id = kind := by cases kind <;> rfl
    rw [searched, hrename, hwritten]
    simp only [hsame, Option.map_id']
    exact kind?_cleared

/-- What is not below the root is not spelled out. -/
theorem kind?_searched_of_not_above (h : page.WellFormed) (habove : ¬ (cleared page).Above page.root n) :
    (searched s page).kind? n = page.kind? n := by
  have hlinked := (cleared_wellFormed h).linked
  rw [searched]
  split
  · rw [kind?_spellOutAll_of_not_above hlinked (by rwa [root_cleared]), kind?_cleared]
  · exact kind?_cleared

theorem element?_searched (h : page.WellFormed) (habove : (cleared page).Above page.root n) :
    (searched s page).element? n = (page.element? n).map (written s) :=
  Page.element?_of_kind?_map (kind?_searched h habove)

theorem element?_searched_of_not_above (h : page.WellFormed)
    (habove : ¬ (cleared page).Above page.root n) : (searched s page).element? n = page.element? n :=
  Page.element?_congr (kind?_searched_of_not_above h habove)

theorem mem_children_searched (h : page.WellFormed) :
    n ∈ (searched s page).children id ↔ n ∈ page.children id ∧ n ∉ taken page := by
  rw [searched_sameLinks.children, cleared, h.linked.children_detachAll, List.mem_filter, decide_eq_true_iff]

/-! ## Collecting and creating -/

/-- The names that are required, first by configurations and then by elements, and the groups of the
scripts, those marked that custom elements bear the name of. -/
def needs (s : Settings.Extensions) (spec : Spec) (page : Page) : List String × List Group :=
  requirements spec (searched s page)
    ((((searched s page).elementChildren (searched s page).head).map
      (configuration (searched s page))).flatMap (·.1))
    (groupScripts (extensionScripts page))

/-- The page and the groups once every required name has been seen to. -/
def stocked (s : Settings.Extensions) (spec : Spec) (page : Page) : Page × List Group :=
  (needs s spec page).1.foldl (require s spec) (searched s page, (needs s spec page).2)

/-- The groups that go back into the head. -/
def retained (s : Settings.Extensions) (spec : Spec) (page : Page) : List Group :=
  if s.removeUnused then dropUnused (stocked s spec page).2 else (stocked s spec page).2

theorem page_run : (run s spec page).page = insertBlock (stocked s spec page).1
    (anchor? (stocked s spec page).1) (runtimeScripts page ++ nodesOf (retained s spec page)) := rfl

/-- The script that imports an extension. -/
def importElement (s : Settings.Extensions) (e : Extension) : Element :=
  .make "script" [("async", ""), (e.kind.attributeName, e.name),
    ("src", extensionSource cdnHost e.name
      (((s.versions.find? (·.1 == e.name)).map (·.2)).getD e.latest) false)]

/-- The extension may be imported under the name. -/
structure Importable (s : Settings.Extensions) (spec : Spec) (name : String) (e : Extension) : Prop where
  addMissing : s.addMissing = true
  notIgnored : name ∉ s.ignored
  extension? : spec.extension? name = some e

/-- The page with the script for an extension created. -/
def imported (s : Settings.Extensions) (page : Page) (e : Extension) : Page :=
  (page.create (.element (importElement s e))).1

/-- A required name is marked, passed over, or imported. -/
theorem require_cases (s : Settings.Extensions) (spec : Spec) (page : Page) (groups : List Group)
    (name : String) :
    (hasGroup groups name = true ∧ require s spec (page, groups) name = (page, markUsed groups name))
    ∨ (hasGroup groups name = false ∧ (∀ e, ¬ Importable s spec name e)
      ∧ require s spec (page, groups) name = (page, groups))
    ∨ ∃ e, hasGroup groups name = false ∧ Importable s spec name e
      ∧ require s spec (page, groups) name = (imported s page e, addScript name page.next true groups) := by
  cases hgroup : hasGroup groups name with
  | true => exact .inl ⟨rfl, by simp [require, hgroup]⟩
  | false =>
    by_cases hallowed : s.addMissing = true ∧ name ∉ s.ignored
    · cases hextension : spec.extension? name with
      | none =>
        refine .inr (.inl ⟨rfl, fun e he => ?_, by simp [require, hgroup, hextension]⟩)
        rw [he.extension?] at hextension
        cases hextension
      | some e =>
        refine .inr (.inr ⟨e, rfl, ⟨hallowed.1, hallowed.2, hextension⟩, ?_⟩)
        simp only [require, hgroup, hallowed.1, hextension, List.contains_eq_mem, hallowed.2]
        rfl
    · refine .inr (.inl ⟨rfl, fun e he => hallowed ⟨he.addMissing, he.notIgnored⟩, ?_⟩)
      have hrefused : (!s.addMissing || s.ignored.contains name) = true := by
        by_contra hnot
        rw [Bool.or_eq_true, Bool.not_eq_true', List.contains_iff_mem, not_or, Bool.not_eq_false] at hnot
        exact hallowed hnot
      rw [require, hgroup]
      exact if_pos hrefused

/-! ## Putting back -/

/-- The place of a script of the block: behind the one before it, the first behind the anchor. -/
def blockPlace (node : NodeId) : Option NodeId → List NodeId → List NodeId
  | none => (node :: ·)
  | some anchor => insertAfter node anchor

/-- The place for a script of the block is a place among the children. -/
theorem isPlacement_blockPlace (node : NodeId) (anchor : Option NodeId) :
    IsPlacement node (blockPlace node anchor) := by
  cases anchor with
  | none => exact isPlacement_cons node
  | some anchor => exact isPlacement_insertAfter node anchor

theorem insertBlock_cons (anchor : Option NodeId) (node : NodeId) (nodes : List NodeId) :
    insertBlock page anchor (node :: nodes)
      = insertBlock (page.attach page.head node (blockPlace node anchor)) (some node) nodes := by
  cases anchor <;> rfl

/-- The block does not touch the frame. -/
theorem insertBlock_sameFrame (anchor : Option NodeId) (nodes : List NodeId) :
    page.SameFrame (insertBlock page anchor nodes) := by
  induction nodes generalizing page anchor with
  | nil => exact .refl page
  | cons node nodes ih =>
    rw [insertBlock_cons]
    exact Page.attach_sameFrame.trans (ih _)

/-- Inserting moves nodes and does not change them. -/
theorem kind?_insertBlock (anchor : Option NodeId) (nodes : List NodeId) :
    (insertBlock page anchor nodes).kind? n = page.kind? n := by
  induction nodes generalizing page anchor with
  | nil => rfl
  | cons node nodes ih => rw [insertBlock_cons, ih, Page.kind?_attach]

/-- Nodes of the head that are put back stay, so the order in which they come does not matter. -/
theorem mem_children_insertBlock (h : page.WellFormed) (anchor : Option NodeId) {nodes : List NodeId}
    (hhas : ∀ m ∈ nodes, page.Has m) (hfixed : ∀ m ∈ nodes, ¬ page.IsFixed m) :
    n ∈ (insertBlock page anchor nodes).children page.head ↔ n ∈ page.children page.head ∨ n ∈ nodes := by
  induction nodes generalizing page anchor with
  | nil => simp [insertBlock]
  | cons node nodes ih =>
    obtain ⟨hnode, hhas⟩ := List.forall_mem_cons.mp hhas
    obtain ⟨hnodeFixed, hfixed⟩ := List.forall_mem_cons.mp hfixed
    have hplace := isPlacement_blockPlace node anchor
    have hframe : page.SameFrame (page.attach page.head node (blockPlace node anchor)) :=
      Page.attach_sameFrame
    have hrest := ih (h.attach_head hnode hnodeFixed hplace) (some node)
      (fun m hm => Page.has_attach.mpr (hhas m hm)) fun m hm => by
        rw [Page.IsFixed, hframe.root, hframe.head, hframe.body]
        exact hfixed m hm
    rw [hframe.head] at hrest
    rw [insertBlock_cons, hrest, h.linked.children_attach h.has_head, if_pos rfl, (hplace.perm _).mem_iff,
      List.mem_cons, List.mem_filter, bne_iff_ne, List.mem_cons]
    by_cases hn : n = node <;> simp [hn]

end AmpTuner.Extensions
