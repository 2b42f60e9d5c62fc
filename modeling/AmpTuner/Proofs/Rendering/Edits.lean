import AmpTuner.Proofs.Rendering.Layout
import AmpTuner.Proofs.Page.Stylesheet
import AmpTuner.Proofs.Css.Rules
import Mathlib.Logic.Relation

/-!
# Rendering as a sequence of edits

Whatever rendering does to a page while it goes through the custom elements is one of four kinds of edit:
counting a generated identifier, changing an attribute of a custom element, appending rules that the
budget has room for, and replacing a custom element by its rendered copy.

* **`Edit`** lists the four, and **`Edit.steady`** says once what all of them leave alone.
* **`Yields`** is what a function of the loop does: it edits the page and notes issues, and tells whether
  one of these keeps the boilerplate. There is one lemma for each function, up to **`renderNext_yields`**.
* **`finished_yields`** is the whole loop, so that no later proof looks into it again.
-/

namespace AmpTuner.Rendering

open Markup (Element)
open Vocabulary (layoutMarker)
open Css (Length Budget Rules Unconvertible)
open Relation (ReflTransGen)

variable {page page' page'' : Page} {id x : NodeId}

/-! ## The edits -/

/-- The attributes of a custom element that may go: those that became rules, and an identifier that was
generated in vain. -/
def convertibleNames : List String := ["id", "sizes", "heights", "media"]

/-- How an attribute of a custom element may change. -/
inductive IsChange : (Element → Element) → Prop where
  | identify (value : String) : IsChange (·.set "id" value)
  | drop {name : String} (hname : name ∈ convertibleNames) : IsChange (·.erase name)

/-- One change that the loop makes to the page: a counter, an attribute of a custom element, text at the end of the
stylesheet for which there was room, or the layout of a custom element. -/
inductive Edit (page : Page) : Page → Prop where
  | count (n : Nat) : Edit page { page with nextGenerated := n }
  | change {id : NodeId} {f : Element → Element} (hid : page.IsComponent id) (hf : IsChange f) :
      Edit page (page.mapElement id f)
  | append {css : String} {budget : Budget}
      (hroom : page.budget.allocate? css.utf8ByteSize = some budget) :
      Edit page ({ page with budget }.appendCustomCss css)
  | apply {id : NodeId} {el : Element} (hid : page.element? id = some el)
      (hcomponent : Markup.isComponent el.tag = true) (layout : Layout) (width height : Length)
      (heightsConverted : Bool) : Edit page (applyLayout page id layout width height heightsConverted)

/-- Any number of such changes, one after the other. -/
def Edits : Page → Page → Prop := ReflTransGen Edit

namespace IsChange

variable {f : Element → Element} (hf : IsChange f) (el : Element)

include hf

theorem tag : (f el).tag = el.tag := by cases hf <;> rfl

/-- A change of attributes neither sets nor takes the mark of a rendered element. -/
theorem hasAttribute_layoutMarker : (f el).hasAttribute layoutMarker = el.hasAttribute layoutMarker := by
  cases hf with
  | identify value =>
    rw [Element.hasAttribute_eq_isSome, Element.hasAttribute_eq_isSome,
      Element.attribute?_set_of_ne (by decide)]
  | drop hname =>
    refine Element.hasAttribute_erase_of_ne fun heq => ?_
    rw [← heq] at hname
    exact absurd hname (by decide)

theorem distinct {el : Element} (hel : el.Distinct) : (f el).Distinct := by
  cases hf with
  | identify value => exact hel.set
  | drop hname => exact hel.erase

theorem readable {el : Element} (hel : el.Readable) : (f el).Readable := by
  cases hf with
  | identify value => exact hel.set (Markup.isName_of_all (by decide) (by decide))
  | drop hname => exact hel.erase

end IsChange

/-! ## What an edit leaves alone -/

/-- The fixed elements and all tags stay, and so do the elements that are no custom elements, in their
places unless they stood in a style or a custom element. -/
structure Steady (page page' : Page) : Prop where
  wellFormed : page'.WellFormed
  doctype : page'.doctype = page.doctype
  root : page'.root = page.root
  head : page'.head = page.head
  tag? : ∀ x tag, page.tag? x = some tag → page'.tag? x = some tag
  element? : ∀ x el, page.element? x = some el → Markup.isComponent el.tag = false →
    page'.element? x = some el
  parent? : ∀ x el p pel, page.element? x = some el → Markup.isComponent el.tag = false →
    page.parent? x = some p → page.element? p = some pel → Markup.isComponent pel.tag = false →
    pel.tag ≠ "style" → page'.parent? x = some p

namespace Steady

theorem refl (h : page.WellFormed) : Steady page page :=
  ⟨h, rfl, rfl, rfl, fun _ _ h => h, fun _ _ h _ => h, fun _ _ _ _ _ _ h _ _ _ => h⟩

/-- Two steady changes, one after the other, are steady. -/
theorem trans (h : Steady page page') (h' : Steady page' page'') : Steady page page'' where
  wellFormed := h'.wellFormed
  doctype := h'.doctype.trans h.doctype
  root := h'.root.trans h.root
  head := h'.head.trans h.head
  tag? x tag hx := h'.tag? x tag (h.tag? x tag hx)
  element? x el hel hplain := h'.element? x el (h.element? x el hel hplain) hplain
  parent? x el p pel hel hplain hp hpel hpplain hpstyle :=
    h'.parent? x el p pel (h.element? x el hel hplain) hplain
      (h.parent? x el p pel hel hplain hp hpel hpplain hpstyle) (h.element? p pel hpel hpplain) hpplain
      hpstyle

theorem isComponent (h : Steady page page') (hx : page.IsComponent x) : page'.IsComponent x :=
  hx.of_tag? (h.tag? x)

end Steady

theorem tag?_of_sameKinds (h : page.SameKinds page') (x : NodeId) (tag : String)
    (hx : page.tag? x = some tag) : page'.tag? x = some tag := by
  rw [Page.tag?_congr (h.kind? x (Page.has_of_tag? hx)), hx]

/-- The counters of a page say nothing of its nodes. -/
theorem steady_withCounters (h : page.WellFormed) (budget : Budget) (n : Nat) :
    Steady page { page with budget, nextGenerated := n } :=
  { Steady.refl h with wellFormed := h.withCounters budget n }

/-- Text at the end of the stylesheet is a steady change, also if a style has to be made for it. -/
theorem steady_appendCustomCss (h : page.WellFormed) (css : String) :
    Steady page (page.appendCustomCss css) where
  wellFormed := h.appendCustomCss css
  doctype := (Page.appendCustomCss_sameFrame css).doctype
  root := (Page.appendCustomCss_sameFrame css).root
  head := (Page.appendCustomCss_sameFrame css).head
  tag? := tag?_of_sameKinds (Page.appendCustomCss_sameKinds css)
  element? x el hel _ := (Page.appendCustomCss_sameKinds css).element? hel
  parent? x el p pel hel _ hp hpel _ hstyle := by
    -- only what stood in the stylesheet loses its place, and its parent would be a style
    refine (h.parent?_appendCustomCss css (Page.has_of_element? hel)).mpr ⟨hp, fun hcustom => ?_⟩
    exact hstyle (h.tag_of_customStyle? hcustom hpel)

/-- Each edit is steady, by its four cases. -/
theorem Edit.steady (h : page.WellFormed) (he : Edit page page') : Steady page page' := by
  cases he with
  | count n => exact steady_withCounters h page.budget n
  | @change id f hid hf =>
    have hlinks : page.SameLinks (page.mapElement id f) := Page.mapElement_sameLinks f
    exact
      { wellFormed := h.mapElement hf.tag fun _ => hf.distinct
        doctype := rfl
        root := rfl
        head := rfl
        tag? := fun x tag hx => (Page.tag?_mapElement hf.tag _ x).trans hx
        element? := by
          intro x el hel hplain
          rw [Page.element?_mapElement, if_neg (hid.ne_of_element? hel hplain), hel]
        parent? := fun x _ p _ _ _ hp _ _ _ => by rw [hlinks.parent?, hp] }
  | @append css budget hroom =>
    have hcounted := steady_withCounters h budget page.nextGenerated
    exact hcounted.trans (steady_appendCustomCss hcounted.wellFormed css)
  | @apply id el hid hcomponent layout width height heightsConverted =>
    have hreplaced := replaced_applyLayout h hid hcomponent layout width height heightsConverted
    -- neither the node nor its parent gives its place to a copy
    have hne {x : NodeId} {el' : Element} (hel : page.element? x = some el')
        (hplain : Markup.isComponent el'.tag = false) : x ≠ id :=
      Page.IsComponent.ne_of_element? ⟨_, hid, hcomponent⟩ hel hplain
    exact
      { wellFormed := hreplaced.wellFormed
        doctype := hreplaced.frame.doctype
        root := hreplaced.frame.root
        head := hreplaced.frame.head
        tag? := tag?_of_sameKinds hreplaced.sameKinds
        element? := fun x el' hel _ => hreplaced.sameKinds.element? hel
        parent? := by
          intro x el' p pel hel hplain hp hpel hpplain _
          rw [hreplaced.parent? x (Page.has_of_element? hel) (hne hel hplain), hp, Option.map_some,
            heir_of_ne (hne hpel hpplain)] }

theorem Edits.steady (h : page.WellFormed) (he : Edits page page') : Steady page page' := by
  induction he with
  | refl => exact .refl h
  | tail _ hstep ih => exact ih.trans (hstep.steady ih.wellFormed)

/-! ## Edits and issues of the loop -/

/-- The issue keeps the boilerplate. -/
def Vetoes (i : Issue) : Prop := i.kind = .rendering ∨ i.kind = .boilerplateRemoval

/-- The page was edited, and `free` tells whether nothing that was noted meanwhile keeps the boilerplate. -/
structure Yields (w w' : Work) (free : Bool) : Prop where
  edits : Edits w.page w'.page
  issues : ∃ more, w'.issues = w.issues ++ more ∧ (free = true ↔ ∀ i ∈ more, ¬ Vetoes i)

namespace Yields

variable {w w' w'' : Work} {a b : Bool}

theorem refl (w : Work) : Yields w w true := ⟨.refl, [], by simp, by simp⟩

/-- Of two stretches of work, both must leave the boilerplate free. -/
theorem trans (h : Yields w w' a) (h' : Yields w' w'' b) : Yields w w'' (a && b) := by
  obtain ⟨more, hissues, hfree⟩ := h.issues
  obtain ⟨more', hissues', hfree'⟩ := h'.issues
  refine ⟨h.edits.trans h'.edits, more ++ more', ?_, ?_⟩
  · rw [hissues', hissues, List.append_assoc]
  · rw [Bool.and_eq_true, hfree, hfree', List.forall_mem_append]

theorem edit (h : Yields w w' a) {f : Page → Page} (hf : Edits w'.page (f w'.page)) :
    Yields w (w'.edit f) a :=
  ⟨h.edits.trans hf, h.issues⟩

theorem note {i : Issue} (hi : a = true ↔ ¬ Vetoes i) : Yields w (w.note i) a :=
  ⟨.refl, [i], rfl, by rw [hi, List.forall_mem_singleton]⟩

theorem veto {i : Issue} (hi : Vetoes i) : Yields w (w.note i) false := note (by simp [hi])

/-- Nothing was noted that keeps the boilerplate, or something was. -/
theorem free_iff (h : Yields w w' a) (hw : w.issues = []) : a = true ↔ ∀ i ∈ w'.issues, ¬ Vetoes i := by
  obtain ⟨more, hissues, hfree⟩ := h.issues
  rw [hissues, hw, List.nil_append, hfree]

theorem steady (h : Yields w w' a) (hw : w.page.WellFormed) : Steady w.page w'.page :=
  h.edits.steady hw

end Yields

/-! ## One lemma for each function -/

section Functions

variable {w : Work} {el : Element}

/-- Generating an identifier counts and changes one attribute. -/
theorem generateId_edits (h : page.WellFormed) (hid : page.IsComponent id) :
    Edits page (page.generateId id).1 := by
  let n := page.freshFrom page.nextGenerated page.nodes.size
  have hcounted : Steady page { page with nextGenerated := n + 1 } :=
    steady_withCounters h page.budget (n + 1)
  exact (ReflTransGen.single (.count (n + 1))).tail (.change (hcounted.isComponent hid) (.identify _))

/-- Asking for an identifier makes at most the edits of generating one. -/
theorem elementId_edits (h : page.WellFormed) (hid : page.IsComponent id) :
    Edits page (page.elementId id).1 := by
  rw [Page.elementId]
  split
  · exact generateId_edits h hid
  · split
    · exact generateId_edits h hid
    · exact .refl

/-- Storing the rules of an attribute edits the page, and tells of a failure exactly if it notes one that vetoes. -/
theorem storeRules_yields (h : w.page.WellFormed) (hid : w.page.IsComponent id) {name : String}
    (hname : name ∈ convertibleNames) (tag : String) (rules : Rules) :
    Yields w (storeRules w id tag name rules).1 (storeRules w id tag name rules).2 := by
  have hidentified := elementId_edits h hid
  have hsteady := hidentified.steady h
  rw [storeRules]
  dsimp only
  split
  · have hnoted : Yields w (w.edit fun _ => (w.page.elementId id).1) true := (Yields.refl w).edit hidentified
    exact hnoted.trans (.veto (.inl rfl))
  · next budget hroom =>
    -- the budget is asked for the running total, which is the size of the text that is appended
    rw [Rules.byteCount_applyId] at hroom
    have happended : Edits w.page _ := hidentified.tail (.append hroom)
    have hid' := (happended.steady h).isComponent hid
    exact ⟨happended.tail (.change hid' (.drop hname)), [], by simp, by simp⟩

/-- One conversion edits the page, and tells of a failure exactly if it notes one that vetoes, whether or not its text
makes rules. -/
theorem convert_yields (h : w.page.WellFormed) (hid : w.page.IsComponent id) {name : String}
    (hname : name ∈ convertibleNames) (tag : String) (rules : Except Unconvertible Rules) :
    Yields w (convert w id tag name rules).1 (convert w id tag name rules).2 := by
  cases rules with
  | ok rules => exact storeRules_yields h hid hname tag rules
  | error e =>
    have hinvalid : Yields w (w.note (.invalidAttribute tag name e.message)) true :=
      .note (by simp [Vetoes, Issue.kind])
    exact hinvalid.trans (.veto (.inr rfl))

/-- A turn of the loop over the attributes keeps a failure that there was, and adds its own. -/
theorem convertNext_yields (h : w.page.WellFormed) (hid : w.page.IsComponent id) (tag : String)
    {c : Conversion} (hc : Yields w c.work (!c.failed))
    {a : String × (String → Except Unconvertible Rules)} (ha : a.1 ∈ convertibleNames) :
    Yields w (convertNext id tag c a).work (!(convertNext id tag c a).failed) := by
  have hsteady := hc.steady h
  rw [convertNext]
  split
  · exact hc
  · next value _ =>
    have hdone := hc.trans (convert_yields hsteady.wellFormed (hsteady.isComponent hid) ha tag (a.2 value))
    simpa using hdone

/-- The attributes that block rendering are among those that may go. -/
theorem name_mem_of_mem_blockingAttributes {layout : Layout}
    {a : String × (String → Except Unconvertible Rules)} (ha : a ∈ blockingAttributes el layout) :
    a.1 ∈ convertibleNames := by
  simp only [blockingAttributes, List.mem_append, List.mem_singleton] at ha
  rcases ha with (ha | ha) | rfl
  · split at ha
    · rw [List.mem_singleton.mp ha]
      decide
    · cases ha
  · split at ha
    · rw [List.mem_singleton.mp ha]
      decide
    · cases ha
  · decide

/-- All conversions of an element, with the cleanup, edit the page and fail exactly if a note vetoes. -/
theorem convertAll_yields (h : w.page.WellFormed) (hid : w.page.IsComponent id) (el : Element)
    (layout : Layout) :
    Yields w (convertAll w id el layout).work (!(convertAll w id el layout).failed) := by
  have hall : Yields w ((blockingAttributes el layout).foldl (convertNext id el.tag) { work := w }).work
      (!((blockingAttributes el layout).foldl (convertNext id el.tag) { work := w }).failed) := by
    -- one conversion after the other; the first that fails is remembered by the ones behind it
    have run (attributes : List (String × (String → Except Unconvertible Rules)))
        (hnames : ∀ a ∈ attributes, a.1 ∈ convertibleNames) (c : Conversion)
        (hc : Yields w c.work (!c.failed)) :
        Yields w (attributes.foldl (convertNext id el.tag) c).work
          (!(attributes.foldl (convertNext id el.tag) c).failed) := by
      induction attributes generalizing c with
      | nil => exact hc
      | cons a attributes ih =>
        obtain ⟨ha, hnames⟩ := List.forall_mem_cons.mp hnames
        exact ih hnames _ (convertNext_yields h hid el.tag hc ha)
    exact run _ (fun a ha => name_mem_of_mem_blockingAttributes ha) _ (.refl w)
  rw [convertAll]
  split
  · have hdrop : IsChange (·.erase "id") := .drop (by decide)
    refine hall.edit (f := (·.removeAttribute id "id")) ?_
    exact .single (.change ((hall.steady h).isComponent hid) hdrop)
  · exact hall

/-- Every issue of a plan is about rendering. -/
theorem kind_of_plan_error {issue : Issue} (h : plan el = .error issue) : issue.kind = .rendering := by
  unfold plan at h
  dsimp only at h
  repeat' split at h
  all_goals first
    | (obtain rfl := Except.error.inj h; rfl)
    | cases h

/-- Rendering lets the boilerplate go only where it puts a copy in place of the element. -/
theorem renderElement_yields (h : w.page.WellFormed) (hid : w.page.IsComponent id) (el : Element) :
    Yields w (renderElement w id el).1 (renderElement w id el).2
      ∧ ((renderElement w id el).2 = true → ∃ (before : Page) (p : Plan) (heightsConverted : Bool),
          Edits w.page before ∧ (renderElement w id el).1.page
            = applyLayout before id p.layout p.width p.height heightsConverted) := by
  rw [renderElement]
  split
  · next issue hplan => exact ⟨.veto (.inl (kind_of_plan_error hplan)), by simp⟩
  · next p hplan =>
    have hconverted := convertAll_yields h hid el p.layout
    obtain ⟨el', hel', hcomponent⟩ := (hconverted.steady h).isComponent hid
    refine ⟨?_, fun _ => ⟨_, p, _, hconverted.edits, rfl⟩⟩
    refine hconverted.edit (f := (applyLayout · id p.layout p.width p.height _)) ?_
    exact .single (.apply hel' hcomponent p.layout p.width p.height _)

/-- Looking at an experiment leaves the page alone. -/
theorem checkExperiment_yields (w : Work) (id : NodeId) (el : Element) :
    Yields w (checkExperiment w id el).1 (checkExperiment w id el).2
      ∧ (checkExperiment w id el).1.page = w.page := by
  -- a configuration that cannot be read is noted, but does not keep the boilerplate
  have used : Yields w (isExperimentUsed w id).1 true ∧ (isExperimentUsed w id).1.page = w.page := by
    rw [isExperimentUsed]
    split
    · exact ⟨.refl w, rfl⟩
    · split
      · exact ⟨.refl w, rfl⟩
      · exact ⟨.refl w, rfl⟩
      · exact ⟨.note (by simp [Vetoes, Issue.kind]), rfl⟩
  rw [checkExperiment]
  split
  · split
    · next w' hused =>
      rw [hused] at used
      exact ⟨used.1.trans (.veto (.inr rfl)), used.2⟩
    · next w' hused =>
      rw [hused] at used
      exact used
  · exact ⟨.refl w, rfl⟩

/-- One turn of the loop. -/
theorem renderNext_yields (h : w.page.WellFormed) (hid : w.page.IsComponent id) (free : Bool) :
    ∃ done, Yields w (renderNext (w, free) id).1 done ∧ (renderNext (w, free) id).2 = (free && done) := by
  rw [renderNext]
  dsimp only
  split
  · exact ⟨true, .refl w, by simp⟩
  · next el hel =>
    split
    · exact ⟨true, .refl w, by simp⟩
    · obtain ⟨hchecked, hpage⟩ := checkExperiment_yields w id el
      split
      · exact ⟨_, hchecked, rfl⟩
      · rw [← hpage] at h hid
        have hrendered := (renderElement_yields h hid el).1
        exact ⟨_, hchecked.trans hrendered, Bool.and_assoc ..⟩

/-- The loop over elements ends free exactly if it began free and noted nothing that vetoes, by induction on the
elements. -/
theorem foldl_renderNext_yields {ids : List NodeId} (h : w.page.WellFormed)
    (hids : ∀ id ∈ ids, w.page.IsComponent id) (free : Bool) :
    ∃ done, Yields w (ids.foldl renderNext (w, free)).1 done
      ∧ (ids.foldl renderNext (w, free)).2 = (free && done) := by
  -- the elements still to come are custom elements of every page between
  induction ids generalizing w free with
  | nil => exact ⟨true, .refl w, by simp⟩
  | cons id ids ih =>
    obtain ⟨hid, hids⟩ := List.forall_mem_cons.mp hids
    obtain ⟨done, hfirst, hfree⟩ := renderNext_yields h hid free
    have hsteady := hfirst.steady h
    obtain ⟨done', hrest, hfree'⟩ :=
      ih hsteady.wellFormed (fun y hy => hsteady.isComponent (hids y hy)) (renderNext (w, free) id).2
    refine ⟨done && done', hfirst.trans hrest, ?_⟩
    rw [List.foldl_cons, hfree', hfree, Bool.and_assoc]

end Functions

/-! ## The whole run -/

/-- The page with the mark that keeps it from being rendered twice. -/
def marked (page : Page) : Page := page.setAttribute page.root layoutMarker ""

/-- The turns of all custom elements of the page, which has been marked before. -/
def loop (page : Page) : Work × Bool :=
  (marked page).components.foldl renderNext (⟨marked page, []⟩, true)

/-- A note for each script that delays rendering. -/
def noteDelaying (w : Work) : Work :=
  (delayingScripts w.page).foldl (fun w name => w.note (.renderDelayingScript name)) w

/-- The work when all custom elements and scripts were seen, and whether the boilerplate may go. -/
def finished (page : Page) : Work × Bool :=
  (noteDelaying (loop page).1, (loop page).2 && (delayingScripts (loop page).1.page).isEmpty)

/-- A page without the mark goes through the loop, and loses the boilerplate if nothing was noted against it and the
settings allow it. -/
theorem run_of_unmarked (h : page.hasAttribute page.root layoutMarker = false) (s : Settings.Rendering) :
    run s page
      = if (finished page).2 && s.removeBoilerplate then (finished page).1.edit removeBoilerplate
        else (finished page).1 := by
  rw [run, if_neg (by simp [h])]
  rfl

theorem run_of_marked (h : page.hasAttribute page.root layoutMarker = true) (s : Settings.Rendering) :
    run s page = ⟨page, []⟩ := by
  rw [run, if_pos h]

/-- The scripts that delay rendering veto, and are only noted. -/
theorem noteDelaying_yields (w : Work) :
    Yields w (noteDelaying w) (delayingScripts w.page).isEmpty ∧ (noteDelaying w).page = w.page := by
  rw [noteDelaying]
  generalize delayingScripts w.page = names
  induction names generalizing w with
  | nil => exact ⟨.refl w, rfl⟩
  | cons name names ih =>
    have hveto : Yields w (w.note (.renderDelayingScript name)) false := .veto (.inr rfl)
    exact ⟨hveto.trans (ih _).1, (ih _).2⟩

theorem marked_wellFormed (h : page.WellFormed) : (marked page).WellFormed := h.setAttribute

theorem isComponent_of_mem_components (h : page.Linked) (hx : x ∈ page.components) :
    page.IsComponent x :=
  ((Page.mem_components_iff h).mp hx).2

/-- Up to the removal of the boilerplate, a run is a sequence of edits, and the boilerplate may go exactly
when nothing was noted that keeps it. -/
theorem finished_yields (h : page.WellFormed) :
    Yields ⟨marked page, []⟩ (finished page).1 (finished page).2 := by
  have hmarked := marked_wellFormed h
  obtain ⟨done, hloop, hfree⟩ := foldl_renderNext_yields (w := ⟨marked page, []⟩) hmarked
    (fun id hid => isComponent_of_mem_components hmarked.linked hid) true
  have hloop' : Yields ⟨marked page, []⟩ (loop page).1 (loop page).2 := by
    rw [loop, hfree, Bool.true_and]
    exact hloop
  exact hloop'.trans (noteDelaying_yields _).1

end AmpTuner.Rendering
