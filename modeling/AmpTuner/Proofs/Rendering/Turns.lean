import AmpTuner.Proofs.Rendering.Conversion
import AmpTuner.Proofs.Rendering.Decision
import Mathlib.Logic.Function.Basic

/-!
# One element after the other

The loop over the custom elements deals with each of them in a turn of its own, on a page that the turns before have
changed around it. What it does depends on nothing of that: an element is left alone, rejected or rendered for what it
was in the beginning.

* **`Turn`** records what a turn leaves, notes and stores, and **`Ends`** says how it can end.
* **`exists_turn`** is one turn, **`exists_turns`** the loop: later turns leave alone what an earlier one has done.
* **`exists_turns_finished`** says so of the pass up to the removal of the boilerplate.
-/

namespace AmpTuner.Rendering

open Markup (Element)
open Vocabulary (layoutMarker)

variable {page : Page} {id x : NodeId} {w w' : Work} {el el' : Element} {ids : List NodeId}

/-! ## What a turn can do -/

/-- The element that a turn leaves, what it notes of an element that cannot be rendered, and what it stores. -/
structure Turn where
  left : Element
  noted : List Issue
  stored : List Stored

/-- It is up to rendering to do something about the element. -/
def IsDue (page : Page) (id : NodeId) (el : Element) : Prop :=
  page.hasAncestor id "template" = false ∧ el.hasAttribute layoutMarker = false

/-- The three ways in which the turn of an element can end. -/
inductive Ends (due : Prop) (el : Element) (issues : List Issue) : Turn → Prop
  | passed (h : ¬ due) : Ends due el issues ⟨el, [], []⟩
  | rejected {issue : Issue} (h : due) (hplan : plan el = .error issue) : Ends due el issues ⟨el, [issue], []⟩
  | rendered {p : Plan} {el' : Element} {stored : List Stored} (h : due) (hplan : plan el = .ok p)
    (hconverted : Converted (attempts el p.layout) stored issues el el') :
    Ends due el issues ⟨rendered p.layout p.width p.height el', [], stored⟩

theorem Converted.mono {tried : List Attempt} {stored : List Stored} {issues issues' : List Issue}
    (h : Converted tried stored issues el el') (hsub : issues ⊆ issues') : Converted tried stored issues' el el' :=
  { h with fails := fun a ha hnot => ⟨(h.fails a ha hnot).1.mono hsub, (h.fails a ha hnot).2⟩ }

/-- Later issues take nothing back from the end of a turn. -/
theorem Ends.mono {due : Prop} {issues issues' : List Issue} {t : Turn} (h : Ends due el issues t)
    (hsub : issues ⊆ issues') : Ends due el issues' t := by
  cases h with
  | passed h => exact .passed h
  | rejected h hplan => exact .rejected h hplan
  | rendered h hplan hconverted => exact .rendered h hplan (hconverted.mono hsub)

/-- What a turn has done is that, apart from its element. -/
structure Takes (id : NodeId) (el : Element) (w w' : Work) (ρ : NodeId → NodeId) (t : Turn) : Prop
    extends Accounts t.stored t.noted w w' where
  tracked : Tracked [id] w.page w'.page ρ
  left : w'.page.element? (ρ id) = some t.left
  ends : Ends (IsDue w.page id el) el w'.issues t

/-! ## One turn -/

theorem isLayoutIssue_of_plan {issue : Issue} (h : plan el = .error issue) : isLayoutIssue issue = true := by
  cases rejects_of_plan h <;> rfl

/-- Looking at an experiment notes nothing of elements that cannot be rendered. -/
theorem accounts_checkExperiment (w : Work) (id : NodeId) (el : Element) :
    Accounts [] [] w (checkExperiment w id el).1 := by
  have used : Accounts [] [] w (isExperimentUsed w id).1 := by
    rw [isExperimentUsed]
    split
    · exact .refl w
    · split
      · exact .refl w
      · exact .refl w
      · exact .note_of_not rfl
  rw [checkExperiment]
  split
  · split
    · next w' hused =>
      rw [hused] at used
      exact used.trans (.note_of_not rfl)
    · next w' hused =>
      rw [hused] at used
      exact used
  · exact .refl w

/-- Applying the layout writes no rules and takes no budget. -/
theorem customText_budget_applyLayout (h : page.WellFormed) (hid : page.element? id = some el)
    (hcomponent : Markup.isComponent el.tag = true) (p : Plan) (heightsConverted : Bool) :
    (applyLayout page id p.layout p.width p.height heightsConverted).customText = page.customText
      ∧ (applyLayout page id p.layout p.width p.height heightsConverted).budget = page.budget :=
  ⟨customText_applyLayout h hid hcomponent _ _ _ _, (replaced_applyLayout h hid hcomponent _ _ _ _).frame.budget⟩

/-- An element that is due has a turn that ends in one of the three ways. -/
theorem exists_takes_renderElement (h : w.page.WellFormed) (hel : w.page.element? id = some el)
    (hcomponent : Markup.isComponent el.tag = true) (hdue : IsDue w.page id el) :
    ∃ ρ t, Takes id el w (renderElement w id el).1 ρ t := by
  rw [renderElement]
  split
  · next issue hplan =>
    refine ⟨_, ⟨el, [issue], []⟩, ?_, tracked_refl h, hel, .rejected hdue hplan⟩
    have hnoted := Accounts.note w issue
    rwa [layoutIssues, List.filter_cons_of_pos (isLayoutIssue_of_plan hplan), List.filter_nil] at hnoted
  · next p hplan =>
    obtain ⟨stored, el', haccounts, htracked, hel', hconverted⟩ := exists_converted_convertAll h hel p.layout
    generalize convertAll w id el p.layout = c at haccounts htracked hel' hconverted ⊢
    have hwell := htracked.wellFormed
    have hcomponent' : Markup.isComponent el'.tag = true := hconverted.tag ▸ hcomponent
    have happlied := replaced_applyLayout hwell hel' hcomponent' p.layout p.width p.height
      (c.converted.contains "heights")
    obtain ⟨htext, hbudget⟩ := customText_budget_applyLayout hwell hel' hcomponent' p (c.converted.contains "heights")
    have hrendered : Accounts [] [] c.work
        (c.work.edit (applyLayout · id p.layout p.width p.height (c.converted.contains "heights"))) :=
      .of_page rfl htext hbudget
    have hboth := haccounts.trans hrendered
    rw [List.append_nil] at hboth
    refine ⟨_, ⟨rendered p.layout p.width p.height el', [], stored⟩, hboth,
      htracked.trans (tracked_applyLayout hwell hel' hcomponent' _ _ _ _), ?_, .rendered hdue hplan hconverted⟩
    rw [Function.comp_apply, heir_self]
    exact happlied.element?_next

/-- Every custom element has a turn that ends in one of the three ways, whether or not it is due. -/
theorem exists_turn (h : w.page.WellFormed) (hel : w.page.element? id = some el)
    (hcomponent : Markup.isComponent el.tag = true) (free : Bool) :
    ∃ ρ t, Takes id el w (renderNext (w, free) id).1 ρ t := by
  have passed {w' : Work} (haccounts : Accounts [] [] w w') (hpage : w'.page = w.page)
      (hnot : ¬ IsDue w.page id el) : ∃ ρ t, Takes id el w w' ρ t := by
    refine ⟨fun x => x, ⟨el, [], []⟩, haccounts, ?_, ?_, .passed hnot⟩
    · rw [hpage]
      exact tracked_refl h
    · rw [hpage]
      exact hel
  have hchecked := accounts_checkExperiment w id el
  have hpage := (checkExperiment_yields w id el).2
  simp only [renderNext, hel]
  split
  · next htemplate => exact passed (.refl w) rfl fun hdue => Bool.eq_false_iff.mp hdue.1 htemplate
  · next htemplate =>
    split
    · next hmarked => exact passed hchecked hpage fun hdue => Bool.eq_false_iff.mp hdue.2 hmarked
    · next hmarked =>
      generalize (checkExperiment w id el).1 = w₁ at hchecked hpage ⊢
      have hdue : IsDue w₁.page id el := by
        rw [hpage]
        exact ⟨Bool.eq_false_iff.mpr htemplate, Bool.eq_false_iff.mpr hmarked⟩
      obtain ⟨ρ, t, ht⟩ := exists_takes_renderElement (hpage ▸ h) (hpage ▸ hel) hcomponent hdue
      refine ⟨ρ, t, hchecked.trans ht.toAccounts, hpage ▸ ht.tracked, ht.left, hpage ▸ ht.ends⟩

/-! ## All turns -/

/-- What the turns of some elements have done to them and to the accounts. -/
structure TakesAll (ids : List NodeId) (w w' : Work) (ρ : NodeId → NodeId) (turn : NodeId → Turn) : Prop
    extends Accounts (ids.flatMap fun x => (turn x).stored) (ids.flatMap fun x => (turn x).noted) w w' where
  left : ∀ x ∈ ids, w'.page.element? (ρ x) = some (turn x).left
  ends : ∀ x ∈ ids, ∀ el, w.page.element? x = some el → Ends (IsDue w.page x el) el w'.issues (turn x)

/-- The turns that follow leave alone what the first one has done, and find their elements as they were. -/
theorem Takes.followed {w'' : Work} {ρ σ : NodeId → NodeId} {t : Turn} {turn : NodeId → Turn}
    (h : Takes id el w w' ρ t) (hel : w.page.element? id = some el) (htracked : Tracked ids w'.page w''.page σ)
    (h' : TakesAll ids w' w'' σ turn) (hnot : id ∉ ids) (hids : ∀ x ∈ ids, w.page.Has x) :
    TakesAll (id :: ids) w w'' (σ ∘ ρ) (Function.update turn id t) := by
  have hturn {x : NodeId} (hx : x ∈ ids) : Function.update turn id t x = turn x := by
    refine Function.update_of_ne ?_ t turn
    rintro rfl
    exact hnot hx
  have hrest {α : Type} (f : Turn → List α) :
      ids.flatMap (fun x => f (Function.update turn id t x)) = ids.flatMap fun x => f (turn x) :=
    List.flatMap_congr fun x hx => by rw [hturn hx]
  have hothers {x : NodeId} (hx : x ∈ ids) : ρ x = x ∧ w'.page.kind? x = w.page.kind? x :=
    h.tracked.others x (hids x hx) fun hmem => hnot (List.mem_singleton.mp hmem ▸ hx)
  have haccounts := h.toAccounts.trans h'.toAccounts
  refine ⟨?_, ?_, ?_⟩
  · rw [List.flatMap_cons, List.flatMap_cons, Function.update_self, hrest (·.stored), hrest (·.noted)]
    exact haccounts
  · intro x hx
    rw [Function.comp_apply]
    rcases List.mem_cons.mp hx with rfl | hx
    · -- what has become of the first element is none of the elements to come
      have hhas : w.page.Has x := Page.has_of_element? hel
      have hnew : ρ x ∉ ids := by
        rcases h.tracked.moved x hhas with hsame | hnew
        · rwa [hsame]
        · exact fun hmem => hnew (hids _ hmem)
      rw [Function.update_self, (htracked.others (ρ x) (h.tracked.has x hhas) hnew).1,
        htracked.element? (h.tracked.has x hhas) hnew, h.left]
    · rw [hturn hx, (hothers hx).1, h'.left x hx]
  · intro x hx el' hel'
    rcases List.mem_cons.mp hx with rfl | hx
    · obtain rfl := Option.some.inj (hel.symm.trans hel')
      rw [Function.update_self]
      exact h.ends.mono h'.issues
    · have hdue : IsDue w'.page x el' = IsDue w.page x el' := by
        have htemplate := h.tracked.template x (hids x hx)
        rw [(hothers hx).1] at htemplate
        rw [IsDue, htemplate, IsDue]
      rw [hturn hx, ← hdue]
      exact h'.ends x hx el' (by rw [Page.element?_congr (hothers hx).2, hel'])

/-- All turns together: every element is found as its own turn left it. The induction is on the list of elements, and
no turn touches an element of a later one. -/
theorem exists_turns (h : w.page.WellFormed) (hnodup : ids.Nodup) (hids : ∀ id ∈ ids, w.page.IsComponent id)
    (free : Bool) : ∃ ρ turn, Tracked ids w.page (ids.foldl renderNext (w, free)).1.page ρ
      ∧ TakesAll ids w (ids.foldl renderNext (w, free)).1 ρ turn := by
  induction ids generalizing w free with
  | nil =>
    have hnone : ∀ x, x ∉ ([] : List NodeId) := by simp
    exact ⟨fun x => x, fun _ => ⟨⟨"", []⟩, [], []⟩, tracked_refl h, .refl w, fun x hx => absurd hx (hnone x),
      fun x hx => absurd hx (hnone x)⟩
  | cons id ids ih =>
    obtain ⟨hid, hids⟩ := List.forall_mem_cons.mp hids
    obtain ⟨hnot, hnodup⟩ := List.nodup_cons.mp hnodup
    have ⟨el, hel, hcomponent⟩ := hid
    obtain ⟨ρ, t, hfirst⟩ := exists_turn h hel hcomponent free
    obtain ⟨_, hyields, -⟩ := renderNext_yields h hid free
    have hsteady := hyields.steady h
    obtain ⟨σ, turn, htracked, hrest⟩ := ih hsteady.wellFormed hnodup (fun x hx => hsteady.isComponent (hids x hx))
      (renderNext (w, free) id).2
    have hhas : ∀ x ∈ ids, w.page.Has x := by
      intro x hx
      obtain ⟨el, hel, -⟩ := hids x hx
      exact Page.has_of_element? hel
    refine ⟨_, _, ?_, hfirst.followed hel htracked hrest hnot hhas⟩
    exact (hfirst.tracked.mono (by simp)).trans (htracked.mono (by simp))

/-! ## The whole loop -/

theorem nodup_components (h : page.Linked) : page.components.Nodup := by
  rw [Page.components, Page.elementsWhere, h.descendants_eq_preorder]
  exact h.nodup_preorder.filter _

/-- Marking the root is about no custom element. -/
theorem tracked_marked (h : page.WellFormed) : Tracked [page.root] page (marked page) fun x => x := by
  have hmarker : ∀ el : Element, el.hasAttribute layoutMarker = true →
      (el.set layoutMarker "").hasAttribute layoutMarker = true := fun _ _ => Element.hasAttribute_set_self
  have htraced : Traced page (marked page) fun x => x := traced_mapElement (fun _ => rfl) hmarker
  have hlinks : page.SameLinks (marked page) := Page.mapElement_sameLinks _
  refine .of_sameLinks htraced h (marked_wellFormed h) hlinks rfl (fun x hx => (Page.has_mapElement _).mpr hx)
    fun x _ hnot => ?_
  exact Page.kind?_mapElement_of_ne _ (by simpa using hnot)

/-- The notes about scripts are none about layouts, and store nothing. -/
theorem accounts_noteDelaying (w : Work) : Accounts [] [] w (noteDelaying w) := by
  rw [noteDelaying]
  generalize delayingScripts w.page = names
  induction names generalizing w with
  | nil => exact .refl w
  | cons name names ih =>
    have hnoted : Accounts [] [] w (w.note (.renderDelayingScript name)) := .note_of_not rfl
    exact hnoted.trans (ih _)

/-- The mark on the root is no custom element's. -/
theorem components_marked (h : page.WellFormed) : (marked page).components = page.components := by
  have hlinks : page.SameLinks (marked page) := Page.mapElement_sameLinks _
  have hmarked := (marked_wellFormed h).linked
  have hbelow : (marked page).preorder page.root = page.preorder page.root :=
    h.linked.preorder_congr hmarked (S := fun _ => True) (fun _ _ _ _ => trivial) (fun a _ => hlinks.children a) trivial
  rw [Page.components, Page.elementsWhere, hmarked.descendants_eq_preorder, Page.components, Page.elementsWhere,
    h.linked.descendants_eq_preorder]
  show List.filter _ ((marked page).preorder page.root) = _
  rw [hbelow]
  refine List.filter_congr fun c _ => ?_
  have htag : ∀ el : Element, Markup.isComponent (el.set layoutMarker "").tag = Markup.isComponent el.tag :=
    fun _ => rfl
  rw [marked, Page.setAttribute]
  exact Page.isElement_mapElement (p := fun el => Markup.isComponent el.tag) htag c

/-- The mark stores nothing and notes nothing. -/
theorem accounts_marked (h : page.WellFormed) : Accounts [] [] ⟨page, []⟩ ⟨marked page, []⟩ := by
  have hneutral : Page.Neutral (·.set layoutMarker "") := .set "" (by decide)
  have hframe : page.SameFrame (marked page) := Page.mapElement_sameFrame _
  have htext : (marked page).customText = page.customText := h.customText_mapElement hneutral
  exact .of_page rfl htext hframe.budget

/-- Up to the removal of the boilerplate, the pass is the turns of all custom elements. -/
theorem exists_turns_finished (h : page.WellFormed) :
    ∃ ρ turn, Tracked (page.root :: page.components) page (finished page).1.page ρ
      ∧ TakesAll page.components ⟨page, []⟩ (finished page).1 ρ turn := by
  have hwell := marked_wellFormed h
  have hmarked := tracked_marked h
  have hnodup := nodup_components hwell.linked
  have hids : ∀ id ∈ (marked page).components, (marked page).IsComponent id :=
    fun id hid => isComponent_of_mem_components hwell.linked hid
  obtain ⟨ρ, turn, htracked, hturns⟩ := exists_turns (w := ⟨marked page, []⟩) hwell hnodup hids true
  rw [components_marked h] at htracked hturns
  have hfinished : (finished page).1 = noteDelaying (page.components.foldl renderNext (⟨marked page, []⟩, true)).1 := by
    rw [finished, loop, components_marked h]
  have hpage : (finished page).1.page = (page.components.foldl renderNext (⟨marked page, []⟩, true)).1.page := by
    rw [hfinished, (noteDelaying_yields _).2]
  have hdelaying := accounts_noteDelaying (page.components.foldl renderNext (⟨marked page, []⟩, true)).1
  rw [← hfinished] at hdelaying
  have hall := ((accounts_marked h).trans hturns.toAccounts).trans hdelaying
  rw [List.nil_append, List.nil_append, List.append_nil, List.append_nil] at hall
  refine ⟨ρ, turn, ?_, hall, fun x hx => ?_, fun x hx el hel => ?_⟩
  · rw [hpage]
    exact (hmarked.mono (by simp)).trans (htracked.mono (by simp))
  · rw [hpage]
    exact hturns.left x hx
  · -- the root is no custom element
    have hne : x ∉ [page.root] := by
      rintro hmem
      obtain rfl := List.mem_singleton.mp hmem
      exact h.not_isFixed_of_isComponent (isComponent_of_mem_components h.linked hx) (.inl rfl)
    have hhas := Page.has_of_element? hel
    have hdue : IsDue (marked page) x el = IsDue page x el := by
      rw [IsDue, hmarked.template x hhas, IsDue]
    have hends := hturns.ends x hx el (by rw [← hel]; exact hmarked.element? hhas hne)
    rw [hdue] at hends
    exact hends.mono hdelaying.issues

end AmpTuner.Rendering
