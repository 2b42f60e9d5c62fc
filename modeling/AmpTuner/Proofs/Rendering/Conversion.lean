import AmpTuner.Proofs.Page.Identifiers
import AmpTuner.Proofs.Rendering.StyleText
import AmpTuner.Proofs.Rendering.Tracking

/-!
# What the conversion of attributes leaves behind

Up to three attributes of an element become rules, or fail to, one after the other. A failure may come after the
element was given an identifier for its rules, and the attempts that follow share that identifier.

* **`Converts`** says what attempts leave of the element, and **`Conducts`** what of the page: the text of the
  stylesheet and the budget show what was stored, and nothing of what failed.
* **`Conducts.trans`** puts attempts together, so that it is enough to look at one (**`exists_conducts_convert`**).
* **`exists_converted_convertAll`** adds the cleanup, by which an identifier that was generated in vain goes again,
  unless it stands in the place of an empty one.
-/

namespace AmpTuner.Rendering

open Markup (Element)
open Css (Rules Unconvertible)

variable {page page' : Page} {id : NodeId} {w w' w'' : Work} {el el' el'' : Element} {tag name : String}

/-! ## Attempts -/

/-- The value of an attribute was read as rules, or could not be. -/
structure Attempt where
  name : String
  rules : Except Unconvertible Rules

/-- Rules that were put into the stylesheet in place of an attribute. -/
structure Stored where
  name : String
  rules : Rules

/-- One attempt for each of the attributes that the element has. -/
def attemptsOf (attributes : List (String × (String → Except Unconvertible Rules))) (el : Element) : List Attempt :=
  attributes.filterMap fun a => (el.attribute? a.1).map fun value => ⟨a.1, a.2 value⟩

/-- The attempts that are made for an element. -/
def attempts (el : Element) (layout : Layout) : List Attempt := attemptsOf (blockingAttributes el layout) el

/-- The attribute's text was turned into rules, so that an attempt can fail for want of room only. -/
def Attempt.IsWellFormed (a : Attempt) : Prop := ∃ rules, a.rules = .ok rules

/-- The names of the attributes that are gone. -/
def Stored.names (stored : List Stored) : List String := stored.map (·.name)

/-- The text that was stored. -/
def Stored.text (stored : List Stored) : String := String.join (stored.map (·.rules.toCss))

/-- The bytes the stored rules take, which is what they are charged for. -/
def Stored.bytes (stored : List Stored) : Nat := (Stored.text stored).utf8ByteSize

theorem Stored.text_append (stored stored' : List Stored) :
    Stored.text (stored ++ stored') = Stored.text stored ++ Stored.text stored' := by
  rw [Stored.text, List.map_append, String.join_append, Stored.text, Stored.text]

/-- What is noted of an attempt that fails, for a value that makes no rules or for want of room. -/
def Attempt.Fails (a : Attempt) (tag : String) (issues : List Issue) : Prop :=
  match a.rules with
  | .error e => .invalidAttribute tag a.name e.message ∈ issues ∧ .notConverted tag a.name ∈ issues
  | .ok rules => ∃ ident room, room < (rules.applyId ident).byteCount
    ∧ .budgetExceeded tag a.name (rules.applyId ident).byteCount room ∈ issues

/-- A failed attempt is still told about when more issues have been noted. -/
theorem Attempt.Fails.mono {a : Attempt} {issues issues' : List Issue} (h : a.Fails tag issues)
    (hsub : issues ⊆ issues') : a.Fails tag issues' := by
  unfold Attempt.Fails at h ⊢
  split at h
  · exact ⟨hsub h.1, hsub h.2⟩
  · obtain ⟨ident, room, hroom, hmem⟩ := h
    exact ⟨ident, room, hroom, hsub hmem⟩

/-- Whoever fails keeps the boilerplate. -/
theorem Attempt.Fails.exists_vetoes {a : Attempt} {issues : List Issue} (h : a.Fails tag issues) :
    ∃ i ∈ issues, Vetoes i := by
  unfold Attempt.Fails at h
  split at h
  · exact ⟨_, h.2, .inr rfl⟩
  · obtain ⟨ident, room, -, hmem⟩ := h
    exact ⟨_, hmem, .inl rfl⟩

/-- The element could not be rendered. -/
def isLayoutIssue : Issue → Bool
  | .invalidWidth .. => true
  | .invalidHeight .. => true
  | .unsupportedLayout .. => true
  | .missingDimensions .. => true
  | _ => false

/-- What was noted of elements that could not be rendered. -/
def layoutIssues (issues : List Issue) : List Issue := issues.filter isLayoutIssue

/-- `el'` is what the attempts leave of `el` when `stored` was put in place of what they converted. -/
structure Converts (tried : List Attempt) (stored : List Stored) (el el' : Element) : Prop where
  tag : el'.tag = el.tag
  names : (Stored.names stored).Sublist (tried.map (·.name))
  kept : ∀ name, name ≠ "id" → name ∉ Stored.names stored → el'.attribute? name = el.attribute? name
  gone : ∀ r ∈ stored, r.name ≠ "id" ∧ el'.attribute? r.name = none
  source : ∀ r ∈ stored, ∃ rules ident, (⟨r.name, .ok rules⟩ : Attempt) ∈ tried ∧ r.rules = rules.applyId ident
    ∧ ident ≠ "" ∧ el'.attribute? "id" = some ident
  identified : ∀ ident, ident ≠ "" → el.attribute? "id" = some ident → el'.attribute? "id" = some ident
  named : (∃ a ∈ tried, a.IsWellFormed) → ∃ ident, ident ≠ "" ∧ el'.attribute? "id" = some ident
  unnamed : (∀ a ∈ tried, ¬ a.IsWellFormed) → el'.attribute? "id" = el.attribute? "id"

namespace Converts

variable {tried tried' : List Attempt} {stored stored' : List Stored}

theorem refl (el : Element) : Converts [] [] el el :=
  ⟨rfl, .slnil, fun _ _ _ => rfl, by simp, by simp, fun _ _ h => h, by simp, fun _ => rfl⟩

/-- Two rows of attempts on one element, made one after the other, are one row. -/
theorem trans (h : Converts tried stored el el') (h' : Converts tried' stored' el' el'') :
    Converts (tried ++ tried') (stored ++ stored') el el'' where
  tag := h'.tag.trans h.tag
  names := by
    rw [Stored.names, List.map_append, List.map_append]
    exact h.names.append h'.names
  kept name hid hnot := by
    rw [Stored.names, List.map_append, List.mem_append, not_or] at hnot
    rw [h'.kept name hid hnot.2, h.kept name hid hnot.1]
  gone r hr := by
    rcases List.mem_append.mp hr with hr | hr
    · obtain ⟨hid, hnone⟩ := h.gone r hr
      refine ⟨hid, ?_⟩
      by_cases hmem : r.name ∈ Stored.names stored'
      · obtain ⟨r', hr', heq⟩ := List.mem_map.mp hmem
        exact heq ▸ (h'.gone r' hr').2
      · rw [h'.kept _ hid hmem, hnone]
    · exact h'.gone r hr
  source r hr := by
    rcases List.mem_append.mp hr with hr | hr
    · obtain ⟨rules, ident, hmem, heq, hne, hid⟩ := h.source r hr
      exact ⟨rules, ident, List.mem_append_left _ hmem, heq, hne, h'.identified ident hne hid⟩
    · obtain ⟨rules, ident, hmem, heq⟩ := h'.source r hr
      exact ⟨rules, ident, List.mem_append_right _ hmem, heq⟩
  identified ident hne hid := h'.identified ident hne (h.identified ident hne hid)
  named := by
    rintro ⟨a, ha, hwell⟩
    rcases List.mem_append.mp ha with ha | ha
    · obtain ⟨ident, hne, hid⟩ := h.named ⟨a, ha, hwell⟩
      exact ⟨ident, hne, h'.identified ident hne hid⟩
    · exact h'.named ⟨a, ha, hwell⟩
  unnamed hnone := by
    rw [List.forall_mem_append] at hnone
    rw [h'.unnamed hnone.2, h.unnamed hnone.1]

end Converts

/-- The work shows what was stored and what was noted of elements that could not be rendered, and shows nothing else
in the text of the stylesheet and in the budget. -/
structure Accounts (stored : List Stored) (noted : List Issue) (w w' : Work) : Prop where
  text : w'.page.customText = w.page.customText ++ Stored.text stored
  used : w'.page.budget.used = w.page.budget.used + Stored.bytes stored
  issues : w.issues ⊆ w'.issues
  layoutIssues : layoutIssues w'.issues = layoutIssues w.issues ++ noted

namespace Accounts

variable {stored stored' : List Stored} {noted noted' : List Issue}

/-- Nothing was stored and nothing was noted. -/
theorem refl (w : Work) : Accounts [] [] w w where
  text := (String.append_empty ..).symm
  used := rfl
  issues := List.Subset.refl _
  layoutIssues := (List.append_nil _).symm

/-- What two steps store and note, one after the other, is stored and noted by both together. -/
theorem trans (h : Accounts stored noted w w') (h' : Accounts stored' noted' w' w'') :
    Accounts (stored ++ stored') (noted ++ noted') w w'' where
  text := by
    rw [h'.text, h.text, Stored.text_append, String.append_assoc]
  used := by
    rw [h'.used, h.used, Stored.bytes, Stored.bytes, Stored.bytes, Stored.text_append, String.utf8ByteSize_append,
      Nat.add_assoc]
  issues := List.Subset.trans h.issues h'.issues
  layoutIssues := by rw [h'.layoutIssues, h.layoutIssues, List.append_assoc]

/-- A write that leaves the stylesheet and the budget alone. -/
theorem of_page (hissues : w'.issues = w.issues) (htext : w'.page.customText = w.page.customText)
    (hbudget : w'.page.budget = w.page.budget) : Accounts [] [] w w' where
  text := htext.trans (String.append_empty ..).symm
  used := by rw [hbudget]; rfl
  issues := hissues ▸ List.Subset.refl _
  layoutIssues := by rw [hissues, List.append_nil]

/-- Noting an issue stores nothing, and adds the issue if it is about layouts. -/
theorem note (w : Work) (issue : Issue) :
    Accounts [] (AmpTuner.Rendering.layoutIssues [issue]) w (w.note issue) where
  text := (String.append_empty ..).symm
  used := rfl
  issues _ hi := List.mem_append_left _ hi
  layoutIssues := List.filter_append ..

/-- Most issues are about something else. -/
theorem note_of_not {issue : Issue} (h : isLayoutIssue issue = false) : Accounts [] [] w (w.note issue) := by
  have hnote := note w issue
  rwa [AmpTuner.Rendering.layoutIssues, List.filter_cons_of_neg (by simp [h]), List.filter_nil] at hnote

end Accounts

/-- What attempts do to the work, in which the element is still the same node. -/
structure Conducts (id : NodeId) (tried : List Attempt) (stored : List Stored) (w w' : Work) (el el' : Element) :
    Prop extends Accounts stored [] w w' where
  tracked : Tracked [id] w.page w'.page fun x => x
  element : w'.page.element? id = some el'
  converts : Converts tried stored el el'
  fails : ∀ a ∈ tried, a.name ∉ Stored.names stored → a.Fails el.tag w'.issues

namespace Conducts

variable {tried tried' : List Attempt} {stored stored' : List Stored}

/-- An element on which nothing has been attempted yet. -/
theorem refl (h : w.page.WellFormed) (hel : w.page.element? id = some el) : Conducts id [] [] w w el el where
  toAccounts := .refl w
  tracked := tracked_refl h
  element := hel
  converts := .refl el
  fails := by simp

/-- Attempts carried out one after the other are carried out as one row of attempts. -/
theorem trans (h : Conducts id tried stored w w' el el') (h' : Conducts id tried' stored' w' w'' el' el'') :
    Conducts id (tried ++ tried') (stored ++ stored') w w'' el el'' where
  toAccounts := h.toAccounts.trans h'.toAccounts
  tracked := h.tracked.trans h'.tracked
  element := h'.element
  converts := h.converts.trans h'.converts
  fails a ha hnot := by
    rw [Stored.names, List.map_append, List.mem_append, not_or] at hnot
    rcases List.mem_append.mp ha with ha | ha
    · exact (h.fails a ha hnot.1).mono h'.issues
    · exact h.converts.tag ▸ h'.fails a ha hnot.2

end Conducts

/-! ## Identifiers -/

/-- The element has an identifier now, which is the one that it had unless that was empty. Apart from that nothing
has become of it, nor of the stylesheet. -/
structure Names (id : NodeId) (page page' : Page) (ident : String) (el el' : Element) : Prop where
  tracked : Tracked [id] page page' fun x => x
  element : page'.element? id = some el'
  tag : el'.tag = el.tag
  kept : ∀ name, name ≠ "id" → el'.attribute? name = el.attribute? name
  identifier : el'.attribute? "id" = some ident
  ne_empty : ident ≠ ""
  identified : ∀ v, v ≠ "" → el.attribute? "id" = some v → ident = v
  text : page'.customText = page.customText
  budget : page'.budget = page.budget

/-- A generated identifier is one the page did not have, and it is written on the element. -/
theorem names_generateId (h : page.WellFormed) (hel : page.element? id = some el) (hlacks : page.LacksId id) :
    Names id page (page.generateId id).1 (page.generateId id).2 el (el.set "id" (page.generateId id).2) := by
  let n := page.freshFrom page.nextGenerated page.nodes.size
  let counted : Page := { page with nextGenerated := n + 1 }
  have hcounted : counted.WellFormed := h.withCounters page.budget (n + 1)
  have hchange : IsChange (·.set "id" (Page.generatedId n)) := .identify _
  have htext : (page.generateId id).1.customText = page.customText :=
    (hcounted.customText_mapElement hchange.neutral).trans (h.customText_withCounters page.budget (n + 1))
  exact
    { tracked := (tracked_withCounters h page.budget (n + 1)).trans (tracked_mapElement hcounted hchange)
      element := by rw [Page.identifies_generateId.element?, hel]; rfl
      tag := rfl
      kept := fun name hname => Element.attribute?_set_of_ne hname
      identifier := by rw [Element.attribute?_set, if_pos rfl]
      ne_empty := Page.generatedId_ne_empty n
      identified := by
        intro v hne hv
        exact absurd (hlacks v (by rw [Page.attribute?, hel]; exact hv)) hne
      text := htext
      budget := rfl }

/-- The identifier asked for is the element's own, or else a generated one that it then carries. -/
theorem exists_names_elementId (h : page.WellFormed) (hel : page.element? id = some el) :
    ∃ el', Names id page (page.elementId id).1 (page.elementId id).2 el el' := by
  have hid : page.attribute? id "id" = el.attribute? "id" := by rw [Page.attribute?, hel]; rfl
  by_cases hlacks : page.LacksId id
  · rw [Page.elementId_of_lacksId hlacks]
    exact ⟨_, names_generateId h hel hlacks⟩
  · obtain ⟨v, hv, hne⟩ : ∃ v, page.attribute? id "id" = some v ∧ v ≠ "" := by
      simpa [Page.LacksId] using hlacks
    rw [Page.elementId_of_attribute? hv hne]
    exact ⟨el, tracked_refl h, hel, rfl, fun _ _ => rfl, hid ▸ hv, hne,
      fun v' _ hv' => Option.some.inj (hv.symm.trans (hid.trans hv')), rfl, rfl⟩

/-! ## One attempt -/

/-- A text that no rules can be made of is noted twice, as an invalid attribute and as one that was not converted, and
changes nothing on the page. -/
theorem conducts_malformed (h : w.page.WellFormed) (hel : w.page.element? id = some el) (e : Unconvertible) :
    Conducts id [⟨name, .error e⟩] []
      w ((w.note (.invalidAttribute el.tag name e.message)).note (.notConverted el.tag name)) el el where
  toAccounts := (Accounts.note_of_not rfl).trans (.note_of_not rfl)
  tracked := tracked_refl h
  element := hel
  converts := ⟨rfl, List.nil_sublist _, fun _ _ _ => rfl, by simp, by simp, fun _ _ h => h,
    by simp [Attempt.IsWellFormed], fun _ => rfl⟩
  fails a ha _ := by
    obtain rfl := List.mem_singleton.mp ha
    exact ⟨List.mem_append_left _ (List.mem_append_right _ (List.mem_singleton_self _)),
      List.mem_append_right _ (List.mem_singleton_self _)⟩

/-- There is no room for the rules, but the element has an identifier. -/
theorem Names.conducts_refused {ident : String} (h : Names id w.page page' ident el el') {rules : Rules}
    (hroom : page'.budget.remaining < (rules.applyId ident).byteCount) :
    Conducts id [⟨name, .ok rules⟩] [] w ({ w with page := page' }.note
      (.budgetExceeded el.tag name (rules.applyId ident).byteCount page'.budget.remaining)) el el' where
  toAccounts := by
    have hnamed : Accounts [] [] w { w with page := page' } := .of_page rfl h.text h.budget
    exact hnamed.trans (.note_of_not rfl)
  tracked := h.tracked
  element := h.element
  converts :=
    { tag := h.tag
      names := List.nil_sublist _
      kept := fun name hid _ => h.kept name hid
      gone := by simp
      source := by simp
      identified := fun v hne hv => by rw [h.identifier, h.identified v hne hv]
      named := fun _ => ⟨ident, h.ne_empty, h.identifier⟩
      unnamed := fun hnone => absurd ⟨rules, rfl⟩ (hnone _ (List.mem_singleton_self _)) }
  fails a ha _ := by
    obtain rfl := List.mem_singleton.mp ha
    exact ⟨ident, page'.budget.remaining, hroom, List.mem_append_right _ (List.mem_singleton_self _)⟩

/-- The page when rules have taken the place of an attribute. -/
def storedIn (page : Page) (budget : Css.Budget) (css : String) (id : NodeId) (name : String) : Page :=
  ({ page with budget }.appendCustomCss css).removeAttribute id name

/-- Rules that do not fit the budget are dropped: the identifier may be new, the stylesheet is not touched, and the
attempt is noted. -/
theorem storeRules_of_none {rules : Rules}
    (hroom : (w.page.elementId id).1.budget.allocate? (rules.applyId (w.page.elementId id).2).byteCount = none) :
    storeRules w id tag name rules
      = ({ w with page := (w.page.elementId id).1 }.note (.budgetExceeded tag name
          (rules.applyId (w.page.elementId id).2).byteCount (w.page.elementId id).1.budget.remaining), false) := by
  rw [storeRules]
  dsimp only
  rw [hroom]

/-- Rules that fit the budget are charged for, written behind the custom text, and the attribute goes. -/
theorem storeRules_of_some {rules : Rules} {budget : Css.Budget}
    (hroom : (w.page.elementId id).1.budget.allocate? (rules.applyId (w.page.elementId id).2).byteCount = some budget) :
    storeRules w id tag name rules = (⟨storedIn (w.page.elementId id).1 budget
      (rules.applyId (w.page.elementId id).2).toCss id name, w.issues⟩, true) := by
  rw [storeRules]
  dsimp only
  rw [hroom]
  rfl

section StoredIn

variable (h : page.WellFormed) (budget : Css.Budget) (css : String)

/-- The budget is the one left after the rules were charged for. -/
theorem budget_storedIn : (storedIn page budget css id name).budget = budget := by
  have hwritten : Page.SameFrame { page with budget } (({ page with budget } : Page).appendCustomCss css) :=
    Page.appendCustomCss_sameFrame css
  rw [storedIn, Page.removeAttribute]
  exact ((Page.mapElement_sameFrame _).budget).trans hwritten.budget

/-- The element loses the attribute whose rules were stored. -/
theorem element?_storedIn (hel : page.element? id = some el) :
    (storedIn page budget css id name).element? id = some (el.erase name) := by
  have hcounted : ({ page with budget } : Page).element? id = some el := hel
  rw [storedIn, Page.removeAttribute, Page.element?_mapElement, if_pos rfl,
    (Page.appendCustomCss_sameKinds css).element? hcounted]
  rfl

include h

/-- The custom text grows by the rules, at its end. -/
theorem customText_storedIn (hname : name ∈ convertibleNames) :
    (storedIn page budget css id name).customText = page.customText ++ css := by
  have hcounted := h.withCounters budget page.nextGenerated
  have hdrop : IsChange (·.erase name) := .drop hname
  rw [storedIn, Page.removeAttribute, (hcounted.appendCustomCss css).customText_mapElement hdrop.neutral,
    hcounted.customText_appendCustomCss, h.customText_withCounters]

/-- Storing rules changes the one element only, whatever the page keeps track of. -/
theorem tracked_storedIn (hname : name ∈ convertibleNames) :
    Tracked [id] page (storedIn page budget css id name) fun x => x := by
  have hcounted := h.withCounters budget page.nextGenerated
  have hcountedTracked : Tracked [id] page { page with budget } fun x => x :=
    tracked_withCounters h budget page.nextGenerated
  have hwritten := hcountedTracked.trans (tracked_appendCustomCss hcounted css)
  rw [storedIn, Page.removeAttribute]
  exact hwritten.trans (tracked_mapElement (hcounted.appendCustomCss css) (.drop hname))

end StoredIn

/-- The rules are stored under the identifier, and the attribute goes. -/
theorem Names.conducts_stored {ident : String} (h : Names id w.page page' ident el el')
    (hname : name ∈ convertibleNames) (hne : name ≠ "id") {rules : Rules} {budget : Css.Budget}
    (hroom : page'.budget.allocate? (rules.applyId ident).byteCount = some budget) :
    Conducts id [⟨name, .ok rules⟩] [⟨name, rules.applyId ident⟩] w
      { w with page := storedIn page' budget (rules.applyId ident).toCss id name } el (el'.erase name) where
  text := by
    rw [customText_storedIn h.tracked.wellFormed _ _ hname, h.text]
    simp [Stored.text]
  used := by
    rw [budget_storedIn, (Css.Budget.allocate?_eq_some hroom).2.2, h.budget, Css.Rules.byteCount_applyId]
    simp [Stored.bytes, Stored.text]
  issues := List.Subset.refl _
  layoutIssues := (List.append_nil _).symm
  tracked := h.tracked.trans (tracked_storedIn h.tracked.wellFormed _ _ hname)
  element := element?_storedIn _ _ h.element
  converts := by
    have hother {other : String} (ho : other ≠ name) : (el'.erase name).attribute? other = el'.attribute? other :=
      Element.attribute?_erase_of_ne ho
    have hid : (el'.erase name).attribute? "id" = some ident := by rw [hother hne.symm, h.identifier]
    exact
      { tag := h.tag
        names := List.Sublist.refl _
        kept := fun other hoid hnot => by
          rw [hother (by simpa [Stored.names] using hnot), h.kept other hoid]
        gone := fun r hr => by
          obtain rfl := List.mem_singleton.mp hr
          exact ⟨hne, Element.attribute?_erase_self (h.tracked.wellFormed.distinct id el' h.element)⟩
        source := fun r hr => by
          obtain rfl := List.mem_singleton.mp hr
          exact ⟨rules, ident, List.mem_singleton_self _, rfl, h.ne_empty, hid⟩
        identified := fun v hvne hv => by rw [hid, h.identified v hvne hv]
        named := fun _ => ⟨ident, h.ne_empty, hid⟩
        unnamed := fun hnone => absurd ⟨rules, rfl⟩ (hnone _ (List.mem_singleton_self _)) }
  fails a ha hnot := by
    obtain rfl := List.mem_singleton.mp ha
    exact absurd (List.mem_singleton_self _) hnot

/-- One attempt stores its rules, or it fails. -/
theorem exists_conducts_convert (h : w.page.WellFormed) (hel : w.page.element? id = some el)
    (hname : name ∈ convertibleNames) (hne : name ≠ "id") (rules : Except Unconvertible Rules) :
    ∃ stored el', Conducts id [⟨name, rules⟩] stored w (convert w id el.tag name rules).1 el el'
      ∧ Stored.names stored = if (convert w id el.tag name rules).2 then [name] else [] := by
  cases rules with
  | error e => exact ⟨[], el, conducts_malformed h hel e, rfl⟩
  | ok rules =>
    obtain ⟨el', hnamed⟩ := exists_names_elementId h hel
    cases hroom : (w.page.elementId id).1.budget.allocate? (rules.applyId (w.page.elementId id).2).byteCount with
    | none =>
      have hlittle : (w.page.elementId id).1.budget.remaining < (rules.applyId (w.page.elementId id).2).byteCount := by
        by_contra hfits
        rw [Css.Budget.allocate?, dif_pos (Nat.le_of_not_lt hfits)] at hroom
        cases hroom
      rw [convert, storeRules_of_none hroom]
      exact ⟨[], el', hnamed.conducts_refused hlittle, rfl⟩
    | some budget =>
      rw [convert, storeRules_of_some hroom]
      exact ⟨_, _, hnamed.conducts_stored hname hne hroom, rfl⟩

/-! ## All attempts -/

/-- The attempts depend on the attributes they read, and on nothing else of the element. -/
theorem attemptsOf_congr {attributes : List (String × (String → Except Unconvertible Rules))}
    (h : ∀ a ∈ attributes, el'.attribute? a.1 = el.attribute? a.1) :
    attemptsOf attributes el' = attemptsOf attributes el :=
  List.filterMap_congr fun a ha => by rw [h a ha]

/-- Going through the attributes from left to right carries out all their attempts; the induction is on the list, and
no attempt reads an attribute that an earlier one took away. -/
theorem exists_conducts_foldl {attributes : List (String × (String → Except Unconvertible Rules))}
    (hnames : ∀ a ∈ attributes, a.1 ∈ convertibleNames ∧ a.1 ≠ "id") (hnodup : (attributes.map (·.1)).Nodup)
    {c : Conversion} (h : c.work.page.WellFormed) (hel : c.work.page.element? id = some el) :
    ∃ stored el', Conducts id (attemptsOf attributes el) stored c.work
        (attributes.foldl (convertNext id el.tag) c).work el el'
      ∧ (attributes.foldl (convertNext id el.tag) c).converted = c.converted ++ Stored.names stored := by
  induction attributes generalizing c el with
  | nil => exact ⟨[], el, .refl h hel, (List.append_nil _).symm⟩
  | cons a attributes ih =>
    obtain ⟨ha, hnames⟩ := List.forall_mem_cons.mp hnames
    rw [List.map_cons, List.nodup_cons] at hnodup
    have hread : c.work.page.attribute? id a.1 = el.attribute? a.1 := by rw [Page.attribute?, hel]; rfl
    rw [List.foldl_cons, attemptsOf, List.filterMap_cons]
    cases hvalue : el.attribute? a.1 with
    | none =>
      have hskip : convertNext id el.tag c a = c := by rw [convertNext, hread, hvalue]
      rw [hskip]
      exact ih hnames hnodup.2 h hel
    | some value =>
      obtain ⟨stored, el₁, hfirst, hstored⟩ := exists_conducts_convert h hel ha.1 ha.2 (a.2 value)
      have hwork : (convertNext id el.tag c a).work = (convert c.work id el.tag a.1 (a.2 value)).1 := by
        rw [convertNext, hread, hvalue]
      have hnow : (convertNext id el.tag c a).converted = c.converted ++ Stored.names stored := by
        rw [convertNext, hread, hvalue, hstored]
        dsimp only
        split
        · rfl
        · rw [List.append_nil]
      rw [← hwork] at hfirst
      -- the attempts to come read what they would have read before
      have hsame : attemptsOf attributes el₁ = attemptsOf attributes el := by
        refine attemptsOf_congr fun b hb => hfirst.converts.kept b.1 (hnames b hb).2 fun hmem => ?_
        rw [hstored] at hmem
        split at hmem
        · exact hnodup.1 (List.mem_singleton.mp hmem ▸ List.mem_map_of_mem hb)
        · cases hmem
      obtain ⟨stored', el', hrest, hconverted⟩ := ih hnames hnodup.2 hfirst.tracked.wellFormed hfirst.element
      rw [hfirst.converts.tag] at hrest hconverted
      rw [hsame] at hrest
      refine ⟨stored ++ stored', el', hfirst.trans hrest, ?_⟩
      rw [hconverted, hnow, Stored.names, Stored.names, Stored.names, List.map_append, List.append_assoc]

theorem names_blockingAttributes (el : Element) (layout : Layout) :
    ((blockingAttributes el layout).map (·.1)).Sublist ["sizes", "heights", "media"] := by
  rw [blockingAttributes]
  split <;> split <;> simp

/-- An attempt is for one of the three attributes that are turned into rules. -/
theorem name_mem_of_mem_attempts {layout : Layout} {a : Attempt} (ha : a ∈ attempts el layout) :
    a.name ∈ ["sizes", "heights", "media"] := by
  obtain ⟨b, hb, hvalue⟩ := List.mem_filterMap.mp ha
  obtain ⟨value, -, rfl⟩ := Option.map_eq_some_iff.mp hvalue
  exact (names_blockingAttributes el layout).subset (List.mem_map_of_mem hb)

/-! ## The cleanup -/

/-- What becomes of an element when its attempts are over: what failed is still there, and without anything stored the
identifier is the one that the author gave. An empty one is lost where rules were read and found no room. -/
structure Converted (tried : List Attempt) (stored : List Stored) (issues : List Issue) (el el' : Element) : Prop where
  tag : el'.tag = el.tag
  names : (Stored.names stored).Sublist (tried.map (·.name))
  gone : ∀ r ∈ stored, el'.attribute? r.name = none
  source : ∀ r ∈ stored, ∃ rules ident, (⟨r.name, .ok rules⟩ : Attempt) ∈ tried ∧ r.rules = rules.applyId ident
    ∧ el'.attribute? "id" = some ident
  fails : ∀ a ∈ tried, a.name ∉ Stored.names stored →
    a.Fails el.tag issues ∧ el'.attribute? a.name = el.attribute? a.name
  identifier : stored = [] → (el'.attribute? "id" = el.attribute? "id"
    ↔ ¬ (el.attribute? "id" = some "" ∧ ∃ a ∈ tried, a.IsWellFormed))

namespace Conducts

variable {tried : List Attempt} {stored : List Stored}

/-- The identifier stays, since rules are stored under it or the author gave one. -/
theorem converted (h : Conducts id tried stored w w' el el') (hnames : ∀ a ∈ tried, a.name ≠ "id")
    (hstays : stored = [] → ∃ v, el.attribute? "id" = some v) : Converted tried stored w'.issues el el' where
  tag := h.converts.tag
  names := h.converts.names
  gone r hr := (h.converts.gone r hr).2
  source r hr := by
    obtain ⟨rules, ident, hmem, heq, -, hid⟩ := h.converts.source r hr
    exact ⟨rules, ident, hmem, heq, hid⟩
  fails a ha hnot := ⟨h.fails a ha hnot, h.converts.kept a.name (hnames a ha) hnot⟩
  identifier hnone := by
    obtain ⟨v, hv⟩ := hstays hnone
    by_cases hempty : v = ""
    · subst hempty
      by_cases hwell : ∃ a ∈ tried, a.IsWellFormed
      · obtain ⟨ident, hne, hid⟩ := h.converts.named hwell
        refine iff_of_false (fun heq => hne ?_) (not_not_intro ⟨hv, hwell⟩)
        exact Option.some.inj (hid.symm.trans (heq.trans hv))
      · refine iff_of_true (h.converts.unnamed fun a ha hok => hwell ⟨a, ha, hok⟩) fun hlost => hwell hlost.2
    · refine iff_of_true ((h.converts.identified v hempty hv).trans hv.symm) fun hlost => hempty ?_
      exact Option.some.inj (hv.symm.trans hlost.1)

/-- The author gave no identifier and none is needed, so that none stays. -/
theorem converted_erase (h : Conducts id tried [] w w' el el') (hnames : ∀ a ∈ tried, a.name ≠ "id")
    (hdistinct : el'.Distinct) (hnone : el.attribute? "id" = none) :
    Converted tried [] w'.issues el (el'.erase "id") where
  tag := h.converts.tag
  names := h.converts.names
  gone := by simp
  source := by simp
  fails a ha hnot := by
    refine ⟨h.fails a ha hnot, ?_⟩
    rw [Element.attribute?_erase_of_ne (hnames a ha), h.converts.kept a.name (hnames a ha) hnot]
  identifier _ := by
    refine iff_of_true ?_ fun hlost => ?_
    · rw [Element.attribute?_erase_self hdistinct, hnone]
    · rw [hnone] at hlost
      cases hlost.1

end Conducts

/-- The whole conversion of an element: every attempt is carried out and accounted for, and the cleanup decides about
the generated identifier. -/
theorem exists_converted_convertAll (h : w.page.WellFormed) (hel : w.page.element? id = some el) (layout : Layout) :
    ∃ stored el', Accounts stored [] w (convertAll w id el layout).work
      ∧ Tracked [id] w.page (convertAll w id el layout).work.page (fun x => x)
      ∧ (convertAll w id el layout).work.page.element? id = some el'
      ∧ Converted (attempts el layout) stored (convertAll w id el layout).work.issues el el' := by
  have hsublist := names_blockingAttributes el layout
  have hplain : ∀ name ∈ ["sizes", "heights", "media"], name ∈ convertibleNames ∧ name ≠ "id" := by decide
  have hnames : ∀ a ∈ blockingAttributes el layout, a.1 ∈ convertibleNames ∧ a.1 ≠ "id" :=
    fun a ha => hplain a.1 (hsublist.subset (List.mem_map_of_mem ha))
  have htried : ∀ a ∈ attempts el layout, a.name ≠ "id" := fun a ha => (hplain _ (name_mem_of_mem_attempts ha)).2
  obtain ⟨stored, el', hall, hconverted⟩ := exists_conducts_foldl (c := { work := w }) hnames
    (hsublist.nodup (by decide)) h hel
  rw [convertAll, hconverted]
  split
  · next hcleanup =>
    obtain ⟨hnone, hempty⟩ : el.attribute? "id" = none ∧ stored = [] := by
      simpa [Element.hasAttribute_eq_isSome, Stored.names] using hcleanup
    subst hempty
    have hwell := hall.tracked.wellFormed
    have hdrop : IsChange (·.erase "id") := .drop (by decide)
    refine ⟨[], el'.erase "id", hall.toAccounts.trans (.of_page rfl ?_ rfl), ?_, ?_, ?_⟩
    · exact hwell.customText_mapElement hdrop.neutral
    · exact hall.tracked.trans (tracked_mapElement hwell hdrop)
    · rw [Work.edit, Page.removeAttribute, Page.element?_mapElement, if_pos rfl, hall.element]
      rfl
    · exact hall.converted_erase htried (hwell.distinct id el' hall.element) hnone
  · next hkeep =>
    refine ⟨stored, el', hall.toAccounts, hall.tracked, hall.element, hall.converted htried fun hempty => ?_⟩
    subst hempty
    exact Option.ne_none_iff_exists'.mp (by simpa [Element.hasAttribute_eq_isSome, Stored.names] using hkeep)

end AmpTuner.Rendering
