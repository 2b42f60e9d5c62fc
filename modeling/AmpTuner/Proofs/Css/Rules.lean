import AmpTuner.Css.Rule
import AmpTuner.Proofs.Text.Occurrences

/-!
# Lists of rules and their running total

Rules are added one by one, lists of them are appended to each other, and an identifier is filled in where
their selectors leave a place for it. The list keeps a total of bytes along with the rules, and nobody who
draws from the budget counts again.

* **`Rules.Built`** is every list that comes about that way.
* **`Rules.Exact`** says that the total is the size of the text. Each step keeps it, and filling in an
  identifier restores it.
* **`Rule.IsFor`** says what an identifier changes of a rule: the occurrences of the placeholder in the
  selector and nothing else.
* **`Rules.byteCount_addAll`** and **`Budget.allocate?_eq_some`**: what rules weigh, and what a budget with room for
  them gives.
* **`Rules.exact_built`** puts these together.
-/

namespace AmpTuner.Css

/-! ## Totals -/

namespace Rules

variable (rs : Rules) (rules : List Rule)

/-- Rules are added behind those that are there. -/
theorem rules_addAll : (rs.addAll rules).rules = rs.rules ++ rules := by
  induction rules generalizing rs with
  | nil => simp [addAll]
  | cons r rules ih =>
    show ((rs.add r).addAll rules).rules = _
    rw [ih, add, List.append_assoc]
    rfl

/-- The count goes up by the weight of what is added. -/
theorem byteCount_addAll :
    (rs.addAll rules).byteCount = rs.byteCount + (String.join (rules.map Rule.toCss)).utf8ByteSize := by
  induction rules generalizing rs with
  | nil => simp [addAll]
  | cons r rules ih =>
    show ((rs.add r).addAll rules).byteCount = _
    rw [ih, add, List.map_cons, String.join_cons, String.utf8ByteSize_append, Rule.byteCount, Nat.add_assoc]

/-- The total is the size of the text. -/
theorem byteCount_ofList : (ofList rules).byteCount = (ofList rules).toCss.utf8ByteSize := by
  rw [ofList, byteCount_addAll, toCss, rules_addAll]
  simp

theorem byteCount_applyId (id : String) :
    (rs.applyId id).byteCount = (rs.applyId id).toCss.utf8ByteSize :=
  byteCount_ofList _

end Rules

namespace Budget

variable {b b' : Budget} {bytes : Nat}

/-- Where room is given, there was room, and the budget has that much less. -/
theorem allocate?_eq_some (h : b.allocate? bytes = some b') :
    bytes ≤ b.remaining ∧ b'.limit = b.limit ∧ b'.used = b.used + bytes := by
  rw [allocate?] at h
  split at h
  · next hroom =>
    obtain rfl := Option.some.inj h
    exact ⟨hroom, rfl, rfl⟩
  · cases h

/-- What is taken and what is left make up the limit. -/
theorem used_add_remaining (b : Budget) : b.used + b.remaining = b.limit :=
  Nat.add_sub_cancel' b.used_le

end Budget

/-! ## What identifiers change -/

/-- The rule for the element with that identifier: in the selector the identifier stands where the placeholder
stood. -/
structure Rule.IsFor (id : String) (r r' : Rule) : Prop where
  selector : Text.Substitutes idPlaceholder.toList id.toList r.selector.toList r'.selector.toList
  declaration : r'.declaration = r.declaration
  media : r'.media = r.media

/-- `applyId` is the only way to fill in an identifier. -/
theorem Rule.isFor_iff {id : String} {r r' : Rule} : r.IsFor id r' ↔ r' = r.applyId id := by
  have hne : idPlaceholder.toList ≠ [] := by decide
  constructor
  · rintro ⟨hselector, hdeclaration, hmedia⟩
    obtain ⟨selector, declaration, media⟩ := r'
    rw [Text.substitutes_iff hne] at hselector
    have hreplaced : selector = Text.replace idPlaceholder id r.selector := by
      rw [Text.replace, ← hselector, String.ofList_toList]
    rw [applyId, hreplaced, show declaration = _ from hdeclaration, show media = _ from hmedia]
  · rintro rfl
    refine ⟨?_, rfl, rfl⟩
    rw [Text.substitutes_iff hne, applyId, Text.replace, String.toList_ofList]

namespace Rules

/-- Lists made of rules by adding, appending and filling in identifiers, in any order. -/
inductive Built : Rules → Prop
  | empty : Built {}
  | add {rs : Rules} (hrs : Built rs) (r : Rule) : Built (rs.add r)
  | append {rs more : Rules} (hrs : Built rs) (hmore : Built more) : Built (rs.append more)
  | applyId {rs : Rules} (hrs : Built rs) (id : String) : Built (rs.applyId id)

/-- The total is the size of the text in UTF-8. -/
def Exact (rs : Rules) : Prop := rs.byteCount = rs.toCss.utf8ByteSize

variable {rs more : Rules}

/-! ## Texts of lists -/

theorem toCss_add (rs : Rules) (r : Rule) : (rs.add r).toCss = rs.toCss ++ r.toCss := by
  rw [toCss, add, List.map_append, String.join_append]
  simp [toCss]

theorem toCss_append (rs more : Rules) : (rs.append more).toCss = rs.toCss ++ more.toCss := by
  rw [toCss, append, rules_addAll, List.map_append, String.join_append]
  rfl

theorem rules_applyId (rs : Rules) (id : String) : (rs.applyId id).rules = rs.rules.map (·.applyId id) := by
  rw [applyId, ofList, rules_addAll]
  rfl

theorem applyId_append (rs more : Rules) (id : String) :
    (rs.append more).applyId id = (rs.applyId id).append (more.applyId id) := by
  rw [applyId, append, rules_addAll, List.map_append, append, rules_applyId, applyId, ofList, ofList, addAll, addAll,
    addAll, List.foldl_append]

/-- The rules for an identifier are those that `applyId` gives, in the same order. -/
theorem forall₂_isFor_iff {id : String} {filled : List Rule} :
    List.Forall₂ (Rule.IsFor id) rs.rules filled ↔ filled = (rs.applyId id).rules := by
  have hisFor : Rule.IsFor id = fun r r' => r.applyId id = r' :=
    funext₂ fun _ _ => propext (Rule.isFor_iff.trans eq_comm)
  rw [rules_applyId, hisFor, ← List.forall₂_map_left_iff, List.forall₂_eq_eq_eq, eq_comm]

/-! ## The total -/

theorem Exact.add (h : rs.Exact) (r : Rule) : (rs.add r).Exact := by
  rw [Exact, toCss_add, String.utf8ByteSize_append, Rules.add, h, Rule.byteCount]

/-- The rules are added to the total one by one, so that nothing has to be known of the other total. -/
theorem Exact.append (h : rs.Exact) (more : Rules) : (rs.append more).Exact := by
  rw [Exact, toCss_append, String.utf8ByteSize_append, Rules.append, byteCount_addAll, h, toCss, toCss]

/-- The count of every list that can be built is exact. By induction on how it was built. -/
theorem Built.exact (h : Built rs) : rs.Exact := by
  induction h with
  | empty => rfl
  | add _ r ih => exact ih.add r
  | @append _ more _ _ ih _ => exact ih.append more
  | applyId _ id _ => exact byteCount_applyId _ id

/-- The total of a list is the size of its text, appending appends the texts, and filling in an identifier goes
through appended lists and changes the occurrences of the placeholder in the selectors alone. -/
theorem exact_built (h : Built rs) (more : Rules) (id : String) :
    rs.byteCount = rs.toCss.utf8ByteSize
      ∧ (rs.append more).toCss = rs.toCss ++ more.toCss
      ∧ (rs.append more).applyId id = (rs.applyId id).append (more.applyId id)
      ∧ ∀ filled, List.Forall₂ (Rule.IsFor id) rs.rules filled ↔ filled = (rs.applyId id).rules :=
  ⟨h.exact, toCss_append rs more, applyId_append rs more id, fun _ => forall₂_isFor_iff⟩

/-- A placeholder that overlaps the next one, a rule under a condition, and an identifier from outside ASCII. -/
theorem exact_built_overlapping :
    let sized : Rules := ({} : Rules).add ⟨"#__ID__ID__", "width:1px", none⟩
    let hidden : Rules := ({} : Rules).add ⟨"#__ID__>b", "display:none", some "(min-width:1px)"⟩
    let rs := (sized.append hidden).applyId "é"
    Built rs ∧ rs.byteCount = 61 ∧ rs.byteCount = rs.toCss.utf8ByteSize
      ∧ (rs.append hidden).toCss = rs.toCss ++ hidden.toCss
      ∧ (rs.append hidden).applyId "x" = (rs.applyId "x").append (hidden.applyId "x")
      ∧ ∀ filled, List.Forall₂ (Rule.IsFor "x") rs.rules filled ↔ filled = (rs.applyId "x").rules := by
  intro sized hidden rs
  have hbuilt : Built rs := .applyId (.append (.add .empty _) (.add .empty _)) _
  exact ⟨hbuilt, by decide +kernel, exact_built hbuilt hidden "x"⟩

end Rules

end AmpTuner.Css
