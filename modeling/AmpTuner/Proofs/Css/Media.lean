import AmpTuner.Css.Condition
import AmpTuner.Proofs.Css.Rules
import AmpTuner.Proofs.Text.Parts

/-!
# The media query list of a hidden element

`mediaRules` hides an element where its query list does not match. The list is negated as a text, at its
front, which negates the first query and leaves the others as they are.

## The bricks

* **`ListMatches`** reads a list: it matches when one of its queries does, and "not " in front of a query
  says that the rest of the query does not match.
* **`splitCommas_negation`**: the negated text has the queries of the list behind the first one, and a
  first query that matches when the first one of the list does not.
* **`mediaRules_hides_iff`**: the rule hides the element in the right places exactly where no query behind
  the first one matches.
-/

namespace AmpTuner.Css

open Text (isBlank trimChars)

/-! ## What a list says -/

/-- The word that negates what follows, in some mix of upper and lower case, with a space behind it. -/
def IsNot (word : List Char) : Prop := word.map Char.toLower = "not ".toList

instance (word : List Char) : Decidable (IsNot word) :=
  inferInstanceAs (Decidable (_ = _))

/-- Whether a query begins with the word. -/
def IsNegated (query : List Char) : Prop := IsNot (query.take 4)

instance (query : List Char) : Decidable (IsNegated query) :=
  inferInstanceAs (Decidable (IsNot _))

/-- What stands behind the word is shorter. -/
theorem length_drop_lt_of_isNegated {query : List Char} (h : IsNegated query) :
    (query.drop 4).length < query.length := by
  have hlength := congrArg List.length h
  rw [List.length_map, List.length_take] at hlength
  have hword : "not ".toList.length = 4 := rfl
  rw [List.length_drop]
  omega

/-- Whether a query matches where `env` tells which of the queries that nothing negates match. -/
def QueryMatches (env : String → Prop) (query : List Char) : Prop :=
  if IsNegated (query.dropWhile isBlank) then ¬ QueryMatches env ((query.dropWhile isBlank).drop 4)
  else env (String.ofList (trimChars query))
termination_by query.length
decreasing_by
  exact Nat.lt_of_lt_of_le (length_drop_lt_of_isNegated ‹_›) (List.dropWhile_sublist _).length_le

/-- The queries of a list: what stands between the commas outside parentheses. -/
def queries (list : String) : List (List Char) := splitCommas 0 (trimChars list.toList)

/-- A list of queries matches where one of them does. -/
def ListMatches (env : String → Prop) (list : String) : Prop :=
  ∃ query ∈ queries list, QueryMatches env query

variable {env : String → Prop} {word rest query list first : List Char} {more : List (List Char)}

theorem queryMatches_dropWhile :
    QueryMatches env (query.dropWhile isBlank) ↔ QueryMatches env query := by
  rw [QueryMatches, QueryMatches.eq_1 env query, List.dropWhile_idempotent, Markup.trimChars_eq,
    List.dropWhile_idempotent, Markup.trimChars_eq]

/-! ## The word in front of a query -/

theorem IsNot.length (h : IsNot word) : word.length = 4 := by
  simpa using congrArg List.length h

theorem IsNot.isNegated (h : IsNot word) : IsNegated (word ++ query) := by
  rw [IsNegated, List.take_left' h.length]
  exact h

/-- The letters of the word and its space are no signs of a list. -/
theorem IsNot.plain (h : IsNot word) {c : Char} (hc : c ∈ word) : c ≠ ',' ∧ c ≠ '(' ∧ c ≠ ')' := by
  have hlower : c.toLower ∈ "not ".toList := h ▸ List.mem_map_of_mem hc
  refine ⟨?_, ?_, ?_⟩ <;>
  · rintro rfl
    revert hlower
    decide

/-- The word begins with no blank. -/
theorem IsNot.dropWhile (h : IsNot word) : (word ++ query).dropWhile isBlank = word ++ query := by
  cases word with
  | nil => exact absurd h (by decide)
  | cons c word =>
    have hc : c.toLower = 'n' := (List.cons.inj h).1
    have hblank : isBlank c = false := by
      rw [← Text.isBlank_toLower, hc]
      decide
    rw [List.cons_append, List.dropWhile_cons_of_neg (by simp [hblank])]

theorem IsNot.queryMatches_append (h : IsNot word) :
    QueryMatches env (word ++ query) ↔ ¬ QueryMatches env query := by
  rw [QueryMatches, h.dropWhile, if_pos h.isNegated, List.drop_left' h.length]

/-! ## The queries of a list -/

/-- There is always a part, if only an empty one. -/
theorem splitCommas_ne_nil (depth : Nat) (list : List Char) : splitCommas depth list ≠ [] := by
  induction list generalizing depth with
  | nil => simp [splitCommas]
  | cons c list ih =>
    unfold splitCommas
    split
    · simp
    · simpa using ih _

theorem splitCommas_cons {c : Char} (hc : c ≠ ',' ∧ c ≠ '(' ∧ c ≠ ')') (depth : Nat) :
    splitCommas depth (c :: list) = (splitCommas depth list).modifyHead (c :: ·) := by
  obtain ⟨hcomma, hopen, hclose⟩ := hc
  simp [splitCommas, hcomma, hopen, hclose]

/-- Text without signs in front goes to the first query. -/
theorem splitCommas_append (hword : ∀ c ∈ word, c ≠ ',' ∧ c ≠ '(' ∧ c ≠ ')')
    (hlist : splitCommas 0 list = first :: more) :
    splitCommas 0 (word ++ list) = (word ++ first) :: more := by
  induction word with
  | nil => exact hlist
  | cons c word ih =>
    rw [List.cons_append, splitCommas_cons (hword c List.mem_cons_self),
      ih fun d hd => hword d (List.mem_cons_of_mem _ hd)]
    rfl

/-- The first query is empty or begins with what the list begins with. -/
theorem eq_of_splitCommas_cons {c : Char} {depth : Nat}
    (hlist : splitCommas depth (c :: list) = first :: more) : first = [] ∨ ∃ others, first = c :: others := by
  rw [splitCommas] at hlist
  split at hlist
  · exact .inl (List.cons.inj hlist).1.symm
  · dsimp only at hlist
    obtain ⟨others, more', hsplit⟩ := List.exists_cons_of_ne_nil (splitCommas_ne_nil
      (if c = '(' then depth + 1 else if c = ')' then depth - 1 else depth) list)
    rw [hsplit] at hlist
    exact .inr ⟨others, (List.cons.inj hlist).1.symm⟩

/-- Blanks are no signs: those at the front of a list are those at the front of its first query. -/
theorem splitCommas_dropWhile (hlist : splitCommas 0 list = first :: more) :
    splitCommas 0 (list.dropWhile isBlank) = first.dropWhile isBlank :: more := by
  induction list generalizing first with
  | nil =>
    obtain ⟨rfl, rfl⟩ := List.cons.inj hlist
    rfl
  | cons c list ih =>
    by_cases hblank : isBlank c = true
    · have hplain : c ≠ ',' ∧ c ≠ '(' ∧ c ≠ ')' := by
        refine ⟨?_, ?_, ?_⟩ <;>
        · rintro rfl
          revert hblank
          decide
      obtain ⟨first', more', hsplit⟩ := List.exists_cons_of_ne_nil (splitCommas_ne_nil 0 list)
      rw [splitCommas_cons hplain, hsplit] at hlist
      obtain ⟨rfl, rfl⟩ := List.cons.inj hlist
      rw [List.dropWhile_cons_of_pos hblank, List.dropWhile_cons_of_pos hblank]
      exact ih hsplit
    · rw [List.dropWhile_cons_of_neg hblank, hlist]
      have hfirst : first.dropWhile isBlank = first := by
        obtain rfl | ⟨others, rfl⟩ := eq_of_splitCommas_cons hlist
        · rfl
        · exact List.dropWhile_cons_of_neg hblank
      rw [hfirst]

/-! ## The negated list -/

/-- A trimmed text does not end with a blank. -/
theorem isBlank_getLast (htrim : trimChars list = list) (hne : list ≠ []) :
    isBlank (list.getLast hne) = false := by
  have hfront : list.dropWhile isBlank = list := by
    rw [← htrim]
    exact Markup.dropWhile_trimChars list
  rw [Markup.trimChars_eq, hfront] at htrim
  exact Bool.eq_false_iff.mpr (List.rdropWhile_eq_self_iff.mp htrim hne)

/-- The word ends with a blank, which trimming may cut off. -/
theorem IsNot.isBlank_getLast (h : IsNot word) (hne : word ≠ []) : isBlank (word.getLast hne) = true := by
  have hlower : (word.getLast hne).toLower = ' ' := by
    rw [← List.getLast_map (f := Char.toLower) (by simpa using hne)]
    simp only [show word.map Char.toLower = "not ".toList from h]
    rfl
  rcases Markup.Token.toLower_cases (word.getLast hne) with hsame | ⟨hlow, -, hsum⟩
  · rw [← hsame, hlower]
    rfl
  · -- a capital has no blank for its lower case
    rw [hlower] at hsum
    have hspace : ' '.toNat = 32 := rfl
    omega

/-- A list that begins and ends without a blank has something behind the word that negates it, and only
the front of that may be blank. -/
theorem trimChars_drop (h : IsNegated list) (htrim : trimChars list = list) :
    trimChars (list.drop 4) = (list.drop 4).dropWhile isBlank
      ∧ (list.drop 4).dropWhile isBlank ≠ [] := by
  have hsplit : list = list.take 4 ++ list.drop 4 := (List.take_append_drop 4 list).symm
  have hrest : list.drop 4 ≠ [] := by
    intro hnil
    rw [hnil, List.append_nil] at hsplit
    have hne : list.take 4 ≠ [] := by
      intro hempty
      exact absurd h (by rw [IsNegated, hempty]; decide)
    have hlast := isBlank_getLast htrim (hsplit ▸ hne)
    have hword := IsNot.isBlank_getLast h hne
    simp only [← hsplit] at hword
    rw [hword] at hlast
    cases hlast
  have hlast : isBlank ((list.drop 4).getLast hrest) = false := by
    rw [List.getLast_drop]
    exact isBlank_getLast htrim _
  have hbehind : (list.drop 4).dropWhile isBlank ≠ [] := by
    intro hnil
    have hblank := List.dropWhile_eq_nil_iff.mp hnil _ (List.getLast_mem hrest)
    rw [hlast] at hblank
    cases hblank
  refine ⟨?_, hbehind⟩
  rw [Markup.trimChars_eq, List.rdropWhile_eq_self_iff]
  intro hne
  rw [(List.dropWhile_suffix isBlank).getLast hne, hlast]
  decide

/-- The first query of the negated list matches when that of the list does not, and the others are the
same. -/
theorem splitCommas_negation (htrim : trimChars list = list)
    (hlist : splitCommas 0 list = first :: more) :
    ∃ opposite, splitCommas 0 (negation list) = opposite :: more
      ∧ ∀ env, QueryMatches env opposite ↔ ¬ QueryMatches env first := by
  unfold negation
  split
  · next h =>
    have hnot : IsNot (list.take 4) := h
    obtain ⟨first', more', hsplit⟩ := List.exists_cons_of_ne_nil (splitCommas_ne_nil 0 (list.drop 4))
    have hwhole := splitCommas_append (fun c => hnot.plain) hsplit
    rw [List.take_append_drop, hlist] at hwhole
    obtain ⟨rfl, rfl⟩ := List.cons.inj hwhole
    refine ⟨first'.dropWhile isBlank, ?_, fun env => ?_⟩
    · rw [(trimChars_drop h htrim).1]
      exact splitCommas_dropWhile hsplit
    · rw [queryMatches_dropWhile, hnot.queryMatches_append, not_not]
  · have hnot : IsNot "not ".toList := by decide
    exact ⟨_, splitCommas_append (fun c => hnot.plain) hlist, fun env => hnot.queryMatches_append⟩

/-- The negated list is trimmed as it stands, so it is the condition of the rule. -/
theorem trimChars_negation (htrim : trimChars list = list) (hne : list ≠ []) :
    trimChars (negation list) = negation list ∧ negation list ≠ [] := by
  unfold negation
  split
  · next h =>
    obtain ⟨hrest, hbehind⟩ := trimChars_drop h htrim
    refine ⟨?_, hrest ▸ hbehind⟩
    exact Markup.trimChars_trimChars _
  · have hnot : IsNot "not ".toList := by decide
    refine ⟨?_, List.append_ne_nil_of_right_ne_nil _ hne⟩
    rw [Markup.trimChars_eq, hnot.dropWhile, List.rdropWhile_eq_self_iff]
    intro happend
    rw [List.getLast_append_of_ne_nil happend hne, isBlank_getLast htrim hne]
    decide

/-- A value that is not blank gives one rule, under the negation of its trimmed text. -/
theorem mediaRules_eq {value : String} (h : trimChars value.toList ≠ []) :
    mediaRules value = .ok (.ofList
      [⟨idSelector, "display:none", some (String.ofList (negation (trimChars value.toList)))⟩]) := by
  obtain ⟨htrim, hne⟩ := trimChars_negation (Markup.trimChars_trimChars value.toList) h
  rw [mediaRules, if_neg (by simpa using h), Rule.withMedia, Text.trim, String.toList_ofList, htrim,
    if_neg (by simpa using hne)]

/-! ## What the rule hides -/

/-- Of a value that is not blank comes one rule, under a condition. The condition matches where the value
does not, and only there, exactly in those environments where no query behind the first one matches. -/
theorem mediaRules_hides_iff {value : String} (h : trimChars value.toList ≠ []) :
    ∃ condition, mediaRules value = .ok (.ofList [⟨idSelector, "display:none", some condition⟩])
      ∧ ∀ env, (ListMatches env condition ↔ ¬ ListMatches env value)
        ↔ ∀ query ∈ (queries value).tail, ¬ QueryMatches env query := by
  refine ⟨_, mediaRules_eq h, fun env => ?_⟩
  have htrim := Markup.trimChars_trimChars value.toList
  obtain ⟨first, more, hvalue⟩ := List.exists_cons_of_ne_nil (splitCommas_ne_nil 0 (trimChars value.toList))
  obtain ⟨opposite, hcondition, hopposite⟩ := splitCommas_negation htrim hvalue
  have hauthored : ListMatches env value ↔ QueryMatches env first ∨ ∃ query ∈ more, QueryMatches env query := by
    simp only [ListMatches, queries, hvalue, List.mem_cons, exists_eq_or_imp]
  have hrule : ListMatches env (String.ofList (negation (trimChars value.toList)))
      ↔ ¬ QueryMatches env first ∨ ∃ query ∈ more, QueryMatches env query := by
    simp only [ListMatches, queries, String.toList_ofList, (trimChars_negation htrim h).1, hcondition,
      List.mem_cons, exists_eq_or_imp, hopposite]
  rw [hauthored, hrule, queries, hvalue, List.tail_cons]
  constructor
  · intro hiff query hquery hmatch
    exact hiff.mp (.inr ⟨query, hquery, hmatch⟩) (.inr ⟨query, hquery, hmatch⟩)
  · intro hnone
    have hbehind : ¬ ∃ query ∈ more, QueryMatches env query := by
      rintro ⟨query, hquery, hmatch⟩
      exact hnone query hquery hmatch
    simp only [hbehind, or_false]

/-- A list of two queries, the second of them negated. -/
theorem mediaRules_hides_printOrWide :
    trimChars "print , not screen".toList ≠ []
      ∧ ∃ condition,
        mediaRules "print , not screen" = .ok (.ofList [⟨idSelector, "display:none", some condition⟩])
        ∧ ∀ env, (ListMatches env condition ↔ ¬ ListMatches env "print , not screen")
          ↔ ∀ query ∈ (queries "print , not screen").tail, ¬ QueryMatches env query :=
  ⟨by decide, mediaRules_hides_iff (by decide)⟩

/-- Where the first of two negated queries fails and the second one matches, the element is to be shown, and
the rule hides it. -/
theorem mediaRules_hides_shown :
    mediaRules "not (min-width:1px), not (max-width:9px)" = .ok (.ofList
        [⟨idSelector, "display:none", some "(min-width:1px), not (max-width:9px)"⟩])
      ∧ ∃ env, ListMatches env "not (min-width:1px), not (max-width:9px)"
        ∧ ListMatches env "(min-width:1px), not (max-width:9px)" := by
  have hsecond : QueryMatches (· = "(min-width:1px)") " not (max-width:9px)".toList := by
    rw [QueryMatches, if_pos (by decide), QueryMatches, if_neg (by decide)]
    decide
  refine ⟨mediaRules_eq (by decide), (· = "(min-width:1px)"), ⟨_, ?_, hsecond⟩, ⟨_, ?_, hsecond⟩⟩
  · decide
  · decide

end AmpTuner.Css
