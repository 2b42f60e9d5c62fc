import AmpTuner.Proofs.Text.Parts

/-!
# Replacing what occurs in a text

`replace` goes through a text once and puts another text in the place of every occurrence, leftmost first.

* **`Substitutes`** says the same without a scan: it names the occurrences, and in front of each there is
  nothing that one could begin with earlier.
* **`substitutes_iff`**: the scan finds those occurrences and leaves everything else alone.
* **`replaceChars_singleton`**: a single character is replaced wherever it stands.
-/

namespace AmpTuner.Text

open Markup.Token (Clear clear_of_upTo upTo)

variable {part new s t rest before : List Char}

/-- The second text is the first one with `new` in the place of the occurrences of `part`, of those that overlap
the leftmost. -/
inductive Substitutes (part new : List Char) : List Char → List Char → Prop
  | clear {s : List Char} (hs : Clear part.isPrefixOf [] s) : Substitutes part new s s
  | occurrence {before s t : List Char} (hbefore : Clear part.isPrefixOf (part ++ s) before)
      (hs : Substitutes part new s t) : Substitutes part new (before ++ (part ++ s)) (before ++ (new ++ t))

theorem replaceChars_nil : replaceChars part new [] = [] := by
  rw [replaceChars]

/-- The search passes over a front in which the part begins nowhere. -/
theorem replaceChars_of_clear (new : List Char) (hbefore : Clear part.isPrefixOf rest before) :
    replaceChars part new (before ++ rest) = before ++ replaceChars part new rest := by
  induction before with
  | nil => rfl
  | cons c before ih =>
    obtain ⟨hc, hbefore⟩ := hbefore
    rw [List.cons_append] at hc ⊢
    rw [replaceChars, hc, Bool.and_false, if_neg Bool.false_ne_true, ih hbefore, List.cons_append]

/-- Where the part stands, the new text takes its place and the search goes on behind it. -/
theorem replaceChars_append (hne : part ≠ []) (new s : List Char) :
    replaceChars part new (part ++ s) = new ++ replaceChars part new s := by
  obtain ⟨c, more, rfl⟩ := List.exists_cons_of_ne_nil hne
  have hbegins : (c :: more).isPrefixOf (c :: (more ++ s)) = true :=
    List.isPrefixOf_iff_prefix.mpr ⟨s, rfl⟩
  rw [List.cons_append, replaceChars, hbegins, if_pos (by simp), List.length_cons, Nat.add_sub_cancel,
    List.drop_left]

/-- A text with every occurrence exchanged is what the loop computes. By induction on the occurrences. -/
theorem Substitutes.replaceChars_eq (hne : part ≠ []) (h : Substitutes part new s t) :
    replaceChars part new s = t := by
  induction h with
  | @clear s hs =>
    have hnone := replaceChars_of_clear new hs
    rwa [replaceChars_nil, List.append_nil] at hnone
  | occurrence hbefore _ ih => rw [replaceChars_of_clear _ hbefore, replaceChars_append hne, ih]

/-- Either the part occurs nowhere, or there is a first occurrence. -/
theorem clear_or_exists_occurrence (part s : List Char) : Clear part.isPrefixOf [] s
    ∨ ∃ before behind, s = before ++ (part ++ behind) ∧ Clear part.isPrefixOf (part ++ behind) before := by
  have hscan : upTo part.isPrefixOf s = ((upTo part.isPrefixOf s).1, (upTo part.isPrefixOf s).2) := rfl
  obtain ⟨hsplit, hclear, hend | hfound⟩ := clear_of_upTo hscan
  · rw [hend] at hsplit hclear
    rw [List.append_nil] at hsplit
    exact .inl (hsplit ▸ hclear)
  · obtain ⟨behind, hbehind⟩ := List.isPrefixOf_iff_prefix.mp hfound
    rw [← hbehind] at hsplit hclear
    exact .inr ⟨_, behind, hsplit, hclear⟩

/-- What the loop computes has every occurrence exchanged, taken from left to right without overlap. -/
theorem substitutes_replaceChars (hne : part ≠ []) (s : List Char) :
    Substitutes part new s (replaceChars part new s) := by
  induction hlength : s.length using Nat.strong_induction_on generalizing s with
  | _ n ih =>
    rcases clear_or_exists_occurrence part s with hclear | ⟨before, behind, rfl, hclear⟩
    · have hnone := replaceChars_of_clear new hclear
      rw [replaceChars_nil, List.append_nil] at hnone
      rw [hnone]
      exact .clear hclear
    · have hshorter : behind.length < n := by
        have hpart := List.length_pos_of_ne_nil hne
        simp only [List.length_append] at hlength
        omega
      rw [replaceChars_of_clear _ hclear, replaceChars_append hne]
      exact .occurrence hclear (ih _ hshorter behind rfl)

/-- What `replace` makes of a text is the only text with all occurrences replaced. -/
theorem substitutes_iff (hne : part ≠ []) : Substitutes part new s t ↔ t = replaceChars part new s :=
  ⟨fun h => (h.replaceChars_eq hne).symm, fun h => h ▸ substitutes_replaceChars hne s⟩

/-- To replace a single character is to map the characters. -/
theorem replaceChars_singleton (c : Char) (new s : List Char) :
    replaceChars [c] new s = s.flatMap fun d => if d = c then new else [d] := by
  induction s with
  | nil => rw [replaceChars_nil, List.flatMap_nil]
  | cons d s ih =>
    rw [List.flatMap_cons]
    by_cases hd : d = c
    · have hfront := replaceChars_append (List.cons_ne_nil c []) new s
      rw [List.singleton_append] at hfront
      rw [hd, if_pos rfl, hfront, ih]
    · have hclear : Clear [c].isPrefixOf s [d] :=
        Markup.Token.clear_isPrefixOf_singleton_iff.mpr (by simpa using Ne.symm hd)
      have hfront := replaceChars_of_clear new hclear
      rw [List.singleton_append] at hfront
      rw [if_neg hd, hfront, ih]

end AmpTuner.Text
