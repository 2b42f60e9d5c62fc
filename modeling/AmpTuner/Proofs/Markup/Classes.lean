import AmpTuner.Proofs.Markup.Reading

/-!
# Class lists

A class is in a class list when it stands there as a word of its own. So it stays in the list when blanks around the
list are cut off and other classes are appended.

* **`Stands`** says that a part of a text stands between separators.
* **`mem_splitChars`** and **`Stands.of_mem_splitChars`** are what the split does with that, and **`Stands.trimChars`**
  is the trim.
* **`hasClass_addClass_self`** and **`hasClass_addClass`** have both for the class list of an element.
-/

namespace AmpTuner.Text

variable {sep : Char → Bool} {m s : List Char} {c : Char}

/-! ## Words -/

/-- Around `m` the text is over or has a separator. -/
def Stands (sep : Char → Bool) (m s : List Char) : Prop :=
  ∃ before after, s = before ++ m ++ after
    ∧ (∀ c ∈ before.getLast?, sep c = true) ∧ ∀ c ∈ after.head?, sep c = true

/-- A text without separators is one part. -/
theorem splitChars_of_free (h : ∀ c ∈ m, sep c = false) : splitChars sep m = [m] := by
  induction m with
  | nil => rfl
  | cons c m ih =>
    obtain ⟨hc, hm⟩ := List.forall_mem_cons.mp h
    rw [splitChars, hc, if_neg Bool.false_ne_true, ih hm]
    rfl

/-- There is always a part, if only an empty one. -/
theorem splitChars_ne_nil (sep : Char → Bool) (s : List Char) : splitChars sep s ≠ [] := by
  cases s with
  | nil => exact List.cons_ne_nil _ _
  | cons c s =>
    rw [splitChars]
    split
    · exact List.cons_ne_nil _ _
    · exact fun hnil => splitChars_ne_nil sep s (List.modifyHead_eq_nil_iff.mp hnil)

/-- A separator parts the text in front of it from the text behind. -/
theorem splitChars_append_cons (s : List Char) {t : List Char} (hc : sep c = true) :
    splitChars sep (s ++ c :: t) = splitChars sep s ++ splitChars sep t := by
  induction s with
  | nil =>
    rw [List.nil_append, splitChars.eq_2, if_pos hc]
    rfl
  | cons d s ih =>
    rw [List.cons_append, splitChars, splitChars, ih]
    obtain ⟨first, more, heq⟩ := List.exists_cons_of_ne_nil (splitChars_ne_nil sep s)
    rw [heq]
    split
    · rfl
    · rfl

/-- A text without separators is a word, and otherwise it has a first one. -/
theorem free_or_exists_sep (sep : Char → Bool) (s : List Char) :
    (∀ c ∈ s, sep c = false) ∨ ∃ word c rest, s = word ++ c :: rest ∧ sep c = true ∧ ∀ d ∈ word, sep d = false := by
  induction s with
  | nil => exact .inl (by simp)
  | cons c s ih =>
    cases hc : sep c with
    | true => exact .inr ⟨[], c, s, rfl, hc, by simp⟩
    | false =>
      rcases ih with hfree | ⟨word, d, rest, rfl, hd, hword⟩
      · exact .inl (List.forall_mem_cons.mpr ⟨hc, hfree⟩)
      · exact .inr ⟨c :: word, d, rest, rfl, hd, List.forall_mem_cons.mpr ⟨hc, hword⟩⟩

/-- A part stands in the text, with separators or the ends around it. -/
theorem Stands.of_mem_splitChars (h : m ∈ splitChars sep s) : Stands sep m s := by
  -- the words behind the first separator are those of a shorter text
  induction hn : s.length using Nat.strong_induction_on generalizing s with
  | _ n ih =>
    rcases free_or_exists_sep sep s with hfree | ⟨word, c, rest, rfl, hc, hword⟩
    · rw [splitChars_of_free hfree, List.mem_singleton] at h
      exact ⟨[], [], by simp [h], by simp, by simp⟩
    · rw [splitChars_append_cons word hc, splitChars_of_free hword, List.singleton_append, List.mem_cons] at h
      rcases h with rfl | h
      · exact ⟨[], c :: rest, rfl, by simp, by simpa using hc⟩
      · have hlen : rest.length < n := by
          rw [← hn, List.length_append, List.length_cons]
          omega
        obtain ⟨before, after, rfl, hbefore, hafter⟩ := ih _ hlen h rfl
        refine ⟨word ++ c :: before, after, by simp, ?_, hafter⟩
        rw [List.getLast?_append]
        cases before with
        | nil => simpa using hc
        | cons d before => simpa [List.getLast?_cons_cons] using hbefore

/-- What stands so, and has no separator in it, is a part. -/
theorem mem_splitChars (hfree : ∀ c ∈ m, sep c = false) (h : Stands sep m s) : m ∈ splitChars sep s := by
  obtain ⟨before, after, rfl, hbefore, hafter⟩ := h
  have hrest : m ∈ splitChars sep (m ++ after) := by
    cases after with
    | nil => simp [splitChars_of_free hfree]
    | cons c after => simp [splitChars_append_cons m (hafter c rfl), splitChars_of_free hfree]
  rcases List.eq_nil_or_concat before with rfl | ⟨start, c, rfl⟩
  · exact hrest
  · rw [List.concat_eq_append, List.append_assoc, List.append_assoc, List.singleton_append,
      splitChars_append_cons start (hbefore c (by simp))]
    exact List.mem_append_right _ hrest

/-- Cutting at the ends does not touch a word that has none of what is cut. -/
theorem Stands.dropWhile {cut : Char → Bool} (h : Stands sep m s) (hne : m ≠ []) (hcut : ∀ c ∈ m, cut c = false) :
    Stands sep m (s.dropWhile cut) := by
  obtain ⟨before, after, rfl, hbefore, hafter⟩ := h
  refine ⟨before.dropWhile cut, after, ?_, fun c hc => hbefore c ?_, hafter⟩
  · obtain ⟨d, m, rfl⟩ := List.exists_cons_of_ne_nil hne
    rw [List.append_assoc, List.append_assoc, List.dropWhile_append, List.cons_append,
      List.dropWhile_cons_of_neg (by simp [hcut d])]
    split
    · next hnil => rw [List.isEmpty_iff.mp hnil]; rfl
    · rfl
  · obtain ⟨dropped, hdropped⟩ := List.dropWhile_suffix (l := before) cut
    rw [← hdropped, List.getLast?_append, hc]
    rfl

/-- A part of the text read backwards is the part read backwards. -/
theorem Stands.reverse (h : Stands sep m s) : Stands sep m.reverse s.reverse := by
  obtain ⟨before, after, rfl, hbefore, hafter⟩ := h
  refine ⟨after.reverse, before.reverse, by simp, ?_, ?_⟩
  · rwa [List.getLast?_reverse]
  · rwa [List.head?_reverse]

/-- Trimming does not reach a part without blanks. -/
theorem Stands.trimChars (h : Stands sep m s) (hne : m ≠ []) (hblank : ∀ c ∈ m, isBlank c = false) :
    Stands sep m (trimChars s) := by
  have hback : Stands sep m.reverse ((s.dropWhile isBlank).reverse.dropWhile isBlank) :=
    (h.dropWhile hne hblank).reverse.dropWhile (by simpa using hne) (by simpa using hblank)
  have hfront := hback.reverse
  rwa [List.reverse_reverse] at hfront

end AmpTuner.Text

namespace AmpTuner.Markup.Element

open Text (isBlank isAsciiBlank Stands)

variable {el : Element} {name other : String}

/-! ## Classes -/

/-- A name that can be in a class list: there are no blanks in it. -/
structure IsClass (name : String) : Prop where
  ne_nil : name.toList ≠ []
  unblank : ∀ c ∈ name.toList, isBlank c = false

theorem isClass_of_all (hne : name.toList ≠ []) (h : (name.toList.all fun c => !isBlank c) = true) : IsClass name :=
  ⟨hne, by simpa using h⟩

namespace IsClass

variable (h : IsClass name)

include h

theorem not_isAsciiBlank : ∀ c ∈ name.toList, isAsciiBlank c = false := by
  intro c hc
  rw [← Bool.not_eq_true]
  intro hblank
  have hunblank := h.unblank c hc
  rw [Text.isBlank_of_isAsciiBlank hblank] at hunblank
  cases hunblank

/-- A class is a word of the text exactly if it stands in it between separators. -/
theorem mem_words_iff {s : String} : name ∈ Text.words s ↔ Stands isAsciiBlank name.toList s.toList := by
  rw [Text.words, List.mem_map]
  constructor
  · rintro ⟨m, hm, rfl⟩
    rw [String.toList_ofList]
    exact .of_mem_splitChars (List.mem_of_mem_filter hm)
  · intro hstands
    refine ⟨name.toList, List.mem_filter.mpr ⟨Text.mem_splitChars h.not_isAsciiBlank hstands, ?_⟩, by simp⟩
    simpa using h.ne_nil

/-- An element has a class exactly if the class stands in its list between separators. -/
theorem hasClass_iff : el.hasClass name = true
    ↔ ∃ list, el.attribute? "class" = some list ∧ Stands isAsciiBlank name.toList list.toList := by
  rw [hasClass, Option.any_eq_true]
  constructor
  · rintro ⟨words, hwords, hmem⟩
    obtain ⟨list, hlist, rfl⟩ := Option.map_eq_some_iff.mp hwords
    exact ⟨list, hlist, h.mem_words_iff.mp (List.contains_iff_mem.mp hmem)⟩
  · rintro ⟨list, hlist, hstands⟩
    exact ⟨_, by rw [hlist]; rfl, List.contains_iff_mem.mpr (h.mem_words_iff.mpr hstands)⟩

/-- The class list when a class is appended. -/
theorem hasClass_addClass_self : (el.addClass name).hasClass name = true := by
  rw [addClass]
  split
  · assumption
  · refine h.hasClass_iff.mpr ⟨_, by rw [attribute?_set, if_pos rfl], ?_⟩
    split
    · exact ⟨[], [], by simp, by simp, by simp⟩
    · refine ⟨(Text.trim ((el.attribute? "class").getD "")).toList ++ [' '], [], ?_, ?_, by simp⟩
      · simp only [String.toList_append, List.append_nil]
        rfl
      · simp [isAsciiBlank]

/-- The classes that were in the list are still in it. -/
theorem hasClass_addClass (hclass : el.hasClass name = true) (other : String) :
    (el.addClass other).hasClass name = true := by
  rw [addClass]
  split
  · exact hclass
  · obtain ⟨list, hlist, hstands⟩ := h.hasClass_iff.mp hclass
    obtain ⟨before, after, heq, hbefore, hafter⟩ := hstands.trimChars h.ne_nil h.unblank
    have htrim : (Text.trim ((el.attribute? "class").getD "")).toList = before ++ name.toList ++ after := by
      rw [hlist, Option.getD_some, Text.trim, String.toList_ofList, heq]
    have hne : (Text.trim ((el.attribute? "class").getD "")).isEmpty = false := by
      rw [← Bool.not_eq_true, String.isEmpty_iff]
      intro hnil
      rw [hnil] at htrim
      exact h.ne_nil (List.append_eq_nil_iff.mp (List.append_eq_nil_iff.mp htrim.symm).1).2
    refine h.hasClass_iff.mpr ⟨_, by rw [attribute?_set, if_pos rfl, hne, if_neg Bool.false_ne_true], ?_⟩
    -- behind the list a blank begins what is appended
    refine ⟨before, after ++ ' ' :: other.toList, ?_, hbefore, ?_⟩
    · simp only [String.toList_append, htrim, List.append_assoc]
      rfl
    · cases after with
      | nil => simp [isAsciiBlank]
      | cons c after => exact hafter

end IsClass

theorem hasClass_set (hne : other ≠ "class") (value : String) :
    (el.set other value).hasClass name = el.hasClass name := by
  rw [hasClass, hasClass, attribute?_set_of_ne hne.symm]

end AmpTuner.Markup.Element
