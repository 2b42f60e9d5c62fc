import AmpTuner.Proofs.Css.Media

/-!
# Source sizes: the first condition that holds decides

A source-size list is read from the front: the size of the first entry whose condition holds is taken, and
the last size, which has no condition, when none holds. Of rules in a stylesheet the last one that applies is
taken. `sourceSizes` turns the one order into the other.

## The bricks

* **`SourceSizes`** is a list that is written as it should be, with any blanks around its parts.
* **`splitCommas_text`**: the commas between parentheses are left alone, so that the parts are the entries.
* **`splitCondition_append`**: read backwards, an entry gives its size as it was written, be it a word or a
  call, and what stands in front of that is the condition.
* **`decides_sourceSizes`**: whatever conditions hold, the last rule that applies has the size that the list
  chooses.
-/

namespace AmpTuner.Css

open Text (isBlank trimChars trimChars_append_front trimChars_append_back)

/-! ## Lists as they should be written -/

/-- Nothing but blanks. -/
def AllBlank (s : List Char) : Prop := ∀ c ∈ s, isBlank c = true

instance (s : List Char) : Decidable (AllBlank s) := decidable_of_iff (s.all isBlank = true) List.all_eq_true

/-- Every parenthesis has its other one. -/
inductive Balanced : List Char → Prop
  | nil : Balanced []
  | char {c : Char} {rest : List Char} (hopen : c ≠ '(') (hclose : c ≠ ')') (hrest : Balanced rest) :
      Balanced (c :: rest)
  | group {inner rest : List Char} (hinner : Balanced inner) (hrest : Balanced rest) :
      Balanced ('(' :: (inner ++ ')' :: rest))

/-- Every parenthesis has its other one, and commas stand between such only. -/
inductive Enclosed : List Char → Prop
  | nil : Enclosed []
  | char {c : Char} {rest : List Char} (hc : c ≠ ',' ∧ c ≠ '(' ∧ c ≠ ')') (hrest : Enclosed rest) :
      Enclosed (c :: rest)
  | group {inner rest : List Char} (hinner : Balanced inner) (hrest : Enclosed rest) :
      Enclosed ('(' :: (inner ++ ')' :: rest))

/-- A size is a word without parentheses, or a call of a function. -/
inductive IsSize : List Char → Prop
  | word {word : List Char} (hne : word ≠ [])
      (hword : ∀ c ∈ word, isBlank c = false ∧ c ≠ ',' ∧ c ≠ '(' ∧ c ≠ ')') : IsSize word
  | call {name body : List Char} (hname : ∀ c ∈ name, isNameChar c = true) (hbody : Balanced body) :
      IsSize (name ++ '(' :: (body ++ [')']))

/-- The blanks around a condition are none of it. -/
structure IsCondition (condition : List Char) : Prop where
  ne_nil : condition ≠ []
  trimmed : trimChars condition = condition
  enclosed : Enclosed condition

/-- A size that is taken under a condition, and the blanks in front of the two, between and behind them. -/
structure SizeEntry where
  condition : List Char
  size : List Char
  front : List Char
  gap : List Char
  back : List Char
  isCondition : IsCondition condition
  isSize : IsSize size
  front_blank : AllBlank front
  gap_blank : AllBlank gap
  gap_ne_nil : gap ≠ []
  back_blank : AllBlank back

/-- Entries, and the size that is taken otherwise. -/
structure SourceSizes where
  entries : List SizeEntry
  otherwise : List Char
  front : List Char
  back : List Char
  isSize : IsSize otherwise
  front_blank : AllBlank front
  back_blank : AllBlank back

/-- The entry as it is written. -/
def SizeEntry.text (e : SizeEntry) : List Char := e.front ++ (e.condition ++ e.gap ++ e.size) ++ e.back

namespace SourceSizes

/-- The list as it is written. -/
def text (list : SourceSizes) : List Char :=
  list.entries.flatMap (fun e => e.text ++ [',']) ++ (list.front ++ list.otherwise ++ list.back)

/-- The size of the first entry whose condition holds. -/
def choice (list : SourceSizes) (holds : String → Bool) : String :=
  String.ofList (((list.entries.find? fun e => holds (String.ofList e.condition)).map (·.size)).getD
    list.otherwise)

end SourceSizes

/-- The last rule that has no condition, or one that holds. -/
def Rules.applied? (rs : Rules) (holds : String → Bool) : Option Rule :=
  rs.rules.reverse.find? (·.media.all holds)

variable {c : Char} {s front back size condition body rest : List Char}

/-! ## Characters -/

/-- Blanks are no commas and no parentheses. -/
theorem plain_of_isBlank (h : isBlank c = true) : c ≠ ',' ∧ c ≠ '(' ∧ c ≠ ')' := by
  refine ⟨?_, ?_, ?_⟩ <;>
  · rintro rfl
    revert h
    decide

/-- Characters of names are no commas and no parentheses. -/
theorem plain_of_isNameChar (h : isNameChar c = true) : c ≠ ',' ∧ c ≠ '(' ∧ c ≠ ')' := by
  refine ⟨?_, ?_, ?_⟩ <;>
  · rintro rfl
    revert h
    decide

/-- A name has no blanks in it. -/
theorem isBlank_of_isNameChar (h : isNameChar c = true) : isBlank c = false := by
  rw [isNameChar, Bool.or_eq_true, beq_iff_eq] at h
  rcases h with h | rfl
  · have hval : c.toNat = c.val.toNat := rfl
    have h : ((decide ('A'.val ≤ c.val ∧ c.val ≤ 'Z'.val) || (decide ('a'.val ≤ c.val) && decide (c.val ≤ 'z'.val)))
        || (decide ('0'.val ≤ c.val) && decide (c.val ≤ '9'.val))) = true := h
    simp only [Bool.or_eq_true, Bool.and_eq_true, decide_eq_true_eq, UInt32.le_iff_toNat_le] at h
    simp only [isBlank, Bool.or_eq_false_iff, Bool.and_eq_false_iff, decide_eq_false_iff_not,
      beq_eq_false_iff_ne]
    simp at h
    omega
  · decide

/-! ## Blanks at the ends -/

/-- No blank stands at either end of a text that is trimmed. -/
theorem trimChars_eq_self_iff :
    trimChars s = s ↔ (∀ c ∈ s.head?, isBlank c = false) ∧ ∀ c ∈ s.getLast?, isBlank c = false := by
  constructor
  · refine fun htrimmed => ⟨fun c hc => ?_, fun c hc => ?_⟩
    · have hfront := Markup.dropWhile_trimChars s
      rw [htrimmed] at hfront
      exact Bool.eq_false_iff.mpr fun hblank => by
        obtain ⟨rest, rfl⟩ := List.head?_eq_some_iff.mp hc
        have hlength := (List.dropWhile_suffix isBlank (l := rest)).length_le
        rw [List.dropWhile_cons_of_pos hblank] at hfront
        rw [hfront, List.length_cons] at hlength
        omega
    · obtain ⟨front, rfl⟩ := List.getLast?_eq_some_iff.mp hc
      simpa using isBlank_getLast htrimmed (by simp)
  · rintro ⟨hhead, hlast⟩
    have hself {s : List Char} (hs : ∀ c ∈ s.head?, isBlank c = false) : s.dropWhile isBlank = s := by
      cases s with
      | nil => rfl
      | cons c s => exact List.dropWhile_cons_of_neg (by simp [hs c rfl])
    rw [trimChars, hself hhead, hself (by rwa [List.head?_reverse]), List.reverse_reverse]

/-- A size neither begins nor ends with a blank. -/
theorem IsSize.trimmed (h : IsSize size) : trimChars size = size := by
  cases h with
  | word hne hword =>
    exact trimChars_eq_self_iff.mpr
      ⟨fun c hc => (hword c (List.mem_of_head? hc)).1, fun c hc => (hword c (List.mem_of_getLast? hc)).1⟩
  | @call name body hname hbody =>
    refine trimChars_eq_self_iff.mpr ⟨fun c hc => ?_, fun c hc => ?_⟩
    · cases name with
      | nil =>
        obtain rfl : '(' = c := Option.some.inj hc
        decide
      | cons d name =>
        obtain rfl : d = c := Option.some.inj hc
        exact isBlank_of_isNameChar (hname d List.mem_cons_self)
    · rw [← List.cons_append, ← List.append_assoc, List.getLast?_concat] at hc
      obtain rfl : ')' = c := Option.some.inj hc
      decide

theorem IsSize.ne_nil (h : IsSize size) : size ≠ [] := by
  cases h with
  | word hne hword => exact hne
  | call hname hbody => simp

/-- Trimming an entry leaves condition, gap and size. -/
theorem SizeEntry.trimChars_text (e : SizeEntry) : trimChars e.text = e.condition ++ e.gap ++ e.size := by
  rw [text, trimChars_append_back e.back_blank, trimChars_append_front e.front_blank]
  have hcondition := trimChars_eq_self_iff.mp e.isCondition.trimmed
  have hsize := trimChars_eq_self_iff.mp e.isSize.trimmed
  refine trimChars_eq_self_iff.mpr ⟨?_, ?_⟩
  · rw [List.append_assoc, List.head?_append_of_ne_nil _ e.isCondition.ne_nil]
    exact hcondition.1
  · rw [List.getLast?_append_of_ne_nil _ e.isSize.ne_nil]
    exact hsize.2

/-! ## The commas between the entries -/

/-- A text without commas and parentheses is enclosed. -/
theorem Enclosed.of_plain (hs : ∀ c ∈ s, c ≠ ',' ∧ c ≠ '(' ∧ c ≠ ')') : Enclosed s := by
  induction s with
  | nil => exact .nil
  | cons c s ih =>
    obtain ⟨hc, hs⟩ := List.forall_mem_cons.mp hs
    exact .char hc (ih hs)

/-- Enclosed texts make an enclosed text. -/
theorem Enclosed.append (hs : Enclosed s) (hrest : Enclosed rest) : Enclosed (s ++ rest) := by
  induction hs with
  | nil => exact hrest
  | char hc _ ih => exact .char hc ih
  | group hinner _ ih =>
    rw [List.cons_append, List.append_assoc]
    exact .group hinner ih

theorem AllBlank.enclosed (hs : AllBlank s) : Enclosed s := .of_plain fun c hc => plain_of_isBlank (hs c hc)

/-- Sizes are enclosed: their commas stand inside a call. -/
theorem IsSize.enclosed (h : IsSize size) : Enclosed size := by
  cases h with
  | word hne hword => exact .of_plain fun c hc => (hword c hc).2
  | call hname hbody =>
    exact (Enclosed.of_plain fun c hc => plain_of_isNameChar (hname c hc)).append (.group hbody .nil)

theorem SizeEntry.enclosed (e : SizeEntry) : Enclosed e.text :=
  (e.front_blank.enclosed.append
    ((e.isCondition.enclosed.append e.gap_blank.enclosed).append e.isSize.enclosed)).append e.back_blank.enclosed

/-- Behind an open parenthesis no comma counts. -/
theorem Balanced.splitCommas_append (h : Balanced body) (depth : Nat) (rest : List Char) :
    splitCommas (depth + 1) (body ++ rest) = (splitCommas (depth + 1) rest).modifyHead (body ++ ·) := by
  induction h generalizing depth rest with
  | nil => exact (congrFun List.modifyHead_id _).symm
  | char hopen hclose _ ih =>
    simp [splitCommas, hopen, hclose, ih, List.modifyHead_modifyHead, Function.comp_def]
  | group _ _ ihInner ihRest =>
    simp [splitCommas, ihInner, ihRest, List.modifyHead_modifyHead, Function.comp_def]

/-- No part ends inside an enclosed text. -/
theorem Enclosed.splitCommas_append (h : Enclosed s) (rest : List Char) :
    splitCommas 0 (s ++ rest) = (splitCommas 0 rest).modifyHead (s ++ ·) := by
  induction h with
  | nil => exact (congrFun List.modifyHead_id _).symm
  | char hc _ ih =>
    rw [List.cons_append, splitCommas_cons hc, ih, List.modifyHead_modifyHead]
    rfl
  | group hinner _ ih =>
    simp [splitCommas, hinner.splitCommas_append, ih, List.modifyHead_modifyHead, Function.comp_def]

/-- The parts of a list are its entries and the size at its end. -/
theorem splitCommas_text (list : SourceSizes) : splitCommas 0 list.text
    = list.entries.map SizeEntry.text ++ [list.front ++ list.otherwise ++ list.back] := by
  rw [SourceSizes.text]
  have hlast : Enclosed (list.front ++ list.otherwise ++ list.back) :=
    (list.front_blank.enclosed.append list.isSize.enclosed).append list.back_blank.enclosed
  generalize list.front ++ list.otherwise ++ list.back = last at hlast ⊢
  induction list.entries with
  | nil =>
    have hsplit := hlast.splitCommas_append []
    rw [List.append_nil] at hsplit
    rw [List.flatMap_nil, List.nil_append, hsplit]
    simp [splitCommas]
  | cons e entries ih =>
    rw [List.flatMap_cons, List.append_assoc, List.append_assoc, e.enclosed.splitCommas_append, List.singleton_append,
      splitCommas, if_pos (by simp), ih]
    simp

/-! ## The size at the end of an entry -/

/-- Read backwards, a text whose parentheses match leaves as many closed as there were. -/
theorem Balanced.takeCall_append (h : Balanced body) (depth : Nat) (rest : List Char) :
    takeCall (depth + 1) (body.reverse ++ rest)
      = (takeCall (depth + 1) rest).map fun (call, rest) => (body.reverse ++ call, rest) := by
  induction h generalizing depth rest with
  | nil => simp
  | char hopen hclose _ ih =>
    simp [takeCall, hopen, hclose, ih, Function.comp_def]
  | group _ _ ihInner ihRest =>
    simp [takeCall, ihInner, ihRest, Function.comp_def]

/-- Whatever the condition is, it ends in a blank or is none at all. -/
def EndsBlank (front : List Char) : Prop := ∀ c ∈ front.getLast?, isBlank c = true

/-- Nothing is taken back over a blank, or over nothing. -/
theorem takeWhile_of_endsBlank {p : Char → Bool} (hp : ∀ c, isBlank c = true → p c = false)
    (hfront : EndsBlank front) :
    front.reverse.takeWhile p = [] ∧ front.reverse.dropWhile p = front.reverse := by
  have hhead : ∀ c ∈ front.reverse.head?, p c = false := fun c hc => hp c (hfront c (by rwa [← List.head?_reverse]))
  cases hrev : front.reverse with
  | nil => exact ⟨rfl, rfl⟩
  | cons c rest =>
    have hc : p c = false := hhead c (by rw [hrev]; rfl)
    exact ⟨List.takeWhile_cons_of_neg (by simp [hc]), List.dropWhile_cons_of_neg (by simp [hc])⟩

/-- The size is found as it was written, and what stands in front of it is the condition. -/
theorem splitCondition_append (hsize : IsSize size) (hfront : EndsBlank front) :
    splitCondition (front ++ size) = (trimChars front, size) := by
  have htrimmed := hsize.trimmed
  cases hsize with
  | @word word hne hword =>
    obtain ⟨htake, hdrop⟩ := takeWhile_of_endsBlank (p := (!isBlank ·)) (by simp) hfront
    have hall : ∀ c ∈ size.reverse, (!isBlank c) = true := by
      intro c hc
      simp [(hword c (List.mem_reverse.mp hc)).1]
    have hlast : ((front ++ size).reverse.head? = some ')') = False := by
      rw [List.head?_reverse, List.getLast?_append_of_ne_nil _ hne]
      refine eq_false fun heq => ?_
      exact (hword ')' (List.mem_of_getLast? heq)).2.2.2 rfl
    simp only [splitCondition, hlast, if_false]
    rw [List.reverse_append, List.takeWhile_append_of_pos hall, List.dropWhile_append_of_pos hall, htake, hdrop,
      List.append_nil, List.reverse_reverse, List.reverse_reverse, htrimmed]
  | @call name body hname hbody =>
    obtain ⟨htake, hdrop⟩ := takeWhile_of_endsBlank (p := isNameChar)
      (fun c hc => by
        by_contra hnot
        rw [isBlank_of_isNameChar (by simpa using hnot)] at hc
        cases hc) hfront
    have hall : ∀ c ∈ name.reverse, isNameChar c = true := fun c hc => hname c (List.mem_reverse.mp hc)
    have hbackwards : (front ++ (name ++ '(' :: (body ++ [')']))).reverse
        = ')' :: (body.reverse ++ '(' :: (name.reverse ++ front.reverse)) := by simp
    have hcall : takeCall 0 (front ++ (name ++ '(' :: (body ++ [')']))).reverse
        = some (')' :: (body.reverse ++ ['(']), name.reverse ++ front.reverse) := by
      rw [hbackwards, takeCall, if_neg (by decide)]
      simp [hbody.takeCall_append, takeCall]
    simp only [splitCondition, hcall]
    rw [hbackwards, List.head?_cons, if_pos rfl, List.takeWhile_append_of_pos hall,
      List.dropWhile_append_of_pos hall, htake, hdrop]
    simp [htrimmed]

/-! ## The rules -/

/-- The rule of an entry. -/
def SizeEntry.rule (make : String → Rule) (e : SizeEntry) : Rule :=
  { make (String.ofList e.size) with media := some (String.ofList e.condition) }

theorem IsCondition.withMedia (h : IsCondition condition) (r : Rule) :
    r.withMedia (String.ofList condition) = { r with media := some (String.ofList condition) } := by
  rw [Rule.withMedia, Text.trim, String.toList_ofList, h.trimmed]
  simp [h.ne_nil]

/-- An entry is cut into what it was made of. -/
theorem SizeEntry.splitCondition_trimmed (e : SizeEntry) :
    splitCondition (e.condition ++ e.gap ++ e.size) = (e.condition, e.size) := by
  have hends : EndsBlank (e.condition ++ e.gap) := by
    intro c hc
    rw [List.getLast?_append_of_ne_nil _ e.gap_ne_nil] at hc
    exact e.gap_blank c (List.mem_of_getLast? hc)
  rw [splitCondition_append e.isSize hends, trimChars_append_back e.gap_blank, e.isCondition.trimmed]

/-- The entries are read one by one, and give a rule each. -/
theorem conditionalRules_text (make : String → Rule) (entries : List SizeEntry) :
    conditionalRules make (entries.map SizeEntry.text) = .ok (entries.map (SizeEntry.rule make)) := by
  induction entries with
  | nil => rfl
  | cons e entries ih =>
    have hne : (e.condition ++ e.gap ++ e.size).isEmpty = false := by simp [e.isSize.ne_nil]
    have hcondition : e.condition.isEmpty = false := by simp [e.isCondition.ne_nil]
    rw [List.map_cons, conditionalRules]
    simp only [e.trimChars_text, hne, e.splitCondition_trimmed, hcondition, ih, e.isCondition.withMedia]
    rfl

/-- The rules of a list: that without a condition in front, then the entries from the last to the first, so that the
first entry comes last and wins. -/
theorem sourceSizes_text (selector property : String) (list : SourceSizes) :
    sourceSizes selector property (String.ofList list.text)
      = .ok (.ofList (⟨selector, property ++ ":" ++ String.ofList list.otherwise, none⟩
          :: list.entries.reverse.map (SizeEntry.rule fun size => ⟨selector, property ++ ":" ++ size, none⟩))) := by
  have hlast : trimChars (list.front ++ list.otherwise ++ list.back) = list.otherwise := by
    rw [trimChars_append_back list.back_blank, trimChars_append_front list.front_blank, list.isSize.trimmed]
  have hsplit := @splitCondition_append [] list.otherwise list.isSize (by simp [EndsBlank])
  have hne : list.otherwise.isEmpty = false := by simp [list.isSize.ne_nil]
  rw [sourceSizes, String.toList_ofList, splitCommas_text, List.reverse_append, ← List.map_reverse]
  simp only [List.reverse_singleton, List.singleton_append, hlast]
  rw [← List.nil_append list.otherwise, hsplit]
  simp only [List.nil_append, hne, conditionalRules_text]
  rfl

/-- The rules stand in the opposite order of the entries, behind the one for all. -/
theorem applied?_of_sourceSizes {selector property : String} {list : SourceSizes} {rs : Rules}
    (hrules : sourceSizes selector property (String.ofList list.text) = .ok rs) (holds : String → Bool) :
    (rs.applied? holds).map (fun r => (r.selector, r.declaration))
      = some (selector, property ++ ":" ++ list.choice holds) := by
  rw [sourceSizes_text] at hrules
  obtain rfl := Except.ok.inj hrules
  rw [Rules.applied?, Rules.ofList, Rules.rules_addAll, SourceSizes.choice]
  simp only [List.nil_append, List.reverse_cons, ← List.map_reverse, List.reverse_reverse, List.find?_append,
    List.find?_map]
  have hconditions : ((fun r : Rule => r.media.all holds)
      ∘ SizeEntry.rule fun size => ⟨selector, property ++ ":" ++ size, none⟩)
      = fun e => holds (String.ofList e.condition) := rfl
  rw [hconditions]
  cases list.entries.find? fun e => holds (String.ofList e.condition) with
  | none => rfl
  | some e => rfl

/-- Whatever holds of the screen, the rules that are applied last set what the list chooses. -/
theorem decides_sourceSizes (list : SourceSizes) :
    ∃ widths paddings, sizesRules (String.ofList list.text) = .ok widths
      ∧ heightsRules (String.ofList list.text) = .ok paddings
      ∧ ∀ holds : String → Bool,
        (widths.applied? holds).map (fun r => (r.selector, r.declaration))
            = some (idSelector, "width:" ++ list.choice holds)
          ∧ (paddings.applied? holds).map (fun r => (r.selector, r.declaration))
            = some (heightsSelector, "padding-top:" ++ list.choice holds) := by
  have hwidths := sourceSizes_text idSelector "width" list
  have hpaddings := sourceSizes_text heightsSelector "padding-top" list
  exact ⟨_, _, hwidths, hpaddings, fun holds =>
    ⟨applied?_of_sourceSizes hwidths holds, applied?_of_sourceSizes hpaddings holds⟩⟩

example : ∃ list : SourceSizes, list.text = "(a) f(1,2), 9".toList :=
  ⟨{ entries :=
      [{ condition := "(a)".toList
         size := "f(1,2)".toList
         front := []
         gap := [' ']
         back := []
         isCondition := ⟨by simp, by decide, @Enclosed.group ['a'] [] (.char (by decide) (by decide) .nil) .nil⟩
         isSize := @IsSize.call ['f'] ['1', ',', '2'] (List.forall_mem_singleton.mpr (by decide))
          (.char (by decide) (by decide) (.char (by decide) (by decide) (.char (by decide) (by decide) .nil)))
         front_blank := by decide
         gap_blank := by decide
         gap_ne_nil := by simp
         back_blank := by decide }]
     otherwise := ['9']
     front := [' ']
     back := []
     isSize := .word (by simp) (List.forall_mem_singleton.mpr (by decide))
     front_blank := by decide
     back_blank := by decide }, rfl⟩

end AmpTuner.Css
