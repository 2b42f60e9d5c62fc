import AmpTuner.Proofs.Markup.Classes
import AmpTuner.Proofs.Markup.Scanning

/-!
# Parts of a text

What splitting, trimming and lower case do to a text, and to each other.

* **`split_intercalate`** and **`intercalate_split`**: parts without commas are found again between commas,
  and any text is made of its parts. `splitOnce_append` is the same for one sign.
* **`trimChars_append_cons`** trims both ends of a text at once, around any character that is no blank.
* **`trim_toLower`**: only letters have a lower case, which is neither a blank nor a sign.
-/

namespace AmpTuner.Text

variable {sep : Char → Bool} {s t m : List Char} {c d : Char}

/-! ## Parts between separators -/

theorem splitChars_eq_splitOnP (sep : Char → Bool) (s : List Char) : splitChars sep s = s.splitOnP sep := by
  induction s with
  | nil => rfl
  | cons c s ih => rw [splitChars, ih, List.splitOnP_cons_eq_if_modifyHead]

/-- A part has no separator in it. -/
theorem free_of_mem_splitChars (h : m ∈ splitChars sep s) : ∀ c ∈ m, sep c = false := by
  induction s generalizing m with
  | nil =>
    rw [List.mem_singleton.mp h]
    simp
  | cons d s ih =>
    rw [splitChars] at h
    split at h
    · rcases List.mem_cons.mp h with rfl | h
      · simp
      · exact ih h
    · next hd =>
      obtain ⟨first, more, heq⟩ := List.exists_cons_of_ne_nil (splitChars_ne_nil sep s)
      rw [heq, List.modifyHead_cons, List.mem_cons] at h
      rcases h with rfl | h
      · exact List.forall_mem_cons.mpr ⟨Bool.eq_false_iff.mpr hd, ih (heq ▸ List.mem_cons_self)⟩
      · exact ih (heq ▸ List.mem_cons_of_mem _ h)

theorem not_mem_of_mem_split {part content : String} (h : part ∈ split (· == c) content) : c ∉ part.toList := by
  obtain ⟨m, hm, rfl⟩ := List.mem_map.mp h
  rw [String.toList_ofList]
  exact fun hc => by simpa using free_of_mem_splitChars hm c hc

theorem map_toList_map_ofList (parts : List (List Char)) : (parts.map String.ofList).map String.toList = parts := by
  have hid : String.toList ∘ String.ofList = id := funext fun _ => String.toList_ofList
  rw [List.map_map, hid, List.map_id]

theorem intercalate_split (content : String) : ",".intercalate (split (· == ',') content) = content := by
  refine String.toList_injective ?_
  rw [String.toList_intercalate, split, map_toList_map_ofList, splitChars_eq_splitOnP]
  exact List.intercalate_splitOn ','

/-- Parts without a comma, and at least one of them, are read back from the text that joins them. -/
theorem split_intercalate {parts : List String} (hne : parts ≠ []) (hfree : ∀ part ∈ parts, ',' ∉ part.toList) :
    split (· == ',') (",".intercalate parts) = parts := by
  have hsplit : ([','].intercalate (parts.map String.toList)).splitOn ',' = parts.map String.toList :=
    List.splitOn_intercalate ',' (by simpa using hfree) (by simpa using hne)
  rw [split, String.toList_intercalate, splitChars_eq_splitOnP]
  show (([','].intercalate (parts.map String.toList)).splitOn ',').map String.ofList = parts
  rw [hsplit, List.map_map]
  have hid : String.ofList ∘ String.toList = id := funext fun _ => String.ofList_toList
  rw [hid, List.map_id]

/-- Without a separator the text is its own first half, and there is no second. -/
theorem splitOnce_of_not_mem {content : String} (h : c ∉ content.toList) : splitOnce c content = (content, none) := by
  have hbefore : content.toList.takeWhile (· != c) = content.toList :=
    List.takeWhile_eq_self_iff.mpr fun d hd => bne_iff_ne.mpr fun heq => h (heq ▸ hd)
  rw [splitOnce, hbefore]
  simp

/-- A key without an equals sign ends at the sign that was written behind it. -/
theorem splitOnce_append {key value : String} (h : '=' ∉ key.toList) :
    splitOnce '=' (key ++ "=" ++ value) = (key, some value) := by
  have hkey : ∀ d ∈ key.toList, (d != '=') = true := fun d hd => bne_iff_ne.mpr fun heq => h (heq ▸ hd)
  have hlist : (key ++ "=" ++ value).toList = key.toList ++ '=' :: value.toList := by simp
  have hbefore : (key ++ "=" ++ value).toList.takeWhile (· != '=') = key.toList := by
    rw [hlist, List.takeWhile_append_of_pos hkey]
    simp
  rw [splitOnce, hbefore, hlist, List.drop_left]
  simp

/-! ## White space at the ends -/

theorem toList_trim (content : String) : (trim content).toList = trimChars content.toList := String.toList_ofList

theorem trim_subset (content : String) : (trim content).toList ⊆ content.toList := by
  rw [toList_trim]
  exact (Markup.trimChars_sublist _).subset

/-- Exactly the blank texts are trimmed to nothing. -/
theorem isEmpty_trim {content : String} : (trim content).isEmpty = isAllBlank content := by
  have hempty : trimChars content.toList = [] ↔ ∀ c ∈ content.toList, isBlank c = true := by
    rw [Markup.trimChars_eq, List.rdropWhile_eq_nil_iff]
    refine ⟨fun h => ?_, fun h c hc => h c ((List.dropWhile_sublist _).subset hc)⟩
    -- the first character that is left would be none
    refine List.dropWhile_eq_nil_iff.mp (List.eq_nil_iff_forall_not_mem.mpr fun c hc => ?_)
    have hpos : 0 < (content.toList.dropWhile isBlank).length := List.length_pos_of_mem hc
    exact List.dropWhile_get_zero_not isBlank content.toList hpos (h _ (List.getElem_mem hpos))
  rw [isAllBlank, Bool.eq_iff_iff, List.all_eq_true, ← hempty, String.isEmpty_iff, ← String.toList_inj, toList_trim]
  rfl

/-- Leading blanks are dropped no further than to a character that is none. -/
theorem dropWhile_append_cons (hc : isBlank c = false) :
    (s ++ c :: t).dropWhile isBlank = s.dropWhile isBlank ++ c :: t := by
  have hstop : (c :: t).dropWhile isBlank = c :: t := List.dropWhile_cons_of_neg (by simp [hc])
  rw [List.dropWhile_append, hstop]
  split
  · next hempty => rw [List.isEmpty_iff.mp hempty, List.nil_append]
  · rfl

/-- Around a character that is no blank each end is trimmed for itself. -/
theorem trimChars_append_cons (hc : isBlank c = false) :
    trimChars (s ++ c :: t) = s.dropWhile isBlank ++ c :: t.rdropWhile isBlank := by
  rw [Markup.trimChars_eq, dropWhile_append_cons hc, List.rdropWhile, List.reverse_append, List.reverse_cons,
    List.append_assoc, List.singleton_append, dropWhile_append_cons hc, List.rdropWhile]
  simp

theorem trimChars_append_front {front : List Char} (hfront : ∀ c ∈ front, isBlank c = true) :
    trimChars (front ++ s) = trimChars s := by
  rw [trimChars, List.dropWhile_append_of_pos hfront]
  rfl

/-- Blanks behind make no difference to what trimming leaves. -/
theorem trimChars_append_back {back : List Char} (hback : ∀ c ∈ back, isBlank c = true) :
    trimChars (s ++ back) = trimChars s := by
  have hreverse : ∀ c ∈ back.reverse, isBlank c = true := fun c hc => hback c (List.mem_reverse.mp hc)
  rw [trimChars, trimChars, List.dropWhile_append]
  split
  · next hempty =>
    rw [List.isEmpty_iff.mp hempty, List.dropWhile_eq_nil_iff.mpr hback]
  · rw [List.reverse_append, List.dropWhile_append_of_pos hreverse]

theorem trimChars_dropWhile (s : List Char) : trimChars (s.dropWhile isBlank) = trimChars s := by
  rw [Markup.trimChars_eq, List.dropWhile_idempotent, Markup.trimChars_eq]

theorem trimChars_rdropWhile (s : List Char) : trimChars (s.rdropWhile isBlank) = trimChars s := by
  have hblank : ∀ c ∈ s.rtakeWhile isBlank, isBlank c = true := fun c hc => List.mem_rtakeWhile_imp hc
  rw [← trimChars_append_back hblank, List.rdropWhile_append_rtakeWhile]

/-! ## Case -/

/-- A blank stays a blank in lower case, and nothing becomes one. -/
theorem isBlank_toLower (c : Char) : isBlank c.toLower = isBlank c := by
  rcases Markup.Token.toLower_cases c with hc | ⟨hlow, hhigh, hc⟩
  · rw [hc]
  -- letters of either case lie between the blanks
  · have hletter {d : Char} (hlow : 65 ≤ d.toNat) (hhigh : d.toNat ≤ 122) : isBlank d = false := by
      simp only [isBlank, Bool.or_eq_false_iff, Bool.and_eq_false_iff, decide_eq_false_iff_not, beq_eq_false_iff_ne]
      omega
    rw [hletter hlow (by omega), hletter (by omega) (by omega)]

/-- Below the capital letters, a character is the lower case of itself only. -/
theorem toLower_eq_iff (hd : d.toNat < 65) : c.toLower = d ↔ c = d := by
  rcases Markup.Token.toLower_cases c with hc | ⟨hlow, hhigh, hc⟩
  · rw [hc]
  · constructor
    · rintro rfl
      omega
    · rintro rfl
      omega

theorem toList_toLower (content : String) : content.toLower.toList = content.toList.map Char.toLower :=
  String.toList_map

theorem toLower_toLower (content : String) : content.toLower.toLower = content.toLower := by
  refine String.toList_injective ?_
  rw [toList_toLower, toList_toLower, List.map_map]
  exact List.map_congr_left fun c _ => Markup.Token.toLower_toLower c

theorem mem_toLower_iff {content : String} (hd : d.toNat < 65) : d ∈ content.toLower.toList ↔ d ∈ content.toList := by
  rw [toList_toLower, List.mem_map]
  simp only [toLower_eq_iff hd, exists_eq_right]

/-- Trimming and lower case may change places. -/
theorem trim_toLower (content : String) : trim content.toLower = (trim content).toLower := by
  refine String.toList_injective ?_
  have hblank : isBlank ∘ Char.toLower = isBlank := funext isBlank_toLower
  have hfront (s : List Char) : (s.map Char.toLower).dropWhile isBlank = (s.dropWhile isBlank).map Char.toLower := by
    rw [List.dropWhile_map, hblank]
  rw [toList_trim, toList_toLower, toList_toLower, toList_trim, trimChars, trimChars, hfront, ← List.map_reverse,
    hfront, List.map_reverse]

end AmpTuner.Text
