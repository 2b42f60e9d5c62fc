import AmpTuner.Pass.Viewport
import AmpTuner.Proofs.Text.Parts
import Mathlib.Data.List.Forall2
import Mathlib.Data.List.ReduceOption

/-!
# Declarations of the viewport

A declaration is a list of parts between commas, and a part that is not blank says something of one key.

* **`ReadsPart`** and **`Reads`** tell what a part and a declaration say, without a procedure to find it
  out. `reads_iff` has the procedure: what a declaration says is what `properties` gives, and nothing else.
* **`Tidy`** is what can be written and read again (`Tidy.readsPart`). All that was read is tidy.
* **`exists_reads_merge`**: what is read from merged declarations says of each key the last that was said
  of it, and has the keys in the order in which they came up. Only the empty key may be lost, which is
  written as nothing at all.
-/

namespace AmpTuner.Viewport

open Text (trim)

variable {part content key value : String} {found : Option (String × String)} {given : List (String × String)}
  {p : String × String}

/-! ## What a declaration says -/

/-- What one part says: nothing if it is blank, the value of a key if there is an equals sign, which the
key ends at, and else a key without a value. -/
inductive ReadsPart : String → Option (String × String) → Prop
  | blank {part : String} (hblank : Text.isAllBlank part = true) : ReadsPart part none
  | key {part : String} (hblank : Text.isAllBlank part = false) (hkey : '=' ∉ part.toList) :
      ReadsPart part (some ((trim part).toLower, ""))
  | value {key value : String} (hkey : '=' ∉ key.toList) :
      ReadsPart (key ++ "=" ++ value) (some ((trim key).toLower, trim value))

/-- What the parts between the commas say, in order. -/
def Reads (content : String) (given : List (String × String)) : Prop :=
  ∃ parts found, content = ",".intercalate parts ∧ (∀ part ∈ parts, ',' ∉ part.toList)
    ∧ List.Forall₂ ReadsPart parts found ∧ given = found.reduceOption

/-- One part, as it is read. -/
def property? (part : String) : Option (String × String) :=
  if (trim part).isEmpty then none else some (property (trim part))

/-- The properties of a text are those of its parts, without the parts that say nothing. -/
theorem properties_eq (content : String) :
    properties content = ((Text.split (· == ',') content).map property?).reduceOption := by
  rw [properties]
  induction Text.split (· == ',') content with
  | nil => rfl
  | cons part rest ih =>
    rw [List.map_cons, List.map_cons, property?]
    split
    · next hempty =>
      rw [List.filter_cons_of_neg (by simp [hempty]), ih]
      rfl
    · next hempty =>
      rw [List.filter_cons_of_pos (by simp [hempty]), List.map_cons, ih]
      rfl

theorem property_trim_of_not_mem (hkey : '=' ∉ part.toList) : property (trim part) = ((trim part).toLower, "") := by
  have htrim : '=' ∉ (trim part).toList := fun hmem => hkey (Text.trim_subset part hmem)
  rw [property, Text.splitOnce_of_not_mem htrim]

/-- A part with an equals sign is a key with what follows the first one. -/
theorem property_trim_append (hkey : '=' ∉ key.toList) :
    property (trim (key ++ "=" ++ value)) = ((trim key).toLower, trim value) := by
  -- the blanks before the key and behind the value are gone, those at the sign are trimmed now
  have hsplit : trim (key ++ "=" ++ value) = String.ofList (key.toList.dropWhile Text.isBlank) ++ "="
      ++ String.ofList (value.toList.rdropWhile Text.isBlank) := by
    refine String.toList_injective ?_
    have hlist : (key ++ "=" ++ value).toList = key.toList ++ '=' :: value.toList := by simp
    rw [Text.toList_trim, hlist, Text.trimChars_append_cons (by decide)]
    simp
  have hfront : '=' ∉ (String.ofList (key.toList.dropWhile Text.isBlank)).toList := by
    rw [String.toList_ofList]
    exact fun hmem => hkey ((List.dropWhile_sublist _).subset hmem)
  rw [hsplit, property, Text.splitOnce_append hfront]
  simp only [trim, String.toList_ofList, Text.trimChars_dropWhile, Text.trimChars_rdropWhile]

/-- A text with an equals sign can be cut at the first one. -/
theorem exists_append_of_mem (h : '=' ∈ part.toList) : ∃ key value, part = key ++ "=" ++ value ∧ '=' ∉ key.toList := by
  obtain ⟨front, back, hsplit, hfront⟩ := List.eq_append_cons_of_mem h
  refine ⟨String.ofList front, String.ofList back, String.toList_injective ?_, by rwa [String.toList_ofList]⟩
  rw [hsplit]
  simp

/-- Cut at its first equals sign, a part is read as key and value. -/
theorem property?_append (hkey : '=' ∉ key.toList) :
    property? (key ++ "=" ++ value) = some ((trim key).toLower, trim value) := by
  have hblank : Text.isAllBlank (key ++ "=" ++ value) = false := by
    simp [Text.isAllBlank, show Text.isBlank '=' = false by decide]
  rw [property?, Text.isEmpty_trim, hblank, if_neg Bool.false_ne_true, property_trim_append hkey]

/-- The relation says of a part what the function computes. -/
theorem readsPart_iff : ReadsPart part found ↔ found = property? part := by
  constructor
  · intro h
    cases h with
    | blank hblank => rw [property?, Text.isEmpty_trim, if_pos hblank]
    | key hblank hkey =>
      rw [property?, Text.isEmpty_trim, hblank, if_neg Bool.false_ne_true, property_trim_of_not_mem hkey]
    | value hkey => exact (property?_append hkey).symm
  · rintro rfl
    by_cases hmem : '=' ∈ part.toList
    · obtain ⟨key, value, rfl, hkey⟩ := exists_append_of_mem hmem
      rw [property?_append hkey]
      exact .value hkey
    · rw [property?, Text.isEmpty_trim, property_trim_of_not_mem hmem]
      split
      · next hblank => exact .blank hblank
      · next hblank => exact .key (Bool.eq_false_iff.mpr hblank) hmem

/-- The relation says of a row of parts what the function computes of each. -/
theorem forall₂_readsPart_iff {parts : List String} {found : List (Option (String × String))} :
    List.Forall₂ ReadsPart parts found ↔ found = parts.map property? := by
  have hreads : ReadsPart = fun part found => property? part = found :=
    funext fun part => funext fun found => propext (readsPart_iff.trans eq_comm)
  rw [hreads, ← List.forall₂_map_left_iff (R := Eq), List.forall₂_eq_eq_eq, eq_comm]

/-- A declaration says one thing, and that is what is read. -/
theorem reads_iff : Reads content given ↔ given = properties content := by
  rw [properties_eq]
  constructor
  · rintro ⟨parts, found, rfl, hfree, hfound, rfl⟩
    rw [forall₂_readsPart_iff.mp hfound]
    by_cases hne : parts = []
    · subst hne
      rw [String.intercalate_nil, Text.split]
      rfl
    · rw [Text.split_intercalate hne hfree]
  · rintro rfl
    exact ⟨_, _, (Text.intercalate_split content).symm, fun _ => Text.not_mem_of_mem_split,
      forall₂_readsPart_iff.mpr rfl, rfl⟩

/-! ## Writing and reading again -/

/-- Nothing is cut off or changed when the property is written and read again. -/
structure Tidy (p : String × String) : Prop where
  key_trimmed : trim p.1 = p.1
  key_lower : p.1.toLower = p.1
  key_sign : '=' ∉ p.1.toList
  key_comma : ',' ∉ p.1.toList
  value_trimmed : trim p.2 = p.2
  value_comma : ',' ∉ p.2.toList

/-- Trimmed and in lower case, a key and a value without separators are tidy. -/
theorem tidy_of_trim (hsign : '=' ∉ key.toList) (hkey : ',' ∉ key.toList) (hvalue : ',' ∉ value.toList) :
    Tidy ((trim key).toLower, trim value) where
  key_trimmed := by rw [Text.trim_toLower, Markup.trim_trim]
  key_lower := Text.toLower_toLower _
  key_sign := by
    rw [Text.mem_toLower_iff (by decide)]
    exact fun h => hsign (Text.trim_subset _ h)
  key_comma := by
    rw [Text.mem_toLower_iff (by decide)]
    exact fun h => hkey (Text.trim_subset _ h)
  value_trimmed := Markup.trim_trim value
  value_comma := fun h => hvalue (Text.trim_subset _ h)

/-- What is read of a part without a comma is tidy. -/
theorem ReadsPart.tidy (h : ReadsPart part (some p)) (hcomma : ',' ∉ part.toList) : Tidy p := by
  cases h with
  | key _ hkey =>
    have htidy : Tidy ((trim part).toLower, trim "") := tidy_of_trim hkey hcomma List.not_mem_nil
    exact htidy
  | value hkey =>
    rw [String.toList_append, String.toList_append, List.mem_append, List.mem_append, not_or, not_or] at hcomma
    exact tidy_of_trim hkey hcomma.1.1 hcomma.2

theorem tidy_of_mem_properties (h : p ∈ properties content) : Tidy p := by
  rw [properties_eq, List.reduceOption_mem_iff, List.mem_map] at h
  obtain ⟨part, hpart, hfound⟩ := h
  exact (readsPart_iff.mpr hfound.symm).tidy (Text.not_mem_of_mem_split hpart)

namespace Tidy

theorem isAllBlank (h : Tidy p) : Text.isAllBlank p.1 = p.1.isEmpty := by
  rw [← Text.isEmpty_trim, h.key_trimmed]

/-- A key without a value is written alone, so that the empty key disappears. -/
theorem readsPart (h : Tidy p) : ReadsPart (writeProperty p) (if p = ("", "") then none else some p) := by
  obtain ⟨key, value⟩ := p
  rw [writeProperty]
  split
  · next hvalue =>
    obtain rfl : value = "" := by simpa using hvalue
    split
    · next heq => exact .blank (by rw [h.isAllBlank, (Prod.mk.inj heq).1]; rfl)
    · next hne =>
      have hkey : key.isEmpty = false := by simpa using hne
      have hread := ReadsPart.key (h.isAllBlank.trans hkey) h.key_sign
      rwa [h.key_trimmed, h.key_lower] at hread
  · next hvalue =>
    rw [if_neg fun heq => hvalue (by rw [(Prod.mk.inj heq).2]; rfl)]
    have hread : ReadsPart (key ++ "=" ++ value) _ := .value h.key_sign
    rwa [h.key_trimmed, h.key_lower, h.value_trimmed] at hread

/-- A tidy property is written without a comma. -/
theorem comma_not_mem (h : Tidy p) : ',' ∉ (writeProperty p).toList := by
  rw [writeProperty]
  split
  · exact h.key_comma
  · simp [h.key_comma, h.value_comma]

end Tidy

/-- A written list of properties is read again without the empty one. -/
theorem reads_intercalate (h : ∀ p ∈ given, Tidy p) :
    Reads (",".intercalate (given.map writeProperty)) (given.filter (· ≠ ("", ""))) := by
  refine ⟨given.map writeProperty, given.map fun p => if p = ("", "") then none else some p, rfl, ?_, ?_, ?_⟩
  · intro part hpart
    obtain ⟨p, hp, rfl⟩ := List.mem_map.mp hpart
    exact (h p hp).comma_not_mem
  · rw [List.forall₂_map_left_iff, List.forall₂_map_right_iff, List.forall₂_same]
    exact fun p hp => (h p hp).readsPart
  · rw [List.reduceOption, List.filterMap_map, ← List.filterMap_eq_filter]
    refine List.filterMap_congr fun p _ => ?_
    by_cases hp : p = ("", "") <;> simp [hp, Option.guard]

/-! ## Merging -/

variable {L : List (String × String)}

/-- Writing a property adds its key at the end, if it is not there already. -/
theorem keys_putProperty : (putProperty key value L).map (·.1)
    = if key ∈ L.map (·.1) then L.map (·.1) else L.map (·.1) ++ [key] := by
  induction L with
  | nil => rfl
  | cons p L ih =>
    rw [putProperty]
    by_cases hp : p.1 = key
    · simp [hp]
    · rw [if_neg hp, List.map_cons, ih, List.map_cons]
      by_cases hmem : key ∈ L.map (·.1) <;> simp [hmem, Ne.symm hp]

/-- Looking up in a row that begins with a property. -/
theorem lookup_cons (key : String) : (p :: L).lookup key = if key = p.1 then some p.2 else L.lookup key := by
  rw [List.lookup_cons]
  by_cases hkey : key = p.1
  · simp [hkey]
  · rw [beq_eq_false_iff_ne.mpr hkey, if_neg hkey]

/-- Looking up what was written finds it, and every other key as before. -/
theorem lookup_putProperty (other : String) :
    (putProperty key value L).lookup other = if other = key then some value else L.lookup other := by
  induction L with
  | nil => exact lookup_cons other
  | cons p L ih =>
    rw [putProperty]
    split
    · next hp =>
      rw [lookup_cons, lookup_cons, hp]
      split <;> rfl
    · next hp =>
      rw [lookup_cons, lookup_cons, ih]
      by_cases hkey : other = p.1
      · simp [hkey, hp]
      · simp [hkey]

/-- Nothing but the property is added. -/
theorem mem_putProperty (h : p ∈ putProperty key value L) : p = (key, value) ∨ p ∈ L := by
  induction L with
  | nil => exact .inl (List.mem_singleton.mp h)
  | cons q L ih =>
    rw [putProperty] at h
    split at h
    · exact (List.mem_cons.mp h).imp_right (List.mem_cons_of_mem q)
    · rcases List.mem_cons.mp h with rfl | h
      · exact .inr List.mem_cons_self
      · exact (ih h).imp_right (List.mem_cons_of_mem q)

/-- All that was said, with one value for each key. -/
def settled (given : List (String × String)) : List (String × String) :=
  given.foldl (fun found p => putProperty p.1 p.2 found) []

theorem settled_append_singleton : settled (given ++ [p]) = putProperty p.1 p.2 (settled given) := by
  rw [settled, List.foldl_append]
  rfl

theorem merge_eq (contents : List String) :
    merge contents = ",".intercalate ((settled (contents.flatMap properties)).map writeProperty) :=
  rfl

/-- All that is settled was said. -/
theorem mem_of_mem_settled (h : p ∈ settled given) : p ∈ given := by
  induction given using List.reverseRecOn with
  | nil => cases h
  | append_singleton given q ih =>
    rw [settled_append_singleton] at h
    rcases mem_putProperty h with rfl | h
    · simp
    · exact List.mem_append_left _ (ih h)

/-- The keys come in the order in which they came up. -/
theorem keys_settled (given : List (String × String)) :
    (settled given).map (·.1) = (given.map (·.1)).eraseDups := by
  induction given using List.reverseRecOn with
  | nil => rfl
  | append_singleton given p ih =>
    rw [settled_append_singleton, keys_putProperty, ih, List.map_append, List.eraseDups_append]
    simp only [List.mem_eraseDups]
    by_cases hmem : p.1 ∈ given.map (·.1) <;> simp [List.removeAll, List.eraseDups_cons, hmem]

/-- The value of a key is the last that was given for it. -/
theorem lookup_settled (given : List (String × String)) :
    (settled given).lookup key = given.reverse.lookup key := by
  induction given using List.reverseRecOn with
  | nil => rfl
  | append_singleton given p ih =>
    rw [settled_append_singleton, lookup_putProperty, ih, List.reverse_append, List.reverse_singleton,
      List.singleton_append, lookup_cons]

/-- The keys but the empty one, once each and in the order in which they came up, with the last value that
was given for them. -/
structure SumsUp (given back : List (String × String)) : Prop where
  keys : (back.map (·.1)).filter (· ≠ "") = (given.map (·.1)).eraseDups.filter (· ≠ "")
  lookup : ∀ key, key ≠ "" → back.lookup key = given.reverse.lookup key

/-- Leaving out the empty property does not matter to the other keys. -/
theorem lookup_filter (hkey : key ≠ "") : (L.filter (· ≠ ("", ""))).lookup key = L.lookup key := by
  induction L with
  | nil => rfl
  | cons p L ih =>
    by_cases hp : p = ("", "")
    · rw [List.filter_cons_of_neg (by simp [hp]), ih, lookup_cons, if_neg (by simpa [hp] using hkey)]
    · rw [List.filter_cons_of_pos (by simp [hp]), lookup_cons, lookup_cons, ih]

/-- Leaving out the empty property does not matter to the order of the other keys. -/
theorem keys_filter : ((L.filter (· ≠ ("", ""))).map (·.1)).filter (· ≠ "") = (L.map (·.1)).filter (· ≠ "") := by
  rw [List.filter_map, List.filter_map, List.filter_filter]
  congr 1
  refine List.filter_congr fun p _ => ?_
  by_cases hkey : p.1 = ""
  · simp [hkey]
  · simp [hkey, show p ≠ ("", "") from fun hp => hkey (by rw [hp])]

theorem sumsUp_settled (given : List (String × String)) :
    SumsUp given ((settled given).filter (· ≠ ("", ""))) where
  keys := by rw [keys_filter, keys_settled]
  lookup key hkey := by rw [lookup_filter hkey, lookup_settled]

/-- Merged declarations are read as what all of them said. -/
theorem exists_reads_merge (contents : List String) : ∃ given back,
    List.Forall₂ Reads contents given ∧ Reads (merge contents) back ∧ SumsUp given.flatten back := by
  refine ⟨contents.map properties, _, ?_, ?_, sumsUp_settled _⟩
  · rw [List.forall₂_map_right_iff, List.forall₂_same]
    exact fun content _ => reads_iff.mpr rfl
  · rw [merge_eq, List.flatMap_def]
    refine reads_intercalate fun p hp => ?_
    obtain ⟨said, hsaid, hp⟩ := List.mem_flatten.mp (mem_of_mem_settled hp)
    obtain ⟨content, -, rfl⟩ := List.mem_map.mp hsaid
    exact tidy_of_mem_properties hp

end AmpTuner.Viewport
