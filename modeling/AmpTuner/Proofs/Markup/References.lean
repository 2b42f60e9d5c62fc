import AmpTuner.Markup.Reference
import AmpTuner.Proofs.Text.Occurrences

/-!
# Escapes and references

The writer puts references in the place of the characters that would end a text or a quoted value, and the
reader puts characters in the place of references.

* **`Reference.Decodes`** says what a text with references stands for. A reference ends at the first semicolon
  behind its ampersand, which has to come within a few bytes, and an ampersand that begins none stands for
  itself. `decodes_iff`: the reader takes exactly that.
* **`Reference.Escapes`** is a way to write single characters that leaves no ampersand but in front of
  references. Whatever is written so is read back: `Escapes.decodes`.
* **`decode_escaped`** is that for the two escapes of the writer, with the characters that they keep out.
-/

namespace AmpTuner.Markup

open Text (replace replaceChars replaceChars_singleton)

namespace Reference

variable {c : Char} {name input rest s t : List Char}

/-! ## What a reference is -/

/-- Between an ampersand and a semicolon the name stands for the character. -/
structure Names (name : List Char) (c : Char) : Prop where
  plain : ';' ∉ name
  short : (String.ofList name).utf8ByteSize ≤ maxNameBytes
  meaning : meaning? name = some c

/-- No character is less than a byte. -/
theorem length_le_utf8ByteSize (s : List Char) : s.length ≤ (String.ofList s).utf8ByteSize := by
  induction s with
  | nil => exact Nat.zero_le _
  | cons c s ih =>
    have hsize := Char.utf8Size_pos c
    rw [String.ofList_cons, String.utf8ByteSize_append, String.utf8ByteSize_singleton, List.length_cons]
    omega

/-- A name is found again between the ampersand and the semicolon, since it is short enough. -/
theorem Names.takeWhile (h : Names name c) (rest : List Char) :
    ((name ++ ';' :: rest).take maxNameBytes).takeWhile (· != ';') = name := by
  have hplain : ∀ d ∈ name, (d != ';') = true := fun d hd => bne_iff_ne.mpr fun heq => h.plain (heq ▸ hd)
  rw [List.take_append, List.take_of_length_le ((length_le_utf8ByteSize name).trans h.short),
    List.takeWhile_append_of_pos hplain]
  cases maxNameBytes - name.length with
  | zero => simp
  | succ n => simp

/-- A reference is read where the text up to the next semicolon is a name, and nowhere else. -/
theorem read?_eq_some_iff : read? input = some (c, rest) ↔ ∃ name, Names name c ∧ input = name ++ ';' :: rest := by
  constructor
  · intro h
    simp only [read?] at h
    set name := (input.take maxNameBytes).takeWhile (· != ';') with hname
    have hprefix : name <+: input := (List.takeWhile_prefix _).trans (List.take_prefix _ _)
    have hplain : ';' ∉ name := fun hmem => by simpa using List.mem_takeWhile_imp hmem
    split at h
    · next rest' hrest =>
      split at h
      · next hshort =>
        obtain ⟨d, hmeaning, hpair⟩ := Option.map_eq_some_iff.mp h
        obtain ⟨rfl, rfl⟩ := Prod.mk.inj hpair
        refine ⟨name, ⟨hplain, hshort, hmeaning⟩, ?_⟩
        rw [← hrest, List.prefix_iff_eq_append.mp hprefix]
      · cases h
    · cases h
  · rintro ⟨name, hnames, rfl⟩
    simp only [read?, hnames.takeWhile, List.drop_left, hnames.short, hnames.meaning, if_true, Option.map_some]

/-! ## What a text stands for -/

/-- The second text is the first one with its references replaced. -/
inductive Decodes : List Char → List Char → Prop
  | nil : Decodes [] []
  | plain {c : Char} {s t : List Char} (hc : c ≠ '&') (hs : Decodes s t) : Decodes (c :: s) (c :: t)
  | reference {name : List Char} {c : Char} {s t : List Char} (hname : Names name c) (hs : Decodes s t) :
      Decodes ('&' :: (name ++ ';' :: s)) (c :: t)
  | ampersand {s t : List Char} (hnone : ∀ name c rest, Names name c → s ≠ name ++ ';' :: rest)
      (hs : Decodes s t) : Decodes ('&' :: s) ('&' :: t)

theorem decodeChars_cons (h : c ≠ '&') (rest : List Char) : decodeChars (c :: rest) = c :: decodeChars rest := by
  rw [decodeChars, if_neg h]

/-- A reference stands for its character. -/
theorem decodeChars_of_read? (h : read? input = some (c, rest)) :
    decodeChars ('&' :: input) = c :: decodeChars rest := by
  rw [decodeChars, if_pos rfl]
  split
  · next named rest' hread =>
    rw [h] at hread
    obtain ⟨rfl, rfl⟩ := Prod.mk.inj (Option.some.inj hread)
    rfl
  · next hread =>
    rw [h] at hread
    cases hread

/-- An ampersand that begins no reference stands for itself. -/
theorem decodeChars_of_read?_eq_none (h : read? input = none) :
    decodeChars ('&' :: input) = '&' :: decodeChars input := by
  rw [decodeChars, if_pos rfl]
  split
  · next hread =>
    rw [h] at hread
    cases hread
  · rfl

/-- No reference is read where none stands, and only there. -/
theorem read?_eq_none_iff : read? input = none ↔ ∀ name c rest, Names name c → input ≠ name ++ ';' :: rest := by
  rw [Option.eq_none_iff_forall_ne_some]
  constructor
  · exact fun h name c rest hname heq => h (c, rest) (read?_eq_some_iff.mpr ⟨name, hname, heq⟩)
  · rintro h ⟨c, rest⟩ hread
    obtain ⟨name, hname, heq⟩ := read?_eq_some_iff.mp hread
    exact h name c rest hname heq

/-- A text stands for what the loop computes, and for nothing else. By induction on the derivation. -/
theorem Decodes.decodeChars_eq (h : Decodes s t) : decodeChars s = t := by
  induction h with
  | nil => rw [decodeChars]
  | plain hc _ ih => rw [decodeChars_cons hc, ih]
  | reference hname _ ih => rw [decodeChars_of_read? (read?_eq_some_iff.mpr ⟨_, hname, rfl⟩), ih]
  | ampersand hnone _ ih => rw [decodeChars_of_read?_eq_none (read?_eq_none_iff.mpr hnone), ih]

/-- A text stands for what the loop computes. By induction on the loop. -/
theorem decodes_decodeChars (s : List Char) : Decodes s (decodeChars s) := by
  induction s using decodeChars.induct with
  | case1 =>
    rw [decodeChars]
    exact .nil
  | case2 input named rest hread ih =>
    obtain ⟨name, hname, rfl⟩ := read?_eq_some_iff.mp hread
    rw [decodeChars_of_read? hread]
    exact .reference hname ih
  | case3 input hnone ih =>
    rw [decodeChars_of_read?_eq_none hnone]
    exact .ampersand (read?_eq_none_iff.mp hnone) ih
  | case4 c input hc ih =>
    rw [decodeChars_cons hc]
    exact .plain hc ih

/-- A text stands for one text only, the one that the reader takes it for. -/
theorem decodes_iff : Decodes s t ↔ t = decodeChars s :=
  ⟨fun h => h.decodeChars_eq.symm, fun h => h ▸ decodes_decodeChars s⟩

-- nine bytes is the longest name
example : decode "&#00000065;&#000000065;".toList = "A&#000000065;" := by decide +kernel

/-! ## Ways to write characters -/

/-- A character is written as it is, unless it is the ampersand, or as a reference that names it. -/
def Escapes (escape : Char → List Char) : Prop :=
  ∀ c, escape c = [c] ∧ c ≠ '&' ∨ ∃ name, Names name c ∧ escape c = '&' :: (name ++ [';'])

/-- A text escaped character by character stands for itself unescaped. By induction on the text. -/
theorem Escapes.decodes {escape : Char → List Char} (h : Escapes escape) (s : List Char) :
    Decodes (s.flatMap escape) s := by
  induction s with
  | nil => exact .nil
  | cons c s ih =>
    rw [List.flatMap_cons]
    rcases h c with ⟨heq, hc⟩ | ⟨name, hname, heq⟩
    · rw [heq]
      exact .plain hc ih
    · rw [heq, List.cons_append, List.append_assoc]
      exact .reference hname ih

/-- The escapes of texts are references or plain characters. -/
theorem escapes_text : Escapes escapeTextChar := by
  intro c
  unfold escapeTextChar
  split
  · exact .inr ⟨"amp".toList, ⟨by decide, by decide, by decide⟩, rfl⟩
  · exact .inr ⟨"lt".toList, ⟨by decide, by decide, by decide⟩, rfl⟩
  · exact .inr ⟨"gt".toList, ⟨by decide, by decide, by decide⟩, rfl⟩
  · next hamp _ _ => exact .inl ⟨rfl, hamp⟩

/-- The escapes of attribute values are references or plain characters. -/
theorem escapes_attribute : Escapes escapeAttributeChar := by
  intro c
  unfold escapeAttributeChar
  split
  · exact .inr ⟨"amp".toList, ⟨by decide, by decide, by decide⟩, rfl⟩
  · exact .inr ⟨"quot".toList, ⟨by decide, by decide, by decide⟩, rfl⟩
  · next hamp _ => exact .inl ⟨rfl, hamp⟩

theorem decode_escapeText (s : String) : decode (escapeText s).toList = s := by
  rw [decode, escapeText, String.toList_ofList, (escapes_text.decodes _).decodeChars_eq, String.ofList_toList]

theorem decode_escapeAttribute (s : String) : decode (escapeAttribute s).toList = s := by
  rw [decode, escapeAttribute, String.toList_ofList, (escapes_attribute.decodes _).decodeChars_eq,
    String.ofList_toList]

end Reference

/-! ## What is kept out -/

/-- No bracket is left in an escaped text. -/
theorem brackets_notMem_escapeText (s : String) : '<' ∉ (escapeText s).toList ∧ '>' ∉ (escapeText s).toList := by
  have hchar (c : Char) : '<' ∉ escapeTextChar c ∧ '>' ∉ escapeTextChar c := by
    unfold escapeTextChar
    split
    · decide
    · decide
    · decide
    · next hlt hgt => exact ⟨by simpa using Ne.symm hlt, by simpa using Ne.symm hgt⟩
  rw [escapeText, String.toList_ofList, List.mem_flatMap, List.mem_flatMap]
  exact ⟨fun ⟨c, _, hc⟩ => (hchar c).1 hc, fun ⟨c, _, hc⟩ => (hchar c).2 hc⟩

/-- No quote is left in an escaped attribute value. -/
theorem quote_notMem_escapeAttribute (s : String) : '"' ∉ (escapeAttribute s).toList := by
  have hchar (c : Char) : '"' ∉ escapeAttributeChar c := by
    unfold escapeAttributeChar
    split
    · decide
    · decide
    · next hquote => simpa using Ne.symm hquote
  rw [escapeAttribute, String.toList_ofList, List.mem_flatMap]
  exact fun ⟨c, _, hc⟩ => hchar c hc

/-! ## One character after the other -/

/-- The ampersands come first, so that no reference is escaped again. -/
theorem escapeText_eq_replace (s : String) :
    escapeText s = replace ">" "&gt;" (replace "<" "&lt;" (replace "&" "&amp;" s)) := by
  refine String.toList_injective ?_
  simp only [escapeText, replace, String.toList_ofList]
  show s.toList.flatMap escapeTextChar = replaceChars ['>'] _ (replaceChars ['<'] _ (replaceChars ['&'] _ _))
  rw [replaceChars_singleton, replaceChars_singleton, replaceChars_singleton, List.flatMap_assoc, List.flatMap_assoc]
  refine List.flatMap_congr fun c _ => ?_
  unfold escapeTextChar
  split
  · rfl
  · rfl
  · rfl
  · next hamp hlt hgt =>
    rw [if_neg hamp, List.flatMap_singleton, if_neg hlt, List.flatMap_singleton, if_neg hgt]

/-- An attribute value may be escaped sign by sign: ampersands first, then quotes. -/
theorem escapeAttribute_eq_replace (s : String) :
    escapeAttribute s = replace "\"" "&quot;" (replace "&" "&amp;" s) := by
  refine String.toList_injective ?_
  simp only [escapeAttribute, replace, String.toList_ofList]
  show s.toList.flatMap escapeAttributeChar = replaceChars ['"'] _ (replaceChars ['&'] _ _)
  rw [replaceChars_singleton, replaceChars_singleton, List.flatMap_assoc]
  refine List.flatMap_congr fun c _ => ?_
  unfold escapeAttributeChar
  split
  · rfl
  · rfl
  · next hamp hquote => rw [if_neg hamp, List.flatMap_singleton, if_neg hquote]

/-- Reading undoes both escapes of any text, be there references in it or not. What an escape is for is not in what
it writes, and each is one replacement after the other. -/
theorem Reference.decode_escaped (s : String) :
    (decode (escapeText s).toList = s ∧ decode (escapeAttribute s).toList = s)
      ∧ ('<' ∉ (escapeText s).toList ∧ '>' ∉ (escapeText s).toList)
      ∧ '"' ∉ (escapeAttribute s).toList
      ∧ escapeText s = replace ">" "&gt;" (replace "<" "&lt;" (replace "&" "&amp;" s))
      ∧ escapeAttribute s = replace "\"" "&quot;" (replace "&" "&amp;" s) :=
  ⟨⟨decode_escapeText s, decode_escapeAttribute s⟩, brackets_notMem_escapeText s, quote_notMem_escapeAttribute s,
    escapeText_eq_replace s, escapeAttribute_eq_replace s⟩

end AmpTuner.Markup
