import AmpTuner.Proofs.Css.SourceSizes
import AmpTuner.Proofs.Text.Slices

/-!
# Cutting source sizes at byte offsets

Source-size lists and media queries are cut at offsets that are found by counting bytes, and one of the two
scanners of source sizes looks at single bytes from the end. Here both are written over offsets, with slices that
fail where an offset lies inside a character.

## The bricks

* **`splitCommas?_eq`**, **`exists_cut`** and **`negation?_eq`**: no slice fails, whatever the text is, and the parts
  are those that are found character by character.
* **`fenced_splitCommas`**: a comma stays in its part exactly when a parenthesis is open there.
* **`exists_gap`**: an entry is its condition, blanks and its size, so nothing else is lost.
* **`bytewise_lossless`** puts them together.
-/

namespace AmpTuner.Css

open Text (isBlank trimChars trimChars_append_front trimChars_append_back slice? splitAt? charOffsets bytes)

namespace Bytewise

/-! ## The scanners over offsets -/

/-- How many parentheses are open behind a character. -/
def openBehind (depth : Nat) (c : Char) : Nat :=
  if c = '(' then depth + 1 else if c = ')' then depth - 1 else depth

/-- The parts of a text from the one that begins at `start` on, with the characters that are still to be read. -/
def partsFrom? (text : String) (start depth : Nat) : List (Char × Nat) → Option (List String)
  | [] => (slice? text start text.utf8ByteSize).map ([·])
  | (c, offset) :: rest =>
    if c = ',' ∧ depth = 0 then do
      let part ← slice? text start offset
      let more ← partsFrom? text (offset + 1) 0 rest
      return part :: more
    else partsFrom? text start (openBehind depth c) rest

/-- The parts of a text, as slices of it. -/
def splitCommas? (text : String) : Option (List String) := partsFrom? text 0 0 (charOffsets 0 text.toList)

/-- The byte of an opening parenthesis. -/
def opening : UInt8 := UInt8.ofNat '('.toNat

/-- The byte of a closing parenthesis. -/
def closing : UInt8 := UInt8.ofNat ')'.toNat

/-- From the last byte to the first: where the parenthesis opens that matches the first one found closed. -/
def callOffset? (depth : Nat) : List (UInt8 × Nat) → Option Nat
  | [] => none
  | (b, offset) :: rest =>
    if b = closing then callOffset? (depth + 1) rest
    else if b = opening then if depth - 1 = 0 then some offset else callOffset? (depth - 1) rest
    else callOffset? depth rest

/-- Bytes of which names of functions are made. -/
def isNameByte (b : UInt8) : Bool :=
  (0x30 ≤ b && b ≤ 0x39) || (0x41 ≤ b && b ≤ 0x5A) || (0x61 ≤ b && b ≤ 0x7A) || b == 0x2D

/-- Where the name begins that ends at an offset. The byte in front of an offset is there to be looked at, or
nothing comes of it. -/
def nameOffset? (bytes : List UInt8) : Nat → Option Nat
  | 0 => some 0
  | start + 1 => do
    let b ← bytes[start]?
    if isNameByte b then nameOffset? bytes start else some (start + 1)

/-- Where the last blank stands. -/
def blankOffset? (text : String) : Option Nat :=
  ((charOffsets 0 text.toList).reverse.find? (isBlank ·.1)).map (·.2)

/-- The text in front of an offset and the text behind it, without the blanks around them. -/
def trimmedAt? (text : String) (offset : Nat) : Option (String × String) :=
  (splitAt? text offset).map fun (front, behind) => (Text.trim front, Text.trim behind)

/-- An entry cut into condition and size, as slices of it. -/
def splitCondition? (entry : String) : Option (String × String) :=
  if Text.endsWith ")" entry then
    match callOffset? 0 (bytes entry).zipIdx.reverse with
    | some start => (nameOffset? (bytes entry) start).bind (trimmedAt? entry)
    | none => some ("", entry)
  else
    match blankOffset? entry with
    | some offset => trimmedAt? entry offset
    | none => some ("", entry)

/-- The first four bytes are asked for, and where they are no text the word is not there. What is behind the word is
taken without asking. -/
def negation? (query : String) : Option String :=
  match slice? query 0 4 with
  | some word =>
    if Text.sameIgnoringCase word "not " then (slice? query 4 query.utf8ByteSize).map Text.trim
    else some ("not " ++ query)
  | none => some ("not " ++ query)

end Bytewise

open Bytewise

variable {c : Char} {depth : Nat} {s part rest : List Char} {parts : List (List Char)}

/-! ## Commas -/

/-- One step of the model's scanner, written as the other scanner has it: a comma outside parentheses begins a part,
and any other character joins the one that is open. -/
theorem splitCommas_cons_eq (depth : Nat) (c : Char) (rest : List Char) : splitCommas depth (c :: rest)
    = if c = ',' ∧ depth = 0 then [] :: splitCommas 0 rest
      else (splitCommas (openBehind depth c) rest).modifyHead (c :: ·) := by
  simp only [splitCommas, openBehind, Bool.and_eq_true, decide_eq_true_eq]

theorem modifyHead_empty (parts : List (List Char)) : parts.modifyHead ("".toList ++ ·) = parts :=
  congrFun List.modifyHead_id parts

/-- The loop, with `front` read already and `current` open: it never fails, and its parts are those of the model's
scanner. By induction on what is left. -/
theorem partsFrom?_eq (front current : String) (depth : Nat) (rest : List Char) :
    partsFrom? (front ++ current ++ String.ofList rest) front.utf8ByteSize depth
        (charOffsets (front ++ current).utf8ByteSize rest)
      = some (((splitCommas depth rest).modifyHead (current.toList ++ ·)).map String.ofList) := by
  induction rest generalizing front current depth with
  | nil =>
    have hslice := Text.slice?_append front current ""
    rw [String.append_empty] at hslice
    rw [charOffsets, partsFrom?, String.ofList_nil, String.append_empty, hslice]
    simp [splitCommas]
  | cons c rest ih =>
    rw [charOffsets, partsFrom?, splitCommas_cons_eq]
    split
    · next hcut =>
      -- a part ends, and the next one begins behind the comma
      obtain ⟨rfl, rfl⟩ := hcut
      have hmore := ih (front ++ current ++ ",") "" 0
      have htext : front ++ current ++ "," ++ "" ++ String.ofList rest
          = front ++ current ++ String.ofList (',' :: rest) := by
        rw [String.ofList_cons, String.append_empty, String.append_assoc]
        rfl
      have hoffset : (front ++ current ++ ",").utf8ByteSize = (front ++ current).utf8ByteSize + 1 := by
        rw [String.utf8ByteSize_append]
        rfl
      rw [htext, String.append_empty, hoffset, modifyHead_empty] at hmore
      rw [Text.slice?_append, show ','.utf8Size = 1 from rfl, hmore]
      simp
    · have hmore := ih front (current ++ String.singleton c) (openBehind depth c)
      have htext : front ++ (current ++ String.singleton c) ++ String.ofList rest
          = front ++ current ++ String.ofList (c :: rest) := by
        rw [String.ofList_cons, ← String.append_assoc, String.append_assoc]
      have hoffset : (front ++ (current ++ String.singleton c)).utf8ByteSize
          = (front ++ current).utf8ByteSize + c.utf8Size := by
        rw [← String.append_assoc, String.utf8ByteSize_append, String.utf8ByteSize_singleton]
      rw [htext, hoffset] at hmore
      rw [hmore, List.modifyHead_modifyHead]
      simp [Function.comp_def]

/-- No slice fails, and the parts are those between the commas. -/
theorem splitCommas?_eq (text : String) :
    splitCommas? text = some ((splitCommas 0 text.toList).map String.ofList) := by
  have hparts := partsFrom?_eq "" "" 0 text.toList
  rw [modifyHead_empty, String.append_empty, String.empty_append, String.ofList_toList] at hparts
  exact hparts

/-! ## What is in a part -/

/-- In front of each comma a parenthesis is open, when `depth` were open at the beginning. -/
def Guarded (depth : Nat) (part : List Char) : Prop :=
  ∀ front behind, part = front ++ ',' :: behind → front.foldl openBehind depth ≠ 0

theorem guarded_nil (depth : Nat) : Guarded depth [] := by
  intro front behind heq
  simp at heq

/-- A character in front keeps a part guarded, unless it is a comma outside parentheses. -/
theorem Guarded.cons (hc : ¬ (c = ',' ∧ depth = 0)) (h : Guarded (openBehind depth c) part) :
    Guarded depth (c :: part) := by
  rintro (_ | ⟨d, front⟩) behind heq
  · exact fun hdepth => hc ⟨(List.cons.inj heq).1, hdepth⟩
  · obtain ⟨rfl, rfl⟩ := List.cons.inj heq
    exact h front behind rfl

/-- The commas in the parts are guarded and those between them are not. -/
inductive Fenced : Nat → List (List Char) → Prop
  | last {depth : Nat} {part : List Char} (hpart : Guarded depth part) : Fenced depth [part]
  | cons {depth : Nat} {part : List Char} {parts : List (List Char)} (hpart : Guarded depth part)
      (hcut : part.foldl openBehind depth = 0) (hparts : Fenced 0 parts) : Fenced depth (part :: parts)

/-- The parts of a text are fenced. By induction on the text. -/
theorem fenced_splitCommas (depth : Nat) (s : List Char) : Fenced depth (splitCommas depth s) := by
  induction s generalizing depth with
  | nil => exact .last (guarded_nil depth)
  | cons c s ih =>
    rw [splitCommas_cons_eq]
    split
    · next hcut => exact .cons (guarded_nil depth) hcut.2 (ih 0)
    · next hkept =>
      have hrest := ih (openBehind depth c)
      generalize splitCommas (openBehind depth c) s = parts at hrest ⊢
      cases hrest with
      | last hpart => exact .last (hpart.cons hkept)
      | cons hpart hcut hparts => exact .cons (hpart.cons hkept) hcut hparts

/-- In fenced parts every comma stands inside parentheses. -/
theorem Fenced.guarded (h : Fenced 0 parts) : ∀ part ∈ parts, Guarded 0 part := by
  generalize hdepth : 0 = depth at h
  induction h with
  | last hpart =>
    subst hdepth
    exact List.forall_mem_singleton.mpr hpart
  | cons hpart _ _ ih =>
    subst hdepth
    exact List.forall_mem_cons.mpr ⟨hpart, ih rfl⟩

/-- All fenced parts but the last close as many parentheses as they open. -/
theorem Fenced.cut (h : Fenced 0 parts) : ∀ part ∈ parts.dropLast, part.foldl openBehind 0 = 0 := by
  generalize hdepth : 0 = depth at h
  induction h with
  | last _ => simp
  | @cons _ part parts _ hcut hparts ih =>
    subst hdepth
    have hne : parts ≠ [] := by
      rintro rfl
      cases hparts
    rw [List.dropLast_cons_of_ne_nil hne]
    exact List.forall_mem_cons.mpr ⟨hcut, ih rfl⟩

/-- The parts joined by commas are the text. -/
theorem intercalate_splitCommas (depth : Nat) (s : List Char) : [','].intercalate (splitCommas depth s) = s := by
  induction s generalizing depth with
  | nil => rfl
  | cons c s ih =>
    rw [splitCommas_cons_eq]
    split
    · next hcut =>
      obtain ⟨first, more, heq⟩ := List.exists_cons_of_ne_nil (splitCommas_ne_nil 0 s)
      rw [heq, List.intercalate_cons_cons, ← heq, ih, hcut.1]
      rfl
    · obtain ⟨first, more, heq⟩ := List.exists_cons_of_ne_nil (splitCommas_ne_nil (openBehind depth c) s)
      have hrest := ih (openBehind depth c)
      rw [heq] at hrest
      rw [heq, List.modifyHead_cons, ← hrest]
      cases more with
      | nil => simp
      | cons next more => rw [List.intercalate_cons_cons, List.intercalate_cons_cons]; rfl

/-! ## The call at the end of an entry -/

theorem bytes_concat (s : List Char) (c : Char) :
    bytes (String.ofList (s ++ [c])) = bytes (String.ofList s) ++ String.utf8EncodeChar c := by
  rw [String.ofList_append, ← String.singleton_eq_ofList, Text.bytes_append, Text.bytes_singleton]

/-- No byte of another character looks like a parenthesis. -/
theorem ne_parenthesis_of_mem (hopen : c ≠ '(') (hclose : c ≠ ')') :
    ∀ b ∈ String.utf8EncodeChar c, b ≠ opening ∧ b ≠ closing := by
  refine fun b hb => ⟨?_, ?_⟩
  · rintro rfl
    exact hopen (Text.eq_of_mem_utf8EncodeChar (by decide) hb)
  · rintro rfl
    exact hclose (Text.eq_of_mem_utf8EncodeChar (by decide) hb)

/-- Bytes that are no parentheses are passed over. -/
theorem callOffset?_append {skipped : List (UInt8 × Nat)}
    (hskipped : ∀ p ∈ skipped, p.1 ≠ opening ∧ p.1 ≠ closing) (depth : Nat) (rest : List (UInt8 × Nat)) :
    callOffset? depth (skipped ++ rest) = callOffset? depth rest := by
  induction skipped with
  | nil => rfl
  | cons p skipped ih =>
    obtain ⟨⟨hopen, hclose⟩, hskipped⟩ := List.forall_mem_cons.mp hskipped
    rw [List.cons_append, callOffset?, if_neg hclose, if_neg hopen, ih hskipped]

/-- Whichever bytes are between, the parenthesis is found where it is among the characters. -/
theorem callOffset?_bytes (depth : Nat) (backwards : List Char) :
    callOffset? depth (bytes (String.ofList backwards.reverse)).zipIdx.reverse
      = (takeCall depth backwards).map fun p => (String.ofList p.2.reverse).utf8ByteSize := by
  induction backwards generalizing depth with
  | nil => rfl
  | cons c rest ih =>
    have hinside (depth : Nat) : callOffset? depth (bytes (String.ofList rest.reverse)).zipIdx.reverse
        = ((takeCall depth rest).map fun p => (c :: p.1, p.2)).map
          fun p => (String.ofList p.2.reverse).utf8ByteSize := by
      rw [ih, Option.map_map]
      rfl
    rw [List.reverse_cons, bytes_concat, List.zipIdx_append, List.reverse_append, takeCall]
    by_cases hclose : c = ')'
    · subst hclose
      rw [Text.utf8EncodeChar_of_lt (by decide)]
      exact hinside (depth + 1)
    by_cases hopen : c = '('
    · subst hopen
      rw [Text.utf8EncodeChar_of_lt (by decide)]
      show (if depth - 1 = 0 then some (0 + (bytes (String.ofList rest.reverse)).length)
        else callOffset? (depth - 1) (bytes (String.ofList rest.reverse)).zipIdx.reverse) = _
      rw [Nat.zero_add, Text.length_bytes]
      by_cases hdepth : depth ≤ 1
      · rw [if_pos (by omega), if_pos (by simpa using hdepth)]
        rfl
      · rw [if_neg (by omega), if_neg (by simpa using hdepth), hinside]
        rfl
    · have hskipped :
          ∀ p ∈ ((String.utf8EncodeChar c).zipIdx (0 + (bytes (String.ofList rest.reverse)).length)).reverse,
          p.1 ≠ opening ∧ p.1 ≠ closing := fun p hp =>
        ne_parenthesis_of_mem hopen hclose _ (List.fst_mem_of_mem_zipIdx (List.mem_reverse.mp hp))
      rw [callOffset?_append hskipped, hinside]
      simp [hopen, hclose]

/-- Beyond ASCII there are no characters of names. -/
theorem isNameChar_of_le (hc : 128 ≤ c.toNat) : isNameChar c = false := by
  have hbelow {d : Char} (hd : d.toNat < 128) : ¬ c ≤ d := fun hle => by
    have hcodes : c.toNat ≤ d.toNat := hle
    omega
  rw [← Bool.not_eq_true, isNameChar, Bool.or_eq_true, beq_iff_eq]
  rintro (hname | rfl)
  · have hranges : (('A' ≤ c ∧ c ≤ 'Z' || 'a' ≤ c && c ≤ 'z') || '0' ≤ c && c ≤ '9') = true := hname
    simp only [Bool.or_eq_true, Bool.and_eq_true, decide_eq_true_eq] at hranges
    rcases hranges with (⟨-, hle⟩ | ⟨-, hle⟩) | ⟨-, hle⟩
    all_goals exact hbelow (by decide) hle
  · exact absurd hc (by decide)

/-- A byte of a name is a character of a name. -/
theorem isNameByte_of_mem {b : UInt8} (hb : b ∈ String.utf8EncodeChar c) : isNameByte b = isNameChar c := by
  rcases Nat.lt_or_ge c.toNat 128 with hc | hc
  · have htable : ∀ n < 128, isNameByte (UInt8.ofNat n) = isNameChar (Char.ofNat n) := by decide
    rw [Text.utf8EncodeChar_of_lt hc, List.mem_singleton] at hb
    rw [hb, htable _ hc, Char.ofNat_toNat]
  · have hhigh := Text.le_of_mem_utf8EncodeChar hc b hb
    rw [isNameChar_of_le hc]
    simp only [isNameByte, Bool.or_eq_false_iff, Bool.and_eq_false_iff, decide_eq_false_iff_not, beq_eq_false_iff_ne,
      UInt8.le_iff_toNat_le, ne_eq, ← UInt8.toNat_inj]
    simp
    omega

/-- One step back over a byte. -/
theorem nameOffset?_succ (front behind : List UInt8) (b : UInt8) :
    nameOffset? (front ++ b :: behind) (front.length + 1)
      = if isNameByte b then nameOffset? (front ++ b :: behind) front.length else some (front.length + 1) := by
  have hbyte : (front ++ b :: behind)[front.length]? = some b := by simp
  rw [nameOffset?, hbyte]
  rfl

/-- The name is the same among the bytes, and each byte that is looked at is there. -/
theorem nameOffset?_bytes (backwards : List Char) (behind : List UInt8) :
    nameOffset? (bytes (String.ofList backwards.reverse) ++ behind) (String.ofList backwards.reverse).utf8ByteSize
      = some (String.ofList (backwards.dropWhile isNameChar).reverse).utf8ByteSize := by
  induction backwards generalizing behind with
  | nil => rfl
  | cons c rest ih =>
    by_cases hc : isNameChar c = true
    · -- one byte of the name
      have hascii : c.toNat < 128 := by
        by_contra hlarge
        rw [isNameChar_of_le (Nat.le_of_not_lt hlarge)] at hc
        cases hc
      have hencode := Text.utf8EncodeChar_of_lt hascii
      have hbyte : isNameByte (UInt8.ofNat c.toNat) = true := by
        rw [isNameByte_of_mem (hencode ▸ List.mem_singleton_self _), hc]
      rw [List.dropWhile_cons_of_pos hc, ← ih (UInt8.ofNat c.toNat :: behind), ← Text.length_bytes,
        ← Text.length_bytes, List.reverse_cons, bytes_concat, hencode, List.length_append, List.append_assoc]
      exact (nameOffset?_succ _ _ _).trans (if_pos hbyte)
    · -- the last byte of another character
      obtain ⟨first, b, hencode⟩ : ∃ first b, String.utf8EncodeChar c = first ++ [b] :=
        ⟨_, _, (List.dropLast_append_getLast String.utf8EncodeChar_ne_nil).symm⟩
      have hbyte : isNameByte b = false := by
        rw [isNameByte_of_mem (hencode ▸ List.mem_append_right first (List.mem_singleton_self b))]
        exact Bool.eq_false_iff.mpr hc
      rw [List.dropWhile_cons_of_neg hc, ← Text.length_bytes, List.reverse_cons, bytes_concat, hencode,
        ← List.append_assoc, List.length_append, List.append_assoc _ [b]]
      exact (nameOffset?_succ _ _ _).trans (if_neg (by simp [hbyte]))

/-! ## The cut through an entry -/

/-- The last blank is found where it stands. -/
theorem blankOffset?_append {front word : List Char} (hc : isBlank c = true)
    (hword : ∀ d ∈ word, isBlank d = false) :
    blankOffset? (String.ofList (front ++ c :: word)) = some (String.ofList front).utf8ByteSize := by
  rw [blankOffset?, String.toList_ofList, Text.charOffsets_append, charOffsets, List.reverse_append, List.reverse_cons,
    List.append_assoc, List.find?_append, Nat.zero_add]
  have hnone :
      (charOffsets ((String.ofList front).utf8ByteSize + c.utf8Size) word).reverse.find? (isBlank ·.1) = none := by
    refine List.find?_eq_none.mpr fun p hp => ?_
    simp [hword _ (Text.fst_mem_of_mem_charOffsets (List.mem_reverse.mp hp))]
  rw [hnone, Option.none_or, List.singleton_append, List.find?_cons]
  simp only [hc, Option.map_some]

/-- Without a blank none is found. -/
theorem blankOffset?_eq_none {text : String} (h : ∀ c ∈ text.toList, isBlank c = false) :
    blankOffset? text = none := by
  rw [blankOffset?, Option.map_eq_none_iff]
  refine List.find?_eq_none.mpr fun p hp => ?_
  simp [h _ (Text.fst_mem_of_mem_charOffsets (List.mem_reverse.mp hp))]

/-- A cut between two characters succeeds, and both sides are trimmed. -/
theorem trimmedAt?_append (front behind : List Char) :
    trimmedAt? (String.ofList (front ++ behind)) (String.ofList front).utf8ByteSize
      = some (String.ofList (trimChars front), String.ofList (trimChars behind)) := by
  rw [trimmedAt?, String.ofList_append, Text.splitAt?_append, Option.map_some]
  simp only [Text.trim, String.toList_ofList]

/-- Whether an entry ends with a call is read off its last character. -/
theorem endsWith_parenthesis_iff (entry : List Char) :
    Text.endsWith ")" (String.ofList entry) = true ↔ entry.reverse.head? = some ')' := by
  have hlist : (String.ofList entry).toList = entry := String.toList_ofList
  rw [Text.endsWith, hlist, List.isSuffixOf_iff_suffix, ← List.reverse_prefix]
  show [')'] <+: entry.reverse ↔ _
  cases entry.reverse with
  | nil => simp
  | cons c s => simp [eq_comm]

/-- A call that is taken stands in front of the rest, and is not empty. -/
theorem append_of_takeCall {call : List Char} (h : takeCall depth s = some (call, rest)) :
    s = call ++ rest ∧ call ≠ [] := by
  induction s generalizing depth call with
  | nil => cases h
  | cons c s ih =>
    rw [takeCall] at h
    split at h
    · obtain ⟨rfl, rfl⟩ := Prod.mk.inj (Option.some.inj h)
      exact ⟨rfl, List.cons_ne_nil c []⟩
    · obtain ⟨⟨call', rest'⟩, hcall, hpair⟩ := Option.map_eq_some_iff.mp h
      obtain ⟨rfl, rfl⟩ := Prod.mk.inj hpair
      exact ⟨by rw [(ih hcall).1, List.cons_append], List.cons_ne_nil c call'⟩

/-- Both scanners cut an entry in two at the same place and trim what they get. -/
structure Cut (entry front behind : List Char) : Prop where
  eq_append : entry = front ++ behind
  ne_nil : entry ≠ [] → behind ≠ []
  splitCondition : splitCondition entry = (trimChars front, trimChars behind)
  splitCondition? : splitCondition? (String.ofList entry)
    = some (String.ofList (trimChars front), String.ofList (trimChars behind))

section Cuts

variable {entry call : List Char}

/-- The cut in front of a function call and its name. -/
theorem cut_call (hlast : entry.reverse.head? = some ')') (hcall : takeCall 0 entry.reverse = some (call, rest)) :
    Cut entry (rest.dropWhile isNameChar).reverse (call ++ rest.takeWhile isNameChar).reverse := by
  obtain ⟨hbackwards, hne⟩ := append_of_takeCall hcall
  have hentry : entry = rest.reverse ++ call.reverse := by
    rw [← List.reverse_append, ← hbackwards, List.reverse_reverse]
  have hcut : entry = (rest.dropWhile isNameChar).reverse ++ (call ++ rest.takeWhile isNameChar).reverse := by
    rw [← List.reverse_append, List.append_assoc, List.takeWhile_append_dropWhile, ← hbackwards,
      List.reverse_reverse]
  refine ⟨hcut, fun _ => by simp [hne], ?_, ?_⟩
  · simp only [Css.splitCondition, hlast, if_true, hcall]
  · have hoffset := callOffset?_bytes 0 entry.reverse
    rw [hcall, List.reverse_reverse] at hoffset
    have hname := nameOffset?_bytes rest (bytes (String.ofList call.reverse))
    rw [← Text.bytes_append, ← String.ofList_append, ← hentry] at hname
    have htrimmed := trimmedAt?_append (rest.dropWhile isNameChar).reverse (call ++ rest.takeWhile isNameChar).reverse
    rw [← hcut] at htrimmed
    rw [Bytewise.splitCondition?, if_pos ((endsWith_parenthesis_iff entry).mpr hlast), hoffset]
    simp only [Option.map_some, hname, Option.bind_some, htrimmed]

/-- A parenthesis that closes nothing leaves no condition. -/
theorem cut_unmatched (htrim : trimChars entry = entry) (hlast : entry.reverse.head? = some ')')
    (hcall : takeCall 0 entry.reverse = none) : Cut entry [] entry := by
  refine ⟨rfl, id, ?_, ?_⟩
  · simp only [Css.splitCondition, hlast, if_true, hcall, List.reverse_nil, List.reverse_reverse]
  · have hoffset := callOffset?_bytes 0 entry.reverse
    rw [hcall, List.reverse_reverse] at hoffset
    rw [Bytewise.splitCondition?, if_pos ((endsWith_parenthesis_iff entry).mpr hlast), hoffset, htrim]
    rfl

/-- The cut at the last blank. -/
theorem cut_word {front word : List Char} (hc : isBlank c = true) (hword : ∀ d ∈ word, isBlank d = false)
    (hlast : (front ++ c :: word).reverse.head? ≠ some ')') : Cut (front ++ c :: word) front (c :: word) := by
  have hbackwards : (front ++ c :: word).reverse = word.reverse ++ c :: front.reverse := by simp
  have hall : ∀ d ∈ word.reverse, (!isBlank d) = true := fun d hd => by simp [hword d (List.mem_reverse.mp hd)]
  refine ⟨rfl, fun _ => List.cons_ne_nil c word, ?_, ?_⟩
  · simp only [Css.splitCondition, hlast, if_false]
    rw [hbackwards, List.takeWhile_append_of_pos hall, List.dropWhile_append_of_pos hall,
      List.takeWhile_cons_of_neg (by simp [hc]), List.dropWhile_cons_of_neg (by simp [hc]), List.append_nil,
      List.reverse_cons, List.reverse_reverse, List.reverse_reverse,
      trimChars_append_back (List.forall_mem_singleton.mpr hc), ← List.singleton_append,
      trimChars_append_front (List.forall_mem_singleton.mpr hc)]
  · rw [Bytewise.splitCondition?, if_neg (mt (endsWith_parenthesis_iff _).mp hlast), blankOffset?_append hc hword]
    exact trimmedAt?_append front (c :: word)

/-- An entry without a blank is all size. -/
theorem cut_lone (htrim : trimChars entry = entry) (hword : ∀ d ∈ entry, isBlank d = false)
    (hlast : entry.reverse.head? ≠ some ')') : Cut entry [] entry := by
  have hall : ∀ d ∈ entry.reverse, (!isBlank d) = true := fun d hd => by simp [hword d (List.mem_reverse.mp hd)]
  refine ⟨rfl, id, ?_, ?_⟩
  · simp only [Css.splitCondition, hlast, if_false]
    rw [List.takeWhile_eq_self_iff.mpr hall, List.dropWhile_eq_nil_iff.mpr hall, List.reverse_nil,
      List.reverse_reverse]
  · rw [Bytewise.splitCondition?, if_neg (mt (endsWith_parenthesis_iff _).mp hlast),
      blankOffset?_eq_none (by rwa [String.toList_ofList]), htrim]
    rfl

/-- However many parentheses are open or closed in it, an entry is cut once. -/
theorem exists_cut (htrim : trimChars entry = entry) : ∃ front behind, Cut entry front behind := by
  by_cases hlast : entry.reverse.head? = some ')'
  · cases hcall : takeCall 0 entry.reverse with
    | some found => exact ⟨_, _, cut_call hlast hcall⟩
    | none => exact ⟨_, _, cut_unmatched htrim hlast hcall⟩
  · rcases Text.free_or_exists_sep isBlank entry.reverse with hfree | ⟨word, c, front, hsplit, hc, hword⟩
    · exact ⟨_, _, cut_lone htrim (fun d hd => hfree d (List.mem_reverse.mpr hd)) hlast⟩
    · obtain rfl : entry = front.reverse ++ c :: word.reverse := by
        rw [← List.reverse_reverse entry, hsplit]
        simp
      exact ⟨_, _, cut_word hc (fun d hd => hword d (List.mem_reverse.mp hd)) hlast⟩

end Cuts

/-- A text that begins with no blank is trimmed at its end only. -/
theorem trimChars_of_head (h : ∀ c ∈ s.head?, isBlank c = false) : trimChars s = s.rdropWhile isBlank := by
  rw [Markup.trimChars_eq]
  cases s with
  | nil => rfl
  | cons c s => rw [List.dropWhile_cons_of_neg (by simp [h c rfl])]

/-- A text that ends with no blank is trimmed at its front only. -/
theorem trimChars_of_getLast (h : ∀ c ∈ s.getLast?, isBlank c = false) : trimChars s = s.dropWhile isBlank := by
  rw [Markup.trimChars_eq, List.rdropWhile_eq_self_iff]
  intro hne
  rw [(List.dropWhile_suffix isBlank).getLast hne, h _ (List.getLast?_eq_some_getLast _)]
  exact Bool.false_ne_true

/-- Of an entry without blanks at its ends only blanks are lost where it is cut. -/
theorem exists_gap {front behind : List Char} (htrim : trimChars (front ++ behind) = front ++ behind)
    (hne : behind ≠ []) : trimChars behind ≠ []
      ∧ ∃ gap, AllBlank gap ∧ front ++ behind = trimChars front ++ gap ++ trimChars behind := by
  obtain ⟨hhead, hlast⟩ := trimChars_eq_self_iff.mp htrim
  rw [List.getLast?_append_of_ne_nil _ hne] at hlast
  have hfront : trimChars front = front.rdropWhile isBlank := by
    refine trimChars_of_head fun c hc => hhead c ?_
    obtain ⟨rest, rfl⟩ := List.head?_eq_some_iff.mp hc
    rfl
  have hbehind := trimChars_of_getLast hlast
  refine ⟨?_, front.rtakeWhile isBlank ++ behind.takeWhile isBlank, fun c hc => ?_, ?_⟩
  · rw [hbehind, ne_eq, List.dropWhile_eq_nil_iff]
    intro hblank
    have hkept := hlast _ (List.getLast?_eq_some_getLast hne)
    rw [hblank _ (List.getLast_mem hne)] at hkept
    cases hkept
  · rcases List.mem_append.mp hc with hc | hc
    · exact List.mem_rtakeWhile_imp hc
    · exact List.mem_takeWhile_imp hc
  · rw [hfront, hbehind, List.append_assoc, List.append_assoc, List.takeWhile_append_dropWhile, ← List.append_assoc,
      List.rdropWhile_append_rtakeWhile]

/-! ## Media queries -/

/-- The word `not`, with the blank behind it, is four bytes in any case of its letters. -/
theorem IsNot.utf8ByteSize {word : String} (h : IsNot word.toList) : word.utf8ByteSize = 4 := by
  rw [← String.ofList_toList (s := word), Text.utf8ByteSize_of_lt, h.length]
  intro c hc
  have hlower : c.toLower ∈ "not ".toList := h ▸ List.mem_map_of_mem hc
  rcases Markup.Token.toLower_cases c with hsame | ⟨-, hhigh, -⟩
  · rw [hsame] at hlower
    have hascii : "not ".toList.all (·.toNat < 128) = true := by decide
    exact of_decide_eq_true (List.all_eq_true.mp hascii c hlower)
  · omega

theorem sameIgnoringCase_not_iff (word : String) : Text.sameIgnoringCase word "not " = true ↔ IsNot word.toList := by
  have hlower : "not ".toList.map Char.toLower = "not ".toList := by decide
  rw [Text.sameIgnoringCase, beq_iff_eq, ← String.toList_inj, Text.toList_toLower, Text.toList_toLower, hlower, IsNot]

/-- The word takes four bytes, so there is a slice behind it. -/
theorem negation?_append {word : String} (h : IsNot word.toList) (behind : String) :
    negation? (word ++ behind) = some (Text.trim behind) := by
  have hfront := Text.slice?_append "" word behind
  have hbehind := Text.slice?_append word behind ""
  rw [String.empty_append, h.utf8ByteSize] at hfront
  rw [String.append_empty, h.utf8ByteSize] at hbehind
  rw [negation?, show slice? (word ++ behind) 0 4 = some word from hfront, hbehind]
  exact if_pos ((sameIgnoringCase_not_iff word).mpr h)

/-- What is there instead of the word may end inside a character. -/
theorem negation?_of_not_isNegated {query : String} (h : ¬ IsNegated query.toList) :
    negation? query = some ("not " ++ query) := by
  rw [negation?]
  split
  · next word hslice =>
    refine if_neg fun hsame => h ?_
    obtain ⟨behind, rfl⟩ := Text.exists_append_of_slice? hslice
    rw [String.toList_append]
    exact ((sameIgnoringCase_not_iff word).mp hsame).isNegated
  · rfl

/-- The negation over offsets is the model's. -/
theorem negation?_eq (query : String) : negation? query = some (String.ofList (negation query.toList)) := by
  by_cases h : IsNegated query.toList
  · have hquery : query = String.ofList (query.toList.take 4) ++ String.ofList (query.toList.drop 4) := by
      rw [← String.ofList_append, List.take_append_drop, String.ofList_toList]
    have hword : IsNot (String.ofList (query.toList.take 4)).toList := by
      rw [String.toList_ofList]
      exact h
    have hnegation : negation query.toList = trimChars (query.toList.drop 4) := if_pos h
    rw [hnegation]
    conv => lhs; rw [hquery]
    rw [negation?_append hword, Text.trim, String.toList_ofList]
  · have hnegation : negation query.toList = "not ".toList ++ query.toList := if_neg h
    rw [negation?_of_not_isNegated h, hnegation, String.ofList_append, String.ofList_toList, String.ofList_toList]

/-! ## Nothing is lost -/

/-- The parts between those commas of a text that stand outside parentheses. -/
structure Separates (text : String) (parts : List String) : Prop where
  joined : ",".intercalate parts = text
  guarded : ∀ part ∈ parts, Guarded 0 part.toList
  cut : ∀ part ∈ parts.dropLast, part.toList.foldl openBehind 0 = 0

/-- The condition and the size of an entry, between which only blanks were left out. -/
structure Divides (entry condition size : String) : Prop where
  size_ne : size ≠ ""
  exists_gap : ∃ gap : String, AllBlank gap.toList ∧ entry = condition ++ gap ++ size

/-- The parts of a text come from it by cutting at commas outside parentheses. -/
theorem separates_splitCommas (text : String) :
    Separates text ((splitCommas 0 text.toList).map String.ofList) := by
  have hfenced := fenced_splitCommas 0 text.toList
  refine ⟨?_, ?_, ?_⟩
  · refine String.toList_injective ?_
    rw [String.toList_intercalate, Text.map_toList_map_ofList]
    exact intercalate_splitCommas 0 text.toList
  · rw [List.forall_mem_map]
    intro part hpart
    rw [String.toList_ofList]
    exact hfenced.guarded part hpart
  · rw [← List.map_dropLast, List.forall_mem_map]
    intro part hpart
    rw [String.toList_ofList]
    exact hfenced.cut part hpart

/-- Every trimmed entry is divided, and both scanners divide it alike. -/
theorem exists_divides {entry : String} (htrim : Text.trim entry = entry) (hne : entry ≠ "") :
    ∃ condition size, splitCondition? entry = some (condition, size)
      ∧ splitCondition entry.toList = (condition.toList, size.toList) ∧ Divides entry condition size := by
  have htrimmed : trimChars entry.toList = entry.toList := by rw [← Text.toList_trim, htrim]
  obtain ⟨front, behind, hcut⟩ := exists_cut htrimmed
  have hbehind := hcut.ne_nil fun hnil => hne (String.toList_eq_nil_iff.mp hnil)
  obtain ⟨hsize, gap, hgap, heq⟩ := exists_gap (hcut.eq_append ▸ htrimmed) hbehind
  have hfound := hcut.splitCondition?
  rw [String.ofList_toList] at hfound
  refine ⟨_, _, hfound, ?_, ?_, String.ofList gap, ?_, ?_⟩
  · rw [hcut.splitCondition, String.toList_ofList, String.toList_ofList]
  · simpa using hsize
  · rwa [String.toList_ofList]
  · rw [← String.ofList_append, ← String.ofList_append, ← heq, ← hcut.eq_append, String.ofList_toList]

/-- Every slice of the three scanners is taken between characters, and they find what is found character by
character. The parts make up the text again, no comma outside parentheses is in one of them, and only blanks go
between a condition and its size. -/
theorem bytewise_lossless (text query : String) {entry : String} (htrim : Text.trim entry = entry) (hne : entry ≠ "") :
    (∃ parts, splitCommas? text = some parts ∧ parts.map String.toList = splitCommas 0 text.toList
        ∧ Separates text parts)
      ∧ (∃ condition size, splitCondition? entry = some (condition, size)
        ∧ splitCondition entry.toList = (condition.toList, size.toList) ∧ Divides entry condition size)
      ∧ negation? query = some (String.ofList (negation query.toList)) := by
  exact ⟨⟨_, splitCommas?_eq text, Text.map_toList_map_ofList _, separates_splitCommas text⟩, exists_divides htrim hne,
    negation?_eq query⟩

/-- Parentheses without their other ones, blanks from outside ASCII, and a character around the fourth byte. -/
theorem bytewise_lossless_unbalanced :
    let text := "(é,1) ü), ,x)"
    let query := "noté"
    let entry := "größe)\u2003\u00a0-calc((1px) + 2px)"
    Text.trim entry = entry ∧ entry ≠ "" ∧ splitCommas? text = some ["(é,1) ü)", " ", "x)"]
      ∧ splitCondition? entry = some ("größe)", "-calc((1px) + 2px)")
      ∧ (∃ parts, splitCommas? text = some parts ∧ parts.map String.toList = splitCommas 0 text.toList
          ∧ Separates text parts)
      ∧ (∃ condition size, splitCondition? entry = some (condition, size)
          ∧ splitCondition entry.toList = (condition.toList, size.toList) ∧ Divides entry condition size)
      ∧ negation? query = some (String.ofList (negation query.toList)) := by
  intro text query entry
  have htrim : Text.trim entry = entry := by decide +kernel
  have hne : entry ≠ "" := by decide
  exact ⟨htrim, hne, by decide +kernel, by decide +kernel, bytewise_lossless text query htrim hne⟩

end AmpTuner.Css
