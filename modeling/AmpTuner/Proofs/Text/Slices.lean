import AmpTuner.Proofs.Text.Parts

/-!
# Texts by their bytes

A text is a row of characters and also a row of bytes, and a place in it may be given as a number of bytes. Not
every number is a place: a character outside ASCII takes more than one byte.

* **`slice?`** takes the text between two offsets and fails where one of them is no place between characters.
  `slice?_append` tells when it does not.
* **`charOffsets`** are the offsets where the characters begin.
* **`eq_of_mem_utf8EncodeChar`**: a byte of ASCII stands for its character wherever it is found, so that a search
  for such a byte is a search for the character.
-/

namespace AmpTuner.Text

variable {c d : Char} {s : String}

/-! ## Offsets -/

/-- The text between two offsets. There is none when an offset lies inside a character or behind the end, or when
the second lies in front of the first. -/
def slice? (s : String) (start stop : Nat) : Option String :=
  if h : (⟨start⟩ : String.Pos.Raw).IsValid s ∧ (⟨stop⟩ : String.Pos.Raw).IsValid s ∧ start ≤ stop then
    some (String.extract ⟨⟨start⟩, h.1⟩ ⟨⟨stop⟩, h.2.1⟩)
  else none

/-- The text in front of an offset and the text behind it. -/
def splitAt? (s : String) (offset : Nat) : Option (String × String) := do
  let front ← slice? s 0 offset
  let behind ← slice? s offset s.utf8ByteSize
  return (front, behind)

theorem isValid_utf8ByteSize (front behind : String) :
    (⟨front.utf8ByteSize⟩ : String.Pos.Raw).IsValid (front ++ behind) :=
  String.Pos.Raw.isValid_iff_exists_append.mpr ⟨front, behind, rfl, rfl⟩

/-- A slice at such offsets succeeds and is the middle. -/
theorem slice?_append (front middle behind : String) :
    slice? (front ++ middle ++ behind) front.utf8ByteSize (front ++ middle).utf8ByteSize = some middle := by
  have hstart : (⟨front.utf8ByteSize⟩ : String.Pos.Raw).IsValid (front ++ middle ++ behind) := by
    rw [String.append_assoc]
    exact isValid_utf8ByteSize front (middle ++ behind)
  have hstop := isValid_utf8ByteSize (front ++ middle) behind
  have hle : front.utf8ByteSize ≤ (front ++ middle).utf8ByteSize := by
    rw [String.utf8ByteSize_append]
    exact Nat.le_add_right _ _
  have hsize : (front ++ middle).utf8ByteSize = front.toByteArray.size + middle.toByteArray.size := by
    rw [String.utf8ByteSize_append, String.size_toByteArray, String.size_toByteArray]
  rw [slice?, dif_pos ⟨hstart, hstop, hle⟩, Option.some.injEq, ← String.toByteArray_inj, String.toByteArray_extract]
  calc (front ++ middle ++ behind).toByteArray.extract front.utf8ByteSize (front ++ middle).utf8ByteSize
      = (front.toByteArray ++ (middle.toByteArray ++ behind.toByteArray)).extract (front.toByteArray.size + 0)
          (front.toByteArray.size + middle.toByteArray.size) := by
        rw [hsize, String.toByteArray_append, String.toByteArray_append, ByteArray.append_assoc, Nat.add_zero,
          String.size_toByteArray]
    _ = (middle.toByteArray ++ behind.toByteArray).extract 0 middle.toByteArray.size :=
        ByteArray.extract_append_size_add
    _ = middle.toByteArray := by rw [ByteArray.extract_append_size_left, ByteArray.extract_zero_size]

/-- A cut between two characters succeeds and gives both sides. -/
theorem splitAt?_append (front behind : String) :
    splitAt? (front ++ behind) front.utf8ByteSize = some (front, behind) := by
  have hfront := slice?_append "" front behind
  have hbehind := slice?_append front behind ""
  rw [String.empty_append] at hfront
  rw [String.append_empty] at hbehind
  rw [splitAt?, show slice? (front ++ behind) 0 front.utf8ByteSize = some front from hfront, hbehind]
  rfl

-- the fourth byte lies inside the last character
example : slice? "noté" 0 3 = some "not" ∧ slice? "noté" 0 4 = none := by decide +kernel

/-- A slice from the front is what the text begins with. -/
theorem exists_append_of_slice? {front : String} {stop : Nat} (h : slice? s 0 stop = some front) :
    ∃ behind, s = front ++ behind := by
  have hvalid : (⟨stop⟩ : String.Pos.Raw).IsValid s := by
    by_contra hinvalid
    rw [slice?, dif_neg fun hall => hinvalid hall.2.1] at h
    cases h
  obtain ⟨first, behind, rfl, hstop⟩ := String.Pos.Raw.isValid_iff_exists_append.mp hvalid
  obtain rfl : stop = first.utf8ByteSize := congrArg String.Pos.Raw.byteIdx hstop
  have hfirst := slice?_append "" first behind
  rw [String.empty_append] at hfirst
  obtain rfl := Option.some.inj (h.symm.trans hfirst)
  exact ⟨behind, rfl⟩

/-- The characters of a text that begins at an offset, each with the offset where it begins. -/
def charOffsets (offset : Nat) : List Char → List (Char × Nat)
  | [] => []
  | c :: rest => (c, offset) :: charOffsets (offset + c.utf8Size) rest

/-- Offsets go on behind a front with its size in bytes. -/
theorem charOffsets_append (offset : Nat) (s t : List Char) : charOffsets offset (s ++ t)
    = charOffsets offset s ++ charOffsets (offset + (String.ofList s).utf8ByteSize) t := by
  induction s generalizing offset with
  | nil => rfl
  | cons c s ih =>
    rw [List.cons_append, charOffsets, charOffsets, ih, List.cons_append, String.ofList_cons,
      String.utf8ByteSize_append, String.utf8ByteSize_singleton, Nat.add_assoc]

/-- Only characters of the text have an offset. -/
theorem fst_mem_of_mem_charOffsets {offset : Nat} {s : List Char} {p : Char × Nat} (hp : p ∈ charOffsets offset s) :
    p.1 ∈ s := by
  induction s generalizing offset with
  | nil => cases hp
  | cons c s ih =>
    rcases List.mem_cons.mp hp with rfl | hp
    · exact List.mem_cons_self
    · exact List.mem_cons_of_mem c (ih hp)

/-! ## Bytes -/

/-- The bytes of a text. -/
def bytes (s : String) : List UInt8 := s.toUTF8.data.toList

theorem length_bytes (s : String) : (bytes s).length = s.utf8ByteSize := by
  rw [← String.size_toByteArray]
  rfl

theorem bytes_append (s t : String) : bytes (s ++ t) = bytes s ++ bytes t := by
  simp [bytes, String.toUTF8_eq_toByteArray]

theorem bytes_singleton (c : Char) : bytes (String.singleton c) = String.utf8EncodeChar c := by
  rw [bytes, String.toUTF8_eq_toByteArray, String.singleton_eq_ofList, String.toByteArray_ofList,
    List.utf8Encode_singleton, List.data_toByteArray]

theorem utf8EncodeChar_of_lt (hc : c.toNat < 128) : String.utf8EncodeChar c = [UInt8.ofNat c.toNat] := by
  have hval : c.val.toNat ≤ 127 := Nat.le_of_lt_succ hc
  simp only [String.utf8EncodeChar, hval, if_true]
  rfl

/-- An ASCII text has as many bytes as characters. -/
theorem utf8ByteSize_of_lt {s : List Char} (hs : ∀ c ∈ s, c.toNat < 128) :
    (String.ofList s).utf8ByteSize = s.length := by
  induction s with
  | nil => rfl
  | cons c s ih =>
    obtain ⟨hc, hs⟩ := List.forall_mem_cons.mp hs
    have hsize : c.utf8Size = 1 := by
      rw [← String.length_utf8EncodeChar, utf8EncodeChar_of_lt hc]
      rfl
    rw [String.ofList_cons, String.utf8ByteSize_append, String.utf8ByteSize_singleton, hsize, ih hs, List.length_cons,
      Nat.add_comm]

/-- Of a character outside ASCII no byte is one of ASCII. -/
theorem le_of_mem_utf8EncodeChar (hc : 128 ≤ c.toNat) : ∀ b ∈ String.utf8EncodeChar c, 128 ≤ b.toNat := by
  have hval : ¬ c.val.toNat ≤ 127 := Nat.not_le_of_lt hc
  have hhigh {n : Nat} (hlow : 128 ≤ n) (hlt : n < 256) : 128 ≤ (UInt8.ofNat n).toNat := by
    rw [UInt8.toNat_ofNat_of_lt' hlt]
    exact hlow
  intro b hb
  simp only [String.utf8EncodeChar, hval, if_false] at hb
  split_ifs at hb
  -- two bytes, three or four
  all_goals simp only [List.mem_cons, List.not_mem_nil, or_false] at hb
  · rcases hb with rfl | rfl <;> exact hhigh (by omega) (by omega)
  · rcases hb with rfl | rfl | rfl <;> exact hhigh (by omega) (by omega)
  · rcases hb with rfl | rfl | rfl | rfl <;> exact hhigh (by omega) (by omega)

/-- A byte of ASCII in a character is the character. -/
theorem eq_of_mem_utf8EncodeChar (hd : d.toNat < 128) (h : UInt8.ofNat d.toNat ∈ String.utf8EncodeChar c) : c = d := by
  have hbyte {n : Nat} (hn : n < 128) : (UInt8.ofNat n).toNat = n :=
    UInt8.toNat_ofNat_of_lt' (hn.trans (by decide))
  rcases Nat.lt_or_ge c.toNat 128 with hc | hc
  · rw [utf8EncodeChar_of_lt hc, List.mem_singleton] at h
    have hcode : d.toNat = c.toNat := by rw [← hbyte hd, h, hbyte hc]
    exact Char.toNat_inj.mp hcode.symm
  · have hhigh := le_of_mem_utf8EncodeChar hc _ h
    rw [hbyte hd] at hhigh
    omega

end AmpTuner.Text
