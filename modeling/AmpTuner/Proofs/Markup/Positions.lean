import AmpTuner.Proofs.Markup.Progress
import AmpTuner.Markup.Reader
import Mathlib.Data.List.DropRight

/-!
# Where reading stands, and where it ends

The reader has two loops: one takes a token in each turn, the other an item of a start tag. `Stand` is the
place of the reader between two turns, `Turn` a turn that goes on to another, and `Reaches` a run of them.

## The architecture

* **`exists_taken_of_turn`**: a turn takes at least one character. **`Reaches.exists_read`** carries this over a run:
  what is unread is an end of the source, and there were no more turns than there are characters in front of it.
* **`Position.behind_eq`** counts lines and columns of a place.
* **`reaches_of_all`** and **`givesUp_of_all`**: a run that succeeds reaches the end of the source, and one that fails
  does so there or in front of an equals sign.
* **`turns_read`** is the result for every source.
-/

namespace AmpTuner

/-! ## Lines and columns -/

namespace Text.Position

/-- The line is one more than the line feeds before, the column one more than the characters behind the last. -/
theorem behind_eq (before : List Char) :
    behind before = ⟨1 + before.count '\n', 1 + (before.rtakeWhile (· != '\n')).length⟩ := by
  induction before using List.reverseRecOn with
  | nil => rfl
  | append_singleton before c ih =>
    have hstep : behind (before ++ [c]) = (behind before).after c := by
      rw [behind, List.foldl_append]
      rfl
    rw [hstep, ih, after]
    by_cases hc : c = '\n'
    · rw [if_pos hc, hc, List.count_append, List.rtakeWhile_concat_neg _ _ _ (by decide)]
      rfl
    · have hcount : [c].count '\n' = 0 := List.count_eq_zero.mpr (by simpa using Ne.symm hc)
      rw [if_neg hc, List.count_append, hcount, List.rtakeWhile_concat_pos _ _ _ (by simpa using hc),
        List.length_append]
      rfl

end Text.Position

namespace Markup

open Token (scan tagItem upTo atHead endsName isAsciiLetter lowerName)

variable {source input : List Char} {n : Nat} {stand next : Stand} {halt : Halt}

/-! ## Turns -/

/-- The place of the reader between two turns: between tokens, or between the items of a start tag. -/
inductive Stand where
  | content (unread : List Char)
  | inTag (tag : String) (unread : List Char)

/-- What has not been read yet. -/
def Stand.unread : Stand → List Char
  | content unread => unread
  | inTag _ unread => unread

/-- A turn of either loop that goes on to another, or the step from the one into the other. -/
inductive Turn : Stand → Stand → Prop where
  | token {first : Char} {input unread : List Char} {token : Token}
      (hscan : scan first input = .ok (token, unread)) : Turn (.content (first :: input)) (.content unread)
  | enter {input : List Char} (hletter : atHead isAsciiLetter input = true) :
      Turn (.content ('<' :: input))
        (.inTag (lowerName (upTo (atHead endsName) input).1) (upTo (atHead endsName) input).2)
  | item {tag : String} {input unread : List Char} {item : Token.TagItem}
      (hitem : tagItem tag input = .ok (item, unread)) (hmore : ∀ closes, item ≠ .finish closes) :
      Turn (.inTag tag input) (.inTag tag unread)

/-- The reader comes to the stand in that many turns. -/
inductive Reaches (source : List Char) : Nat → Stand → Prop where
  | start : Reaches source 0 (.content source)
  | turn {n : Nat} {stand next : Stand} (hreach : Reaches source n stand) (hturn : Turn stand next) :
      Reaches source (n + 1) next

/-- A turn takes at least one character. -/
theorem exists_taken_of_turn (hturn : Turn stand next) :
    ∃ taken, taken ≠ [] ∧ stand.unread = taken ++ next.unread := by
  cases hturn with
  | @token first input unread token hscan =>
    obtain ⟨more, hmore⟩ := Token.suffix_of_scan hscan
    exact ⟨first :: more, by simp, congrArg (first :: ·) hmore.symm⟩
  | @enter input _ =>
    refine ⟨'<' :: (upTo (atHead endsName) input).1, by simp, ?_⟩
    exact congrArg ('<' :: ·) (Token.upTo_append (atHead endsName) input).symm
  | @item tag input unread item hitem _ =>
    obtain ⟨taken, htaken⟩ := Token.suffix_of_tagItem hitem
    refine ⟨taken, ?_, htaken.symm⟩
    rintro rfl
    have hlength := Token.length_of_tagItem hitem
    rw [← htaken, List.nil_append] at hlength
    exact absurd hlength (Nat.lt_irrefl _)

/-- What is unread is an end of the source, behind at least as many characters as there were turns. -/
theorem Reaches.exists_read (hreach : Reaches source n stand) :
    ∃ read, source = read ++ stand.unread ∧ n ≤ read.length := by
  induction hreach with
  | start => exact ⟨[], rfl, Nat.le_refl 0⟩
  | @turn n stand next _ hturn ih =>
    obtain ⟨read, hsource, hn⟩ := ih
    obtain ⟨taken, htaken, hunread⟩ := exists_taken_of_turn hturn
    refine ⟨read ++ taken, by rw [hsource, hunread, List.append_assoc], ?_⟩
    have hpos := List.length_pos_iff.mpr htaken
    rw [List.length_append]
    omega

/-! ## Giving up -/

/-- The reader gives up: at the end of the source, or inside a start tag in front of an equals sign that
stands where the name of an attribute is due. -/
inductive GivesUp (source : List Char) : Halt → Prop where
  | atEnd {halt : Halt} (hend : halt.IsAtEnd) : GivesUp source halt
  | atSign {n : Nat} {tag : String} {blanks more : List Char}
      (hreach : Reaches source n (.inTag tag (blanks ++ '=' :: more)))
      (hblanks : ∀ c ∈ blanks, Text.isBlank c = true) : GivesUp source ⟨.nameExpected tag, '=' :: more⟩

/-- A scanner inside a tag gives up at a stand that was reached. -/
theorem givesUp_of_tagItem {tag : String} (hreach : Reaches source n (.inTag tag input))
    (h : tagItem tag input = .error halt) : GivesUp source halt := by
  rcases Token.tagItem_error_cases h with hend | ⟨more, hsign, rfl⟩
  · exact .atEnd hend
  · have hsplit : input = input.takeWhile Text.isBlank ++ '=' :: more := by
      rw [← hsign, List.takeWhile_append_dropWhile]
    rw [hsplit] at hreach
    exact .atSign hreach fun c hc => List.mem_takeWhile_imp hc

/-- The same over any number of attributes. By induction on the text. -/
theorem givesUp_of_attributes {tag : String} {found : List Attribute} (hreach : Reaches source n (.inTag tag input))
    (h : Token.attributes tag found input = .error halt) : GivesUp source halt := by
  -- an item that does not end the tag leads on to the next one
  fun_induction Token.attributes tag found input generalizing n with
  | case1 found input halt' hitem =>
    obtain rfl := Except.error.inj h
    exact givesUp_of_tagItem hreach hitem
  | case2 => cases h
  | case3 found input _ hitem ih => exact ih (hreach.turn (.item hitem fun _ heq => by cases heq)) h
  | case4 found input _ _ _ hitem ih => exact ih (hreach.turn (.item hitem fun _ heq => by cases heq)) h

/-- Literal content that is not closed is noticed at the end of the source. -/
theorem isAtEnd_of_literal {tag : String} (h : Token.literal tag input = .error halt) : halt.IsAtEnd := by
  rw [Token.literal] at h
  dsimp only at h
  split at h
  · cases h
  · exact Token.isAtEnd_of_map_through (fun _ => Token.isAtEnd_of_through) h

/-- A start tag is given up inside the tag or at the end of the source. -/
theorem givesUp_of_startTag (hreach : Reaches source n (.content ('<' :: input)))
    (hletter : atHead isAsciiLetter input = true) (h : Token.startTag input = .error halt) :
    GivesUp source halt := by
  have henter := hreach.turn (.enter hletter)
  simp only [Token.startTag, bind, Except.bind, pure, Except.pure] at h
  split at h
  · next halt' hattributes =>
    obtain rfl := Except.error.inj h
    exact givesUp_of_attributes henter hattributes
  · split at h
    · cases h
    · split at h
      · split at h
        · next halt' hliteral =>
          obtain rfl := Except.error.inj h
          exact .atEnd (isAtEnd_of_literal hliteral)
        · cases h
      · cases h

/-- An end tag that is not closed is noticed at the end of the source. -/
theorem isAtEnd_of_endTag (h : Token.endTag input = .error halt) : halt.IsAtEnd := by
  simp only [Token.endTag, bind, Except.bind, pure, Except.pure] at h
  split at h
  · next halt' hthrough =>
    obtain rfl := Except.error.inj h
    exact Token.isAtEnd_of_through hthrough
  · cases h

/-- Any token is given up at a stand that was reached, or at the end. -/
theorem givesUp_of_scan {first : Char} (hreach : Reaches source n (.content (first :: input)))
    (h : scan first input = .error halt) : GivesUp source halt := by
  simp only [scan] at h
  split at h
  · exact .atEnd (Token.isAtEnd_of_map_through (fun _ => Token.isAtEnd_of_through) h)
  · split at h
    · exact .atEnd (Token.isAtEnd_of_map_through (fun _ => Token.isAtEnd_of_through) h)
    · split at h
      · exact .atEnd (isAtEnd_of_endTag h)
      · split at h
        · next hstart =>
          rw [Bool.and_eq_true, beq_iff_eq] at hstart
          obtain ⟨rfl, hletter⟩ := hstart
          exact givesUp_of_startTag hreach hletter h
        · cases h

/-! ## Whole runs -/

/-- A reading that succeeds reaches the end of the source. -/
theorem reaches_of_all {tokens : List Token} (hreach : Reaches source n (.content input))
    (h : Token.all input = .ok tokens) : ∃ n, Reaches source n (.content []) := by
  fun_induction Token.all input generalizing n tokens with
  | case1 => exact ⟨n, hreach⟩
  | case2 => cases h
  | case3 first input token rest hscan ih =>
    cases hrest : Token.all rest with
    | error halt =>
      rw [hrest] at h
      cases h
    | ok more => exact ih (hreach.turn (.token hscan)) hrest

/-- A reading that fails gives up at a stand that was reached, or at the end. -/
theorem givesUp_of_all (hreach : Reaches source n (.content input)) (h : Token.all input = .error halt) :
    GivesUp source halt := by
  fun_induction Token.all input generalizing n with
  | case1 => cases h
  | case2 first input halt' hscan =>
    obtain rfl := Except.error.inj h
    exact givesUp_of_scan hreach hscan
  | case3 first input token rest hscan ih =>
    cases hrest : Token.all rest with
    | error found =>
      rw [hrest] at h
      obtain rfl := Except.error.inj h
      exact ih (hreach.turn (.token hscan)) hrest
    | ok more =>
      rw [hrest] at h
      cases h

/-- What comes of reading: a document when the end of the source is reached, or a fault, whose line and column
count the line feeds, and the characters behind the last of them, in front of the place where the reader gave up. -/
inductive Ends (source : List Char) : Except Fault Document → Prop where
  | document {n : Nat} {d : Document} (hreach : Reaches source n (.content [])) : Ends source (.ok d)
  | fault {halt : Halt} {before : List Char} (hgives : GivesUp source halt) (hsource : source = before ++ halt.unread) :
      Ends source (.error
        ⟨halt.defect, ⟨1 + before.count '\n', 1 + (before.rtakeWhile (· != '\n')).length⟩⟩)

/-- What is unread when reading gives up is an end of the source. -/
theorem GivesUp.exists_before (hgives : GivesUp source halt) : ∃ before, source = before ++ halt.unread := by
  cases hgives with
  | atEnd hend => exact ⟨source, by rw [hend.unread, List.append_nil]⟩
  | atSign hreach hblanks =>
    obtain ⟨read, hsource, -⟩ := hreach.exists_read
    exact ⟨read ++ _, by rw [hsource, Stand.unread, List.append_assoc]⟩

/-- The reported place is the line and the column of that end. -/
theorem locate_eq {before : List Char} (hsource : source = before ++ halt.unread) :
    halt.locate source
      = ⟨halt.defect, ⟨1 + before.count '\n', 1 + (before.rtakeWhile (· != '\n')).length⟩⟩ := by
  have htake : source.take (source.length - halt.unread.length) = before := by
    rw [hsource, List.length_append, Nat.add_sub_cancel, List.take_left]
  rw [Halt.locate, htake, Text.Position.behind_eq]

/-- Every source is read to the end, or given up at a place inside it. -/
theorem ends_read (source : String) : Ends source.toList (read source) := by
  rw [read]
  split
  · next halt hall =>
    have hgives := givesUp_of_all .start hall
    obtain ⟨before, hsource⟩ := hgives.exists_before
    rw [locate_eq hsource]
    exact .fault hgives hsource
  · next tokens hall =>
    obtain ⟨n, hreach⟩ := reaches_of_all .start hall
    exact .document hreach

/-- Every source is read to an end: no run of turns is longer than what it has read, which is the front of the
source, each turn takes at least one character, and faults are located where the reader gives up. -/
theorem turns_read (source : String) :
    (∀ n stand, Reaches source.toList n stand →
        ∃ read, source.toList = read ++ stand.unread ∧ n ≤ read.length)
      ∧ (∀ stand next, Turn stand next → ∃ taken, taken ≠ [] ∧ stand.unread = taken ++ next.unread)
      ∧ Ends source.toList (read source) :=
  ⟨fun _ _ hreach => hreach.exists_read, fun _ _ hturn => exists_taken_of_turn hturn, ends_read source⟩

end Markup
end AmpTuner
