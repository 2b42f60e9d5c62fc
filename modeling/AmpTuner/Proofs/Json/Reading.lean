import AmpTuner.Proofs.Json.Nesting
import AmpTuner.Proofs.Json.Strings
import AmpTuner.Json.Decode

/-!
# What is written is read back

The writer knows no limit, and the reader opens at most so many containers. So what is written is either read back, or
refused because containers are nested too deep.

* **`Gives`** says that of a scan, with the condition under which it gives its result. It goes through all that scans
  are made of: `Gives.map`, `Gives.bind`, `Gives.closeList`, `gives_inside` and so on.
* **`Decoder.Reads`** says it of a decoder and a value, at every level of indentation and of nesting.
* **`gives_items`** and **`ReadsEntries.gives`** are the loops over items and entries. They are about any reader of
  single items and entries, so that they serve values, records and nodes alike.
* **`Value.Numberless.reads`**: every value without numbers is read as itself.
* **`Decoder.Reads.decode`**: whole texts.
-/

namespace AmpTuner.Json

variable {α β σ : Type} {fits fits' : Prop} {scan : Scan α} {a : α} {rest tail : List Char} {level depth : Nat}
  {v : Value}

/-! ## Scans that give what was written -/

/-- The scan gives its result if that fits, and otherwise stops because containers are nested too deep. -/
structure Gives (fits : Prop) (scan : Scan α) (a : α) (rest : List Char) : Prop where
  ok : fits → scan = .ok (a, rest)
  refused : ¬ fits → ∃ unread, scan = .error (.located .tooDeep unread)

theorem Gives.of_eq (h : scan = .ok (a, rest)) (hfits : fits) : Gives fits scan a rest :=
  ⟨fun _ => h, fun hnot => absurd hfits hnot⟩

namespace Gives

variable (h : Gives fits scan a rest)

include h

theorem congr (hiff : fits' ↔ fits) : Gives fits' scan a rest :=
  ⟨fun hfits => h.ok (hiff.mp hfits), fun hnot => h.refused fun hfits => hnot (hiff.mpr hfits)⟩

/-- The result may be mapped. -/
theorem map (f : α → β) : Gives fits (scan.map fun (a, rest) => (f a, rest)) (f a) rest where
  ok hfits := by rw [h.ok hfits]; rfl
  refused hnot := by
    obtain ⟨unread, hscan⟩ := h.refused hnot
    exact ⟨unread, by rw [hscan]; rfl⟩

/-- Two scans one behind the other fit if both do. -/
theorem bind {f : α × List Char → Scan β} {b : β} {rest' : List Char} (hf : Gives fits' (f (a, rest)) b rest') :
    Gives (fits ∧ fits') (scan.bind f) b rest' where
  ok hfits := by rw [h.ok hfits.1]; exact hf.ok hfits.2
  refused hnot := by
    by_cases hfits : fits
    · obtain ⟨unread, hscan⟩ := hf.refused fun hfits' => hnot ⟨hfits, hfits'⟩
      exact ⟨unread, by rw [h.ok hfits]; exact hscan⟩
    · obtain ⟨unread, hscan⟩ := h.refused hfits
      exact ⟨unread, by rw [hscan]; rfl⟩

/-- What is done with the result in the end does not fail. -/
theorem bind_ok {f : α × List Char → Scan β} {b : β} {rest' : List Char} (hf : f (a, rest) = .ok (b, rest')) :
    Gives fits (scan.bind f) b rest' :=
  (h.bind (.of_eq hf trivial)).congr ⟨fun hfits => ⟨hfits, trivial⟩, And.left⟩

/-- Faults of nesting have their place already. -/
theorem locate : Gives fits (scan.mapError Fault.locate) a rest where
  ok hfits := by rw [h.ok hfits]; rfl
  refused hnot := by
    obtain ⟨unread, hscan⟩ := h.refused hnot
    exact ⟨unread, by rw [hscan]; rfl⟩

/-- The bracket behind a list is taken. -/
theorem closeList (hrest : skipBlank rest = ']' :: tail) : Gives fits (closeList scan) a tail where
  ok hfits := by rw [h.ok hfits, Json.closeList, hrest]; rfl
  refused hnot := by
    obtain ⟨unread, hscan⟩ := h.refused hnot
    exact ⟨unread, by rw [hscan, Json.closeList]; exact fun _ _ => nofun⟩

/-- The brace behind an object is taken. -/
theorem closeObject (hrest : skipBlank rest = '}' :: tail) : Gives fits (closeObject scan) a tail where
  ok hfits := by rw [h.ok hfits, Json.closeObject, hrest]; rfl
  refused hnot := by
    obtain ⟨unread, hscan⟩ := h.refused hnot
    exact ⟨unread, by rw [hscan, Json.closeObject]; exact fun _ _ => nofun⟩

end Gives

/-- What takes one level for itself, and the rest for what is in it. -/
theorem gives_of_level {f : Nat → Scan α} {n : Nat} (hnone : ∃ unread, f 0 = .error (.located .tooDeep unread))
    (hinside : ∀ depth, Gives (n ≤ depth) (f (depth + 1)) a rest) : Gives (n + 1 ≤ depth) (f depth) a rest := by
  cases depth with
  | zero => exact ⟨fun hfits => absurd hfits (Nat.not_succ_le_zero n), fun _ => hnone⟩
  | succ depth => exact (hinside depth).congr Nat.succ_le_succ_iff

theorem gives_inside {input : List Char} {read : Nat → Scan α} {n : Nat}
    (h : ∀ depth, Gives (n ≤ depth) (read depth) a rest) :
    Gives (n + 1 ≤ depth) (Decoder.inside depth input read) a rest :=
  gives_of_level (f := (Decoder.inside · input read)) ⟨_, rfl⟩ fun depth => (h depth).locate

/-! ## Blanks -/

theorem skipBlank_cons {c : Char} (hc : isBlank c = false) : skipBlank (c :: rest) = c :: rest := by
  rw [skipBlank, List.dropWhile_cons_of_neg (by rw [hc]; decide)]

/-- The line break and the indentation are skipped. -/
theorem skipBlank_newline : skipBlank ((newline level).toList ++ rest) = skipBlank rest := by
  rw [newline, String.toList_ofList, skipBlank, List.dropWhile_append_of_pos]
  · rfl
  · intro c hc
    rw [List.mem_cons, List.mem_replicate] at hc
    rcases hc with rfl | ⟨-, rfl⟩ <;> rfl

theorem Value.toList_write_array (items : List Value) :
    ((array items).write level).toList ++ rest = '[' :: ((arrayBody level items).toList ++ ']' :: rest) := by
  rw [write_array]
  simp

theorem Value.toList_write_object (entries : List (String × Value)) :
    ((object entries).write level).toList ++ rest = '{' :: ((objectBody level entries).toList ++ '}' :: rest) := by
  rw [write_object]
  simp

/-- The text begins like a written value without numbers. -/
def Opens (text : List Char) : Prop := ∃ c more, text = c :: more ∧ c ∈ ['n', 't', 'f', '"', '[', '{']

/-- Every written value without numbers begins so. -/
theorem Value.Numberless.opens (h : v.Numberless) (level : Nat) : Opens (v.write level).toList := by
  cases h with
  | null => exact ⟨'n', "ull".toList, by rw [write]; decide, by decide⟩
  | bool b =>
    cases b with
    | false => exact ⟨'f', "alse".toList, by rw [write]; decide, by decide⟩
    | true => exact ⟨'t', "rue".toList, by rw [write]; decide, by decide⟩
  | string s => exact ⟨_, _, toList_writeString s, by decide⟩
  | @array items => exact ⟨_, _, by rw [← List.append_nil (write level _).toList, toList_write_array], by decide⟩
  | @object entries => exact ⟨_, _, by rw [← List.append_nil (write level _).toList, toList_write_object], by decide⟩

theorem Opens.skipBlank {text : List Char} (h : Opens text) : skipBlank (text ++ rest) = text ++ rest := by
  obtain ⟨c, more, rfl, hc⟩ := h
  have hnone : ['n', 't', 'f', '"', '[', '{'].all (!isBlank ·) = true := rfl
  exact skipBlank_cons ((Bool.not_eq_true' _).mp (List.all_eq_true.mp hnone c hc))

/-! ## Decoders that read what was written -/

/-- The decoder makes `a` of the value, which is without numbers, behind any blanks and in front of anything. -/
structure Decoder.Reads (decoder : Decoder α) (v : Value) (a : α) : Prop where
  numberless : v.Numberless
  gives : ∀ {depth level : Nat} {input tail : List Char}, skipBlank input = (v.write level).toList ++ tail →
    Gives (v.nesting ≤ depth) (decoder depth input) a tail

namespace Decoder.Reads

variable {decoder : Decoder α} (h : decoder.Reads v a)

include h

theorem gives_written : Gives (v.nesting ≤ depth) (decoder depth ((v.write level).toList ++ tail)) a tail :=
  h.gives (h.numberless.opens level).skipBlank

theorem map (f : α → β) : (decoder.map f).Reads v (f a) := ⟨h.numberless, fun hinput => (h.gives hinput).map f⟩

end Decoder.Reads

/-! ## Items -/

section Items

variable {first : Bool} {text : List Char}

/-- The first item stands right behind the line break. -/
theorem nextItem_first (htext : Opens text) :
    nextItem true ((newline level).toList ++ (text ++ rest)) = .ok (true, text ++ rest) := by
  obtain ⟨c, more, rfl, hc⟩ := htext
  have hopens : Opens (c :: more) := ⟨c, more, rfl, hc⟩
  have hne : c ≠ ']' := by
    rintro rfl
    exact absurd hc (by decide)
  rw [nextItem, skipBlank_newline, hopens.skipBlank, List.cons_append]
  split
  · next heq => cases heq
  · next heq => exact absurd (List.cons.inj heq).1 hne
  · next heq => rw [if_pos rfl, heq]

/-- Every other item stands behind a comma. -/
theorem nextItem_more (htext : Opens text) :
    nextItem false (',' :: ((newline level).toList ++ (text ++ rest))) = .ok (true, text ++ rest) := by
  obtain ⟨c, more, rfl, hc⟩ := htext
  have hopens : Opens (c :: more) := ⟨c, more, rfl, hc⟩
  have hne : c ≠ ']' := by
    rintro rfl
    exact absurd hc (by decide)
  rw [nextItem, skipBlank_cons (by decide)]
  split
  · next heq => cases heq
  · next heq => exact absurd (List.cons.inj heq).1 (by decide)
  · next heq =>
    obtain ⟨rfl, rfl⟩ := List.cons.inj heq
    rw [if_neg (by decide), if_neg (by decide), skipBlank_newline, hopens.skipBlank, List.cons_append]
    split
    · next heq => cases heq
    · next heq => exact absurd (List.cons.inj heq).1 hne
    · rfl

theorem nextItem_end (hrest : skipBlank rest = ']' :: tail) : nextItem first rest = .ok (false, ']' :: tail) := by
  rw [nextItem, hrest]
  rfl

/-- One more turn of the loop over items. -/
theorem items_of_nextItem {read : List Char → Scan α} {input : List Char} {steps : Nat}
    (h : nextItem first input = .ok (true, rest)) : items read first (steps + 1) input
      = (read rest).bind fun (item, rest) =>
        (items read false steps rest).map fun (more, rest) => (item :: more, rest) := by
  rw [items, h]
  dsimp only
  cases read rest <;> rfl

theorem items_of_end {read : List Char → Scan α} {steps : Nat} (hrest : skipBlank rest = ']' :: tail) :
    items read first (steps + 1) rest = .ok ([], ']' :: tail) := by
  rw [items, nextItem_end hrest]

/-- There are no more items than characters, so that the steps last. -/
theorem length_le_length_writeItems (items : List Value) (level : Nat) :
    items.length ≤ (Value.writeItems level items).toList.length := by
  induction items with
  | nil => exact Nat.zero_le _
  | cons item items ih =>
    rw [Value.writeItems]
    simp only [String.toList_append, List.length_append, List.length_cons]
    have hcomma : ",".toList.length = 1 := rfl
    omega

variable {decoder : Decoder α} {write : α → Value} {as : List α} (h : ∀ a ∈ as, decoder.Reads (write a) a)

include h

/-- The loop reads the items behind the first. By induction on them. -/
theorem gives_moreItems (hrest : skipBlank rest = ']' :: tail) {steps : Nat} (hsteps : as.length < steps) :
    Gives (Value.nestingItems (as.map write) ≤ depth)
      (items (decoder depth) false steps ((Value.writeItems level (as.map write)).toList ++ rest)) as
      (']' :: tail) := by
  induction as generalizing steps with
  | nil =>
    obtain ⟨steps, rfl⟩ := Nat.exists_eq_add_one.mpr hsteps
    exact .of_eq (items_of_end hrest) (Nat.zero_le _)
  | cons a as ih =>
    obtain ⟨steps, rfl⟩ := Nat.exists_eq_add_one.mpr (Nat.zero_lt_of_lt hsteps)
    obtain ⟨ha, has⟩ := List.forall_mem_cons.mp h
    have hwritten : (Value.writeItems level ((a :: as).map write)).toList ++ rest
        = ',' :: ((newline level).toList ++ (((write a).write level).toList
          ++ ((Value.writeItems level (as.map write)).toList ++ rest))) := by
      rw [List.map_cons, Value.writeItems]
      simp
    rw [hwritten, items_of_nextItem (nextItem_more (ha.numberless.opens level)), List.map_cons, Value.nestingItems]
    exact (ha.gives_written.bind ((ih has (Nat.lt_of_succ_lt_succ hsteps)).map (a :: ·))).congr Nat.max_le

/-- What is written between the brackets of an array is read back, with steps enough. -/
theorem gives_items (hwritten : text = (Value.arrayBody level (as.map write)).toList ++ ']' :: rest) :
    Gives (Value.nestingItems (as.map write) ≤ depth)
      (closeList (items (decoder depth) true (text.length + 1) text)) as rest := by
  have hend : skipBlank (']' :: rest) = ']' :: rest := skipBlank_cons (by decide)
  refine Gives.closeList ?_ hend
  cases as with
  | nil =>
    rw [hwritten]
    exact .of_eq (items_of_end hend) (Nat.zero_le _)
  | cons a as =>
    obtain ⟨ha, has⟩ := List.forall_mem_cons.mp h
    have hsteps := length_le_length_writeItems (as.map write) (level + 1)
    rw [List.length_map] at hsteps
    replace hwritten : text = (newline (level + 1)).toList ++ (((write a).write (level + 1)).toList
        ++ ((Value.writeItems (level + 1) (as.map write)).toList ++ ((newline level).toList ++ ']' :: rest))) := by
      rw [hwritten, List.map_cons, Value.arrayBody]
      simp
    have henough : as.length < text.length := by
      rw [hwritten]
      simp only [List.length_append, List.length_cons]
      omega
    rw [congrArg (items (decoder depth) true (text.length + 1)) hwritten,
      items_of_nextItem (nextItem_first (ha.numberless.opens _)), List.map_cons, Value.nestingItems]
    refine (ha.gives_written.bind (Gives.map ?_ (a :: ·))).congr Nat.max_le
    exact gives_moreItems has (skipBlank_newline.trans hend) henough

end Items

/-! ## Entries -/

section Entries

variable {first : Bool} {text : List Char} {key : String}

/-- The first key stands right behind the line break. -/
theorem nextKey_first : nextKey true ((newline level).toList ++ ((writeString key).toList ++ rest))
    = .ok (some key, rest) := by
  rw [nextKey, skipBlank_newline, toList_writeString, List.cons_append, skipBlank_cons (by decide),
    List.append_assoc, List.singleton_append]
  show (stringBody _).map _ = _
  rw [stringBody_escaped]
  rfl

/-- Every other key stands behind a comma. -/
theorem nextKey_more : nextKey false (',' :: ((newline level).toList ++ ((writeString key).toList ++ rest)))
    = .ok (some key, rest) := by
  rw [nextKey, skipBlank_cons (by decide)]
  split
  · next heq => cases heq
  · next heq => exact absurd (List.cons.inj heq).1 (by decide)
  · next heq =>
    obtain ⟨rfl, rfl⟩ := List.cons.inj heq
    rw [if_neg (by decide), if_neg (by decide), skipBlank_newline, toList_writeString, List.cons_append,
      skipBlank_cons (by decide), List.append_assoc, List.singleton_append]
    show (stringBody _).map _ = _
    rw [stringBody_escaped]
    rfl

theorem nextKey_end (hrest : skipBlank rest = '}' :: tail) : nextKey first rest = .ok (none, '}' :: tail) := by
  rw [nextKey, hrest]
  rfl

/-- One more turn of the loop over entries. -/
theorem entries_of_nextKey {read : σ → String → List Char → Scan σ} {state : σ} {input : List Char} {steps : Nat}
    (h : nextKey first input = .ok (some key, rest)) : entries read first (steps + 1) state input
      = (read state key rest).bind fun (state, rest) => entries read false steps state rest := by
  rw [entries, h]
  dsimp only
  cases read state key rest <;> rfl

theorem entries_of_end {read : σ → String → List Char → Scan σ} {state : σ} {steps : Nat}
    (hrest : skipBlank rest = '}' :: tail) : entries read first (steps + 1) state rest = .ok (state, '}' :: tail) := by
  rw [entries, nextKey_end hrest]

/-- There are no more entries than characters, so that the steps last. -/
theorem length_le_length_writeEntries (entries : List (String × Value)) (level : Nat) :
    entries.length ≤ (Value.writeEntries level entries).toList.length := by
  induction entries with
  | nil => exact Nat.zero_le _
  | cons e entries ih =>
    rw [Value.writeEntries]
    simp only [String.toList_append, List.length_append, List.length_cons]
    have hcomma : ",".toList.length = 1 := rfl
    omega

/-- Entry by entry, `read` goes from the first state to the last one. -/
inductive ReadsEntries (read : Nat → σ → String → List Char → Scan σ) : σ → List (String × Value) → σ → Prop
  | nil (state : σ) : ReadsEntries read state [] state
  | cons {state next last : σ} {key : String} {v : Value} {more : List (String × Value)}
    (first : Decoder.Reads (fun depth input => read depth state key (':' :: input)) v next)
    (rest : ReadsEntries read next more last) : ReadsEntries read state ((key, v) :: more) last

namespace ReadsEntries

variable {read : Nat → σ → String → List Char → Scan σ} {state last : σ} {written : List (String × Value)}

theorem numberless (h : ReadsEntries read state written last) : ∀ e ∈ written, e.2.Numberless := by
  induction h with
  | nil => exact fun _ he => absurd he List.not_mem_nil
  | cons first _ ih => exact List.forall_mem_cons.mpr ⟨first.numberless, ih⟩

/-- The blank behind a colon does not matter. -/
theorem gives_entry {next : σ} (h : Decoder.Reads (fun depth input => read depth state key (':' :: input)) v next) :
    Gives (v.nesting ≤ depth) (read depth state key (':' :: ' ' :: ((v.write level).toList ++ tail))) next tail := by
  have hblank : skipBlank (' ' :: ((v.write level).toList ++ tail)) = (v.write level).toList ++ tail :=
    (h.numberless.opens level).skipBlank
  exact h.gives hblank

/-- The loop reads the entries behind the first. By induction on them. -/
theorem gives_more (h : ReadsEntries read state written last) (hrest : skipBlank rest = '}' :: tail) {steps : Nat}
    (hsteps : written.length < steps) : Gives (Value.nestingEntries written ≤ depth)
      (entries (read depth) false steps state ((Value.writeEntries level written).toList ++ rest)) last
      ('}' :: tail) := by
  induction h generalizing steps with
  | nil =>
    obtain ⟨steps, rfl⟩ := Nat.exists_eq_add_one.mpr hsteps
    exact .of_eq (entries_of_end hrest) (Nat.zero_le _)
  | @cons _ _ _ key v more first _ ih =>
    obtain ⟨steps, rfl⟩ := Nat.exists_eq_add_one.mpr (Nat.zero_lt_of_lt hsteps)
    have hwritten : (Value.writeEntries level ((key, v) :: more)).toList ++ rest
        = ',' :: ((newline level).toList ++ ((writeString key).toList ++ (':' :: ' ' :: ((v.write level).toList
          ++ ((Value.writeEntries level more).toList ++ rest))))) := by
      rw [Value.writeEntries]
      simp
    rw [hwritten, entries_of_nextKey nextKey_more, Value.nestingEntries]
    exact ((gives_entry first).bind (ih (Nat.lt_of_succ_lt_succ hsteps))).congr Nat.max_le

/-- What is written between the braces of an object is read back, with steps enough. -/
theorem gives (h : ReadsEntries read state written last)
    (hwritten : text = (Value.objectBody level written).toList ++ '}' :: rest) :
    Gives (Value.nestingEntries written ≤ depth) (entries (read depth) true (text.length + 1) state text) last
      ('}' :: rest) := by
  have hend : skipBlank ('}' :: rest) = '}' :: rest := skipBlank_cons (by decide)
  cases h with
  | nil =>
    rw [hwritten]
    exact .of_eq (entries_of_end hend) (Nat.zero_le _)
  | @cons _ _ _ key v more first hmore =>
    have hsteps := length_le_length_writeEntries more (level + 1)
    replace hwritten : text = (newline (level + 1)).toList ++ ((writeString key).toList
        ++ (':' :: ' ' :: ((v.write (level + 1)).toList
          ++ ((Value.writeEntries (level + 1) more).toList ++ ((newline level).toList ++ '}' :: rest))))) := by
      rw [hwritten, Value.objectBody]
      simp
    have henough : more.length < text.length := by
      rw [hwritten]
      simp only [List.length_append, List.length_cons]
      omega
    rw [congrArg (entries (read depth) true (text.length + 1) state) hwritten, entries_of_nextKey nextKey_first,
      Value.nestingEntries]
    exact ((gives_entry first).bind (hmore.gives_more (skipBlank_newline.trans hend) henough)).congr Nat.max_le

end ReadsEntries

end Entries

/-! ## Values -/

theorem word_append (letters rest : List Char) : word letters (letters ++ rest) = .ok rest := by
  induction letters with
  | nil => rfl
  | cons c letters ih => rw [List.cons_append, word, if_pos rfl, ih]

/-- A written string is read back as a scalar. -/
theorem scalar?_string (s : String) (rest : List Char) :
    scalar? ((writeString s).toList ++ rest) = some (.ok (.string s, rest)) := by
  rw [toList_writeString, List.cons_append, List.append_assoc, List.singleton_append]
  show some ((stringBody _).map _) = _
  rw [stringBody_escaped]
  rfl

/-- A written truth value is read back as a scalar. -/
theorem scalar?_bool (b : Bool) (rest : List Char) :
    scalar? (((Value.bool b).write level).toList ++ rest) = some (.ok (.bool b, rest)) := by
  rw [Value.write]
  cases b with
  | false => exact congrArg (fun word => some (word.map fun rest => (Value.bool false, rest))) (word_append _ rest)
  | true => exact congrArg (fun word => some (word.map fun rest => (Value.bool true, rest))) (word_append _ rest)

theorem scalar?_null (rest : List Char) :
    scalar? ((Value.null.write level).toList ++ rest) = some (.ok (.null, rest)) := by
  rw [Value.write]
  exact congrArg (fun word => some (word.map fun rest => (Value.null, rest))) (word_append _ rest)

section Value

variable {input : List Char}

theorem value_of_scalar? {found : Scan Value} (h : scalar? (skipBlank input) = some found) :
    value depth input = found := by
  rw [value]
  simp only [h]

/-- How `value` reads an entry of an object. -/
def readValueEntry (depth : Nat) (found : List (String × Value)) (key : String) (rest : List Char) :
    Scan (List (String × Value)) :=
  match colon rest with
  | .error fault => .error fault
  | .ok rest => (value depth rest).map fun (v, rest) => (found ++ [(key, v)], rest)

variable {n : Nat}

/-- A value that begins with a bracket is read as an array. -/
theorem gives_array {found : List Value} (h : skipBlank input = '[' :: rest)
    (hinside : ∀ depth, Gives (n ≤ depth) (closeList (items (value depth) true (rest.length + 1) rest)) found tail) :
    Gives (n + 1 ≤ depth) (value depth input) (.array found) tail := by
  have hscalar : scalar? ('[' :: rest) = none := rfl
  have hnone : value 0 input = .error (.past .tooDeep ('[' :: rest)) := by
    rw [value]
    simp only [h, hscalar]
  refine gives_of_level (f := (value · input)) ⟨_, hnone⟩ fun depth => ?_
  rw [value]
  simp only [h, hscalar]
  exact (hinside depth).map Value.array

/-- A value that begins with a brace is read as an object. -/
theorem gives_object {found : List (String × Value)} (h : skipBlank input = '{' :: rest)
    (hinside : ∀ depth,
      Gives (n ≤ depth) (closeObject (entries (readValueEntry depth) true (rest.length + 1) [] rest)) found tail) :
    Gives (n + 1 ≤ depth) (value depth input) (.object found) tail := by
  have hscalar : scalar? ('{' :: rest) = none := rfl
  have hnone : value 0 input = .error (.past .tooDeep ('{' :: rest)) := by
    rw [value]
    simp only [h, hscalar]
  refine gives_of_level (f := (value · input)) ⟨_, hnone⟩ fun depth => ?_
  rw [value]
  simp only [h, hscalar]
  exact (hinside depth).map Value.object

end Value

/-- A reader that only collects the entries, in a state made of those it has found. -/
theorem readsEntries_of_collects {read : Nat → σ → String → List Char → Scan σ} {written : List (String × Value)}
    (put : List (String × Value) → σ) (found : List (String × Value))
    (hread : ∀ e ∈ written, ∀ depth found input, read depth (put found) e.1 (':' :: input)
      = (value depth input).map fun (v, rest) => (put (found ++ [(e.1, v)]), rest))
    (h : ∀ e ∈ written, Decoder.Reads value e.2 e.2) :
    ReadsEntries read (put found) written (put (found ++ written)) := by
  induction written generalizing found with
  | nil => exact (List.append_nil found).symm ▸ .nil _
  | cons e written ih =>
    obtain ⟨hreadE, hreadMore⟩ := List.forall_mem_cons.mp hread
    obtain ⟨he, hmore⟩ := List.forall_mem_cons.mp h
    have hfirst : (fun depth input => read depth (put found) e.1 (':' :: input))
        = Decoder.map (fun v => put (found ++ [(e.1, v)])) value :=
      funext fun depth => funext fun input => hreadE depth found input
    rw [List.append_cons]
    exact .cons (hfirst ▸ he.map _) (ih (found ++ [e]) hreadMore hmore)

/-- The plain decoder reads every value without numbers as it is. By induction on the value. -/
theorem Value.Numberless.reads (h : v.Numberless) : Decoder.Reads value v v := by
  refine ⟨h, ?_⟩
  intro depth level input tail hinput
  induction h generalizing depth level input tail with
  | null => exact .of_eq (value_of_scalar? (hinput ▸ scalar?_null tail)) (Nat.zero_le _)
  | bool b => exact .of_eq (value_of_scalar? (hinput ▸ scalar?_bool b tail)) (Nat.zero_le _)
  | string s => exact .of_eq (value_of_scalar? (hinput ▸ scalar?_string s tail)) (Nat.zero_le _)
  | @array items hitems ih =>
    have hreads : ∀ item ∈ items, Decoder.Reads value (id item) item := fun item hitem =>
      ⟨hitems item hitem, ih item hitem⟩
    have hwritten : (arrayBody level items).toList ++ ']' :: tail
        = (arrayBody level (items.map id)).toList ++ ']' :: tail := by
      rw [List.map_id]
    rw [toList_write_array] at hinput
    exact gives_array hinput fun depth => (gives_items hreads hwritten).congr (by rw [List.map_id])
  | @object written hwritten ih =>
    have hreads : ReadsEntries readValueEntry (id []) written (id ([] ++ written)) :=
      readsEntries_of_collects id [] (fun _ _ _ _ _ => rfl) fun e he => ⟨hwritten e he, ih e he⟩
    rw [toList_write_object] at hinput
    exact gives_object hinput fun depth => (hreads.gives rfl).closeObject (skipBlank_cons (by decide))

/-! ## Fields and records -/

namespace Decoder

/-- A decoder of scalars reads the string that it picks. -/
theorem reads_ofScalar {wanted : String} {pick? : Value → Option α} (s : String) (h : pick? (.string s) = some a) :
    (ofScalar wanted pick?).Reads (.string s) a := by
  refine ⟨.string s, fun {depth level input tail} hinput => .of_eq ?_ (Nat.zero_le _)⟩
  have hscalar : scalar? (skipBlank input) = some (.ok (.string s, tail)) := hinput ▸ scalar?_string s tail
  rw [ofScalar]
  simp only [hscalar, h]

/-- A known word is read. -/
theorem reads_variant {known : List String} {s : String} (h : known.contains s = true) :
    (variant known).Reads (.string s) s := by
  refine ⟨.string s, fun {depth level input tail} hinput => .of_eq ?_ (Nat.zero_le _)⟩
  have hscalar : scalar? (skipBlank input) = some (.ok (.string s, tail)) := hinput ▸ scalar?_string s tail
  rw [variant]
  simp only [hscalar, h, if_true]

/-- No string looks like null. -/
theorem reads_optional_string (s : String) : (optional string).Reads (.string s) (some s) := by
  have hstring : string.Reads (.string s) s := reads_ofScalar s rfl
  refine ⟨.string s, fun {depth level input tail} hinput => ?_⟩
  have hwritten : Gives ((Value.string s).nesting ≤ depth)
      (string depth (((Value.string s).write level).toList ++ tail)) s tail := hstring.gives_written
  have hgives := hwritten.map some
  rw [optional, hinput]
  rw [Value.write, toList_writeString, List.cons_append] at hgives ⊢
  exact hgives

/-- A decoder of lists reads what the decoder of items reads. -/
theorem Reads.list {item : Decoder α} {write : α → Value} {as : List α} (h : ∀ a ∈ as, item.Reads (write a) a) :
    (list item).Reads (.array (as.map write)) as := by
  refine ⟨.array (List.forall_mem_map.mpr fun a ha => (h a ha).numberless), fun {depth level input tail} hinput => ?_⟩
  rw [Value.toList_write_array] at hinput
  rw [Decoder.list, hinput]
  exact gives_inside fun depth => gives_items h rfl

end Decoder

namespace Record

variable {r : Record σ} {state : List String × σ} {key : String} {written : List (String × Value)}

/-- A field that has not occurred yet. -/
theorem reads_field {decoder : Decoder α} (set : σ → α → σ)
    (hfield : r.fields.find? (·.name == key) = some (.optional key decoder set)) (hnew : state.1.contains key = false)
    (h : decoder.Reads v a) :
    Decoder.Reads (fun depth input => r.readField depth state key (':' :: input)) v
      (key :: state.1, set state.2 a) := by
  have hread : (fun depth input => r.readField depth state key (':' :: input))
      = decoder.map fun a => (key :: state.1, set state.2 a) := by
    funext depth input
    rw [readField, hfield]
    simp only [hnew]
    show ((decoder depth input).map _).map _ = _
    rw [Decoder.map]
    cases decoder depth input <;> rfl
  exact hread ▸ h.map _

/-- A record is read if its fields are and none is missing. -/
theorem reads {last : List String × σ} (h : ReadsEntries r.readField ([], r.blank) written last)
    (hcomplete : ∀ rest, r.complete last rest = .ok (last.2, rest)) : r.decoder.Reads (.object written) last.2 := by
  refine ⟨.object h.numberless, fun {depth level input tail} hinput => ?_⟩
  rw [Value.toList_write_object] at hinput
  rw [decoder, hinput]
  refine gives_inside fun depth => .closeObject ?_ (skipBlank_cons (by decide))
  exact (h.gives rfl).bind_ok (hcomplete _)

end Record

/-! ## Texts -/

/-- From scans to whole texts: what is written is read back if it is not nested too deep, and otherwise refused for
that reason. -/
theorem Decoder.Reads.decode {decoder : Decoder α} (h : decoder.Reads v a) :
    (nestingOf v.pretty ≤ maxDepth → Json.decode decoder v.pretty = .ok a) ∧
    (¬ nestingOf v.pretty ≤ maxDepth →
      ∃ place, Json.decode decoder v.pretty = .error ⟨.tooDeep, some place⟩) := by
  have hgives : Gives (v.nesting ≤ maxDepth) (decoder maxDepth ((v.write 0).toList ++ [])) a [] := h.gives_written
  rw [List.append_nil, ← h.numberless.nestingOf_pretty] at hgives
  constructor
  · intro hfits
    rw [Json.decode, Value.pretty, hgives.ok hfits]
    rfl
  · intro hdeep
    obtain ⟨unread, hscan⟩ := hgives.refused hdeep
    rw [Json.decode, Value.pretty, hscan]
    exact ⟨_, rfl⟩

end AmpTuner.Json
