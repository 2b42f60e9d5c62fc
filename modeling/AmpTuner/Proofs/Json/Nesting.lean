import AmpTuner.Json.Writer

/-!
# How deep containers are nested

* **`nestingOf`** reads a text: brackets and braces count, unless they stand in a string. **`Value.nesting`** reads
  the value that is written.
* **`Value.Numberless`** is a value in which no numbers stand; documents are such values.
* **`Value.Numberless.nestingOf_pretty`**: both say the same of such a value.
-/

namespace AmpTuner.Json

variable {opened deepest : Nat} {v : Value}

/-! ## Of a text -/

/-- Where a scan of a text stands. -/
inductive Mode where
  | plain
  | string
  | escaped

/-- The state of a scan: how many containers are open, and how many were at most. -/
structure Scanned where
  opened : Nat := 0
  deepest : Nat := 0
  mode : Mode := .plain

/-- One character of a text. Brackets inside strings do not count. -/
def Scanned.step (s : Scanned) (c : Char) : Scanned :=
  match s.mode with
  | .plain =>
    if c = '[' ∨ c = '{' then { s with opened := s.opened + 1, deepest := max s.deepest (s.opened + 1) }
    else if c = ']' ∨ c = '}' then { s with opened := s.opened - 1 }
    else if c = '"' then { s with mode := .string }
    else s
  | .string =>
    if c = '"' then { s with mode := .plain }
    else if c = '\\' then { s with mode := .escaped }
    else s
  | .escaped => { s with mode := .string }

/-- The scan of a text from a state on. -/
def Scanned.through (s : Scanned) (text : String) : Scanned := text.toList.foldl step s

/-- How deep arrays and objects are nested in a text. -/
def nestingOf (text : String) : Nat := (Scanned.through {} text).deepest

/-! ## Of a value -/

mutual

/-- How deep arrays and objects are nested in a value, itself included. -/
def Value.nesting : Value → Nat
  | .null => 0
  | .bool _ => 0
  | .number _ => 0
  | .string _ => 0
  | .array items => Value.nestingItems items + 1
  | .object entries => Value.nestingEntries entries + 1

/-- How deep the items go, each by itself. -/
def Value.nestingItems : List Value → Nat
  | [] => 0
  | item :: more => max item.nesting (Value.nestingItems more)

/-- How deep the values of the entries go. -/
def Value.nestingEntries : List (String × Value) → Nat
  | [] => 0
  | (_, v) :: more => max v.nesting (Value.nestingEntries more)

end

/-- A value in which no numbers stand. -/
inductive Value.Numberless : Value → Prop where
  | null : Numberless .null
  | bool (b : Bool) : Numberless (.bool b)
  | string (s : String) : Numberless (.string s)
  | array {items : List Value} (h : ∀ item ∈ items, Numberless item) : Numberless (.array items)
  | object {entries : List (String × Value)} (h : ∀ e ∈ entries, Numberless e.2) : Numberless (.object entries)

/-! ## Scans -/

namespace Scanned

theorem through_append (s : Scanned) (text text' : String) :
    s.through (text ++ text') = (s.through text).through text' := by
  rw [through, String.toList_append, List.foldl_append, through, through]

/-- Neither bracket nor quote. -/
def isPlain (c : Char) : Bool := !(['[', '{', ']', '}', '"'].contains c)

/-- Most characters between strings make no difference. -/
theorem step_plain {c : Char} (h : isPlain c = true) :
    step ⟨opened, deepest, .plain⟩ c = ⟨opened, deepest, .plain⟩ := by
  simp only [isPlain, Bool.not_eq_true', List.contains_eq_mem, decide_eq_false_iff_not, List.mem_cons,
    List.not_mem_nil, or_false, not_or] at h
  simp [step, h]

theorem hexDigit_ne : ∀ n < 16, hexDigit n ≠ '"' ∧ hexDigit n ≠ '\\' := by decide

theorem step_string {c : Char} (hquote : c ≠ '"') (hslash : c ≠ '\\') :
    step ⟨opened, deepest, .string⟩ c = ⟨opened, deepest, .string⟩ := by
  simp [step, hquote, hslash]

/-- An escaped character leaves the scan in the string. -/
theorem foldl_step_escapeChar (c : Char) : (escapeChar c).foldl step ⟨opened, deepest, .string⟩
    = ⟨opened, deepest, .string⟩ := by
  by_cases hquote : c = '"'
  · rw [hquote]; rfl
  by_cases hslash : c = '\\'
  · rw [hslash]; rfl
  rw [escapeChar, if_neg hquote, if_neg hslash]
  iterate 5 split; · rfl
  split
  · next hcontrol =>
    -- behind the backslash only digits follow
    have hsmall : c.toNat < 32 := hcontrol
    have hfirst := hexDigit_ne (c.toNat / 16) (by omega)
    have hsecond := hexDigit_ne (c.toNat % 16) (by omega)
    have hslash : step ⟨opened, deepest, .string⟩ '\\' = ⟨opened, deepest, .escaped⟩ := rfl
    have hletter : step ⟨opened, deepest, .escaped⟩ 'u' = ⟨opened, deepest, .string⟩ := rfl
    have hzero : step ⟨opened, deepest, .string⟩ '0' = ⟨opened, deepest, .string⟩ := rfl
    rw [List.foldl_cons, hslash, List.foldl_cons, hletter, List.foldl_cons, hzero, List.foldl_cons, hzero,
      List.foldl_cons, step_string hfirst.1 hfirst.2, List.foldl_cons, step_string hsecond.1 hsecond.2, List.foldl_nil]
  · exact step_string hquote hslash

end Scanned

/-- Scanning the text reaches so many levels more, and leaves nothing open. -/
def Counts (text : String) (n : Nat) : Prop := ∀ opened deepest, opened ≤ deepest →
  Scanned.through ⟨opened, deepest, .plain⟩ text = ⟨opened, max deepest (opened + n), .plain⟩

namespace Counts

variable {text text' : String} {n n' : Nat}

/-- A text in two pieces is as deep as the deeper one. -/
theorem append (h : Counts text n) (h' : Counts text' n') : Counts (text ++ text') (max n n') := by
  intro opened deepest hopened
  rw [Scanned.through_append, h opened deepest hopened, h' opened _ (Nat.le_trans hopened (Nat.le_max_left ..))]
  congr 1
  omega

theorem behind (h : Counts text n) (h' : Counts text' 0) : Counts (text' ++ text) n :=
  Nat.zero_max n ▸ h'.append h

theorem before (h : Counts text n) (h' : Counts text' 0) : Counts (text ++ text') n :=
  Nat.max_zero n ▸ h.append h'

/-- What neither opens nor closes anything. -/
theorem of_same (h : ∀ opened deepest, Scanned.through ⟨opened, deepest, .plain⟩ text = ⟨opened, deepest, .plain⟩) :
    Counts text 0 := by
  intro opened deepest hopened
  rw [h, Nat.add_zero, Nat.max_eq_left hopened]

/-- A text of plain characters has no depth. -/
theorem of_plain (h : text.toList.all Scanned.isPlain = true) : Counts text 0 := by
  refine of_same fun opened deepest => ?_
  rw [Scanned.through]
  generalize text.toList = chars at h
  induction chars with
  | nil => rfl
  | cons c chars ih =>
    rw [List.all_cons, Bool.and_eq_true] at h
    rw [List.foldl_cons, Scanned.step_plain h.1, ih h.2]

/-- A container counts once more than what is in it. -/
theorem container {opening closing : String} (hopening : opening = "[" ∨ opening = "\x7b")
    (hclosing : closing = "]" ∨ closing = "\x7d") (h : Counts text n) :
    Counts (opening ++ text ++ closing) (n + 1) := by
  intro opened deepest hopened
  have hopen : Scanned.through ⟨opened, deepest, .plain⟩ opening
      = ⟨opened + 1, max deepest (opened + 1), .plain⟩ := by
    rcases hopening with rfl | rfl <;> rfl
  have hclose (deepest : Nat) : Scanned.through ⟨opened + 1, deepest, .plain⟩ closing
      = ⟨opened, deepest, .plain⟩ := by
    rcases hclosing with rfl | rfl <;> rfl
  rw [Scanned.through_append, Scanned.through_append, hopen, h _ _ (Nat.le_max_right _ _), hclose]
  congr 1
  omega

end Counts

theorem counts_newline (level : Nat) : Counts (newline level) 0 := by
  refine .of_plain ?_
  rw [newline, String.toList_ofList, List.all_cons, List.all_replicate]
  split <;> rfl

theorem toList_writeString (s : String) : (writeString s).toList = '"' :: (s.toList.flatMap escapeChar ++ ['"']) := by
  rw [writeString]
  simp

/-- A written string has no depth, whatever characters are in it. -/
theorem counts_writeString (s : String) : Counts (writeString s) 0 := by
  have hescaped (opened deepest : Nat) (chars : List Char) :
      (chars.flatMap escapeChar).foldl Scanned.step ⟨opened, deepest, .string⟩ = ⟨opened, deepest, .string⟩ := by
    induction chars with
    | nil => rfl
    | cons c chars ih => rw [List.flatMap_cons, List.foldl_append, Scanned.foldl_step_escapeChar, ih]
  have hopen (opened deepest : Nat) : Scanned.step ⟨opened, deepest, .plain⟩ '"' = ⟨opened, deepest, .string⟩ := rfl
  have hclose (opened deepest : Nat) : Scanned.step ⟨opened, deepest, .string⟩ '"' = ⟨opened, deepest, .plain⟩ := rfl
  refine .of_same fun opened deepest => ?_
  rw [Scanned.through, toList_writeString, List.foldl_cons, hopen, List.foldl_append, hescaped, List.foldl_cons,
    hclose, List.foldl_nil]

/-! ## Between the brackets -/

namespace Value

/-- What is written between the brackets of an array. -/
def arrayBody (level : Nat) : List Value → String
  | [] => ""
  | first :: more =>
    newline (level + 1) ++ first.write (level + 1) ++ writeItems (level + 1) more ++ newline level

/-- What is written between the braces of an object. -/
def objectBody (level : Nat) : List (String × Value) → String
  | [] => ""
  | (key, v) :: more =>
    newline (level + 1) ++ writeString key ++ ": " ++ v.write (level + 1) ++ writeEntries (level + 1) more
      ++ newline level

/-- A written array is its body in brackets. -/
theorem write_array (items : List Value) (level : Nat) :
    (array items).write level = "[" ++ arrayBody level items ++ "]" := by
  cases items with
  | nil => rw [write, arrayBody]; decide
  | cons first more => simp only [write, arrayBody, String.append_assoc]

/-- A written object is its body in braces. -/
theorem write_object (entries : List (String × Value)) (level : Nat) :
    (object entries).write level = "\x7b" ++ objectBody level entries ++ "\x7d" := by
  cases entries with
  | nil => rw [write, objectBody]; decide
  | cons first more => simp only [write, objectBody, String.append_assoc]

/-! ## Both agree -/

variable {items : List Value} {entries : List (String × Value)}

/-- Items are as deep in the text as in the value. -/
theorem counts_writeItems (level : Nat) (h : ∀ item ∈ items, Counts (item.write level) item.nesting) :
    Counts (writeItems level items) (nestingItems items) := by
  induction items with
  | nil => exact .of_plain rfl
  | cons item items ih =>
    obtain ⟨hitem, hitems⟩ := List.forall_mem_cons.mp h
    have hfront : Counts ("," ++ newline level) 0 := (counts_newline level).behind (.of_plain rfl)
    rw [writeItems, nestingItems]
    exact (hitem.behind hfront).append (ih hitems)

/-- The body of an array is as deep as its items. -/
theorem counts_arrayBody (level : Nat) (h : ∀ item ∈ items, Counts (item.write (level + 1)) item.nesting) :
    Counts (arrayBody level items) (nestingItems items) := by
  cases items with
  | nil => exact .of_plain rfl
  | cons first more =>
    obtain ⟨hfirst, hmore⟩ := List.forall_mem_cons.mp h
    rw [arrayBody, nestingItems]
    exact ((hfirst.behind (counts_newline _)).append (counts_writeItems _ hmore)).before (counts_newline _)

/-- A key with its colon, on a line of its own. -/
theorem counts_key (level : Nat) (key : String) : Counts (newline level ++ writeString key ++ ": ") 0 :=
  ((counts_newline level).before (counts_writeString key)).before (.of_plain rfl)

/-- Entries are as deep in the text as in the value. -/
theorem counts_writeEntries (level : Nat) (h : ∀ e ∈ entries, Counts (e.2.write level) e.2.nesting) :
    Counts (writeEntries level entries) (nestingEntries entries) := by
  induction entries with
  | nil => exact .of_plain rfl
  | cons e entries ih =>
    obtain ⟨he, hentries⟩ := List.forall_mem_cons.mp h
    have hfront : Counts ("," ++ newline level ++ writeString e.1 ++ ": ") 0 := by
      simpa only [String.append_assoc] using (counts_key level e.1).behind (.of_plain rfl)
    rw [writeEntries, nestingEntries]
    exact (he.behind hfront).append (ih hentries)

/-- The body of an object is as deep as its entries. -/
theorem counts_objectBody (level : Nat) (h : ∀ e ∈ entries, Counts (e.2.write (level + 1)) e.2.nesting) :
    Counts (objectBody level entries) (nestingEntries entries) := by
  cases entries with
  | nil => exact .of_plain rfl
  | cons first more =>
    obtain ⟨hfirst, hmore⟩ := List.forall_mem_cons.mp h
    rw [objectBody, nestingEntries]
    exact ((hfirst.behind (counts_key _ _)).append (counts_writeEntries _ hmore)).before (counts_newline _)

/-- A text is as deep as the value. By induction on the value. -/
theorem Numberless.counts (h : v.Numberless) (level : Nat) : Counts (v.write level) v.nesting := by
  induction h generalizing level with
  | null =>
    rw [write]
    exact .of_plain rfl
  | bool b =>
    rw [write]
    exact .of_plain (by cases b <;> rfl)
  | string s =>
    rw [write]
    exact counts_writeString s
  | array _ ih =>
    rw [write_array, nesting]
    exact (counts_arrayBody level fun item hitem => ih item hitem _).container (.inl rfl) (.inl rfl)
  | object _ ih =>
    rw [write_object, nesting]
    exact (counts_objectBody level fun e he => ih e he _).container (.inr rfl) (.inr rfl)

theorem Numberless.nestingOf_pretty (h : v.Numberless) : nestingOf v.pretty = v.nesting := by
  have hscan : Scanned.through {} v.pretty = ⟨0, max 0 (0 + v.nesting), .plain⟩ := h.counts 0 0 0 (Nat.le_refl 0)
  rw [nestingOf, hscan, Nat.zero_max, Nat.zero_add]

end Value

end AmpTuner.Json
