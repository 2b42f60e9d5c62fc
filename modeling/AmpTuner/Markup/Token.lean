import AmpTuner.Markup.Element
import AmpTuner.Markup.Reference

/-!
Tokens of markup. An element whose content cannot hold further markup (a void or self-closing
element, a script, a style sheet) is one token; the others give an opening and a closing token.
Every scanner takes the unread input and returns what is left of it.
-/

namespace AmpTuner.Markup

inductive Token where
  | doctype (name : String)
  | comment (content : String)
  | text (content : String)
  /-- An element that is complete with its literal content. -/
  | complete (element : Element) (content : String)
  | opening (element : Element)
  | closing (tag : String)
deriving Repr, DecidableEq

/-- Why markup is refused. -/
inductive Defect where
  | unterminatedTag (tag : String)
  | nameExpected (tag : String)
  | missingEnd (ending : String)
deriving Repr, DecidableEq

/-- A defect and the input that was unread when it was found. -/
structure Halt where
  defect : Defect
  unread : List Char
deriving Repr, DecidableEq

namespace Defect

def message : Defect → String
  | unterminatedTag tag => "Unterminated <" ++ tag ++ "> tag"
  | nameExpected tag => "Unexpected '=' in <" ++ tag ++ ">"
  | missingEnd ending => "Expected '" ++ ending ++ "' before end of input"

end Defect

namespace Token

/-- The input up to the first point at which `stop` holds of what follows, and what follows. -/
def upTo (stop : List Char → Bool) : List Char → List Char × List Char
  | [] => ([], [])
  | c :: rest =>
    if stop (c :: rest) then ([], c :: rest)
    else
      let (before, after) := upTo stop rest
      (c :: before, after)

theorem upTo_append (stop : List Char → Bool) (s : List Char) :
    (upTo stop s).1 ++ (upTo stop s).2 = s := by
  induction s with
  | nil => rfl
  | cons c rest ih =>
    unfold upTo
    split
    · rfl
    · simp [ih]

theorem length_upTo (stop : List Char → Bool) (s : List Char) :
    (upTo stop s).1.length + (upTo stop s).2.length = s.length := by
  simpa using congrArg List.length (upTo_append stop s)

def atHead (p : Char → Bool) : List Char → Bool
  | [] => false
  | c :: _ => p c

def startsIgnoringCase (lower input : List Char) : Bool :=
  lower.isPrefixOf ((input.take lower.length).map Char.toLower)

def isAsciiLetter (c : Char) : Bool := ('a' ≤ c && c ≤ 'z') || ('A' ≤ c && c ≤ 'Z')

/-- A left angle bracket is markup only in front of a slash, an exclamation mark or a letter. -/
def atMarkup : List Char → Bool
  | '<' :: c :: _ => c == '/' || c == '!' || isAsciiLetter c
  | _ => false

def endsName (c : Char) : Bool := Text.isBlank c || c == '>' || c == '=' || c == '/'

def endsBareValue (c : Char) : Bool := Text.isBlank c || c == '>'

def lowerName (name : List Char) : String := (String.ofList name).toLower

/-- The input before `ending`, which is skipped. -/
def through (ending : String) (input : List Char) : Except Halt (List Char × List Char) :=
  match upTo ending.toList.isPrefixOf input with
  | (_, []) => .error ⟨.missingEnd ending, []⟩
  | (before, rest) => .ok (before, rest.drop ending.toList.length)

theorem length_of_through {ending : String} {input before rest : List Char}
    (h : through ending input = .ok (before, rest)) : rest.length ≤ input.length := by
  have hlen := length_upTo ending.toList.isPrefixOf input
  unfold through at h
  split at h
  · cases h
  · next b r _ heq =>
    obtain ⟨rfl, rfl⟩ := Prod.mk.inj (Except.ok.inj h)
    rw [heq] at hlen
    simp only [List.length_drop] at *
    omega

/-- An attribute value: in either kind of quotes, or bare up to a blank or the end of the tag. -/
def attributeValue (input : List Char) : Except Halt (String × List Char) :=
  match input with
  | '"' :: rest => (through "\"" rest).map fun (raw, rest) => (Reference.decode raw, rest)
  | '\'' :: rest => (through "'" rest).map fun (raw, rest) => (Reference.decode raw, rest)
  | _ =>
    let (raw, rest) := upTo (atHead endsBareValue) input
    .ok (Reference.decode raw, rest)

theorem length_of_attributeValue {input rest : List Char} {value : String}
    (h : attributeValue input = .ok (value, rest)) : rest.length ≤ input.length := by
  have quoted {ending : String} {after : List Char}
      (h : (through ending after).map (fun (raw, rest) => (Reference.decode raw, rest))
        = .ok (value, rest)) : rest.length ≤ after.length := by
    cases hthrough : through ending after with
    | error halt => rw [hthrough] at h; cases h
    | ok found =>
      rw [hthrough] at h
      obtain ⟨_, rfl⟩ := Prod.mk.inj (Except.ok.inj h)
      exact length_of_through hthrough
  unfold attributeValue at h
  split at h
  · have := quoted h; simp only [List.length_cons]; omega
  · have := quoted h; simp only [List.length_cons]; omega
  · have := length_upTo (atHead endsBareValue) input
    obtain ⟨_, rfl⟩ := Prod.mk.inj (Except.ok.inj h)
    omega

/-- Of two attributes with one name the first stays. -/
def addAttribute (found : List Attribute) (name value : String) : List Attribute :=
  if found.any (·.name == name) then found else found ++ [⟨name, value⟩]

theorem length_dropWhile_le (p : Char → Bool) (s : List Char) : (s.dropWhile p).length ≤ s.length :=
  (List.dropWhile_sublist p).length_le

/-- What stands next inside a start tag. -/
inductive TagItem where
  | finish (selfClosing : Bool)
  /-- A slash that does not close the tag means nothing. -/
  | slash
  | entry (name value : String)
deriving Repr, DecidableEq

/-- An attribute at the start of the input: a name, and a value behind an equals sign. -/
def entry (tag : String) (input : List Char) : Except Halt (TagItem × List Char) :=
  match upTo (atHead endsName) input with
  | ([], _) => .error ⟨.nameExpected tag, input⟩
  | (name, afterName) =>
    match afterName.dropWhile Text.isBlank with
    | '=' :: afterSign =>
      (attributeValue (afterSign.dropWhile Text.isBlank)).map fun (value, rest) =>
        (.entry (lowerName name) value, rest)
    | rest => .ok (.entry (lowerName name) "", rest)

def tagItem (tag : String) (input : List Char) : Except Halt (TagItem × List Char) :=
  match input.dropWhile Text.isBlank with
  | [] => .error ⟨.unterminatedTag tag, []⟩
  | '>' :: rest => .ok (.finish false, rest)
  | '/' :: '>' :: rest => .ok (.finish true, rest)
  | '/' :: rest => .ok (.slash, rest)
  | rest => entry tag rest

theorem length_of_entry {tag : String} {input rest : List Char} {item : TagItem}
    (h : entry tag input = .ok (item, rest)) : rest.length < input.length := by
  unfold entry at h
  have hname := length_upTo (atHead endsName) input
  split at h
  · cases h
  · next name afterName hempty heq =>
    rw [heq] at hname
    have hpos : 0 < name.length := by
      rcases name with _ | ⟨c, name⟩
      · exact (hempty rfl).elim
      · simp
    have hafter := length_dropWhile_le Text.isBlank afterName
    split at h
    · next afterSign hsign =>
      rw [hsign] at hafter
      have hblank := length_dropWhile_le Text.isBlank afterSign
      cases hvalue : attributeValue (afterSign.dropWhile Text.isBlank) with
      | error halt => rw [hvalue] at h; cases h
      | ok found =>
        rw [hvalue] at h
        obtain ⟨_, rfl⟩ := Prod.mk.inj (Except.ok.inj h)
        have := length_of_attributeValue hvalue
        simp only [List.length_cons] at *; omega
    · obtain ⟨_, rfl⟩ := Prod.mk.inj (Except.ok.inj h)
      simp only at *; omega

/-- Each turn over a start tag takes at least one character. -/
theorem length_of_tagItem {tag : String} {input rest : List Char} {item : TagItem}
    (h : tagItem tag input = .ok (item, rest)) : rest.length < input.length := by
  have hblank := length_dropWhile_le Text.isBlank input
  unfold tagItem at h
  split at h
  case h_1 => cases h
  case h_5 => have := length_of_entry h; omega
  all_goals
    next heq =>
      rw [heq] at hblank
      obtain ⟨_, rfl⟩ := Prod.mk.inj (Except.ok.inj h)
      simp only [List.length_cons] at hblank; omega

/-- The attributes of a start tag up to its end, behind those already `found`, and whether the tag
closes itself. -/
def attributes (tag : String) (found : List Attribute) (input : List Char) :
    Except Halt (List Attribute × Bool × List Char) :=
  match _hitem : tagItem tag input with
  | .error halt => .error halt
  | .ok (.finish selfClosing, rest) => .ok (found, selfClosing, rest)
  | .ok (.slash, rest) => attributes tag found rest
  | .ok (.entry name value, rest) => attributes tag (addAttribute found name value) rest
termination_by input.length
decreasing_by all_goals exact length_of_tagItem _hitem

theorem length_of_attributes {tag : String} {found all : List Attribute} {input rest : List Char}
    {selfClosing : Bool} (h : attributes tag found input = .ok (all, selfClosing, rest)) :
    rest.length < input.length := by
  fun_induction attributes tag found input with
  | case1 => cases h
  | case2 found input closes rest' hitem =>
    have := length_of_tagItem hitem
    obtain ⟨_, _, rfl⟩ := by simpa using h
    exact this
  | case3 found input rest' hitem ih => have := length_of_tagItem hitem; have := ih h; omega
  | case4 found input name value rest' hitem ih =>
    have := length_of_tagItem hitem; have := ih h; omega

/-- The literal content of a script or style sheet. It runs to the end tag, in any case of letters,
or to the end of the input. -/
def literal (tag : String) (input : List Char) : Except Halt (String × List Char) :=
  let (content, rest) := upTo (startsIgnoringCase ('<' :: '/' :: tag.toList)) input
  match rest with
  | [] => .ok (String.ofList content, [])
  | _ => (through ">" rest).map fun (_, rest) => (String.ofList content, rest)

/-- A start tag behind its angle bracket, with the literal content of a script or style sheet. -/
def startTag (input : List Char) : Except Halt (Token × List Char) := do
  let (name, rest) := upTo (atHead endsName) input
  let tag := lowerName name
  let (attributes, selfClosing, rest) ← attributes tag [] rest
  if isVoid tag || selfClosing then
    return (complete ⟨tag, attributes⟩ "", rest)
  else if isRawText tag then
    let (content, rest) ← literal tag rest
    return (complete ⟨tag, attributes⟩ content, rest)
  else
    return (opening ⟨tag, attributes⟩, rest)

def endTag (input : List Char) : Except Halt (Token × List Char) := do
  let (name, rest) := upTo (atHead endsName) input
  let (_, rest) ← through ">" rest
  return (closing (lowerName name), rest)

/-- The token at the start of `first :: rest`. Text takes at least its first character, so that an
angle bracket which begins no markup is text. -/
def scan (first : Char) (rest : List Char) : Except Halt (Token × List Char) :=
  let input := first :: rest
  if "<!--".toList.isPrefixOf input then
    (through "-->" (input.drop 4)).map fun (content, rest) => (comment (String.ofList content), rest)
  else if startsIgnoringCase "<!doctype".toList input then
    (through ">" (input.drop 9)).map fun (name, rest) =>
      (doctype (Text.trim (String.ofList name)), rest)
  else if "</".toList.isPrefixOf input then
    endTag (input.drop 2)
  else if first == '<' && atHead isAsciiLetter rest then
    startTag rest
  else
    let (more, rest) := upTo atMarkup rest
    .ok (text (Reference.decode (first :: more)), rest)

theorem length_of_literal {tag content : String} {input rest : List Char}
    (h : literal tag input = .ok (content, rest)) : rest.length ≤ input.length := by
  have hlen := length_upTo (startsIgnoringCase ('<' :: '/' :: tag.toList)) input
  simp only [literal] at h
  split at h
  · obtain ⟨_, rfl⟩ := Prod.mk.inj (Except.ok.inj h); simp
  · cases hthrough : through ">" (upTo (startsIgnoringCase ('<' :: '/' :: tag.toList)) input).2 with
    | error halt => rw [hthrough] at h; cases h
    | ok found =>
      rw [hthrough] at h
      obtain ⟨_, rfl⟩ := Prod.mk.inj (Except.ok.inj h)
      have := length_of_through hthrough
      omega

theorem length_of_startTag {input rest : List Char} {token : Token}
    (h : startTag input = .ok (token, rest)) : rest.length ≤ input.length := by
  have hname := length_upTo (atHead endsName) input
  simp only [startTag, bind, Except.bind, pure, Except.pure] at h
  split at h
  · cases h
  · next found hattributes =>
    have hattributes := length_of_attributes hattributes
    split at h
    · obtain ⟨_, rfl⟩ := Prod.mk.inj (Except.ok.inj h); omega
    · split at h
      · split at h
        · cases h
        · next hliteral =>
          have := length_of_literal hliteral
          obtain ⟨_, rfl⟩ := Prod.mk.inj (Except.ok.inj h); omega
      · obtain ⟨_, rfl⟩ := Prod.mk.inj (Except.ok.inj h); omega

theorem length_of_endTag {input rest : List Char} {token : Token}
    (h : endTag input = .ok (token, rest)) : rest.length ≤ input.length := by
  have hname := length_upTo (atHead endsName) input
  simp only [endTag, bind, Except.bind, pure, Except.pure] at h
  split at h
  · cases h
  · next hthrough =>
    have := length_of_through hthrough
    obtain ⟨_, rfl⟩ := Prod.mk.inj (Except.ok.inj h); omega

/-- Each token takes at least one character. -/
theorem length_of_scan {first : Char} {input rest : List Char} {token : Token}
    (h : scan first input = .ok (token, rest)) : rest.length ≤ input.length := by
  have skipped {ending : String} (n : Nat) (build : List Char → Token)
      (h : (through ending ((first :: input).drop (n + 1))).map
        (fun (content, rest) => (build content, rest)) = .ok (token, rest)) :
      rest.length ≤ input.length := by
    cases hthrough : through ending ((first :: input).drop (n + 1)) with
    | error halt => rw [hthrough] at h; cases h
    | ok found =>
      rw [hthrough] at h
      have hlen := length_of_through hthrough
      obtain ⟨_, rfl⟩ := Prod.mk.inj (Except.ok.inj h)
      simp only [List.drop_succ_cons, List.length_drop] at hlen; omega
  simp only [scan] at h
  split at h
  · exact skipped 3 (fun content => comment (String.ofList content)) h
  · split at h
    · exact skipped 8 (fun name => doctype (Text.trim (String.ofList name))) h
    · split at h
      · have := length_of_endTag h
        simp only [List.drop_succ_cons, List.length_drop] at this; omega
      · split at h
        · exact length_of_startTag h
        · have := length_upTo atMarkup input
          obtain ⟨_, rfl⟩ := Prod.mk.inj (Except.ok.inj h); omega

/-- The tokens of the whole input. -/
def all (input : List Char) : Except Halt (List Token) :=
  match input with
  | [] => .ok []
  | first :: rest =>
    match _htoken : scan first rest with
    | .error halt => .error halt
    | .ok (token, rest) => (all rest).map (token :: ·)
termination_by input.length
decreasing_by have := length_of_scan _htoken; simp only [List.length_cons]; omega

end Token

end AmpTuner.Markup
