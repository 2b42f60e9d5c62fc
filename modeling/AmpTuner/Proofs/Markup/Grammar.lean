import AmpTuner.Proofs.Markup.Progress
import AmpTuner.Proofs.Markup.Readable
import AmpTuner.Proofs.Markup.References

/-!
# The grammar of tokens

Which characters make up which token, without a scanner: how far names and values go, what stands between the names of
a start tag, and where literal content ends. A token may depend on what follows it, by the one character or the
construct at which it stops.

* **`Spells`** is the grammar, with a rule for each kind of token. **`Items`** are the insides of a start tag,
  **`Value`** the ways to write a value, and **`Literal`** is the content of a script or style sheet.
* **`UpTo`** and **`Nowhere`** say how far a text goes: up to a character that ends it, or a construct.
* **`exists_items_of_attributes`**, **`exists_literal`** and **`exists_spells_of_scan`**: the scanners read what the
  grammar says.
* **`StandsIn`** sets tokens side by side with the text that each was read from; **`exists_standsIn_of_all`** gives that
  text for the tokens of any input.
-/

namespace AmpTuner.Markup.Token

/-! ## How far a text goes -/

/-- Blanks end a name, and so do the characters of the tag around it. -/
def EndsName (c : Char) : Prop := Text.isBlank c = true ∨ c = '>' ∨ c = '=' ∨ c = '/'

/-- A value without quotes may hold slashes and equals signs. -/
def EndsBareValue (c : Char) : Prop := Text.isBlank c = true ∨ c = '>'

/-- The letters of the basic alphabet, in either case. -/
def IsLetter (c : Char) : Prop := 'a' ≤ c ∧ c ≤ 'z' ∨ 'A' ≤ c ∧ c ≤ 'Z'

/-- The text goes on until a character ends it, which is the first one of `rest`. -/
structure UpTo (ends : Char → Prop) (text rest : List Char) : Prop where
  plain : ∀ c ∈ text, ¬ ends c
  ended : ∀ c ∈ rest.head?, ends c

/-- Nothing of the kind begins in the text, with `rest` behind it. -/
def Nowhere (kind : List Char → Prop) (text rest : List Char) : Prop :=
  ∀ tail, tail <:+ text → tail ≠ [] → ¬ kind (tail ++ rest)

/-- The input begins with the word, in letters of any case. The word itself is in lower case. -/
def BeginsWith (word input : List Char) : Prop := ∃ given rest, input = given ++ rest ∧ given.map Char.toLower = word

/-- Text may end where markup seems to begin: at an angle bracket with a letter, a slash or an exclamation mark. -/
def AtMarkup (input : List Char) : Prop := ∃ c rest, input = '<' :: c :: rest ∧ (c = '/' ∨ c = '!' ∨ IsLetter c)

/-! ## Start tags -/

/-- A value of an attribute in front of `rest`, with the text that it is read from. -/
inductive Value (rest : List Char) : (text : List Char) → (value : String) → Prop
  | double {raw : List Char} {value : String} (hraw : '"' ∉ raw) (hvalue : Reference.Decodes raw value.toList) :
      Value rest ('"' :: (raw ++ ['"'])) value
  | single {raw : List Char} {value : String} (hraw : '\'' ∉ raw) (hvalue : Reference.Decodes raw value.toList) :
      Value rest ('\'' :: (raw ++ ['\''])) value
  | bare {raw : List Char} {value : String} (hraw : UpTo EndsBareValue raw rest)
      (hquote : ∀ c ∈ raw.head?, c ≠ '"' ∧ c ≠ '\'') (hvalue : Reference.Decodes raw value.toList) :
      Value rest raw value

/-- The inside of a start tag behind its name, up to the bracket that ends it: the attributes as they are written, and
whether the tag closes itself. -/
inductive Items : (text : List Char) → (written : List Attribute) → (closes : Bool) → Prop
  | finish : Items ['>'] [] false
  | close : Items ['/', '>'] [] true
  | blank {c : Char} {text : List Char} {written : List Attribute} {closes : Bool} (hc : Text.isBlank c = true)
      (h : Items text written closes) : Items (c :: text) written closes
  /-- A slash that does not close the tag means nothing. -/
  | slash {text : List Char} {written : List Attribute} {closes : Bool} (hnext : text.head? ≠ some '>')
      (h : Items text written closes) : Items ('/' :: text) written closes
  | name {name text : List Char} {written : List Attribute} {closes : Bool} (hne : name ≠ [])
      (hname : UpTo EndsName name text) (h : Items text written closes) :
      Items (name ++ text) (⟨(String.ofList name).toLower, ""⟩ :: written) closes
  | value {name before behind given text : List Char} {value : String} {written : List Attribute} {closes : Bool}
      (hne : name ≠ []) (hname : UpTo EndsName name (before ++ ['=']))
      (hbefore : ∀ c ∈ before, Text.isBlank c = true)
      (hbehind : UpTo (fun c => Text.isBlank c = false) behind (given ++ text)) (hvalue : Value text given value)
      (h : Items text written closes) :
      Items (name ++ (before ++ '=' :: (behind ++ (given ++ text)))) (⟨(String.ofList name).toLower, value⟩ :: written)
        closes

/-- The literal content of an element with that tag, from behind its start tag to the end of its end tag, or to that
of the input. -/
inductive Literal (tag : String) : (rest text content : List Char) → Prop
  | ended {content word skipped rest : List Char}
      (hcontent : Nowhere (BeginsWith ('<' :: '/' :: tag.toList)) content (word ++ (skipped ++ '>' :: rest)))
      (hword : word.map Char.toLower = '<' :: '/' :: tag.toList) (hskipped : '>' ∉ word ++ skipped) :
      Literal tag rest (content ++ (word ++ (skipped ++ ['>']))) content
  | unended {content : List Char} (hcontent : Nowhere (BeginsWith ('<' :: '/' :: tag.toList)) content []) :
      Literal tag [] content content

/-- The name and the inside of a start tag, and the element of which it gives the tag and the attributes. Of the
attributes with one name the first counts. -/
structure Starts (el : Element) (name text : List Char) (closes : Bool) : Prop where
  letter : ∃ c more, name = c :: more ∧ IsLetter c
  named : UpTo EndsName name text
  tag : el.tag = (String.ofList name).toLower
  items : ∃ written, Items text written closes ∧ el.attributes = Attribute.firstOfEach written

/-! ## Tokens -/

/-- Where text does not begin, because something else does. -/
inductive Begins : List Char → Prop
  | comment {rest : List Char} : Begins ('<' :: '!' :: '-' :: '-' :: rest)
  | doctype {input : List Char} (h : BeginsWith "<!doctype".toList input) : Begins input
  | closing {rest : List Char} : Begins ('<' :: '/' :: rest)
  | opening {c : Char} {rest : List Char} (hc : IsLetter c) : Begins ('<' :: c :: rest)

/-- The text of a token in front of `rest`. The tag of a void element, and one that closes itself, give an element
without content; that of a script or style sheet takes the content along; any other leaves its element open. -/
inductive Spells (rest : List Char) : (text : List Char) → Token → Prop
  | comment {content : List Char} (hcontent : Nowhere ("-->".toList <+: ·) content "-->".toList) :
      Spells rest ("<!--".toList ++ (content ++ "-->".toList)) (.comment (String.ofList content))
  | doctype {word name : List Char} (hword : word.map Char.toLower = "<!doctype".toList) (hname : '>' ∉ name) :
      Spells rest (word ++ (name ++ ['>'])) (.doctype (Text.trim (String.ofList name)))
  | closing {name skipped : List Char} (hname : UpTo EndsName name (skipped ++ ['>'])) (hskipped : '>' ∉ skipped) :
      Spells rest ('<' :: '/' :: (name ++ (skipped ++ ['>']))) (.closing (String.ofList name).toLower)
  | alone {el : Element} {name text : List Char} {closes : Bool} (hstarts : Starts el name text closes)
      (hcloses : isVoid el.tag = true ∨ closes = true) : Spells rest ('<' :: (name ++ text)) (.complete el "")
  | literal {el : Element} {name text body content : List Char} (hstarts : Starts el name text false)
      (hvoid : isVoid el.tag = false) (hraw : isRawText el.tag = true) (hbody : Literal el.tag rest body content) :
      Spells rest ('<' :: (name ++ (text ++ body))) (.complete el (String.ofList content))
  | opening {el : Element} {name text : List Char} (hstarts : Starts el name text false)
      (hvoid : isVoid el.tag = false) (hraw : isRawText el.tag = false) :
      Spells rest ('<' :: (name ++ text)) (.opening el)
  | text {first : Char} {more : List Char} {content : String} (hplain : ¬ Begins (first :: (more ++ rest)))
      (hmore : Nowhere AtMarkup more rest) (hends : rest = [] ∨ AtMarkup rest)
      (hcontent : Reference.Decodes (first :: more) content.toList) : Spells rest (first :: more) (.text content)

/-- The tokens of an input, each with the text that it is read from; nothing of the input stands between them. -/
inductive StandsIn : List Char → List (List Char × Token) → Prop where
  | nil : StandsIn [] []
  | cons {first : Char} {text rest : List Char} {token : Token} {more : List (List Char × Token)}
      (hscan : scan first (text ++ rest) = .ok (token, rest)) (hspells : Spells rest (first :: text) token)
      (hmore : StandsIn rest more) : StandsIn (first :: (text ++ rest)) ((first :: text, token) :: more)

/-! ## The pieces of the scanners -/

variable {tag : String} {input rest name text : List Char} {found read written : List Attribute} {closes : Bool}

theorem endsName_iff {c : Char} : endsName c = true ↔ EndsName c := by
  simp only [endsName, EndsName, Bool.or_eq_true, beq_iff_eq, or_assoc]

theorem endsBareValue_iff {c : Char} : endsBareValue c = true ↔ EndsBareValue c := by
  simp only [endsBareValue, EndsBareValue, Bool.or_eq_true, beq_iff_eq]

theorem isLetter_iff {c : Char} : isAsciiLetter c = true ↔ IsLetter c := by
  simp only [isAsciiLetter, IsLetter, Bool.or_eq_true, Bool.and_eq_true, decide_eq_true_eq]

theorem atMarkup_iff : atMarkup input = true ↔ AtMarkup input := by
  constructor
  · intro h
    unfold atMarkup at h
    split at h
    · next c rest =>
      simp only [Bool.or_eq_true, beq_iff_eq, or_assoc, isLetter_iff] at h
      exact ⟨c, rest, rfl, h⟩
    · cases h
  · rintro ⟨c, rest, rfl, h⟩
    simpa only [atMarkup, Bool.or_eq_true, beq_iff_eq, or_assoc, isLetter_iff] using h

theorem beginsWith_iff {word : List Char} : startsIgnoringCase word input = true ↔ BeginsWith word input := by
  rw [startsIgnoringCase_eq, List.isPrefixOf_iff_prefix]
  constructor
  · rintro ⟨tail, htail⟩
    obtain ⟨given, rest, rfl, hgiven, -⟩ := List.map_eq_append_iff.mp htail.symm
    exact ⟨given, rest, rfl, hgiven⟩
  · rintro ⟨given, rest, rfl, rfl⟩
    rw [List.map_append]
    exact List.prefix_append _ _

/-- A text that a scanner passes over holds no construct at which it stops. -/
theorem nowhere_of_clear {stop : List Char → Bool} {kind : List Char → Prop}
    (hkind : ∀ input, stop input = true ↔ kind input) (h : Clear stop rest text) : Nowhere kind text rest :=
  fun tail htail hne hbegins => by
    rw [← hkind, clear_iff.mp h tail htail hne] at hbegins
    cases hbegins

/-- What the scanner stops at is what ends the text. -/
theorem upTo_of_upTo {ends : Char → Bool} {kind : Char → Prop} (hkind : ∀ c, ends c = true ↔ kind c)
    (h : upTo (atHead ends) input = (text, rest)) : input = text ++ rest ∧ UpTo kind text rest := by
  obtain ⟨hinput, hclear, hrest⟩ := clear_of_upTo h
  refine ⟨hinput, fun c hc hends => ?_, fun c hc => ?_⟩
  · rw [← hkind, clear_atHead_iff.mp hclear c hc] at hends
    cases hends
  · obtain ⟨more, rfl⟩ := List.head?_eq_some_iff.mp hc
    exact (hkind c).mp (hrest.resolve_left (List.cons_ne_nil _ _))

theorem UpTo.of_append {ends : Char → Prop} {behind : List Char} (h : UpTo ends text (rest ++ behind))
    (hne : rest ≠ []) : UpTo ends text rest := by
  obtain ⟨c, more, rfl⟩ := List.exists_cons_of_ne_nil hne
  exact ⟨h.plain, h.ended⟩

theorem decodes_decode (raw : List Char) : Reference.Decodes raw (Reference.decode raw).toList := by
  rw [Reference.decode, String.toList_ofList]
  exact Reference.decodes_iff.mpr rfl

/-- Blanks that are skipped end in front of what is none. -/
theorem upTo_dropWhile (input : List Char) : ∃ blanks, input = blanks ++ input.dropWhile Text.isBlank
    ∧ (∀ c ∈ blanks, Text.isBlank c = true) ∧ ∀ c ∈ (input.dropWhile Text.isBlank).head?, Text.isBlank c = false := by
  refine ⟨input.takeWhile Text.isBlank, List.takeWhile_append_dropWhile.symm, fun c hc => List.mem_takeWhile_imp hc,
    fun c hc => ?_⟩
  have hhead := List.head?_dropWhile_not Text.isBlank input
  rw [Option.mem_def.mp hc] at hhead
  simpa using hhead

/-! ## What the scanners read -/

/-- What is read as a value is spelled as one. -/
theorem exists_value {value : String} (h : attributeValue input = .ok (value, rest)) :
    ∃ text, input = text ++ rest ∧ Value rest text value := by
  obtain ⟨raw, rfl, hcases⟩ := attributeValue_cases h
  rcases hcases with ⟨more, rfl, hthrough⟩ | ⟨more, rfl, hthrough⟩ | ⟨hdouble, hsingle, hbare⟩
  · obtain ⟨rfl, hraw⟩ := clear_of_through hthrough
    exact ⟨_, by simp, .double (clear_isPrefixOf_singleton_iff.mp hraw) (decodes_decode raw)⟩
  · obtain ⟨rfl, hraw⟩ := clear_of_through hthrough
    exact ⟨_, by simp, .single (clear_isPrefixOf_singleton_iff.mp hraw) (decodes_decode raw)⟩
  · obtain ⟨rfl, hraw⟩ := upTo_of_upTo (fun _ => endsBareValue_iff) hbare
    refine ⟨raw, rfl, .bare hraw (fun c hc => ?_) (decodes_decode raw)⟩
    obtain ⟨more, rfl⟩ := List.head?_eq_some_iff.mp hc
    exact ⟨fun heq => hdouble (congrArg some heq), fun heq => hsingle (congrArg some heq)⟩

/-- A value ends no later than with the first of what follows it. -/
theorem Value.of_append {value : String} {behind : List Char} (h : Value (rest ++ behind) text value)
    (hne : rest ≠ []) : Value rest text value := by
  cases h with
  | double hraw hvalue => exact .double hraw hvalue
  | single hraw hvalue => exact .single hraw hvalue
  | bare hraw hquote hvalue => exact .bare (hraw.of_append hne) hquote hvalue

theorem Items.ne_nil (h : Items text written closes) : text ≠ [] := by
  cases h with
  | name hne _ _ | value hne _ _ _ _ _ => exact List.append_ne_nil_of_left_ne_nil hne _
  | _ => exact List.cons_ne_nil _ _

/-- Blanks may stand in front of the items. -/
theorem Items.blanks {blanks : List Char} (hblanks : ∀ c ∈ blanks, Text.isBlank c = true)
    (h : Items text written closes) : Items (blanks ++ text) written closes := by
  induction blanks with
  | nil => exact h
  | cons c blanks ih =>
    obtain ⟨hc, hblanks⟩ := List.forall_mem_cons.mp hblanks
    exact .blank hc (ih hblanks)

/-- An attribute in front of the inside of a start tag makes a longer inside of it. -/
theorem Items.of_entry {name value : String} {behind : List Char} (hitems : Items text written closes)
    (h : entry tag input = .ok (.entry name value, text ++ behind)) :
    ∃ longer, input = longer ++ behind ∧ Items longer (⟨name, value⟩ :: written) closes := by
  obtain ⟨found, afterName, value', hfound, hne, hitem, hread⟩ := entry_cases h
  obtain ⟨rfl, rfl⟩ := TagItem.entry.inj hitem
  obtain ⟨rfl, hname⟩ := upTo_of_upTo (fun _ => endsName_iff) hfound
  obtain ⟨before, hsplit, hbefore, -⟩ := upTo_dropWhile afterName
  rcases hread with ⟨afterSign, hsign, hvalue⟩ | ⟨hafter, rfl⟩
  · rw [hsign] at hsplit
    obtain ⟨blanks, hsplitSign, hblanks, hended⟩ := upTo_dropWhile afterSign
    obtain ⟨given, hgiven, hspelled⟩ := exists_value hvalue
    rw [hgiven] at hended hsplitSign
    have hnamed : UpTo EndsName found (before ++ ['=']) := by
      rw [hsplit, List.append_cons] at hname
      exact hname.of_append (by simp)
    have hended : UpTo (fun c => Text.isBlank c = false) blanks ((given ++ text) ++ behind) :=
      ⟨by simpa using hblanks, by rwa [List.append_assoc]⟩
    have hbehind := hended.of_append (List.append_ne_nil_of_right_ne_nil _ hitems.ne_nil)
    exact ⟨_, by rw [hsplit, hsplitSign]; simp,
      .value hne hnamed hbefore hbehind (hspelled.of_append hitems.ne_nil) hitems⟩
  · rw [hafter] at hsplit
    have hinside := hitems.blanks hbefore
    refine ⟨found ++ (before ++ text), by rw [hsplit]; simp, .name hne ?_ hinside⟩
    rw [hsplit, ← List.append_assoc] at hname
    exact hname.of_append hinside.ne_nil

/-- The item that ends a start tag is an inside by itself. -/
theorem exists_items_of_finish (h : tagItem tag input = .ok (.finish closes, rest)) :
    ∃ text, input = text ++ rest ∧ Items text [] closes := by
  obtain ⟨blanks, hsplit, hblanks, -⟩ := upTo_dropWhile input
  rcases tagItem_cases h with ⟨hitem, htext⟩ | ⟨hitem, htext⟩ | ⟨hitem, -⟩ | hentry
  · obtain rfl := TagItem.finish.inj hitem
    rw [htext] at hsplit
    exact ⟨_, by rw [hsplit]; simp, Items.finish.blanks hblanks⟩
  · obtain rfl := TagItem.finish.inj hitem
    rw [htext] at hsplit
    exact ⟨_, by rw [hsplit]; simp, Items.close.blanks hblanks⟩
  · cases hitem
  · obtain ⟨_, _, _, -, -, hitem, -⟩ := entry_cases hentry
    cases hitem

/-- A slash that means nothing may stand in front of the inside of a start tag. -/
theorem Items.of_slash {behind : List Char} (hitems : Items text written closes)
    (h : tagItem tag input = .ok (.slash, text ++ behind)) :
    ∃ longer, input = longer ++ behind ∧ Items longer written closes := by
  obtain ⟨blanks, hsplit, hblanks, -⟩ := upTo_dropWhile input
  rcases tagItem_cases h with ⟨hitem, -⟩ | ⟨hitem, -⟩ | ⟨-, htext, hnext⟩ | hentry
  · cases hitem
  · cases hitem
  · rw [htext] at hsplit
    have hslash : text.head? ≠ some '>' := fun hhead => hnext (by rw [List.head?_append, hhead]; rfl)
    exact ⟨_, by rw [hsplit]; simp, (Items.slash hslash hitems).blanks hblanks⟩
  · obtain ⟨_, _, _, -, -, hitem, -⟩ := entry_cases hentry
    cases hitem

/-- An item that is an attribute makes a longer inside, with the blanks in front of it. -/
theorem Items.of_tagItem {name value : String} {behind : List Char} (hitems : Items text written closes)
    (h : tagItem tag input = .ok (.entry name value, text ++ behind)) :
    ∃ longer, input = longer ++ behind ∧ Items longer (⟨name, value⟩ :: written) closes := by
  obtain ⟨blanks, hsplit, hblanks, -⟩ := upTo_dropWhile input
  rcases tagItem_cases h with ⟨hitem, -⟩ | ⟨hitem, -⟩ | ⟨hitem, -⟩ | hentry
  · cases hitem
  · cases hitem
  · cases hitem
  · obtain ⟨longer, hlonger, hinside⟩ := hitems.of_entry hentry
    rw [hlonger] at hsplit
    exact ⟨_, by rw [hsplit]; simp, hinside.blanks hblanks⟩

/-- The scanner keeps an attribute by the rule for the first of each name. -/
theorem addAttribute_eq (found : List Attribute) (name value : String) :
    addAttribute found name value = Attribute.takeUp found ⟨name, value⟩ := by
  rw [addAttribute, Attribute.takeUp]
  refine if_congr ?_ rfl rfl
  simp [Attribute.names]

/-- The attributes that the scanner finds are those that are written, and of one name it keeps the first. -/
theorem exists_items_of_attributes (h : attributes tag found input = .ok (read, closes, rest)) :
    ∃ text written, input = text ++ rest ∧ Items text written closes ∧ read = written.foldl Attribute.takeUp found := by
  -- each item lengthens the inside that is read behind it
  fun_induction attributes tag found input with
  | case1 => cases h
  | case2 found input closes' rest' hitem =>
    obtain ⟨rfl, rfl, rfl⟩ := by simpa using h
    obtain ⟨text, hinput, hitems⟩ := exists_items_of_finish hitem
    exact ⟨text, [], hinput, hitems, rfl⟩
  | case3 found input rest' hitem ih =>
    obtain ⟨text, written, rfl, hitems, rfl⟩ := ih h
    obtain ⟨longer, hinput, hlonger⟩ := hitems.of_slash hitem
    exact ⟨longer, written, hinput, hlonger, rfl⟩
  | case4 found input name value rest' hitem ih =>
    obtain ⟨text, written, rfl, hitems, rfl⟩ := ih h
    obtain ⟨longer, hinput, hlonger⟩ := hitems.of_tagItem hitem
    exact ⟨longer, _, hinput, hlonger, by rw [addAttribute_eq]; rfl⟩

/-! ## Tokens that the scanner reads -/

/-- Where the end tag of a literal begins, the bracket that ends it is still to come. -/
theorem exists_skipped {word behind before : List Char} (hword : '>' ∉ word)
    (h : word ++ behind = before ++ '>' :: rest) : ∃ skipped, before = word ++ skipped := by
  rcases List.append_eq_append_iff.mp h with ⟨skipped, hbefore, -⟩ | ⟨more, hmore, hrest⟩
  · exact ⟨skipped, hbefore⟩
  · cases more with
    | nil => exact ⟨[], by rw [hmore]; simp⟩
    | cons c more =>
      obtain ⟨rfl, -⟩ := List.cons.inj hrest
      exact absurd (hmore ▸ by simp) hword

/-- What is read as literal content is spelled as such, up to its end tag. -/
theorem exists_literal {content : String} (htag : '>' ∉ tag.toList) (h : literal tag input = .ok (content, rest)) :
    ∃ body chars, input = body ++ rest ∧ Literal tag rest body chars ∧ content = String.ofList chars := by
  obtain ⟨chars, after, hchars, rfl, hcases⟩ := literal_cases h
  obtain ⟨rfl, hclear, hstop⟩ := clear_of_upTo hchars
  have hcontent := nowhere_of_clear (fun _ => beginsWith_iff) hclear
  rcases hcases with ⟨rfl, rfl⟩ | ⟨hne, passed, hthrough⟩
  · exact ⟨_, chars, by simp, .unended hcontent, rfl⟩
  · obtain ⟨rfl, hclosed⟩ := clear_of_through hthrough
    have hpassed : '>' ∉ passed := clear_isPrefixOf_singleton_iff.mp hclosed
    obtain ⟨word, behind, hword, hlower⟩ := beginsWith_iff.mp (hstop.resolve_left hne)
    have hplain : '>' ∉ word := fun hmem => by
      have hlowered : '>' ∈ word.map Char.toLower := List.mem_map.mpr ⟨'>', hmem, rfl⟩
      rw [hlower] at hlowered
      simp [htag] at hlowered
    obtain ⟨skipped, rfl⟩ := exists_skipped hplain hword.symm
    rw [List.append_assoc] at hcontent
    exact ⟨_, chars, by simp, .ended hcontent hlower hpassed, rfl⟩

/-- The name of a start tag begins with the letter behind the angle bracket. -/
theorem exists_letter {first : Char} {after : List Char} (hfirst : isAsciiLetter first = true)
    (h : upTo (atHead endsName) (first :: input) = (name, after)) : ∃ c more, name = c :: more ∧ IsLetter c := by
  have hgoes : atHead endsName (first :: input) = false := endsName_of_isAsciiLetter hfirst
  rw [upTo, hgoes] at h
  exact ⟨first, _, (Prod.mk.inj h).1.symm, isLetter_iff.mp hfirst⟩

/-- The start tag with the literal content behind it, if its element has such content. -/
theorem exists_spells_of_startTag {token : Token} {first : Char} (hfirst : isAsciiLetter first = true)
    (h : startTag (first :: input) = .ok (token, rest)) :
    ∃ text, '<' :: first :: input = text ++ rest ∧ Spells rest text token := by
  obtain ⟨name, afterName, attrs, closes, after, hupTo, hattributes, hcases⟩ := startTag_cases h
  obtain ⟨hinput, hname⟩ := upTo_of_upTo (fun _ => endsName_iff) hupTo
  obtain ⟨text, written, rfl, hitems, hall⟩ := exists_items_of_attributes hattributes
  rw [Attribute.foldl_takeUp_nil] at hall
  have hstarts : Starts ⟨lowerName name, attrs⟩ name text closes :=
    ⟨exists_letter hfirst hupTo, hname.of_append hitems.ne_nil, rfl, written, hitems, hall⟩
  rw [hinput]
  rcases hcases with ⟨hcloses, rfl, rfl⟩ | ⟨hvoid, rfl, ⟨hraw, content, hliteral, rfl⟩ | ⟨hraw, rfl, rfl⟩⟩
  · exact ⟨_, by simp, .alone hstarts hcloses⟩
  · have hplain : '>' ∉ (lowerName name).toList := by
      rcases (Bool.or_eq_true _ _).mp hraw with htag | htag <;> rw [beq_iff_eq.mp htag] <;> decide
    obtain ⟨body, chars, rfl, hread, rfl⟩ := exists_literal hplain hliteral
    exact ⟨_, by simp, .literal hstarts hvoid hraw hread⟩
  · exact ⟨_, by simp, .opening hstarts hvoid hraw⟩

/-- What is read as an end tag is spelled as one. -/
theorem exists_spells_of_endTag {token : Token} (h : endTag input = .ok (token, rest)) :
    ∃ text, '<' :: '/' :: input = text ++ rest ∧ Spells rest text token := by
  obtain ⟨name, after, skipped, hupTo, hthrough, rfl⟩ := exists_of_endTag h
  obtain ⟨rfl, hname⟩ := upTo_of_upTo (fun _ => endsName_iff) hupTo
  obtain ⟨rfl, hclosed⟩ := clear_of_through hthrough
  have hended : UpTo EndsName name ((skipped ++ ['>']) ++ rest) := by rwa [List.append_assoc]
  exact ⟨_, by simp, .closing (hended.of_append (by simp)) (clear_isPrefixOf_singleton_iff.mp hclosed)⟩

/-- What the scanner makes a token of is spelled as the grammar has it. -/
theorem exists_spells_of_scan {token : Token} {first : Char} (h : scan first input = .ok (token, rest)) :
    ∃ text, first :: input = text ++ rest ∧ Spells rest text token := by
  cases scanned_of_scan h with
  | comment hbegins hthrough =>
    obtain ⟨more, hmore⟩ := List.isPrefixOf_iff_prefix.mp hbegins
    rw [← hmore] at hthrough ⊢
    obtain ⟨hcontent, hclear⟩ := clear_of_through hthrough
    have hnowhere := nowhere_of_clear (fun _ => List.isPrefixOf_iff_prefix)
      ((clear_isPrefixOf_append_iff rest).mp hclear)
    exact ⟨_, by rw [show more = _ from hcontent]; simp, .comment hnowhere⟩
  | doctype hbegins hthrough =>
    obtain ⟨word, more, hmore, hword⟩ := beginsWith_iff.mp hbegins
    obtain ⟨hname, hclear⟩ := clear_of_through hthrough
    have hlength : word.length = 9 := by simpa using congrArg List.length hword
    rw [hmore, List.drop_left' hlength] at hname
    exact ⟨_, by rw [hmore, hname]; simp, .doctype hword (clear_isPrefixOf_singleton_iff.mp hclear)⟩
  | closing hbegins hend =>
    obtain ⟨more, hmore⟩ := List.isPrefixOf_iff_prefix.mp hbegins
    rw [← hmore] at hend ⊢
    exact exists_spells_of_endTag hend
  | start hfirst hletter hstart =>
    obtain rfl := hfirst
    cases input with
    | nil => cases hletter
    | cons c input => exact exists_spells_of_startTag hletter hstart
  | @text more hcomment hdoctype hclosing hstart hupTo =>
    obtain ⟨hinput, hclear, hends⟩ := clear_of_upTo hupTo
    refine ⟨first :: more, congrArg (first :: ·) hinput, .text (fun hbegins => ?_)
      (nowhere_of_clear (fun _ => atMarkup_iff) hclear) (hends.imp_right atMarkup_iff.mp) (decodes_decode _)⟩
    rw [← hinput] at hbegins
    -- no construct begins here, or the scanner would have taken it
    cases hbegins with
    | comment => cases hcomment
    | doctype hword => exact Bool.eq_false_iff.mp hdoctype (beginsWith_iff.mpr hword)
    | closing => cases hclosing
    | opening hc => exact hstart ⟨rfl, isLetter_iff.mpr hc⟩

/-- The tokens of a source are spelled one behind the other, and together make the source. -/
theorem exists_standsIn_of_all {tokens : List Token} (h : all input = .ok tokens) :
    ∃ parts, StandsIn input parts ∧ parts.map (·.2) = tokens := by
  fun_induction all input generalizing tokens with
  | case1 =>
    obtain rfl := Except.ok.inj h
    exact ⟨[], .nil, rfl⟩
  | case2 => cases h
  | case3 first input token rest hscan ih =>
    cases hrest : all rest with
    | error halt =>
      rw [hrest] at h
      cases h
    | ok more =>
      rw [hrest] at h
      obtain rfl := Except.ok.inj h
      obtain ⟨parts, hparts, rfl⟩ := ih hrest
      obtain ⟨text, rfl⟩ := suffix_of_scan hscan
      obtain ⟨text', htext, hspells⟩ := exists_spells_of_scan hscan
      obtain rfl : first :: text = text' := List.append_cancel_right (by rw [List.cons_append, htext])
      exact ⟨(first :: text, token) :: parts, .cons hscan hspells hparts, rfl⟩

end AmpTuner.Markup.Token
