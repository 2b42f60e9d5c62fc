import AmpTuner.Text.Affix

/-!
Elements: a tag name and an ordered list of attributes. The operations keep the position of an
attribute that they overwrite or rename. In a tree of nodes, as a reader builds it and a writer takes it,
the children stand inside their parent.
-/

namespace AmpTuner.Markup

/-- An attribute without a written value holds the empty text. -/
structure Attribute where
  name : String
  value : String
deriving Repr, DecidableEq

structure Element where
  tag : String
  attributes : List Attribute := []
deriving Repr, DecidableEq

/-- Overwrites the first attribute called `name`, or appends one. -/
def Attribute.put (name value : String) : List Attribute → List Attribute
  | [] => [⟨name, value⟩]
  | a :: rest => if a.name = name then ⟨a.name, value⟩ :: rest else a :: put name value rest

/-- Gives the first attribute called `old` the name `new`. -/
def Attribute.relabel (old new : String) : List Attribute → List Attribute
  | [] => []
  | a :: rest => if a.name = old then ⟨new, a.value⟩ :: rest else a :: relabel old new rest

namespace Element

def attribute? (el : Element) (name : String) : Option String :=
  (el.attributes.find? (·.name == name)).map (·.value)

def hasAttribute (el : Element) (name : String) : Bool := el.attributes.any (·.name == name)

def set (el : Element) (name value : String) : Element :=
  { el with attributes := Attribute.put name value el.attributes }

/-- Sets the attributes in order, so that the last value given for a name stays. -/
def setAll (el : Element) (given : List (String × String)) : Element :=
  given.foldl (fun el a => el.set a.1 a.2) el

def erase (el : Element) (name : String) : Element :=
  { el with attributes := el.attributes.eraseP (·.name == name) }

/-- Renames an attribute in place. Refused when `old` is absent or `new` is taken. -/
def rename? (el : Element) (old new : String) : Option Element :=
  if el.hasAttribute new || !el.hasAttribute old then none
  else some { el with attributes := Attribute.relabel old new el.attributes }

/-- An element of that tag, without an attribute list of its own. -/
def make (tag : String) (given : List (String × String)) : Element := setAll { tag } given

def hasClass (el : Element) (name : String) : Bool :=
  ((el.attribute? "class").map Text.words).any (·.contains name)

/-- Appends a class behind the trimmed class list, unless it is in the list. -/
def addClass (el : Element) (name : String) : Element :=
  if el.hasClass name then el
  else
    let listed := Text.trim ((el.attribute? "class").getD "")
    el.set "class" (if listed.isEmpty then name else listed ++ " " ++ name)

/-- The tokens of an attribute such as `rel`, in lower case. -/
def tokens (el : Element) (name : String) : List String :=
  ((el.attribute? name).map Text.words).getD [] |>.map String.toLower

end Element

/-- Tags of elements that have neither content nor an end tag. -/
def voidTags : List String :=
  ["area", "base", "br", "col", "embed", "hr", "img", "input", "link", "meta", "param", "source",
    "track", "wbr"]

def isVoid (tag : String) : Bool := voidTags.contains tag

/-- Elements whose text stands in markup as it is, without references. -/
def isRawText (tag : String) : Bool := tag == "script" || tag == "style"

/-- Custom elements are those outside the standard vocabulary, told by their tag. -/
def isComponent (tag : String) : Bool := Text.startsWith "amp-" tag

/-! ## Trees -/

inductive Tree where
  | element (element : Element) (children : List Tree)
  | text (content : String)
  | comment (content : String)
deriving Repr, BEq

/-- A forest with an optional document type. -/
structure Document where
  doctype : Option String := none
  nodes : List Tree := []
deriving Repr, BEq

namespace Tree

def isBlankText : Tree → Bool
  | text content => Text.isAllBlank content
  | _ => false

end Tree

end AmpTuner.Markup
