import AmpTuner.Markup.Element
import AmpTuner.Json.Decode
import AmpTuner.Json.Writer

/-!
Documents as JSON. A node is an object whose field `type` says what the others mean, or an array that
gives the type and then the fields in order. The fields of a node may stand before its type; they are
held as values until the node is complete, and a fault in them floats.
-/

namespace AmpTuner.Markup

open Json (Value Cause Scan Decoder)

/-! ## Writing -/

def Attribute.toValue (a : Attribute) : Value :=
  .object [("name", .string a.name), ("value", .string a.value)]

mutual

def Tree.toValue : Tree → Value
  | .element el children =>
    .object ([("type", .string "element"), ("tag", .string el.tag)]
      ++ Value.listField "attributes" (el.attributes.map Attribute.toValue)
      ++ Value.listField "children" (Tree.toValues children))
  | .text content => .object [("type", .string "text"), ("text", .string content)]
  | .comment content => .object [("type", .string "comment"), ("text", .string content)]

def Tree.toValues : List Tree → List Value
  | [] => []
  | tree :: rest => tree.toValue :: Tree.toValues rest

end

def Document.toValue (d : Document) : Value :=
  .object (Value.optionalField "doctype" (d.doctype.map .string)
    ++ [("children", .array (Tree.toValues d.nodes))])

def Document.toJson (d : Document) : String := d.toValue.pretty

/-! ## Fields held as values -/

def wrongType (v : Value) (wanted : String) : Cause := .wrongType (.ofValue v) wanted

def stringOf (v : Value) : Except Cause String :=
  match v with
  | .string s => .ok s
  | v => .error (wrongType v "a string")

def listOf (v : Value) : Except Cause (List Value) :=
  match v with
  | .array items => .ok items
  | v => .error (wrongType v "a sequence")

/-- Refuses items behind the last field of an array. -/
def noMore (expected : Nat) (more : List Value) : Except Cause Unit :=
  if more.isEmpty then .ok ()
  else
    .error (.wrongLength (expected + more.length)
      (toString expected ++ (if expected = 1 then " element" else " elements") ++ " in sequence"))

/-- Fills a field that must not be filled already. -/
def fill {α : Type} (name : String) (slot : Option α) (given : Except Cause α) :
    Except Cause (Option α) :=
  if slot.isSome then .error (.duplicateField name) else given.map some

namespace Attribute

def ofEntries (name value : Option String) : List (String × Value) → Except Cause Attribute
  | [] =>
    match name with
    | none => .error (.missingField "name")
    | some name => .ok ⟨name, value.getD ""⟩
  | (key, v) :: rest =>
    if key = "name" then (fill key name (stringOf v)).bind (ofEntries · value rest)
    else if key = "value" then (fill key value (stringOf v)).bind (ofEntries name · rest)
    else ofEntries name value rest

def ofValue (v : Value) : Except Cause Attribute :=
  match v with
  | .object entries => ofEntries none none entries
  | .array [] => .error (.wrongLength 0 "struct Attribute with 2 elements")
  | .array [name] => (stringOf name).map (⟨·, ""⟩)
  | .array (name :: value :: more) =>
    (stringOf name).bind fun name => (stringOf value).bind fun value =>
      (noMore 2 more).map fun _ => ⟨name, value⟩
  | v => .error (wrongType v "struct Attribute")

def listOfValue (v : Value) : Except Cause (List Attribute) := (listOf v).bind (·.mapM ofValue)

end Attribute

/-! ## Nodes held as values -/

inductive NodeType where
  | element
  | text
  | comment
deriving Repr, DecidableEq

namespace NodeType

def names : List String := ["element", "text", "comment"]

def ofName? : String → Option NodeType
  | "element" => some element
  | "text" => some text
  | "comment" => some comment
  | _ => none

/-- A type is named, or given by its index. -/
def ofValue (v : Value) : Except Cause NodeType :=
  match v with
  | .string s =>
    match ofName? s with
    | some t => .ok t
    | none => .error (.unknownVariant s names)
  | .number (.natural 0) => .ok element
  | .number (.natural 1) => .ok text
  | .number (.natural 2) => .ok comment
  | .number (.natural n) =>
    .error (.wrongValue (.number (.natural n)) "variant index 0 <= i < 3")
  | v => .error (wrongType v "variant identifier")

/-- The type among the entries of a node. -/
def ofEntries (found : Option NodeType) : List (String × Value) → Except Cause NodeType
  | [] =>
    match found with
    | none => .error (.missingField "type")
    | some t => .ok t
  | (key, v) :: rest =>
    if key = "type" then (fill key found (ofValue v)).bind (ofEntries · rest)
    else ofEntries found rest

end NodeType

/-- The text of a text or comment from its entries. -/
def textOfEntries (found : Option String) : List (String × Value) → Except Cause String
  | [] =>
    match found with
    | none => .error (.missingField "text")
    | some s => .ok s
  | (key, v) :: rest =>
    if key = "text" then (fill key found (stringOf v)).bind (textOfEntries · rest)
    else textOfEntries found rest

/-- The text of a text or comment from its fields in order; `title` names what they make. -/
def textOfItems (title : String) : List Value → Except Cause String
  | [] => .error (.wrongLength 0 (title ++ " with 1 element"))
  | text :: more => (stringOf text).bind fun s => (noMore 1 more).map fun _ => s

/-- What is known of an element while its entries are read. -/
structure ElementDraft where
  tag : Option String := none
  attributes : Option (List Attribute) := none
  children : Option (List Tree) := none

def ElementDraft.finish (d : ElementDraft) : Except Cause Tree :=
  match d.tag with
  | none => .error (.missingField "tag")
  | some tag => .ok (.element ⟨tag, d.attributes.getD []⟩ (d.children.getD []))

mutual

/-- A node inside another one. -/
def Tree.ofValue : Value → Except Cause Tree
  | .object entries =>
    (NodeType.ofEntries none entries).bind fun type => Tree.ofEntries type entries
  | .array [] => .error (.missingField "type")
  | .array (type :: fields) =>
    (NodeType.ofValue type).bind fun type => Tree.ofFields type fields
  | v => .error (wrongType v "internally tagged enum NodeTree")

def Tree.ofValues : List Value → Except Cause (List Tree)
  | [] => .ok []
  | v :: rest => (Tree.ofValue v).bind fun tree => (Tree.ofValues rest).map (tree :: ·)

def Tree.childrenOfValue : Value → Except Cause (List Tree)
  | .array items => Tree.ofValues items
  | v => .error (wrongType v "a sequence")

def Tree.ofEntries (type : NodeType) (entries : List (String × Value)) : Except Cause Tree :=
  match type with
  | .element => (Tree.draftOfEntries {} entries).bind ElementDraft.finish
  | .text => (textOfEntries none entries).map .text
  | .comment => (textOfEntries none entries).map .comment

def Tree.draftOfEntries (d : ElementDraft) : List (String × Value) → Except Cause ElementDraft
  | [] => .ok d
  | (key, v) :: rest =>
    if key = "tag" then
      (fill key d.tag (stringOf v)).bind fun tag => Tree.draftOfEntries { d with tag } rest
    else if key = "attributes" then
      (fill key d.attributes (Attribute.listOfValue v)).bind fun attributes =>
        Tree.draftOfEntries { d with attributes } rest
    else if key = "children" then
      (fill key d.children (Tree.childrenOfValue v)).bind fun children =>
        Tree.draftOfEntries { d with children } rest
    else Tree.draftOfEntries d rest

/-- The fields of a node in order. -/
def Tree.ofFields (type : NodeType) (fields : List Value) : Except Cause Tree :=
  match type, fields with
  | .text, fields => (textOfItems "struct variant NodeTree::Text" fields).map .text
  | .comment, fields => (textOfItems "struct variant NodeTree::Comment" fields).map .comment
  | .element, [] => .error (.wrongLength 0 "struct variant NodeTree::Element with 3 elements")
  | .element, [tag] => (stringOf tag).map fun tag => .element ⟨tag, []⟩ []
  | .element, [tag, attributes] =>
    (stringOf tag).bind fun tag => (Attribute.listOfValue attributes).map fun attributes =>
      .element ⟨tag, attributes⟩ []
  | .element, tag :: attributes :: children :: more =>
    (stringOf tag).bind fun tag => (Attribute.listOfValue attributes).bind fun attributes =>
      (Tree.childrenOfValue children).bind fun children =>
        (noMore 3 more).map fun _ => .element ⟨tag, attributes⟩ children

end

/-! ## Reading -/

def typeDecoder : Decoder NodeType :=
  (Decoder.variant NodeType.names).map fun name => (NodeType.ofName? name).getD .comment

/-- Reads an entry of a node: its type at once, anything else as a value. -/
def readEntry (depth : Nat) (state : Option NodeType × List (String × Value)) (key : String)
    (rest : List Char) : Scan (Option NodeType × List (String × Value)) :=
  if key = "type" then
    if state.1.isSome then .error (.floating (.duplicateField key) rest)
    else
      (Json.colon rest).bind fun rest =>
        (typeDecoder depth rest).map fun (type, rest) => ((some type, state.2), rest)
  else
    (Json.colon rest).bind fun rest =>
      (Json.value depth rest).map fun (v, rest) => ((state.1, state.2 ++ [(key, v)]), rest)

/-- The type of a node and its other entries or items. -/
def nodeParts : Decoder (NodeType × Value) := fun depth input =>
  match Json.skipBlank input with
  | '{' :: rest => Decoder.inside depth ('{' :: rest) fun depth =>
      Json.closeObject <|
        (Json.entries (readEntry depth) true (rest.length + 1) (none, []) rest).bind
          fun (state, rest) =>
            match state.1 with
            | none => .error (.floating (.missingField "type") rest)
            | some type => .ok ((type, .object state.2), rest)
  | '[' :: rest => Decoder.inside depth ('[' :: rest) fun depth =>
      Json.closeList <|
        (Json.nextItem true rest).bind fun (present, rest) =>
          if !present then .error (.floating (.missingField "type") rest)
          else
            (typeDecoder depth rest).bind fun (type, rest) =>
              (Json.items (Json.value depth) false (rest.length + 1) rest).map fun (items, rest) =>
                ((type, .array items), rest)
  | rest => .error (Json.mismatch "internally tagged enum NodeTree" rest)

def Tree.decoder : Decoder Tree := fun depth input =>
  (nodeParts depth input).bind fun ((type, content), rest) =>
    let tree := match content with
      | .object entries => Tree.ofEntries type entries
      | .array items => Tree.ofFields type items
      | v => .error (wrongType v "a map")
    match tree with
    | .ok tree => .ok (tree, rest)
    | .error cause => .error (.floating cause rest)

def Document.record : Json.Record Document where
  title := "struct DocumentTree"
  closed := false
  blank := {}
  fields := [
    .optional "doctype" (.optional .string) fun d doctype => { d with doctype },
    .optional "children" (.list Tree.decoder) fun d nodes => { d with nodes }]

def Document.ofJson (source : String) : Except Json.Error Document :=
  Json.decode Document.record.decoder source

/-- One node with its subtree. -/
def Tree.ofJson (source : String) : Except Json.Error Tree := Json.decode Tree.decoder source

end AmpTuner.Markup
