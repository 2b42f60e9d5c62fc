import AmpTuner.Json.Decode
import AmpTuner.Text.Affix

/-!
What the validator says about tags, attributes and extensions: which extensions a tag or an attribute
requires, and in which versions an extension is published.
-/

namespace AmpTuner

/-- How a script declares its extension. -/
inductive ExtensionKind where
  | customElement
  | customTemplate
  | hostService
deriving Repr, DecidableEq

namespace ExtensionKind

def names : List String := ["custom_element", "custom_template", "host_service"]

def name : ExtensionKind → String
  | customElement => "custom_element"
  | customTemplate => "custom_template"
  | hostService => "host_service"

def ofName : String → ExtensionKind
  | "custom_template" => customTemplate
  | "host_service" => hostService
  | _ => customElement

/-- The attribute of the script that names the extension. -/
def attributeName : ExtensionKind → String
  | customElement => "custom-element"
  | customTemplate => "custom-template"
  | hostService => "host-service"

end ExtensionKind

structure Extension where
  name : String
  versions : List String := []
  latestVersion : Option String := none
  kind : ExtensionKind := .customElement
deriving Repr, DecidableEq

namespace Extension

/-- The parts of a version that are numbers. -/
def versionParts (version : String) : List Nat :=
  (Text.splitChars (· == '.') version.toList).filterMap (Text.word? 10)

/-- The greatest version, and of equal ones the last. -/
def greatest? (versions : List String) : Option String :=
  versions.foldl (fun best v =>
    match best with
    | none => some v
    | some b => if versionParts v < versionParts b then some b else some v) none

/-- The version to import: the one marked as latest, else the greatest, else `0.1`. -/
def latest (e : Extension) : String :=
  match e.latestVersion with
  | some v => v
  | none => (greatest? (e.versions.filter (· != "latest"))).getD "0.1"

end Extension

structure AttributeRule where
  name : String
  requires : List String := []
deriving Repr, DecidableEq

structure TagRule where
  tag : String
  title : Option String := none
  requires : List String := []
  attributes : List AttributeRule := []
  extension : Option Extension := none
deriving Repr, DecidableEq

structure Spec where
  tags : List TagRule := []
  attributeLists : List (String × List AttributeRule) := []
deriving Repr, DecidableEq

namespace Spec

/-! ## Questions -/

/-- The list of attributes that every element may have. -/
def globalList : String := "$GLOBAL_ATTRS"

/-- The rules for a tag, which is given in lower case; a tag may have several. -/
def tagsNamed (s : Spec) (tag : String) : List TagRule := s.tags.filter (·.tag.toLower == tag)

def extension? (s : Spec) (name : String) : Option Extension :=
  s.tags.findSome? fun rule => rule.extension.filter (·.name == name)

def attributeList (s : Spec) (name : String) : List AttributeRule :=
  ((s.attributeLists.find? (·.1 == name)).map (·.2)).getD []

/-- The names in order, each at its first place only. -/
def distinct (names : List String) : List String :=
  names.foldl (fun found name => if found.contains name then found else found ++ [name]) []

def extensionsForTag (s : Spec) (tag : String) : List String :=
  distinct ((s.tagsNamed tag).flatMap (·.requires))

/-- The extensions that an attribute requires on a tag, by the rules of the tag and the global list. -/
def extensionsForAttribute (s : Spec) (tag name : String) : List String :=
  let rules := (s.tagsNamed tag).flatMap (·.attributes) ++ s.attributeList globalList
  distinct ((rules.filter (·.name == name)).flatMap (·.requires))

/-! ## Reading -/

open Json (Record Decoder)

def extensionRecord : Record Extension where
  title := "struct ExtensionSpec"
  closed := false
  blank := { name := "" }
  fields := [
    .mandatory "name" .string fun e name => { e with name },
    .optional "versions" (.list .string) fun e versions => { e with versions },
    .optional "latest_version" (.optional .string) fun e latestVersion => { e with latestVersion },
    .optional "extension_type" ((Decoder.choice ExtensionKind.names).map .ofName) fun e kind =>
      { e with kind }]

def attributeRecord : Record AttributeRule where
  title := "struct AttrSpec"
  closed := false
  blank := { name := "" }
  fields := [
    .mandatory "name" .string fun a name => { a with name },
    .optional "requires_extension" (.list .string) fun a requires => { a with requires }]

def tagRecord : Record TagRule where
  title := "struct TagSpec"
  closed := false
  blank := { tag := "" }
  fields := [
    .mandatory "tag_name" .string fun t tag => { t with tag },
    .optional "spec_name" (.optional .string) fun t title => { t with title },
    .optional "requires_extension" (.list .string) fun t requires => { t with requires },
    .optional "attrs" (.list attributeRecord.decoder) fun t attributes => { t with attributes },
    .optional "extension_spec" (.optional extensionRecord.decoder) fun t extension =>
      { t with extension }]

def record : Record Spec where
  title := "struct RawSpec"
  closed := false
  blank := {}
  fields := [
    .optional "tags" (.list tagRecord.decoder) fun s tags => { s with tags },
    .optional "attr_lists" (.dictionary (.list attributeRecord.decoder)) fun s attributeLists =>
      { s with attributeLists }]

def ofJson (source : String) : Except Json.Error Spec := Json.decode record.decoder source

end Spec

/-! ## Writing -/

open Json (Value)

def AttributeRule.toValue (a : AttributeRule) : Value :=
  .object (("name", .string a.name)
    :: Value.listField "requires_extension" (a.requires.map .string))

def Extension.toValue (e : Extension) : Value :=
  .object ([("name", .string e.name), ("versions", .ofList .string e.versions)]
    ++ Value.optionalField "latest_version" (e.latestVersion.map .string)
    ++ [("extension_type", .string e.kind.name)])

def TagRule.toValue (t : TagRule) : Value :=
  .object ([("tag_name", .string t.tag)]
    ++ Value.optionalField "spec_name" (t.title.map .string)
    ++ Value.listField "requires_extension" (t.requires.map .string)
    ++ Value.listField "attrs" (t.attributes.map AttributeRule.toValue)
    ++ Value.optionalField "extension_spec" (t.extension.map Extension.toValue))

end AmpTuner
