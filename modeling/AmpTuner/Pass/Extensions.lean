import AmpTuner.Pass.Basic
import AmpTuner.Pass.Viewport
import AmpTuner.Amp.Vocabulary
import AmpTuner.Amp.Spec
import AmpTuner.Settings

/-!
Extension scripts: those that the page requires and lacks are added to the head, and those that it
has and nothing refers to are dropped. All of them stand in one block behind the runtime.
-/

namespace AmpTuner.Extensions

open Markup (Element)
open Vocabulary

/-! ## The scripts of the head -/

/-- The scripts of one extension, and whether something refers to it. -/
structure Group where
  name : String
  nodes : List NodeId
  used : Bool
deriving Repr, DecidableEq

/-- Adds a script to the group of its extension; groups stand in the order of first encounter. -/
def addScript (name : String) (node : NodeId) (used : Bool) : List Group → List Group
  | [] => [⟨name, [node], used⟩]
  | g :: rest =>
    if g.name = name then { g with nodes := g.nodes ++ [node], used := g.used || used } :: rest
    else g :: addScript name node used rest

def hasGroup (groups : List Group) (name : String) : Bool := groups.any (·.name == name)

def markUsed (groups : List Group) (name : String) : List Group :=
  groups.map fun g => if g.name = name then { g with used := true } else g

def runtimeScripts (page : Page) : List NodeId :=
  (page.elementChildren page.head).filter (page.isElement · isRuntimeScript)

/-- The extension scripts of the head with their extensions. A runtime script is none of them. -/
def extensionScripts (page : Page) : List (String × NodeId) :=
  (page.elementChildren page.head).filterMap fun id =>
    ((page.element? id).bind extensionName?).map (·, id)

def groupScripts (scripts : List (String × NodeId)) : List Group :=
  scripts.foldl (fun groups s => addScript s.1 s.2 false groups) []

/-! ## What is required -/

/-- The vendors that an access configuration names, which is one provider or a list of them. -/
def accessVendors (config : Json.Value) : List String :=
  (config.array?.getD [config]).filterMap fun provider => (provider.get? "vendor").bind (·.string?)

def usesGoogleService (config : Json.Value) : Bool :=
  (((config.get? "services").bind (·.array?)).getD []).any fun service =>
    (service.get? "serviceId").bind (·.string?) == some "subscribe.google.com"

/-- The extensions that a configuration script of the head asks for, besides the one it configures. -/
def configuredBy (id : String) (config : Json.Value) : List String :=
  if id == "amp-access" then (accessVendors config).map ("amp-access-" ++ ·)
  else if usesGoogleService config then ["amp-subscriptions-google"]
  else []

/-- The extension that a configuration script configures. -/
def configures? (el : Element) : Option String :=
  if el.tag == "script" && el.attribute? "type" == some "application/json" then
    (el.attribute? "id").filter fun id => id == "amp-access" || id == "amp-subscriptions"
  else none

/-- The extensions required by one child of the head as a configuration, and what is wrong with it. -/
def configuration (page : Page) (node : NodeId) : List String × List Issue :=
  match (page.element? node).bind configures? with
  | none => ([], [])
  | some id =>
    match Json.parse (Text.trim (page.textContent node)) with
    | .ok config => (id :: configuredBy id config, [])
    | .error e => ([id], [.invalidJson (id ++ " configuration") e.message])

/-- Attributes that imply an extension without a rule in the spec. -/
def impliedByAttribute (name : String) : List String :=
  if name == "lightbox" then ["amp-lightbox-gallery"] else []

/-- An attribute whose value is bound to an expression. -/
def isBound (name : String) : Bool :=
  (Text.startsWith "[" name && Text.endsWith "]" name) || Text.startsWith bindStart name

/-- The template engine that an element names. -/
def templateOf? (el : Element) : Option String :=
  let named := match el.tag with
    | "template" => el.attribute? "type"
    | "script" => el.attribute? "template"
    | _ => none
  named.filter (Text.startsWith "amp-")

/-- The extensions that an element requires: by its tag, its template and its attributes. -/
def requiredBy (spec : Spec) (el : Element) : List String :=
  spec.extensionsForTag el.tag
    ++ (templateOf? el).toList
    ++ (if el.tag == "input" && el.hasAttribute "mask" then ["amp-inputmask"] else [])
    ++ el.attributes.flatMap fun a =>
      impliedByAttribute a.name ++ spec.extensionsForAttribute el.tag a.name
        ++ if isBound a.name then ["amp-bind"] else []

/-- Appends the names that are not in the list yet. -/
def addNames (known : List String) (names : List String) : List String :=
  names.foldl (fun known name => if known.contains name then known else known ++ [name]) known

/-! ## Bound attributes -/

def shorthand : String := "bind-"

/-- Spells out the shorthand of bound attributes. -/
def spellOut (el : Element) : Element :=
  (el.attributes.map (·.name)).foldl (fun el name =>
    match Text.afterStart? shorthand name with
    | none => el
    | some rest => (el.rename? name (bindStart ++ rest)).getD el) el

def spellOutAll (page : Page) : Page :=
  (page.descendants page.root).foldl (fun page id => page.mapElement id spellOut) page

/-! ## Adding and dropping -/

/-- Extensions that stay without being referred to, some only along with a companion. -/
def protectedExtensions : List (String × Option String) := [
  ("amp-dynamic-css-classes", none),
  ("amp-viewer-assistance", none),
  ("amp-access-laterpay", some "amp-access"),
  ("amp-access-poool", some "amp-access"),
  ("amp-access-scroll", some "amp-access"),
  ("amp-subscriptions-google", some "amp-subscriptions")]

/-- The extensions that stay on their own account. -/
def keptAlone (groups : List Group) : List String :=
  (groups.filter fun g => g.used || protectedExtensions.any (· == (g.name, none))).map (·.name)

def isNeeded (kept : List String) (g : Group) : Bool :=
  g.used || protectedExtensions.any fun p => p.1 == g.name && p.2.all kept.contains

def dropUnused (groups : List Group) : List Group := groups.filter (isNeeded (keptAlone groups))

/-- Adds a script for an extension in the spec, in the version that is set or the latest. -/
def createScript (s : Settings.Extensions) (page : Page) (e : Extension) : Page × NodeId :=
  let version := ((s.versions.find? (·.1 == e.name)).map (·.2)).getD e.latest
  page.createElement "script" [("async", ""), (e.kind.attributeName, e.name),
    ("src", extensionSource cdnHost e.name version false)]

/-- Sees to it that a required extension has a script, if one may be added. -/
def require (s : Settings.Extensions) (spec : Spec) (state : Page × List Group) (name : String) :
    Page × List Group :=
  let (page, groups) := state
  if hasGroup groups name then (page, markUsed groups name)
  else if !s.addMissing || s.ignored.contains name then (page, groups)
  else
    match spec.extension? name with
    | none => (page, groups)
    | some e =>
      let (page, node) := createScript s page e
      (page, addScript name node true groups)

/-- The child of the head behind which the scripts go: the viewport, the character set, or the first
child. -/
def anchor? (page : Page) : Option NodeId :=
  let declarations := (page.elementChildren page.head).filter (page.isTag · "meta")
  (declarations.find? fun id => page.attribute? id "name" == some "viewport")
    |>.or (declarations.find? (page.hasAttribute · "charset"))
    |>.or (page.children page.head).head?

/-- Puts the nodes into the head one behind the other, the first behind the anchor. -/
def insertBlock (page : Page) (anchor : Option NodeId) : List NodeId → Page
  | [] => page
  | node :: rest =>
    let page := match anchor with
      | some anchor => page.insertChildAfter page.head node anchor
      | none => page.prependChild page.head node
    insertBlock page (some node) rest

/-- The names that the elements below the root require, behind those already required, and the
groups with those marked that a custom element bears the name of. -/
def requirements (spec : Spec) (page : Page) (required : List String) (groups : List Group) :
    List String × List Group :=
  ((page.descendants page.root).filterMap page.element?).foldl (fun (required, groups) el =>
    (addNames required (requiredBy spec el),
      if Markup.isComponent el.tag then markUsed groups el.tag else groups)) (required, groups)

def run (s : Settings.Extensions) (spec : Spec) (page : Page) : Work :=
  let runtime := runtimeScripts page
  let scripts := extensionScripts page
  let page := page.detachAll (runtime ++ scripts.map (·.2))
  let page := if s.renameBind then spellOutAll page else page
  let configured := (page.elementChildren page.head).map (configuration page)
  let (required, groups) :=
    requirements spec page (configured.flatMap (·.1)) (groupScripts scripts)
  let (page, groups) := required.foldl (require s spec) (page, groups)
  let groups := if s.removeUnused then dropUnused groups else groups
  let page := insertBlock page (anchor? page) (runtime ++ groups.flatMap (·.nodes))
  ⟨page, configured.flatMap (·.2)⟩

end AmpTuner.Extensions
