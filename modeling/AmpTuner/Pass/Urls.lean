import AmpTuner.Pass.Basic
import AmpTuner.Amp.Vocabulary
import AmpTuner.Settings

/-!
Addresses of the runtime: those on the network are pointed at a channel, a release or another host,
and scripts may get a twin for browsers that load modules.
-/

namespace AmpTuner.Urls

open Vocabulary

/-- Whether the settings ask for two releases at once. -/
def isContradictory (s : Settings.Urls) : Bool := s.longTerm && s.release.isSome

/-- What takes the place of the network's host. -/
def base (s : Settings.Urls) : String :=
  let host := Text.dropTrailing '/' (s.host.getD cdnHost)
  match s.release with
  | some release => host ++ "/rtv/" ++ release
  | none => if s.longTerm then host ++ "/lts" else host

/-- An absolute address, or a path from the root of the site. -/
def isValidHost (host : String) : Bool :=
  Text.startsWith "https://" host || Text.startsWith "http://" host
    || (Text.startsWith "/" host && !Text.startsWith "//" host)

/-- The address with its host replaced, if it is one on the network that names neither a channel nor
a release. -/
def relocate? (url base : String) : Option String :=
  match Text.afterStart? cdnHost url with
  | none => none
  | some path =>
    if !Text.startsWith "/" path || Text.startsWith "/lts/" path || Text.startsWith "/rtv/" path then
      none
    else some (base ++ path)

def isSelfHosted (s : Settings.Urls) : Bool :=
  s.host.any fun host => Text.dropTrailing '/' host != cdnHost

/-- A script for browsers without modules, and its twin for those that load them. -/
def addTwin (page : Page) (script : NodeId) : Page :=
  match (page.attribute? script "src").bind (Text.beforeEnd? ".js") with
  | none => page
  | some stem =>
    let (page, twin) := page.copy script
    let page := page.mapElement twin fun el =>
      (((el.set "src" (stem ++ ".mjs")).set "type" "module").set "crossorigin" "anonymous").erase
        "nomodule"
    (page.setAttribute script "nomodule" "").insertChildAfter page.head twin script

/-- The attribute that holds the address of a head element. -/
def addressName? (tag : String) : Option String :=
  match tag with
  | "script" => some "src"
  | "link" => some "href"
  | _ => none

/-- A script that is no module and has no module twin. -/
def isClassicScript (el : Markup.Element) : Bool :=
  el.tag == "script" && !isModuleScript el && !el.hasAttribute "nomodule"

def relocateChild (s : Settings.Urls) (page : Page) (child : NodeId) : Page :=
  match page.element? child with
  | none => page
  | some el =>
    match addressName? el.tag with
    | none => page
    | some name =>
      match (el.attribute? name).bind (relocate? · (base s)) with
      | none => page
      | some url =>
        let page := page.setAttribute child name url
        if s.modules && isClassicScript el then addTwin page child else page

def isPreconnect (el : Markup.Element) : Bool :=
  el.tag == "link" && (el.tokens "rel").contains "preconnect" && el.attribute? "href" == some cdnHost

/-- Makes sure that the page connects to the network early. -/
def addPreconnect (page : Page) : Page :=
  if (page.elementChildren page.head).any (page.isElement · isPreconnect) then page
  else
    let (page, link) :=
      page.createElement "link" [("rel", "preconnect"), ("href", cdnHost), ("crossorigin", "")]
    page.appendChild page.head link

/-- Relocates the addresses of the head, unless the host is invalid. The settings must not be contradictory. -/
def run (s : Settings.Urls) (page : Page) : Work :=
  match s.host.filter (!isValidHost ·) with
  | some host => ⟨page, [.invalidHost host]⟩
  | none =>
    let page := (page.elementChildren page.head).foldl (relocateChild s) page
    ⟨if isSelfHosted s then page else addPreconnect page, []⟩

end AmpTuner.Urls
