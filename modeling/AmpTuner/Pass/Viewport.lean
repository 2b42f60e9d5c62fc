import AmpTuner.Pass.Basic

/-!
The viewport declaration: several are merged into the first, and a page without any gets the default.
-/

namespace AmpTuner.Viewport

/-- Gives a key a new value in its place, or appends it. -/
def putProperty (key value : String) : List (String × String) → List (String × String)
  | [] => [(key, value)]
  | p :: rest => if p.1 = key then (key, value) :: rest else p :: putProperty key value rest

/-- Reads one part of a declaration. Keys are in lower case; a part without an equals sign is a key
with the empty value. -/
def property (part : String) : String × String :=
  match Text.splitOnce '=' part with
  | (key, none) => (key.toLower, "")
  | (key, some value) => ((Text.trim key).toLower, Text.trim value)

/-- The properties of a declaration that are not blank. -/
def properties (content : String) : List (String × String) :=
  (((Text.split (· == ',') content).map Text.trim).filter (!·.isEmpty)).map property

def writeProperty (p : String × String) : String :=
  if p.2.isEmpty then p.1 else p.1 ++ "=" ++ p.2

/-- Merges declarations. Later values win; a key keeps the place of its first appearance. -/
def merge (contents : List String) : String :=
  let merged := (contents.flatMap properties).foldl (fun found p => putProperty p.1 p.2 found) []
  ",".intercalate (merged.map writeProperty)

def isViewport (el : Markup.Element) : Bool :=
  el.tag == "meta" && (el.attribute? "name").any (Text.sameIgnoringCase "viewport")

def isCharset (el : Markup.Element) : Bool := el.tag == "meta" && el.hasAttribute "charset"

/-- Inserts the default behind the declaration of the character set, or as the first child. -/
def insertDefault (page : Page) : Page :=
  let charset := (page.elementChildren page.head).find? (page.isElement · isCharset)
  let (page, viewport) :=
    page.createElement "meta" [("name", "viewport"), ("content", "width=device-width")]
  match charset with
  | some charset => page.insertChildAfter page.head viewport charset
  | none => page.prependChild page.head viewport

def run (page : Page) : Page :=
  match page.elementsWhere page.head isViewport with
  | [] => insertDefault page
  | [_] => page
  | first :: more =>
    let contents := (first :: more).map fun id => (page.attribute? id "content").getD ""
    (page.setAttribute first "content" (merge contents)).detachAll more

end AmpTuner.Viewport
