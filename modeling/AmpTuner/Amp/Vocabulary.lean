import AmpTuner.Markup.Element

/-!
The vocabulary that the passes share: markers, hosts, and the kinds of head elements.
-/

namespace AmpTuner.Vocabulary

open Markup (Element)

def cdnHost : String := "https://cdn.ampproject.org"

/-! ## Markers -/

def layoutMarker : String := "i-amphtml-layout"

def noBoilerplateMarker : String := "i-amphtml-no-boilerplate"

def sizerTag : String := "i-amphtml-sizer"

def sizerSlot : String := "i-amphtml-svc"

def bindStart : String := "data-amp-bind-"

/-! ## Boilerplate -/

/-- Hides the page until the runtime has run, or for eight seconds. -/
def boilerplateCss : String :=
  "body\x7b-webkit-animation:-amp-start 8s steps(1,end) 0s 1 normal both;"
    ++ "-moz-animation:-amp-start 8s steps(1,end) 0s 1 normal both;"
    ++ "-ms-animation:-amp-start 8s steps(1,end) 0s 1 normal both;"
    ++ "animation:-amp-start 8s steps(1,end) 0s 1 normal both\x7d"
    ++ "@-webkit-keyframes -amp-start\x7bfrom\x7bvisibility:hidden\x7dto\x7b"
    ++ "visibility:visible\x7d\x7d@-moz-keyframes -amp-start\x7bfrom\x7b"
    ++ "visibility:hidden\x7dto\x7bvisibility:visible\x7d\x7d"
    ++ "@-ms-keyframes -amp-start\x7bfrom\x7bvisibility:hidden\x7dto\x7b"
    ++ "visibility:visible\x7d\x7d@-o-keyframes -amp-start\x7bfrom\x7b"
    ++ "visibility:hidden\x7dto\x7bvisibility:visible\x7d\x7d@keyframes -amp-start\x7b"
    ++ "from\x7bvisibility:hidden\x7dto\x7bvisibility:visible\x7d\x7d"

/-- Shows the page where scripts do not run. -/
def noscriptCss : String :=
  "body\x7b-webkit-animation:none;-moz-animation:none;-ms-animation:none;"
    ++ "animation:none\x7d"

def boilerplateAttributes : List String :=
  ["amp-boilerplate", "amp4ads-boilerplate", "amp4email-boilerplate"]

def isBoilerplateStyle (el : Element) : Bool :=
  el.tag == "style" && boilerplateAttributes.any el.hasAttribute

/-! ## Scripts and style sheets -/

/-- Extensions whose script has to run before the first paint. -/
def renderDelayingExtensions : List String :=
  ["amp-dynamic-css-classes", "amp-experiment", "amp-story"]

def isRenderDelaying (extension : String) : Bool := renderDelayingExtensions.contains extension

/-- The extension that a script declares, by the first of three attributes that it has. -/
def extensionName? (el : Element) : Option String :=
  if el.tag == "script" then
    (["custom-element", "custom-template", "host-service"].findSome? el.attribute?).filter
      (!·.isEmpty)
  else none

def isExtensionScript (el : Element) : Bool := (extensionName? el).isSome

/-- An address without query and fragment. -/
def pathOf (url : String) : String :=
  String.ofList (url.toList.takeWhile fun c => c != '?' && c != '#')

/-- The runtime, from the network or a copy elsewhere. -/
def isRuntimeScript (el : Element) : Bool :=
  el.tag == "script" && !isExtensionScript el
    && (el.attribute? "src").any fun src =>
      Text.endsWith "/v0.js" (pathOf src) || Text.endsWith "/v0.mjs" (pathOf src)

def isViewerScript (el : Element) : Bool :=
  el.tag == "script"
    && (el.attribute? "src").any fun src =>
      Text.contains "/v0/amp-viewer-integration-" (pathOf src)

def isModuleScript (el : Element) : Bool := el.attribute? "type" == some "module"

def isRuntimeStyle (el : Element) : Bool := el.tag == "style" && el.hasAttribute "amp-runtime"

def isCustomStyle (el : Element) : Bool := el.tag == "style" && el.hasAttribute "amp-custom"

/-- A link to the style sheet of the runtime. -/
def isRuntimeStylesheet (el : Element) : Bool :=
  el.tag == "link" && (el.tokens "rel").contains "stylesheet"
    && (el.attribute? "href").any fun href => Text.endsWith "/v0.css" (pathOf href)

def extensionSource (host name version : String) (asModule : Bool) : String :=
  Text.dropTrailing '/' host ++ "/v0/" ++ name ++ "-" ++ version ++ (if asModule then ".mjs" else ".js")

def runtimeSource (host : String) : String := Text.dropTrailing '/' host ++ "/v0.js"

end AmpTuner.Vocabulary
