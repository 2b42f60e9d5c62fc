import AmpTuner.Pass.Basic
import AmpTuner.Pass.Boilerplate
import AmpTuner.Amp.Layout
import AmpTuner.Css.Condition
import AmpTuner.Json.Decode
import AmpTuner.Settings

/-!
Layout rendering: every custom element gets the classes, styles and sizer that the runtime would give
it at load. When all of them could be rendered and nothing else delays the first paint, the
boilerplate goes.
-/

namespace AmpTuner.Rendering

open Markup (Element)
open Vocabulary
open Css (Length Rules Unconvertible)

/-! ## Attributes that become rules -/

/-- Puts rules for an element into the custom stylesheet in place of an attribute, if the budget has
room for them. Tells whether it had. -/
def storeRules (w : Work) (id : NodeId) (tag name : String) (rules : Rules) : Work × Bool :=
  let (page, identifier) := w.page.elementId id
  let rules := rules.applyId identifier
  match page.budget.allocate? rules.byteCount with
  | none =>
    let issue := .budgetExceeded tag name rules.byteCount page.budget.remaining
    ({ w with page }.note issue, false)
  | some budget =>
    let page := ({ page with budget }.appendCustomCss rules.toCss).removeAttribute id name
    ({ w with page }, true)

/-- Tells whether the attribute was converted. -/
def convert (w : Work) (id : NodeId) (tag name : String) (rules : Except Unconvertible Rules) :
    Work × Bool :=
  match rules with
  | .ok rules => storeRules w id tag name rules
  | .error e => ((w.note (.invalidAttribute tag name e.message)).note (.notConverted tag name), false)

/-- What became of the attributes of an element. -/
structure Conversion where
  work : Work
  converted : List String := []
  failed : Bool := false

/-- Converts an attribute that the element has. -/
def convertNext (id : NodeId) (tag : String) (c : Conversion)
    (a : String × (String → Except Unconvertible Rules)) : Conversion :=
  match c.work.page.attribute? id a.1 with
  | none => c
  | some value =>
    let (work, done) := convert c.work id tag a.1 (a.2 value)
    { work, converted := if done then c.converted ++ [a.1] else c.converted,
      failed := c.failed || !done }

/-- The attributes that delay rendering: sizes only beside several sources, heights only in
responsive layout. -/
def blockingAttributes (el : Element) (layout : Layout) :
    List (String × (String → Except Unconvertible Rules)) :=
  (if (el.attribute? "srcset").any (!Text.isAllBlank ·) then [("sizes", Css.sizesRules)] else [])
    ++ (if layout == .responsive then [("heights", Css.heightsRules)] else [])
    ++ [("media", Css.mediaRules)]

/-- Converts the attributes that delay rendering. An identifier that was generated and is not used
goes again. -/
def convertAll (w : Work) (id : NodeId) (el : Element) (layout : Layout) : Conversion :=
  let c := (blockingAttributes el layout).foldl (convertNext id el.tag) { work := w }
  if !el.hasAttribute "id" && c.converted.isEmpty then
    { c with work := c.work.edit (·.removeAttribute id "id") }
  else c

/-! ## Applying a layout -/

def lengthCss (l : Length) : String := if l.isAuto then "auto" else l.toCss

def styles (layout : Layout) (width height : Length) : String :=
  match layout with
  | .fixed => "width:" ++ lengthCss width ++ ";height:" ++ lengthCss height ++ ";"
  | .fixedHeight => "height:" ++ lengthCss height ++ ";"
  | .fluid => "width:100%;height:0;"
  | .flexItem =>
    (if width.isDefined then "width:" ++ lengthCss width ++ ";" else "")
      ++ (if height.isDefined then "height:" ++ lengthCss height ++ ";" else "")
  | _ => ""

def sizeDefinedClass : String := "i-amphtml-layout-size-defined"

def awaitingSizeClass : String := "i-amphtml-layout-awaiting-size"

/-- The element with the classes, styles and markers of its layout. -/
def rendered (layout : Layout) (width height : Length) (el : Element) : Element :=
  let el := el.addClass layout.className
  let el := if layout.isSizeDefined then el.addClass sizeDefinedClass else el
  let el := if layout == .fluid then el.addClass awaitingSizeClass else el
  let added := styles layout width height
  let el :=
    if added.isEmpty then el else el.set "style" (added ++ (el.attribute? "style").getD "")
  let el := if layout == .nodisplay then el.set "hidden" "hidden" else el
  el.set layoutMarker layout.keyword

/-- Whether the two dimensions give an aspect ratio. -/
def hasRatio (width height : Length) : Bool :=
  width.isNumeric && height.isNumeric && width.numeral != 0 && height.numeral != 0
    && width.unit == height.unit

/-- An empty picture of the given size, as an address. -/
def pictureSource (width height : Length) : String :=
  "data:image/svg+xml;charset=utf-8,<svg height=\"" ++ Css.number height.numeral ++ "\" width=\""
    ++ Css.number width.numeral ++ "\" xmlns=\"http://www.w3.org/2000/svg\" version=\"1.1\"/>"

/-- Creates the node that holds the space of the element open, where the layout needs one. -/
def createSizer (page : Page) (layout : Layout) (width height : Length) (heightsConverted : Bool) :
    Page × Option NodeId :=
  if !hasRatio width height then (page, none)
  else
    match layout with
    | .responsive =>
      let style :=
        if heightsConverted then "display:block"
        else
          "display:block;padding-top:"
            ++ Css.percentage (height.numeral / width.numeral * 100) ++ "%"
      let (page, sizer) := page.createElement sizerTag [("slot", sizerSlot), ("style", style)]
      (page, some sizer)
    | .intrinsic =>
      let (page, sizer) :=
        page.createElement sizerTag [("class", "i-amphtml-sizer"), ("slot", sizerSlot)]
      let (page, picture) := page.createElement "img" [("alt", ""), ("aria-hidden", "true"),
        ("class", "i-amphtml-intrinsic-sizer"), ("role", "presentation"),
        ("src", pictureSource width height)]
      (page.appendChild sizer picture, some sizer)
    | _ => (page, none)

/-- Puts a rendered copy in place of the element, with its children behind the sizer. -/
def applyLayout (page : Page) (id : NodeId) (layout : Layout) (width height : Length)
    (heightsConverted : Bool) : Page :=
  let (page, clone) := page.copy id
  let page := (page.mapElement clone (rendered layout width height)).moveChildren id clone
  let (page, sizer) := createSizer page layout width height heightsConverted
  let page := match sizer with
    | some sizer => page.prependChild clone sizer
    | none => page
  page.replace id clone

/-! ## Rendering one element -/

structure Plan where
  layout : Layout
  width : Length
  height : Length

/-- The layout and dimensions of an element, or why it cannot be rendered. -/
def plan (el : Element) : Except Issue Plan :=
  let authored := Text.trim ((el.attribute? "layout").getD "")
  let named := Layout.parse? authored
  let width := Length.parse (el.attribute? "width") true false
  let height := Length.parse (el.attribute? "height") true (named == some .fluid)
  if !width.isValid then .error (.invalidWidth el.tag ((el.attribute? "width").getD ""))
  else if !height.isValid then .error (.invalidHeight el.tag ((el.attribute? "height").getD ""))
  else
    let (width, height) := Layout.withDefaults el.tag named width height
    let layout :=
      named.getD (.infer width height (el.hasAttribute "sizes" || el.hasAttribute "heights"))
    if !Layout.isSupported authored then .error (.unsupportedLayout el.tag authored)
    else if !layout.accepts width height then
      .error (.missingDimensions el.tag layout.keyword)
    else .ok ⟨layout, width, height⟩

/-- Renders an element. Tells whether it lets the boilerplate go. -/
def renderElement (w : Work) (id : NodeId) (el : Element) : Work × Bool :=
  match plan el with
  | .error issue => (w.note issue, false)
  | .ok p =>
    let c := convertAll w id el p.layout
    (c.work.edit (applyLayout · id p.layout p.width p.height (c.converted.contains "heights")),
      !c.failed)

/-! ## Rendering the page -/

/-- The configuration of an experiment: its only element, if that is a script with data. -/
def experimentData? (page : Page) (id : NodeId) : Option String :=
  match page.elementChildren id with
  | [script] =>
    if page.isTag script "script" && page.attribute? script "type" == some "application/json" then
      some (Text.trim (page.textContent script))
    else none
  | _ => none

/-- Whether an experiment has a configuration that is not empty. -/
def isExperimentUsed (w : Work) (id : NodeId) : Work × Bool :=
  match experimentData? w.page id with
  | none => (w, false)
  | some text =>
    match Json.parse text with
    | .ok (.object entries) => (w, !entries.isEmpty)
    | .ok _ => (w, false)
    | .error e => (w.note (.invalidJson "amp-experiment configuration" e.message), false)

/-- An experiment in use keeps the boilerplate. Tells whether the element lets it go. -/
def checkExperiment (w : Work) (id : NodeId) (el : Element) : Work × Bool :=
  if el.tag == "amp-experiment" then
    match isExperimentUsed w id with
    | (w, true) => (w.note .experimentInUse, false)
    | (w, false) => (w, true)
  else (w, true)

/-- Renders a custom element, unless it stands in a template or is rendered. -/
def renderNext (state : Work × Bool) (id : NodeId) : Work × Bool :=
  let (w, free) := state
  match w.page.element? id with
  | none => state
  | some el =>
    if w.page.hasAncestor id "template" then state
    else
      let (w, unused) := checkExperiment w id el
      if el.hasAttribute layoutMarker then (w, free && unused)
      else
        let (w, done) := renderElement w id el
        (w, free && unused && done)

/-- The extensions in the head whose scripts delay rendering. Experiments count by their use. -/
def delayingScripts (page : Page) : List String :=
  ((page.elementChildren page.head).filterMap fun id =>
    (page.element? id).bind extensionName?).filter fun name =>
      isRenderDelaying name && name != "amp-experiment"

/-- Marks the page and takes the boilerplate out of its head. -/
def removeBoilerplate (page : Page) : Page :=
  let page := page.setAttribute page.root noBoilerplateMarker ""
  page.detachAll ((page.elementChildren page.head).filter fun id =>
    page.isElement id isBoilerplateStyle || Boilerplate.isNoscript page id)

def run (s : Settings.Rendering) (page : Page) : Work :=
  if page.hasAttribute page.root layoutMarker then ⟨page, []⟩
  else
    let page := page.setAttribute page.root layoutMarker ""
    let (w, free) := page.components.foldl renderNext (⟨page, []⟩, true)
    let delaying := delayingScripts w.page
    let w := delaying.foldl (fun w name => w.note (.renderDelayingScript name)) w
    if free && delaying.isEmpty && s.removeBoilerplate then w.edit removeBoilerplate else w

end AmpTuner.Rendering
