import AmpTuner.Pass.Basic
import AmpTuner.Amp.Vocabulary

/-!
The order of the head. Every child belongs to a slot; slots follow each other in a fixed order, and
in a slot the children keep theirs, except that scripts are sorted by extension.
-/

namespace AmpTuner

open Markup (Element)

/-- Slots of the head, in order. -/
inductive HeadSlot where
  | charset
  | viewport
  | networkHint
  | runtimeStylesheet
  | runtimeStyle
  | declaration
  | runtimeScript
  | viewerScript
  | renderDelayingScript
  | extensionScript
  | favicon
  | resourceHint
  | earlyStylesheet
  | customStyle
  | other
  | boilerplateStyle
  | noscript
deriving Repr, DecidableEq

namespace HeadSlot

open Vocabulary

def all : List HeadSlot :=
  [charset, viewport, networkHint, runtimeStylesheet, runtimeStyle, declaration, runtimeScript,
    viewerScript, renderDelayingScript, extensionScript, favicon, resourceHint, earlyStylesheet,
    customStyle, other, boilerplateStyle, noscript]

/-- Slots with room for one child. -/
def isSingle : HeadSlot → Bool
  | charset => true
  | viewport => true
  | runtimeStylesheet => true
  | runtimeStyle => true
  | viewerScript => true
  | customStyle => true
  | boilerplateStyle => true
  | noscript => true
  | _ => false

/-- Slots that are sorted. -/
def isSorted : HeadSlot → Bool
  | runtimeScript => true
  | renderDelayingScript => true
  | extensionScript => true
  | _ => false

def hintTokens : List String :=
  ["dns-prefetch", "preconnect", "prefetch", "preload", "prerender", "modulepreload"]

def faviconTokens : List String := ["icon", "apple-touch-icon", "apple-touch-icon-precomposed"]

/-- The slot of a link. `afterCustom` tells whether the custom stylesheet has its place already; a
style sheet that follows it must go on doing so. -/
def ofLink (el : Element) (afterCustom : Bool) : HeadSlot :=
  let tokens := el.tokens "rel"
  if isRuntimeStylesheet el then runtimeStylesheet
  else if tokens.contains "stylesheet" then if afterCustom then other else earlyStylesheet
  else if tokens.any faviconTokens.contains then favicon
  else if tokens.any hintTokens.contains then
    if (el.attribute? "href").any (Text.startsWith cdnHost) then networkHint else resourceHint
  else other

def ofMeta (el : Element) : HeadSlot :=
  if el.hasAttribute "charset" then charset
  else if (el.attribute? "name").any (Text.sameIgnoringCase "viewport") then viewport
  else declaration

def ofScript (el : Element) : HeadSlot :=
  if isRuntimeScript el then runtimeScript
  else if isViewerScript el then viewerScript
  else
    match extensionName? el with
    | some name => if isRenderDelaying name then renderDelayingScript else extensionScript
    | none => other

def ofStyle (el : Element) : HeadSlot :=
  if isRuntimeStyle el then runtimeStyle
  else if isBoilerplateStyle el then boilerplateStyle
  else if isCustomStyle el then customStyle
  else other

/-- The slot that an element asks for. -/
def ofElement (el : Element) (afterCustom : Bool) : HeadSlot :=
  match el.tag with
  | "meta" => ofMeta el
  | "link" => ofLink el afterCustom
  | "script" => ofScript el
  | "style" => ofStyle el
  | "noscript" => noscript
  | _ => other

end HeadSlot

namespace HeadOrder

open Vocabulary

/-- By what scripts are sorted: the extension or address, and modules first. Children that are not
sorted have the same key. -/
structure Key where
  name : String := ""
  variant : Nat := 0
deriving Repr, DecidableEq

def Key.le (a b : Key) : Bool := a.name < b.name || (a.name == b.name && a.variant ≤ b.variant)

def scriptKey (el : Element) : Key where
  name := ((extensionName? el).or (el.attribute? "src")).getD ""
  variant := if isModuleScript el then 0 else 1

structure Placement where
  slot : HeadSlot
  key : Key
  node : NodeId
deriving Repr, DecidableEq

/-- Whether the slot has no room for an element with that key: a single slot that is taken, or a
second runtime script of one variant. -/
def isSurplus (placed : List Placement) (slot : HeadSlot) (key : Key) : Bool :=
  (slot.isSingle && placed.any (·.slot == slot))
    || (slot == .runtimeScript
      && placed.any fun p => p.slot == .runtimeScript && p.key.variant == key.variant)

/-- Places an element behind those that are placed. What a slot has no room for goes with the rest. -/
def placeElement (placed : List Placement) (node : NodeId) (el : Element) : Placement :=
  let slot := HeadSlot.ofElement el (placed.any (·.slot == .customStyle))
  let key := if slot.isSorted then scriptKey el else {}
  ⟨if isSurplus placed slot key then .other else slot, key, node⟩

/-- Places a child of the head. Blank text gets no place. -/
def place (page : Page) (placed : List Placement) (node : NodeId) : List Placement :=
  match page.kind? node with
  | some (.element el) => placed ++ [placeElement placed node el]
  | some (.text content) =>
    if Text.isAllBlank content then placed else placed ++ [⟨.other, {}, node⟩]
  | some (.comment _) => placed ++ [⟨.other, {}, node⟩]
  | none => placed

/-- The children of a slot in their final order. -/
def ofSlot (placed : List Placement) (slot : HeadSlot) : List NodeId :=
  ((placed.filter (·.slot == slot)).mergeSort fun a b => a.key.le b.key).map (·.node)

def arranged (page : Page) : List NodeId :=
  HeadSlot.all.flatMap (ofSlot ((page.children page.head).foldl (place page) []))

def run (page : Page) : Page :=
  (page.detachAll (page.children page.head)).appendAll page.head (arranged page)

end HeadOrder

end AmpTuner
