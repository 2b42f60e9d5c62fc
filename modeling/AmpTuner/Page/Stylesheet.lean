import AmpTuner.Page.Moves
import AmpTuner.Page.Queries

/-!
The custom stylesheet of a page, and the identifiers by which its rules name elements.
-/

namespace AmpTuner.Page

def customStyle? (page : Page) : Option NodeId :=
  (page.elementChildren page.head).find? fun id =>
    page.isTag id "style" && page.hasAttribute id "amp-custom"

/-- Bytes that the custom stylesheet holds. -/
def customBytes (page : Page) : Nat :=
  match page.customStyle? with
  | none => 0
  | some style => (page.textContent style).utf8ByteSize

/-- Sets the budget to what the custom stylesheet holds. -/
def recountBudget (page : Page) : Page :=
  { page with budget := .ofUsed Css.maxCustomBytes page.customBytes }

/-- The custom stylesheet, appended to the head if there is none. -/
def withCustomStyle (page : Page) : Page × NodeId :=
  match page.customStyle? with
  | some style => (page, style)
  | none =>
    let (page, style) := page.createElement "style" [("amp-custom", "")]
    (page.appendChild page.head style, style)

/-- Appends rules to the custom stylesheet. The budget is the caller's concern. -/
def appendCustomCss (page : Page) (css : String) : Page :=
  let (page, style) := page.withCustomStyle
  page.setTextContent style (page.textContent style ++ css)

/-! ## Identifiers -/

def generatedId (n : Nat) : String := "i-amp-" ++ toString n

/-- Whether an element of the store, attached or not, carries that identifier. -/
def usesId (page : Page) (id : String) : Bool :=
  page.nodes.any fun node => (node.kind.element?.bind (·.attribute? "id")) == some id

/-- The first number from `n` on whose identifier is free, among at most `tries + 1` of them. -/
def freshFrom (page : Page) (n : Nat) : Nat → Nat
  | 0 => n
  | tries + 1 => if page.usesId (generatedId n) then page.freshFrom (n + 1) tries else n

/-- Gives the element the next free generated identifier. -/
def generateId (page : Page) (id : NodeId) : Page × String :=
  let n := page.freshFrom page.nextGenerated page.nodes.size
  ({ page with nextGenerated := n + 1 }.setAttribute id "id" (generatedId n), generatedId n)

/-- The identifier of an element, which is given a new one if it has none or an empty one. -/
def elementId (page : Page) (id : NodeId) : Page × String :=
  match page.attribute? id "id" with
  | none => page.generateId id
  | some authored => if authored.isEmpty then page.generateId id else (page, authored)

end AmpTuner.Page
