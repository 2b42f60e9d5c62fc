import AmpTuner.Markup.Element
import AmpTuner.Markup.Reference

/-!
Writing trees as markup. Nothing is added between nodes, so the markup shows exactly the nodes.
-/

namespace AmpTuner.Markup

namespace Attribute

/-- An attribute with the empty value is written as its name alone. -/
def toHtml (a : Attribute) : String :=
  if a.value.isEmpty then a.name else a.name ++ "=\"" ++ escapeAttribute a.value ++ "\""

end Attribute

namespace Element

def startTag (el : Element) : String :=
  "<" ++ el.tag ++ String.join (el.attributes.map fun a => " " ++ a.toHtml) ++ ">"

def endTag (el : Element) : String := "</" ++ el.tag ++ ">"

end Element

mutual

/-- The markup of a node; `raw` tells whether its parent holds raw text. -/
def Tree.write (raw : Bool) : Tree → String
  | .text content => if raw then content else escapeText content
  | .comment content => "<!--" ++ content ++ "-->"
  | .element el children =>
    if isVoid el.tag then el.startTag
    else el.startTag ++ Tree.writeAll (isRawText el.tag) children ++ el.endTag

def Tree.writeAll (raw : Bool) : List Tree → String
  | [] => ""
  | node :: rest => node.write raw ++ Tree.writeAll raw rest

end

def doctypeHtml (name : Option String) : String :=
  match name with
  | none => ""
  | some name => "<!doctype " ++ name ++ ">"

def Document.toHtml (d : Document) : String :=
  doctypeHtml d.doctype ++ Tree.writeAll false d.nodes

end AmpTuner.Markup
