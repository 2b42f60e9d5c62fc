import AmpTuner.Page.Tree
import AmpTuner.Markup.Reader
import AmpTuner.Markup.TreeJson

/-!
Reading pages from their two written forms, markup and JSON.
-/

namespace AmpTuner

/-- Why a page could not be read. -/
inductive SourceFault where
  | markup (fault : Markup.Fault)
  | json (error : Json.Error)

namespace SourceFault

def message : SourceFault → String
  | markup fault => fault.defect.message
  | json error => error.message

def line : SourceFault → Nat
  | markup fault => fault.position.line
  | json error => error.line

def column : SourceFault → Nat
  | markup fault => fault.position.column
  | json error => error.column

def report (f : SourceFault) : String :=
  "Document error at line " ++ toString f.line ++ ", column " ++ toString f.column ++ ": " ++ f.message

end SourceFault

namespace Page

def ofMarkup (source : String) : Except SourceFault Page :=
  match Markup.read source with
  | .ok d => .ok (ofDocument d)
  | .error fault => .error (.markup fault)

def ofJson (source : String) : Except SourceFault Page :=
  match Markup.Document.ofJson source with
  | .ok d => .ok (ofDocument d)
  | .error error => .error (.json error)

def toJson (page : Page) : String := page.toDocument.toJson

end Page

end AmpTuner
