import AmpTuner.Markup.Token
import AmpTuner.Text.Affix

/-!
From tokens to a tree. A builder holds the elements that are still open, innermost first; a closing
tag closes the innermost one of its name with all that was opened inside it, and the end of the
input closes what is left.
-/

namespace AmpTuner.Markup

/-- An element whose end is not reached, with its children so far, last first. -/
structure OpenElement where
  element : Element
  earlier : List Tree

structure Builder where
  doctype : Option String := none
  top : List Tree := []
  pending : List OpenElement := []

namespace Builder

/-- Puts a node behind the others of the innermost open element, or of the top level. -/
def add (b : Builder) (node : Tree) : Builder :=
  match b.pending with
  | [] => { b with top := node :: b.top }
  | o :: outer => { b with pending := { o with earlier := node :: o.earlier } :: outer }

def closeInnermost (b : Builder) : Builder :=
  match b.pending with
  | [] => b
  | o :: outer => { b with pending := outer }.add (.element o.element o.earlier.reverse)

def close (b : Builder) : Nat → Builder
  | 0 => b
  | n + 1 => b.closeInnermost.close n

/-- Ignored when no open element has that tag. -/
def closeTag (b : Builder) (tag : String) : Builder :=
  match b.pending.findIdx? (·.element.tag == tag) with
  | none => b
  | some inside => b.close (inside + 1)

def step (b : Builder) : Token → Builder
  | .doctype name => { b with doctype := some name }
  | .comment content => b.add (.comment content)
  | .text content => b.add (.text content)
  | .complete element content =>
    b.add (.element element (if content.isEmpty then [] else [.text content]))
  | .opening element => { b with pending := ⟨element, []⟩ :: b.pending }
  | .closing tag => b.closeTag tag

/-- Closes everything that is open. -/
def finish (b : Builder) : Document :=
  let closed := b.close b.pending.length
  ⟨closed.doctype, closed.top.reverse⟩

end Builder

def Document.ofTokens (tokens : List Token) : Document := (tokens.foldl Builder.step {}).finish

/-- A defect in markup and where it was found. -/
structure Fault where
  defect : Defect
  position : Text.Position
deriving Repr, DecidableEq

def Halt.locate (source : List Char) (halt : Halt) : Fault :=
  ⟨halt.defect, .behind (source.take (source.length - halt.unread.length))⟩

/-- Reads markup into a document, without any recovery beyond the rules for end tags. -/
def read (source : String) : Except Fault Document :=
  match Token.all source.toList with
  | .error halt => .error (halt.locate source.toList)
  | .ok tokens => .ok (.ofTokens tokens)

end AmpTuner.Markup
