import AmpTuner.Pass.Basic
import AmpTuner.Amp.Vocabulary
import AmpTuner.Settings

/-!
The style sheet of the runtime: it is fetched into its placeholder in the head, or linked behind it
when it cannot be fetched. Of the network the pass sees no more than that an address gives a response, or
a reason why there is none.
-/

namespace AmpTuner

structure Response where
  status : Nat
  body : String
deriving Repr, DecidableEq

def Response.isSuccess (r : Response) : Bool := 200 ≤ r.status && r.status < 300

abbrev Fetch := String → Except String Response

namespace Fetch

/-- Answers from a list, of which the last entry for an address counts. -/
def canned (responses : List (String × Response)) : Fetch := fun url =>
  match responses.reverse.find? (·.1 == url) with
  | some (_, response) => .ok response
  | none => .error "no stubbed response"

/-- Answers nothing. -/
def offline : Fetch := canned []

end Fetch

namespace RuntimeCss

open Vocabulary

def versionAttribute : String := "i-amphtml-version"

def url (s : Settings.RuntimeCss) : String :=
  match s.version with
  | some version => cdnHost ++ "/rtv/" ++ version ++ "/v0.css"
  | none => cdnHost ++ "/v0.css"

/-- The style sheet, or why it is not to be had. -/
def download (fetch : Fetch) (url : String) : Except String String :=
  match fetch url with
  | .ok response =>
    if response.isSuccess then .ok response.body
    else .error ("HTTP " ++ toString response.status)
  | .error reason => .error reason

def run (s : Settings.RuntimeCss) (fetch : Fetch) (page : Page) : Work :=
  let children := page.elementChildren page.head
  match children.find? (page.isElement · isRuntimeStyle) with
  | none => ⟨page, [.missingRuntimeStyle]⟩
  | some style =>
    let isInlined := page.hasAttribute style versionAttribute && !(page.textContent style).isEmpty
    let isLinked := children.any (page.isElement · isRuntimeStylesheet)
    if isInlined || isLinked then ⟨page, []⟩
    else
      match download fetch (url s) with
      | .ok css =>
        ⟨(page.setTextContent style css).setAttribute style versionAttribute
          (s.version.getD "latest"), []⟩
      | .error reason =>
        let (page, link) := page.createElement "link" [("rel", "stylesheet"), ("href", url s)]
        ⟨page.insertChildAfter page.head link style, [.runtimeCssUnavailable (url s) reason]⟩

end RuntimeCss

end AmpTuner
