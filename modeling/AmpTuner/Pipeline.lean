import AmpTuner.Pass.Basic
import AmpTuner.Pass.Boilerplate
import AmpTuner.Pass.Viewport
import AmpTuner.Pass.Extensions
import AmpTuner.Pass.Rendering
import AmpTuner.Pass.RuntimeCss
import AmpTuner.Pass.HeroImages
import AmpTuner.Pass.Urls
import AmpTuner.Pass.HeadOrder
import AmpTuner.Pass.Minify
import AmpTuner.Amp.BundledSpec

/-!
Running passes over a page. Settings that contradict themselves stop a run, and a run does not start
without settings and a spec that can be read; whatever else goes wrong is an issue, and the run goes on.
-/

namespace AmpTuner

/-- Why settings cannot be followed. -/
inductive Refusal where
  | unknownPass (name : String)
  /-- Both the channel with long-term support and a release are asked for. -/
  | twoReleases
deriving Repr, DecidableEq

def Refusal.message : Refusal → String
  | unknownPass name => "unknown transformer '" ++ name ++ "'"
  | twoReleases => "'lts' and 'rtv' cannot be combined"

/-- What passes use besides the page and their settings. -/
structure Resources where
  spec : Spec
  fetch : Fetch := Fetch.offline

/-- Runs one pass. -/
def Pass.run (pass : Pass) (s : Settings) (r : Resources) (page : Page) : Except Refusal Work :=
  match pass with
  | boilerplate => .ok ⟨Boilerplate.run page, []⟩
  | viewport => .ok ⟨Viewport.run page, []⟩
  | extensions => .ok (Extensions.run s.extensions r.spec page)
  | rendering => .ok (Rendering.run s.rendering page)
  | runtimeCss => .ok (RuntimeCss.run s.runtimeCss r.fetch page)
  | heroImages => .ok (HeroImages.run s.heroImages page)
  | urls =>
    if Urls.isContradictory s.urls then .error .twoReleases else .ok (Urls.run s.urls page)
  | identifier => .ok ⟨Identifier.run page, []⟩
  | headOrder => .ok ⟨HeadOrder.run page, []⟩
  | minify => .ok ⟨Minify.run s.minify page, []⟩

structure Pipeline where
  passes : List Pass
  /-- Names of retired passes that the settings ask for. -/
  retired : List String := []
deriving Repr, DecidableEq

/-- A finished run, or one that was refused midway; then the work shows what was done before. -/
structure Run where
  work : Work
  refusal : Option Refusal := none

namespace Pipeline

/-- Reads names of passes in order. -/
def ofNames : List String → Except Refusal Pipeline
  | [] => .ok ⟨[], []⟩
  | name :: rest =>
    match Pass.ofName? name with
    | some pass => (ofNames rest).map fun p => { p with passes := pass :: p.passes }
    | none =>
      if Pass.isRetired name then
        (ofNames rest).map fun p => { p with retired := name :: p.retired }
      else .error (.unknownPass name)

def ofSettings (s : Settings) : Except Refusal Pipeline :=
  match s.passes with
  | some names => ofNames names
  | none => .ok ⟨Pass.defaultOrder s, []⟩

def runPasses (s : Settings) (r : Resources) : List Pass → Work → Run
  | [], w => ⟨w, none⟩
  | pass :: rest, w =>
    match pass.run s r w.page with
    | .ok done => runPasses s r rest ⟨done.page, w.issues ++ done.issues⟩
    | .error refusal => ⟨w, some refusal⟩

/-- Runs every pass in order, after noting the retired ones behind the issues so far. -/
def run (p : Pipeline) (s : Settings) (r : Resources) (w : Work) : Run :=
  runPasses s r p.passes { w with issues := w.issues ++ p.retired.map .retiredPass }

end Pipeline

/-- Builds the pipeline of the settings and runs it over a page. -/
def tune (s : Settings) (r : Resources) (page : Page) : Run :=
  match Pipeline.ofSettings s with
  | .ok pipeline => pipeline.run s r ⟨page, []⟩
  | .error refusal => ⟨⟨page, []⟩, some refusal⟩

/-! ## Settings and specs that cannot be read -/

/-- What keeps a run from starting or from finishing. -/
inductive Failure where
  | settings (error : Json.Error)
  | spec (error : Json.Error)
  | refused (refusal : Refusal)

def Failure.message : Failure → String
  | settings error => "Invalid configuration: " ++ error.message
  | spec error => "Invalid validator spec: " ++ error.message
  | refused refusal => "Invalid configuration: " ++ refusal.message

namespace Settings

/-- Reads settings; none are the default ones. -/
def load (source : Option String) : Except Failure Settings :=
  match source with
  | none => .ok {}
  | some source => (ofJson source).mapError .settings

end Settings

namespace Spec

/-- Reads a spec; none is the bundled one. -/
def load (source : Option String) : Except Failure Spec :=
  match source with
  | none => .ok bundled
  | some source => (ofJson source).mapError .spec

end Spec

end AmpTuner
