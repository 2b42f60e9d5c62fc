import AmpTuner.CommandLine.Folder
import AmpTuner.CommandLine.Request
import AmpTuner.Pipeline
import AmpTuner.Page.Source

/-!
What a request comes to: the page on the output or in a file, a report on the error stream, and
whether it failed.
-/

namespace AmpTuner.CommandLine

/-- Why a request is given up. -/
inductive Fault where
  | missing (path : String)
  | unreadable (path reason : String)
  | unwritable (path reason : String)
  | failure (failure : Failure)
  | source (path : String) (fault : SourceFault)

def Fault.message : Fault → String
  | missing path => "file not found: " ++ path
  | unreadable path reason => "reading " ++ path ++ ": " ++ reason
  | unwritable path reason => "writing " ++ path ++ ": " ++ reason
  | failure f => f.message
  | source path fault => path ++ ": " ++ fault.report

def readFile (look : String → Entry) (path : String) : Except Fault String :=
  match look path with
  | .missing => .error (.missing path)
  | .file text => .ok text
  | .unreadable reason => .error (.unreadable path reason)

def readOptional (look : String → Entry) : Option String → Except Fault (Option String)
  | none => .ok none
  | some path => (readFile look path).map some

/-- Reads a page as its name tells: a tree of nodes in JSON, or markup. -/
def readPage (look : String → Entry) (path : String) : Except Fault Page :=
  (readFile look path).bind fun text =>
    let page := if (Path.ofText path).extension? == some "json" then Page.ofJson text else Page.ofMarkup text
    page.mapError (.source path)

/-- Whether the passes would fetch the style sheet of the runtime, which takes a network. -/
def wantsNetwork (pipeline : Pipeline) (page : Page) : Bool :=
  pipeline.passes.contains .runtimeCss
    && (page.elementChildren page.head).any (page.isElement · Vocabulary.isRuntimeStyle)

/-- The page of a request as tuned without a network, and its issues. -/
def tuned (look : String → Entry) (request : Request) : Except Fault Work := do
  let settings ← (Settings.load (← readOptional look request.settings)).mapError .failure
  let spec ← (Spec.load (← readOptional look request.spec)).mapError .failure
  let page ← readPage look request.path
  let pipeline ← (Pipeline.ofSettings settings).mapError fun refusal => .failure (.refused refusal)
  let noted :=
    if wantsNetwork pipeline page then [Issue.missingPackage "ureq" "http"] else []
  let run := pipeline.run settings { spec } ⟨page, noted⟩
  match run.refusal with
  | none => .ok run.work
  | some refusal => .error (.failure (.refused refusal))

structure Outcome where
  /-- The text for the output. -/
  printed : Option String := none
  /-- The file to write, with its content. -/
  saved : Option (String × String) := none
  /-- The lines for the error stream. -/
  reported : List String := []
  exitCode : Nat := 0
deriving Repr, DecidableEq

namespace Outcome

def ofUsage (fault : UsageFault) : Outcome :=
  { reported := ["Error: " ++ fault.message], exitCode := 2 }

def ofFault (reported : List String) (fault : Fault) : Outcome :=
  { reported := reported ++ ["Error: " ++ fault.message], exitCode := 1 }

def warning (issue : Issue) : String :=
  match issue.tag? with
  | some tag => "warning: <" ++ tag ++ "> " ++ issue.report
  | none => "warning: " ++ issue.report

def ofWork (request : Request) (w : Work) : Outcome :=
  let warnings := w.issues.map warning
  match request.action with
  | .optimize asJson output =>
    let text := if asJson then w.page.toJson else w.page.toHtml
    match output with
    | none => { printed := some text, reported := warnings }
    | some path => { saved := some (path, text), reported := warnings }
  | .check =>
    match (w.issues.filter (·.kind.isBlocking)).length with
    | 0 => { reported := warnings ++ ["OK: " ++ request.path] }
    | count =>
      { reported := warnings ++ [toString count ++ " error(s) in " ++ request.path], exitCode := 1 }

/-- The outcome of a request, of which nothing is written yet. -/
def ofRequest (look : String → Entry) (request : Request) : Outcome :=
  match tuned look request with
  | .ok w => ofWork request w
  | .error fault => ofFault [] fault

/-- The outcome once the file is written, or could not be for the given reason. -/
def afterWriting (o : Outcome) (refusal : Option String) : Outcome :=
  match o.saved, refusal with
  | none, _ => o
  | some (path, _), none => { o with reported := o.reported ++ ["Optimized: " ++ path] }
  | some (path, _), some reason => ofFault o.reported (.unwritable path reason)

/-- Carries a request out in a folder. -/
def within (folder : Folder) (request : Request) : Folder × Outcome :=
  let o := ofRequest folder.entry request
  match o.saved with
  | none => (folder, o)
  | some (path, text) =>
    match folder.write path text with
    | .ok folder => (folder, o.afterWriting none)
    | .error obstacle => (folder, o.afterWriting (some obstacle.message))

/-- The whole text for the output. -/
def output (o : Outcome) : String := (o.printed.map (· ++ "\n")).getD ""

/-- The whole text for the error stream. -/
def errors (o : Outcome) : String := String.join (o.reported.map (· ++ "\n"))

end Outcome

end AmpTuner.CommandLine
