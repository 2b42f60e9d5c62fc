import AmpTuner.CommandLine.Outcome

/-!
The program: it carries out the request of its arguments on the files of the system.
-/

namespace AmpTuner.CommandLine

/-- What an error of the system says about a path. Some calls report the negated number. -/
def obstacleOf? (e : IO.Error) : Option Obstacle :=
  let ofCode? (code : UInt32) : Option Obstacle := Obstacle.ofCode? code.toInt32.toInt.natAbs
  match e with
  | .noFileOrDirectory _ code _ => ofCode? code
  | .inappropriateType _ code _ => ofCode? code
  | .invalidArgument _ code _ => ofCode? code
  | _ => none

/-- What a path of the system leads to. -/
def entryOfPath (path : String) : IO Entry := do
  try
    return .file (← IO.FS.readFile path)
  catch e =>
    match obstacleOf? e with
    | some obstacle => return .ofObstacle obstacle
    | none => return .unreadable (toString e)

def writeRefusal (path text : String) : IO (Option String) := do
  try
    IO.FS.writeFile path text
    return none
  catch e => return some (((obstacleOf? e).map Obstacle.message).getD (toString e))

/-- Reads the files that a request names. -/
def entriesOf (request : Request) : IO (List (String × Entry)) :=
  (request.settings.toList ++ request.spec.toList ++ [request.path]).mapM fun path => do
    return (path, ← entryOfPath path)

def carryOut (request : Request) : IO Outcome := do
  let entries ← entriesOf request
  let look (path : String) : Entry := (entries.lookup path).getD .missing
  let outcome := Outcome.ofRequest look request
  match outcome.saved with
  | none => return outcome
  | some (path, text) => return outcome.afterWriting (← writeRefusal path text)

end AmpTuner.CommandLine

open AmpTuner.CommandLine

def main (arguments : List String) : IO UInt32 := do
  let outcome ← match Request.ofArguments arguments with
    | .ok request => carryOut request
    | .error fault => pure (Outcome.ofUsage fault)
  IO.print outcome.output
  IO.eprint outcome.errors
  return outcome.exitCode.toUInt32
