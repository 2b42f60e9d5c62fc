import AmpTuner.Text.Affix

/-!
Requests on the command line: a command with a path behind it, and options. The options for
settings, spec and verbosity may stand on either side of the command, once on each; what is said
behind the command counts. Those of a command stand behind it.
-/

namespace AmpTuner.CommandLine

inductive Action where
  /-- Tunes the page and writes it, as markup or as JSON, to a file or to the output. -/
  | optimize (asJson : Bool) (output : Option String)
  /-- Only reports the issues. -/
  | check
deriving Repr, DecidableEq

def Action.ofName? (name : String) : Option Action :=
  if name = "optimize" then some (.optimize false none)
  else if name = "check" then some .check
  else none

structure Request where
  action : Action
  path : String
  settings : Option String := none
  spec : Option String := none
deriving Repr, DecidableEq

/-- An option by what it says. -/
inductive Switch where
  | settings
  | spec
  | verbose
  | json
  | output
deriving Repr, DecidableEq

namespace Switch

def name : Switch → String
  | settings => "--config"
  | spec => "--spec"
  | verbose => "--verbose"
  | json => "--json"
  | output => "--output"

def ofName? (name : String) : Option Switch :=
  [settings, spec, verbose, json, output].find? (·.name == name)

def ofLetter? : Char → Option Switch
  | 'v' => some verbose
  | 'o' => some output
  | _ => none

def takesValue : Switch → Bool
  | settings | spec | output => true
  | verbose | json => false

end Switch

inductive UsageFault where
  | noCommand
  | noPath
  | noValue (switch : Switch)
  | repeated (switch : Switch)
  | unexpected (argument : String)
deriving Repr, DecidableEq

def UsageFault.message : UsageFault → String
  | noCommand => "a command is missing: 'optimize' or 'check'"
  | noPath => "a path is missing"
  | noValue switch => "a value is missing behind '" ++ switch.name ++ "'"
  | repeated switch => "'" ++ switch.name ++ "' is given twice"
  | unexpected argument => "unexpected argument '" ++ argument ++ "'"

/-- The options that may stand on either side of the command. -/
structure Shared where
  settings : Option String := none
  spec : Option String := none
  verbose : Bool := false
deriving Repr, DecidableEq

/-- What is known of a request while its arguments are read. -/
structure Draft where
  action : Option Action := none
  path : Option String := none
  /-- The shared options in front of the command, once that has been read. -/
  before : Shared := {}
  /-- The shared options on the side of the command that is being read. -/
  here : Shared := {}
  /-- The option whose value is the next argument. -/
  waiting : Option Switch := none
  /-- Whether `--` has ended the options. -/
  plain : Bool := false
deriving Repr, DecidableEq

namespace Draft

/-- Takes an argument that is no option. Behind `--` it is no command. -/
def operand (d : Draft) (argument : String) : Except UsageFault Draft :=
  match d.action, d.path with
  | none, _ =>
    match Action.ofName? argument with
    | some action =>
      if d.plain then .error (.unexpected argument)
      else .ok { d with action := some action, before := d.here, here := {} }
    | none => .error (.unexpected argument)
  | some _, none => if argument.isEmpty then .error .noPath else .ok { d with path := some argument }
  | some _, some _ => .error (.unexpected argument)

/-- Takes an option without a value. -/
def set (d : Draft) (switch : Switch) : Except UsageFault Draft :=
  match switch, d.action with
  | .verbose, _ =>
    if d.here.verbose then .error (.repeated switch)
    else .ok { d with here := { d.here with verbose := true } }
  | .json, some (.optimize false output) => .ok { d with action := some (.optimize true output) }
  | .json, some (.optimize true _) => .error (.repeated switch)
  | _, _ => .error (.unexpected switch.name)

/-- Takes an option with its value, which is not empty. -/
def give (d : Draft) (switch : Switch) (value : String) : Except UsageFault Draft :=
  if value.isEmpty then .error (.noValue switch)
  else
    match switch, d.action with
    | .settings, _ =>
      if d.here.settings.isSome then .error (.repeated switch)
      else .ok { d with here := { d.here with settings := some value } }
    | .spec, _ =>
      if d.here.spec.isSome then .error (.repeated switch)
      else .ok { d with here := { d.here with spec := some value } }
    | .output, some (.optimize asJson none) =>
      .ok { d with action := some (.optimize asJson (some value)) }
    | .output, some (.optimize _ (some _)) => .error (.repeated switch)
    | _, _ => .error (.unexpected switch.name)

/-- Takes an option by its name. A value stands behind an equals sign or in the next argument. -/
def named (d : Draft) (argument : String) : Except UsageFault Draft :=
  let (name, value) := Text.splitOnce '=' argument
  match Switch.ofName? name with
  | none => .error (.unexpected argument)
  | some switch =>
    match switch.takesValue, value with
    | true, some value => d.give switch value
    | true, none => .ok { d with waiting := some switch }
    | false, none => d.set switch
    | false, some _ => .error (.unexpected argument)

/-- Takes options by their letters. The value of the last one is the rest of the argument, where an
equals sign may come first, or the next argument. -/
def lettered (d : Draft) : List Char → Except UsageFault Draft
  | [] => .ok d
  | c :: rest =>
    match Switch.ofLetter? c with
    | none => .error (.unexpected (String.ofList ['-', c]))
    | some switch =>
      if switch.takesValue then
        match rest with
        | [] => .ok { d with waiting := some switch }
        | '=' :: value => d.give switch (String.ofList value)
        | value => d.give switch (String.ofList value)
      else (d.set switch).bind (lettered · rest)

def isOption (argument : String) : Bool := Text.startsWith "-" argument && argument != "-"

/-- Takes the next argument. -/
def take (d : Draft) (argument : String) : Except UsageFault Draft :=
  if d.plain then d.operand argument
  else
    match d.waiting with
    | some switch =>
      if isOption argument then .error (.noValue switch)
      else give { d with waiting := none } switch argument
    | none =>
      if argument = "--" then .ok { d with plain := true }
      else if Text.startsWith "--" argument then d.named argument
      else if isOption argument then d.lettered (argument.toList.drop 1)
      else d.operand argument

def finish (d : Draft) : Except UsageFault Request :=
  match d.waiting, d.action, d.path with
  | some switch, _, _ => .error (.noValue switch)
  | none, none, _ => .error .noCommand
  | none, some _, none => .error .noPath
  | none, some action, some path =>
    .ok {
      action, path
      settings := d.here.settings <|> d.before.settings
      spec := d.here.spec <|> d.before.spec }

end Draft

def Request.ofArguments (arguments : List String) : Except UsageFault Request :=
  (arguments.foldlM Draft.take {}).bind Draft.finish

end AmpTuner.CommandLine
