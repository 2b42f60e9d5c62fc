import AmpTuner.Json.Reader

/-!
Decoding JSON text into typed data. A decoder reads and checks at once, so of two faults the one
that stands first is reported, be it of syntax or of content.
-/

namespace AmpTuner.Json

/-- Reads a value of a type, with at most as many open containers as the first argument says. -/
abbrev Decoder (α : Type) := Nat → List Char → Scan α

/-- The fault of finding another kind of value where `wanted` should stand. -/
def mismatch (wanted : String) (input : List Char) : Fault :=
  match scalar? input with
  | some (.ok (v, rest)) => .here (.wrongType (.ofValue v) wanted) rest
  | some (.error fault) => fault
  | none =>
    match input with
    | [] => .here .valueEnds []
    | '[' :: _ => .here (.wrongType .sequence wanted) input
    | '{' :: _ => .here (.wrongType .map wanted) input
    | _ => .past .valueExpected input

namespace Decoder

def map {α β : Type} (f : α → β) (decoder : Decoder α) : Decoder β := fun depth input =>
  (decoder depth input).map fun (a, rest) => (f a, rest)

/-- A value without structure of which `pick?` makes something. -/
def ofScalar {α : Type} (wanted : String) (pick? : Value → Option α) : Decoder α := fun _ input =>
  let input := skipBlank input
  match scalar? input with
  | some (.ok (v, rest)) =>
    match pick? v with
    | some a => .ok (a, rest)
    | none => .error (mismatch wanted input)
  | _ => .error (mismatch wanted input)

def bool : Decoder Bool := ofScalar "a boolean" fun
  | .bool b => some b
  | _ => none

def string : Decoder String := ofScalar "a string" Value.string?

/-- A number of at least zero. A negative one is the wrong value of the right type. -/
def natural : Decoder Nat := fun depth input =>
  match scalar? (skipBlank input) with
  | some (.ok (.number (.negative n), rest)) =>
    .error (.here (.wrongValue (.number (.negative n)) "usize") rest)
  | _ =>
    ofScalar "usize" (fun
      | .number (.natural n) => some n
      | _ => none) depth input

def optional {α : Type} (inner : Decoder α) : Decoder (Option α) := fun depth input =>
  match skipBlank input with
  | 'n' :: rest => (word "ull".toList rest).map fun rest => (none, rest)
  | rest => (inner depth rest).map fun (a, rest) => (some a, rest)

/-- Opens a container, which must not be nested too deep, and locates the faults found inside. -/
def inside {α : Type} (depth : Nat) (input : List Char) (read : Nat → Scan α) : Scan α :=
  match depth with
  | 0 => .error (.past .tooDeep input)
  | depth + 1 => (read depth).mapError Fault.locate

def list {α : Type} (item : Decoder α) : Decoder (List α) := fun depth input =>
  match skipBlank input with
  | '[' :: rest => inside depth ('[' :: rest) fun depth =>
      closeList (items (item depth) true (rest.length + 1) rest)
  | rest => .error (mismatch "a sequence" rest)

/-- The entries of an object, the last one of each key. -/
def dictionary {α : Type} (item : Decoder α) : Decoder (List (String × α)) := fun depth input =>
  match skipBlank input with
  | '{' :: rest => inside depth ('{' :: rest) fun depth =>
      let read (found : List (String × α)) (key : String) (rest : List Char) : Scan (List (String × α)) :=
        (colon rest).bind fun rest =>
          (item depth rest).map fun (a, rest) => (found.filter (·.1 != key) ++ [(key, a)], rest)
      closeObject (entries read true (rest.length + 1) [] rest)
  | rest => .error (mismatch "a map" rest)

/-- One of the given words. -/
def variant (known : List String) : Decoder String := fun _ input =>
  let input := skipBlank input
  match scalar? input with
  | some (.ok (.string s, rest)) =>
    if known.contains s then .ok (s, rest) else .error (.here (.unknownVariant s known) rest)
  | _ => .error (mismatch "variant identifier" input)

/-- The key at the start of an object, which must have one. -/
def onlyKey (known : List String) : Decoder String := fun depth input =>
  match skipBlank input with
  | [] => .error (.here .objectEnds [])
  | '"' :: rest => variant known depth ('"' :: rest)
  | '}' :: rest => .error (.past .valueExpected ('}' :: rest))
  | rest => .error (.past .keyExpected rest)

/-- One of the given words, alone or as the key of an object whose value is null. -/
def choice (known : List String) : Decoder String := fun depth input =>
  match skipBlank input with
  | [] => .error (.here .valueEnds [])
  | '"' :: rest => variant known depth ('"' :: rest)
  | '{' :: rest =>
    match depth with
    | 0 => .error (.past .tooDeep ('{' :: rest))
    | depth + 1 =>
      (onlyKey known depth rest).bind fun (s, rest) =>
        (colon rest).bind fun rest =>
          (ofScalar "unit" (fun
            | .null => some ()
            | _ => none) depth rest).bind fun (_, rest) =>
            match skipBlank rest with
            | [] => .error (.here .objectEnds [])
            | '}' :: rest => .ok (s, rest)
            | rest => .error (.here .valueExpected rest)
  | rest => .error (.past .valueExpected rest)

end Decoder

/-! ## Records -/

/-- A field of a record under construction. -/
structure Field (σ : Type) where
  name : String
  required : Bool
  read : Nat → σ → List Char → Scan σ

namespace Field

def optional {σ α : Type} (name : String) (decoder : Decoder α) (set : σ → α → σ) : Field σ where
  name
  required := false
  read depth state input := (decoder depth input).map fun (a, rest) => (set state a, rest)

def mandatory {σ α : Type} (name : String) (decoder : Decoder α) (set : σ → α → σ) : Field σ :=
  { optional name decoder set with required := true }

end Field

/-- A record with named fields. Those that do not occur keep their values in `blank`. -/
structure Record (σ : Type) where
  title : String
  /-- Whether a field of an unknown name is refused; otherwise its value is passed over. -/
  closed : Bool
  blank : σ
  fields : List (Field σ)

namespace Record

variable {σ : Type}

def names (r : Record σ) : List String := r.fields.map (·.name)

def size (r : Record σ) : String :=
  toString r.fields.length ++ if r.fields.length = 1 then " element" else " elements"

/-- Reads what follows a key. The state lists the fields that have occurred. -/
def readField (r : Record σ) (depth : Nat) (state : List String × σ) (key : String)
    (rest : List Char) : Scan (List String × σ) :=
  match r.fields.find? (·.name == key) with
  | some field =>
    if state.1.contains key then .error (.floating (.duplicateField key) rest)
    else
      (colon rest).bind fun rest =>
        (field.read depth state.2 rest).map fun (s, rest) => ((key :: state.1, s), rest)
  | none =>
    if r.closed then .error (.floating (.unknownField key r.names) rest)
    else ((colon rest).bind passOver).map fun rest => (state, rest)

/-- Refuses a record in which a required field is missing. -/
def complete (r : Record σ) (state : List String × σ) (rest : List Char) : Scan σ :=
  match r.fields.find? fun field => field.required && !state.1.contains field.name with
  | some field => .error (.floating (.missingField field.name) rest)
  | none => .ok (state.2, rest)

/-- Reads the fields in order from an array; those that are missing at its end keep their values. -/
def readInOrder (r : Record σ) (depth : Nat) (first : Bool) (index : Nat) (state : σ) :
    List (Field σ) → List Char → Scan σ
  | [], rest => .ok (state, rest)
  | field :: more, rest =>
    match nextItem first rest with
    | .error fault => .error fault
    | .ok (false, rest) =>
      if field.required then
        .error (.floating (.wrongLength index (r.title ++ " with " ++ r.size)) rest)
      else readInOrder r depth first (index + 1) state more rest
    | .ok (true, rest) =>
      (field.read depth state rest).bind fun (state, rest) =>
        readInOrder r depth false (index + 1) state more rest

/-- Reads a record from an object, or from an array that gives the fields in order. -/
def decoder (r : Record σ) : Decoder σ := fun depth input =>
  match skipBlank input with
  | '{' :: rest => Decoder.inside depth ('{' :: rest) fun depth =>
      closeObject ((entries (r.readField depth) true (rest.length + 1) ([], r.blank) rest).bind
        fun (state, rest) => r.complete state rest)
  | '[' :: rest => Decoder.inside depth ('[' :: rest) fun depth =>
      closeList (r.readInOrder depth true 0 r.blank r.fields rest)
  | rest => .error (mismatch r.title rest)

end Record

/-! ## Texts -/

/-- Decodes a text that holds one value and nothing else but blanks. -/
def decode {α : Type} (decoder : Decoder α) (source : String) : Except Error α :=
  let input := source.toList
  let result : Scan α :=
    match decoder maxDepth input with
    | .error fault => .error fault
    | .ok (a, rest) =>
      match skipBlank rest with
      | [] => .ok (a, [])
      | rest => .error (.past .trailingCharacters rest)
  match result with
  | .error fault => .error (.ofFault input fault)
  | .ok (a, _) => .ok a

/-- Reads a text that holds any one value. -/
def parse (source : String) : Except Error Value := decode value source

end AmpTuner.Json
