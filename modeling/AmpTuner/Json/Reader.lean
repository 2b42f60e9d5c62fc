import AmpTuner.Json.Scalar

/-!
Reading arrays, objects and whole values, and passing over values that nobody wants. Containers may
be nested `maxDepth` deep, except in values that are passed over.
-/

namespace AmpTuner.Json

def maxDepth : Nat := 127

/-! ## Containers -/

/-- Whether another item begins; if so, its comma is consumed. -/
def nextItem (first : Bool) (input : List Char) : Scan Bool :=
  match skipBlank input with
  | [] => .error (.here .listEnds [])
  | ']' :: rest => .ok (false, ']' :: rest)
  | c :: rest =>
    if first then .ok (true, c :: rest)
    else if c ≠ ',' then .error (.past .commaOrListEndExpected (c :: rest))
    else
      match skipBlank rest with
      | [] => .error (.here .valueEnds [])
      | ']' :: rest => .error (.past .trailingComma (']' :: rest))
      | rest => .ok (true, rest)

/-- The next key, if there is one, with the comma in front of it. -/
def nextKey (first : Bool) (input : List Char) : Scan (Option String) :=
  let key (rest : List Char) : Scan (Option String) :=
    (stringBody rest).map fun (s, rest) => (some s, rest)
  match skipBlank input with
  | [] => .error (.here .objectEnds [])
  | '}' :: rest => .ok (none, '}' :: rest)
  | c :: rest =>
    if first then
      if c = '"' then key rest else .error (.past .keyExpected (c :: rest))
    else if c ≠ ',' then .error (.past .commaOrObjectEndExpected (c :: rest))
    else
      match skipBlank rest with
      | [] => .error (.here .valueEnds [])
      | '"' :: rest => key rest
      | '}' :: rest => .error (.past .trailingComma ('}' :: rest))
      | rest => .error (.past .keyExpected rest)

def colon (input : List Char) : Except Fault (List Char) :=
  match skipBlank input with
  | [] => .error (.here .objectEnds [])
  | ':' :: rest => .ok rest
  | rest => .error (.past .colonExpected rest)

/-- The items of an array up to its bracket. Each takes part of the input, so that its length bounds
the number of steps. -/
def items {α : Type} (read : List Char → Scan α) (first : Bool) :
    Nat → List Char → Scan (List α)
  | 0, input => .error (.here .listEnds input)
  | steps + 1, input =>
    match nextItem first input with
    | .error fault => .error fault
    | .ok (false, rest) => .ok ([], rest)
    | .ok (true, rest) =>
      match read rest with
      | .error fault => .error fault
      | .ok (item, rest) =>
        (items read false steps rest).map fun (more, rest) => (item :: more, rest)

/-- Goes through the entries of an object up to its brace. What follows a key is left to `read`. -/
def entries {σ : Type} (read : σ → String → List Char → Scan σ) (first : Bool) :
    Nat → σ → List Char → Scan σ
  | 0, _, input => .error (.here .objectEnds input)
  | steps + 1, state, input =>
    match nextKey first input with
    | .error fault => .error fault
    | .ok (none, rest) => .ok (state, rest)
    | .ok (some key, rest) =>
      match read state key rest with
      | .error fault => .error fault
      | .ok (state, rest) => entries read false steps state rest

/-- Expects the bracket behind the items. A fault that floats moves past what stands there. -/
def closeList {α : Type} : Scan α → Scan α
  | .ok (a, rest) =>
    match skipBlank rest with
    | [] => .error (.here .listEnds [])
    | ']' :: rest => .ok (a, rest)
    | ',' :: rest =>
      match skipBlank rest with
      | ']' :: rest => .error (.past .trailingComma (']' :: rest))
      | rest => .error (.past .trailingCharacters rest)
    | rest => .error (.past .trailingCharacters rest)
  | .error (.floating cause rest) =>
    .error (.floating cause (match skipBlank rest with
      | ']' :: rest => rest
      | ',' :: rest => skipBlank rest
      | rest => rest))
  | .error fault => .error fault

/-- Expects the brace behind the entries. A fault that floats moves past the brace. -/
def closeObject {α : Type} : Scan α → Scan α
  | .ok (a, rest) =>
    match skipBlank rest with
    | [] => .error (.here .objectEnds [])
    | '}' :: rest => .ok (a, rest)
    | ',' :: rest => .error (.past .trailingComma (',' :: rest))
    | rest => .error (.past .trailingCharacters rest)
  | .error (.floating cause rest) =>
    .error (.floating cause (match skipBlank rest with
      | '}' :: rest => rest
      | rest => rest))
  | .error fault => .error fault

/-! ## Values -/

/-- A value without structure, when the input begins with one. -/
def scalar? (input : List Char) : Option (Scan Value) :=
  match input with
  | 'n' :: rest => some ((word "ull".toList rest).map fun rest => (.null, rest))
  | 't' :: rest => some ((word "rue".toList rest).map fun rest => (.bool true, rest))
  | 'f' :: rest => some ((word "alse".toList rest).map fun rest => (.bool false, rest))
  | '"' :: rest => some ((stringBody rest).map fun (s, rest) => (.string s, rest))
  | _ => (number? input).map (·.map fun (n, rest) => (.number n, rest))

/-- Any value, with at most `depth` containers open at a time. -/
def value (depth : Nat) (input : List Char) : Scan Value :=
  let input := skipBlank input
  match scalar? input with
  | some found => found
  | none =>
    match input with
    | [] => .error (.here .valueEnds [])
    | '[' :: rest =>
      match depth with
      | 0 => .error (.past .tooDeep input)
      | depth + 1 =>
        (closeList (items (value depth) true (rest.length + 1) rest)).map fun (items, rest) =>
          (.array items, rest)
    | '{' :: rest =>
      match depth with
      | 0 => .error (.past .tooDeep input)
      | depth + 1 =>
        let read (found : List (String × Value)) (key : String) (rest : List Char) :
            Scan (List (String × Value)) :=
          match colon rest with
          | .error fault => .error fault
          | .ok rest => (value depth rest).map fun (v, rest) => (found ++ [(key, v)], rest)
        (closeObject (entries read true (rest.length + 1) [] rest)).map fun (found, rest) =>
          (.object found, rest)
    | _ => .error (.past .valueExpected input)

/-! ## Passing over values -/

/-- Passes over a string. Halves of characters need not be paired here. -/
def skipString : Nat → List Char → Except Fault (List Char)
  | 0, input => .error (.here .stringEnds input)
  | steps + 1, input =>
    match input with
    | [] => .error (.here .stringEnds [])
    | '"' :: rest => .ok rest
    | '\\' :: 'u' :: rest => (hexCode rest).bind fun (_, rest) => skipString steps rest
    | '\\' :: rest => (escape rest).bind fun (_, rest) => skipString steps rest
    | c :: rest =>
      if c < ' ' then .error (.here .controlCharacter (c :: rest)) else skipString steps rest

/-- Passes over an exponent behind its mark. -/
def skipExponent (input : List Char) : Except Fault (List Char) :=
  let digits := match input with
    | '+' :: rest => rest
    | '-' :: rest => rest
    | _ => input
  if startsWithDigit digits then .ok (digits.dropWhile isDigit)
  else .error (.past .invalidNumber digits)

/-- Passes over a number behind its sign. Its size does not matter. -/
def skipNumber (input : List Char) : Except Fault (List Char) :=
  let afterFraction (rest : List Char) : Except Fault (List Char) :=
    match rest with
    | 'e' :: rest => skipExponent rest
    | 'E' :: rest => skipExponent rest
    | _ => .ok rest
  let afterInteger (rest : List Char) : Except Fault (List Char) :=
    match rest with
    | '.' :: rest =>
      if startsWithDigit rest then afterFraction (rest.dropWhile isDigit)
      else .error (.past .invalidNumber rest)
    | _ => afterFraction rest
  match input with
  | '0' :: rest =>
    if startsWithDigit rest then .error (.past .invalidNumber rest) else afterInteger rest
  | _ =>
    if startsWithDigit input then afterInteger (input.dropWhile isDigit)
    else .error (.past .invalidNumber input)

mutual

/-- Passes over a value, in at most `steps` steps into it and over its items. -/
def skipValue : Nat → List Char → Except Fault (List Char)
  | 0, input => .error (.here .valueEnds input)
  | steps + 1, input =>
    match skipBlank input with
    | [] => .error (.here .valueEnds [])
    | '[' :: rest => skipItems steps false rest
    | '{' :: rest => skipEntries steps false rest
    | 'n' :: rest => word "ull".toList rest
    | 't' :: rest => word "rue".toList rest
    | 'f' :: rest => word "alse".toList rest
    | '"' :: rest => skipString (rest.length + 1) rest
    | '-' :: rest => skipNumber rest
    | c :: rest => if isDigit c then skipNumber (c :: rest) else .error (.past .valueExpected (c :: rest))

/-- Passes over the items of an array and its bracket; `comma` tells whether one is behind us. -/
def skipItems : Nat → Bool → List Char → Except Fault (List Char)
  | 0, _, input => .error (.here .listEnds input)
  | steps + 1, comma, input =>
    match skipBlank input with
    | [] => .error (.here .listEnds [])
    | ']' :: rest => .ok rest
    | c :: rest =>
      if !comma then (skipValue steps (c :: rest)).bind (skipItems steps true)
      else if c = ',' then (skipValue steps rest).bind (skipItems steps true)
      else .error (.past .commaOrListEndExpected (c :: rest))

def skipEntries : Nat → Bool → List Char → Except Fault (List Char)
  | 0, _, input => .error (.here .objectEnds input)
  | steps + 1, comma, input =>
    match skipBlank input with
    | [] => .error (.here .objectEnds [])
    | '}' :: rest => .ok rest
    | c :: rest =>
      if !comma then (skipEntry steps (c :: rest)).bind (skipEntries steps true)
      else if c = ',' then (skipEntry steps rest).bind (skipEntries steps true)
      else .error (.past .commaOrObjectEndExpected (c :: rest))

def skipEntry : Nat → List Char → Except Fault (List Char)
  | 0, input => .error (.here .objectEnds input)
  | steps + 1, input =>
    match skipBlank input with
    | [] => .error (.here .objectEnds [])
    | '"' :: rest =>
      ((skipString (rest.length + 1) rest).bind colon).bind (skipValue steps)
    | rest => .error (.past .keyExpected rest)

end

/-- Passes over the next value. Of four steps at least one takes a character. -/
def passOver (input : List Char) : Except Fault (List Char) :=
  skipValue (4 * input.length + 4) input

end AmpTuner.Json
