/-!
JSON values. An object keeps its entries in order, repeated keys included.
-/

namespace AmpTuner.Json

inductive Number where
  | natural (n : Nat)
  /-- Minus `n`, for a positive `n`. -/
  | negative (n : Nat)
  | real (x : Float)
deriving Repr, BEq

inductive Value where
  | null
  | bool (b : Bool)
  | number (n : Number)
  | string (s : String)
  | array (items : List Value)
  | object (entries : List (String × Value))
deriving Repr

namespace Value

/-- The value of a key. When the key is repeated, the last entry counts. -/
def get? : Value → String → Option Value
  | object entries, key => (entries.reverse.find? (·.1 == key)).map (·.2)
  | _, _ => none

def ofNat (n : Nat) : Value := .number (.natural n)

def ofList {α : Type} (f : α → Value) (items : List α) : Value := .array (items.map f)

/-- A missing value is null. -/
def ofOption {α : Type} (f : α → Value) : Option α → Value
  | none => null
  | some a => f a

/-- A field of an object that is left out when its list is empty. -/
def listField (name : String) (items : List Value) : List (String × Value) :=
  if items.isEmpty then [] else [(name, array items)]

/-- A field of an object that is left out when it is missing. -/
def optionalField (name : String) (v : Option Value) : List (String × Value) :=
  (v.map fun v => (name, v)).toList

def string? : Value → Option String
  | string s => some s
  | _ => none

def array? : Value → Option (List Value)
  | array items => some items
  | _ => none

end Value

end AmpTuner.Json
