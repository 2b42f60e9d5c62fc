import AmpTuner.Text.Affix

/-!
Rules of the custom stylesheet, and the byte budget from which every pass that synthesizes rules draws. A
selector may hold a placeholder for the identifier of the element that the rule is for.
-/

namespace AmpTuner.Css

structure Rule where
  selector : String
  declaration : String
  media : Option String := none
deriving Repr, DecidableEq

/-- Stands in selectors for the identifier of the element. -/
def idPlaceholder : String := "__ID__"

def idSelector : String := "#__ID__"

namespace Rule

/-- Restricts the rule to a media condition. A blank one does not restrict it. -/
def withMedia (r : Rule) (condition : String) : Rule :=
  let condition := Text.trim condition
  { r with media := if condition.isEmpty then none else some condition }

def applyId (r : Rule) (id : String) : Rule :=
  { r with selector := Text.replace idPlaceholder id r.selector }

def toCss (r : Rule) : String :=
  let plain := r.selector ++ "\x7b" ++ r.declaration ++ "\x7d"
  match r.media with
  | none => plain
  | some condition => "@media " ++ condition ++ "\x7b" ++ plain ++ "\x7d"

def byteCount (r : Rule) : Nat := r.toCss.utf8ByteSize

end Rule

/-- Rules in order, with the running total of their bytes. -/
structure Rules where
  rules : List Rule := []
  byteCount : Nat := 0
deriving Repr, DecidableEq

namespace Rules

def add (rs : Rules) (r : Rule) : Rules := ⟨rs.rules ++ [r], rs.byteCount + r.byteCount⟩

def addAll (rs : Rules) (more : List Rule) : Rules := more.foldl add rs

def ofList (rules : List Rule) : Rules := addAll {} rules

def append (rs more : Rules) : Rules := rs.addAll more.rules

def applyId (rs : Rules) (id : String) : Rules := ofList (rs.rules.map (·.applyId id))

def toCss (rs : Rules) : String := String.join (rs.rules.map Rule.toCss)

end Rules

/-! ## The budget -/

/-- Bytes taken of a limit. -/
structure Budget where
  limit : Nat
  used : Nat
  used_le : used ≤ limit := by omega
deriving Repr, DecidableEq

/-- The largest custom stylesheet that is accepted, in bytes. -/
def maxCustomBytes : Nat := 75000

namespace Budget

def empty (limit : Nat) : Budget := { limit, used := 0 }

/-- A budget of which `used` bytes are taken, or all when there are fewer. -/
def ofUsed (limit used : Nat) : Budget := { limit, used := min used limit }

def remaining (b : Budget) : Nat := b.limit - b.used

/-- Takes `bytes` from the budget, all or nothing. -/
def allocate? (b : Budget) (bytes : Nat) : Option Budget :=
  if h : bytes ≤ b.remaining then
    some { limit := b.limit, used := b.used + bytes,
           used_le := by have := b.used_le; unfold remaining at h; omega }
  else none

instance : Inhabited Budget := ⟨empty maxCustomBytes⟩

end Budget

end AmpTuner.Css
