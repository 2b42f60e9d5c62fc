import AmpTuner.Text.Affix

/-!
Paths, and the places in the tree of files that they name. A place is counted from the folder in
which the command line works, from a directory above it, or from the root of the system.
-/

namespace AmpTuner.CommandLine

/-- A directory from which the names of a place are counted. -/
inductive Origin where
  | root
  /-- So many levels above the folder. -/
  | above (levels : Nat)
deriving Repr, DecidableEq

structure Place where
  origin : Origin
  names : List String := []
deriving Repr, DecidableEq

namespace Place

def parent (p : Place) : Place :=
  match p.origin, p.names with
  | .root, [] => p
  | .above levels, [] => ⟨.above (levels + 1), []⟩
  | origin, names => ⟨origin, names.dropLast⟩

/-- The place of a name in the directory at a place. -/
def next (p : Place) (name : String) : Place :=
  if name = "." then p
  else if name = ".." then p.parent
  else { p with names := p.names ++ [name] }

end Place

/-- A path as it is written: where it starts, and the names from there. -/
structure Path where
  start : Place
  names : List String
  /-- Whether a slash stands at the end. -/
  slashed : Bool
deriving Repr, DecidableEq

namespace Path

def ofText (text : String) : Path where
  start := ⟨if Text.startsWith "/" text then .root else .above 0, []⟩
  names := (Text.split (· == '/') text).filter (!·.isEmpty)
  slashed := Text.endsWith "/" text

/-- What follows the last point of the last name, if something stands before it. -/
def extension? (path : Path) : Option String :=
  ((path.names.filter (· != ".")).getLast?).bind fun name =>
    match (Text.split (· == '.') name).reverse with
    | last :: before@(_ :: _) => if before = [""] then none else some last
    | _ => none

end Path

end AmpTuner.CommandLine
