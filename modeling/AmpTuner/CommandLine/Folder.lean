import AmpTuner.CommandLine.Path

/-!
Files as the command line sees them. A path is followed name by name, and every name but the last
must lead to a directory. Outside the folder nothing is known but directories and the null device.
-/

namespace AmpTuner.CommandLine

/-- Why a path does not lead to a file. -/
inductive Obstacle where
  | noEntry
  | notDirectory
  | isDirectory
  | nameTooLong
deriving Repr, DecidableEq

namespace Obstacle

def all : List Obstacle := [noEntry, notDirectory, isDirectory, nameTooLong]

/-- The number by which the system reports the obstacle. -/
def code : Obstacle → Nat
  | noEntry => 2
  | notDirectory => 20
  | isDirectory => 21
  | nameTooLong => 36

def ofCode? (code : Nat) : Option Obstacle := all.find? (·.code == code)

def reason : Obstacle → String
  | noEntry => "No such file or directory"
  | notDirectory => "Not a directory"
  | isDirectory => "Is a directory"
  | nameTooLong => "File name too long"

def message (o : Obstacle) : String := o.reason ++ " (os error " ++ toString o.code ++ ")"

end Obstacle

/-- What a path leads to. -/
inductive Entry where
  | missing
  | file (text : String)
  | unreadable (reason : String)
deriving Repr, DecidableEq

def Entry.text? : Entry → Option String
  | file text => some text
  | _ => none

/-- Only a directory is there without being readable. -/
def Entry.ofObstacle : Obstacle → Entry
  | .isDirectory => unreadable Obstacle.isDirectory.message
  | _ => missing

/-! ## Folders -/

/-- A folder by the files that are known. -/
structure Folder where
  files : List (Place × String) := []
deriving Repr, DecidableEq

namespace Folder

/-- The folder of the given files, which are named by their paths from it. -/
def ofFiles (files : List (String × String)) : Folder :=
  ⟨files.map fun (path, text) => ((Path.ofText path).names.foldl Place.next ⟨.above 0, []⟩, text)⟩

inductive Node where
  | directory
  | file (text : String)
deriving Repr, DecidableEq

def nullDevice : Place := ⟨.root, ["dev", "null"]⟩

/-- Directories that every system has below its root. -/
def standing : List Place := [⟨.root, ["dev"]⟩, ⟨.root, ["tmp"]⟩]

/-- What is at a place. -/
def node? (f : Folder) (place : Place) : Option Node :=
  if place = nullDevice then some (.file "")
  else
    match f.files.find? (·.1 == place) with
    | some (_, text) => some (.file text)
    | none =>
      let holds (file : Place × String) : Bool :=
        file.1.origin == place.origin && place.names.isPrefixOf file.1.names
      if place.names.isEmpty || standing.contains place || f.files.any holds then some .directory
      else none

/-- The longest name, in bytes. -/
def nameLimit : Nat := 255

/-- The longest path, in bytes. -/
def pathLimit : Nat := 4095

/-- Goes on from a directory to one inside it. -/
def enter (f : Folder) (place : Place) (name : String) : Except Obstacle Place :=
  if nameLimit < name.utf8ByteSize then .error .nameTooLong
  else
    match f.node? (place.next name) with
    | none => .error .noEntry
    | some (.file _) => .error .notDirectory
    | some .directory => .ok (place.next name)

/-- The directory in which the last name of a path stands. -/
def directory (f : Folder) (path : Path) : Except Obstacle Place :=
  path.names.dropLast.foldlM f.enter path.start

/-- The text of the file that a path leads to. -/
def read (f : Folder) (path : String) : Except Obstacle String :=
  if path.isEmpty then .error .noEntry
  else if pathLimit < path.utf8ByteSize then .error .nameTooLong
  else
    let path := Path.ofText path
    (f.directory path).bind fun place =>
      match f.node? (path.names.getLast?.elim place place.next) with
      | none => .error .noEntry
      | some .directory => .error .isDirectory
      | some (.file text) => if path.slashed then .error .notDirectory else .ok text

def entry (f : Folder) (path : String) : Entry :=
  match f.read path with
  | .ok text => .file text
  | .error obstacle => .ofObstacle obstacle

/-- The folder with a text at a place. The null device keeps nothing. -/
def put (f : Folder) (place : Place) (text : String) : Folder :=
  if place = nullDevice then f else ⟨f.files.filter (·.1 != place) ++ [(place, text)]⟩

/-- Writes a file, which need not exist. -/
def write (f : Folder) (path text : String) : Except Obstacle Folder :=
  if path.isEmpty then .error .noEntry
  else if pathLimit < path.utf8ByteSize then .error .nameTooLong
  else
    let path := Path.ofText path
    (f.directory path).bind fun place =>
      match path.names.getLast? with
      | none => .error .isDirectory
      | some name =>
        if name = "." || name = ".." || path.slashed then .error .isDirectory
        else if nameLimit < name.utf8ByteSize then .error .nameTooLong
        else if f.node? (place.next name) = some .directory then .error .isDirectory
        else .ok (f.put (place.next name) text)

end Folder

end AmpTuner.CommandLine
