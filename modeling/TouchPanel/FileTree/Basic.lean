import TouchPanel.FileTree.Path
import TouchPanel.Table

/-!
# File trees

Directories and text files without links. A path leads to an entry if every step
before the last one leads to a directory.
-/

namespace TouchPanel

inductive Entry where
  | directory
  | file (text : Text)
  deriving DecidableEq

/-- Why a file cannot be accessed. -/
inductive FileFault where
  | absent
  | busy
  | occupied
  | notDirectory
  | isDirectory
  | longName
  /-- A path with a character that no name may have. -/
  | zeroInPath
  | other (message : String)
  deriving DecidableEq

def FileFault.message : FileFault → String
  | absent => "No such file or directory (os error 2)"
  | busy => "Device or resource busy (os error 16)"
  | occupied => "File exists (os error 17)"
  | notDirectory => "Not a directory (os error 20)"
  | isDirectory => "Is a directory (os error 21)"
  | longName => "File name too long (os error 36)"
  | zeroInPath => "file name contained an unexpected NUL byte"
  | other message => message

/-- The entries below the root, each under the names that lead to it. -/
structure FileTree where
  entries : Table (List String) Entry
  /-- The names that lead to the working directory. -/
  home : List String

namespace FileTree

/-- A tree with nothing but its working directory. -/
def empty (home : List String) : FileTree := ⟨.empty, home⟩

/-! ## Following paths -/

/-- The most octets that a name may have. -/
def nameLimit : Nat := 255

/-- A path must have fewer octets than this. -/
def pathLimit : Nat := 4096

/-- The entry with the given names. The working directory and those around it are
always there. -/
def entryAt (t : FileTree) (names : List String) : Option Entry :=
  if names.isPrefixOf t.home then some .directory else t.entries.get? names

/-- The entry with a name in a directory. -/
def lookup (t : FileTree) (front : List String) (name : String) :
    Except FileFault (Option Entry) :=
  if nameLimit < name.utf8ByteSize then .error .longName else .ok (t.entryAt (front ++ [name]))

/-- Goes one step from a directory to a directory. -/
def enter (t : FileTree) (front : List String) (step : String) :
    Except FileFault (List String) := do
  if step = "." then return front
  else if step = ".." then return front.dropLast
  else
    match ← t.lookup front step with
    | none => throw .absent
    | some (.file _) => throw .notDirectory
    | some .directory => return front ++ [step]

/-- The directory in which the last step of a path is taken, and the name of that step.
Without a name the path leads to a directory. -/
def locate (t : FileTree) (p : Path) : Except FileFault (Option (List String × String)) := do
  if p.text.toList.contains '\x00' then throw .zeroInPath
  else if pathLimit ≤ p.text.utf8ByteSize then throw .longName
  else
    match p.steps.getLast? with
    | none => if p.isAbsolute then return none else throw .absent
    | some last =>
      let front ← p.steps.dropLast.foldlM t.enter (if p.isAbsolute then [] else t.home)
      return if last = "." || last = ".." then none else some (front, last)

/-- The file at a path, with the names that lead to it. -/
def file (t : FileTree) (p : Path) : Except FileFault (List String × Text) := do
  match ← t.locate p with
  | none => throw .isDirectory
  | some (front, name) =>
    match ← t.lookup front name with
    | none => throw .absent
    | some .directory => throw .isDirectory
    | some (.file text) =>
      if p.hasFinalSlash then throw .notDirectory else return (front ++ [name], text)

/-! ## Access -/

def put (t : FileTree) (names : List String) (e : Entry) : FileTree :=
  { t with entries := t.entries.insert names e }

def erase (t : FileTree) (names : List String) : FileTree :=
  { t with entries := t.entries.erase names }

def read (t : FileTree) (p : Path) : Except FileFault Text := (t.file p).map (·.2)

def write (t : FileTree) (p : Path) (text : Text) : Except FileFault FileTree := do
  match ← t.locate p with
  | none => throw .isDirectory
  | some (front, name) =>
    if p.hasFinalSlash then throw .isDirectory
    else
      match ← t.lookup front name with
      | some .directory => throw .isDirectory
      | _ => return t.put (front ++ [name]) (.file text)

/-- Removes a file. -/
def remove (t : FileTree) (p : Path) : Except FileFault FileTree :=
  (t.file p).map fun (names, _) => t.erase names

/-- Moves a file over another one or to a free place. -/
def rename (t : FileTree) (source target : Path) : Except FileFault FileTree := do
  let (names, text) ← t.file source
  match ← t.locate target with
  | none => throw .busy
  | some (front, name) =>
    let old ← t.lookup front name
    if target.hasFinalSlash then throw .notDirectory
    else if old = some .directory then throw .isDirectory
    else return (t.erase names).put (front ++ [name]) (.file text)

/-- Makes a directory in another one, unless it is there. -/
def createDirectory (t : FileTree) (p : Path) : Except FileFault FileTree := do
  match ← t.locate p with
  | none => return t
  | some (front, name) =>
    match ← t.lookup front name with
    | none => return t.put (front ++ [name]) .directory
    | some .directory => return t
    | some (.file _) => throw .occupied

/-- The files in and below the working directory, with the names that lead to them from
there. -/
def files (t : FileTree) : List (List String × Text) :=
  t.entries.entries.filterMap fun
    | (names, .file text) =>
      if t.home.isPrefixOf names then some (names.drop t.home.length, text) else none
    | _ => none

end FileTree

end TouchPanel
