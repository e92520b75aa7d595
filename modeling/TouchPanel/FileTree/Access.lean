import TouchPanel.FileTree.Basic

/-!
# Access to files

What programs here do with files. They run on a file tree as well as on the files of
a machine.
-/

namespace TouchPanel

class FileAccess (m : Type → Type) where
  read : Path → m (Except FileFault Text)
  /-- Replaces the text of a file or makes a file. -/
  write : Path → Text → m (Except FileFault Unit)
  /-- Makes a directory in another one, unless it is there. -/
  createDirectory : Path → m (Except FileFault Unit)
  rename : (source target : Path) → m (Except FileFault Unit)
  remove : Path → m (Except FileFault Unit)

namespace FileAccess

variable {m : Type → Type} [Monad m] [FileAccess m]

/-- Makes the first of some directories, of which each is in the next one. Those around
it are made only if they are missing. -/
def createDirectories : List Path → m (Except FileFault Unit)
  | [] => return .ok ()
  | p :: around => do
    match ← createDirectory p with
    | .error .absent =>
      match ← createDirectories around with
      | .error fault => return .error fault
      | .ok () => createDirectory p
    | result => return result

end FileAccess

namespace FileTree

/-- Makes a change, unless it fails. -/
def change (f : FileTree → Except FileFault FileTree) : StateM FileTree (Except FileFault Unit) :=
  fun t => match f t with
    | .ok t => (.ok (), t)
    | .error fault => (.error fault, t)

instance : FileAccess (StateM FileTree) where
  read p := fun t => (t.read p, t)
  write p text := change (·.write p text)
  createDirectory p := change (·.createDirectory p)
  rename source target := change (·.rename source target)
  remove p := change (·.remove p)

end FileTree

end TouchPanel
