import TouchPanel.Command.Run

/-!
# Command line

Runs a command line on the files of the machine.
-/

namespace TouchPanel

/-- The fault with a code of the machine, which may have a minus sign. -/
def FileFault.ofCode? (code : UInt32) : Option FileFault :=
  match min code (-code) with
  | 16 => some .busy
  | 17 => some .occupied
  | 20 => some .notDirectory
  | 21 => some .isDirectory
  | 36 => some .longName
  | _ => none

/-- The fault that an error of the machine stands for. -/
def FileFault.ofError (e : IO.Error) : FileFault :=
  match e with
  | .noFileOrDirectory .. => .absent
  | .resourceBusy code _ | .alreadyExists _ code _ | .inappropriateType _ code _
  | .invalidArgument _ code _ => (ofCode? code).getD (.other e.toString)
  | _ => .other e.toString

/-- The result of an action, or the fault that ends it. -/
def attempt {α : Type} (action : IO α) : IO (Except FileFault α) :=
  try return .ok (← action) catch e => return .error (.ofError e)

instance : FileAccess IO where
  read p := attempt do return (← IO.FS.readFile p.text).toList
  write p text := attempt (IO.FS.writeFile p.text (String.ofList text))
  createDirectory p := attempt do
    try IO.FS.createDir p.text
    catch
      | .alreadyExists .. => IO.FS.createDirAll p.text
      | e => throw e
  rename source target := attempt (IO.FS.rename source.text target.text)
  remove p := attempt (IO.FS.removeFile p.text)

end TouchPanel

open TouchPanel in
def main (args : List String) : IO UInt32 := do
  let report ← runLine (m := IO) args
  IO.eprint (String.ofList report.notes)
  IO.print (String.ofList report.out)
  return report.code.toUInt32
