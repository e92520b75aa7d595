import TouchPanel.FileTree.Access
import TouchPanel.Region.Merge

/-!
# Exporting a document to a file

A document is merged into a target file. The result first goes to a temporary file
beside the target, which then takes the target's place, so that the target is never
half written. A result that is no change is not written.
-/

namespace TouchPanel

inductive ExportFault where
  | refused (refusal : Refusal)
  | file (path : String) (fault : FileFault)
  deriving DecidableEq

def ExportFault.message : ExportFault → String
  | refused refusal => s!"Export aborted: {refusal.message}"
  | file path fault => s!"I/O error on '{path}': {fault.message}"

namespace Region

variable {m : Type → Type} [Monad m] [FileAccess m]

/-- Does something with the file at a path. -/
def onFile {α : Type} (p : Path) (action : m (Except FileFault α)) : ExceptT ExportFault m α :=
  ExceptT.mk do return (← action).mapError (.file p.text)

/-- The text of a target, which is empty if the file does not exist. -/
def readTarget (p : Path) : ExceptT ExportFault m Text :=
  onFile p do
    match ← FileAccess.read p with
    | .error .absent => return .ok []
    | result => return result

/-- The file through which a target is written. -/
def temporary (p : Path) : Path := p.sibling s!".{p.name}.tmp"

/-- Replaces the text of a target at once. -/
def replaceFile (p : Path) (text : Text) : ExceptT ExportFault m Unit := do
  if let some parent := p.parents.head? then
    onFile parent (FileAccess.createDirectories p.parents)
  onFile (temporary p) (FileAccess.write (temporary p) text)
  onFile p do
    match ← FileAccess.rename (temporary p) p with
    | .ok () => return .ok ()
    | .error fault =>
      let _ ← FileAccess.remove (m := m) (temporary p)
      return .error fault

/-- Refuses a target with another hash than the expected one. -/
def demandHash (expected : Option String) (target : Text) : Except Refusal Unit :=
  match expected with
  | none => .ok ()
  | some expected =>
    if expected = hashOf target then .ok () else .error (.modified expected (hashOf target))

/-- Refuses a target that has changed since it was read. -/
def demandSame (target latest : Text) : Except Refusal Unit :=
  if latest = target then .ok () else .error (.modified (hashOf target) (hashOf latest))

/-- The result, or a refusal to export. -/
def orRefuse {α : Type} (r : Except Refusal α) : ExceptT ExportFault m α :=
  ExceptT.mk (pure (r.mapError .refused))

/-- Merges a document into the file at a path. The file must have the expected hash,
if one is given, and must not change before it is written. -/
def exportTo (p : Path) (document : Text) (mode : Mode) (expected : Option String) :
    ExceptT ExportFault m Merged := do
  let target ← readTarget p
  orRefuse (demandHash expected target)
  let merged ← orRefuse (merge target document mode)
  if merged.changed then
    orRefuse (demandSame target (← readTarget p))
    replaceFile p merged.text
  return merged

end Region

end TouchPanel
