import TouchPanel.Document.Assembly
import TouchPanel.Document.Fault
import TouchPanel.Region.Merge

/-!
# Self-check

A device is compiled twice, its document is checked, and exporting it is tried on
targets that are made up. No file is read or written.
-/

namespace TouchPanel

structure Check where
  name : String
  passed : Bool
  detail : String
  deriving DecidableEq

namespace Check

/-- A check that fails with the given problem, or passes. -/
def ofProblem (name : String) (problem : Option String) : Check :=
  ⟨name, problem.isNone, problem.getD ""⟩

def deterministic (first second : Text) : Check :=
  let (passed, detail) :=
    if Text.allBlank first then (false, "compiled document is empty")
    else if first ≠ second then (false, "two compilations of the same project differ")
    else (true, s!"{Text.byteSize first} bytes")
  ⟨"compile_deterministic", passed, detail⟩

def valid (document : Text) : Check :=
  let faults := Document.faults document
  ⟨"document_valid", faults.isEmpty, "; ".intercalate (faults.map (·.message))⟩

def userAbove : Text := "# user content above\nlogger:\n  level: INFO\n".toList

def userBelow : Text := "\n# user content below\n".toList

/-- Exports into user content and then once more. The second time nothing may change. -/
def secondExport (document : Text) : Except Refusal (Option String) := do
  let first ← Region.merge userAbove document .createOrUpdate
  let second ← Region.merge (first.text ++ userBelow) document .updateOnly
  return if second.changed then some "second export produced a diff"
    else if !Text.startsWith userAbove second.text || !Text.endsWith userBelow second.text then
      some "content outside the managed region changed"
    else none

def idempotent (document : Text) : Check :=
  ofProblem "export_idempotent" <| match secondExport document with
    | .ok problem => problem
    | .error refusal => some refusal.message

/-- A target with two begin markers. -/
def corrupted : Text :=
  Text.unlines [Region.beginMarker, "foo: 1".toList, Region.beginMarker, "bar: 2".toList,
    Region.endMarker]

def refusesDuplicates (document : Text) : Check :=
  ofProblem "duplicate_markers_abort" <| match Region.merge corrupted document .createOrUpdate with
    | .error (.duplicated ..) => none
    | _ => some "duplicated markers were not rejected"

end Check

/-- The checks of a device with a recipe. -/
def selfCheck (d : Device) (recipe : Text) (registry : Registry) (options : Options) : List Check :=
  let document := (Compilation.ofDevice d recipe registry options).document
  let again := (Compilation.ofDevice d recipe registry options).document
  [.deterministic document again, .valid document, .idempotent document,
    .refusesDuplicates document]

end TouchPanel
