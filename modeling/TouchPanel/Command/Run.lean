import TouchPanel.Command.Basic
import TouchPanel.Document.SelfCheck
import TouchPanel.Project.Reading
import TouchPanel.Recipe.Lint
import TouchPanel.Region.Export
import TouchPanel.Schema.Builtin
import TouchPanel.Schema.Reading

/-!
# Running commands

A command reads and writes files and ends with a report: what it prints, what it
notes beside that, and its exit code.
-/

namespace TouchPanel

structure Report where
  out : Text := []
  notes : Text := []
  code : Nat := 0
  deriving DecidableEq

namespace Report

/-- Prints one line more. -/
def print (r : Report) (line : String) : Report := { r with out := r.out ++ line.toList ++ ['\n'] }

/-- Notes one line more. -/
def note (r : Report) (line : String) : Report :=
  { r with notes := r.notes ++ line.toList ++ ['\n'] }

/-- Ends with the reason why the command cannot go on. -/
def fatal (r : Report) (reason : String) : Report := { r.note s!"✗ {reason}" with code := 2 }

def refuse (r : Report) (refusal : Refusal) : Report :=
  { r.note s!"✗ export aborted ({refusal.code}): {refusal.message}" with code := 1 }

end Report

namespace Invocation

variable {m : Type → Type} [Monad m] [FileAccess m]

/-! ## Inputs -/

def readFile (p : Path) : ExceptT String m Text :=
  ExceptT.mk do return (← FileAccess.read p).mapError fun f => s!"reading {p.text}: {f.message}"

def readOptions : Option Path → ExceptT String m Options
  | none => return {}
  | some p => ExceptT.mk do
    match ← FileAccess.read p with
    | .error fault => return .error (ExportFault.file p.text fault).message
    | .ok text => return (Options.ofText text).mapError (·.message)

def readRegistry : Option Path → ExceptT String m Registry
  | none => return .builtin
  | some p => do
    let text ← readFile p
    ExceptT.mk (pure ((Registry.ofText text).mapError fun f =>
      s!"loading schemas from {p.text}: {f.message}"))

/-- The device and the recipe. -/
def readInputs (i : Inputs) : ExceptT String m (Device × Text) := do
  let text ← readFile i.device
  match Device.ofText? text with
  | none => throw s!"parsing device {i.device.text}: Project parse error: not a device"
  | some device => return (device, ← readFile i.recipe)

/-! ## Commands -/

/-- What was found while compiling. -/
def notesOf (ds : List Diagnostic) : Report :=
  ds.foldl (fun r d => r.note s!"  [{d.severity.name}] {d.message}") {}

def compileReport (c : Compilation) (output : Option Path) (denyWarnings : Bool) : m Report := do
  let hasWarnings := c.diagnostics.any (·.severity.name = "warning")
  let report := { notesOf c.diagnostics with code := if denyWarnings && hasWarnings then 1 else 0 }
  match output with
  | none => return { report with out := c.document }
  | some p =>
    match ← FileAccess.write p c.document with
    | .ok () => return report.print s!"✓ wrote {p.text}"
    | .error fault => return report.fatal s!"writing {p.text}: {fault.message}"

/-- Says what an export would do. -/
def previewReport (report : Report) (p : Path) (document : Text) (mode : Region.Mode) :
    m Report := do
  let target ← FileAccess.read p
  let preview (text : Text) : Report :=
    match Region.preview text document mode with
    | .error refusal => report.refuse refusal
    | .ok preview =>
      (((report.print s!"outcome:       {preview.merged.outcome.name}").print
        s!"changed:       {preview.merged.changed}").print
        s!"expected hash: {preview.expectedHash}").print
        s!"new hash:      {preview.newHash}"
  match target with
  | .ok text => return preview text
  | .error .absent => return preview []
  | .error fault => return report.fatal s!"reading {p.text}: {fault.message}"

def exportReport (report : Report) (p : Path) (document : Text) (mode : Region.Mode)
    (expected : Option String) : m Report := do
  match ← (Region.exportTo p document mode expected).run with
  | .ok merged =>
    return report.print
      (if merged.changed then s!"✓ {p.text} {merged.outcome.name}" else s!"✓ {p.text} unchanged")
  | .error (.refused refusal) => return report.refuse refusal
  | .error fault => return report.fatal fault.message

def checkReport (checks : List Check) : Report :=
  let line (c : Check) : String :=
    let mark := if c.passed then "✓" else "✗"
    if c.detail = "" then s!"{mark} {c.name}" else s!"{mark} {c.name}: {c.detail}"
  let report := checks.foldl (fun r c => Report.print r (line c)) {}
  { report with code := if checks.all (·.passed) then 0 else 1 }

def lintReport (report : Report) (p : Path) (recipe : Text) : Report :=
  match Recipe.lint recipe with
  | [] => report.print s!"✓ {p.text} is usable"
  | faults =>
    let report := report.note s!"✗ {p.text} has problems:"
    { faults.foldl (fun r f => Report.note r s!"    {f.message}") report with code := 1 }

/-- Checks recipes up to the first that cannot be read. -/
def lintAll (report : Report) : List Path → m Report
  | [] => return report
  | p :: r => do
    match ← (readFile p).run with
    | .error reason => return report.fatal reason
    | .ok recipe => lintAll (lintReport report p recipe) r

/-- Runs a command with its options and registry. -/
def runCommand (options : Options) (registry : Registry) (c : Command) :
    ExceptT String m Report := do
  match c with
  | .compile inputs output denyWarnings =>
    let (device, recipe) ← readInputs inputs
    compileReport (m := m) (.ofDevice device recipe registry options) output denyWarnings
  | .merge inputs target updateOnly expected dryRun =>
    let (device, recipe) ← readInputs inputs
    let compiled := Compilation.ofDevice device recipe registry options
    let mode : Region.Mode := if updateOnly then .updateOnly else .createOrUpdate
    let report := notesOf compiled.diagnostics
    if dryRun then previewReport (m := m) report target compiled.document mode
    else exportReport (m := m) report target compiled.document mode expected
  | .selfCheck inputs =>
    let (device, recipe) ← readInputs inputs
    return checkReport (TouchPanel.selfCheck device recipe registry options)
  | .lint recipes => lintAll (m := m) {} recipes

def run (i : Invocation) : m Report := do
  let attempt : ExceptT String m Report := do
    let options ← readOptions i.config
    let registry ← readRegistry i.schemas
    runCommand options registry i.command
  match ← attempt.run with
  | .ok report => return report
  | .error reason => return Report.fatal {} reason

end Invocation

def usage : String :=
  "usage: touch-designer [--config FILE] [--schemas FILE] COMMAND\n" ++
  "  compile --device FILE --recipe FILE [-o FILE] [--deny-warnings]\n" ++
  "  export --device FILE --recipe FILE --target FILE [--update-only] [--expected-hash HASH]\n" ++
  "    [--dry-run]\n" ++
  "  self-check --device FILE --recipe FILE\n" ++
  "  lint-recipe FILE..."

/-- Runs a command line. -/
def runLine {m : Type → Type} [Monad m] [FileAccess m] (line : List String) : m Report :=
  match Request.ofLine? line with
  | none => return { Report.note {} usage with code := 2 }
  | some .version => return Report.print {} "touch-designer 0.1.0"
  | some (.run i) => i.run

end TouchPanel
