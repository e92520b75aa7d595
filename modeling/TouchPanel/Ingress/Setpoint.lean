import TouchPanel.Ingress.Declaration
import TouchPanel.Output.Rows

/-!
# Setpoint scripts

A setpoint script moves the target temperature of an entity by one step. It reads
the present target, which is declared if no binding has done so.
-/

namespace TouchPanel

namespace SetpointScript

def outId (s : SetpointScript) : String := Identifier.plain (trimmed s.id)

/-- Why a script is left out, given the ids of the scripts before it. -/
def fault? (s : SetpointScript) (taken : List String) : Option String :=
  if s.outId = "" then some "missing id"
  else if !Identifier.isEntityReference (trimmed s.entityId) then
    some "entity_id is not a valid entity reference"
  else if !s.step.isFinite || s.step <= 0.0 then some "step must be a positive number"
  else if taken.contains s.outId then some "duplicate script id"
  else none

/-- The target temperature of the entity. -/
def sensor (s : SetpointScript) : SourceKey :=
  Source.key ⟨s.entityId, .attributeNumber, some "temperature"⟩

def node (s : SetpointScript) : Node :=
  let sign := match s.direction with
    | .up => "+"
    | .down => "-"
  let code := s!"return id({s.sensor.id}).state {sign} {String.ofList (documentFloat s.step)}f;"
  .map [("id", .ident s.outId),
    ("then", .list [.single "homeassistant.action" (.map [
      ("action", .ident "climate.set_temperature"),
      ("data", .map [("entity_id", .str (trimmed s.entityId)), ("temperature", .lambda code)])])])]

end SetpointScript

structure ScriptRun where
  declarations : Declarations
  scripts : List SetpointScript
  diagnostics : List Diagnostic

namespace ScriptRun

def add (run : ScriptRun) (s : SetpointScript) : ScriptRun :=
  match s.fault? (run.scripts.map (·.outId)) with
  | some reason => { run with diagnostics := run.diagnostics ++ [.invalidScript s.id reason] }
  | none =>
    let (ds, found) := run.declarations.declare s.sensor
    ⟨ds, run.scripts ++ [s], run.diagnostics ++ found⟩

def ofScripts (scripts : List SetpointScript) (ds : Declarations) : ScriptRun :=
  scripts.foldl add ⟨ds, [], []⟩

def nodes (run : ScriptRun) : List Node := run.scripts.map (·.node)

end ScriptRun

end TouchPanel
