import TouchPanel.Json.Value
import TouchPanel.Schema.Kind
import TouchPanel.Table
import TouchPanel.Text.Blank

/-!
# Schema registry

For each kind of widget the registry says which properties, style keys, parts and
events it has and under which names they are written. It is built from key tables
that are checked against each other.
-/

namespace TouchPanel

/-- A key that a widget may have, and the name under which it is written. -/
structure Field where
  key : String
  output : String
  default : Option Json.Value
  /-- Whether the default is written when the widget leaves the key unset. -/
  emitDefault : Bool

def Field.plain (key : String) : Field := ⟨key, key, none, false⟩

/-- The resolved key tables of one kind. -/
structure Schema where
  kind : WidgetKind
  /-- The key under which a widget is written. -/
  rootKey : String
  aliases : List String
  /-- Whether a list of children is written even when it is empty. -/
  container : Bool
  props : List Field
  style : List Field
  parts : List (String × List Field)
  events : List String
  /-- For an event that comes in quick succession, the one that ends it. -/
  commitEvents : Table String String

namespace Schema

def supportsEvent (s : Schema) (event : String) : Bool := s.events.contains event

def commitEvent? (s : Schema) (event : String) : Option String := s.commitEvents.get? event

def linkActions (s : Schema) : List LinkAction := LinkAction.all.filter (·.appliesTo s.kind)

end Schema

/-! ## Key tables -/

/-- What a key table says about one kind beyond what all kinds share. -/
structure KindTable where
  rootKey : Option String
  aliases : List String
  container : Bool
  props : List Field
  style : List Field
  /-- A part without fields of its own has the shared style keys. -/
  parts : Table String (List Field)
  events : List String
  commitEvents : Table String String

def KindTable.empty : KindTable := ⟨none, [], false, [], [], .empty, [], .empty⟩

structure KeyTables where
  props : List Field
  style : List Field
  events : List String
  kinds : Table String KindTable

/-- Why key tables make no registry. -/
inductive SchemaFault where
  | unknownKind (tag : String)
  | missingKind (kind : WidgetKind)
  | shadowingPart (kind : WidgetKind) (part : String)
  | unknownCommitEvent (kind : WidgetKind) (event commit : String)
  | noDefault (kind : WidgetKind) (key : String)

namespace SchemaFault

def inconsistent (tag reason : String) : String :=
  s!"Schema for '{tag}' is inconsistent: {reason}"

def message : SchemaFault → String
  | unknownKind tag => inconsistent tag "not a known widget kind"
  | missingKind kind => s!"Missing schema entry for widget kind '{kind.tag}'"
  | shadowingPart kind part => inconsistent kind.tag s!"part '{part}' shadows a field"
  | unknownCommitEvent kind event commit =>
    inconsistent kind.tag
      s!"commit event '{event}' -> '{commit}' names an event the kind does not emit"
  | noDefault kind key =>
    inconsistent kind.tag s!"field '{key}' emits a default but declares none"

end SchemaFault

namespace Field

/-- Puts a field in place of the one with the same key, or at the end. -/
def upsert (field : Field) : List Field → List Field
  | [] => [field]
  | f :: r => if f.key = field.key then field :: r else f :: upsert field r

def merge (shared own : List Field) : List Field := own.foldl (fun fs f => upsert f fs) shared

end Field

namespace Schema

/-- The shared events followed by the new ones. -/
def mergeEvents (shared own : List String) : List String :=
  own.foldl (fun es e => if es.contains e then es else es ++ [e]) shared

def check (fault : Option SchemaFault) : Except SchemaFault Unit :=
  match fault with
  | some f => .error f
  | none => .ok ()

/-- The schema of one kind from the shared tables and its own. -/
def build (tables : KeyTables) (kind : WidgetKind) (own : KindTable) :
    Except SchemaFault { s : Schema // s.kind = kind } := do
  let props := Field.merge tables.props own.props
  let style := Field.merge tables.style own.style
  let events := mergeEvents tables.events own.events
  check <| own.parts.keys.findSome? fun part =>
    if (props ++ style).any (·.output = part) then some (.shadowingPart kind part) else none
  check <| own.commitEvents.entries.findSome? fun (event, commit) =>
    if events.contains event && events.contains commit then none
    else some (.unknownCommitEvent kind event commit)
  check <| (props ++ style).findSome? fun f =>
    if f.emitDefault && f.default.isNone then some (.noDefault kind f.key) else none
  return ⟨{
    kind, props, style, events
    rootKey := own.rootKey.getD kind.tag
    aliases := own.aliases
    container := own.container
    parts := own.parts.entries.map fun (name, fields) =>
      (name, if fields.isEmpty then tables.style else fields)
    commitEvents := own.commitEvents }, rfl⟩

end Schema

/-! ## Registry -/

structure Registry where
  schemas : List Schema
  sharedStyle : List Field
  complete : schemas.map Schema.kind = WidgetKind.all

namespace Registry

/-- The schemas of the listed kinds. -/
def buildKinds (tables : KeyTables) :
    (kinds : List WidgetKind) → Except SchemaFault { l : List Schema // l.map Schema.kind = kinds }
  | [] => .ok ⟨[], rfl⟩
  | kind :: r =>
    match tables.kinds.get? kind.tag with
    | none => .error (.missingKind kind)
    | some own => do
      let s ← Schema.build tables kind own
      let rest ← buildKinds tables r
      return ⟨s.1 :: rest.1, by rw [List.map_cons, s.2, rest.2]⟩

def build (tables : KeyTables) : Except SchemaFault Registry := do
  Schema.check <| tables.kinds.keys.findSome? fun tag =>
    if (WidgetKind.ofTag? tag).isNone then some (.unknownKind tag) else none
  let schemas ← buildKinds tables WidgetKind.all
  return ⟨schemas.1, tables.style, schemas.2⟩

/-- Every kind has a schema. -/
theorem isSome_find (r : Registry) (kind : WidgetKind) :
    (r.schemas.find? (·.kind = kind)).isSome := by
  have h : kind ∈ r.schemas.map Schema.kind := r.complete ▸ kind.mem_all
  obtain ⟨s, hs, hk⟩ := List.mem_map.1 h
  exact List.find?_isSome.2 ⟨s, hs, by simpa using hk⟩

def schema (r : Registry) (kind : WidgetKind) : Schema :=
  (r.schemas.find? (·.kind = kind)).get (r.isSome_find kind)

/-- The schema that a tag of the editor or one of its aliases names. -/
def resolve? (r : Registry) (tag : String) : Option Schema :=
  r.schemas.find? fun s => s.kind.tag = trimmed tag || s.aliases.contains (trimmed tag)

end Registry

end TouchPanel
