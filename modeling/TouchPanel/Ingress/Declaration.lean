import TouchPanel.Diagnostic
import TouchPanel.Identifier
import TouchPanel.Order
import TouchPanel.Output.Node
import TouchPanel.Project.Basic
import TouchPanel.Table

/-!
# Declarations of inbound data

Each value that the project reads is declared once, in the section of its kind and
under an id derived from it. Declarations are ordered by kind, entity and attribute,
whatever the order of the bindings.
-/

namespace TouchPanel

/-- What identifies a declaration. Kinds without an attribute have an empty one. -/
structure SourceKey where
  kind : DataKind
  entityId : String
  attr : String
  deriving DecidableEq

namespace SourceKey

/-- Kind, entity and attribute decide about the order in this sequence. -/
def triple (k : SourceKey) : Nat × String × String := (k.kind.rank, k.entityId, k.attr)

private abbrev tripleOrder : Ord (Nat × String × String) := @Order.pair _ _ _ Order.pair

instance : Ord SourceKey := Order.image tripleOrder triple

instance : Std.TransOrd SourceKey :=
  letI : Ord (String × String) := Order.pair
  Order.transOrd_image Order.pair triple

instance : Std.LawfulEqOrd SourceKey :=
  letI : Ord (String × String) := Order.pair
  Order.lawfulEqOrd_image Order.pair fun a b h => by
    obtain ⟨ka, ea, aa⟩ := a
    obtain ⟨kb, eb, ab⟩ := b
    simp only [triple, Prod.mk.injEq] at h
    obtain ⟨hk, rfl, rfl⟩ := h
    have : ka = kb := by cases ka <;> cases kb <;> first | rfl | (simp [DataKind.rank] at hk)
    rw [this]

/-- The id under which the value is declared and read. -/
def id (k : SourceKey) : String :=
  let entity := Identifier.plain k.entityId
  let attr := if k.attr = "" then "attr" else Identifier.plain k.attr
  match k.kind with
  | .binary => "ha_bin_" ++ entity
  | .state => "ha_state_" ++ entity
  | .attributeNumber => "ha_num_" ++ entity ++ "_" ++ attr
  | .attributeText => "ha_txt_" ++ entity ++ "_" ++ attr

def sectionName (k : SourceKey) : String :=
  match k.kind with
  | .state | .attributeText => "text_sensor"
  | .attributeNumber => "sensor"
  | .binary => "binary_sensor"

/-- The event that announces a new value. -/
def trigger (k : SourceKey) : String :=
  match k.kind with
  | .binary => "on_state"
  | _ => "on_value"

/-- The value as messages name it. -/
def describe (k : SourceKey) : String :=
  if k.attr = "" then s!"{k.entityId} ({k.kind.tag})"
  else s!"{k.entityId}[{k.attr}] ({k.kind.tag})"

end SourceKey

def Source.key (s : Source) : SourceKey :=
  { kind := s.kind
    entityId := trimmed s.entityId
    attr := if s.kind.usesAttribute then (s.attr.map trimmed).getD "" else "" }

/-! ## Table of declarations -/

/-- The declared values, each with the updates that run when it changes. -/
abbrev Declarations := Table SourceKey (List Node)

namespace Declarations

/-- The declaration that an id belongs to. -/
def owner? (ds : Declarations) (id : String) : Option SourceKey := ds.keys.find? (·.id = id)

/-- Declares a value unless it is declared already or its id belongs to another
one, which is reported. -/
def declare (ds : Declarations) (key : SourceKey) : Declarations × List Diagnostic :=
  if ds.contains key then (ds, [])
  else match ds.owner? key.id with
    | some owner => (ds, [.derivedIdCollision key.id owner.describe key.describe])
    | none => (ds.insert key [], [])

/-- Appends an update to those of a declared value. -/
def attach (ds : Declarations) (key : SourceKey) (update : Node) : Declarations :=
  ds.modify key (· ++ [update])

/-- Takes in the binding at index `i`. -/
def addBinding (s : Declarations × List Diagnostic) (entry : Source × Nat) :
    Declarations × List Diagnostic :=
  let (ds, found) := s
  let (source, i) := entry
  if Identifier.isEntityReference (trimmed source.entityId) then
    let (ds, more) := ds.declare source.key
    (ds, found ++ more)
  else (ds, found ++ [.invalidEntityReference source.entityId s!"binding #{i}"])

def ofBindings (bindings : List Source) : Declarations × List Diagnostic :=
  bindings.zipIdx.foldl addBinding (.empty, [])

/-! ## Sections -/

/-- The entry of one declaration. -/
def entry (key : SourceKey) (updates : List Node) : Node :=
  let attrNode : Node :=
    if Identifier.plain key.attr = key.attr then .ident key.attr else .str key.attr
  .map ([("platform", .ident "homeassistant"), ("id", .ident key.id),
      ("entity_id", .ident key.entityId)] ++
    (if key.attr = "" then [] else [("attribute", attrNode)]) ++
    (if key.kind = .binary then [("publish_initial_state", .bool true)] else []) ++
    (if updates.isEmpty then [] else [(key.trigger, .single "then" (.list updates))]))

def sectionNames : List String := ["text_sensor", "sensor", "binary_sensor"]

/-- The sections that have entries. -/
def sections (ds : Declarations) : List (String × List Node) :=
  sectionNames.filterMap fun name =>
    match ds.entries.filter (·.1.sectionName = name) with
    | [] => none
    | es => some (name, es.map fun e => entry e.1 e.2)

end Declarations

end TouchPanel
