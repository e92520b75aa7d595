import TouchPanel.Schema.Registry
import TouchPanel.Yaml.Decode

/-!
# Reading key tables

Key tables are a YAML mapping with the entries that all kinds share and those of
each kind. A field is its key alone or a mapping that says more about it.
-/

namespace TouchPanel

open Yaml (Decoder Term Value)
open Yaml.Decoder (list table string bool optional record)
open Record (orElse required)

namespace Field

mutual

/-- The JSON value that a YAML value stands for. A number that is not finite becomes
null; the keys of a mapping must be strings. -/
def json? : Value → Option Json.Value
  | .null => some .null
  | .bool b => some (.bool b)
  | .int n => some (.number (.int n))
  | .float x => some (if x.isFinite then .number (.float x) else .null)
  | .string s => some (.string s)
  | .sequence items => (jsonItems? items).map .array
  | .mapping pairs => (jsonPairs? pairs).map fun ps => .object (Table.ofList ps).entries
  | .tagged .. => none

def jsonItems? : List Value → Option (List Json.Value)
  | [] => some []
  | v :: r =>
    match json? v, jsonItems? r with
    | some v, some vs => some (v :: vs)
    | _, _ => none

def jsonPairs? : List (Value × Value) → Option (List (String × Json.Value))
  | [] => some []
  | (k, v) :: r =>
    match k, json? v, jsonPairs? r with
    | .string k, some v, some ps => some ((k, v) :: ps)
    | _, _, _ => none

end

def attributes : List String := ["key", "output", "default", "emit_default"]

/-- Whether a term is a scalar that begins with a minus sign. -/
def hasMinus : Term → Bool
  | .scalar _ _ text => text.head? == some '-'
  | _ => false

/-- An attribute may be named by its number, without a minus sign even if that is
zero; other keys are of no concern. -/
def attribute? (t : Term) : Option String := do
  match ← Value.ofTerm? t with
  | .string s => some s
  | .int n => if hasMinus t then none else some (attributes.getD n.toNat "")
  | _ => none

private def string? : Value → Option String
  | .string s => some s
  | _ => none

private def bool? : Value → Option Bool
  | .bool b => some b
  | _ => none

private def optional? {α : Type} (read : Value → Option α) : Value → Option (Option α)
  | .null => some none
  | v => (read v).map some

def ofPairs? (pairs : List (Term × Term)) : Option Field := do
  let named ← pairs.mapM fun (k, v) => do return (← attribute? k, ← Value.ofTerm? v)
  let slots ← Record.slots? (attributes.map ([·])) named
  let read : Record.Slots Value Field := do
    let key ← required string?
    return {
      key := key
      output := (← orElse (optional? string?) none).getD key
      default := ← orElse (optional? json?) none
      emitDefault := ← orElse bool? false }
  read.run' slots

def decoder : Decoder Field := fun t => do
  let v ← Value.ofTerm? t
  if v.hasTag then none
  else match t, v with
    | _, .string key => some (.plain key)
    | .mapping _ pairs, _ => ofPairs? pairs
    | _, _ => none

end Field

def KindTable.decoder : Decoder KindTable :=
  record ["root_key", "aliases", "container", "props", "style", "parts", "events",
      "commit_events"] do
    return {
      rootKey := ← orElse (optional string) none
      aliases := ← orElse (list string) []
      container := ← orElse bool false
      props := ← orElse (list Field.decoder) []
      style := ← orElse (list Field.decoder) []
      parts := (← orElse (table (optional (list Field.decoder))) .empty).mapWithKey
        fun _ fields => fields.getD []
      events := ← orElse (list string) []
      commitEvents := ← orElse (table string) .empty }

namespace KeyTables

def shared : Decoder (List Field × List Field × List String) :=
  record ["props", "style", "events"] do
    return (← orElse (list Field.decoder) [], ← orElse (list Field.decoder) [],
      ← orElse (list string) [])

def decoder : Decoder KeyTables :=
  record ["common", "kinds"] do
    let (props, style, events) ← required shared
    let kinds ← required (table (optional KindTable.decoder))
    return { props, style, events, kinds := kinds.mapWithKey fun _ own => own.getD .empty }

end KeyTables

namespace Registry

/-- Why a text gives no registry. -/
inductive ReadingFault where
  | notTables
  | inconsistent (fault : SchemaFault)

def ReadingFault.message : ReadingFault → String
  | notTables => "Schema registry error: not a mapping with the key tables of the kinds"
  | inconsistent fault => fault.message

def ofText (t : Text) : Except ReadingFault Registry :=
  match (Yaml.Term.ofText? t).bind KeyTables.decoder with
  | none => .error .notTables
  | some tables => (build tables).mapError .inconsistent

end Registry

end TouchPanel
