import TouchPanel.Record
import TouchPanel.Table
import TouchPanel.Yaml.Value

/-!
# Reading typed data from YAML terms

A decoder reads one type of data from a term. Tags only matter where they demand a
kind of scalar; a collection may be left empty.
-/

namespace TouchPanel.Yaml

abbrev Decoder (α : Type) := Term → Option α

namespace Decoder

variable {α β : Type}

/-- The text of any scalar. -/
def string : Decoder String
  | .scalar _ _ text => some (String.ofList text)
  | _ => none

/-- The text of a scalar that is plain, or literal with the given common tag. -/
def tagged? (tag : String) : Decoder Text
  | .scalar _ .plain text => some text
  | .scalar (some t) .literal text => if t = Tag.common tag then some text else none
  | _ => none

def bool : Decoder Bool := fun t => (tagged? "bool" t).bind Plain.bool?

/-- A natural number below `bound`. -/
def natBelow (bound : Nat) : Decoder Nat := fun t => do
  let text ← tagged? "int" t
  let n ← Plain.int? text
  if text.head? ≠ some '-' && n < bound then some n.toNat else none

/-- Null and the empty scalar read as nothing. -/
def optional (read : Decoder α) : Decoder (Option α)
  | .scalar tag .plain text =>
    match tag with
    | none => if Plain.isNull text then some none else (read (.scalar tag .plain text)).map some
    | some t =>
      if t = Tag.common "null" then if Plain.isNull text && !text.isEmpty then some none else none
      else (read (.scalar tag .plain text)).map some
  | t => (read t).map some

def list (read : Decoder α) : Decoder (List α)
  | .sequence _ items => items.mapM read
  | .scalar _ .plain [] => some []
  | _ => none

/-- The pairs of a mapping. -/
def pairs (key : Decoder α) (value : Decoder β) : Decoder (List (α × β))
  | .mapping _ ps => ps.mapM fun (k, v) => do return (← key k, ← value v)
  | .scalar _ .plain [] => some []
  | _ => none

/-- A mapping as a table; the last of several values for one key stays. -/
def table (read : Decoder α) : Decoder (Table String α) := fun t =>
  (pairs string read t).map Table.ofList

/-- A mapping that has no other keys than the fields of a record. -/
def record (names : List String) (fields : Record.Slots Term α) : Decoder α := fun t => do
  let ps ← pairs string some t
  if ps.all (names.contains ·.1) then
    let slots ← Record.slots? (names.map ([·])) ps
    fields.run' slots
  else none

end Decoder

end TouchPanel.Yaml
