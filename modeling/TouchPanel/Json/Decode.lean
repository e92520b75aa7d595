import TouchPanel.Json.Term
import TouchPanel.Record

/-!
# Reading typed data from JSON terms

A decoder reads one type of data from a term with a bound on the nesting. A record
is an object with known fields, of which none may stand twice, or an array of the
fields in their order.
-/

namespace TouchPanel.Json

abbrev Decoder (α : Type) := Nat → Term → Option α

namespace Decoder

variable {α β : Type}

def string : Decoder String := fun _ t =>
  match t with
  | .string s => s
  | _ => none

def bool : Decoder Bool := fun _ t =>
  match t with
  | .bool b => some b
  | _ => none

/-- A double; integers are accepted. -/
def float : Decoder Float := fun _ t =>
  match t with
  | .number n => n.number?.map fun
    | .int i => Binary64.ofInt i
    | .float x => x
  | _ => none

/-- A natural number below `bound`. -/
def natBelow (bound : Nat) : Decoder Nat := fun _ t =>
  match t with
  | .number n => match n.number? with
    | some (.int i) => if 0 ≤ i && i < bound then some i.toNat else none
    | _ => none
  | _ => none

/-- A word of an enumeration, given as a string or as the only field of an object
whose value is null. -/
def word (read : String → Option α) : Decoder α := fun depth t =>
  match t with
  | .string (some s) => read s
  | .object [(some s, .null)] => if depth = 0 then none else read s
  | _ => none

/-- Null reads as nothing. -/
def optional (read : Decoder α) : Decoder (Option α) := fun depth t =>
  match t with
  | .null => some none
  | t => (read depth t).map some

def value : Decoder Value := Term.value?

def list (read : Decoder α) : Decoder (List α) := fun depth t =>
  match depth, t with
  | depth + 1, .array items => items.mapM (read depth)
  | _, _ => none

/-- An object as a table; the last of several values for one key stays. -/
def table (read : Decoder α) : Decoder (Table String α) := fun depth t =>
  match depth, t with
  | depth + 1, .object fields =>
    let field (f : Option String × Term) : Option (String × α) := do
      return (← f.1, ← read depth f.2)
    (fields.mapM field).map Table.ofList
  | _, _ => none

/-! ## Records -/

/-- The fields with their keys, all of which must be representable. -/
def keyed? (fields : List (Option String × Term)) : Option (List (String × Term)) :=
  fields.mapM fun f => f.1.map fun k => (k, f.2)

/-- The terms of the fields of a record, in the order of `names`. -/
def slots? (names : List (List String)) : Term → Option (List (Option Term))
  | .object fields => (keyed? fields).bind (Record.slots? names)
  | .array items =>
    if items.length ≤ names.length then
      some (items.map some ++ List.replicate (names.length - items.length) none)
    else none
  | _ => none

abbrev Slots := Record.Slots Term

def next : Slots (Option Term) := Record.next

def required (read : Decoder α) (depth : Nat) : Slots α := Record.required (read depth)

def orElse (read : Decoder α) (default : α) (depth : Nat) : Slots α :=
  Record.orElse (read depth) default

/-- Reads a record by taking its fields one after the other. -/
def record (names : List (List String)) (fields : Nat → Slots α) : Decoder α := fun depth t =>
  match depth with
  | 0 => none
  | depth + 1 => do
    let slots ← slots? names t
    let (a, _) ← (fields depth).run slots
    return a

end Decoder

end TouchPanel.Json
