/-!
# Records

A record is read from the terms of its fields, which are taken one after the other
in a fixed order. No field may stand twice.
-/

namespace TouchPanel.Record

variable {τ α : Type}

/-- The term of a field that may be known under several names. -/
def named? (names : List String) (fields : List (String × τ)) : Option (Option τ) :=
  match fields.filter (names.contains ·.1) with
  | [] => some none
  | [(_, t)] => some (some t)
  | _ => none

/-- The terms of the fields of a record, in the order of `names`. -/
def slots? (names : List (List String)) (fields : List (String × τ)) : Option (List (Option τ)) :=
  names.mapM (named? · fields)

/-- The fields of a record that are still to be read. -/
abbrev Slots (τ : Type) := StateT (List (Option τ)) Option

/-- Takes the next field off. -/
def next : Slots τ (Option τ) := fun s =>
  match s with
  | [] => none
  | t :: r => some (t, r)

/-- A field that must be there. -/
def required (read : τ → Option α) : Slots τ α := do
  match ← next with
  | none => failure
  | some t => read t

/-- A field that has a default. -/
def orElse (read : τ → Option α) (default : α) : Slots τ α := do
  match ← next with
  | none => return default
  | some t => read t

end TouchPanel.Record
