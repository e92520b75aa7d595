import Mathlib.Data.List.Basic
import TouchPanel.Output.Content

/-!
# Values without empty members

Null and the empty string have no node. What an array or an object has of them, at any depth, does
not show in its node.
-/

namespace TouchPanel

namespace Json.Value

/-- Null or the empty string. -/
def isUnset : Value → Bool
  | .null => true
  | .string s => s = ""
  | _ => false

mutual

/-- The value without null and empty strings among its members, at any depth. -/
def pruned (v : Value) : Value :=
  match v with
  | .array items => .array (prunedItems items)
  | .object fields => .object (prunedFields fields)
  | .null => .null
  | .bool b => .bool b
  | .number n => .number n
  | .string s => .string s

def prunedItems (items : List Value) : List Value :=
  match items with
  | [] => []
  | v :: r => if v.isUnset then prunedItems r else pruned v :: prunedItems r

def prunedFields (fields : List (String × Value)) : List (String × Value) :=
  match fields with
  | [] => []
  | (k, v) :: r => if v.isUnset then prunedFields r else (k, pruned v) :: prunedFields r

end

theorem isUnset_iff {v : Value} : v.isUnset = true ↔ v = .null ∨ v = .string "" := by
  cases v <;> simp [isUnset]

theorem prunedItems_eq (items : List Value) :
    prunedItems items = (items.filter (!·.isUnset)).map pruned := by
  induction items with
  | nil => rfl
  | cons v r ih =>
    rw [prunedItems, ih]
    cases h : v.isUnset <;> simp [h]

theorem string?_pruned (v : Value) : v.pruned.string? = v.string? := by
  cases v <;> simp [pruned, string?]

end Json.Value

namespace Node

open Json Json.Value

theorem ofText?_eq_none_iff {s : String} : ofText? s = none ↔ s = "" := by
  unfold ofText?
  split
  · next h => simp [h]
  · next h => split <;> simp [h]

/-- Only null and the empty string have no node. -/
theorem ofValue?_eq_none_iff {v : Value} : ofValue? v = none ↔ v.isUnset = true := by
  cases v with
  | string s =>
    rw [ofValue?, ofText?_eq_none_iff]
    simp [isUnset]
  | number n => cases n <;> simp [ofValue?, isUnset]
  | _ => simp [ofValue?, isUnset]

theorem isUnset_of_ofValue? {v : Value} {node : Node} (h : ofValue? v = some node) :
    v.isUnset = false := by
  rw [← Bool.not_eq_true, ← ofValue?_eq_none_iff, h]
  simp

mutual

/-- A value is written like the same value without null and empty strings among its members. -/
theorem ofValue?_pruned (v : Value) : ofValue? v.pruned = ofValue? v := by
  match v with
  | .array items => rw [pruned, ofValue?, ofValue?, ofValues_pruned items]
  | .object fields => rw [pruned, ofValue?, ofValue?, ofFields_pruned fields]
  | .null | .bool _ | .number _ | .string _ => rw [pruned]

theorem ofValues_pruned (items : List Value) : ofValues (prunedItems items) = ofValues items := by
  match items with
  | [] => rw [prunedItems]
  | v :: r =>
    rw [prunedItems, ofValues]
    split
    · next h =>
      rw [ofValue?_eq_none_iff.2 h, ofValues_pruned r]
      rfl
    · rw [ofValues, ofValue?_pruned v, ofValues_pruned r]

theorem ofFields_pruned (fields : List (String × Value)) :
    ofFields (prunedFields fields) = ofFields fields := by
  match fields with
  | [] => rw [prunedFields]
  | (k, v) :: r =>
    rw [prunedFields, ofFields]
    split
    · next h =>
      rw [ofValue?_eq_none_iff.2 h, ofFields_pruned r]
      rfl
    · rw [ofFields, ofValue?_pruned v, ofFields_pruned r]

end

/-- The items of a list that are written are those that are not unset. -/
theorem length_ofValues (items : List Value) :
    (ofValues items).length = items.countP (!·.isUnset) := by
  induction items with
  | nil => rfl
  | cons v r ih =>
    rw [ofValues, List.length_append, ih, List.countP_cons, Nat.add_comm]
    cases hv : ofValue? v with
    | none => simp [ofValue?_eq_none_iff.1 hv]
    | some node => simp [isUnset_of_ofValue? hv]

/-- The fields of an object that are written are those that are not unset. -/
theorem keys_ofFields (fields : List (String × Value)) :
    (ofFields fields).map (·.1) = (fields.filter (!·.2.isUnset)).map (·.1) := by
  induction fields with
  | nil => rfl
  | cons e r ih =>
    obtain ⟨k, v⟩ := e
    rw [ofFields, List.map_append, ih]
    cases hv : ofValue? v with
    | none => simp [ofValue?_eq_none_iff.1 hv]
    | some node => simp [isUnset_of_ofValue? hv]

end Node

end TouchPanel
