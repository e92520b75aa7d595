import Mathlib.Data.List.Basic
import TouchPanel.Output.Content
import TouchPanel.Proofs.Access.Basic

/-!
# Accesses to editor values

The quotes of an expression are cut off at its two ends. A quote is one byte long, and an
expression that begins and ends with one is cut only if these are two.
-/

namespace TouchPanel.Access

open Text Json

/-! ## Expressions -/

/-- Whether a text of at least two bytes begins and ends with `q`. -/
def isQuoted (q : Char) (code : Text) : Bool :=
  2 ≤ byteSize code && code.head? == some q && code.getLast? == some q

/-- A text without its first and its last byte. -/
def stripEnds? (code : Text) : Option Text := do
  let last ← sub? (byteSize code) 1
  sliceBytes? 1 last code

/-- An expression without the quotes that it may have had in a document. -/
def unquoteCode? (code : Text) : Option Text :=
  if isQuoted '\'' code then (stripEnds? code).map (replace ['\'', '\''] ['\''])
  else if isQuoted '"' code then
    match Token.ofText? code with
    | some [.string (some s)] => some s.toList
    | _ => stripEnds? code
  else some code

theorem byteSize_singleton {q : Char} (h : q.utf8Size = 1) : byteSize [q] = 1 := h

/-- A text between two quotes can be cut at both of them. -/
theorem isQuoted_cases {q : Char} (hq : q.utf8Size = 1) (code : Text) :
    (isQuoted q code = false ∧ Node.between? q code = none) ∨
      ∃ inner, isQuoted q code = true ∧ Node.between? q code = some inner ∧
        stripEnds? code = some inner := by
  cases code with
  | nil => exact Or.inl ⟨rfl, rfl⟩
  | cons c r =>
    -- A single quote is both the first and the last character, and only its size rules it out.
    rcases List.eq_nil_or_concat' r with rfl | ⟨inner, e, rfl⟩
    · refine Or.inl ⟨?_, by simp [Node.between?]⟩
      by_cases hc : c = q
      · subst hc
        simp [isQuoted, byteSize_singleton hq]
      · simp [isQuoted, hc]
    · have hgetLast : (c :: (inner ++ [e])).getLast? = some e := by
        rw [← List.cons_append, List.getLast?_concat]
      by_cases hends : c = q ∧ e = q
      · obtain ⟨rfl, rfl⟩ := hends
        have hlast := sub?_byteSize_append (e :: inner) [e]
        have hinner := sliceBytes?_byteSize_append [e] inner [e]
        rw [byteSize_singleton hq] at hlast hinner
        have hsize : 2 ≤ byteSize (e :: (inner ++ [e])) := by
          rw [byteSize, byteSize_append, byteSize_singleton hq, hq]
          omega
        rw [List.cons_append] at hlast
        rw [List.singleton_append, List.cons_append] at hinner
        refine Or.inr ⟨inner, by simp [isQuoted, hsize, hgetLast], by simp [Node.between?], ?_⟩
        rw [stripEnds?, hlast]
        exact hinner
      · refine Or.inl ⟨?_, by simp [Node.between?, hends]⟩
        rw [not_and_or] at hends
        rcases hends with hc | he
        · simp [isQuoted, hc]
        · simp [isQuoted, hgetLast, he]

theorem unquoteCode?_eq (code : Text) : unquoteCode? code = some (Node.unquoteCode code) := by
  rw [unquoteCode?, Node.unquoteCode]
  rcases isQuoted_cases (q := '\'') (by decide) code with ⟨hq, hb⟩ | ⟨inner, hq, hb, hstrip⟩
  · rw [hq, hb]
    rcases isQuoted_cases (q := '"') (by decide) code with ⟨hq, hb⟩ | ⟨inner, hq, hb, hstrip⟩
    · rw [hq, hb]
      rfl
    · rw [hq, hb]
      simp only [Bool.false_eq_true, if_false, if_true, hstrip]
      split <;> simp_all
  · rw [hq, hb, hstrip]
    rfl

/-! ## Values -/

/-- The node of a string of the editor. -/
def textNode? (s : String) : Option (Option Node) :=
  if s = "" then some none
  else match after? Node.lambdaTag (trim s.toList) with
    | some code => (unquoteCode? (trim code)).map fun code => some (.lambda (String.ofList code))
    | none => some (some (if s.toList.contains '\n' then .text s else .str s))

theorem textNode?_eq (s : String) : textNode? s = some (Node.ofText? s) := by
  rw [textNode?, Node.ofText?]
  split
  · rfl
  · cases after? Node.lambdaTag (trim s.toList) with
    | none => rfl
    | some code =>
      simp only [unquoteCode?_eq]
      rfl

mutual

/-- The node of a value of the editor. -/
def jsonNode? (v : Value) : Option (Option Node) :=
  match v with
  | .string s => textNode? s
  | .array items => (jsonNodes? items).map fun nodes => some (.list nodes)
  | .object fields => (jsonEntries? fields).map fun entries => some (.map entries)
  | v => some (Node.ofValue? v)

/-- The nodes of those values that have one. -/
def jsonNodes? (items : List Value) : Option (List Node) :=
  match items with
  | [] => some []
  | v :: r => do
    let node ← jsonNode? v
    let rest ← jsonNodes? r
    return node.toList ++ rest

/-- The entries of those fields whose value has a node. -/
def jsonEntries? (fields : List (String × Value)) : Option Mapping :=
  match fields with
  | [] => some []
  | (key, v) :: r => do
    let node ← jsonNode? v
    let rest ← jsonEntries? r
    return (node.map fun node => (key, node)).toList ++ rest

end

mutual

theorem jsonNode?_eq (v : Value) : jsonNode? v = some (Node.ofValue? v) := by
  match v with
  | .string s => rw [jsonNode?, textNode?_eq, Node.ofValue?]
  | .array items =>
    have hitems := jsonNodes?_eq items
    rw [jsonNode?, hitems, Node.ofValue?]
    rfl
  | .object fields =>
    have hfields := jsonEntries?_eq fields
    rw [jsonNode?, hfields, Node.ofValue?]
    rfl
  | .null | .bool b | .number n => rfl

theorem jsonNodes?_eq (items : List Value) : jsonNodes? items = some (Node.ofValues items) := by
  match items with
  | [] => rfl
  | v :: r =>
    have hv := jsonNode?_eq v
    have hr := jsonNodes?_eq r
    rw [jsonNodes?, hv, hr, Node.ofValues]
    rfl

theorem jsonEntries?_eq (fields : List (String × Value)) :
    jsonEntries? fields = some (Node.ofFields fields) := by
  match fields with
  | [] => rfl
  | (key, v) :: r =>
    have hv := jsonNode?_eq v
    have hr := jsonEntries?_eq r
    rw [jsonEntries?, hv, hr, Node.ofFields]
    rfl

end

end TouchPanel.Access
